import FeatureLint.Proofs.Rebuild

/-!
This file reads back what was printed. Each reader passes over a gap, and from lines that show the
entries of a part of a feature it returns that part and leaves the lines of the entries after it. Main
statement: parsing the source text of a well-shaped document gives the document back.
-/

namespace FeatureLint

namespace Line

/-- A reader that passes over one line of a gap passes over the whole gap. -/
theorem skip_gap {Result : Type} {reader : List Line → Result}
    (skips : ∀ line rest, line.IsGap → reader (line :: rest) = reader rest) {gap : List Line}
    (blank : ∀ line ∈ gap, line.IsGap) (lines : List Line) : reader (gap ++ lines) = reader lines := by
  induction gap with
  | nil => rfl
  | cons line gap inductionHypothesis =>
      obtain ⟨here, others⟩ := List.forall_mem_cons.1 blank
      rw [List.cons_append, skips line _ here, inductionHypothesis others]

/-- The first entry, if there is one, is shown by lines whose keyword passes the test. -/
def Leads (test : Keyword → Bool) (entries : List (Nat × Text)) : Prop :=
  ∀ number text rest, entries = (number, text) :: rest →
    ∀ line : Line, line.Shows number text → line.keyword?.any test = true

theorem leads_nil (test : Keyword → Bool) : Leads test [] := by
  intro number text rest impossible
  cases impossible

/-- The line of a leading entry has a keyword that passes the test. -/
theorem exists_keyword_of_leads {test : Keyword → Bool} {number : Nat} {text : Text}
    {rest : List (Nat × Text)} (leads : Leads test ((number, text) :: rest)) {line : Line}
    (shows : line.Shows number text) :
    ∃ keyword, line.keyword? = some keyword ∧ test keyword = true := by
  simpa [Option.any_eq_true] using leads number text rest rfl line shows

/-- Entries that pass a test pass every weaker one. -/
theorem Leads.mono {test weaker : Keyword → Bool} {entries : List (Nat × Text)}
    (leads : Leads test entries) (implied : ∀ keyword, test keyword = true → weaker keyword = true) :
    Leads weaker entries := by
  rintro number text rest rfl line shows
  obtain ⟨keyword, found, passes⟩ := exists_keyword_of_leads leads shows
  rw [found]
  exact implied keyword passes

/-- A written name leads with the keyword of its kind. -/
theorem leads_of_name? {test : Keyword → Bool} {kind : Kind} {name : Text}
    (named : kind.name? = some name) (isName : Text.IsName name)
    (passes : kind.keyword?.any test = true) (number : Nat) (cells : List Text)
    (rest : List (Nat × Text)) : Leads test ((number, kind.write cells) :: rest) := by
  intro _ _ _ same line shows
  cases same
  rw [(shows.of_name? named isName).1, passes]

end Line

open Line

section

variable {gap : List Line} (blank : ∀ line ∈ gap, line.IsGap) (lines : List Line)

include blank

theorem Examples.readRows_gap (width? : Option Nat) :
    readRows width? (gap ++ lines) = readRows width? lines :=
  skip_gap (fun line rest here => by simp [readRows, here.2, opensSection]) blank lines

/-- The reader of a body passes over gaps. -/
theorem Block.readBody_gap (isOutline : Bool) :
    readBody isOutline (gap ++ lines) = readBody isOutline lines :=
  skip_gap (fun line rest here => by simp [readBody, here.2, opensSection]) blank lines

theorem Block.hasExamples_gap : hasExamples none (gap ++ lines) = hasExamples none lines :=
  skip_gap (fun line rest here => by simp [hasExamples, here.2, opensSection]) blank lines

theorem Block.readAll_gap (expected : Text) :
    readAll expected (gap ++ lines) = readAll expected lines :=
  skip_gap (fun line rest here => by simp [readAll, here.2, opensBlock]) blank lines

/-- Gaps may stand before the feature. -/
theorem Feature.dropWhile_gap :
    (gap ++ lines).dropWhile isPreamble = lines.dropWhile isPreamble :=
  skip_gap (fun line rest here => by simp [isPreamble, here.1]) blank lines

end

namespace Examples

/-- What ends a table is a heading. -/
theorem readRows_of_shown {rows : List Row} (proper : ∀ row ∈ rows, row.Proper) {width : Nat}
    (aligned : ∀ row ∈ rows, row.cells.length = width) (width? : Option Nat)
    (fixed : ∀ known, width? = some known → known = width) {later : List (Nat × Text)}
    {lines : List Line} (shown : Shown (rows.map Row.entry ++ later) lines)
    (leads : Leads (fun keyword => keyword.opensSection || keyword = .examples) later) :
    ∃ after, Shown later after ∧ readRows width? lines = .ok (rows, after) := by
  induction rows generalizing width? lines with
  | nil =>
      refine ⟨lines, shown, ?_⟩
      cases shown with
      | nil => rfl
      | cons shows blank others =>
          obtain ⟨keyword, found, ends⟩ := exists_keyword_of_leads leads shows
          cases keyword <;> first | contradiction | simp [readRows, found, opensSection,
            Keyword.opensSection, Keyword.opensBlock]
  | cons row rows inductionHypothesis =>
      obtain ⟨properRow, properRest⟩ := List.forall_mem_cons.1 proper
      obtain ⟨fits, alignedRest⟩ := List.forall_mem_cons.1 aligned
      cases shown with
      | @cons _ _ _ line gap rest shows blank others =>
          obtain ⟨isRow, cells⟩ := shows.of_row properRow
          subst fits
          obtain ⟨after, left, read⟩ := inductionHypothesis properRest alignedRest
            (some row.cells.length) (fun _ found => (Option.some.inj found).symm) others
          refine ⟨after, left, ?_⟩
          have agrees : width?.getD row.cells.length = row.cells.length := by
            cases width? with
            | none => rfl
            | some known => exact fixed known rfl
          simp only [readRows, isRow, cells, agrees, readRows_gap blank, read, shows.number_eq, if_true]

end Examples

namespace Block

/-- What ends a body is the first line of a section. -/
theorem readBody_of_leads (isOutline : Bool) {later : List (Nat × Text)} {lines : List Line}
    (shown : Shown later lines) (leads : Leads Keyword.opensSection later) :
    readBody isOutline lines = .ok ([], lines) := by
  cases shown with
  | nil => rw [readBody]
  | cons shows blank others =>
      obtain ⟨keyword, found, ends⟩ := exists_keyword_of_leads leads shows
      cases keyword <;> first | contradiction | simp [readBody, found, opensSection,
        Keyword.opensSection, Keyword.opensBlock]

/-- Looking ahead finds no examples when the next entry is a heading. -/
theorem hasExamples_of_leads {later : List (Nat × Text)} {lines : List Line}
    (shown : Shown later lines) (leads : Leads Keyword.opensSection later) :
    hasExamples none lines = false := by
  cases shown with
  | nil => rfl
  | cons shows blank others =>
      obtain ⟨keyword, found, ends⟩ := exists_keyword_of_leads leads shows
      cases keyword <;> first | contradiction | simp [hasExamples, found, opensSection,
        Keyword.opensSection, Keyword.opensBlock]

/-- Tables lead with examples, and where there are none the next entry is a heading. -/
theorem leads_tables {tables : List Examples} (proper : ∀ table ∈ tables, table.Proper)
    {later : List (Nat × Text)} (leads : Leads Keyword.opensSection later) :
    Leads (fun keyword => keyword.opensSection || keyword = .examples)
      (tables.flatMap Examples.entries ++ later) := by
  cases tables with
  | nil => exact leads.mono fun keyword opens => by rw [opens, Bool.true_or]
  | cons table tables => exact leads_of_name? rfl (proper table List.mem_cons_self).name rfl _ _ _

/-- The tables of a block are read back from the lines that show them. -/
theorem readBody_of_shown {tables : List Examples} (proper : ∀ table ∈ tables, table.Proper)
    {later : List (Nat × Text)} {lines : List Line}
    (shown : Shown (tables.flatMap Examples.entries ++ later) lines)
    (leads : Leads Keyword.opensSection later) :
    ∃ after, Shown later after ∧ readBody true lines = .ok (tables, after) := by
  induction tables generalizing lines with
  | nil => exact ⟨lines, shown, readBody_of_leads true shown leads⟩
  | cons table tables inductionHypothesis =>
      obtain ⟨properTable, properRest⟩ := List.forall_mem_cons.1 proper
      rw [List.flatMap_cons, List.append_assoc, Examples.entries, List.cons_append] at shown
      cases shown with
      | @cons _ _ _ line gap rest shows blank others =>
          obtain ⟨isExamples, name⟩ := shows.of_name? rfl properTable.name
          obtain ⟨width, aligned⟩ := properTable.aligned
          obtain ⟨afterRows, leftRows, rows⟩ := Examples.readRows_of_shown properTable.rows aligned none
            (fun _ missing => by cases missing) others (leads_tables properRest leads)
          obtain ⟨after, left, body⟩ := inductionHypothesis properRest leftRows
          refine ⟨after, left, ?_⟩
          rw [← Examples.readRows_gap blank] at rows
          simp only [readBody, isExamples, Kind.keyword?, if_true]
          split
          · next error failed => cases rows.symm.trans failed
          · next found last again =>
              cases rows.symm.trans again
              rw [body, name, shows.number_eq]

/-- A block is read from lines that show it. Looking ahead finds no examples below a scenario, because
the next entry opens a section. -/
theorem read_of_shown {block : Block} (proper : block.Proper) {line : Line} {gap lines : List Line}
    {later : List (Nat × Text)}
    (shows : line.Shows block.line ((block.form.kind block.name).write []))
    (blank : ∀ between ∈ gap, between.IsGap)
    (shown : Shown (block.form.tables.flatMap Examples.entries ++ later) lines)
    (leads : Leads Keyword.opensSection later) :
    ∃ after, Shown later after ∧ read line (gap ++ lines) = .ok (block, after) := by
  obtain ⟨number, name, form⟩ := block
  obtain ⟨found, text⟩ := shows.of_name? (Form.name?_kind name form) proper.name
  have whole {outline : Bool} {tables : List Examples} {after : List Line}
      (judged : isOutline line (gap ++ lines) = outline)
      (body : readBody outline lines = .ok (tables, after)) :
      read line (gap ++ lines) = .ok (⟨number, name, formOf line outline tables⟩, after) := by
    rw [read, judged, readBody_gap blank, body, text, shows.number_eq]
  cases form with
  | background =>
      have isBackground : line.keyword? = some .background := found
      refine ⟨lines, shown, ?_⟩
      rw [whole (by rw [isOutline, isBackground]) (readBody_of_leads false shown leads), formOf,
        if_pos isBackground]
  | scenario =>
      have isScenario : line.keyword? = some .scenario := found
      have judged : isOutline line (gap ++ lines) = false := by
        simp only [isOutline, isScenario, hasExamples_gap blank, hasExamples_of_leads shown leads]
      refine ⟨lines, shown, ?_⟩
      rw [whole judged (readBody_of_leads false shown leads), formOf, if_neg (by simp [isScenario]),
        if_neg Bool.false_ne_true]
  | outline tables =>
      have isOutline : line.keyword? = some .outline := found
      obtain ⟨after, left, body⟩ := readBody_of_shown proper.tables shown leads
      refine ⟨after, left, ?_⟩
      rw [whole (by rw [Block.isOutline, isOutline]) body, formOf, if_neg (by simp [isOutline]),
        if_pos rfl]
      rfl

/-- The line that shows a block opens it. -/
theorem opensBlock_of_shows {block : Block} (proper : block.Proper) {line : Line}
    (shows : line.Shows block.line ((block.form.kind block.name).write [])) :
    line.opensBlock = true := by
  rw [opensBlock, (shows.of_name? (Form.name?_kind _ _) proper.name).1]
  cases block.form <;> rfl

/-- Blocks lead with headings. -/
theorem leads_blocks {blocks : List Block} (proper : ∀ block ∈ blocks, block.Proper)
    {later : List (Nat × Text)} (leads : Leads Keyword.opensSection later) :
    Leads Keyword.opensSection (blocks.flatMap Block.entries ++ later) := by
  cases blocks with
  | nil => exact leads
  | cons block blocks =>
      intro number text rest same line shows
      cases same
      exact opensSection_of_opensBlock (opensBlock_of_shows (proper block List.mem_cons_self) shows)

/-- The reader of blocks reads the first block and then the others. -/
theorem readAll_of_opensBlock (expected : Text) {line : Line} (opens : line.opensBlock = true)
    {rest after last : List Line} {block : Block} {blocks : List Block}
    (first : read line rest = .ok (block, after))
    (others : readAll expected after = .ok (blocks, last)) :
    readAll expected (line :: rest) = .ok (block :: blocks, last) := by
  obtain ⟨keyword, found, isBlock⟩ := exists_keyword_of_opensBlock opens
  cases keyword <;> try contradiction
  all_goals
    simp only [readAll, found, opens, if_true]
    split
    · next error failed => cases first.symm.trans failed
    · next again => 
        cases first.symm.trans again
        rw [others]

/-- What ends the blocks of a section is a rule. -/
theorem readAll_of_shown (expected : Text) {blocks : List Block}
    (proper : ∀ block ∈ blocks, block.Proper) {later : List (Nat × Text)} {lines : List Line}
    (shown : Shown (blocks.flatMap Block.entries ++ later) lines)
    (leads : Leads (fun keyword => keyword = .rule) later) :
    ∃ after, Shown later after ∧ readAll expected lines = .ok (blocks, after) := by
  induction blocks generalizing lines with
  | nil =>
      refine ⟨lines, shown, ?_⟩
      cases shown with
      | nil => rw [readAll]
      | cons shows blank others =>
          obtain ⟨keyword, found, isRule⟩ := exists_keyword_of_leads leads shows
          rw [decide_eq_true_eq] at isRule
          rw [isRule] at found
          simp only [readAll, found]
  | cons block blocks inductionHypothesis =>
      obtain ⟨properBlock, properRest⟩ := List.forall_mem_cons.1 proper
      rw [List.flatMap_cons, List.append_assoc, Block.entries, List.cons_append] at shown
      cases shown with
      | @cons _ _ _ line gap rest shows blank others =>
          have opens := opensBlock_of_shows properBlock shows
          obtain ⟨afterBlock, leftBlock, first⟩ := read_of_shown properBlock shows blank others
            (leads_blocks properRest (leads.mono fun keyword isRule => by
              rw [decide_eq_true_eq] at isRule
              rw [isRule]
              rfl))
          obtain ⟨after, left, all⟩ := inductionHypothesis properRest leftBlock
          exact ⟨after, left, readAll_of_opensBlock expected
            (opensBlock_of_shows properBlock shows) first all⟩

end Block

/-- Rules lead with rules. -/
theorem Rule.leads_rules {rules : List Rule} (proper : ∀ rule ∈ rules, rule.Proper) :
    Leads (fun keyword => keyword = .rule) (rules.flatMap Rule.entries) := by
  cases rules with
  | nil => exact leads_nil _
  | cons rule rules => exact leads_of_name? rfl (proper rule List.mem_cons_self).name rfl _ _ _

/-- Rules are read back from the lines that show them. -/
theorem Rule.readAll_of_shown {rules : List Rule} (proper : ∀ rule ∈ rules, rule.Proper)
    {lines : List Line} (shown : Shown (rules.flatMap Rule.entries) lines) :
    Rule.readAll lines = .ok (rules, []) := by
  induction rules generalizing lines with
  | nil =>
      cases shown
      rw [readAll]
  | cons rule rules inductionHypothesis =>
      obtain ⟨properRule, properRest⟩ := List.forall_mem_cons.1 proper
      rw [List.flatMap_cons, Rule.entries, List.cons_append] at shown
      cases shown with
      | @cons _ _ _ line gap rest shows blank others =>
          obtain ⟨found, name⟩ := shows.of_name? rfl properRule.name
          have isRule : line.keyword? = some .rule := found
          obtain ⟨after, left, blocks⟩ := Block.readAll_of_shown "a scenario or background".toList
            properRule.blocks others (leads_rules properRest)
          rw [← Block.readAll_gap blank] at blocks
          rw [readAll, if_pos isRule]
          split
          · next error failed => cases blocks.symm.trans failed
          · next found last again =>
              cases blocks.symm.trans again
              rw [inductionHypothesis properRest left, name, shows.number_eq]

namespace Feature

/-- A feature is read back from the lines that show it. -/
theorem read_of_shown {feature : Feature} (proper : feature.Proper) {line : Line}
    {gap lines : List Line} (shows : line.Shows feature.line ((Kind.feature feature.name).write []))
    (blank : ∀ between ∈ gap, between.IsGap)
    (shown : Shown (feature.blocks.flatMap Block.entries ++ feature.rules.flatMap Rule.entries)
      lines) : read line (gap ++ lines) = .ok (feature, []) := by
  obtain ⟨after, left, blocks⟩ := Block.readAll_of_shown "a scenario, rule or background".toList
    proper.blocks shown (Rule.leads_rules proper.rules)
  have name := (shows.of_name? rfl proper.name).2
  rw [read, Block.readAll_gap blank, blocks]
  dsimp only
  rw [Rule.readAll_of_shown proper.rules left, name, shows.number_eq]

/-- A file is read from lines that show its feature. -/
theorem ofLines_of_shown {feature? : Option Feature} (proper : ∀ feature ∈ feature?, feature.Proper)
    {gap lines : List Line} (blank : ∀ line ∈ gap, line.IsGap)
    (shown : Shown (feature?.toList.flatMap Feature.entries) lines) :
    ofLines (gap ++ lines) = .ok feature? := by
  rw [ofLines, dropWhile_gap blank]
  cases feature? with
  | none =>
      cases shown
      rfl
  | some feature =>
      rw [Option.toList_some, List.flatMap_singleton, Feature.entries] at shown
      cases shown with
      | @cons _ _ _ line between rest shows blankBetween others =>
          have isFeature : line.keyword? = some .feature :=
            (shows.of_name? rfl (proper feature rfl).name).1
          have stays : ¬ isPreamble line = true := by
            simp [isPreamble, shows.isBlank_eq_false isFeature, isFeature]
          rw [List.dropWhile_cons_of_neg stays]
          dsimp only
          rw [if_pos isFeature, read_of_shown (proper feature rfl) shows blankBetween others]

end Feature

namespace Document

/-- The entries of a document stand on the lines of its nodes. -/
theorem map_fst_entries (document : Document) :
    document.entries.map Prod.fst =
      (document.walk.filter document.comesFromLine).filterMap document.line? := by
  rw [entries, List.map_filterMap]
  refine List.filterMap_congr fun number _ => ?_
  rw [written?, Option.map_map, line?]
  rfl

/-- An entry of a well-shaped document has a line number and fits on one line. -/
theorem WellShaped.of_mem_entries {document : Document} {path : Path}
    (shaped : document.WellShaped path) {entry : Nat × Text} (member : entry ∈ document.entries) :
    0 < entry.1 ∧ '\n' ∉ entry.2 := by
  obtain ⟨number, inside, found⟩ := List.mem_filterMap.1 member
  obtain ⟨node, here, rfl⟩ := Option.map_eq_some_iff.1 found
  have walked := List.mem_of_mem_filter inside
  refine ⟨shaped.positive number walked node.line (by rw [line?, here]; rfl), ?_⟩
  refine Kind.newline_not_mem_write _ fun name named => (shaped.names number walked name ?_).2
  rw [name?, kind?, here]
  exact named

/-- Parsing the source text of a well-shaped document gives the document back. -/
theorem parse_render {document : Document} {path : Path} (shaped : document.WellShaped path) :
    parse path document.render = .ok document := by
  obtain ⟨feature?, proper, same, entries⟩ := shaped.exists_ofFeature
  have ordered : (document.entries.map Prod.fst).Pairwise (· < ·) := by
    rw [map_fst_entries]
    exact shaped.lines
  obtain ⟨gap, ready, blank, shown, lines⟩ := LineReader.exists_shown ordered
    (fun _ member => (shaped.of_mem_entries member).1)
    (fun _ member => (shaped.of_mem_entries member).2) 0
  have source : Line.ofSource document.render = gap ++ ready := lines
  rw [entries] at shown
  rw [parse, source, Feature.ofLines_of_shown proper blank shown, same]
  rfl

/-- A name may look like a keyword, and a cell may hold bars, backslashes and newlines. -/
theorem parse_render_with_escapes :
    let path : Path := ⟨"a.feature".toList⟩
    let document := ofFeature path (some ⟨2, "Rule: F".toList, [⟨3, [], .background⟩,
      ⟨5, "| <x>".toList, .outline [⟨6, [], [⟨7, ["|".toList, "a\nb".toList]⟩,
        ⟨9, ["\\n".toList, []]⟩]⟩]⟩], [⟨10, "R".toList, [⟨11, "S".toList, .scenario⟩]⟩]⟩)
    document.WellShaped path ∧ document.render = ("\nFeature: Rule: F\nBackground: \n\n" ++
      "Scenario Outline: | <x>\nExamples: \n|\\||a\\nb|\n\n|\\\\n||\nRule: R\nScenario: S\n").toList ∧
      parse path document.render = .ok document := by
  intro path document
  have shaped : document.WellShaped path := by decide +kernel
  exact ⟨shaped, by decide +kernel, parse_render shaped⟩

end Document

end FeatureLint
