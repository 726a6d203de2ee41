import FeatureLint.Ledger

/-!
This file describes a ledger by its history. A mention is one occurrence of a name in a scope, and a
ledger is what is left of a list of mentions. Main statement: the lines that a ledger keeps for a name
in a scope are the lines of the mentions with that name and an alike scope, in order.
-/

namespace FeatureLint

/-- A mention says that a name occurred in a scope on a line. -/
structure Mention where
  scope : Scope
  name : Text
  line : Nat
deriving DecidableEq, Repr

theorem Scope.alike_refl (scope : Scope) : scope.alike scope = true := by
  simp [alike_iff]

theorem Scope.alike_comm (first second : Scope) : first.alike second = second.alike first := by
  rw [Bool.eq_iff_iff, alike_iff, alike_iff, eq_comm, @eq_comm _ first.rule?]

/-- Alike scopes are alike to the same scopes. -/
theorem Scope.alike_congr {first second : Scope} (same : first.alike second = true)
    (other : Scope) : first.alike other = second.alike other := by
  obtain ⟨sameFile, sameRule⟩ := (alike_iff first second).1 same
  rw [Bool.eq_iff_iff, alike_iff, alike_iff, sameFile, sameRule]

namespace Mention

/-- This test asks whether a mention records the name in a scope alike to the given one. -/
def records (name : Text) (scope : Scope) (mention : Mention) : Bool :=
  mention.scope.alike scope && mention.name = name

/-- A mention records a name in a scope when it has this name and an alike scope. -/
theorem records_iff (name : Text) (scope : Scope) (mention : Mention) :
    mention.records name scope = true ↔ mention.scope.alike scope = true ∧ mention.name = name := by
  simp [records]

/-- Two mentions clash when they record the same name in alike scopes. -/
def clashes (first second : Mention) : Prop :=
  first.scope.alike second.scope = true ∧ first.name = second.name

instance (first second : Mention) : Decidable (first.clashes second) :=
  inferInstanceAs (Decidable (_ ∧ _))

theorem clashes.symm {first second : Mention} (clash : first.clashes second) :
    second.clashes first := by
  obtain ⟨sameScope, sameName⟩ := clash
  exact ⟨Scope.alike_comm first.scope second.scope ▸ sameScope, sameName.symm⟩

/-- Mentions that record the same name in one scope clash. -/
theorem clashes_of_records {name : Text} {scope : Scope} {first second : Mention}
    (firstRecords : first.records name scope = true)
    (secondRecords : second.records name scope = true) : first.clashes second := by
  obtain ⟨firstScope, firstName⟩ := (records_iff name scope first).1 firstRecords
  obtain ⟨secondScope, secondName⟩ := (records_iff name scope second).1 secondRecords
  refine ⟨?_, firstName.trans secondName.symm⟩
  rw [Scope.alike_congr firstScope, Scope.alike_comm]
  exact secondScope

/-- These are the lines of the mentions that record a name in a scope. -/
def linesOf (mentions : List Mention) (name : Text) (scope : Scope) : List Nat :=
  (mentions.filter (records name scope)).map line

/-- The lines of a name come in the order of its mentions. -/
theorem linesOf_append (first second : List Mention) (name : Text) (scope : Scope) :
    linesOf (first ++ second) name scope = linesOf first name scope ++ linesOf second name scope := by
  rw [linesOf, List.filter_append, List.map_append]
  rfl

/-- Mentions are apart when no two of them clash. -/
def Apart (mentions : List Mention) : Prop :=
  mentions.Pairwise fun first second => ¬ first.clashes second

instance (mentions : List Mention) : Decidable (Apart mentions) :=
  inferInstanceAs (Decidable (mentions.Pairwise _))

/-- Among mentions that are apart every name has at most one line. -/
theorem Apart.length_linesOf {mentions : List Mention} (apart : Apart mentions) (name : Text)
    (scope : Scope) : (linesOf mentions name scope).length < 2 := by
  unfold linesOf
  rw [List.length_map]
  match found : mentions.filter (records name scope) with
  | [] | [_] => simp
  | first :: second :: rest =>
      have recording : ∀ mention ∈ first :: second :: rest, mention.records name scope = true := by
        intro mention member
        exact (List.mem_filter.1 (found ▸ member)).2
      have kept := List.Pairwise.filter (records name scope) apart
      rw [found] at kept
      have unclashed := (List.pairwise_cons.1 kept).1 second List.mem_cons_self
      exact absurd (clashes_of_records (recording first (by simp)) (recording second (by simp)))
        unclashed

/-- Mentions that clash are counted together. -/
theorem two_le_length_linesOf {mentions : List Mention} {first second : Mention}
    (inside : [first, second].Sublist mentions) (clash : first.clashes second) :
    2 ≤ (linesOf mentions second.name second.scope).length := by
  have firstRecords := (records_iff second.name second.scope first).2 clash
  have secondRecords := (records_iff second.name second.scope second).2
    ⟨Scope.alike_refl second.scope, rfl⟩
  have kept := (inside.filter (records second.name second.scope)).length_le
  simpa [linesOf, firstRecords, secondRecords] using kept

/-- Mentions stay apart when the names of the new ones are counted only once. -/
theorem apart_append_iff {old : List Mention} (apart : Apart old) (new : List Mention) :
    Apart (old ++ new) ↔
      ∀ mention ∈ new, (linesOf (old ++ new) mention.name mention.scope).length < 2 := by
  constructor
  · intro all mention _
    exact all.length_linesOf mention.name mention.scope
  · intro single
    refine List.pairwise_iff_forall_sublist.2 ?_
    intro first second inside clash
    have twice := two_le_length_linesOf inside clash
    obtain ⟨front, back, split, frontInside, backInside⟩ := List.sublist_append_iff.1 inside
    -- The second of two clashing mentions is new, since the old ones are apart.
    cases back with
    | nil =>
        rw [List.append_nil] at split
        exact List.pairwise_iff_forall_sublist.1 apart (split ▸ frontInside) clash
    | cons mention rest =>
        have last := List.getLast?_append ▸ congrArg List.getLast? split
        have member : second ∈ mention :: rest := List.mem_of_getLast? (by simpa using last.symm)
        exact absurd (single second (backInside.subset member)) (Nat.not_lt.2 twice)

end Mention

/-- Recording a name adds the line to this name only. -/
theorem NameLines.linesOf_record (name other : Text) (line : Nat) (names : NameLines) :
    linesOf other (record name line names) =
      if name = other then linesOf other names ++ [line] else linesOf other names := by
  induction names with
  | nil => rfl
  | cons mention rest inductionHypothesis =>
      obtain ⟨known, lines⟩ := mention
      by_cases here : known = name
      · subst here
        by_cases asked : known = other
        · simp [record, linesOf, asked]
        · simp [record, linesOf, asked]
      · by_cases asked : known = other
        · subst asked
          simp [record, linesOf, here, Ne.symm here]
        · simp [record, linesOf, here, asked, inductionHypothesis]

namespace Ledger

/-- Recording a name in a scope adds the line to this name in alike scopes only. -/
theorem occurrencesIn_recordIn (name other : Text) (scope place : Scope) (line : Nat)
    (scopes : List (Scope × NameLines)) :
    occurrencesIn other place (recordIn name scope line scopes) =
      if scope.alike place = true ∧ name = other then occurrencesIn other place scopes ++ [line]
      else occurrencesIn other place scopes := by
  induction scopes with
  | nil =>
      by_cases asked : scope.alike place
      · simp [recordIn, occurrencesIn, asked, NameLines.linesOf_record, NameLines.linesOf]
      · simp [recordIn, occurrencesIn, asked]
  | cons pair rest inductionHypothesis =>
      obtain ⟨known, names⟩ := pair
      by_cases here : known.alike scope
      · have same := Scope.alike_congr here place
        by_cases asked : scope.alike place
        · simp [recordIn, occurrencesIn, here, same, asked, NameLines.linesOf_record]
        · simp [recordIn, occurrencesIn, here, same, asked]
      · by_cases asked : known.alike place
        · have apart : scope.alike place = false := by
            rw [← Scope.alike_comm, ← Scope.alike_congr asked]
            exact Bool.eq_false_iff.2 here
          simp [recordIn, occurrencesIn, here, asked, apart]
        · simp [recordIn, occurrencesIn, here, asked, inductionHypothesis]

/-- This function records one mention. -/
def enter (ledger : Ledger) (mention : Mention) : Ledger :=
  ledger.record mention.name mention.scope mention.line

/-- A mention that is entered adds its line to what it records and to nothing else. -/
theorem occurrences_enter (ledger : Ledger) (mention : Mention) (name : Text) (scope : Scope) :
    (ledger.enter mention).occurrences name scope =
      ledger.occurrences name scope ++ Mention.linesOf [mention] name scope := by
  unfold enter record occurrences
  rw [occurrencesIn_recordIn]
  by_cases hit : mention.scope.alike scope = true ∧ mention.name = name
  · have records := (Mention.records_iff name scope mention).2 hit
    simp [hit, Mention.linesOf, records]
  · have misses := mt (Mention.records_iff name scope mention).1 hit
    simp [hit, Mention.linesOf, misses]

/-- This function records mentions one after the other. -/
def enterAll (ledger : Ledger) (mentions : List Mention) : Ledger :=
  mentions.foldl enter ledger

theorem enterAll_append (ledger : Ledger) (first second : List Mention) :
    ledger.enterAll (first ++ second) = (ledger.enterAll first).enterAll second :=
  List.foldl_append

/-- After several mentions the ledger has the lines of each name among them, behind the old ones. -/
theorem occurrences_enterAll (ledger : Ledger) (mentions : List Mention) (name : Text)
    (scope : Scope) :
    (ledger.enterAll mentions).occurrences name scope =
      ledger.occurrences name scope ++ Mention.linesOf mentions name scope := by
  induction mentions generalizing ledger with
  | nil => simp [enterAll, Mention.linesOf]
  | cons mention rest inductionHypothesis =>
      have recorded := inductionHypothesis (ledger.enter mention)
      rw [occurrences_enter, List.append_assoc, ← Mention.linesOf_append] at recorded
      exact recorded

/-- This is the ledger of a list of mentions. -/
def ofMentions (mentions : List Mention) : Ledger :=
  empty.enterAll mentions

/-- A ledger keeps the lines of its mentions. -/
theorem occurrences_ofMentions (mentions : List Mention) (name : Text) (scope : Scope) :
    (ofMentions mentions).occurrences name scope = Mention.linesOf mentions name scope :=
  occurrences_enterAll empty mentions name scope

/-- A duplicate splits two lines or more into the first and the others. -/
theorem duplicate?_eq_some_iff (ledger : Ledger) (name : Text) (scope : Scope)
    (duplicate : Duplicate) :
    ledger.duplicate? name scope = some duplicate ↔
      ledger.occurrences name scope = duplicate.first :: duplicate.repeats ∧
        duplicate.repeats ≠ [] := by
  obtain ⟨first, repeats⟩ := duplicate
  unfold duplicate?
  split
  · next second rest found =>
      rw [found]
      simp only [Option.some.injEq, Duplicate.mk.injEq, List.cons.injEq]
      constructor
      · intro given
        obtain ⟨rfl, rfl⟩ := given
        exact ⟨⟨rfl, rfl⟩, List.cons_ne_nil _ _⟩
      · exact fun same => same.1
  · next short =>
      constructor
      · intro impossible
        cases impossible
      · intro given
        obtain ⟨found, more⟩ := given
        obtain ⟨second, rest, rfl⟩ := List.exists_cons_of_ne_nil more
        exact absurd found (short first second rest)

/-- A name is no duplicate as long as it has fewer than two lines. -/
theorem duplicate?_eq_none_iff (ledger : Ledger) (name : Text) (scope : Scope) :
    ledger.duplicate? name scope = none ↔ (ledger.occurrences name scope).length < 2 := by
  unfold duplicate?
  split
  · next found => simp [found]
  · next short =>
      refine iff_of_true rfl (Nat.lt_of_not_le fun long => ?_)
      match found : ledger.occurrences name scope with
      | [] | [_] => simp [found] at long
      | first :: second :: rest => exact short first second rest found

end Ledger

end FeatureLint
