import FeatureLint.Proofs.Ordering
import FeatureLint.Report.Grouped
import Mathlib.Data.List.Flatten
import Mathlib.Data.List.Induction
import Mathlib.Data.List.Permutation

/-!
This file says what the listing for people shows. Linters, and the messages of each linter, stand in the
order of their first appearance, and a message is followed by the locations of exactly its problems. Main
statement: the listing shows each problem once, in this arrangement, and two lists of the same problems
with linters and messages in the same order give the same text.
-/

namespace FeatureLint.Report.Grouped

section Groups

variable {Item Key Value : Type} [DecidableEq Key] (key : Item → Key) (value : Item → Value)

/-- These are the keys of the items in the order of their first appearance. -/
def keysOf (items : List Item) : List Key :=
  (items.map key).eraseDups

/-- The keys are those of the items. -/
theorem mem_keysOf {items : List Item} {own : Key} :
    own ∈ keysOf key items ↔ ∃ item ∈ items, key item = own := by
  rw [keysOf, List.mem_eraseDups, List.mem_map]

/-- A last item adds its key when the key is new. -/
theorem keysOf_concat (items : List Item) (item : Item) :
    keysOf key (items ++ [item]) =
      if key item ∈ keysOf key items then keysOf key items else keysOf key items ++ [key item] := by
  have member : key item ∈ keysOf key items ↔ key item ∈ items.map key := List.mem_eraseDups
  rw [keysOf, List.map_append, List.eraseDups_append, List.map_singleton, List.removeAll]
  by_cases known : key item ∈ items.map key
  · rw [if_pos (member.2 known), List.filter_cons_of_neg (by simpa using known)]
    exact List.append_nil _
  · rw [if_neg (member.not.2 known), List.filter_cons_of_pos (by simpa using known)]
    rfl

theorem nodup_keysOf (items : List Item) : (keysOf key items).Nodup := by
  induction items using List.reverseRecOn with
  | nil => exact List.nodup_nil
  | append_singleton items item inductionHypothesis =>
      rw [keysOf_concat]
      split
      · exact inductionHypothesis
      · next unknown => exact List.nodup_append.2 ⟨inductionHypothesis, List.nodup_singleton _, by grind⟩

/-- A value joins those of its key, and a new key goes to the end. -/
theorem insert_map {keys : List Key} (distinct : keys.Nodup) (values : Key → List Value) (own : Key)
    (new : Value) :
    insert own new (keys.map fun known => (known, values known)) =
      if own ∈ keys then
        keys.map fun known => (known, if known = own then values known ++ [new] else values known)
      else keys.map (fun known => (known, values known)) ++ [(own, [new])] := by
  induction keys with
  | nil => rfl
  | cons known rest inductionHypothesis =>
      obtain ⟨fresh, distinct⟩ := List.nodup_cons.1 distinct
      by_cases here : known = own
      · subst here
        have untouched : ∀ other ∈ rest,
            (other, values other) =
              (other, if other = known then values other ++ [new] else values other) := by
          intro other member
          have apart : other ≠ known := fun same => fresh (same ▸ member)
          rw [if_neg apart]
        simp [insert, List.map_congr_left untouched]
      · rw [List.map_cons, insert, if_neg here, inductionHypothesis distinct]
        by_cases later : own ∈ rest
        · simp [later, here]
        · simp [later, Ne.symm here]

/-- Grouping gives each key the values of exactly its items. -/
theorem groupBy_eq (items : List Item) :
    groupBy key value items =
      (keysOf key items).map fun own => (own, (items.filter (key · = own)).map value) := by
  induction items using List.reverseRecOn with
  | nil => rfl
  | append_singleton items item inductionHypothesis =>
      have step : groupBy key value (items ++ [item]) =
          insert (key item) (value item) (groupBy key value items) := by
        rw [groupBy, List.foldl_append]
        rfl
      rw [step, inductionHypothesis, insert_map (nodup_keysOf key items), keysOf_concat]
      split
      · apply List.map_congr_left
        intro own _
        by_cases same : key item = own
        · simp [same]
        · simp [same, Ne.symm same]
      · next unknown =>
          have apart : ∀ own ∈ keysOf key items, key item ≠ own :=
            fun own member same => unknown (same ▸ member)
          have none : items.filter (key · = key item) = [] := by
            rw [List.filter_eq_nil_iff]
            intro other member same
            exact unknown ((mem_keysOf key).2 ⟨other, member, of_decide_eq_true same⟩)
          rw [List.map_append, List.map_singleton]
          congr 1
          · apply List.map_congr_left
            intro own member
            simp [apart own member]
          · simp [none]

/-- Distinct keys that cover all items share the items out, so that none is lost and none is repeated. -/
theorem flatMap_filter_perm {keys : List Key} (distinct : keys.Nodup) {items : List Item}
    (covered : ∀ item ∈ items, key item ∈ keys) :
    (keys.flatMap fun own => items.filter (key · = own)).Perm items := by
  induction items with
  | nil => simp
  | cons item rest inductionHypothesis =>
      obtain ⟨here, covered⟩ := List.forall_mem_cons.1 covered
      have split (own : Key) : (item :: rest).filter (key · = own) =
          (if key item = own then [item] else []) ++ rest.filter (key · = own) := by
        by_cases same : key item = own <;> simp [same]
      have alone : keys.flatMap (fun own => if key item = own then [item] else []) = [item] := by
        obtain ⟨before, after, rfl⟩ := List.append_of_mem here
        have apart := List.nodup_middle.1 distinct
        rw [List.nodup_cons, List.mem_append, not_or] at apart
        have nothing {others : List Key} (absent : key item ∉ others) :
            others.flatMap (fun own => if key item = own then [item] else []) = [] := by
          rw [List.flatMap_eq_nil_iff]
          intro own member
          have other : key item ≠ own := fun same => absent (same ▸ member)
          rw [if_neg other]
        rw [List.flatMap_append, List.flatMap_cons, nothing apart.1.1, nothing apart.1.2, if_pos rfl]
        rfl
      simp only [split]
      refine (List.flatMap_append_perm _ _ _).symm.trans ?_
      rw [alone]
      exact (inductionHypothesis covered).cons item

end Groups

/-- Lists with the same keys show the same when items with the same key do. -/
theorem map_eq_of_key {Item Key Other : Type} {key : Item → Key} {shown : Item → Other}
    {first second : List Item} (keys : first.map key = second.map key)
    (agree : ∀ one ∈ first, ∀ other ∈ second, key one = key other → shown one = shown other) :
    first.map shown = second.map shown := by
  induction first generalizing second with
  | nil => rw [List.map_eq_nil_iff.1 keys.symm]
  | cons item rest inductionHypothesis =>
      obtain ⟨other, others, rfl, same, keysLater⟩ := List.map_eq_cons_iff.1 keys.symm
      have here := agree item List.mem_cons_self other List.mem_cons_self same.symm
      have later := inductionHypothesis keysLater.symm fun one member two memberToo =>
        agree one (List.mem_cons_of_mem _ member) two (List.mem_cons_of_mem _ memberToo)
      rw [List.map_cons, List.map_cons, here, later]

/-- These are the linters that report problems. -/
def lintersOf (problems : List Problem) : List Text :=
  keysOf Problem.linter problems

/-- These are the messages of one linter. -/
def messagesOf (problems : List Problem) (linter : Text) : List Text :=
  keysOf Problem.message (problems.filter (Problem.linter · = linter))

/-- These are the problems that one linter reports with one message. -/
def problemsOf (problems : List Problem) (linter message : Text) : List Problem :=
  problems.filter fun problem => problem.linter = linter ∧ problem.message = message

def locationsOf (problems : List Problem) (linter message : Text) : List Location :=
  (problemsOf problems linter message).map Problem.location

/-- The name of each linter stands above its messages, each message above its locations, and the number of
all problems at the end. -/
def listing (problems : List Problem) : Text :=
  ((lintersOf problems).flatMap fun linter =>
    linter ++ ['\n'] ++ (messagesOf problems linter).flatMap fun message =>
      "  ".toList ++ message ++ ['\n'] ++
        (Location.sort (locationsOf problems linter message)).flatMap fun location =>
          "    ".toList ++ location.text ++ ['\n']) ++
    (if problems = [] then [] else ['\n']) ++ Text.ofNat problems.length ++ " issues found\n".toList

/-- The problems with a linter and a message are found in two steps. -/
theorem filter_filter_eq (problems : List Problem) (linter message : Text) :
    (problems.filter (Problem.linter · = linter)).filter (Problem.message · = message) =
      problemsOf problems linter message := by
  rw [List.filter_filter, problemsOf]
  congr 1
  funext problem
  rw [Bool.and_comm, Bool.decide_and]

/-- The part of a linter has its messages and under each of them the sorted locations. -/
theorem linter_eq (problems : List Problem) (linter : Text) :
    Grouped.linter (linter, problems.filter (Problem.linter · = linter)) =
      linter ++ ['\n'] ++ (messagesOf problems linter).flatMap fun message =>
        "  ".toList ++ message ++ ['\n'] ++
          (Location.sort (locationsOf problems linter message)).flatMap fun location =>
            "    ".toList ++ location.text ++ ['\n'] := by
  have messages : groupBy Problem.message Problem.location (problems.filter (Problem.linter · = linter)) =
      (messagesOf problems linter).map fun message => (message, locationsOf problems linter message) := by
    simp only [groupBy_eq, filter_filter_eq, messagesOf, locationsOf]
  rw [Grouped.linter, messages, List.flatMap_map, List.append_assoc]
  simp only [message, List.append_assoc]
  rfl

/-- The report is the listing. -/
theorem render_eq_listing (problems : List Problem) : render problems = listing problems := by
  have empty : (if problems.isEmpty then [] else ['\n']) = if problems = [] then [] else ['\n'] := by
    cases problems <;> rfl
  simp only [render, groupBy_eq, List.flatMap_map, List.map_id, linter_eq, empty]
  rfl

/-- The groups of a listing hold each problem once. -/
theorem flatMap_problemsOf_perm (problems : List Problem) :
    ((lintersOf problems).flatMap fun linter =>
      (messagesOf problems linter).flatMap (problemsOf problems linter)).Perm problems := by
  have shared (key : Problem → Text) (items : List Problem) :
      ((keysOf key items).flatMap fun own => items.filter (key · = own)).Perm items :=
    flatMap_filter_perm key (nodup_keysOf key items) fun item member =>
      (mem_keysOf key).2 ⟨item, member, rfl⟩
  refine List.Perm.trans ?_ (shared Problem.linter problems)
  refine List.Perm.flatMap_left _ fun linter _ => ?_
  have inside := shared Problem.message (problems.filter (Problem.linter · = linter))
  simp only [filter_filter_eq] at inside
  exact inside

/-- Sorted locations are shown alike, whatever order they had, when those that are alike are shown alike. -/
theorem map_text_sort_of_perm {first second : List Location} (reordered : first.Perm second)
    (display : ∀ one ∈ first, ∀ other ∈ first, one.alike other = true → one.text = other.text) :
    (Location.sort first).map Location.text = (Location.sort second).map Location.text := by
  have sortedFirst := (Location.sort_eq_iff first _).1 rfl
  have sortedSecond := (Location.sort_eq_iff second _).1 rfl
  have keys : (Location.sort first).map Location.key = (Location.sort second).map Location.key :=
    map_key_eq_of_perm (sortedFirst.reordered.trans (reordered.trans sortedSecond.reordered.symm))
      (pairwise_mergeSort_key Location.le_iff first) (pairwise_mergeSort_key Location.le_iff second)
  refine map_eq_of_key keys fun one inFirst other inSecond same => ?_
  refine display one (sortedFirst.reordered.mem_iff.1 inFirst) other
    (reordered.mem_iff.2 (sortedSecond.reordered.mem_iff.1 inSecond)) ?_
  rw [Location.alike_iff, same]

/-- Reordered problems have the same sorted locations when alike ones are written alike. -/
theorem map_text_locationsOf_of_perm {problems others : List Problem} (reordered : problems.Perm others)
    (display : ∀ one ∈ problems, ∀ other ∈ problems, one.location.alike other.location = true →
      one.location.text = other.location.text) (linter message : Text) :
    (Location.sort (locationsOf problems linter message)).map Location.text =
      (Location.sort (locationsOf others linter message)).map Location.text := by
  refine map_text_sort_of_perm ((reordered.filter _).map _) ?_
  intro one inGroup other inGroupToo
  obtain ⟨problem, member, rfl⟩ := List.mem_map.1 inGroup
  obtain ⟨another, memberToo, rfl⟩ := List.mem_map.1 inGroupToo
  exact display problem (List.mem_of_mem_filter member) another (List.mem_of_mem_filter memberToo)

/-- The order of the problems shows only in the order of linters and of messages. -/
theorem listing_of_perm {problems others : List Problem} (reordered : problems.Perm others)
    (sameLinters : lintersOf problems = lintersOf others)
    (sameMessages : ∀ linter ∈ lintersOf problems, messagesOf problems linter = messagesOf others linter)
    (display : ∀ one ∈ problems, ∀ other ∈ problems, one.location.alike other.location = true →
      one.location.text = other.location.text) :
    listing problems = listing others := by
  have lines (locations : List Location) :
      locations.flatMap (fun location => "    ".toList ++ location.text ++ ['\n']) =
        (locations.map Location.text).flatMap fun shown => "    ".toList ++ shown ++ ['\n'] := by
    rw [List.flatMap_map]
  have empty : problems = [] ↔ others = [] := by
    rw [← List.length_eq_zero_iff, reordered.length_eq, List.length_eq_zero_iff]
  rw [listing, listing, ← sameLinters, reordered.length_eq]
  simp only [lines, map_text_locationsOf_of_perm reordered display, empty]
  congr 3
  refine List.flatMap_congr fun linter member => ?_
  rw [sameMessages linter member]

/-- The listing shows every problem once. Linters and messages come in the order of their first appearance
and locations are sorted, so that nothing else about the order of the problems can be seen. -/
theorem listing_shows_each_problem_once (problems : List Problem) :
    (∀ locations sorted, Location.sort locations = sorted ↔ Location.SortsTo locations sorted) ∧
    render problems = listing problems ∧
    ((lintersOf problems).flatMap fun linter =>
      (messagesOf problems linter).flatMap (problemsOf problems linter)).Perm problems ∧
    ∀ others, problems.Perm others → lintersOf problems = lintersOf others →
      (∀ linter ∈ lintersOf problems, messagesOf problems linter = messagesOf others linter) →
      (∀ one ∈ problems, ∀ other ∈ problems, one.location.alike other.location = true →
        one.location.text = other.location.text) →
      render problems = render others := by
  refine ⟨Location.sort_eq_iff, render_eq_listing problems, flatMap_problemsOf_perm problems, ?_⟩
  intro others reordered sameLinters sameMessages display
  rw [render_eq_listing, render_eq_listing]
  exact listing_of_perm reordered sameLinters sameMessages display

/-- A slash comes before a dash, the tenth line of a file follows its ninth, and a second linter stands in
between. -/
theorem listing_shows_each_problem_once_across_linters :
    let problem (linter message file : String) (line : Nat) : Problem :=
      ⟨linter.toList, message.toList, ⟨⟨file.toList⟩, line⟩⟩
    let problems := [problem "First" "bad" "x/b" 1, problem "Second" "worse" "a" 4,
      problem "First" "bad" "x-b" 10, problem "First" "bad" "x-b" 9]
    let others := [problem "First" "bad" "x-b" 9, problem "Second" "worse" "a" 4,
      problem "First" "bad" "x-b" 10, problem "First" "bad" "x/b" 1]
    lintersOf problems = lintersOf others ∧
      render problems = ("First\n  bad\n    x/b:1\n    x-b:9\n    x-b:10\nSecond\n  worse\n    a:4\n\n" ++
        "4 issues found\n").toList ∧
      render problems = render others := by
  intro problem problems others
  have sameLinters : lintersOf problems = lintersOf others := by decide +kernel
  have reordered : problems.Perm others := by decide +kernel
  have shown : render problems =
      ("First\n  bad\n    x/b:1\n    x-b:9\n    x-b:10\nSecond\n  worse\n    a:4\n\n" ++
        "4 issues found\n").toList := by
    cbv
  refine ⟨sameLinters, shown, ?_⟩
  refine (listing_shows_each_problem_once problems).2.2.2 others reordered sameLinters ?_ ?_
  · decide +kernel
  · decide +kernel

end FeatureLint.Report.Grouped
