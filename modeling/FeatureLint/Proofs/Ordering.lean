import FeatureLint.Problem
import Mathlib.Data.List.Lex
import Mathlib.Data.List.Sort
import Mathlib.Data.Prod.Lex

/-!
This file holds the order of paths and locations. A path comes before another when its components do,
and names are compared by their bytes. Main statements: the tests that sort paths and locations follow
this order, and sorting by a key keeps the order of items with one key and is the only way to do so.
-/

namespace FeatureLint

namespace Text

/-- These are the bytes of a text in UTF-8. -/
def bytes (text : Text) : List UInt8 :=
  text.flatMap String.utf8EncodeChar

/-- The first byte in which the codes of two characters differ tells which character is smaller, whatever
follows them. -/
theorem lex_utf8EncodeChar_append {first second : Char} (smaller : first.toNat < second.toNat)
    (firstRest secondRest : List UInt8) :
    List.Lex (· < ·) (String.utf8EncodeChar first ++ firstRest)
      (String.utf8EncodeChar second ++ secondRest) := by
  have bound : second.toNat < 0x110000 := by
    have valid : second.toNat.isValidChar := second.valid
    rw [Nat.isValidChar] at valid
    omega
  change first.val.toNat < second.val.toNat at smaller
  change second.val.toNat < _ at bound
  -- Every byte is then a digit to the base 64, or what is above all digits.
  have twice (code : Nat) : code / 4096 = code / 64 / 64 := by omega
  have thrice (code : Nat) : code / 262144 = code / 64 / 64 / 64 := by omega
  rw [String.utf8EncodeChar, String.utf8EncodeChar]
  simp only [twice, thrice]
  generalize first.val.toNat = firstCode at *
  generalize second.val.toNat = secondCode at *
  split_ifs
  all_goals
    simp (disch := omega) only [List.cons_append, List.nil_append, List.cons_lex_cons_iff,
      UInt8.lt_iff_toNat_lt, ← UInt8.toNat_inj, UInt8.toNat_ofNat', Nat.mod_eq_of_lt]
    omega

/-- Texts in the order of their code points have their bytes in the same order. -/
theorem lex_bytes_of_lex {first second : Text}
    (before : List.Lex (· < ·) (first.map Char.toNat) (second.map Char.toNat)) :
    List.Lex (· < ·) first.bytes second.bytes := by
  induction first generalizing second with
  | nil =>
      cases second with
      | nil => cases before
      | cons character rest =>
          cases code : String.utf8EncodeChar character with
          | nil => exact absurd code String.utf8EncodeChar_ne_nil
          | cons byte others =>
              rw [bytes, bytes, List.flatMap_cons, code]
              exact .nil
  | cons character rest inductionHypothesis =>
      cases second with
      | nil => cases before
      | cons other others =>
          rw [List.map_cons, List.map_cons, List.cons_lex_cons_iff] at before
          rw [bytes, bytes, List.flatMap_cons, List.flatMap_cons]
          rcases before with smaller | ⟨same, later⟩
          · exact lex_utf8EncodeChar_append smaller _ _
          · rw [Char.toNat_inj.1 same]
            exact (inductionHypothesis later).append_left _ _

/-- Texts are in the order of their characters exactly when they are in the order of their bytes. -/
theorem lex_bytes_iff (first second : Text) :
    List.Lex (· < ·) first.bytes second.bytes ↔ first.map Char.toNat < second.map Char.toNat := by
  refine ⟨fun before => ?_, lex_bytes_of_lex⟩
  have irreflexive (bytes : List UInt8) : ¬List.Lex (· < ·) bytes bytes :=
    List.lex_irrefl UInt8.lt_irrefl bytes
  rcases lt_trichotomy (first.map Char.toNat) (second.map Char.toNat) with smaller | same | greater
  · exact smaller
  · rw [List.map_inj_right fun _ _ => Char.toNat_inj.1] at same
    exact absurd (same ▸ before) (irreflexive _)
  · have back : List.Lex (· < ·) first.bytes first.bytes :=
      List.lex_trans (fun one other => UInt8.lt_trans one other) before (lex_bytes_of_lex greater)
    exact absurd back (irreflexive _)

end Text

namespace Path

namespace Component

/-- The root comes first, then the dot, then the parent and then the names by their bytes. -/
inductive Before : Component → Component → Prop where
  | root_current : Before root current
  | root_parent : Before root parent
  | root_name (text : Text) : Before root (name text)
  | current_parent : Before current parent
  | current_name (text : Text) : Before current (name text)
  | parent_name (text : Text) : Before parent (name text)
  | names {first second : Text} (bytes : List.Lex (· < ·) first.bytes second.bytes) :
      Before (name first) (name second)

theorem rank_injective : Function.Injective rank := by
  intro first second same
  cases first <;> cases second <;> simp only [rank, List.cons.injEq] at same
  case name.name =>
    rw [(List.map_inj_right fun _ _ => Char.toNat_inj.1).1 same.2]
  all_goals simp_all

/-- Components come in the order of their ranks. -/
theorem before_iff (first second : Component) : first.Before second ↔ first.rank < second.rank := by
  constructor
  · intro before
    cases before with
    | names bytes => exact .cons ((Text.lex_bytes_iff _ _).1 bytes)
    | _ => exact .rel (by omega)
  · intro smaller
    replace smaller : List.Lex (· < ·) first.rank second.rank := smaller
    cases first <;> cases second <;> simp [rank, List.cons_lex_cons_iff] at smaller
    case name.name => exact .names ((Text.lex_bytes_iff _ _).2 smaller)
    all_goals constructor

end Component

/-- Paths are in the order of their components. -/
def Before (first second : Path) : Prop :=
  List.Lex Component.Before first.components second.components

/-- Lists are compared like the lists of their ranks. -/
theorem lex_map_iff {Item Key : Type} {rank : Item → Key} (injective : Function.Injective rank)
    {before : Key → Key → Prop} (first second : List Item) :
    List.Lex before (first.map rank) (second.map rank) ↔
      List.Lex (fun one other => before (rank one) (rank other)) first second := by
  induction first generalizing second with
  | nil => cases second <;> simp
  | cons item rest inductionHypothesis =>
      cases second with
      | nil => simp
      | cons other others =>
          simp only [List.map_cons, List.cons_lex_cons_iff, inductionHypothesis, injective.eq_iff]

theorem before_iff (first second : Path) : first.Before second ↔ first.rank < second.rank := by
  have ranks : Component.Before = fun one other => one.rank < other.rank := by
    funext one other
    exact propext (Component.before_iff one other)
  rw [Before, ranks, ← lex_map_iff Component.rank_injective]
  rfl

/-- Paths have the same rank exactly when they have the same components. -/
theorem rank_eq_iff (first second : Path) : first.rank = second.rank ↔ first.components = second.components :=
  List.map_inj_right fun _ _ same => Component.rank_injective same

/-- The test that sorts paths follows their ranks. -/
theorem le_iff (first second : Path) : first.le second = true ↔ first.rank ≤ second.rank := by
  rw [le, Bool.not_eq_true', ← Bool.not_eq_true, List.lex_eq_true_iff_lex, ← not_lt]
  simp only [List.lex_eq_true_iff_lex, Nat.blt_eq]
  rfl

end Path

/-- Lists are equal when their keys are and the items of each key are. -/
theorem eq_of_filter_key {Item Key : Type} [DecidableEq Key] {key : Item → Key} {first second : List Item}
    (keys : first.map key = second.map key)
    (same : ∀ one, first.filter (key · = key one) = second.filter (key · = key one)) : first = second := by
  induction first generalizing second with
  | nil => exact (List.map_eq_nil_iff.1 keys.symm).symm
  | cons item rest inductionHypothesis =>
      obtain ⟨other, others, rfl, tied, keysLater⟩ := List.map_eq_cons_iff.1 keys.symm
      have here := same item
      rw [List.filter_cons_of_pos (by simp), List.filter_cons_of_pos (by simp [tied])] at here
      obtain ⟨rfl, -⟩ := List.cons_eq_cons.1 here
      rw [inductionHypothesis keysLater.symm fun one => ?_]
      have there := same one
      by_cases own : key item = key one
      · rw [List.filter_cons_of_pos (by simp [own]), List.filter_cons_of_pos (by simp [own])] at there
        exact (List.cons_eq_cons.1 there).2
      · rwa [List.filter_cons_of_neg (by simp [own]), List.filter_cons_of_neg (by simp [own])] at there

section Key

variable {Item Key : Type} [LinearOrder Key] {key : Item → Key} {le : Item → Item → Bool}

/-- Two ascending arrangements of the same items have the same keys. -/
theorem map_key_eq_of_perm {first second : List Item} (reordered : first.Perm second)
    (firstAscends : first.Pairwise fun one other => key one ≤ key other)
    (secondAscends : second.Pairwise fun one other => key one ≤ key other) :
    first.map key = second.map key :=
  (reordered.map key).eq_of_pairwise (fun _ _ _ _ => le_antisymm) (List.pairwise_map.2 firstAscends)
    (List.pairwise_map.2 secondAscends)

variable (le_iff : ∀ first second, le first second = true ↔ key first ≤ key second)

include le_iff

/-- An order by keys is transitive. -/
theorem trans_of_key (first second third : Item) (one : le first second = true)
    (other : le second third = true) : le first third = true := by
  rw [le_iff] at one other ⊢
  exact one.trans other

theorem total_of_key (first second : Item) : (le first second || le second first) = true := by
  rw [Bool.or_eq_true, le_iff, le_iff]
  exact le_total _ _

/-- Sorted items have their keys in order. -/
theorem pairwise_mergeSort_key (items : List Item) :
    (items.mergeSort le).Pairwise fun first second => key first ≤ key second :=
  (List.pairwise_mergeSort (trans_of_key le_iff) (total_of_key le_iff) items).imp (le_iff _ _).1

/-- Sorting keeps the order of the items that have one key. -/
theorem filter_mergeSort_key [DecidableEq Key] (items : List Item) (value : Key) :
    (items.mergeSort le).filter (key · = value) = items.filter (key · = value) := by
  have tied : (items.filter (key · = value)).Pairwise fun first second => le first second = true := by
    rw [List.pairwise_filter]
    refine List.pairwise_of_forall fun first second one other => ?_
    rw [le_iff, of_decide_eq_true one, of_decide_eq_true other]
  have kept := (List.sublist_mergeSort (trans_of_key le_iff) (total_of_key le_iff) tied
    List.filter_sublist).filter (key · = value)
  simp only [List.filter_filter, Bool.and_self] at kept
  exact (kept.eq_of_length ((List.mergeSort_perm items le).filter _).length_eq.symm).symm

/-- Sorting is the only way to bring items in order that keeps the order of those with one key. -/
theorem mergeSort_key_eq [DecidableEq Key] {items sorted : List Item} (reordered : sorted.Perm items)
    (ascends : sorted.Pairwise fun first second => key first ≤ key second)
    (stable : ∀ one, sorted.filter (key · = key one) = items.filter (key · = key one)) :
    items.mergeSort le = sorted := by
  have keys := map_key_eq_of_perm ((List.mergeSort_perm items le).trans reordered.symm)
    (pairwise_mergeSort_key le_iff items) ascends
  refine eq_of_filter_key keys fun one => ?_
  rw [filter_mergeSort_key le_iff, stable]

end Key

namespace Location

/-- Locations are in the order of their files and, in one file, of their lines. -/
def Before (first second : Location) : Prop :=
  first.file.Before second.file ∨
    first.file.components = second.file.components ∧ first.line < second.line

def key (location : Location) : List (List Nat) ×ₗ Nat :=
  toLex (location.file.rank, location.line)

/-- Locations are alike exactly when they have the same key. -/
theorem alike_iff (first second : Location) : first.alike second = true ↔ second.key = first.key := by
  rw [alike, Bool.and_eq_true, Path.alike_iff, ← Path.rank_eq_iff, decide_eq_true_iff, eq_comm, key, key,
    toLex_inj, Prod.mk.injEq, eq_comm (a := first.line)]

/-- Locations come in the order of their keys. -/
theorem before_iff (first second : Location) : first.Before second ↔ first.key < second.key := by
  rw [Before, Path.before_iff, ← Path.rank_eq_iff, key, key, Prod.Lex.toLex_lt_toLex]

/-- The order of locations is that of their keys. -/
theorem le_iff (first second : Location) : first.le second = true ↔ first.key ≤ second.key := by
  rw [le, key, key, Prod.Lex.toLex_le_toLex]
  by_cases same : first.file.rank = second.file.rank
  · have alike : first.file.alike second.file = true := by
      rwa [Path.alike_iff, ← Path.rank_eq_iff]
    simp [alike, same]
  · have apart : first.file.alike second.file ≠ true := by
      rwa [Ne, Path.alike_iff, ← Path.rank_eq_iff]
    rw [if_neg apart, Path.le_iff, le_iff_lt_or_eq]
    simp [same]

/-- A list is sorted into another that ascends and has the same locations, with those that are alike in
the same order. -/
structure SortsTo (locations sorted : List Location) : Prop where
  reordered : sorted.Perm locations
  ascends : sorted.Pairwise fun first second => ¬second.Before first
  stable : ∀ location : Location, sorted.filter location.alike = locations.filter location.alike

/-- The locations that are alike to one are those with its key. -/
theorem filter_alike (location : Location) (locations : List Location) :
    locations.filter location.alike = locations.filter (Location.key · = location.key) := by
  congr 1
  funext other
  rw [Bool.eq_iff_iff, alike_iff, decide_eq_true_iff]

/-- Sorting gives the only list that is in order and keeps the order of those that are alike. -/
theorem sort_eq_iff (locations sorted : List Location) :
    sort locations = sorted ↔ SortsTo locations sorted := by
  constructor
  · rintro rfl
    refine ⟨List.mergeSort_perm locations le, ?_, fun location => ?_⟩
    · refine (pairwise_mergeSort_key le_iff locations).imp fun {first second} ascends => ?_
      rwa [before_iff, not_lt]
    · rw [filter_alike, filter_alike, sort, filter_mergeSort_key le_iff]
  · intro sorts
    refine mergeSort_key_eq le_iff sorts.reordered ?_ ?_
    · refine sorts.ascends.imp fun {first second} ascends => ?_
      rwa [before_iff, not_lt] at ascends
    · intro location
      rw [← filter_alike, ← filter_alike, sorts.stable]

end Location

end FeatureLint
