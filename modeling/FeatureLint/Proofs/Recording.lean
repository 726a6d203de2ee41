import FeatureLint.Proofs.Ledger
import Mathlib.Data.Finset.Card
import Mathlib.Data.List.DropRight

/-!
This file follows a ledger through any sequence of entries and clearings. Main statement: the ledger is the
ledger of the mentions since the last clearing, so it keeps their lines, tells which names were repeated, and
counts the different scopes among them.
-/

namespace FeatureLint

/-- Alike scopes have the same key. -/
def Scope.key (scope : Scope) : List Path.Component × Option Text :=
  (scope.file.components, scope.rule?)

/-- Scopes are alike exactly when they have the same key. -/
theorem Scope.alike_iff_key (first second : Scope) :
    first.alike second = true ↔ first.key = second.key := by
  rw [alike_iff, key, key, Prod.mk.injEq]

/-- The lines of a name in a scope are those of the mentions with this name and the key of the scope. -/
theorem Mention.linesOf_eq (mentions : List Mention) (name : Text) (scope : Scope) :
    linesOf mentions name scope =
      (mentions.filter fun mention => mention.scope.key = scope.key ∧ mention.name = name).map line := by
  rw [linesOf]
  congr 1
  apply List.filter_congr
  intro mention _
  rw [Bool.eq_iff_iff, records_iff, Scope.alike_iff_key, decide_eq_true_iff]

namespace Ledger

/-- These are the keys of the scopes in the order of their first entries. -/
def keys (ledger : Ledger) : List (List Path.Component × Option Text) :=
  ledger.scopes.map fun entry => entry.1.key

theorem keys_cons (known : Scope) (names : NameLines) (rest : List (Scope × NameLines)) :
    keys ⟨(known, names) :: rest⟩ = known.key :: keys ⟨rest⟩ := rfl

/-- An entry adds the key of its scope unless the ledger has it already. -/
theorem keys_enter (ledger : Ledger) (mention : Mention) :
    (ledger.enter mention).keys =
      if mention.scope.key ∈ ledger.keys then ledger.keys else ledger.keys ++ [mention.scope.key] := by
  obtain ⟨scopes⟩ := ledger
  show keys ⟨recordIn mention.name mention.scope mention.line scopes⟩ = _
  induction scopes with
  | nil => rfl
  | cons entry rest inductionHypothesis =>
      obtain ⟨known, names⟩ := entry
      by_cases same : known.key = mention.scope.key
      · have here := (Scope.alike_iff_key known mention.scope).2 same
        rw [recordIn, if_pos here, keys_cons, keys_cons, same, if_pos List.mem_cons_self]
      · have elsewhere := mt (Scope.alike_iff_key known mention.scope).1 same
        rw [recordIn, if_neg elsewhere, keys_cons, keys_cons, inductionHypothesis]
        by_cases later : mention.scope.key ∈ keys ⟨rest⟩
        · rw [if_pos later, if_pos (List.mem_cons_of_mem _ later)]
        · rw [if_neg later, if_neg (List.not_mem_cons_of_ne_of_not_mem (Ne.symm same) later),
            List.cons_append]

/-- The last mention is entered last. -/
theorem ofMentions_concat (mentions : List Mention) (mention : Mention) :
    ofMentions (mentions ++ [mention]) = (ofMentions mentions).enter mention := by
  rw [ofMentions, enterAll_append]
  rfl

/-- The keys of a ledger are those of its mentions. -/
theorem mem_keys_ofMentions (mentions : List Mention) (key : List Path.Component × Option Text) :
    key ∈ (ofMentions mentions).keys ↔ key ∈ mentions.map fun mention => mention.scope.key := by
  induction mentions using List.reverseRecOn with
  | nil => rfl
  | append_singleton mentions mention inductionHypothesis =>
      rw [ofMentions_concat, keys_enter, List.map_append, List.mem_append, ← inductionHypothesis]
      split
      · next known =>
          constructor
          · exact Or.inl
          · rintro (old | new)
            · exact old
            · rw [List.map_singleton, List.mem_singleton] at new
              exact new ▸ known
      · rw [List.mem_append, List.map_singleton]

/-- No key stands twice in a ledger. -/
theorem nodup_keys_ofMentions (mentions : List Mention) : (ofMentions mentions).keys.Nodup := by
  induction mentions using List.reverseRecOn with
  | nil => exact List.nodup_nil
  | append_singleton mentions mention inductionHypothesis =>
      rw [ofMentions_concat, keys_enter]
      split
      · exact inductionHypothesis
      · next unknown =>
          rw [← List.concat_eq_append]
          exact inductionHypothesis.concat unknown

/-- A ledger counts each key among its mentions once. -/
theorem scopeCount_ofMentions (mentions : List Mention) :
    (ofMentions mentions).scopeCount =
      (mentions.map fun mention => mention.scope.key).toFinset.card := by
  have same : (ofMentions mentions).keys.toFinset =
      (mentions.map fun mention => mention.scope.key).toFinset := by
    ext key
    rw [List.mem_toFinset, List.mem_toFinset, mem_keys_ofMentions]
  rw [← same, List.toFinset_card_of_nodup (nodup_keys_ofMentions mentions), keys, List.length_map,
    scopeCount]

/-- A ledger is empty exactly when there was no mention. -/
theorem isEmpty_ofMentions (mentions : List Mention) :
    (ofMentions mentions).isEmpty = true ↔ mentions = [] := by
  have counted := scopeCount_ofMentions mentions
  rw [isEmpty, List.isEmpty_iff, ← List.length_eq_zero_iff, ← scopeCount, counted, Finset.card_eq_zero,
    List.toFinset_eq_empty_iff, List.map_eq_nil_iff]

/-- An operation records a mention or clears the ledger. -/
inductive Operation where
  | record (mention : Mention)
  | clear
deriving DecidableEq, Repr

namespace Operation

def mention? : Operation → Option Mention
  | record mention => some mention
  | clear => none

def perform (ledger : Ledger) : Operation → Ledger
  | record mention => ledger.record mention.name mention.scope mention.line
  | clear => ledger.clear

/-- These are the mentions that were recorded since the last clearing. -/
def sinceClear (operations : List Operation) : List Mention :=
  (operations.rtakeWhile fun operation => operation.mention?.isSome).filterMap mention?

/-- A record adds its mention to those since the last clearing. -/
theorem sinceClear_record (operations : List Operation) (mention : Mention) :
    sinceClear (operations ++ [record mention]) = sinceClear operations ++ [mention] := by
  rw [sinceClear, List.rtakeWhile_concat_pos _ _ _ rfl, List.filterMap_append]
  rfl

/-- Right after a clearing there are no mentions. -/
theorem sinceClear_clear (operations : List Operation) :
    sinceClear (operations ++ [clear]) = [] := by
  rw [sinceClear, List.rtakeWhile_concat_neg]
  · rfl
  · exact Bool.false_ne_true

end Operation

/-- This is the ledger after some operations. -/
def afterAll (operations : List Operation) : Ledger :=
  operations.foldl Operation.perform empty

/-- A clearing makes the ledger forget every mention before it, and only those. -/
theorem afterAll_eq_ofMentions (operations : List Operation) :
    afterAll operations = ofMentions (Operation.sinceClear operations) := by
  induction operations using List.reverseRecOn with
  | nil => rfl
  | append_singleton operations operation inductionHypothesis =>
      rw [afterAll, List.foldl_append, List.foldl_cons, List.foldl_nil, ← afterAll,
        inductionHypothesis]
      cases operation with
      | record mention => rw [Operation.sinceClear_record, ofMentions_concat]; rfl
      | clear => rw [Operation.sinceClear_clear]; rfl

/-- A ledger is exactly its history. It keeps the lines of the mentions since the last clearing, in order and
with repetitions. A name is a duplicate when it has two lines or more, and then the ledger splits the first line
from the others. The scopes are counted up to the spelling of their paths, and only a ledger without a mention
is empty. -/
theorem ledger_is_its_history (operations : List Operation) (name : Text) (scope : Scope) :
    let ledger := afterAll operations
    let mentions := Operation.sinceClear operations
    let lines := (mentions.filter fun mention =>
      mention.scope.key = scope.key ∧ mention.name = name).map Mention.line
    ledger.occurrences name scope = lines ∧
    (ledger.isDuplicate name scope = true ↔ 2 ≤ lines.length) ∧
    ((ledger.duplicate? name scope).isSome = true ↔ 2 ≤ lines.length) ∧
    (∀ duplicate, ledger.duplicate? name scope = some duplicate ↔
      lines = duplicate.first :: duplicate.repeats ∧ duplicate.repeats ≠ []) ∧
    ledger.scopeCount = (mentions.map fun mention => mention.scope.key).toFinset.card ∧
    (ledger.isEmpty = true ↔ mentions = []) := by
  intro ledger mentions lines
  have history : ledger = ofMentions mentions := afterAll_eq_ofMentions operations
  have kept : ledger.occurrences name scope = lines := by
    rw [history, occurrences_ofMentions, Mention.linesOf_eq]
  have repeated : (ledger.duplicate? name scope).isSome = true ↔ 2 ≤ lines.length := by
    rw [Option.isSome_iff_ne_none, ne_eq, duplicate?_eq_none_iff, kept]
    omega
  have marked : ledger.isDuplicate name scope = true ↔ 2 ≤ lines.length := by
    rw [isDuplicate, decide_eq_true_iff, kept]
    omega
  have parts (duplicate : Duplicate) : ledger.duplicate? name scope = some duplicate ↔
      lines = duplicate.first :: duplicate.repeats ∧ duplicate.repeats ≠ [] := by
    rw [duplicate?_eq_some_iff, kept]
  refine ⟨kept, marked, repeated, parts, ?_, ?_⟩
  · rw [history, scopeCount_ofMentions]
  · rw [history, isEmpty_ofMentions]

/-- Four spellings of one path share a scope, but a leading dot and a rule make other scopes. What was recorded
before the clearing is gone. -/
theorem ledger_is_its_history_under_many_spellings :
    let scope (path : String) : Scope := ⟨⟨path.toList⟩, none⟩
    let inRule (path : String) : Scope := ⟨⟨path.toList⟩, some "R".toList⟩
    let name := "n".toList
    let operations : List Operation := [.record ⟨scope "a/b", name, 1⟩, .clear,
      .record ⟨scope "a//b", name, 3⟩, .record ⟨scope "./a/b", name, 4⟩, .record ⟨inRule "a/b", name, 5⟩,
      .record ⟨scope "a/./b", name, 2⟩, .record ⟨scope "a/b", "other".toList, 6⟩]
    let ledger := afterAll operations
    ledger.occurrences name (scope "a/b") = [3, 2] ∧
      ledger.duplicate? name (scope "a/b/") = some ⟨3, [2]⟩ ∧
      ledger.isDuplicate name (scope "a/b") = true ∧ ¬ ledger.isDuplicate name (inRule "a//b") = true ∧
      ledger.scopeCount = 3 ∧ ¬ ledger.isEmpty = true := by
  intro scope inRule name operations ledger
  obtain ⟨kept, marked, -, -, counted, empty⟩ := ledger_is_its_history operations name (scope "a/b")
  obtain ⟨-, -, -, parts, -, -⟩ := ledger_is_its_history operations name (scope "a/b/")
  obtain ⟨-, markedInRule, -, -, -, -⟩ := ledger_is_its_history operations name (inRule "a//b")
  refine ⟨kept.trans ?_, (parts _).2 ?_, marked.2 ?_, mt markedInRule.1 ?_, counted.trans ?_,
    mt empty.1 ?_⟩
  all_goals decide +kernel

end Ledger

end FeatureLint
