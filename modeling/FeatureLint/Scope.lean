import FeatureLint.Document

/-!
This file holds the scopes in which names must be unique. The scenarios right under a feature share
the scope of their file, and the scenarios of a rule share the scope of all rules with that name in
the file.
-/

namespace FeatureLint

structure Scope where
  file : Path
  rule? : Option Text
deriving DecidableEq, Repr

namespace Scope

/-- Two scopes are alike when their files are alike and their rules have the same name. -/
def alike (first second : Scope) : Bool :=
  first.file.alike second.file && first.rule? = second.rule?

theorem alike_iff (first second : Scope) :
    first.alike second = true ↔
      first.file.components = second.file.components ∧ first.rule? = second.rule? := by
  simp [alike, Path.alike_iff]

/-- The text of a scope does not tell a file scope from the scope of a rule named `feature`. -/
def text (scope : Scope) : Text :=
  scope.file.text ++ ':' :: scope.rule?.getD "feature".toList

end Scope

/-- This is the scope of a node. It is the nearest rule below the nearest file, and a node without a
file above it has none. -/
def Document.scopeOf? (document : Document) (number : Nat) : Option Scope := do
  let file ← document.ancestor? number .file
  let path ← (document.kind? file).bind Kind.path?
  let inFile := (document.ancestors number).takeWhile fun ancestor => !document.is ancestor .file
  let rule? := inFile.find? fun ancestor => document.is ancestor .rule
  return ⟨path, rule?.bind document.name?⟩

end FeatureLint
