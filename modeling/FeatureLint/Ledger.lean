import FeatureLint.Scope

/-!
This file holds the ledger of names. For each scope and each name it keeps the lines where the name
occurred, in the order in which they were recorded and with repetitions.
-/

namespace FeatureLint

/-- The lines of each name, with the names in the order of their first occurrence. -/
abbrev NameLines := List (Text × List Nat)

namespace NameLines

def record (name : Text) (line : Nat) : NameLines → NameLines
  | [] => [(name, [line])]
  | (known, lines) :: rest =>
      if known = name then (known, lines ++ [line]) :: rest
      else (known, lines) :: record name line rest

def linesOf (name : Text) : NameLines → List Nat
  | [] => []
  | (known, lines) :: rest => if known = name then lines else linesOf name rest

end NameLines

/-- A duplicated name has a first line and at least one more. -/
structure Duplicate where
  first : Nat
  repeats : List Nat
deriving DecidableEq, Repr

def Duplicate.repeatsText (duplicate : Duplicate) : Text :=
  Text.joinWith ", ".toList (duplicate.repeats.map Text.ofNat)

structure Ledger where
  scopes : List (Scope × NameLines)
deriving Repr

namespace Ledger

def empty : Ledger := ⟨[]⟩

def recordIn (name : Text) (scope : Scope) (line : Nat) :
    List (Scope × NameLines) → List (Scope × NameLines)
  | [] => [(scope, NameLines.record name line [])]
  | (known, names) :: rest =>
      if known.alike scope then (known, NameLines.record name line names) :: rest
      else (known, names) :: recordIn name scope line rest

/-- This function adds one occurrence of a name. -/
def record (ledger : Ledger) (name : Text) (scope : Scope) (line : Nat) : Ledger :=
  ⟨recordIn name scope line ledger.scopes⟩

def occurrencesIn (name : Text) (scope : Scope) : List (Scope × NameLines) → List Nat
  | [] => []
  | (known, names) :: rest =>
      if known.alike scope then NameLines.linesOf name names else occurrencesIn name scope rest

/-- These are the lines where a name occurred in a scope. -/
def occurrences (ledger : Ledger) (name : Text) (scope : Scope) : List Nat :=
  occurrencesIn name scope ledger.scopes

def isDuplicate (ledger : Ledger) (name : Text) (scope : Scope) : Bool :=
  1 < (ledger.occurrences name scope).length

def duplicate? (ledger : Ledger) (name : Text) (scope : Scope) : Option Duplicate :=
  match ledger.occurrences name scope with
  | first :: second :: rest => some ⟨first, second :: rest⟩
  | _ => none

/-- This is the number of scopes with at least one name. -/
def scopeCount (ledger : Ledger) : Nat :=
  ledger.scopes.length

def isEmpty (ledger : Ledger) : Bool :=
  ledger.scopes.isEmpty

/-- This function forgets every name. -/
def clear (_ledger : Ledger) : Ledger :=
  empty

end Ledger

end FeatureLint
