import FeatureLint.Document
import FeatureLint.Problem
import FeatureLint.Settings

/-!
This file holds linters and the runner that shows them documents. A linter is a state machine that
looks at one node at a time. The runner shows every node of every document to every linter and clears
the linters before and after each pass.
-/

namespace FeatureLint

structure Linter where
  State : Type
  name : Text
  description : Text
  /-- A linter may remember what it saw and report at most one problem for each node. -/
  look : Document → Nat → State → State × Option Problem
  clear : State → State
  state : State

namespace Linter

/-- This function shows one node to a linter. -/
def visit (linter : Linter) (document : Document) (number : Nat) : Linter × Option Problem :=
  let (state, problem?) := linter.look document number linter.state
  ({ linter with state := state }, problem?)

def cleared (linter : Linter) : Linter :=
  { linter with state := linter.clear linter.state }

end Linter

/-- A runner holds its linters in the order in which they were registered. -/
structure Runner where
  linters : List Linter

namespace Runner

def empty : Runner := ⟨[]⟩

def register (runner : Runner) (linter : Linter) : Runner :=
  ⟨runner.linters ++ [linter]⟩

/-- This function drops the linters that the settings disable. -/
def configure (runner : Runner) (settings : Settings) : Runner :=
  ⟨runner.linters.filter fun linter => settings.isEnabled linter.name⟩

def cleared (runner : Runner) : Runner :=
  ⟨runner.linters.map Linter.cleared⟩

/-- This function shows one node to each linter in turn. -/
def visitEach (document : Document) (number : Nat) : List Linter → List Linter × List Problem
  | [] => ([], [])
  | linter :: rest =>
      let (linter, problem?) := linter.visit document number
      let (linters, problems) := visitEach document number rest
      (linter :: linters, problem?.toList ++ problems)

/-- This function shows a sequence of nodes to all linters. -/
def visitAll (linters : List Linter) : List (Document × Nat) → List Linter × List Problem
  | [] => (linters, [])
  | (document, number) :: rest =>
      let (linters, problems) := visitEach document number linters
      let (linters, later) := visitAll linters rest
      (linters, problems ++ later)

/-- These are the nodes of all documents in the order of a pass. -/
def visits (documents : List Document) : List (Document × Nat) :=
  documents.flatMap fun document => document.walk.map fun number => (document, number)

/-- This function runs one pass over the documents. Problems come in the order in which they were
found, and the runner comes back with its linters cleared. -/
def lint (runner : Runner) (documents : List Document) : List Problem × Runner :=
  let (linters, problems) := visitAll runner.cleared.linters (visits documents)
  (problems, Runner.cleared ⟨linters⟩)

end Runner

end FeatureLint
