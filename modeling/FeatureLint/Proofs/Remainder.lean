import FeatureLint.Feature.Parser

/-!
This file says what the readers of a feature file leave to be read. Main statements: what follows a
body starts with a heading, and what follows the blocks of a feature or a rule starts with the next
rule or feature, unless the text is over.
-/

namespace FeatureLint

namespace Line

/-- A line that opens a block does so with its keyword. -/
theorem exists_keyword_of_opensBlock {line : Line} (opens : line.opensBlock = true) :
    ∃ keyword, line.keyword? = some keyword ∧ keyword.opensBlock = true := by
  simpa [opensBlock, Option.any_eq_true] using opens

/-- A line that is a heading is one by its keyword. -/
theorem exists_keyword_of_opensSection {line : Line} (opens : line.opensSection = true) :
    ∃ keyword, line.keyword? = some keyword ∧ keyword.opensSection = true := by
  simpa [opensSection, Option.any_eq_true] using opens

/-- What opens a block also ends the block before it. -/
theorem opensSection_of_opensBlock {line : Line} (opens : line.opensBlock = true) :
    line.opensSection = true := by
  obtain ⟨keyword, found, isBlock⟩ := exists_keyword_of_opensBlock opens
  rw [opensSection, found]
  cases keyword <;> first | contradiction | rfl

end Line

/-- The lines left by a reader are over or start with a line that is a heading. -/
def StartsSection (lines : List Line) : Prop :=
  ∀ line rest, lines = line :: rest → line.opensSection = true

/-- At the end of the text nothing has to start. -/
theorem startsSection_nil : StartsSection [] := by
  intro line rest impossible
  cases impossible

/-- Lines that begin with a heading start a section. -/
theorem startsSection_of_opensSection {line : Line} (rest : List Line)
    (heading : line.opensSection = true) : StartsSection (line :: rest) := by
  intro other others same
  cases same
  exact heading

/-- The reader of a body stops only in front of a heading. -/
theorem startsSection_of_readBody {isOutline : Bool} {lines after : List Line}
    {tables : List Examples} (read : Block.readBody isOutline lines = .ok (tables, after)) :
    StartsSection after := by
  fun_induction Block.readBody isOutline lines generalizing tables with
  | case1 =>
      cases read
      exact startsSection_nil
  | case3 line rest isFence afterDoc skipped inductionHypothesis => exact inductionHypothesis read
  | case6 line rest isExamples outline rows afterRows rowsRead others last bodyRead
      inductionHypothesis =>
      cases read
      exact inductionHypothesis bodyRead
  | case8 line rest heading notFence notExamples =>
      cases read
      exact startsSection_of_opensSection rest heading
  | case9 line rest other notFence notExamples inductionHypothesis => exact inductionHypothesis read
  | _ => cases read

/-- What is left after the blocks of a section starts with a rule or a feature. -/
def StartsRuleOrFeature (lines : List Line) : Prop :=
  ∀ line rest, lines = line :: rest →
    line.keyword? = some .rule ∨ line.keyword? = some .feature

/-- The reader of blocks stops only in front of a rule or a second feature. -/
theorem startsRuleOrFeature_of_readAll {expected : Text} {lines after : List Line}
    {blocks : List Block} (read : Block.readAll expected lines = .ok (blocks, after)) :
    StartsRuleOrFeature after := by
  fun_induction Block.readAll expected lines generalizing blocks with
  | case1 =>
      cases read
      intro line rest impossible
      cases impossible
  | case2 line rest isRule =>
      cases read
      intro first others same
      cases same
      exact Or.inl isRule
  | case3 line rest isFeature =>
      cases read
      intro first others same
      cases same
      exact Or.inr isFeature
  | case10 line rest opens block afterBlock blockRead others last othersRead _ _ _ _ _ _
      inductionHypothesis =>
      cases read
      exact inductionHypothesis othersRead
  | case11 line rest other _ _ _ _ _ _ inductionHypothesis => exact inductionHypothesis read
  | _ => cases read

/-- The reader of a block stops where the reader of its body does. -/
theorem startsSection_of_read {line : Line} {rest after : List Line} {block : Block}
    (read : Block.read line rest = .ok (block, after)) : StartsSection after := by
  unfold Block.read at read
  split at read
  · contradiction
  · next bodyRead =>
      cases read
      exact startsSection_of_readBody bodyRead

end FeatureLint
