import FeatureLint.Proofs.Directories
import Mathlib.Data.List.Infix
import Mathlib.Data.List.TakeWhile

/-!
This file says where straight paths lead. A straight path is absolute and never goes up again, so that its names
spell a place, and every place has a straight path of its own. Main statements: the parents of a straight path are
the places on the way to its end, the deepest first, and a name behind a straight path leads to what stands at the
place that both spell.
-/

namespace FeatureLint

namespace Text

/-- No piece has a separator. -/
theorem not_mem_of_mem_cutAt {separator : Char} {text piece : Text} (member : piece ∈ cutAt separator text) :
    separator ∉ piece := by
  induction text generalizing piece with
  | nil =>
      rw [cutAt, List.mem_singleton] at member
      rw [member]
      exact List.not_mem_nil
  | cons character rest inductionHypothesis =>
      rw [cutAt] at member
      split at member
      · rcases List.mem_cons.1 member with rfl | later
        · exact List.not_mem_nil
        · exact inductionHypothesis later
      · next different =>
          cases cut : cutAt separator rest with
          | nil => exact absurd cut (cutAt_ne_nil separator rest)
          | cons first others =>
              rw [cut] at member inductionHypothesis
              rcases List.mem_cons.1 member with rfl | later
              · have bare := inductionHypothesis List.mem_cons_self
                exact List.not_mem_cons_of_ne_of_not_mem (Ne.symm different) bare
              · exact inductionHypothesis (List.mem_cons_of_mem _ later)

/-- Pieces without a separator are cut again where they were joined. -/
theorem cutAt_joinWith {separator : Char} {pieces : List Text} (nonempty : pieces ≠ [])
    (bare : ∀ piece ∈ pieces, separator ∉ piece) : cutAt separator (joinWith [separator] pieces) = pieces := by
  induction pieces with
  | nil => exact absurd rfl nonempty
  | cons piece rest inductionHypothesis =>
      obtain ⟨first, others⟩ := List.forall_mem_cons.1 bare
      cases rest with
      | nil => exact cutAt_of_not_mem first
      | cons second more =>
          have later := inductionHypothesis (List.cons_ne_nil second more) others
          rw [joinWith, List.append_assoc, List.singleton_append, cutAt_append, cutAt_of_not_mem first, later,
            List.singleton_append]
          exact List.cons_ne_nil second more

/-- The last piece is joined last. -/
theorem joinWith_concat (separator last : Text) {pieces : List Text} (nonempty : pieces ≠ []) :
    joinWith separator (pieces ++ [last]) = joinWith separator pieces ++ separator ++ last := by
  induction pieces with
  | nil => exact absurd rfl nonempty
  | cons piece rest inductionHypothesis =>
      cases rest with
      | nil => rfl
      | cons second others =>
          have later := inductionHypothesis (List.cons_ne_nil second others)
          rw [List.cons_append] at later
          simp only [List.cons_append, joinWith, later, List.append_assoc]

/-- A joined text ends like its last piece. -/
theorem getLast?_joinWith (separator : Text) (pieces : List Text) {last : Text} (nonempty : last ≠ []) :
    (joinWith separator (pieces ++ [last])).getLast? = last.getLast? := by
  by_cases alone : pieces = []
  · rw [alone]
    rfl
  · rw [joinWith_concat separator last alone, List.getLast?_append_of_ne_nil _ nonempty]

end Text

namespace Path

/-- These are the pieces that count on the way along a path. -/
def counted (pieces : List Text) : Place :=
  pieces.filter fun piece => !isFilling piece

theorem counted_append (first second : List Text) :
    counted (first ++ second) = counted first ++ counted second :=
  List.filter_append _ _

/-- Filling pieces do not count. -/
theorem counted_eq_nil {pieces : List Text} (filling : ∀ piece ∈ pieces, isFilling piece = true) :
    counted pieces = [] := by
  rw [counted, List.filter_eq_nil_iff]
  intro piece member
  rw [filling piece member]
  exact Bool.false_ne_true

/-- Filling at the start of the pieces does not count. -/
theorem counted_reverse_dropWhile (pieces : List Text) :
    counted (pieces.dropWhile isFilling).reverse = counted pieces.reverse := by
  have split := List.takeWhile_append_dropWhile (p := isFilling) (l := pieces)
  have filling : counted (pieces.takeWhile isFilling).reverse = [] := by
    apply counted_eq_nil
    intro piece member
    exact List.mem_takeWhile_imp (List.mem_reverse.1 member)
  rw [← congrArg (fun pieces => counted pieces.reverse) split, List.reverse_append, counted_append, filling,
    List.append_nil]

/-- An absolute path is straight when it never goes up again. -/
def IsStraight (path : Path) : Prop :=
  path.isAbsolute = true ∧ Component.parent ∉ path.components

/-- These are the names in a path. -/
def names (path : Path) : Place :=
  path.components.filterMap fun component =>
    match component with
    | .name name => some name
    | _ => none

/-- The components of an absolute path begin with the root. -/
theorem components_of_isAbsolute {path : Path} (absolute : path.isAbsolute = true) :
    path.anchor = ['/'] ∧ path.components = .root :: path.pieces.filterMap Component.ofPiece? := by
  have start := (isAbsolute_iff path).1 absolute
  obtain ⟨rest, text⟩ := List.head?_eq_some_iff.1 start
  have anchored : path.anchor = ['/'] := by
    rw [anchor, absolute]
    rfl
  have cut : Text.cutAt '/' path.text = [] :: path.pieces := by
    rw [pieces, anchored, text]
    rfl
  refine ⟨anchored, ?_⟩
  rw [components_of_cutAt cut, leadOf, if_pos rfl, if_neg]
  · rfl
  · rw [List.isEmpty_iff]
    exact Text.cutAt_ne_nil _ _

/-- A filling piece is no component. -/
theorem ofPiece?_of_isFilling {piece : Text} (filling : isFilling piece = true) :
    Component.ofPiece? piece = none := by
  simp only [isFilling, Bool.or_eq_true, decide_eq_true_eq] at filling
  rw [Component.ofPiece?, if_pos filling]

/-- A piece that counts is a name or goes up. -/
theorem ofPiece?_of_not_isFilling {piece : Text} (counts : isFilling piece = false) :
    Component.ofPiece? piece = if piece = ['.', '.'] then some .parent else some (.name piece) := by
  simp only [isFilling, Bool.or_eq_false_iff, decide_eq_false_iff_not] at counts
  rw [Component.ofPiece?, if_neg (not_or.2 counts)]

/-- A path is straight when it is absolute and none of its pieces goes up. -/
theorem isStraight_iff {path : Path} (absolute : path.isAbsolute = true) :
    path.IsStraight ↔ ['.', '.'] ∉ path.pieces := by
  rw [IsStraight, and_iff_right absolute, (components_of_isAbsolute absolute).2, not_iff_not]
  constructor
  · intro member
    rcases List.mem_cons.1 member with impossible | inside
    · cases impossible
    · obtain ⟨piece, known, found⟩ := List.mem_filterMap.1 inside
      cases filling : isFilling piece with
      | true =>
          rw [ofPiece?_of_isFilling filling] at found
          cases found
      | false =>
          rw [ofPiece?_of_not_isFilling filling] at found
          split at found
          · next up => exact up ▸ known
          · cases found
  · intro known
    exact List.mem_cons_of_mem _ (List.mem_filterMap.2 ⟨_, known, rfl⟩)

/-- On a straight path all pieces that count are names. -/
theorem IsStraight.components_eq {path : Path} (straight : path.IsStraight) :
    path.components = .root :: (counted path.pieces).map .name := by
  have level := (isStraight_iff straight.1).1 straight
  rw [(components_of_isAbsolute straight.1).2]
  congr 1
  generalize path.pieces = pieces at level
  induction pieces with
  | nil => rfl
  | cons piece rest inductionHypothesis =>
      rw [List.mem_cons, not_or] at level
      have later := inductionHypothesis level.2
      cases filling : isFilling piece with
      | true =>
          rw [List.filterMap_cons_none (ofPiece?_of_isFilling filling), later, counted, counted,
            List.filter_cons_of_neg (by simp [filling])]
      | false =>
          have isName := ofPiece?_of_not_isFilling filling
          rw [if_neg (Ne.symm level.1)] at isName
          rw [List.filterMap_cons_some isName, later, counted, counted,
            List.filter_cons_of_pos (by simp [filling]), List.map_cons]

/-- The names of a straight path are its pieces that count. -/
theorem IsStraight.names_eq {path : Path} (straight : path.IsStraight) : path.names = counted path.pieces := by
  rw [names, straight.components_eq, List.filterMap_cons_none rfl, List.filterMap_map]
  exact List.filterMap_some

/-- An absolute path that is written from pieces has these pieces, and at least an empty one. -/
theorem pieces_of_joinWith {pieces : List Text} (bare : ∀ piece ∈ pieces, '/' ∉ piece) :
    Path.pieces ⟨'/' :: Text.joinWith ['/'] pieces⟩ = if pieces = [] then [[]] else pieces := by
  have anchored : Path.anchor ⟨'/' :: Text.joinWith ['/'] pieces⟩ = ['/'] := rfl
  rw [Path.pieces, anchored]
  change Text.cutAt '/' (Text.joinWith ['/'] pieces) = _
  split
  · next empty => rw [empty]; rfl
  · next nonempty => exact Text.cutAt_joinWith nonempty bare

/-- A straight path has no parent when it has no name, and otherwise its parent is straight and has all names
but the last. -/
theorem IsStraight.parent?_cases {path : Path} (straight : path.IsStraight) :
    (path.parent? = none ∧ path.names = []) ∨
      ∃ parent last, path.parent? = some parent ∧ parent.IsStraight ∧ path.names = parent.names ++ [last] := by
  have anchored := (components_of_isAbsolute straight.1).1
  have level := (isStraight_iff straight.1).1 straight
  have bare : ∀ piece ∈ path.pieces, '/' ∉ piece := fun piece => Text.not_mem_of_mem_cutAt
  have behind := List.takeWhile_append_dropWhile (p := isFilling) (l := path.pieces.reverse)
  have named : path.names = counted (path.pieces.reverse.dropWhile isFilling).reverse := by
    rw [straight.names_eq, counted_reverse_dropWhile, List.reverse_reverse]
  cases found : path.pieces.reverse.dropWhile isFilling with
  | nil =>
      refine Or.inl ⟨?_, ?_⟩
      · rw [parent?, found]
        simp [anchored]
      · rw [named, found]
        rfl
  | cons last before =>
      have counts : isFilling last = false := by
        have head := List.head?_dropWhile_not isFilling path.pieces.reverse
        rwa [found] at head
      have known : ∀ piece ∈ before.dropWhile isFilling, piece ∈ path.pieces := by
        intro piece member
        have inside := List.mem_cons_of_mem last ((List.dropWhile_sublist isFilling).subset member)
        rw [← found] at inside
        exact List.mem_reverse.1 ((List.dropWhile_sublist isFilling).subset inside)
      let kept := (before.dropWhile isFilling).reverse
      let parent : Path := ⟨'/' :: Text.joinWith ['/'] kept⟩
      have pieces : parent.pieces = if kept = [] then [[]] else kept :=
        pieces_of_joinWith fun piece member => bare piece (known piece (List.mem_reverse.1 member))
      have parentStraight : parent.IsStraight := by
        rw [isStraight_iff rfl, pieces]
        split
        · decide
        · exact fun up => level (known _ (List.mem_reverse.1 up))
      refine Or.inr ⟨parent, last, ?_, parentStraight, ?_⟩
      · rw [parent?, found, anchored]
        rfl
      · have lone : counted [last] = [last] := List.filter_cons_of_pos (by simp [counts])
        have parentNames : parent.names = counted kept := by
          rw [parentStraight.names_eq, pieces]
          split
          · next empty => rw [empty]; rfl
          · rfl
        rw [named, found, List.reverse_cons, counted_append, lone, parentNames, counted_reverse_dropWhile]

/-- This is the path of the working place. -/
def here : Path := ⟨".".toList⟩

/-- This is the absolute path that spells a place. -/
def ofPlace (place : Place) : Path :=
  ⟨'/' :: Text.joinWith ['/'] place⟩

section OfPlace

variable {place : Place} (names : ∀ name ∈ place, IsName name)

include names

/-- Names always count. -/
theorem counted_of_names : counted place = place := by
  rw [counted, List.filter_eq_self]
  intro name member
  simp [isFilling, (names name member).1, (names name member).2.1]

/-- The pieces of the path of a place are its names. -/
theorem pieces_ofPlace : (ofPlace place).pieces = if place = [] then [[]] else place :=
  pieces_of_joinWith fun name member => (names name member).2.2.2

/-- The path of a place is straight. -/
theorem isStraight_ofPlace : (ofPlace place).IsStraight := by
  rw [isStraight_iff rfl, pieces_ofPlace names]
  split
  · decide
  · exact fun up => (names _ up).2.2.1 rfl

theorem names_ofPlace : (ofPlace place).names = place := by
  rw [(isStraight_ofPlace names).names_eq, pieces_ofPlace names]
  split
  · next empty => rw [empty]; rfl
  · exact counted_of_names names

/-- Joining a name goes to the place below. -/
theorem join_ofPlace {piece : Text} (bare : '/' ∉ piece) :
    (ofPlace place).join ⟨piece⟩ = ofPlace (place ++ [piece]) := by
  have relative : Path.isAbsolute ⟨piece⟩ = false := by
    rw [← Bool.not_eq_true, isAbsolute_iff]
    exact fun found => bare (List.mem_of_mem_head? found)
  have present : (ofPlace place).text ≠ [] := List.cons_ne_nil _ _
  have texts : ((ofPlace place).join ⟨piece⟩).text = (ofPlace (place ++ [piece])).text := by
    rw [text_join present relative]
    rcases List.eq_nil_or_concat place with rfl | ⟨front, last, rfl⟩
    · rfl
    · rw [List.concat_eq_append] at names ⊢
      have isName := names last (by simp)
      have unended : (ofPlace (front ++ [last])).text.getLast? ≠ some '/' := by
        rw [ofPlace, List.getLast?_cons, Text.getLast?_joinWith ['/'] front isName.1,
          List.getLast?_eq_some_getLast isName.1]
        intro slash
        exact isName.2.2.2 (Option.some.inj slash ▸ List.getLast_mem isName.1)
      rw [if_neg unended, ofPlace, ofPlace, Text.joinWith_concat ['/'] piece (by simp)]
      simp only [List.cons_append, List.append_assoc]
  exact congrArg Path.mk texts

/-- The parent of the path of a name in a place is the path of the place. -/
theorem parent?_ofPlace {name : Text} (isName : IsName name) :
    (ofPlace (place ++ [name])).parent? = some (ofPlace place) := by
  have namesToo : ∀ piece ∈ place ++ [name], IsName piece :=
    List.forall_mem_append.2 ⟨names, List.forall_mem_singleton.2 isName⟩
  have counts {piece : Text} (known : IsName piece) : ¬isFilling piece = true := by
    simp [isFilling, known.1, known.2.1]
  have pieces : (ofPlace (place ++ [name])).pieces.reverse = name :: place.reverse := by
    rw [pieces_ofPlace namesToo, if_neg (by simp), List.reverse_append]
    rfl
  have kept : place.reverse.dropWhile isFilling = place.reverse := by
    rw [List.dropWhile_eq_self_iff]
    intro present
    exact counts (names _ (List.mem_reverse.1 (List.getElem_mem present)))
  rw [parent?, pieces, List.dropWhile_cons_of_neg (counts isName)]
  simp only [kept, List.reverse_reverse]
  rfl

end OfPlace

/-- The lineage of a path is the path and the lineage of its parent. -/
theorem lineage_of_parent? {path parent : Path} (above : path.parent? = some parent) :
    path.lineage = path :: parent.lineage := by
  rw [lineage]
  split
  · next top =>
      rw [top] at above
      cases above
  · next other found =>
      rw [found] at above
      cases above
      rfl

theorem lineage_of_parent?_eq_none {path : Path} (top : path.parent? = none) : path.lineage = [path] := by
  rw [lineage]
  split
  · rfl
  · next other found =>
      rw [top] at found
      cases found

/-- What holds of a path without a parent and goes from the parent of a path to the path holds of all paths. -/
theorem parent_induction {motive : Path → Prop} (top : ∀ path, path.parent? = none → motive path)
    (below : ∀ path parent, path.parent? = some parent → motive parent → motive path) (path : Path) :
    motive path := by
  cases above : path.parent? with
  | none => exact top path above
  | some parent => exact below path parent above (parent_induction top below parent)
termination_by path.text.length
decreasing_by exact length_parent? above

/-- The paths above a straight one are straight, and they lead to the places on the way to its end, the deepest
first. -/
theorem IsStraight.lineage {path : Path} (straight : path.IsStraight) :
    (∀ directory ∈ path.lineage, directory.IsStraight) ∧
      path.lineage.map names = path.names.inits.reverse := by
  induction path using parent_induction with
  | top path top =>
      rcases straight.parent?_cases with ⟨-, unnamed⟩ | ⟨parent, last, above, -⟩
      · rw [lineage_of_parent?_eq_none top, List.map_singleton, unnamed]
        exact ⟨List.forall_mem_singleton.2 straight, rfl⟩
      · rw [top] at above
        cases above
  | below path parent above inductionHypothesis =>
      rcases straight.parent?_cases with ⟨top, -⟩ | ⟨same, last, aboveToo, parentStraight, named⟩
      · rw [top] at above
        cases above
      · rw [above] at aboveToo
        cases aboveToo
        obtain ⟨allStraight, places⟩ := inductionHypothesis parentStraight
        rw [lineage_of_parent? above, List.map_cons, places, named, List.inits_append, List.reverse_append]
        exact ⟨List.forall_mem_cons.2 ⟨straight, allStraight⟩, rfl⟩

end Path

namespace FileTree

variable {tree : FileTree}

/-- Whatever has something below it is a directory. -/
theorem contentAt?_of_append {place rest : Place} {content : Content} (below : rest ≠ [])
    (found : tree.contentAt? (place ++ rest) = some content) : tree.contentAt? place = some .directory := by
  rw [contentAt?] at found ⊢
  generalize tree.root = listing at found ⊢
  induction place generalizing listing with
  | nil => rfl
  | cons name place inductionHypothesis =>
      rw [List.cons_append, Listing.contentAt?_cons, Option.bind_eq_some_iff] at found
      obtain ⟨entry, known, found⟩ := found
      rw [Listing.contentAt?_cons, known, Option.bind_some]
      cases entry with
      | directory inner => exact inductionHypothesis inner found
      | file text? =>
          have further : place ++ rest ≠ [] := List.append_ne_nil_of_right_ne_nil place below
          rw [Entry.contentAt?, if_neg further] at found
          cases found

/-- A piece that does not go up leads from a directory to what it spells there. -/
theorem step_eq_ok_iff {place next : Place} {piece : Text} (level : piece ≠ ['.', '.']) :
    tree.step place piece = .ok next ↔
      tree.contentAt? place = some .directory ∧ next = place ++ Path.counted [piece] ∧
        (tree.contentAt? next).isSome = true := by
  rw [step_eq]
  cases found : tree.contentAt? place with
  | none => simp
  | some content =>
      cases content with
      | file text? => simp
      | directory =>
          simp only [if_neg level, true_and]
          cases filling : Path.isFilling piece with
          | true =>
              have nothing : Path.counted [piece] = [] := Path.counted_eq_nil (by simpa using filling)
              rw [if_pos rfl, nothing, List.append_nil, Except.ok.injEq, eq_comm]
              refine ⟨fun same => ⟨same, ?_⟩, And.left⟩
              rw [same, found]
              rfl
          | false =>
              have alone : Path.counted [piece] = [piece] := List.filter_cons_of_pos (by simp [filling])
              rw [if_neg Bool.false_ne_true, alone]
              constructor
              · intro stepped
                split at stepped
                · next present =>
                    cases stepped
                    exact ⟨rfl, present⟩
                · cases stepped
              · rintro ⟨rfl, present⟩
                rw [if_pos present]

/-- Pieces are followed from the first one on. -/
theorem follow_cons_iff {start place : Place} {piece : Text} {pieces : List Text} :
    tree.follow start (piece :: pieces) = .ok place ↔
      ∃ next, tree.step start piece = .ok next ∧ tree.follow next pieces = .ok place := by
  rw [follow]
  cases tree.step start piece <;> simp

/-- Pieces that never go up lead nowhere but to the place that they spell. -/
theorem follow_eq_counted {start place : Place} {pieces : List Text} (level : ['.', '.'] ∉ pieces)
    (followed : tree.follow start pieces = .ok place) : place = start ++ Path.counted pieces := by
  induction pieces generalizing start with
  | nil =>
      cases followed
      exact (List.append_nil place).symm
  | cons piece rest inductionHypothesis =>
      rw [List.mem_cons, not_or] at level
      obtain ⟨next, stepped, further⟩ := follow_cons_iff.1 followed
      obtain ⟨-, rfl, -⟩ := (step_eq_ok_iff (Ne.symm level.1)).1 stepped
      rw [inductionHypothesis level.2 further, List.append_assoc, ← Path.counted_append]
      rfl

/-- Pieces that never go up lead to the directory that they spell. -/
theorem follow_of_directory {start : Place} {pieces : List Text} (level : ['.', '.'] ∉ pieces)
    (directory : tree.contentAt? (start ++ Path.counted pieces) = some .directory) :
    tree.follow start pieces = .ok (start ++ Path.counted pieces) := by
  induction pieces generalizing start with
  | nil => exact congrArg Except.ok (List.append_nil start).symm
  | cons piece rest inductionHypothesis =>
      rw [List.mem_cons, not_or] at level
      have split : start ++ Path.counted (piece :: rest) =
          start ++ Path.counted [piece] ++ Path.counted rest := by
        rw [List.append_assoc, ← Path.counted_append]
        rfl
      rw [split] at directory ⊢
      have further := inductionHypothesis level.2 directory
      -- Both the start and the next place are directories, because the last one is.
      have above {first second : Place} (last : tree.contentAt? (first ++ second) = some .directory) :
          tree.contentAt? first = some .directory := by
        by_cases here : second = []
        · rwa [here, List.append_nil] at last
        · exact contentAt?_of_append here last
      have next := above directory
      refine follow_cons_iff.2 ⟨_, (step_eq_ok_iff (Ne.symm level.1)).2 ⟨above next, rfl, ?_⟩, further⟩
      rw [next]
      rfl

theorem startOf_of_isAbsolute {path : Path} (absolute : path.isAbsolute = true) : tree.startOf path = [] := by
  rw [startOf, absolute]
  rfl

/-- A name behind a straight path leads to the place that both spell, if anything is there. -/
theorem placeOf_join_of_isStraight {directory : Path} {name : Text} {place : Place}
    (straight : directory.IsStraight) (isName : Path.IsName name) :
    tree.placeOf (directory.join ⟨name⟩) = .ok place ↔
      place = directory.names ++ [name] ∧ (tree.contentAt? place).isSome = true := by
  have start := (Path.isAbsolute_iff directory).1 straight.1
  obtain ⟨rest, text⟩ := List.head?_eq_some_iff.1 start
  have present : directory.text ≠ [] := text ▸ List.cons_ne_nil _ _
  have absolute : (directory.join ⟨name⟩).isAbsolute = true := by
    rw [Path.isAbsolute_iff, Path.head?_join present isName.relative, start]
  have counts : Path.counted [name] = [name] :=
    List.filter_cons_of_pos (by simp [Path.isFilling, isName.1, isName.2.1])
  obtain ⟨before, joined, spelled, level⟩ :
      ∃ before, Text.cutAt '/' (directory.join ⟨name⟩).text = before ++ [name] ∧
        Path.counted before = directory.names ∧ ['.', '.'] ∉ before := by
    obtain ⟨before, -, joined, own⟩ := isName.cutAt_join present
    have pieces : Text.cutAt '/' directory.text = [] :: directory.pieces := by
      rw [Path.pieces, (Path.components_of_isAbsolute straight.1).1, text]
      rfl
    have spelled : Path.counted (Text.cutAt '/' directory.text) = directory.names := by
      rw [pieces, straight.names_eq]
      rfl
    have level : ['.', '.'] ∉ Text.cutAt '/' directory.text := by
      rw [pieces]
      exact List.not_mem_cons_of_ne_of_not_mem (by decide) ((Path.isStraight_iff straight.1).1 straight)
    refine ⟨before, joined, ?_⟩
    rcases own with own | own
    · rw [own] at spelled level
      exact ⟨spelled, level⟩
    · have slash : Path.counted [[]] = [] := rfl
      rw [own, Path.counted_append, slash, List.append_nil] at spelled
      rw [own, List.mem_append, not_or] at level
      exact ⟨spelled, level.1⟩
  rw [placeOf_eq_ok_iff, startOf_of_isAbsolute absolute, joined, follow_append_iff]
  constructor
  · rintro ⟨-, middle, through, last⟩
    obtain ⟨next, stepped, done⟩ := follow_cons_iff.1 last
    cases done
    obtain ⟨-, rfl, known⟩ := (step_eq_ok_iff isName.2.2.1).1 stepped
    rw [follow_eq_counted level through, spelled, counts] at known ⊢
    exact ⟨rfl, known⟩
  · rintro ⟨rfl, known⟩
    obtain ⟨content, found⟩ := Option.isSome_iff_exists.1 known
    have holder := contentAt?_of_append (List.cons_ne_nil name []) found
    have walked : tree.contentAt? ([] ++ Path.counted before) = some .directory := by
      rwa [List.nil_append, spelled]
    have through := follow_of_directory level walked
    rw [List.nil_append, spelled] at through
    refine ⟨Path.text_join_ne_nil present isName.relative, directory.names, through, ?_⟩
    refine follow_cons_iff.2 ⟨_, (step_eq_ok_iff isName.2.2.1).2 ⟨holder, rfl, ?_⟩, ?_⟩
    · rwa [counts]
    · rw [counts]
      rfl

/-- A name below a straight path finds what stands under this name. -/
theorem find_join_of_isStraight {directory : Path} {name : Text} {entry : Entry}
    (straight : directory.IsStraight) (isName : Path.IsName name) :
    tree.find (directory.join ⟨name⟩) = .ok entry ↔
      tree.entryAt? (directory.names ++ [name]) = some entry := by
  rw [find_eq_ok_iff]
  constructor
  · rintro ⟨place, leads, found⟩
    obtain ⟨rfl, -⟩ := (placeOf_join_of_isStraight straight isName).1 leads
    exact found
  · intro found
    refine ⟨_, (placeOf_join_of_isStraight straight isName).2 ⟨rfl, ?_⟩, found⟩
    rw [contentAt?_of_entryAt? found]
    rfl

/-- The path of here finds the working directory. -/
theorem find_here {listing : Listing} (found : tree.entryAt? tree.workingPlace = some (.directory listing)) :
    tree.find .here = .ok (.directory listing) := by
  refine find_eq_ok_iff.2 ⟨tree.workingPlace, placeOf_eq_ok_iff.2 ⟨List.cons_ne_nil _ _, ?_⟩, found⟩
  exact (follow_dot_iff tree _ _).2 ⟨rfl, contentAt?_of_entryAt? found⟩

/-- A dot behind the path of a directory leads to the directory. -/
theorem find_ofPlace_here {place : Place} {listing : Listing} (names : ∀ name ∈ place, Path.IsName name)
    (found : tree.entryAt? place = some (.directory listing)) :
    tree.find ((Path.ofPlace place).join .here) = .ok (.directory listing) := by
  let pieces := [] :: (place ++ [Path.here.text])
  have bare : ∀ piece ∈ place ++ [Path.here.text], '/' ∉ piece :=
    List.forall_mem_append.2
      ⟨fun name member => (names name member).2.2.2, List.forall_mem_singleton.2 (by decide)⟩
  have cut : Text.cutAt '/' (Path.ofPlace (place ++ [Path.here.text])).text = pieces :=
    congrArg (List.cons []) (Text.cutAt_joinWith (by simp) bare)
  have level : ['.', '.'] ∉ pieces := by
    intro up
    rcases List.mem_append.1 (List.mem_of_ne_of_mem (by decide) up) with inside | last
    · exact (names _ inside).2.2.1 rfl
    · exact absurd (List.mem_singleton.1 last) (by decide)
  have spelled : Path.counted pieces = place := by
    have dot : Path.counted [Path.here.text] = [] := rfl
    have slash : Path.counted pieces = Path.counted (place ++ [Path.here.text]) := rfl
    rw [slash, Path.counted_append, Path.counted_of_names names, dot, List.append_nil]
  have directory : tree.contentAt? ([] ++ Path.counted pieces) = some .directory := by
    rw [List.nil_append, spelled]
    exact contentAt?_of_entryAt? found
  have followed := follow_of_directory level directory
  rw [List.nil_append, spelled] at followed
  have joined : (Path.ofPlace place).join .here = Path.ofPlace (place ++ [Path.here.text]) :=
    Path.join_ofPlace names (by decide)
  rw [joined, find_eq_ok_iff]
  refine ⟨place, placeOf_eq_ok_iff.2 ⟨List.cons_ne_nil _ _, ?_⟩, found⟩
  rw [startOf_of_isAbsolute rfl, cut]
  exact followed

end FileTree

end FeatureLint
