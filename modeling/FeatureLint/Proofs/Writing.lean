import FeatureLint.FileTree
import Mathlib.Data.List.Basic

/-!
This file says what writing a file does to a file tree. A tree is seen as what it has at each place: a
directory, a file with its text, or nothing. Following a path depends on nothing else, so a tree that
only grew is followed as before. Main statement: after a file was written, its path leads to one place
that holds the text, and every other place holds what it held.
-/

namespace FeatureLint

/-- This is what stands at a place without what is below it. -/
inductive Content where
  | directory
  | file (text? : Option Text)
deriving DecidableEq

def Entry.content : Entry → Content
  | .file text? => .file text?
  | .directory _ => .directory

/-- This is what stands at a place below an entry, and nothing stands below a file. -/
def Entry.entryAt? (place : Place) : Entry → Option Entry
  | .directory listing => Listing.entryAt? place listing
  | .file text? => if place = [] then some (.file text?) else none

theorem Listing.entryAt?_cons (name : Text) (place : Place) (listing : Listing) :
    entryAt? (name :: place) listing = (lookup? name listing).bind (Entry.entryAt? place) := by
  cases place with
  | nil =>
      rw [entryAt?]
      cases lookup? name listing with
      | none => rfl
      | some entry => cases entry <;> rfl
  | cons second rest =>
      rw [entryAt?]
      · cases lookup? name listing with
        | none => rfl
        | some entry => cases entry <;> rfl
      · exact List.cons_ne_nil _ _

namespace Listing

/-- Setting a name changes what is found under this name only. -/
theorem lookup?_set (name other : Text) (entry : Entry) (listing : Listing) :
    lookup? name (set other entry listing) =
      if name = other then some entry else lookup? name listing := by
  induction listing with
  | nil => simp [set, lookup?, eq_comm]
  | cons first rest inductionHypothesis =>
      obtain ⟨known, old⟩ := first
      by_cases here : known = other
      · by_cases same : name = other <;> simp [set, lookup?, here, same, eq_comm]
      · by_cases same : known = name
        · have apart : name ≠ other := same ▸ here
          simp [set, lookup?, same, apart]
        · simp [set, lookup?, here, same, inductionHypothesis]

def contentAt? (place : Place) (listing : Listing) : Option Content :=
  (entryAt? place listing).map Entry.content

end Listing

/-- There is nothing below a file. -/
def Entry.contentAt? (place : Place) : Entry → Option Content
  | .directory listing => Listing.contentAt? place listing
  | .file text? => if place = [] then some (.file text?) else none

/-- The content at a place is that of the entry there. -/
theorem Entry.map_content_entryAt? (entry : Entry) (place : Place) :
    (entry.entryAt? place).map Entry.content = entry.contentAt? place := by
  cases entry with
  | directory listing => rfl
  | file text? =>
      rw [entryAt?, contentAt?]
      split <;> rfl

namespace Listing

theorem contentAt?_cons (name : Text) (place : Place) (listing : Listing) :
    contentAt? (name :: place) listing = (lookup? name listing).bind (Entry.contentAt? place) := by
  rw [contentAt?, entryAt?_cons, Option.map_bind]
  congr 1
  funext entry
  exact entry.map_content_entryAt? place

/-- Setting a name changes the contents below this name only. -/
theorem contentAt?_set (first : Text) (others : Place) (name : Text) (entry : Entry)
    (listing : Listing) :
    contentAt? (first :: others) (set name entry listing) =
      if first = name then entry.contentAt? others else contentAt? (first :: others) listing := by
  rw [contentAt?_cons, lookup?_set, contentAt?_cons]
  split <;> rfl

/-- A directory below a name makes the name a directory. -/
theorem exists_lookup?_of_directory {name : Text} {place : Place} {listing : Listing}
    (found : contentAt? (name :: place) listing = some .directory) :
    ∃ below, lookup? name listing = some (.directory below) ∧
      contentAt? place below = some .directory := by
  rw [contentAt?_cons, Option.bind_eq_some_iff] at found
  obtain ⟨entry, known, here⟩ := found
  cases entry with
  | directory below => exact ⟨below, known, here⟩
  | file text? =>
      rw [Entry.contentAt?] at here
      split at here <;> cases here

/-- Nothing is below a name that stands for no directory. -/
theorem contentAt?_below {name : Text} {listing : Listing}
    (free : contentAt? [name] listing ≠ some .directory) {place : Place} (below : place ≠ []) :
    contentAt? (name :: place) listing = none := by
  rw [contentAt?_cons] at free ⊢
  cases known : lookup? name listing with
  | none => rfl
  | some entry =>
      rw [known] at free
      cases entry with
      | directory inside => exact absurd rfl free
      | file text? => exact if_neg below

/-- A file that is put into a directory changes nothing but its own place. -/
theorem contentAt?_put {text? : Option Text} {place : Place} {listing : Listing}
    (holder : contentAt? place.dropLast listing = some .directory)
    (free : contentAt? place listing ≠ some .directory) (other : Place) :
    contentAt? other (put (.file text?) place listing) =
      if other = place then some (.file text?) else contentAt? other listing := by
  induction place generalizing listing other with
  | nil => exact absurd rfl free
  | cons name place inductionHypothesis =>
      cases other with
      | nil => rfl
      | cons first others =>
          cases place with
          | nil =>
              rw [put, contentAt?_set]
              by_cases same : first = name
              · by_cases last : others = []
                · simp [same, last, Entry.contentAt?]
                · simp [same, last, Entry.contentAt?, contentAt?_below free last]
              · simp [same]
          | cons second rest =>
              obtain ⟨below, known, holderBelow⟩ := exists_lookup?_of_directory holder
              have freeBelow : contentAt? (second :: rest) below ≠ some .directory := by
                rw [contentAt?_cons, known] at free
                exact free
              have inside := inductionHypothesis holderBelow freeBelow others
              have placed : put (.file text?) (name :: second :: rest) listing =
                  set name (.directory (put (.file text?) (second :: rest) below)) listing := by
                rw [put, known]
                exact List.cons_ne_nil _ _
              rw [placed, contentAt?_set]
              by_cases same : first = name
              · rw [if_pos same, Entry.contentAt?, inside, same, contentAt?_cons, known]
                simp [Entry.contentAt?]
              · simp [same]

end Listing

namespace FileTree

def contentAt? (tree : FileTree) (place : Place) : Option Content :=
  Listing.contentAt? place tree.root

/-- An entry at a place gives the content there. -/
theorem contentAt?_of_entryAt? {tree : FileTree} {place : Place} {entry : Entry}
    (found : tree.entryAt? place = some entry) : tree.contentAt? place = some entry.content := by
  rw [contentAt?, Listing.contentAt?]
  exact congrArg (Option.map Entry.content) found

/-- What stands in a directory is found under its name. -/
theorem entryAt?_append {place : Place} {root listing : Listing} (name : Text)
    (found : Listing.entryAt? place root = some (.directory listing)) :
    Listing.entryAt? (place ++ [name]) root = Listing.lookup? name listing := by
  induction place generalizing root with
  | nil =>
      cases found
      rfl
  | cons first rest inductionHypothesis =>
      rw [Listing.entryAt?_cons, Option.bind_eq_some_iff] at found
      obtain ⟨entry, known, found⟩ := found
      rw [List.cons_append, Listing.entryAt?_cons, known, Option.bind_some]
      cases entry with
      | directory inside => exact inductionHypothesis found
      | file text? =>
          rw [Entry.entryAt?] at found
          split at found <;> cases found

/-- A step depends only on what stands at the places. -/
theorem step_eq (tree : FileTree) (place : Place) (piece : Text) :
    tree.step place piece =
      match tree.contentAt? place with
      | none => .error .notFound
      | some (.file _) => .error .notDirectory
      | some .directory =>
          if Path.isFilling piece then .ok place
          else if piece = ['.', '.'] then .ok place.dropLast
          else if (tree.contentAt? (place ++ [piece])).isSome then .ok (place ++ [piece])
          else .error .notFound := by
  unfold step
  cases found : tree.entryAt? place with
  | none =>
      have nothing : tree.contentAt? place = none := congrArg (Option.map Entry.content) found
      rw [nothing]
  | some entry =>
      rw [contentAt?_of_entryAt? found]
      cases entry with
      | file text? => rfl
      | directory listing =>
          have inside : (tree.contentAt? (place ++ [piece])).isSome =
              (Listing.lookup? piece listing).isSome := by
            rw [contentAt?, Listing.contentAt?, entryAt?_append piece found, Option.isSome_map]
          simp only [Entry.content, inside]

/-- A tree that grew has all directories and all entries of the old one. -/
structure Grown (old new : FileTree) : Prop where
  workingPlace : new.workingPlace = old.workingPlace
  directories : ∀ place, old.contentAt? place = some .directory →
    new.contentAt? place = some .directory
  entries : ∀ place, (old.contentAt? place).isSome = true → (new.contentAt? place).isSome = true

/-- In a grown tree every step still leads to the same place. -/
theorem Grown.step {old new : FileTree} (grown : Grown old new) {place next : Place} {piece : Text}
    (stepped : old.step place piece = .ok next) : new.step place piece = .ok next := by
  rw [step_eq] at stepped ⊢
  split at stepped
  · cases stepped
  · cases stepped
  · next found =>
      rw [grown.directories place found]
      dsimp only
      split at stepped
      · next filling => rwa [if_pos filling]
      · next filling =>
          rw [if_neg filling]
          split at stepped
          · next up => rwa [if_pos up]
          · next up =>
              rw [if_neg up]
              split at stepped
              · next known => rwa [if_pos (grown.entries _ known)]
              · cases stepped

/-- Where a path led, it leads after the tree grew. -/
theorem Grown.follow {old new : FileTree} (grown : Grown old new) {start place : Place}
    {pieces : List Text} (followed : old.follow start pieces = .ok place) :
    new.follow start pieces = .ok place := by
  induction pieces generalizing start with
  | nil => exact followed
  | cons piece pieces inductionHypothesis =>
      rw [FileTree.follow] at followed ⊢
      cases stepped : old.step start piece with
      | error cause =>
          rw [stepped] at followed
          cases followed
      | ok next =>
          rw [stepped] at followed
          rw [grown.step stepped]
          exact inductionHypothesis followed

/-- Pieces are followed one after the other. -/
theorem follow_append_iff (tree : FileTree) (start place : Place) (first second : List Text) :
    tree.follow start (first ++ second) = .ok place ↔
      ∃ middle, tree.follow start first = .ok middle ∧ tree.follow middle second = .ok place := by
  induction first generalizing start with
  | nil => simp [follow]
  | cons piece first inductionHypothesis =>
      rw [List.cons_append, follow, follow]
      cases tree.step start piece with
      | error cause => simp
      | ok next => exact inductionHypothesis next

/-- This is the place where a path leads. -/
def placeOf (tree : FileTree) (path : Path) : Except FileError Place :=
  if path.text.isEmpty then .error .notFound
  else tree.follow (tree.startOf path) (Text.cutAt '/' path.text)

/-- The text at a place is read through every path that leads there. -/
theorem readText_of_placeOf {tree : FileTree} {path : Path} {place : Place} {text : Text}
    (leads : tree.placeOf path = .ok place) (holds : tree.contentAt? place = some (.file (some text))) :
    tree.readText path = .ok text := by
  obtain ⟨entry, found, content⟩ := Option.map_eq_some_iff.1 holds
  unfold placeOf at leads
  split at leads
  · cases leads
  · next present =>
      cases entry with
      | directory listing => cases content
      | file text? =>
          cases content
          have here : tree.entryAt? place = some (.file (some text)) := found
          rw [readText, find, if_neg present, leads]
          dsimp only
          rw [here]

/-- A dot at the end of a path asks for a directory. -/
theorem follow_dot_iff (tree : FileTree) (start place : Place) :
    tree.follow start [['.']] = .ok place ↔
      start = place ∧ tree.contentAt? start = some .directory := by
  rw [follow, step_eq]
  cases tree.contentAt? start with
  | none => simp
  | some content =>
      cases content with
      | file text? => simp
      | directory => simp [Path.isFilling, follow]

/-- Without a slash at the end, nothing is cut off before the last piece. -/
theorem eq_append_of_dropWhile {pieces before : List Text} {last : Text}
    (found : pieces.reverse.dropWhile List.isEmpty = last :: before)
    (ended : pieces.getLast? ≠ some []) : pieces = before.reverse ++ [last] ∧ last ≠ [] := by
  cases reversed : pieces.reverse with
  | nil =>
      rw [reversed] at found
      cases found
  | cons first others =>
      have present : first ≠ [] := by
        rintro rfl
        rw [← List.head?_reverse, reversed] at ended
        exact ended rfl
      rw [reversed, List.dropWhile_cons_of_neg (by simp [present])] at found
      cases found
      exact ⟨by rw [← List.reverse_cons, ← reversed, List.reverse_reverse], present⟩

/-- A path that ends in a name leads through a directory. -/
theorem exists_pieces_of_target {tree : FileTree} {path : Path} {place : Place} {name : Text}
    (aimed : tree.target path = .ok (.name place name false)) :
    path.text.isEmpty = false ∧ Path.isFilling name = false ∧ name ≠ ['.', '.'] ∧
      tree.contentAt? place = some .directory ∧
      ∃ before, Text.cutAt '/' path.text = before ++ [name] ∧
        tree.follow (tree.startOf path) before = .ok place := by
  unfold target at aimed
  split at aimed
  · cases aimed
  next present =>
    dsimp only at aimed
    split at aimed
    · cases aimed
    next last before rest =>
      split at aimed
      · cases aimed
      next middle followed =>
        split at aimed
        · cases aimed
        next named =>
          simp only [Except.ok.injEq, Target.name.injEq, decide_eq_false_iff_not] at aimed
          obtain ⟨rfl, rfl, ended⟩ := aimed
          obtain ⟨pieces, nonempty⟩ := eq_append_of_dropWhile rest ended
          obtain ⟨place, through, dot⟩ := (follow_append_iff _ _ _ _ _).1 followed
          obtain ⟨rfl, directory⟩ := (follow_dot_iff _ _ _).1 dot
          simp only [Bool.or_eq_true, decide_eq_true_eq, not_or] at named
          exact ⟨Bool.eq_false_iff.2 present, by simp [Path.isFilling, nonempty, named.1], named.2,
            directory, before.reverse, pieces, through⟩

/-- What is written goes to a name that is no directory. -/
theorem exists_target_of_write {tree written : FileTree} {path : Path} {text : Text}
    (wrote : tree.write path text = .ok written) :
    ∃ place name, tree.target path = .ok (.name place name false) ∧
      tree.contentAt? (place ++ [name]) ≠ some .directory ∧
      written = tree.put (place ++ [name]) (.file (some text)) := by
  unfold write at wrote
  split at wrote
  · cases wrote
  · cases wrote
  next place name slash aimed =>
    split at wrote
    · cases wrote
    next noSlash =>
      rw [Bool.not_eq_true] at noSlash
      subst noSlash
      split at wrote
      · cases wrote
      next free =>
        cases wrote
        refine ⟨place, name, aimed, fun directory => ?_, rfl⟩
        obtain ⟨entry, found, content⟩ := Option.map_eq_some_iff.1 directory
        cases entry with
        | file text? => cases content
        | directory listing => exact free listing found

/-- A tree grows when a place that held no directory gets a file. -/
theorem grown_of_contentAt? {tree written : FileTree} {place : Place} {text? : Option Text}
    (sameWorkingPlace : written.workingPlace = tree.workingPlace)
    (free : tree.contentAt? place ≠ some .directory)
    (changed : ∀ other, written.contentAt? other =
      if other = place then some (.file text?) else tree.contentAt? other) : Grown tree written := by
  refine ⟨sameWorkingPlace, fun other directory => ?_, fun other known => ?_⟩
  · have elsewhere : other ≠ place := by
      rintro rfl
      exact free directory
    rw [changed, if_neg elsewhere, directory]
  · rw [changed]
    split
    · rfl
    · exact known

/-- Writing a file puts it at the place where its path leads from then on, and every other place holds
what it held. -/
theorem exists_place_of_write {tree written : FileTree} {path : Path} {text : Text}
    (wrote : tree.write path text = .ok written) :
    ∃ place, written.placeOf path = .ok place ∧ written.workingPlace = tree.workingPlace ∧
      ∀ other, written.contentAt? other =
        if other = place then some (.file (some text)) else tree.contentAt? other := by
  obtain ⟨place, name, aimed, free, rfl⟩ := exists_target_of_write wrote
  obtain ⟨present, notFilling, notUp, directory, before, pieces, followed⟩ :=
    exists_pieces_of_target aimed
  have changed (other : Place) :
      (tree.put (place ++ [name]) (.file (some text))).contentAt? other =
        if other = place ++ [name] then some (.file (some text)) else tree.contentAt? other := by
    refine Listing.contentAt?_put ?_ free other
    rw [List.dropLast_concat]
    exact directory
  have grown : Grown tree (tree.put (place ++ [name]) (.file (some text))) :=
    grown_of_contentAt? rfl free changed
  refine ⟨place ++ [name], ?_, rfl, changed⟩
  rw [placeOf, if_neg (by rw [present]; exact Bool.false_ne_true), pieces, follow_append_iff]
  refine ⟨place, grown.follow followed, ?_⟩
  rw [follow, step_eq, grown.directories place directory]
  simp [notFilling, notUp, changed, follow]

/-- What was written can be read. -/
theorem readText_of_write {tree written : FileTree} {path : Path} {text : Text}
    (wrote : tree.write path text = .ok written) : written.readText path = .ok text := by
  obtain ⟨place, leads, -, changed⟩ := exists_place_of_write wrote
  exact readText_of_placeOf leads (by rw [changed, if_pos rfl])

end FileTree

end FeatureLint
