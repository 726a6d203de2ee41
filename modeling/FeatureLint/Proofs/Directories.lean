import FeatureLint.Loader
import FeatureLint.Proofs.Ordering
import FeatureLint.Proofs.Writing

/-!
This file says which files are below a directory. In a proper tree every entry has a name of its own that
is one component of a path, so that joining a path with a name leads one step down. Main statements: the
files that are gathered below a directory are exactly those that some place below it holds, each of them
can be found by its path, and no two of them have the same components.
-/

namespace FeatureLint

namespace Text

/-- A text is cut in front of and behind a separator. -/
theorem cutAt_append (separator : Char) (first second : Text) :
    cutAt separator (first ++ separator :: second) = cutAt separator first ++ cutAt separator second := by
  induction first with
  | nil => simp [cutAt]
  | cons character rest inductionHypothesis =>
      rw [List.cons_append, cutAt, cutAt]
      split
      · rw [inductionHypothesis, List.cons_append]
      · cases cut : cutAt separator rest with
        | nil => exact absurd cut (cutAt_ne_nil separator rest)
        | cons piece pieces => simp [inductionHypothesis, cut]

/-- A text without separators is one piece. -/
theorem cutAt_of_not_mem {separator : Char} {text : Text} (absent : separator ∉ text) :
    cutAt separator text = [text] := by
  induction text with
  | nil => rfl
  | cons character rest inductionHypothesis =>
      rw [List.mem_cons, not_or] at absent
      rw [cutAt, if_neg (Ne.symm absent.1), inductionHypothesis absent.2]

end Text

namespace Path

/-- A name is one component of a path. -/
def IsName (name : Text) : Prop :=
  name ≠ [] ∧ name ≠ ['.'] ∧ name ≠ ['.', '.'] ∧ '/' ∉ name

instance (name : Text) : Decidable (IsName name) :=
  inferInstanceAs (Decidable (_ ∧ _ ∧ _ ∧ _))

variable {base : Path} {name : Text}

/-- A path is absolute exactly when it begins with a slash. -/
theorem isAbsolute_iff (path : Path) : path.isAbsolute = true ↔ path.text.head? = some '/' := by
  rw [isAbsolute, Text.startsWith_iff, List.head?_eq_some_iff]
  rfl

/-- A relative path is put behind a slash, which is written if there is none yet. -/
theorem text_join {path : Path} (present : base.text ≠ []) (relative : path.isAbsolute = false) :
    (base.join path).text =
      base.text ++ (if base.text.getLast? = some '/' then [] else ['/']) ++ path.text := by
  rw [join, relative]
  by_cases slash : base.text.getLast? = some '/' <;> simp [slash, present]

/-- A joined path begins like its base. -/
theorem head?_join {path : Path} (present : base.text ≠ []) (relative : path.isAbsolute = false) :
    (base.join path).text.head? = base.text.head? := by
  rw [text_join present relative, List.append_assoc, List.head?_append_of_ne_nil _ present]

theorem text_join_ne_nil {path : Path} (present : base.text ≠ []) (relative : path.isAbsolute = false) :
    (base.join path).text ≠ [] := by
  rwa [Ne, ← List.head?_eq_none_iff, head?_join present relative, List.head?_eq_none_iff]

/-- A path that starts with a name is relative. -/
theorem IsName.relative_of_head? {path : Path} (isName : IsName name)
    (start : path.text.head? = name.head?) : path.isAbsolute = false := by
  rw [← Bool.not_eq_true, isAbsolute_iff, start]
  exact fun found => isName.2.2.2 (List.mem_of_mem_head? found)

theorem IsName.relative (isName : IsName name) : Path.isAbsolute ⟨name⟩ = false :=
  isName.relative_of_head? rfl

/-- A name is a component of its own. -/
theorem IsName.ofPiece? (isName : IsName name) : Component.ofPiece? name = some (.name name) := by
  simp [Component.ofPiece?, isName.1, isName.2.1, isName.2.2.1]

/-- A name becomes the last piece of a path, in place of the empty piece after a slash. -/
theorem IsName.cutAt_join (isName : IsName name) (present : base.text ≠ []) :
    ∃ before, before ≠ [] ∧ Text.cutAt '/' (base.join ⟨name⟩).text = before ++ [name] ∧
      (Text.cutAt '/' base.text = before ∨ Text.cutAt '/' base.text = before ++ [[]]) := by
  have alone := Text.cutAt_of_not_mem isName.2.2.2
  rw [text_join present isName.relative]
  by_cases slash : base.text.getLast? = some '/'
  · obtain ⟨front, ends⟩ := List.getLast?_eq_some_iff.1 slash
    refine ⟨Text.cutAt '/' front, Text.cutAt_ne_nil _ _, ?_, Or.inr ?_⟩
    · simp [ends, Text.cutAt_append, alone]
    · rw [ends, Text.cutAt_append]
      rfl
  · refine ⟨Text.cutAt '/' base.text, Text.cutAt_ne_nil _ _, ?_, Or.inl rfl⟩
    simp [slash, Text.cutAt_append, alone]

/-- The components of a path come from the pieces between its slashes. -/
theorem components_of_cutAt {path : Path} {first : Text} {rest : List Text}
    (cut : Text.cutAt '/' path.text = first :: rest) :
    path.components = (leadOf first rest.isEmpty).toList ++ rest.filterMap Component.ofPiece? := by
  rw [components, cut]

/-- Joining a name adds it as the last component. -/
theorem IsName.components_join (isName : IsName name) (present : base.text ≠ []) :
    (base.join ⟨name⟩).components = base.components ++ [.name name] := by
  obtain ⟨before, nonempty, joined, own⟩ := isName.cutAt_join present
  obtain ⟨first, rest, rfl⟩ := List.exists_cons_of_ne_nil nonempty
  have last : [name].filterMap Component.ofPiece? = [.name name] := by
    rw [List.filterMap_cons_some isName.ofPiece?, List.filterMap_nil]
  have more : (rest ++ [name]).isEmpty = false := by simp
  rw [components_of_cutAt (joined.trans (List.cons_append ..)), List.filterMap_append, last, more,
    ← List.append_assoc]
  congr 1
  rcases own with own | own
  · -- Only an empty path has an empty piece and no other.
    have lead : leadOf first rest.isEmpty = leadOf first false := by
      cases rest with
      | cons second others => rfl
      | nil =>
          have whole := Text.joinWith_cutAt '/' base.text
          rw [own] at whole
          have first : first ≠ [] := fun empty => present (whole ▸ empty)
          simp [leadOf, first]
    rw [components_of_cutAt own, lead]
  · have filling : [[]].filterMap Component.ofPiece? = [] := rfl
    have moreToo : (rest ++ [[]]).isEmpty = false := by simp
    rw [components_of_cutAt (own.trans (List.cons_append ..)), List.filterMap_append, filling,
      List.append_nil, moreToo]

end Path

mutual

/-- A proper entry is a file or a proper directory. -/
def Entry.Proper : Entry → Prop
  | .file _ => True
  | .directory listing => Listing.Proper listing

/-- In a proper directory every entry is proper and has a name of its own. -/
def Listing.Proper : Listing → Prop
  | [] => True
  | (name, entry) :: rest =>
      Path.IsName name ∧ name ∉ rest.map Prod.fst ∧ entry.Proper ∧ Listing.Proper rest

end

/-- What holds of files, and of a directory when it holds of its entries, holds of every entry. -/
@[elab_as_elim]
theorem Entry.nested {motive : Entry → Prop} (file : ∀ text?, motive (.file text?))
    (directory : ∀ listing : Listing, (∀ named ∈ listing, motive named.2) → motive (.directory listing)) :
    ∀ entry, motive entry
  | .file text? => file text?
  | .directory listing => directory listing fun named _ => nested file directory named.2
termination_by entry => sizeOf entry
decreasing_by
  have smaller := List.sizeOf_lt_of_mem ‹named ∈ listing›
  obtain ⟨name, entry⟩ := named
  simp only [Prod.mk.sizeOf_spec, Entry.directory.sizeOf_spec] at smaller ⊢
  omega

namespace Listing

/-- A listing is proper when its names are valid and different and its entries are proper. -/
theorem proper_iff (listing : Listing) :
    Proper listing ↔ (listing.map Prod.fst).Nodup ∧
      ∀ named ∈ listing, Path.IsName named.1 ∧ named.2.Proper := by
  induction listing with
  | nil => simp [Proper]
  | cons named rest inductionHypothesis =>
      obtain ⟨name, entry⟩ := named
      rw [Proper, inductionHypothesis, List.map_cons, List.nodup_cons, List.forall_mem_cons]
      tauto

/-- In a proper directory a name stands for the entry that it is listed with. -/
theorem lookup?_eq_some_iff {listing : Listing} (distinct : (listing.map Prod.fst).Nodup) {name : Text}
    {entry : Entry} : lookup? name listing = some entry ↔ (name, entry) ∈ listing := by
  induction listing with
  | nil => simp [lookup?]
  | cons named rest inductionHypothesis =>
      obtain ⟨known, own⟩ := named
      obtain ⟨fresh, distinct⟩ := List.nodup_cons.1 distinct
      rw [lookup?, List.mem_cons, Prod.mk.injEq]
      by_cases same : known = name
      · subst same
        have absent : (known, entry) ∉ rest := fun member => fresh (List.mem_map.2 ⟨_, member, rfl⟩)
        simp [absent, eq_comm]
      · simp [same, Ne.symm same, inductionHypothesis distinct]

/-- The files in a listing are those in its entries. -/
theorem filesWith_eq_flatMap (extension : Text) (path : Path) (listing : Listing) :
    filesWith extension path listing =
      listing.flatMap fun named => named.2.filesWith extension (path.join ⟨named.1⟩) := by
  induction listing with
  | nil => rfl
  | cons named rest inductionHypothesis =>
      obtain ⟨name, entry⟩ := named
      rw [filesWith, inductionHypothesis, List.flatMap_cons]

end Listing

namespace Path

/-- This is the path of a place below another path. -/
def below (base : Path) (place : Place) : Path :=
  place.foldl (fun path name => path.join ⟨name⟩) base

/-- Joining a name and then a relative path is joining both at once. -/
theorem IsName.join_join {base : Path} {name : Text} {path : Path} (isName : IsName name)
    (present : base.text ≠ []) (relative : path.isAbsolute = false) :
    (base.join ⟨name⟩).join path = base.join ⟨name ++ '/' :: path.text⟩ := by
  have further : Path.isAbsolute ⟨name ++ '/' :: path.text⟩ = false :=
    isName.relative_of_head? (List.head?_append_of_ne_nil _ isName.1)
  have unended : (base.join ⟨name⟩).text.getLast? ≠ some '/' := by
    rw [text_join present isName.relative, List.getLast?_append_of_ne_nil _ isName.1]
    exact fun found => isName.2.2.2 (List.mem_of_mem_getLast? found)
  have texts : ((base.join ⟨name⟩).join path).text = (base.join ⟨name ++ '/' :: path.text⟩).text := by
    rw [text_join (text_join_ne_nil present isName.relative) relative, if_neg unended,
      text_join present further, text_join present isName.relative]
    simp only [List.append_assoc, List.singleton_append]
  exact congrArg Path.mk texts

/-- Going down name by name is joining all names at once. -/
theorem below_eq_join {base : Path} {place : Place} (present : base.text ≠ []) (nonempty : place ≠ [])
    (names : ∀ name ∈ place, IsName name) :
    base.below place = base.join ⟨Text.joinWith ['/'] place⟩ := by
  induction place generalizing base with
  | nil => exact absurd rfl nonempty
  | cons name rest inductionHypothesis =>
      obtain ⟨isName, names⟩ := List.forall_mem_cons.1 names
      cases rest with
      | nil => rfl
      | cons second others =>
          have further := inductionHypothesis (text_join_ne_nil present isName.relative)
            (List.cons_ne_nil _ _) names
          have relative : isAbsolute ⟨Text.joinWith ['/'] (second :: others)⟩ = false := by
            have isSecond := (List.forall_mem_cons.1 names).1
            refine isSecond.relative_of_head? ?_
            cases others <;> simp [Text.joinWith, List.head?_append_of_ne_nil _ isSecond.1]
          calc base.below (name :: second :: others)
              = (base.join ⟨name⟩).below (second :: others) := rfl
            _ = (base.join ⟨name⟩).join ⟨Text.joinWith ['/'] (second :: others)⟩ := further
            _ = base.join ⟨name ++ '/' :: Text.joinWith ['/'] (second :: others)⟩ :=
              isName.join_join present relative
            _ = base.join ⟨Text.joinWith ['/'] (name :: second :: others)⟩ := by
              simp [Text.joinWith]

end Path

namespace Entry

variable {extension : Text}

/-- The files that are gathered are those with the extension that stand at some place. -/
theorem mem_filesWith_iff {entry : Entry} (proper : entry.Proper) (base file : Path) :
    file ∈ entry.filesWith extension base ↔
      file.extension? = some extension ∧
        ∃ place text?, entry.entryAt? place = some (.file text?) ∧ file = base.below place := by
  induction entry using Entry.nested generalizing base with
  | file own? =>
      rw [filesWith, List.mem_ite_nil_right, List.mem_singleton]
      constructor
      · rintro ⟨right, rfl⟩
        exact ⟨right, [], own?, rfl, rfl⟩
      · rintro ⟨right, place, text?, found, rfl⟩
        cases place with
        | nil => exact ⟨right, rfl⟩
        | cons name rest => cases found
  | directory listing inductionHypothesis =>
      obtain ⟨distinct, each⟩ := (Listing.proper_iff listing).1 proper
      rw [filesWith, Listing.filesWith_eq_flatMap, List.mem_flatMap]
      constructor
      · rintro ⟨⟨name, entry⟩, member, inside⟩
        obtain ⟨right, place, text?, found, rfl⟩ :=
          (inductionHypothesis _ member (each _ member).2 _).1 inside
        refine ⟨right, name :: place, text?, ?_, rfl⟩
        rw [entryAt?, Listing.entryAt?_cons, (Listing.lookup?_eq_some_iff distinct).2 member]
        exact found
      · rintro ⟨right, place, text?, found, rfl⟩
        cases place with
        | nil => cases found
        | cons name rest =>
            rw [entryAt?, Listing.entryAt?_cons, Option.bind_eq_some_iff] at found
            obtain ⟨entry, known, found⟩ := found
            have member := (Listing.lookup?_eq_some_iff distinct).1 known
            exact ⟨(name, entry), member,
              (inductionHypothesis _ member (each _ member).2 _).2 ⟨right, rest, text?, found, rfl⟩⟩

/-- What stands at a place in a proper entry is proper, and the place is made of names. -/
theorem proper_of_entryAt? {entry found : Entry} {place : Place} (proper : entry.Proper)
    (here : entry.entryAt? place = some found) :
    (∀ name ∈ place, Path.IsName name) ∧ found.Proper := by
  induction place generalizing entry with
  | nil =>
      refine ⟨List.forall_mem_nil _, ?_⟩
      cases entry <;> cases here <;> exact proper
  | cons name rest inductionHypothesis =>
      cases entry with
      | file text? => cases here
      | directory listing =>
          obtain ⟨distinct, each⟩ := (Listing.proper_iff listing).1 proper
          rw [entryAt?, Listing.entryAt?_cons, Option.bind_eq_some_iff] at here
          obtain ⟨below, known, here⟩ := here
          obtain ⟨isName, properBelow⟩ := each _ ((Listing.lookup?_eq_some_iff distinct).1 known)
          obtain ⟨names, properFound⟩ := inductionHypothesis properBelow here
          exact ⟨List.forall_mem_cons.2 ⟨isName, names⟩, properFound⟩

/-- The components of a gathered file go on from those of the path where the search started. -/
theorem isPrefix_of_mem_filesWith {entry : Entry} (proper : entry.Proper) {base file : Path}
    (present : base.text ≠ []) (member : file ∈ entry.filesWith extension base) :
    base.components <+: file.components := by
  induction entry using Entry.nested generalizing base with
  | file own? =>
      rw [filesWith, List.mem_ite_nil_right, List.mem_singleton] at member
      exact member.2 ▸ List.prefix_rfl
  | directory listing inductionHypothesis =>
      obtain ⟨-, each⟩ := (Listing.proper_iff listing).1 proper
      rw [filesWith, Listing.filesWith_eq_flatMap, List.mem_flatMap] at member
      obtain ⟨⟨name, entry⟩, listed, inside⟩ := member
      obtain ⟨isName, properBelow⟩ := each _ listed
      have further := inductionHypothesis _ listed properBelow
        (Path.text_join_ne_nil present isName.relative) inside
      rw [isName.components_join present] at further
      exact (List.prefix_append _ _).trans further

/-- No two gathered files have the same components. -/
theorem pairwise_components_filesWith {entry : Entry} (proper : entry.Proper) {base : Path}
    (present : base.text ≠ []) :
    (entry.filesWith extension base).Pairwise fun one other => one.components ≠ other.components := by
  induction entry using Entry.nested generalizing base with
  | file own? =>
      rw [filesWith]
      split <;> simp
  | directory listing inductionHypothesis =>
      obtain ⟨distinct, each⟩ := (Listing.proper_iff listing).1 proper
      rw [filesWith, Listing.filesWith_eq_flatMap, List.pairwise_flatMap]
      constructor
      · intro named member
        obtain ⟨isName, properBelow⟩ := each _ member
        exact inductionHypothesis _ member properBelow (Path.text_join_ne_nil present isName.relative)
      · refine (List.pairwise_map.1 distinct).imp_of_mem ?_
        rintro ⟨name, entry⟩ ⟨other, another⟩ listed listedToo apart file inside fileToo insideToo same
        obtain ⟨isName, properBelow⟩ := each _ listed
        obtain ⟨isNameToo, properBelowToo⟩ := each _ listedToo
        have first := isPrefix_of_mem_filesWith properBelow
          (Path.text_join_ne_nil present isName.relative) inside
        have second := isPrefix_of_mem_filesWith properBelowToo
          (Path.text_join_ne_nil present isNameToo.relative) insideToo
        rw [isName.components_join present] at first
        rw [isNameToo.components_join present, ← same] at second
        have equal := (List.prefix_of_prefix_length_le first second (by simp)).eq_of_length (by simp)
        exact apart (by simpa using List.append_cancel_left equal)

end Entry

namespace FileTree

variable {tree : FileTree} {path : Path} {entry : Entry}

/-- A path finds what stands at the place that it leads to. -/
theorem find_eq_ok_iff :
    tree.find path = .ok entry ↔
      ∃ place, tree.placeOf path = .ok place ∧ tree.entryAt? place = some entry := by
  unfold find placeOf
  split
  · simp
  · cases tree.follow (tree.startOf path) (Text.cutAt '/' path.text) with
    | error cause => simp
    | ok place => cases here : tree.entryAt? place <;> simp [here]

/-- A path leads to a place when its pieces can be followed there. -/
theorem placeOf_eq_ok_iff {place : Place} :
    tree.placeOf path = .ok place ↔
      path.text ≠ [] ∧ tree.follow (tree.startOf path) (Text.cutAt '/' path.text) = .ok place := by
  unfold placeOf
  cases path.text <;> simp

/-- The empty path finds nothing. -/
theorem text_ne_nil_of_find (found : tree.find path = .ok entry) : path.text ≠ [] := by
  obtain ⟨place, leads, -⟩ := find_eq_ok_iff.1 found
  exact (placeOf_eq_ok_iff.1 leads).1

/-- A slash at the end of a path leads nowhere else. -/
theorem follow_empty {start place : Place} (followed : tree.follow start [[]] = .ok place) :
    start = place := by
  revert followed
  rw [follow, step_eq]
  cases tree.contentAt? start with
  | none => simp
  | some content => cases content <;> simp [Path.isFilling, follow]

/-- A name behind the path of a directory leads to the entry of that name. -/
theorem find_join {listing : Listing} {name : Text} (found : tree.find path = .ok (.directory listing))
    (isName : Path.IsName name) (known : Listing.lookup? name listing = some entry) :
    tree.find (path.join ⟨name⟩) = .ok entry := by
  obtain ⟨place, leads, here⟩ := find_eq_ok_iff.1 found
  obtain ⟨present, followed⟩ := placeOf_eq_ok_iff.1 leads
  obtain ⟨before, -, joined, own⟩ := isName.cutAt_join present
  have through : tree.follow (tree.startOf path) before = .ok place := by
    rcases own with own | own
    · rwa [own] at followed
    · rw [own, follow_append_iff] at followed
      obtain ⟨middle, followed, slash⟩ := followed
      rwa [← follow_empty slash]
  have sameStart : tree.startOf (path.join ⟨name⟩) = tree.startOf path := by
    have same : (path.join ⟨name⟩).isAbsolute = path.isAbsolute := by
      rw [Bool.eq_iff_iff, Path.isAbsolute_iff, Path.isAbsolute_iff, Path.head?_join present isName.relative]
    rw [startOf, startOf, same]
  have stepped : tree.step place name = .ok (place ++ [name]) := by
    rw [step, here]
    simp [Path.isFilling, isName.1, isName.2.1, isName.2.2.1, known]
  have presentToo := Path.text_join_ne_nil present isName.relative
  refine find_eq_ok_iff.2 ⟨place ++ [name], placeOf_eq_ok_iff.2 ⟨presentToo, ?_⟩, ?_⟩
  · rw [sameStart, joined, follow_append_iff]
    refine ⟨place, through, ?_⟩
    rw [follow, stepped]
    rfl
  · exact (entryAt?_append name here).trans known

/-- Every gathered file can be found by its path. -/
theorem exists_find_of_mem_filesWith {extension : Text} {file : Path} (proper : entry.Proper)
    (found : tree.find path = .ok entry) (member : file ∈ entry.filesWith extension path) :
    ∃ text?, tree.find file = .ok (.file text?) := by
  induction entry using Entry.nested generalizing path with
  | file own? =>
      rw [Entry.filesWith, List.mem_ite_nil_right, List.mem_singleton] at member
      exact ⟨own?, member.2 ▸ found⟩
  | directory listing inductionHypothesis =>
      obtain ⟨distinct, each⟩ := (Listing.proper_iff listing).1 proper
      rw [Entry.filesWith, Listing.filesWith_eq_flatMap, List.mem_flatMap] at member
      obtain ⟨⟨name, entry⟩, listed, inside⟩ := member
      obtain ⟨isName, properBelow⟩ := each _ listed
      have known := (Listing.lookup?_eq_some_iff distinct).2 listed
      exact inductionHypothesis _ listed properBelow (find_join found isName known) inside

/-- A proper tree has a proper root. -/
def Proper (tree : FileTree) : Prop :=
  Listing.Proper tree.root

/-- Whatever is found in a proper tree is proper. -/
theorem Proper.of_find (proper : tree.Proper) (found : tree.find path = .ok entry) : entry.Proper := by
  obtain ⟨place, -, here⟩ := find_eq_ok_iff.1 found
  have properRoot : (Entry.directory tree.root).Proper := proper
  exact (Entry.proper_of_entryAt? properRoot here).2

end FileTree

end FeatureLint
