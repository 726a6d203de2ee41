import FeatureLint.Proofs.Loading
import FeatureLint.Proofs.TomlStrings
import FeatureLint.Proofs.Writing
import Mathlib.Data.List.Basic

/-!
This file saves settings and loads them back. The saved text is read line by line into statements, and the
statements are put together again to the tables they came from. Main statement: settings whose linters have
different names are loaded back as they were saved.
-/

namespace FeatureLint

namespace Toml

namespace Value

/-- A string starts with one of its two marks. -/
theorem exists_mark_of_write (text : Text) :
    ∃ mark body, (mark = '"' ∨ mark = '\'') ∧ Quoted.write text = mark :: body := by
  obtain written | ⟨written, -⟩ | written | ⟨written, -⟩ := Quoted.write_cases text
  · exact ⟨'"', _, Or.inl rfl, written⟩
  · exact ⟨'\'', _, Or.inr rfl, written⟩
  · exact ⟨'"', _, Or.inl rfl, written⟩
  · exact ⟨'\'', _, Or.inr rfl, written⟩

/-- What begins with a mark is read as a string. -/
theorem read?_mark (depth : Nat) {mark : Char} (isMark : mark = '"' ∨ mark = '\'') (rest : Text) :
    read? depth (mark :: rest) =
      (Quoted.read? (mark :: rest)).map fun (text, last) => (.string text, last) := by
  rcases isMark with rfl | rfl <;> cases depth <;> rfl

/-- A text that was written as a value is read back as a value. -/
theorem read?_write (depth : Nat) (text : Text) {rest : Text} (noBasic : rest.head? ≠ some '"')
    (noLiteral : rest.head? ≠ some '\'') :
    read? depth (Quoted.write text ++ rest) = some (.string text, rest) := by
  have read := Quoted.read?_write text noBasic noLiteral
  obtain ⟨mark, body, isMark, written⟩ := exists_mark_of_write text
  rw [written, List.cons_append] at read ⊢
  rw [read?_mark depth isMark, read]
  rfl

/-- No filler stands in front of a written text. -/
theorem skipFiller?_write (text rest : Text) :
    skipFiller? false (Quoted.write text ++ rest) = some (Quoted.write text ++ rest) := by
  obtain ⟨mark, body, isMark, written⟩ := exists_mark_of_write text
  rw [written]
  rcases isMark with rfl | rfl <;> rfl

theorem skipSpaces_write (text rest : Text) :
    Quoted.skipSpaces (Quoted.write text ++ rest) = Quoted.write text ++ rest := by
  obtain ⟨mark, body, isMark, written⟩ := exists_mark_of_write text
  rw [written]
  rcases isMark with rfl | rfl <;> exact Quoted.skipSpaces_of_not_isSpace rfl _

section Elements

variable (depth : Nat) {limit : Nat}

/-- An element that was written is read, and what follows it decides how the array goes on. -/
theorem readElements?_write {before text rest : Text} (noBasic : rest.head? ≠ some '"')
    (noLiteral : rest.head? ≠ some '\'')
    (skipped : skipFiller? false before = some (Quoted.write text ++ rest)) :
    readElements? (read? depth) (limit + 1) before =
      (skipFiller? false rest).bind fun
        | ']' :: rest => some ([.string text], rest)
        | ',' :: rest =>
            (readElements? (read? depth) limit rest).bind fun (elements, last) =>
              some (.string text :: elements, last)
        | _ => none := by
  have read := read?_write depth text noBasic noLiteral
  have notClosed : ∀ after, Quoted.write text ++ rest ≠ ']' :: after := by
    intro after same
    obtain ⟨mark, body, isMark, written⟩ := exists_mark_of_write text
    rw [written] at same
    rcases isMark with rfl | rfl <;> cases same
  rw [readElements?, skipped]
  simp only [Option.bind_eq_bind, Option.bind_some, read]
  rfl

/-- This is an element on a line of its own. -/
def elementLine (text : Text) : Text :=
  "    ".toList ++ Quoted.write text ++ ",\n".toList

theorem elementLine_append (text rest : Text) :
    elementLine text ++ rest = ' ' :: ' ' :: ' ' :: ' ' :: (Quoted.write text ++ ',' :: '\n' :: rest) := by
  change [' ', ' ', ' ', ' '] ++ Quoted.write text ++ [',', '\n'] ++ rest = _
  simp only [List.append_assoc, List.cons_append, List.nil_append]

/-- The elements of a written array are read back. -/
theorem readElements?_elementLines {texts : List Text} (few : texts.length < limit) (rest : Text) :
    readElements? (read? depth) limit ('\n' :: (texts.flatMap elementLine ++ ']' :: rest)) =
      some (texts.map .string, rest) := by
  induction texts generalizing limit with
  | nil =>
      obtain ⟨limit, rfl⟩ := Nat.exists_eq_add_one.2 few
      rfl
  | cons text texts inductionHypothesis =>
      obtain ⟨limit, rfl⟩ := Nat.exists_eq_add_one.2 (Nat.zero_lt_of_lt few)
      have skipped : ∀ after, skipFiller? false ('\n' :: (elementLine text ++ after)) =
          some (Quoted.write text ++ ',' :: '\n' :: after) := by
        intro after
        rw [elementLine_append]
        exact skipFiller?_write text _
      have read := inductionHypothesis (Nat.lt_of_succ_lt_succ few)
      rw [List.flatMap_cons, List.append_assoc,
        readElements?_write depth (by simp) (by simp) (skipped _)]
      change (readElements? (read? depth) limit _).bind _ = _
      rw [read]
      rfl

/-- There are no more elements than characters. -/
theorem length_le_length_elementLines (texts : List Text) :
    texts.length ≤ (texts.flatMap elementLine).length := by
  induction texts with
  | nil => exact Nat.le_refl 0
  | cons text texts inductionHypothesis =>
      rw [List.flatMap_cons, elementLine_append]
      simp only [List.length_cons, List.length_append]
      omega

/-- An array of texts that was written is read back. -/
theorem read?_textArray (texts : List Text) (rest : Text) :
    read? (depth + 1) (Settings.textArray texts ++ rest) =
      some (.array .inline (texts.map .string), rest) := by
  rcases texts with _ | ⟨first, _ | ⟨second, others⟩⟩
  · rfl
  · have layout : Settings.textArray [first] ++ rest = '[' :: (Quoted.write first ++ ']' :: rest) := by
      simp [Settings.textArray]
    rw [layout, read?, readElements?_write depth (by simp) (by simp) (skipFiller?_write first _)]
    rfl
  · have layout : Settings.textArray (first :: second :: others) ++ rest =
        '[' :: '\n' :: ((first :: second :: others).flatMap elementLine ++ ']' :: rest) := by
      change ['[', '\n'] ++ (first :: second :: others).flatMap elementLine ++ [']'] ++ rest = _
      simp only [List.append_assoc, List.cons_append, List.nil_append]
    have enough := length_le_length_elementLines (first :: second :: others)
    rw [layout, read?, readElements?_elementLines]
    · rfl
    · simp only [List.length_cons, List.length_append] at enough ⊢
      omega

end Elements

/-- A written truth value is read back. -/
theorem read?_boolean (depth : Nat) (truth : Bool) (rest : Text) :
    read? depth ((if truth then "true".toList else "false".toList) ++ '\n' :: rest) =
      some (.boolean truth, '\n' :: rest) := by
  cases truth <;> cases depth <;> rfl

end Value

namespace Statement

/-- This is a text that is read as the given statements when there are as many steps as characters. -/
def Spells (text : Text) (statements : List Statement) : Prop :=
  ∀ limit, text.length < limit → readAll? limit text = some statements

/-- A statement at the front of a text is read, and the text after its line is read next. -/
theorem readAll?_of_read? {limit : Nat} {first : Char} {body rest : Text} {statement : Statement}
    (notSpace : Quoted.isSpace first = false)
    (notFiller : first ≠ '#' ∧ first ≠ '\n' ∧ first ≠ '\r')
    (read : read? (first :: body) = some (statement, '\n' :: rest)) :
    readAll? (limit + 1) (first :: body) = (readAll? limit rest).map (statement :: ·) := by
  have line : afterLine? ('\n' :: rest) = some rest := rfl
  obtain ⟨notComment, notNewline, notReturn⟩ := notFiller
  rw [readAll?, Quoted.skipSpaces_of_not_isSpace notSpace]
  simp only [notComment, notNewline, notReturn, decide_false, Bool.or_self, Bool.false_eq_true, if_false,
    read, line, Option.bind_eq_bind, Option.bind_some, Option.pure_def]
  exact Option.map_eq_bind.symm

theorem spells_nil : Spells [] [] := by
  intro limit enough
  obtain ⟨limit, rfl⟩ := Nat.exists_eq_add_one.2 (Nat.zero_lt_of_lt enough)
  rfl

/-- An empty line in front of a text spells nothing. -/
theorem Spells.blank {rest : Text} {statements : List Statement} (spells : Spells rest statements) :
    Spells ('\n' :: rest) statements := by
  intro limit enough
  obtain ⟨limit, rfl⟩ := Nat.exists_eq_add_one.2 (Nat.zero_lt_of_lt enough)
  exact spells limit (Nat.lt_of_succ_lt_succ enough)

/-- A statement on a line of its own stands before the statements of the next lines. -/
theorem Spells.statement {text rest : Text} {statements : List Statement} {statement : Statement}
    (spells : Spells rest statements) (shorter : rest.length < text.length)
    (read : ∀ limit, readAll? (limit + 1) text = (readAll? limit rest).map (statement :: ·)) :
    Spells text (statement :: statements) := by
  intro limit enough
  obtain ⟨limit, rfl⟩ := Nat.exists_eq_add_one.2 (Nat.zero_lt_of_lt enough)
  rw [read limit, spells limit (by omega)]
  rfl

theorem headerLine_append (key : List Text) (rest : Text) :
    Settings.headerLine key ++ rest = '[' :: (Key.write key ++ ']' :: '\n' :: rest) := by
  change '[' :: (Key.write key ++ [']', '\n']) ++ rest = _
  simp only [List.append_assoc, List.cons_append, List.nil_append]

/-- A written header is read back. -/
theorem read?_headerLine (part : Text) {parts : List Text} (few : parts.length < depthLimit - 1)
    (rest : Text) :
    read? (Settings.headerLine (part :: parts) ++ rest) = some (.table (part :: parts), '\n' :: rest) := by
  have ends : Key.EndsKey (']' :: '\n' :: rest) := by
    constructor
    · rintro character ⟨rfl⟩
      decide
    · rw [Quoted.skipSpaces_of_not_isSpace rfl]
      simp
  have readKey := Key.read?_write part few ends
  -- Two brackets would start an element of an array, but no key starts with a bracket.
  have oneBracket : ∀ after, Key.write (part :: parts) ++ ']' :: '\n' :: rest ≠ '[' :: after := by
    intro after same
    obtain ⟨first, body, written, starts⟩ := Key.exists_cons_of_writePart part
    rw [Key.write_cons, written] at same
    exact Key.ne_of_starts starts (by decide) (List.head_eq_of_cons_eq same)
  rw [headerLine_append]
  unfold read?
  split
  · next same => exact absurd (List.tail_eq_of_cons_eq same) (oneBracket _)
  · next same =>
      cases same
      rw [readKey]
      rfl
  · next other => exact absurd rfl (other _)

/-- The line with the header of a table is read back. -/
theorem Spells.header {part : Text} {parts : List Text} (few : parts.length < depthLimit - 1) {rest : Text}
    {statements : List Statement} (spells : Spells rest statements) :
    Spells (Settings.headerLine (part :: parts) ++ rest) (.table (part :: parts) :: statements) := by
  have read := read?_headerLine part few rest
  rw [headerLine_append] at read ⊢
  apply spells.statement
  · simp only [List.length_cons, List.length_append]
    omega
  · intro limit
    exact readAll?_of_read? rfl (by decide) read

theorem pairLine_append (key value rest : Text) :
    Settings.pairLine key value ++ rest = key ++ ' ' :: '=' :: ' ' :: (value ++ '\n' :: rest) := by
  change key ++ [' ', '=', ' '] ++ value ++ ['\n'] ++ rest = _
  simp only [List.append_assoc, List.cons_append, List.nil_append]

section Pair

variable {key value rest : Text} {meant : Value} (bare : Key.writePart key = key)
  (starts : Quoted.skipSpaces (value ++ '\n' :: rest) = value ++ '\n' :: rest)
  (read : Value.read? (depthLimit - 1) (value ++ '\n' :: rest) = some (meant, '\n' :: rest))

include bare starts read

/-- A written pair is read back when its key and its value are. -/
theorem read?_pairLine :
    read? (Settings.pairLine key value ++ rest) = some (.pair [key] meant, '\n' :: rest) := by
  have ends : Key.EndsKey (' ' :: '=' :: ' ' :: (value ++ '\n' :: rest)) := by
    constructor
    · rintro character ⟨rfl⟩
      decide
    · simp [Quoted.skipSpaces, Quoted.isSpace]
  have readKey : Key.read? (Key.write [key] ++ ' ' :: '=' :: ' ' :: (value ++ '\n' :: rest)) =
      some ([key], '=' :: ' ' :: (value ++ '\n' :: rest)) := Key.read?_write key (by decide) ends
  have plain : Key.write [key] = key := bare
  have skipped : Quoted.skipSpaces (' ' :: (value ++ '\n' :: rest)) = value ++ '\n' :: rest := starts
  obtain ⟨first, body, written, keyStarts⟩ := Key.exists_cons_of_writePart key
  rw [plain] at readKey
  rw [bare] at written
  rw [pairLine_append, written, List.cons_append]
  rw [written, List.cons_append] at readKey
  have noBracket : first ≠ '[' := Key.ne_of_starts keyStarts (by decide)
  unfold read?
  split
  · next same => exact absurd (List.head_eq_of_cons_eq same) noBracket
  · next same => exact absurd (List.head_eq_of_cons_eq same) noBracket
  · simp only [readKey, Text.afterLead?, Option.bind_eq_bind, Option.bind_some, Option.pure_def, if_true,
      skipped, read]

/-- The line with a pair is read back when its value is. -/
theorem Spells.pair {statements : List Statement} (spells : Spells rest statements) :
    Spells (Settings.pairLine key value ++ rest) (.pair [key] meant :: statements) := by
  have readLine := read?_pairLine bare starts read
  obtain ⟨first, body, written, keyStarts⟩ := Key.exists_cons_of_writePart key
  rw [bare] at written
  rw [pairLine_append, written, List.cons_append] at readLine ⊢
  apply spells.statement
  · simp only [List.length_cons, List.length_append]
    omega
  intro limit
  apply readAll?_of_read? (Key.isSpace_of_starts keyStarts) _ readLine
  exact ⟨Key.ne_of_starts keyStarts (by decide), Key.ne_of_starts keyStarts (by decide),
    Key.ne_of_starts keyStarts (by decide)⟩

end Pair

section Pairs

variable {rest : Text} {statements : List Statement} (key : Text)

/-- A line with a key and a text spells this pair. -/
theorem Spells.textPair (bare : Key.writePart key = key) (text : Text) (spells : Spells rest statements) :
    Spells (Settings.pairLine key (Quoted.write text) ++ rest)
      (.pair [key] (.string text) :: statements) := by
  apply Spells.pair bare (Value.skipSpaces_write text _) _ spells
  exact Value.read?_write _ text (by simp) (by simp)

/-- Lines with a key and an array of texts spell this pair. -/
theorem Spells.textsPair (bare : Key.writePart key = key) (texts : List Text)
    (spells : Spells rest statements) :
    Spells (Settings.pairLine key (Settings.textArray texts) ++ rest)
      (.pair [key] (.array .inline (texts.map .string)) :: statements) := by
  apply Spells.pair bare _ (Value.read?_textArray _ texts _) spells
  obtain ⟨body, bracket⟩ : ∃ body, Settings.textArray texts = '[' :: body := by
    unfold Settings.textArray
    split <;> exact ⟨_, rfl⟩
  rw [bracket]
  exact Quoted.skipSpaces_of_not_isSpace rfl _

/-- A line with a key and a truth value spells this pair. -/
theorem Spells.booleanPair (bare : Key.writePart key = key) (truth : Bool)
    (spells : Spells rest statements) :
    Spells (Settings.pairLine key (if truth then "true".toList else "false".toList) ++ rest)
      (.pair [key] (.boolean truth) :: statements) := by
  apply Spells.pair bare _ (Value.read?_boolean _ truth _) spells
  cases truth <;> exact Quoted.skipSpaces_of_not_isSpace rfl _

end Pairs

end Statement

namespace Entries

variable {key : Text} (entries : Entries)

/-- A new key has no value. -/
theorem lookup?_eq_none (new : key ∉ entries.map Prod.fst) : lookup? key entries = none := by
  induction entries with
  | nil => rfl
  | cons entry entries inductionHypothesis =>
      obtain ⟨other, others⟩ := not_or.1 (mt List.mem_cons.2 new)
      rw [lookup?, if_neg (Ne.symm other)]
      exact inductionHypothesis others

/-- An entry with a new key gives the key its value. -/
theorem lookup?_append (new : key ∉ entries.map Prod.fst) (value : Value) :
    lookup? key (entries ++ [(key, value)]) = some value := by
  induction entries with
  | nil => exact if_pos rfl
  | cons entry entries inductionHypothesis =>
      obtain ⟨other, others⟩ := not_or.1 (mt List.mem_cons.2 new)
      rw [List.cons_append, lookup?, if_neg (Ne.symm other)]
      exact inductionHypothesis others

/-- Replacing the value of the last key keeps the other entries. -/
theorem replace_append (new : key ∉ entries.map Prod.fst) (old value : Value) :
    replace key value (entries ++ [(key, old)]) = entries ++ [(key, value)] := by
  induction entries with
  | nil => exact if_pos rfl
  | cons entry entries inductionHypothesis =>
      obtain ⟨other, others⟩ := not_or.1 (mt List.mem_cons.2 new)
      rw [List.cons_append, replace, if_neg (Ne.symm other), inductionHypothesis others]
      rfl

/-- A table with a new name stands at the end. -/
theorem reach?_open? (new : key ∉ entries.map Prod.fst) :
    reach? (open? key) [] entries = some (entries ++ [(key, .table .header [])]) := by
  rw [reach?, open?, lookup?_eq_none entries new]
  rfl

/-- The pair of the last header goes to the table at the end. -/
theorem reach?_insertAt? (new : key ∉ entries.map Prod.fst) (name : Text) (value : Value) :
    reach? (insertAt? [name] value) [key] (entries ++ [(key, .table .header [])]) =
      some (entries ++ [(key, .table .header [(name, value)])]) := by
  rw [reach?, lookup?_append entries new]
  change some (replace key (.table .header [(name, value)]) (entries ++ [(key, .table .header [])])) = _
  rw [replace_append entries new]

end Entries

end Toml

namespace Settings

open Toml

def sourceEntry (settings : Settings) : Text × Value :=
  ("source".toList, .table .header
    [("paths".toList, .array .inline ((settings.paths.map Path.text).map .string)),
      ("extension".toList, .string settings.extension)])

def linterEntry (setting : LinterSetting) : Text × Value :=
  (setting.name, .table .header [("enabled".toList, .boolean setting.enabled)])

def linterStatements (setting : LinterSetting) : List Statement :=
  [.table ["linters".toList, setting.name], .pair ["enabled".toList] (.boolean setting.enabled)]

def sourceStatements (settings : Settings) : List Statement :=
  [.table ["source".toList],
    .pair ["paths".toList] (.array .inline ((settings.paths.map Path.text).map .string)),
    .pair ["extension".toList] (.string settings.extension)]

/-- These are the statements of saved settings. -/
def statements (settings : Settings) : List Statement :=
  sourceStatements settings ++
    if settings.linters.isEmpty then [.table ["linters".toList]]
    else settings.linters.flatMap linterStatements

/-- The written linters spell their statements. -/
theorem spells_linters (linters : List LinterSetting) :
    Statement.Spells (linters.flatMap linterToml) (linters.flatMap linterStatements) := by
  induction linters with
  | nil => exact Statement.spells_nil
  | cons setting linters inductionHypothesis =>
      have lines : linterToml setting ++ linters.flatMap linterToml =
          '\n' :: (headerLine ["linters".toList, setting.name] ++
            (pairLine "enabled".toList (if setting.enabled then "true".toList else "false".toList) ++
              linters.flatMap linterToml)) := by
        change ('\n' :: headerLine _) ++ pairLine _ _ ++ _ = _
        rw [List.append_assoc, List.cons_append]
      rw [List.flatMap_cons, List.flatMap_cons, lines]
      apply Statement.Spells.blank
      apply Statement.Spells.header (by simp [depthLimit])
      exact inductionHypothesis.booleanPair _ rfl setting.enabled

/-- Saved settings spell their statements. -/
theorem spells_toToml (settings : Settings) : Statement.Spells settings.toToml settings.statements := by
  have last : Statement.Spells
      (if settings.linters.isEmpty then '\n' :: headerLine ["linters".toList]
        else settings.linters.flatMap linterToml)
      (if settings.linters.isEmpty then [.table ["linters".toList]]
        else settings.linters.flatMap linterStatements) := by
    split
    · have header : Statement.Spells (headerLine ["linters".toList] ++ []) [.table ["linters".toList]] :=
        Statement.spells_nil.header (by decide)
      rw [List.append_nil] at header
      exact header.blank
    · exact spells_linters settings.linters
  have pairs := (last.textPair "extension".toList rfl settings.extension).textsPair "paths".toList rfl
    (settings.paths.map Path.text)
  rw [toToml, List.append_assoc, List.append_assoc]
  exact pairs.header (by decide)

/-- The written settings are read as their statements. -/
theorem ofText?_toToml (settings : Settings) :
    Statement.ofText? settings.toToml = some settings.statements :=
  spells_toToml settings _ (Nat.lt_succ_self _)

/-- These are the entries after the tables of some linters. The table that holds them is made with the
first of them. -/
def holding (source : Text × Value) (below : Entries) : Entries :=
  source :: if below.isEmpty then [] else [("linters".toList, .table .implied below)]

section Holding

variable {source : Text × Value} (other : source.1 ≠ "linters".toList)

include other

/-- Below the linters a change goes on in their table. -/
theorem reach?_holding (change : Entries → Option Entries) (path : List Text) (below : Entries) :
    Entries.reach? change ("linters".toList :: path) (holding source below) =
      (Entries.reach? change path below).map fun changed =>
        [source, ("linters".toList, .table .implied changed)] := by
  -- The first linter makes the table that holds the linters, and every other one finds it.
  cases below with
  | nil =>
      have missing : Entries.lookup? "linters".toList [source] = none := if_neg other
      change Entries.reach? change ("linters".toList :: path) [source] = _
      rw [Entries.reach?, missing]
      exact Option.map_eq_bind.symm
  | cons first below =>
      have found : Entries.lookup? "linters".toList
          [source, ("linters".toList, .table .implied (first :: below))] =
            some (.table .implied (first :: below)) :=
        Entries.lookup?_append [source] (by simpa using Ne.symm other) _
      have replaced (changed : Entries) : Entries.replace "linters".toList (.table .implied changed)
          [source, ("linters".toList, .table .implied (first :: below))] =
            [source, ("linters".toList, .table .implied changed)] :=
        Entries.replace_append [source] (by simpa using Ne.symm other) _ _
      change Entries.reach? change ("linters".toList :: path)
        [source, ("linters".toList, .table .implied (first :: below))] = _
      rw [Entries.reach?, found]
      change (Entries.reach? change path (first :: below)).bind (fun changed =>
        some (Entries.replace "linters".toList (.table .implied changed) _)) = _
      simp only [replaced]
      exact Option.map_eq_bind.symm

omit other in
theorem holding_append (below : Entries) (entry : Text × Value) :
    holding source (below ++ [entry]) = [source, ("linters".toList, .table .implied (below ++ [entry]))] := by
  have nonempty : ¬(below ++ [entry]).isEmpty = true := by simp
  rw [holding, if_neg nonempty]

/-- The table of a linter with a new name is added to the tables of the others. -/
theorem foldlM_linterStatements {below : Entries} {setting : LinterSetting}
    (new : setting.name ∉ below.map Prod.fst) (current : List Text) :
    (linterStatements setting).foldlM Draft.add? ⟨holding source below, current⟩ =
      some ⟨holding source (below ++ [linterEntry setting]), ["linters".toList, setting.name]⟩ := by
  have opened : Draft.add? ⟨holding source below, current⟩ (.table ["linters".toList, setting.name]) =
      some ⟨holding source (below ++ [(setting.name, .table .header [])]),
        ["linters".toList, setting.name]⟩ := by
    change (Entries.reach? (Entries.open? setting.name) ["linters".toList] _).bind
      (fun entries => some (Draft.mk entries ["linters".toList, setting.name])) = _
    rw [reach?_holding other, Entries.reach?_open? below new, holding_append]
    rfl
  have filled : Draft.add? ⟨holding source (below ++ [(setting.name, .table .header [])]),
        ["linters".toList, setting.name]⟩ (.pair ["enabled".toList] (.boolean setting.enabled)) =
      some ⟨holding source (below ++ [linterEntry setting]), ["linters".toList, setting.name]⟩ := by
    change (Entries.reach? (Entries.insertAt? ["enabled".toList] (.boolean setting.enabled))
      ["linters".toList, setting.name] _).bind
      (fun entries => some (Draft.mk entries ["linters".toList, setting.name])) = _
    rw [reach?_holding other, Entries.reach?_insertAt? below new, holding_append]
    rfl
  rw [linterStatements, List.foldlM_cons, opened]
  change Option.bind (Draft.add? _ _) some = _
  rw [filled]
  rfl

/-- The tables of linters with different names are added one after another. -/
theorem exists_foldlM_linters (done linters : List LinterSetting)
    (distinct : ((done ++ linters).map LinterSetting.name).Nodup) (current : List Text) :
    ∃ last, (linters.flatMap linterStatements).foldlM Draft.add?
        ⟨holding source (done.map linterEntry), current⟩ =
      some ⟨holding source ((done ++ linters).map linterEntry), last⟩ := by
  induction linters generalizing done current with
  | nil => exact ⟨current, by rw [List.append_nil]; rfl⟩
  | cons setting linters inductionHypothesis =>
      have new : setting.name ∉ (done.map linterEntry).map Prod.fst := by
        rw [List.map_append, List.map_cons] at distinct
        rw [List.map_map]
        intro known
        exact (List.nodup_append.1 distinct).2.2 _ known _ List.mem_cons_self rfl
      have split : done ++ setting :: linters = (done ++ [setting]) ++ linters :=
        (List.append_assoc done [setting] linters).symm
      rw [split] at distinct
      obtain ⟨last, folded⟩ := inductionHypothesis _ distinct ["linters".toList, setting.name]
      refine ⟨last, ?_⟩
      rw [List.map_append] at folded
      rw [List.flatMap_cons, List.foldlM_append, foldlM_linterStatements other new, split]
      exact folded

end Holding

/-- The statements of saved settings are put together to two tables. -/
theorem exists_foldlM_statements {settings : Settings}
    (distinct : (settings.linters.map LinterSetting.name).Nodup) :
    ∃ origin last, settings.statements.foldlM Draft.add? ⟨[], []⟩ = some
      ⟨[sourceEntry settings, ("linters".toList, .table origin (settings.linters.map linterEntry))],
        last⟩ := by
  have source : (sourceStatements settings).foldlM Draft.add? ⟨[], []⟩ =
      some ⟨[sourceEntry settings], ["source".toList]⟩ := rfl
  rw [statements, List.foldlM_append, source]
  cases named : settings.linters with
  | nil =>
      -- Without linters their table has a header of its own.
      exact ⟨.header, ["linters".toList], rfl⟩
  | cons setting linters =>
      have other : (sourceEntry settings).1 ≠ "linters".toList := by
        change "source".toList ≠ "linters".toList
        decide
      rw [named] at distinct
      obtain ⟨last, folded⟩ := exists_foldlM_linters other [] _ distinct ["source".toList]
      exact ⟨.implied, last, folded⟩

/-- Items that are decoded one by one are decoded together. -/
theorem mapM_map_eq_some {Item Coded : Type} (encode : Item → Coded) (decode? : Coded → Option Item)
    (decodes : ∀ item, decode? (encode item) = some item) (items : List Item) :
    (items.map encode).mapM decode? = some items := by
  induction items with
  | nil => rfl
  | cons item items inductionHypothesis =>
      rw [List.map_cons, List.mapM_cons, decodes, inductionHypothesis]
      rfl

/-- The saved entries mean the settings. -/
theorem ofEntries?_saved (settings : Settings) (origin : Origin) :
    ofEntries? [sourceEntry settings, ("linters".toList, .table origin (settings.linters.map linterEntry))] =
      some settings := by
  have paths : asPaths? (.array .inline ((settings.paths.map Path.text).map .string)) =
      some settings.paths := by
    rw [List.map_map]
    exact mapM_map_eq_some (Value.string ∘ Path.text) _ (fun _ => rfl) settings.paths
  have source : sourceOf? (sourceEntry settings).2 = some (settings.paths, settings.extension) := by
    change (asPaths? (.array .inline ((settings.paths.map Path.text).map .string))).bind
      (fun paths => some (paths, settings.extension)) = _
    rw [paths]
    rfl
  have linters : lintersOf? (.table origin (settings.linters.map linterEntry)) = some settings.linters :=
    mapM_map_eq_some linterEntry linterOf? (fun _ => rfl) settings.linters
  change (sourceOf? (sourceEntry settings).2).bind (fun source =>
    (lintersOf? (.table origin (settings.linters.map linterEntry))).bind fun linters =>
      some (Settings.mk source.1 source.2 linters)) = _
  rw [source, linters]
  rfl

/-- Settings with different linters are read back from the text they are written as. -/
theorem ofToml?_toToml {settings : Settings} (distinct : (settings.linters.map LinterSetting.name).Nodup) :
    ofToml? settings.toToml = some settings := by
  obtain ⟨origin, last, folded⟩ := exists_foldlM_statements distinct
  rw [ofToml?, Toml.read?, ofText?_toToml]
  change ((settings.statements.foldlM Draft.add? ⟨[], []⟩).bind fun draft => some draft.entries).bind
    ofEntries? = _
  rw [folded]
  exact ofEntries?_saved settings origin

/-- What was saved is in the file. -/
theorem readText_of_save {tree written : FileTree} {path : Path} {settings : Settings}
    (saved : save tree path settings = .ok written) : written.readText path = .ok settings.toToml := by
  unfold save at saved
  cases wrote : tree.write path settings.toToml with
  | error cause =>
      rw [wrote] at saved
      cases saved
  | ok changed =>
      rw [wrote] at saved
      cases saved
      exact FileTree.readText_of_write wrote

/-- Settings are loaded back as they were saved, first from the text they are written as and then from the
file that holds it. -/
theorem saved_settings_load_back (settings : Settings)
    (distinct : (settings.linters.map LinterSetting.name).Nodup) :
    ofToml? settings.toToml = some settings ∧
      ∀ (tree written : FileTree) (path : Path), save tree path settings = .ok written →
        written.readText path = .ok settings.toToml ∧ load written path = .ok settings := by
  have read := ofToml?_toToml distinct
  refine ⟨read, fun tree written path saved => ?_⟩
  have text := readText_of_save saved
  exact ⟨text, load_eq_ok_iff.2 ⟨_, text, read⟩⟩

/-- Every kind of string and of key occurs in these settings. -/
theorem saved_settings_load_back_with_escapes :
    let settings : Settings := ⟨[⟨"a\\b\"".toList⟩, ⟨"'''\"\"\"\n\\".toList⟩, ⟨"'\n\\".toList⟩, ⟨[]⟩],
      "\x00'\"\"\"".toList, [⟨[], false⟩, ⟨"a.b".toList, true⟩, ⟨"\"".toList, true⟩, ⟨"\"'\n".toList, false⟩]⟩
    ∃ written, save ⟨[], []⟩ ⟨"gherlint.toml".toList⟩ settings = .ok written ∧
      load written ⟨"gherlint.toml".toList⟩ = .ok settings := by
  refine ⟨_, rfl, ?_⟩
  exact ((saved_settings_load_back _ (by decide)).2 ⟨[], []⟩ _ _ rfl).2

end Settings

end FeatureLint
