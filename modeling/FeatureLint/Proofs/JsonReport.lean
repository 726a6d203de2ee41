import FeatureLint.Report.Json
import FeatureLint.Toml.Quoted
import Mathlib.Data.List.Basic

/-!
This file holds a decoder for JSON texts and reads reports with it. The decoder takes what the grammar
of JSON allows and nothing else: white space between the signs, all escapes with pairs of surrogates,
numbers, and no comma behind the last element. Main statement: a report is a JSON text with one newline
behind it, and decoding gives one object for each problem with its linter, its message and its location.
-/

namespace FeatureLint.Report.Json

/-- Numbers are kept as they were written, and the members of an object in their order. -/
inductive Value where
  | null
  | boolean (truth : Bool)
  | number (text : Text)
  | string (text : Text)
  | array (elements : List Value)
  | object (members : List (Text × Value))

def isSpace (character : Char) : Bool :=
  character = ' ' || character = '\t' || character = '\n' || character = '\r'

def skipSpaces (text : Text) : Text :=
  text.dropWhile isSpace

/-- This function reads the four digits of an escape. -/
def readUnit? (text : Text) : Option (Nat × Text) := do
  let digits ← (text.take 4).mapM Toml.Quoted.hexValue?
  if digits.length = 4 then return (Toml.Quoted.digitsValue 16 digits, text.drop 4) else none

def isHighSurrogate (unit : Nat) : Bool :=
  0xD800 ≤ unit && unit < 0xDC00

def isLowSurrogate (unit : Nat) : Bool :=
  0xDC00 ≤ unit && unit < 0xE000

/-- The low half of a pair of surrogates follows in an escape of its own. -/
def readPair? (high : Nat) (text : Text) : Option (Char × Text) := do
  let (low, rest) ← readUnit? (← Text.afterLead? ['\\', 'u'] text)
  if isLowSurrogate low then
    return (Char.ofNat (0x10000 + (high - 0xD800) * 0x400 + (low - 0xDC00)), rest)
  else none

/-- This function reads what follows a backslash. -/
def readEscape? : Text → Option (Char × Text)
  | '"' :: rest => some ('"', rest)
  | '\\' :: rest => some ('\\', rest)
  | '/' :: rest => some ('/', rest)
  | 'b' :: rest => some ('\x08', rest)
  | 'f' :: rest => some ('\x0c', rest)
  | 'n' :: rest => some ('\n', rest)
  | 'r' :: rest => some ('\r', rest)
  | 't' :: rest => some ('\t', rest)
  | 'u' :: rest => do
      let (unit, rest) ← readUnit? rest
      if isHighSurrogate unit then readPair? unit rest
      else if isLowSurrogate unit then none
      else return (Char.ofNat unit, rest)
  | _ => none

/-- This function reads at most `limit` characters of a string up to its closing mark. -/
def readWithin? : (limit : Nat) → Text → Option (Text × Text)
  | _, '"' :: rest => some ([], rest)
  | limit + 1, '\\' :: rest =>
      match readEscape? rest with
      | none => none
      | some (meant, after) => (readWithin? limit after).map fun (body, last) => (meant :: body, last)
  | limit + 1, character :: rest =>
      if 0x20 ≤ character.toNat then
        (readWithin? limit rest).map fun (body, last) => (character :: body, last)
      else none
  | _, _ => none

/-- This function reads the rest of a string. -/
def readString? (text : Text) : Option (Text × Text) :=
  readWithin? text.length text

/-- This function drops the digits in front and fails when there are none. -/
def afterDigits? (text : Text) : Option Text :=
  if (text.takeWhile Char.isDigit).isEmpty then none else some (text.dropWhile Char.isDigit)

/-- A whole number has no zero in front of other digits. -/
def afterWhole? : Text → Option Text
  | '0' :: rest => some rest
  | text => afterDigits? text

def afterFraction? : Text → Option Text
  | '.' :: rest => afterDigits? rest
  | text => some text

def afterExponent? (text : Text) : Option Text :=
  match text with
  | 'e' :: sign :: rest | 'E' :: sign :: rest =>
      if sign = '+' || sign = '-' then afterDigits? rest else afterDigits? (sign :: rest)
  | 'e' :: _ | 'E' :: _ => none
  | _ => some text

/-- This function reads a number and stops at the first character that cannot belong to it. -/
def readNumber? (text : Text) : Option (Value × Text) := do
  let unsigned := (Text.afterLead? ['-'] text).getD text
  let rest ← afterExponent? (← afterFraction? (← afterWhole? unsigned))
  return (.number (text.take (text.length - rest.length)), rest)

/-- This function reads a value that is neither a string nor has parts. -/
def readPlain? (text : Text) : Option (Value × Text) :=
  match Text.afterLead? "null".toList text, Text.afterLead? "true".toList text,
    Text.afterLead? "false".toList text with
  | some rest, _, _ => some (.null, rest)
  | _, some rest, _ => some (.boolean true, rest)
  | _, _, some rest => some (.boolean false, rest)
  | _, _, _ => readNumber? text

/-- This function reads at least one and at most `limit` items with commas between them. -/
def readSeries? {Item : Type} (readItem? : Text → Option (Item × Text)) (close : Char) :
    (limit : Nat) → Text → Option (List Item × Text)
  | 0, _ => none
  | limit + 1, text => do
      let (item, rest) ← readItem? text
      match skipSpaces rest with
      | [] => none
      | sign :: rest =>
          if sign = close then return ([item], rest)
          else if sign = ',' then
            let (items, last) ← readSeries? readItem? close limit rest
            return (item :: items, last)
          else none

/-- This function reads the items between an opening and a closing sign. -/
def readItems? {Item : Type} (readItem? : Text → Option (Item × Text)) (close : Char)
    (text : Text) : Option (List Item × Text) :=
  match Text.afterLead? [close] (skipSpaces text) with
  | some rest => some ([], rest)
  | none => readSeries? readItem? close text.length text

/-- This function reads a key and its value. -/
def readMember? (readValue? : Text → Option (Value × Text)) (text : Text) :
    Option ((Text × Value) × Text) := do
  let rest ← Text.afterLead? ['"'] (skipSpaces text)
  let (key, rest) ← readString? rest
  let (value, rest) ← readValue? (← Text.afterLead? [':'] (skipSpaces rest))
  return ((key, value), rest)

/-- This function reads a value in which arrays and objects are nested at most `depth` deep. -/
def readValue? (depth : Nat) (text : Text) : Option (Value × Text) :=
  match skipSpaces text with
  | '"' :: rest => (readString? rest).map fun (text, last) => (.string text, last)
  | '[' :: rest =>
      match depth with
      | 0 => none
      | depth + 1 =>
          (readItems? (readValue? depth) ']' rest).map fun (elements, last) => (.array elements, last)
  | '\x7b' :: rest =>
      match depth with
      | 0 => none
      | depth + 1 =>
          (readItems? (readMember? (readValue? depth)) '\x7d' rest).map fun (members, last) =>
            (.object members, last)
  | rest => readPlain? rest

/-- This function decodes a whole text. It cannot be nested deeper than it is long. -/
def decode? (text : Text) : Option Value := do
  let (value, rest) ← readValue? text.length text
  if (skipSpaces rest).isEmpty then return value else none

/-- Every hexadecimal digit is read back. -/
theorem hexValue?_hexDigit :
    ∀ digit < 16, Toml.Quoted.hexValue? (hexDigit digit) = some digit := by
  decide

/-- The digits of a control character are read back as its number. -/
theorem readUnit?_hexDigits {number : Nat} (small : number < 0x20) (rest : Text) :
    readUnit? ('0' :: '0' :: hexDigit (number / 16) :: hexDigit (number % 16) :: rest) =
      some (number, rest) := by
  have first := hexValue?_hexDigit (number / 16) (by omega)
  have second := hexValue?_hexDigit (number % 16) (by omega)
  have zero : Toml.Quoted.hexValue? '0' = some 0 := rfl
  have whole : number / 16 * 16 + number % 16 = number := by omega
  simp [readUnit?, zero, first, second, Toml.Quoted.digitsValue, whole]

/-- These characters have an escape of one letter. -/
def shortEscaped : List Char :=
  ['"', '\\', '\x08', '\x0c', '\n', '\r', '\t']

/-- The escapes of one letter are read back. -/
theorem exists_escape_of_shortEscaped : ∀ character ∈ shortEscaped,
    ∃ after, escape character = '\\' :: after ∧
      ∀ rest, readEscape? (after ++ rest) = some (character, rest) := by
  simp only [shortEscaped, List.forall_mem_cons]
  exact ⟨⟨['"'], rfl, fun _ => rfl⟩, ⟨['\\'], rfl, fun _ => rfl⟩, ⟨['b'], rfl, fun _ => rfl⟩,
    ⟨['f'], rfl, fun _ => rfl⟩, ⟨['n'], rfl, fun _ => rfl⟩, ⟨['r'], rfl, fun _ => rfl⟩,
    ⟨['t'], rfl, fun _ => rfl⟩, List.forall_mem_nil _⟩

/-- A character is escaped by what the decoder reads as that character, or it may stand for itself. -/
theorem escape_cases (character : Char) :
    (∃ after, escape character = '\\' :: after ∧
      ∀ rest, readEscape? (after ++ rest) = some (character, rest)) ∨
    (escape character = [character] ∧ character ≠ '"' ∧ character ≠ '\\' ∧
      0x20 ≤ character.toNat) := by
  by_cases short : character ∈ shortEscaped
  · exact Or.inl (exists_escape_of_shortEscaped character short)
  simp only [shortEscaped, List.mem_cons, List.not_mem_nil, or_false, not_or] at short
  obtain ⟨mark, backslash, backspace, formFeed, newline, carriageReturn, tab⟩ := short
  rw [escape, if_neg mark, if_neg backslash, if_neg backspace, if_neg formFeed, if_neg newline,
    if_neg carriageReturn, if_neg tab]
  by_cases control : character.toNat < 0x20
  · rw [if_pos control]
    refine Or.inl ⟨_, rfl, fun rest => ?_⟩
    have notHigh : isHighSurrogate character.toNat = false := by simp [isHighSurrogate]; omega
    have notLow : isLowSurrogate character.toNat = false := by simp [isLowSurrogate]; omega
    simp [readEscape?, readUnit?_hexDigits control, notHigh, notLow]
  · rw [if_neg control]
    exact Or.inr ⟨rfl, mark, backslash, Nat.le_of_not_lt control⟩

/-- An escaped character is read back as one character of the string. -/
theorem readWithin?_escape (limit : Nat) (character : Char) (rest : Text) :
    readWithin? (limit + 1) (escape character ++ rest) =
      (readWithin? limit rest).map fun (body, last) => (character :: body, last) := by
  rcases escape_cases character with ⟨after, escaped, meant⟩ | ⟨plain, notMark, notBackslash, visible⟩
  · rw [escaped, List.cons_append, readWithin?, meant rest]
  · rw [plain, List.singleton_append, readWithin?, if_pos visible]
    · exact notMark
    · exact notBackslash

theorem length_le_length_escape (text : Text) : text.length ≤ (text.flatMap escape).length := by
  induction text with
  | nil => exact Nat.le_refl 0
  | cons character rest inductionHypothesis =>
      have present : 0 < (escape character).length := by
        rcases escape_cases character with ⟨after, escaped, -⟩ | ⟨plain, -⟩
        · rw [escaped]
          exact Nat.succ_pos _
        · rw [plain]
          exact Nat.one_pos
      rw [List.flatMap_cons, List.length_append, List.length_cons]
      omega

/-- A quoted text is read back, and nothing behind it is touched. -/
theorem readWithin?_escapes {limit : Nat} {text : Text} (enough : text.length ≤ limit) (rest : Text) :
    readWithin? limit (text.flatMap escape ++ '"' :: rest) = some (text, rest) := by
  induction text generalizing limit with
  | nil => rw [List.flatMap_nil, List.nil_append, readWithin?]
  | cons character text inductionHypothesis =>
      cases limit with
      | zero => contradiction
      | succ limit =>
          rw [List.flatMap_cons, List.append_assoc, readWithin?_escape,
            inductionHypothesis (Nat.le_of_succ_le_succ enough)]
          rfl

/-- A gap of spaces in front of a text is skipped. -/
theorem skipSpaces_of_space {gap : Text} (blank : ∀ character ∈ gap, isSpace character = true)
    (text : Text) : skipSpaces (gap ++ text) = skipSpaces text :=
  List.dropWhile_append_of_pos blank

theorem quote_append (text rest : Text) :
    quote text ++ rest = '"' :: (text.flatMap escape ++ '"' :: rest) := by
  simp [quote]

/-- A quoted text is read back as far as its closing mark. -/
theorem readString?_quote (text rest : Text) :
    readString? (text.flatMap escape ++ '"' :: rest) = some (text, rest) := by
  refine readWithin?_escapes ?_ rest
  have escaped := length_le_length_escape text
  rw [List.length_append]
  omega

/-- A quoted text is read as a string. -/
theorem readValue?_quote (depth : Nat) (text rest : Text) :
    readValue? depth (quote text ++ rest) = some (.string text, rest) := by
  have start : skipSpaces (quote text ++ rest) = '"' :: (text.flatMap escape ++ '"' :: rest) := by
    rw [quote_append]
    rfl
  rw [readValue?.eq_def, start]
  simp only [readString?_quote, Option.map_some]

theorem field_eq (key value : Text) :
    field key value = "    ".toList ++ quote key ++ ": ".toList ++ quote value := rfl

/-- A field on a line of its own is read as a member of an object. -/
theorem readMember?_field (depth : Nat) (key value rest : Text) :
    readMember? (readValue? depth) ('\n' :: field key value ++ rest) =
      some ((key, .string value), rest) := by
  have start : skipSpaces ('\n' :: field key value ++ rest) =
      '"' :: (key.flatMap escape ++ '"' :: ':' :: (' ' :: quote value ++ rest)) := by
    simp [field_eq, quote, skipSpaces, isSpace]
  have spaced : readValue? depth (' ' :: quote value ++ rest) = some (.string value, rest) := by
    rw [← readValue?_quote depth value rest, readValue?.eq_def, readValue?.eq_def]
    rfl
  have colon : skipSpaces (':' :: (' ' :: quote value ++ rest)) = ':' :: (' ' :: quote value ++ rest) :=
    rfl
  rw [readMember?, start]
  simp only [Text.afterLead?, if_true, Option.bind_eq_bind, Option.bind_some, readString?_quote, colon,
    spaced, Option.pure_def]

theorem joinWith_cons_cons (separator first second : Text) (others : List Text) :
    Text.joinWith separator (first :: second :: others) =
      first ++ separator ++ Text.joinWith separator (second :: others) := rfl

/-- Each item stands on a line of its own, with a comma after each but the last. -/
def lines (items : List Text) : Text :=
  '\n' :: Text.joinWith ",\n".toList items

theorem lines_singleton (item : Text) : lines [item] = '\n' :: item := rfl

/-- A comma stands between two lines. -/
theorem lines_cons_cons (first second : Text) (others : List Text) :
    lines (first :: second :: others) = '\n' :: first ++ ',' :: lines (second :: others) := by
  simp [lines, joinWith_cons_cons]

/-- The first item stands on the first line. -/
theorem exists_lines_cons (first : Text) (others : List Text) :
    ∃ rest, lines (first :: others) = '\n' :: first ++ rest := by
  cases others with
  | nil => exact ⟨[], by rw [lines_singleton, List.append_nil]⟩
  | cons second others => exact ⟨_, lines_cons_cons first second others⟩

/-- There are no more items than characters. -/
theorem length_le_length_lines (items : List Text) : items.length ≤ (lines items).length := by
  induction items with
  | nil => exact Nat.zero_le _
  | cons first others inductionHypothesis =>
      cases others with
      | nil => exact Nat.succ_le_succ (Nat.zero_le _)
      | cons second others =>
          have longer : (lines (first :: second :: others)).length =
              first.length + 1 + ((lines (second :: others)).length + 1) := by
            rw [lines_cons_cons, List.length_append]
            rfl
          rw [longer, List.length_cons]
          omega

section Items

variable {Item Source : Type} {readItem? : Text → Option (Item × Text)} {write : Source → Text}
  {meant : Source → Item} (close : Char) (gap : Text)
  (reads : ∀ source rest, readItem? ('\n' :: write source ++ rest) = some (meant source, rest))
  (closes : isSpace close = false) (noComma : close ≠ ',')
  (blank : ∀ character ∈ gap, isSpace character = true)

include reads closes noComma blank

/-- Items on lines of their own are read one by one. -/
theorem readSeries?_lines (first : Source) (others : List Source) {limit : Nat}
    (enough : others.length < limit) (rest : Text) :
    readSeries? readItem? close limit (lines ((first :: others).map write) ++ (gap ++ close :: rest)) =
      some ((first :: others).map meant, rest) := by
  induction others generalizing first limit with
  | nil =>
      have ended : skipSpaces (gap ++ close :: rest) = close :: rest := by
        rw [skipSpaces_of_space blank, skipSpaces, List.dropWhile_cons_of_neg (by simp [closes])]
      obtain ⟨limit, rfl⟩ := Nat.exists_eq_succ_of_ne_zero (Nat.ne_zero_of_lt enough)
      rw [List.map_singleton, lines_singleton, readSeries?]
      simp only [reads, Option.bind_eq_bind, Option.bind_some, ended, if_true, Option.pure_def,
        List.map_singleton]
  | cons second others inductionHypothesis =>
      obtain ⟨limit, rfl⟩ := Nat.exists_eq_succ_of_ne_zero (Nat.ne_zero_of_lt enough)
      have later := inductionHypothesis second (Nat.lt_of_succ_lt_succ enough)
      have comma (text : Text) : skipSpaces (',' :: text) = ',' :: text := rfl
      rw [List.map_cons, List.map_cons, lines_cons_cons, List.append_assoc, readSeries?, reads first,
        List.cons_append, ← List.map_cons]
      simp only [Option.bind_eq_bind, Option.bind_some, comma, Ne.symm noComma, if_false, if_true, later,
        Option.pure_def]
      rfl

/-- Items between brackets are read when none of them looks like the closing bracket. -/
theorem readItems?_lines
    (opens : ∀ source rest,
      Text.afterLead? [close] (skipSpaces ('\n' :: write source ++ rest)) = none)
    (first : Source) (others : List Source) (rest : Text) :
    readItems? readItem? close (lines ((first :: others).map write) ++ (gap ++ close :: rest)) =
      some ((first :: others).map meant, rest) := by
  have opened : Text.afterLead? [close]
      (skipSpaces (lines ((first :: others).map write) ++ (gap ++ close :: rest))) = none := by
    obtain ⟨later, split⟩ := exists_lines_cons (write first) (others.map write)
    rw [List.map_cons, split, List.append_assoc]
    exact opens first _
  have many := length_le_length_lines ((first :: others).map write)
  rw [readItems?, opened]
  refine readSeries?_lines close gap reads closes noComma blank first others ?_ rest
  rw [List.length_map, List.length_cons] at many
  rw [List.length_append]
  omega

end Items

/-- A place is told as the path of the file, a colon and the number of the line. -/
def place (location : Location) : Text :=
  location.file.text ++ ':' :: Nat.toDigits 10 location.line

/-- These are the keys and the texts of the fields of a problem. -/
def fields (problem : Problem) : List (Text × Text) :=
  [("linter".toList, problem.linter), ("problem".toList, problem.message),
    ("location".toList, place problem.location)]

/-- This is the object that a report holds for a problem. -/
def ofProblem (problem : Problem) : Value :=
  .object [("linter".toList, .string problem.linter), ("problem".toList, .string problem.message),
    ("location".toList, .string (place problem.location))]

/-- A record has its fields on lines of their own between braces. -/
theorem record_eq (problem : Problem) :
    record problem = "  \x7b\n".toList ++ Text.joinWith ",\n".toList
      ((fields problem).map fun member => field member.1 member.2) ++ "\n  \x7d".toList := by
  have told : problem.location.text = place problem.location := rfl
  unfold record fields
  simp only [told, List.map_cons, List.map_nil, joinWith_cons_cons, Text.joinWith, List.append_assoc]

/-- A record on a line of its own begins with its brace. -/
theorem skipSpaces_record (problem : Problem) (rest : Text) :
    skipSpaces ('\n' :: record problem ++ rest) =
      '\x7b' :: (lines ((fields problem).map fun member => field member.1 member.2) ++
        (['\n', ' ', ' '] ++ '\x7d' :: rest)) := by
  rw [record_eq, lines]
  simp [skipSpaces, isSpace]

/-- A record on a line of its own is read as the object of its problem. -/
theorem readValue?_record (depth : Nat) (problem : Problem) (rest : Text) :
    readValue? (depth + 1) ('\n' :: record problem ++ rest) = some (ofProblem problem, rest) := by
  have opens (member : Text × Text) (rest : Text) : Text.afterLead? ['\x7d']
      (skipSpaces ('\n' :: field member.1 member.2 ++ rest)) = none := by
    simp [field_eq, quote, skipSpaces, isSpace, Text.afterLead?]
  have members := readItems?_lines '\x7d' ['\n', ' ', ' ']
    (fun member rest => readMember?_field depth member.1 member.2 rest) rfl (by decide)
    (List.all_eq_true.1 rfl) opens ("linter".toList, problem.linter) [("problem".toList, problem.message),
      ("location".toList, place problem.location)] rest
  rw [readValue?.eq_def, skipSpaces_record]
  simp only [fields, members, Option.map_some]
  rfl

/-- The array of a report is read as the objects of its problems. -/
theorem readValue?_array (depth : Nat) (first : Problem) (others : List Problem) (rest : Text) :
    readValue? (depth + 2) ('[' :: (lines ((first :: others).map record) ++ (['\n'] ++ ']' :: rest))) =
      some (.array ((first :: others).map ofProblem), rest) := by
  have opens (problem : Problem) (rest : Text) :
      Text.afterLead? [']'] (skipSpaces ('\n' :: record problem ++ rest)) = none := by
    rw [skipSpaces_record]
    rfl
  have elements := readItems?_lines ']' ['\n'] (readValue?_record depth) rfl (by decide)
    (List.all_eq_true.1 rfl) opens first others rest
  have start (text : Text) : skipSpaces ('[' :: text) = '[' :: text := rfl
  rw [readValue?.eq_def, start]
  simp only [elements, Option.map_some]

/-- This is a report without the newline at its end. -/
def body (records : List Text) : Text :=
  if records.isEmpty then ['[', ']'] else '[' :: (lines records ++ ['\n', ']'])

/-- A report is an array with a newline behind it. -/
theorem render_eq (problems : List Problem) :
    render problems = body (problems.map record) ++ ['\n'] := by
  cases problems with
  | nil => rfl
  | cons first others => simp [render, body, lines]

theorem getLast?_body (records : List Text) : (body records).getLast? = some ']' := by
  unfold body
  split
  · rfl
  · rw [← List.cons_append, List.append_cons _ '\n', List.getLast?_concat]

/-- The whole array is read back, whether or not there are problems. -/
theorem readValue?_body {depth : Nat} (deep : 2 ≤ depth) (problems : List Problem) (rest : Text) :
    readValue? depth (body (problems.map record) ++ rest) = some (.array (problems.map ofProblem), rest) := by
  obtain ⟨depth, rfl⟩ := Nat.exists_eq_add_of_le' deep
  cases problems with
  | nil => rfl
  | cons first others =>
      have layout : body ((first :: others).map record) ++ rest =
          '[' :: (lines ((first :: others).map record) ++ (['\n'] ++ ']' :: rest)) := by
        simp [body]
      rw [layout, readValue?_array]

/-- A report is decoded when nothing but spaces stands behind its array. -/
theorem decode?_body {rest : Text} (blank : skipSpaces rest = []) (problems : List Problem) :
    decode? (body (problems.map record) ++ rest) = some (.array (problems.map ofProblem)) := by
  have deep : 2 ≤ (body (problems.map record) ++ rest).length := by
    rw [List.length_append]
    cases problems with
    | nil => exact Nat.le_add_right 2 _
    | cons first others => simp [body]; omega
  rw [decode?, readValue?_body deep]
  simp [blank]

/-- This is all that a report tells about a problem. -/
def told (problem : Problem) : Text × Text × Text :=
  (problem.linter, problem.message, place problem.location)

/-- The object of a problem tells all that a report tells. -/
theorem told_of_ofProblem {first second : Problem} (same : ofProblem first = ofProblem second) :
    told first = told second := by
  simp only [ofProblem, Value.object.injEq, List.cons.injEq, Prod.mk.injEq, Value.string.injEq,
    true_and, and_true] at same
  exact Prod.ext same.1 (Prod.ext same.2.1 same.2.2)

/-- Nothing but what is told goes into a record. -/
theorem record_of_told {first second : Problem} (same : told first = told second) :
    record first = record second := by
  simp only [told, Prod.mk.injEq] at same
  obtain ⟨linter, message, location⟩ := same
  rw [record_eq, record_eq, fields, fields, linter, message, location]

/-- Reports are decoded without loss. A report is a JSON text with one newline behind it, its array has
one object for each problem with exactly the linter, the message and the location of the problem, and
so two reports are the same only when they tell the same about their problems. -/
theorem report_decodes_without_loss (problems others : List Problem) :
    (∃ text, render problems = text ++ ['\n'] ∧ text.getLast? = some ']' ∧
      decode? text = some (.array (problems.map ofProblem))) ∧
    decode? (render problems) = some (.array (problems.map ofProblem)) ∧
    (render problems = render others ↔ problems.map told = others.map told) := by
  have whole (problems : List Problem) :
      decode? (render problems) = some (.array (problems.map ofProblem)) := by
    rw [render_eq]
    exact decode?_body rfl problems
  have alone : decode? (body (problems.map record)) = some (.array (problems.map ofProblem)) := by
    rw [← List.append_nil (body _)]
    exact decode?_body rfl problems
  refine ⟨⟨_, render_eq problems, getLast?_body _, alone⟩, whole problems, ?_⟩
  constructor
  · intro same
    have decoded := whole problems
    rw [same, whole others, Option.some.injEq, Value.array.injEq] at decoded
    obtain ⟨tell, factored⟩ := (Function.factorsThrough_iff told).1 fun _ _ => told_of_ofProblem
    rw [factored, ← List.map_map, ← List.map_map, decoded]
  · intro same
    obtain ⟨write, factored⟩ := (Function.factorsThrough_iff record).1 fun _ _ => record_of_told
    rw [render_eq, render_eq, factored, ← List.map_map, ← List.map_map, same]

/-- Quotes, backslashes, control characters and characters of every plane come back, and so does the place.
A report with another line is another report. -/
theorem report_decodes_without_loss_with_escapes :
    let problems (line : Nat) : List Problem :=
      [⟨"Linter".toList, "'é\"' \\\n\x01".toList, ⟨"dir/😀.feature".toList⟩, line⟩,
        ⟨[], "\t/".toList, ⟨"c:d".toList⟩, 3⟩]
    let report := ("[\n  \x7b\n    \"linter\": \"Linter\",\n    \"problem\": \"'é\\\"' \\\\\\n\\u0001\",\n" ++
      "    \"location\": \"dir/😀.feature:12\"\n  \x7d,\n  \x7b\n    \"linter\": \"\",\n" ++
      "    \"problem\": \"\\t/\",\n    \"location\": \"c:d:3\"\n  \x7d\n]\n").toList
    let object (linter problem location : String) : Value :=
      .object [("linter".toList, .string linter.toList), ("problem".toList, .string problem.toList),
        ("location".toList, .string location.toList)]
    let objects := [object "Linter" "'é\"' \\\n\x01" "dir/😀.feature:12", object "" "\t/" "c:d:3"]
    render (problems 12) = report ∧ decode? report = some (.array objects) ∧
      render (problems 12) ≠ render (problems 1) := by
  intro problems report object objects
  have rendered : render (problems 12) = report := by decide +kernel
  have meant : (problems 12).map ofProblem = objects := rfl
  obtain ⟨-, decoded, same⟩ := report_decodes_without_loss (problems 12) (problems 1)
  rw [rendered, meant] at decoded
  refine ⟨rendered, decoded, ?_⟩
  rw [Ne, same]
  decide

-- The decoder is not made for reports: it takes escapes that reports never use and refuses a last comma.
example : readEscape? "ud83d\\ude00".toList = some ('😀', []) := rfl

example : decode? "[\"\", 1e2,]".toList = none := by
  cbv

end FeatureLint.Report.Json
