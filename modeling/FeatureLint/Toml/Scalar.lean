import FeatureLint.Toml.Quoted
import FeatureLint.Toml.Value

/-!
This file reads the TOML values that are written without quotes and brackets: booleans, numbers, dates
and times. Such a value ends where no letter, digit or joining sign follows, so its text is cut off
first and then judged as a whole.
-/

namespace FeatureLint.Toml

namespace Number

def decimalValue? (character : Char) : Option Nat :=
  if character.isDigit then some (character.toNat - 0x30) else none

/-- Digits may be divided by single underscores, each of which has a digit on both sides. This function
reads digits that fill the whole text. -/
def digits? (digit? : Char → Option Nat) : Text → Option (List Nat)
  | [] => none
  | [character] => (digit? character).map ([·])
  | character :: '_' :: rest => do
      let digit ← digit? character
      let digits ← digits? digit? rest
      return digit :: digits
  | character :: second :: rest => do
      let digit ← digit? character
      let digits ← digits? digit? (second :: rest)
      return digit :: digits

/-- This function takes a sign away and says whether it was a minus. -/
def unsigned : Text → Bool × Text
  | '-' :: rest => (true, rest)
  | '+' :: rest => (false, rest)
  | text => (false, text)

/-- A decimal number has no zero in front of other digits. -/
def decimal? (text : Text) : Option (List Nat) := do
  let digits ← digits? decimalValue? text
  if digits.head? = some 0 ∧ 1 < text.length then none else return digits

def digitBelow? (base : Nat) (character : Char) : Option Nat :=
  (Quoted.hexValue? character).filter (· < base)

/-- Integers must fit in 64 bits with a sign. -/
def inRange (number : Int) : Bool :=
  -9223372036854775808 ≤ number && number < 9223372036854775808

def magnitude? (text : Text) : Option Nat :=
  match text with
  | '0' :: 'x' :: rest => (digits? (digitBelow? 16) rest).map (Quoted.digitsValue 16)
  | '0' :: 'o' :: rest => (digits? (digitBelow? 8) rest).map (Quoted.digitsValue 8)
  | '0' :: 'b' :: rest => (digits? (digitBelow? 2) rest).map (Quoted.digitsValue 2)
  | _ => none

def integer? (text : Text) : Option Int := do
  let number ← match magnitude? text with
    | some magnitude => some (magnitude : Int)
    | none =>
        let (negative, rest) := unsigned text
        (decimal? rest).map fun digits =>
          let magnitude : Int := Quoted.digitsValue 10 digits
          if negative then -magnitude else magnitude
  if inRange number then return number else none

/-- This function cuts a text before the first character of a kind. -/
def cutBefore (isMark : Char → Bool) (text : Text) : Text × Text :=
  (text.takeWhile fun character => !isMark character,
    text.dropWhile fun character => !isMark character)

/-- The bound is halfway between the largest finite double and the next power of two. -/
def doubleBound : Nat := Nat.pow 2 1024 - Nat.pow 2 970

/-- This test asks whether digits times a power of ten are below the bound of doubles. The power is
only computed when the number of digits does not settle the answer. -/
def isFinite (digits : List Nat) (exponent : Int) : Bool :=
  let significant := digits.dropWhile (· = 0)
  let places : Int := significant.length + exponent
  if significant.isEmpty || places < 300 then true
  else if 400 < places then false
  else if 0 ≤ exponent then
    Quoted.digitsValue 10 significant * Nat.pow 10 exponent.toNat < doubleBound
  else
    Quoted.digitsValue 10 significant < doubleBound * Nat.pow 10 (-exponent).toNat

/-- A float has a fraction, an exponent or both. Floats that are too large are refused, unless they are
negative. -/
def isFloat (text : Text) : Bool :=
  let (negative, magnitude) := unsigned text
  if magnitude = "inf".toList || magnitude = "nan".toList then true
  else
    let (mantissa, power) := cutBefore (fun character => character = 'e' || character = 'E') magnitude
    let (whole, fraction) := cutBefore (· = '.') mantissa
    let parsed? : Option (List Nat × Int) := do
      let wholeDigits ← decimal? whole
      let fractionDigits ← match fraction with
        | [] => some []
        | _ :: rest => digits? decimalValue? rest
      let exponent ← match power with
        | [] => some (0 : Int)
        | _ :: rest =>
            let (down, digits) := unsigned rest
            (digits? decimalValue? digits).map fun digits =>
              let size : Int := Quoted.digitsValue 10 digits
              if down then -size else size
      if fraction.isEmpty && power.isEmpty then none
      else return (wholeDigits ++ fractionDigits, exponent - fractionDigits.length)
    match parsed? with
    | none => false
    | some (digits, exponent) => negative || isFinite digits exponent

end Number

namespace DateTime

/-- This function reads a number of exactly `count` digits. -/
def number? (count : Nat) (text : Text) : Option (Nat × Text) := do
  let digits ← (text.take count).mapM Number.decimalValue?
  if digits.length = count then return (Quoted.digitsValue 10 digits, text.drop count) else none

def daysInMonth (year month : Nat) : Nat :=
  if month = 2 then
    if year % 4 = 0 ∧ (year % 100 ≠ 0 ∨ year % 400 = 0) then 29 else 28
  else if month = 4 ∨ month = 6 ∨ month = 9 ∨ month = 11 then 30
  else 31

/-- This function reads a date of the calendar and returns what follows it. -/
def afterDate? (text : Text) : Option Text := do
  let (year, text) ← number? 4 text
  let text ← Text.afterLead? ['-'] text
  let (month, text) ← number? 2 text
  let text ← Text.afterLead? ['-'] text
  let (day, text) ← number? 2 text
  if 1 ≤ month ∧ month ≤ 12 ∧ 1 ≤ day ∧ day ≤ daysInMonth year month then return text else none

def afterClock? (text : Text) : Option Text := do
  let (hour, text) ← number? 2 text
  let text ← Text.afterLead? [':'] text
  let (minute, text) ← number? 2 text
  if hour ≤ 23 ∧ minute ≤ 59 then return text else none

/-- This function reads a time of day, in which a minute may have a leap second. -/
def afterTime? (text : Text) : Option Text := do
  let text ← afterClock? text
  let text ← Text.afterLead? [':'] text
  let (second, text) ← number? 2 text
  if second ≤ 60 then
    match text with
    | '.' :: rest =>
        if (rest.takeWhile Char.isDigit).isEmpty then none else return rest.dropWhile Char.isDigit
    | _ => return text
  else none

/-- This test asks whether a text is nothing, or the distance to universal time. -/
def isOffset : Text → Bool
  | [] | ['Z'] | ['z'] => true
  | '+' :: rest | '-' :: rest => afterClock? rest = some []
  | _ => false

def isTime (text : Text) : Bool :=
  afterTime? text = some []

def isDate (text : Text) : Bool :=
  afterDate? text = some []

/-- This test asks for a time with or without an offset. -/
def isOffsetTime (text : Text) : Bool :=
  (afterTime? text).any isOffset

/-- This test asks for a date and a time that a letter divides. -/
def isDateAndTime (text : Text) : Bool :=
  match afterDate? text with
  | some ('T' :: rest) | some ('t' :: rest) => isOffsetTime rest
  | _ => false

end DateTime

namespace Scalar

/-- These characters belong to the text of a value. -/
def isPart (character : Char) : Bool :=
  character.isAlphanum || character = '_' || character = '-' || character = '+' ||
    character = '.' || character = ':'

/-- This function judges the whole text of a value. -/
def ofText? (text : Text) : Option Value :=
  if text = "true".toList then some (.boolean true)
  else if text = "false".toList then some (.boolean false)
  else if DateTime.isDate text || DateTime.isTime text || DateTime.isDateAndTime text then
    some (.dateTime text)
  else if Number.isFloat text then some (.float text)
  else (Number.integer? text).map .integer

/-- This function reads a value. A single space may divide a date from a time. -/
def read? (text : Text) : Option (Value × Text) :=
  let first := text.takeWhile isPart
  let after := text.dropWhile isPart
  match after with
  | ' ' :: rest =>
      let second := rest.takeWhile isPart
      if DateTime.isDate first && !second.isEmpty then
        if DateTime.isOffsetTime second then
          some (.dateTime (first ++ ' ' :: second), rest.dropWhile isPart)
        else none
      else (ofText? first).map fun value => (value, after)
  | _ => (ofText? first).map fun value => (value, after)

end Scalar

end FeatureLint.Toml
