import LanguageRelay.Datum.Basic
import LanguageRelay.Decimal.Binary64
import LanguageRelay.Text.Split
namespace LanguageRelay.Toml

def isWordChar (c : Char) : Bool :=
  c.isAlphanum || c == '_' || c == '+' || c == '-' || c == '.' || c == ':'

def grouped? (isDigit : Char → Bool) (chars : List Char) : Option (List Char) :=
  let groups := Text.splitOn '_' chars
  if groups.all fun g => !g.isEmpty && g.all isDigit then some groups.flatten else none

def digitValue (c : Char) : Nat :=
  if c.isDigit then c.toNat - '0'.toNat
  else if c.isUpper then c.toNat - 'A'.toNat + 10
  else c.toNat - 'a'.toNat + 10

def numberOf (base : Nat) (digits : List Char) : Nat :=
  digits.foldl (fun n c => n * base + digitValue c) 0

def isHexDigit (c : Char) : Bool := c.isDigit || ('a' ≤ c && c ≤ 'f') || ('A' ≤ c && c ≤ 'F')
def isOctalDigit (c : Char) : Bool := '0' ≤ c && c ≤ '7'
def isBinaryDigit (c : Char) : Bool := c == '0' || c == '1'

def sign : List Char → Bool × List Char
  | '-' :: rest => (true, rest)
  | '+' :: rest => (false, rest)
  | chars => (false, chars)

def hasLeadingZero : List Char → Bool
  | '0' :: _ :: _ => true
  | _ => false

def decimalDigits? (chars : List Char) : Option (List Char) :=
  (grouped? Char.isDigit chars).filter fun digits => !hasLeadingZero digits

def greatestInteger : Nat := 0x7FFFFFFFFFFFFFFF

def inRange (negative : Bool) (n : Nat) : Option Int :=
  if n ≤ greatestInteger then some (if negative then -n else n)
  else if negative ∧ n = greatestInteger + 1 then some (-n)
  else none

-- What a word says that may be a number: nothing, that it is a number out of range, or its value.
def integer? (word : List Char) : Option (Option Int) :=
  match word with
  | '0' :: 'x' :: digits => (grouped? isHexDigit digits).map fun d => inRange false (numberOf 16 d)
  | '0' :: 'o' :: digits => (grouped? isOctalDigit digits).map fun d => inRange false (numberOf 8 d)
  | '0' :: 'b' :: digits => (grouped? isBinaryDigit digits).map fun d => inRange false (numberOf 2 d)
  | _ => (decimalDigits? (sign word).2).map fun d => inRange (sign word).1 (numberOf 10 d)

def exponent? (chars : List Char) : Option Int :=
  (grouped? Char.isDigit (sign chars).2).map fun digits =>
    if (sign chars).1 then -(numberOf 10 digits : Int) else numberOf 10 digits

-- Splits a number where its exponent begins. An `E` marks it as well as an `e`.
def splitExponent (chars : List Char) : List (List Char) :=
  Text.splitOn 'e' (chars.map fun c => if c = 'E' then 'e' else c)

def fraction? (chars : List Char) : Option (List Char × Int) :=
  match splitExponent chars with
  | [digits] => (grouped? Char.isDigit digits).map (·, 0)
  | [digits, exponent] => do return (← grouped? Char.isDigit digits, ← exponent? exponent)
  | _ => none

def float? (unsigned : List Char) : Option (List Char × Int) :=
  match Text.splitOn '.' unsigned with
  | [whole, rest] => do
    let whole ← decimalDigits? whole
    let (fraction, exponent) ← fraction? rest
    return (whole ++ fraction, exponent - fraction.length)
  | [chars] =>
    match splitExponent chars with
    | [whole, exponent] => do return (← decimalDigits? whole, ← exponent? exponent)
    | _ => none
  | _ => none

-- The double that digits with a power of ten round to, if there is one. What has more than 310 places before
-- the point is above all of them; what begins more than 330 places behind it rounds to zero.
def doubleOf? (negative : Bool) (digits : List Char) (power : Int) : Option Decimal.Binary64 :=
  let significant := digits.dropWhile (· == '0')
  let places := significant.length + power
  if significant = [] ∨ places < -330 then some (.zero negative)
  else if 310 < places then none
  else
    Decimal.Binary64.round negative (numberOf 10 significant * Nat.pow 10 power.toNat)
      (Nat.pow 10 (-power).toNat)

def double? (word : List Char) : Option Double :=
  let (negative, unsigned) := sign word
  if unsigned = "inf".toList then some (.infinite negative)
  else if unsigned = "nan".toList then some (.undefined negative)
  else
    (float? unsigned).bind fun (digits, power) => (doubleOf? negative digits power).map .finite

def fixed? (length : Nat) (chars : List Char) : Option Nat :=
  if chars.length = length ∧ chars.all Char.isDigit then some (numberOf 10 chars) else none

def daysOf (year month : Nat) : Nat :=
  if month = 2 then
    if year % 4 = 0 ∧ (year % 100 ≠ 0 ∨ year % 400 = 0) then 29 else 28
  else if month ∈ [4, 6, 9, 11] then 30
  else 31

def isDate (chars : List Char) : Bool :=
  match (Text.splitOn '-' chars) with
  | [y, m, d] =>
    match fixed? 4 y, fixed? 2 m, fixed? 2 d with
    | some year, some month, some day =>
      1 ≤ month && month ≤ 12 && 1 ≤ day && day ≤ daysOf year month
    | _, _, _ => false
  | _ => false

def isClock (hour minute : List Char) : Bool :=
  match fixed? 2 hour, fixed? 2 minute with
  | some h, some m => h ≤ 23 && m ≤ 59
  | _, _ => false

-- The digits of a part of a second that are kept: nine at most, without zeros at the end, but at
-- least one.
def fractionText (digits : List Char) : List Char :=
  match ((digits.take 9).reverse.dropWhile (· == '0')).reverse with
  | [] => ['0']
  | kept => kept

-- A time of day, as it is shown. The seconds may be missing.
def timeText? (chars : List Char) : Option (List Char) :=
  match Text.splitOn ':' chars with
  | [hour, minute] => if isClock hour minute then some chars else none
  | [hour, minute, second] =>
    if !isClock hour minute then none
    else
      match Text.splitOn '.' second with
      | [whole] => if (fixed? 2 whole).any (· ≤ 60) then some chars else none
      | [whole, fraction] =>
        if (fixed? 2 whole).any (· ≤ 60) ∧ fraction ≠ [] ∧ fraction.all Char.isDigit then
          some (hour ++ ':' :: minute ++ ':' :: whole ++ '.' :: fractionText fraction)
        else none
      | _ => none
  | _ => none

def zoneText? : List Char → Option (List Char)
  | ['Z'] | ['z'] => some ['Z']
  | c :: rest =>
    match Text.splitOn ':' rest with
    | [hour, minute] => if (c = '+' ∨ c = '-') ∧ isClock hour minute then some (c :: rest) else none
    | _ => none
  | [] => none

def zonedTimeText? (chars : List Char) : Option (List Char) :=
  let isTime (c : Char) : Bool := c.isDigit || c == ':' || c == '.'
  match chars.dropWhile isTime with
  | [] => timeText? chars
  | zone => do
    let time ← timeText? (chars.takeWhile isTime)
    let zone ← zoneText? zone
    return time ++ zone

-- A date, a time of day or both, as they are shown. A letter or a blank stands between them.
def momentText? (word : List Char) : Option String :=
  let date := word.take 10
  if isDate date then
    match word.drop 10 with
    | [] => some (String.ofList date)
    | c :: time =>
      if c = 'T' ∨ c = 't' ∨ c = ' ' then
        (zonedTimeText? time).map fun t => String.ofList (date ++ 'T' :: t)
      else none
  else (timeText? word).map String.ofList

def scalar? (word : List Char) : Option Datum :=
  if word = "true".toList then some (.bool true)
  else if word = "false".toList then some (.bool false)
  else
    match integer? word with
    | some value => value.map .integer
    | none => ((double? word).map .double) <|> (momentText? word).map .moment

-- Splits off the word at the front. A blank between a date and a time belongs to the word.
def splitWord (chars : List Char) : List Char × List Char :=
  let word := chars.takeWhile isWordChar
  match chars.dropWhile isWordChar with
  | ' ' :: c :: rest =>
    if isDate word ∧ c.isDigit then
      (word ++ ' ' :: (c :: rest).takeWhile isWordChar, (c :: rest).dropWhile isWordChar)
    else (word, ' ' :: c :: rest)
  | rest => (word, rest)

end LanguageRelay.Toml
