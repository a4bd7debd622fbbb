import PklSyntax.Toml.Value

/-!
# Scalars without quotes

Numbers, truth values, dates and times are words without blanks, except that a blank may stand
between a date and a time. What a word is can be told from its characters.

## Main definitions

* `Toml.isDigitRun`: digits, with single underscores between some of them.
* `Toml.integerDigits`: the number of digits of an integer.
* `Toml.isDate`, `Toml.isTime`, `Toml.isTimeWithOffset`.
* `Toml.scalar?`: the value that a word stands for.
-/

namespace PklSyntax.Toml

/-! ### Numbers -/

/-- Digits, with at most one underscore between two of them. -/
def isDigitRun (isDigit : Char → Bool) : List Char → Bool
  | [] => false
  | [c] => isDigit c
  | c :: '_' :: rest => isDigit c && isDigitRun isDigit rest
  | c :: rest => isDigit c && isDigitRun isDigit rest

/-- A digit or an underscore. -/
def isRunChar (c : Char) : Bool := c.isDigit || c == '_'

/-- The value of digits in a base other than ten. -/
def based? (radix : Nat) (isDigit : Char → Bool) (digits : List Char) : Option Value :=
  if isDigitRun isDigit digits then some (.integer (digitsValue radix (digits.filter (· != '_'))))
  else none

/-- An exponent, or nothing. -/
def isExponent : List Char → Bool
  | [] => true
  | e :: '+' :: digits => (e == 'e' || e == 'E') && isDigitRun Char.isDigit digits
  | e :: '-' :: digits => (e == 'e' || e == 'E') && isDigitRun Char.isDigit digits
  | e :: digits => (e == 'e' || e == 'E') && isDigitRun Char.isDigit digits

/-- A point with digits and an exponent, of which either may be missing. -/
def isFraction : List Char → Bool
  | '.' :: rest =>
    isDigitRun Char.isDigit (rest.takeWhile isRunChar) && isExponent (rest.dropWhile isRunChar)
  | rest => isExponent rest

/-- The digits before the point: none but zero begins with a zero. -/
def isWholePart (digits : List Char) : Bool :=
  isDigitRun Char.isDigit digits && (digits == ['0'] || digits.head? != some '0')

/-- The value of a number without a sign in base ten. -/
def decimal? (negative : Bool) (chars : List Char) : Option Value :=
  let whole := chars.takeWhile isRunChar
  let rest := chars.dropWhile isRunChar
  let number := Binary64.ofDecimalText (String.ofList chars)
  let integer : Int := digitsValue 10 (whole.filter (· != '_'))
  if !isWholePart whole then none
  else if rest.isEmpty then some (.integer (if negative then -integer else integer))
  else if isFraction rest then some (.float (if negative then number.negate else number))
  else none

/-- The value of a number behind its sign. -/
def signed? (negative : Bool) (chars : List Char) : Option Value :=
  if chars == "inf".toList then
    some (.float (if negative then Binary64.infinity.negate else .infinity))
  else if chars == "nan".toList then some (.float .nan)
  else decimal? negative chars

/-- The value of a number. -/
def number? : List Char → Option Value
  | '0' :: 'x' :: digits => based? 16 isHexDigit digits
  | '0' :: 'o' :: digits => based? 8 (fun c => '0' ≤ c && c ≤ '7') digits
  | '0' :: 'b' :: digits => based? 2 (fun c => c == '0' || c == '1') digits
  | '+' :: chars => signed? false chars
  | '-' :: chars => signed? true chars
  | chars => signed? false chars

/-! ### The length of an integer -/

/-- The digits at the front of a list, with single underscores between some of them left out, and
what follows them. -/
def frontDigits : List Char → List Char × List Char
  | '_' :: c :: rest =>
    if c.isDigit then
      let (digits, after) := frontDigits rest
      (c :: digits, after)
    else ([], '_' :: c :: rest)
  | c :: rest =>
    if c.isDigit then
      let (digits, after) := frontDigits rest
      (c :: digits, after)
    else ([], c :: rest)
  | [] => ([], [])

/-- What follows the digits makes a number with a fraction or an exponent of them. -/
def beginsFraction : List Char → Bool
  | '.' :: c :: _ => c.isDigit
  | e :: '+' :: c :: _ | e :: '-' :: c :: _ => (e == 'e' || e == 'E') && c.isDigit
  | e :: c :: _ => (e == 'e' || e == 'E') && c.isDigit
  | _ => false

/-- The number of digits of the integer in base ten with which a word begins. It is zero when the
word begins with something else or with a zero. -/
def integerDigits (word : List Char) : Nat :=
  let unsigned := match word with
    | '+' :: rest | '-' :: rest => rest
    | _ => word
  let (digits, after) := frontDigits unsigned
  if unsigned.head? == some '0' || unsigned.head? == some '_' || beginsFraction after then 0
  else digits.length

/-! ### Dates and times -/

/-- The characters are digits that make a number from `least` to `greatest`. -/
def isBetween (least greatest : Nat) (digits : List Char) : Bool :=
  digits.all Char.isDigit && least ≤ digitsValue 10 digits && digitsValue 10 digits ≤ greatest

/-- The year has a day more than others. -/
def isLeapYear (year : Nat) : Bool := year % 4 == 0 && (year % 100 != 0 || year % 400 == 0)

/-- The number of days of a month. -/
def daysIn (year month : Nat) : Nat :=
  if month = 2 then if isLeapYear year then 29 else 28
  else if [4, 6, 9, 11].contains month then 30 else 31

/-- A date of the calendar. -/
def isDate : List Char → Bool
  | [y₁, y₂, y₃, y₄, '-', m₁, m₂, '-', d₁, d₂] =>
    isBetween 1 9999 [y₁, y₂, y₃, y₄] && isBetween 1 12 [m₁, m₂] &&
      isBetween 1 (daysIn (digitsValue 10 [y₁, y₂, y₃, y₄]) (digitsValue 10 [m₁, m₂])) [d₁, d₂]
  | _ => false

/-- A time of the day, perhaps with a fraction of a second. -/
def isTime : List Char → Bool
  | h₁ :: h₂ :: ':' :: m₁ :: m₂ :: ':' :: s₁ :: s₂ :: rest =>
    isBetween 0 23 [h₁, h₂] && isBetween 0 59 [m₁, m₂] && isBetween 0 59 [s₁, s₂] &&
      match rest with
      | [] => true
      | '.' :: digits => !digits.isEmpty && digits.all Char.isDigit
      | _ => false
  | _ => false

/-- A distance from the time of Greenwich, or nothing. -/
def isOffset : List Char → Bool
  | [] | ['Z'] | ['z'] => true
  | [sign, h₁, h₂, ':', m₁, m₂] =>
    (sign == '+' || sign == '-') && isBetween 0 23 [h₁, h₂] && isBetween 0 59 [m₁, m₂]
  | _ => false

/-- A character of a time of the day. -/
def isClockChar (c : Char) : Bool := c.isDigit || c == ':' || c == '.'

/-- A time of the day, perhaps with its distance from the time of Greenwich. -/
def isTimeWithOffset (chars : List Char) : Bool :=
  isTime (chars.takeWhile isClockChar) && isOffset (chars.dropWhile isClockChar)

/-- A date and a time with the letter between them. -/
def isDateTime (chars : List Char) : Bool :=
  match chars.drop 10 with
  | t :: time => isDate (chars.take 10) && (t == 'T' || t == 't') && isTimeWithOffset time
  | [] => false

/-! ### Words -/

/-- A character of a word. -/
def isWordChar (c : Char) : Bool :=
  c.isAlphanum || c == '_' || c == '+' || c == '-' || c == '.' || c == ':'

/-- The value that a word stands for. -/
def scalar? (word : String) : Option Value :=
  let chars := word.toList
  if word == "true" then some (.boolean true)
  else if word == "false" then some (.boolean false)
  else if isDate chars then some (.time .date word)
  else if isTime chars then some (.time .time word)
  else if isDateTime chars then some (.time .dateTime word)
  else number? chars

end PklSyntax.Toml
