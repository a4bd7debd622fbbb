/-!
# Terminal styles

A style is switched on and off by a control sequence: the escape character, an opening bracket,
parameters, intermediate characters and a final one. Where the output is no terminal, all control
sequences are deleted, whatever they would do.

## Main definitions

* `Style`, `Style.sequence`: the styles in use and their control sequences.
* `Style.paint`: the sequence, or nothing when colours are off.
* `stripStyles`: a text without its control sequences.
-/

namespace PklSyntax

/-- The styles in use; `plain` switches the others off. -/
inductive Style where
  | plain
  | bold
  | red
  | yellow
  | cyan
  | blue
  deriving Repr, DecidableEq

namespace Style

/-- The control sequence that switches to the style. Colours are bold. -/
def sequence : Style → String
  | .plain => "\x1b[0m"
  | .bold => "\x1b[1m"
  | .red => "\x1b[1;31m"
  | .yellow => "\x1b[1;33m"
  | .cyan => "\x1b[1;36m"
  | .blue => "\x1b[1;34m"

/-- The control sequence of the style, or nothing when colours are off. -/
def paint (color : Bool) (style : Style) : String :=
  if color then style.sequence else ""

end Style

/-- A parameter of a control sequence: the digits and the six characters behind them. -/
def isParameterChar (c : Char) : Bool := '0' ≤ c && c ≤ '?'

/-- An intermediate character of a control sequence, which stands behind the parameters: the space
and the fifteen characters behind it. -/
def isIntermediateChar (c : Char) : Bool := ' ' ≤ c && c ≤ '/'

/-- The last character of a control sequence: a letter, or one of the other characters from the at
sign to the tilde. -/
def isFinalChar (c : Char) : Bool := '@' ≤ c && c ≤ '~'

/-- What follows the control sequence whose parameters begin the list; none when the sequence is
not brought to an end. -/
def afterStyle? (chars : List Char) : Option (List Char) :=
  match (chars.dropWhile isParameterChar).dropWhile isIntermediateChar with
  | c :: rest => if isFinalChar c then some rest else none
  | [] => none

theorem length_lt_of_afterStyle? {chars rest : List Char} (h : afterStyle? chars = some rest) :
    rest.length < chars.length := by
  have hle : ((chars.dropWhile isParameterChar).dropWhile isIntermediateChar).length ≤
      chars.length :=
    ((List.dropWhile_sublist isIntermediateChar).trans
      (List.dropWhile_sublist isParameterChar)).length_le
  unfold afterStyle? at h
  split at h
  next c tail heq =>
    rw [heq] at hle
    split at h
    · cases h
      exact hle
    · cases h
  next => cases h

/-- The text without its control sequences. An escape character that begins none is kept. -/
def stripStyles : List Char → List Char
  | [] => []
  | '\x1b' :: '[' :: rest =>
    match h : afterStyle? rest with
    | some tail =>
      have := length_lt_of_afterStyle? h
      stripStyles tail
    | none => '\x1b' :: '[' :: stripStyles rest
  | c :: rest => c :: stripStyles rest
termination_by chars => chars.length
decreasing_by all_goals simp; try omega

end PklSyntax
