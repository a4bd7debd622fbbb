import PklSyntax.Cursor.Trivia

/-!
# Steps of a parser

The steps of which all parsers are made: looking at the text from the cursor on, moving the
cursor, recording diagnostics, switching the mode for the length of a block, going back, and
repeating. Nothing outside this folder reads or writes the state directly.

## Main definitions

* `Parser.peek`, `Parser.startsWith`, `Parser.atWord`, `Parser.peekWord`, `Parser.atEnd`.
* `Parser.advance`, `Parser.skip`, `Parser.sliceFrom`.
* `Parser.report`, `Parser.failWith`, `Parser.attempt`.
* `Parser.inMode`: a parser in another mode.
* `Parser.repeating`: a loop that moves the cursor in every round but the last.
-/

namespace PklSyntax

namespace Parser

/-! ### Looking -/

/-- The text that is parsed. -/
def theText : Parser (Array Char) := return (← read).text

/-- The options of the parse. -/
def theOptions : Parser Options := return (← read).options

/-- The offset of the cursor. -/
def position : Parser Nat := return (← get).pos

/-- The character `offset` places behind the cursor; NUL past the end. -/
def peekAt (offset : Nat) : Parser Char := return charAt (← theText) ((← position) + offset)

/-- The character at the cursor; NUL at the end. -/
def peek : Parser Char := peekAt 0

/-- The cursor is at the end of the text. -/
def atEnd : Parser Bool := return (← theText).size ≤ (← position)

/-- The word stands at the cursor. -/
def startsWith (word : String) : Parser Bool := return matchesAt (← theText) word (← position)

/-- The word stands at the cursor and does not go on there as a longer name. -/
def atWord (word : String) : Parser Bool := do
  if ← startsWith word then return !continuesName (← peekAt word.length) else return false

/-- The offset at which the name-like word at the cursor ends. -/
def wordEnd : Parser Nat := return skipWhile (← theText) continuesName (← position)

/-- The text between two offsets. -/
def slice (start stop : Nat) : Parser String := return sliceOf (← theText) start stop

/-- The text from `start` up to the cursor. -/
def sliceFrom (start : Nat) : Parser String := do slice start (← position)

/-- The name-like word at the cursor. -/
def peekWord : Parser String := do slice (← position) (← wordEnd)

/-- A line feed lies between the end of the span and the cursor. -/
def newlineSince (span : Span) : Parser Bool :=
  return hasLineFeed (← theText) span.stop.toNat (← position)

/-- The span from `start` up to the cursor. -/
def spanFrom (start : Nat) : Parser Span := return .ofNat start (← position)

/-! ### Moving -/

/-- Puts the cursor at an offset. -/
def moveTo (pos : Nat) : Parser Unit := modify fun s => { s with pos }

/-- Moves the cursor on by `n` characters, at most to the end. -/
def advance (n : Nat) : Parser Unit := do moveTo (min (← theText).size ((← position) + n))

/-- Moves the cursor over the trivia in front of it. -/
def skip : Parser Unit := do
  let text ← theText
  modify (State.skipTrivia text)

/-! ### Recording and stopping -/

/-- Records a diagnostic. -/
def record (d : Diagnostic) : Parser Unit :=
  modify fun s => { s with diagnostics := s.diagnostics.push d }

/-- Records a problem at a span. -/
def report (problem : Problem) (span : Span) : Parser Unit := record (problem.diagnostic span)

/-- Records a problem and gives the construct up. -/
def failWith {α : Type} (problem : Problem) (span : Span) : Parser α := do
  report problem span
  throw .failed

/-- As many errors have been recorded as the options allow. -/
def limitReached : Parser Bool := return (← theOptions).limitReached (← get)

/-! ### Control -/

/-- The point to which `rewind` returns. -/
def mark : Parser Checkpoint := return (← get).checkpoint

/-- Goes back to a checkpoint and drops what was recorded since then. -/
def rewind (c : Checkpoint) : Parser Unit := modify (State.rewind · c)

/-- The result of a parser, or nothing when it gave its construct up. Too deep nesting is passed
on. -/
def attempt {α : Type} (p : Parser α) : Parser (Option α) := fun context s =>
  match p context s with
  | .ok a s => .ok (some a) s
  | .error .failed s => .ok none s
  | .error stop s => .error stop s

/-- The parser in a mode of its own. The mode before is in force again afterwards, also when the
parser stops. -/
def inMode {α : Type} (mode : Mode) (p : Parser α) : Parser α := fun context s =>
  match p context { s with mode } with
  | .ok a s' => .ok a { s' with mode := s.mode }
  | .error stop s' => .error stop { s' with mode := s.mode }

/-- What a round of a loop comes to: a value for the next round, or the result of the loop. -/
inductive Round (σ α : Type) where
  | next (value : σ)
  | done (result : α)

/-- At most `rounds` rounds of a loop. -/
def rounds {σ α : Type} (step : σ → Parser (Round σ α)) : Nat → σ → Parser α
  | 0, _ => throw .stalled
  | n + 1, value => do
    match ← step value with
    | .next value => rounds step n value
    | .done result => return result

/-- A loop in which every round but the last moves the cursor on, so that there are at most as many
rounds as characters are left, and one more. -/
def repeating {σ α : Type} (step : σ → Parser (Round σ α)) (value : σ) : Parser α := do
  rounds step ((← theText).size - (← position) + 1) value

end Parser

end PklSyntax
