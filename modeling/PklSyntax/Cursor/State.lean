import PklSyntax.Diagnostic.Problem
import PklSyntax.Cursor.Search

/-!
# The state of a parse

A parse reads one text under fixed options. What changes on the way is a plain value: the cursor
with its mode, the diagnostics recorded so far, and the doc comments found so far with the
knowledge of which of them belong to a declaration. A parser that stops keeps the state in which
it stopped, so that what was recorded is not lost and the caller can go on from there.

Doc comments are collected by runs of trivia: `runStart` is the number of doc comments found
before the current run, and `triviaEnd` the offset at which it ended. A doc comment is *attached*
when a declaration has taken it.

## Main definitions

* `Options`: what a caller can choose.
* `Mode`, `State`, `Stop`, `Context`, `Parser`.
* `Checkpoint`, `State.checkpoint`, `State.rewind`: going back to an earlier state, except that
  the mode stays as it is.
-/

namespace PklSyntax

/-- What a caller of the parser can choose. No more declarations are read once there are `maxErrors`
errors; when it is not positive, there is no limit. -/
structure Options where
  styleWarnings : Bool := true
  docCommentWarnings : Bool := true
  maxErrors : Int := 0
  deriving Repr, DecidableEq, Inhabited

/-- In loose mode white space and comments may stand between tokens, in tight mode they may not. -/
inductive Mode where
  | loose
  | tight
  deriving Repr, DecidableEq, Inhabited

/-- The word for a mode. -/
def Mode.name : Mode → String
  | loose => "loose"
  | tight => "tight"

/-- What changes during a parse. -/
structure State where
  pos : Nat := 0
  mode : Mode := .loose
  diagnostics : Array Diagnostic := #[]
  docs : Array DocComment := #[]
  attached : List Nat := []
  runStart : Nat := 0
  triviaEnd : Option Nat := none
  deriving Repr, DecidableEq, Inhabited

/-- Why a parser stopped without a result: an error was recorded and the construct is given up, or
the text is nested too deeply. A loop that did not move the cursor is `stalled`; no production has
such a loop. -/
inductive Stop where
  | failed
  | tooDeep
  | stalled
  deriving Repr, DecidableEq, Inhabited

/-- What stays the same during a parse. -/
structure Context where
  text : Array Char
  options : Options
  deriving Inhabited

/-- A parser reads the text from the cursor on. When it stops, the state at that point is kept. -/
abbrev Parser := ReaderT Context (EStateM Stop State)

/-- What is needed to go back to an earlier state. -/
structure Checkpoint where
  pos : Nat
  docCount : Nat
  attached : List Nat
  runStart : Nat
  triviaEnd : Option Nat
  diagnosticCount : Nat
  deriving Repr, DecidableEq, Inhabited

namespace State

/-- The point to which `rewind` returns. -/
def checkpoint (s : State) : Checkpoint where
  pos := s.pos
  docCount := s.docs.size
  attached := s.attached
  runStart := s.runStart
  triviaEnd := s.triviaEnd
  diagnosticCount := s.diagnostics.size

/-- The state at the checkpoint, with what was recorded since then dropped. -/
def rewind (s : State) (c : Checkpoint) : State where
  pos := c.pos
  mode := s.mode
  diagnostics := s.diagnostics.take c.diagnosticCount
  docs := s.docs.take c.docCount
  attached := c.attached
  runStart := c.runStart
  triviaEnd := c.triviaEnd

/-- Going back to where one is changes nothing. -/
@[simp] theorem rewind_checkpoint (s : State) : s.rewind s.checkpoint = s := by
  simp [rewind, checkpoint]

/-- The number of errors recorded so far. -/
def errorCount (s : State) : Nat := s.diagnostics.countP Diagnostic.isError

/-- The doc comments that no declaration has taken. -/
def orphans (s : State) : List DocComment :=
  (s.docs.toList.zipIdx.filter fun (_, i) => !s.attached.contains i).map Prod.fst

end State

/-- As many errors have been recorded as the options allow. -/
def Options.limitReached (options : Options) (s : State) : Bool :=
  0 < options.maxErrors && options.maxErrors ≤ s.errorCount

end PklSyntax
