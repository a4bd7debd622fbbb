/-!
# Lines of a text

Two readings of "line" are in use. A *source line* ends at a line feed and nowhere else: offsets
are located by these. A *display line* ends at any of the ten characters that break a line in
Unicode or in a terminal, a carriage return with its line feed counting once, and the empty rest
after a final break is no line: the lines that are shown are these. A text read from a file has
had its line endings unified first.

## Main definitions

* `isLineBreak`: the characters that end a display line.
* `displayLines`: the display lines of a text.
* `unifyLineEndings`: every carriage return, with a following line feed or without, becomes a line
  feed.
-/

namespace PklSyntax

/-- The characters that end a display line. -/
def isLineBreak (c : Char) : Bool :=
  let n := c.toNat
  (10 ≤ n && n ≤ 13) || (0x1C ≤ n && n ≤ 0x1E) || n == 0x85 || n == 0x2028 || n == 0x2029

/-- The display lines of a text whose current line has the characters `line` so far, the last
one first. -/
def displayLinesFrom (line : List Char) : List Char → List String
  | [] => if line.isEmpty then [] else [String.ofList line.reverse]
  | '\r' :: '\n' :: rest => String.ofList line.reverse :: displayLinesFrom [] rest
  | c :: rest =>
    if isLineBreak c then String.ofList line.reverse :: displayLinesFrom [] rest
    else displayLinesFrom (c :: line) rest

/-- The display lines of a text, without their ends. -/
def displayLines (text : List Char) : List String :=
  displayLinesFrom [] text

/-- Every carriage return becomes a line feed, together with a line feed that follows it. -/
def unifyLineEndings : List Char → List Char
  | [] => []
  | '\r' :: '\n' :: rest => '\n' :: unifyLineEndings rest
  | c :: rest => (if c = '\r' then '\n' else c) :: unifyLineEndings rest

end PklSyntax
