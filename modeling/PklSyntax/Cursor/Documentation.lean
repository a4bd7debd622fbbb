import PklSyntax.Cursor.Basic

/-!
# Documentation of declarations

A doc comment documents the declaration that follows it directly. A declaration takes the last doc
comment of the trivia in front of it, if there is one, and no doc comment is taken twice.
Declarations that fail give back what was taken on their behalf.

## Main definitions

* `State.takeDoc`, `Parser.takeDoc`: the doc comment in front of the cursor, which is taken.
* `Parser.release`: gives back what was taken since some point.
-/

namespace PklSyntax

/-- The doc comment directly in front of the cursor, if there is one that is not yet taken, with
the state in which it is. -/
def State.takeDoc (s : State) : Option DocComment × State :=
  if s.triviaEnd = some s.pos ∧ s.runStart < s.docs.size then
    let last := s.docs.size - 1
    if s.attached.contains last then (none, s)
    else (s.docs[last]?, { s with attached := last :: s.attached })
  else (none, s)

namespace Parser

/-- Takes the doc comment directly in front of the cursor, if there is one. -/
def takeDoc : Parser (Option DocComment) := modifyGet State.takeDoc

/-- The doc comments that are taken, by their numbers. -/
def attached : Parser (List Nat) := return (← get).attached

/-- Gives back all doc comments but the given ones. -/
def release (attached : List Nat) : Parser Unit := modify fun s => { s with attached }

end Parser

end PklSyntax
