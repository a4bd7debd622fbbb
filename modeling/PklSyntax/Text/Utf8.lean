/-!
# Bytes as text

In UTF-8 the first byte of a character says how many bytes follow, and between which bounds the next
one lies. Bytes that are no UTF-8 are read all the same: each longest beginning of a character that
is not brought to an end, and each byte that begins none, is replaced.

## Main definitions

* `CharStart`, `charStart?`: what the first byte of a character says.
* `decodeBytes`: the characters that bytes stand for.
-/

namespace PklSyntax

/-- What the first byte of a character says: the bits that it gives to the code point, the number
of bytes that follow, and the bounds of the next one. -/
structure CharStart where
  bits : Nat
  following : Nat
  least : Nat := 0x80
  greatest : Nat := 0xBF
  deriving Repr, DecidableEq, Inhabited

/-- What a byte says as the first of a character. Bounds that are closer than usual shut out longer
forms of characters that have shorter ones, surrogates, and what is no code point. -/
def charStart? (byte : Nat) : Option CharStart :=
  if byte < 0x80 then some { bits := byte, following := 0 }
  else if byte < 0xC2 then none
  else if byte < 0xE0 then some { bits := byte - 0xC0, following := 1 }
  else if byte = 0xE0 then some { bits := 0, following := 2, least := 0xA0 }
  else if byte = 0xED then some { bits := 0xD, following := 2, greatest := 0x9F }
  else if byte < 0xF0 then some { bits := byte - 0xE0, following := 2 }
  else if byte = 0xF0 then some { bits := 0, following := 3, least := 0x90 }
  else if byte < 0xF4 then some { bits := byte - 0xF0, following := 3 }
  else if byte = 0xF4 then some { bits := 4, following := 3, greatest := 0x8F }
  else none

/-- The bytes at the front of a list that go on a character, at most `count` of them, of which the
first has bounds of its own. -/
def followingBytes (count least greatest : Nat) (bytes : List Nat) : List Nat :=
  match count, bytes with
  | count + 1, byte :: rest =>
    if least ≤ byte ∧ byte ≤ greatest then byte :: followingBytes count 0x80 0xBF rest else []
  | _, _ => []

/-- The characters that bytes stand for, with a mark in place of what stands for none. -/
def decodeBytes : List Nat → List Char
  | [] => []
  | byte :: rest =>
    match charStart? byte with
    | none => '\uFFFD' :: decodeBytes rest
    | some start =>
      let following := followingBytes start.following start.least start.greatest rest
      let c :=
        if following.length = start.following then
          Char.ofNat (following.foldl (fun bits byte => bits * 0x40 + (byte - 0x80)) start.bits)
        else '\uFFFD'
      c :: decodeBytes (rest.drop following.length)
termination_by bytes => bytes.length
decreasing_by all_goals simp; try omega

end PklSyntax
