/-!
# Similar words

Two words are compared by the blocks they have in common: the longest block that occurs in both,
and then, in turn, the blocks to the left and to the right of it. Of several longest blocks the one
counts that comes first in the first word, and for that the one that comes first in the second. The
similarity is twice the total length of the blocks over the total length of the words.

## Main definitions

* `longestBlock`: the longest common block of two lists.
* `commonLength`: the total length of the common blocks.
* `closestWord?`: the most similar of some words, if it is similar enough.
* `similarWords`: all of some words that are similar enough.
-/

namespace PklSyntax

/-- The number of characters with which both lists begin alike. -/
def commonStart : List Char → List Char → Nat
  | a :: as, b :: bs => if a = b then commonStart as bs + 1 else 0
  | _, _ => 0

/-- A block that two lists have in common: where it begins in either, and its length. -/
structure Block where
  first : Nat
  second : Nat
  length : Nat
  deriving Repr, DecidableEq

/-- The better of `best` and the blocks that begin with `as`, which is at offset `i`, in one list
and at offset `j` or later in the other. -/
def longestBlockAgainst (as : List Char) (i j : Nat) (best : Block) : List Char → Block
  | [] => best
  | b :: bs =>
    let length := commonStart as (b :: bs)
    longestBlockAgainst as i (j + 1) (if best.length < length then ⟨i, j, length⟩ else best) bs

/-- The better of `best` and the blocks that begin at offset `i` or later in one list. -/
def longestBlockFrom (bs : List Char) (i : Nat) (best : Block) : List Char → Block
  | [] => best
  | a :: as => longestBlockFrom bs (i + 1) (longestBlockAgainst (a :: as) i 0 best bs) as

/-- The longest common block of two lists; of several, the one that comes first in `as`, and then
the one that comes first in `bs`. -/
def longestBlock (as bs : List Char) : Block :=
  longestBlockFrom bs 0 ⟨0, 0, 0⟩ as

/-- The total length of the common blocks, within `fuel` further divisions. -/
def commonLengthWithin : Nat → List Char → List Char → Nat
  | 0, _, _ => 0
  | fuel + 1, as, bs =>
    let block := longestBlock as bs
    if block.length = 0 then 0
    else
      commonLengthWithin fuel (as.take block.first) (bs.take block.second) + block.length +
        commonLengthWithin fuel (as.drop (block.first + block.length))
          (bs.drop (block.second + block.length))

/-- The total length of the common blocks of two lists. Every division takes at least one character
out of the first list. -/
def commonLength (as bs : List Char) : Nat :=
  commonLengthWithin (as.length + 1) as bs

/-- How similar two words are, as the quotient of two numbers. -/
structure Similarity where
  shared : Nat
  total : Nat
  deriving Repr, DecidableEq

namespace Similarity

/-- The similarity of two words. -/
def ofWords (a b : String) : Similarity :=
  ⟨2 * commonLength a.toList b.toList, a.length + b.length⟩

/-- The similarity is so many tenths or more. Empty words are alike. -/
def reaches (tenths : Nat) (s : Similarity) : Bool := tenths * s.total ≤ 10 * s.shared

/-- The first quotient is less than the second. -/
def less (s t : Similarity) : Bool := s.shared * t.total < t.shared * s.total

end Similarity

/-- The word of the list that is most similar to `name`, if any reaches seven tenths. Of equally
similar words the last one in the order of the alphabet is taken. -/
def closestWord? (words : List String) (name : String) : Option String :=
  let close := (words.map fun word => (word, Similarity.ofWords word name)).filter
    (·.2.reaches 7)
  let best := close.foldl (fun (best : Option (String × Similarity)) entry =>
    match best with
    | none => some entry
    | some (word, similarity) =>
      if similarity.less entry.2 || (!entry.2.less similarity && word < entry.1) then some entry
      else best) none
  best.map Prod.fst

/-- The words of the list that reach six tenths of similarity to `name`, in the order of the
alphabet. -/
def similarWords (words : List String) (name : String) : List String :=
  (words.filter fun word => (Similarity.ofWords word name).reaches 6).mergeSort
    fun a b => decide (a ≤ b)

end PklSyntax
