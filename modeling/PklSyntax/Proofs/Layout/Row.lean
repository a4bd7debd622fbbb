import PklSyntax.Proofs.Reading.Characters
import PklSyntax.Tree.Walk

/-!
# How the parts of a tree lie in the text

The children of a node lie within the span of the node and apart from one another, and those that
one field lists follow one another in the text. A tree in which this holds of every node, and in
which no node is empty, is *sound*.

Trees are found to be sound from the leaves up. What a production has read so far is a *row*: sound
trees, one behind the other, between two offsets. A node is sound when its children make up a row
within its span; where the children stand in the text in another order than in the fields, which is
so for doc comments and annotations, the row of the last fields comes first.

## Main definitions

* `Span.Before`, `Span.Apart`, `Span.Within`: how two spans lie to one another.
* `Node.Tidy`, `Node.Sound`: for one node, and for a whole tree.
* `Row`: sound trees one behind the other.
* `Placed`: a sound tree that ends at an offset at which a token ends.

## Main statements

* `Node.tidy_of_rows`, `Node.sound_of_row`: a node whose children make up a row is in order.
-/

namespace PklSyntax

namespace Span

/-- The span ends where the other begins, or before. -/
def Before (a b : Span) : Prop := a.stop ≤ b.start

/-- The spans have no offset in common. -/
def Apart (a b : Span) : Prop := a.Before b ∨ b.Before a

/-- The span lies in the other. -/
def Within (a b : Span) : Prop := b.start ≤ a.start ∧ a.stop ≤ b.stop

theorem Apart.symm {a b : Span} (h : a.Apart b) : b.Apart a := Or.symm h

/-- The least span around two spans of which one lies behind the other. -/
theorem cover_eq {a b : Span} (hstart : a.start ≤ b.start) (hstop : a.stop ≤ b.stop) :
    a.cover b = ⟨a.start, b.stop⟩ := by
  rw [cover, Int.min_eq_left hstart, Int.max_eq_right hstop]

end Span

/-- The nodes that some fields hold, in order. -/
def nodesOf (fields : List Field) : List Node :=
  fields.flatMap fun field => field.value.children

namespace Node

/-- The children of the node lie within it and apart from one another, and those that one field
lists follow one another. -/
structure Tidy (n : Node) : Prop where
  within : ∀ child ∈ n.children, child.span.Within n.span
  apart : n.children.Pairwise fun a b => a.span.Apart b.span
  listed : ∀ field ∈ n.fields, field.value.children.Pairwise fun a b => a.span.Before b.span

/-- No node of the tree is empty, and every node is tidy. -/
def Sound (n : Node) : Prop := ∀ m ∈ n.walk, m.span.start < m.span.stop ∧ m.Tidy

theorem sound_iff (n : Node) :
    n.Sound ↔ n.span.start < n.span.stop ∧ n.Tidy ∧ ∀ child ∈ n.children, child.Sound := by
  rw [Sound, forall_mem_walk_iff, and_assoc]
  exact Iff.rfl

namespace Sound

variable {n m : Node}

theorem start_lt_stop (h : n.Sound) : n.span.start < n.span.stop := ((sound_iff n).1 h).1

theorem tidy (h : n.Sound) : n.Tidy := ((sound_iff n).1 h).2.1

theorem child (h : n.Sound) (hm : m ∈ n.children) : m.Sound := ((sound_iff n).1 h).2.2 m hm

/-- A node with the same fields and a wider span. -/
theorem widen (h : n.Sound) (hfields : m.fields = n.fields) (hstart : m.span.start ≤ n.span.start)
    (hstop : n.span.stop ≤ m.span.stop) : m.Sound := by
  have hchildren : m.children = n.children := by rw [children, hfields, children]
  have hlt := h.start_lt_stop
  obtain ⟨hwithin, hapart, hlisted⟩ := h.tidy
  refine (sound_iff m).2 ⟨by omega, ⟨fun child hchild => ?_, hchildren ▸ hapart, hfields ▸ hlisted⟩,
    fun child hchild => h.child (hchildren ▸ hchild)⟩
  obtain ⟨hlo, hhi⟩ := hwithin child (hchildren ▸ hchild)
  exact ⟨by omega, by omega⟩

end Sound

end Node

/-- Sound trees that lie one behind the other between two offsets. -/
inductive Row : Int → List Node → Int → Prop
  | nil {lo hi : Int} (h : lo ≤ hi) : Row lo [] hi
  | cons {lo hi : Int} {n : Node} {ns : List Node} (hstart : lo ≤ n.span.start) (hsound : n.Sound)
      (rest : Row n.span.stop ns hi) : Row lo (n :: ns) hi

namespace Row

variable {lo mid hi lo' hi' : Int} {ns ms : List Node} {n : Node}

theorem le (h : Row lo ns hi) : lo ≤ hi := by
  induction h with
  | nil h => exact h
  | cons hstart hsound _ ih =>
    have := hsound.start_lt_stop
    omega

theorem mono (h : Row lo ns hi) (hlo : lo' ≤ lo) (hhi : hi ≤ hi') : Row lo' ns hi' := by
  induction h generalizing lo' with
  | nil h => exact .nil (by omega)
  | cons hstart hsound _ ih => exact .cons (by omega) hsound (ih (Int.le_refl _) hhi)

theorem append (h : Row lo ns mid) (h' : Row mid ms hi) : Row lo (ns ++ ms) hi := by
  induction h with
  | nil hle => exact h'.mono hle (Int.le_refl _)
  | cons hstart hsound _ ih => exact .cons hstart hsound (ih h')

theorem within (h : Row lo ns hi) (hn : n ∈ ns) : lo ≤ n.span.start ∧ n.span.stop ≤ hi := by
  induction h with
  | nil => simp at hn
  | cons hstart hsound hrest ih =>
    have := hrest.le
    have := hsound.start_lt_stop
    rcases List.mem_cons.1 hn with rfl | hn
    · omega
    · have := ih hn
      omega

theorem sound (h : Row lo ns hi) (hn : n ∈ ns) : n.Sound := by
  induction h with
  | nil => simp at hn
  | cons hstart hsound hrest ih =>
    rcases List.mem_cons.1 hn with rfl | hn
    · exact hsound
    · exact ih hn

theorem of_pairwise (hle : lo ≤ hi)
    (hns : ∀ n ∈ ns, n.Sound ∧ lo ≤ n.span.start ∧ n.span.stop ≤ hi)
    (hpair : ns.Pairwise fun a b => a.span.Before b.span) : Row lo ns hi := by
  induction hpair generalizing lo with
  | nil => exact .nil hle
  | cons hbefore _ ih =>
    obtain ⟨hsound, hlo, hhi⟩ := hns _ List.mem_cons_self
    refine .cons hlo hsound (ih hhi fun m hm => ?_)
    obtain ⟨hsound', -, hhi'⟩ := hns m (List.mem_cons_of_mem _ hm)
    exact ⟨hsound', hbefore m hm, hhi'⟩

theorem pairwise (h : Row lo ns hi) : ns.Pairwise fun a b => a.span.Before b.span := by
  induction h with
  | nil => exact .nil
  | cons hstart hsound hrest ih => exact .cons (fun b hb => (hrest.within hb).1) ih

end Row

namespace Node

variable {lo mid hi : Int} {n : Node}

theorem nodesOf_sublist {fields : List Field} {field : Field} (h : field ∈ fields) :
    field.value.children.Sublist (nodesOf fields) := by
  obtain ⟨before, after, rfl⟩ := List.append_of_mem h
  rw [nodesOf, List.flatMap_append, List.flatMap_cons]
  exact (List.sublist_append_left _ _).trans (List.sublist_append_right _ _)

/-- A node is tidy when its children make up a row within it, those of its last fields in front of
the others. -/
theorem tidy_of_rows {first last : List Field} (hfields : n.fields = first ++ last)
    (hlast : Row lo (nodesOf last) mid) (hfirst : Row mid (nodesOf first) hi)
    (hlo : n.span.start ≤ lo) (hhi : hi ≤ n.span.stop) : n.Tidy := by
  have hrow := hlast.append hfirst
  have hchildren : n.children = nodesOf first ++ nodesOf last := by
    rw [children, hfields, List.flatMap_append]
    rfl
  have hperm : n.children.Perm (nodesOf last ++ nodesOf first) :=
    hchildren ▸ List.perm_append_comm
  refine ⟨fun child hchild => ?_, ?_, fun field hfield => ?_⟩
  · have := hrow.within (hperm.mem_iff.1 hchild)
    exact ⟨by omega, by omega⟩
  · rw [hperm.pairwise_iff Span.Apart.symm]
    exact hrow.pairwise.imp Or.inl
  · refine hrow.pairwise.sublist ?_
    rw [hfields] at hfield
    rcases List.mem_append.1 hfield with hmem | hmem
    · exact (nodesOf_sublist hmem).trans (List.sublist_append_right _ _)
    · exact (nodesOf_sublist hmem).trans (List.sublist_append_left _ _)

theorem sound_of_rows {first last : List Field} (hfields : n.fields = first ++ last)
    (hlast : Row lo (nodesOf last) mid) (hfirst : Row mid (nodesOf first) hi)
    (hlo : n.span.start ≤ lo) (hhi : hi ≤ n.span.stop) (hlt : n.span.start < n.span.stop) :
    n.Sound := by
  refine (sound_iff n).2 ⟨hlt, tidy_of_rows hfields hlast hfirst hlo hhi, fun child hchild => ?_⟩
  rw [children, hfields, List.flatMap_append] at hchild
  rcases List.mem_append.1 hchild with hmem | hmem
  · exact hfirst.sound hmem
  · exact hlast.sound hmem

theorem sound_of_row (hrow : Row lo n.children hi) (hlo : n.span.start ≤ lo)
    (hhi : hi ≤ n.span.stop) (hlt : n.span.start < n.span.stop) : n.Sound :=
  sound_of_rows (List.append_nil _).symm (.nil (Int.le_refl lo)) hrow hlo hhi hlt

theorem sound_leaf (hchildren : n.children = []) (hlt : n.span.start < n.span.stop) : n.Sound :=
  sound_of_row (hchildren ▸ .nil (Int.le_refl n.span.start)) (Int.le_refl _) (Int.le_of_lt hlt) hlt

end Node

/-- The tree lies behind `lo`, is sound, and ends at `hi`, where a token ends. -/
structure Placed (text : Array Char) (lo : Int) (n : Node) (hi : Nat) : Prop where
  le_start : lo ≤ n.span.start
  stop_eq : n.span.stop = hi
  sound : n.Sound
  tokenEnd : TokenEnd text hi

namespace Placed

variable {text : Array Char} {lo lo' mid : Int} {hi : Nat} {n : Node} {ns : List Node}

theorem mono (h : Placed text lo n hi) (hlo : lo' ≤ lo) : Placed text lo' n hi where
  le_start := Int.le_trans hlo h.le_start
  stop_eq := h.stop_eq
  sound := h.sound
  tokenEnd := h.tokenEnd

theorem lt (h : Placed text lo n hi) : lo < hi := by
  have := h.le_start
  have := h.stop_eq
  have := h.sound.start_lt_stop
  omega

theorem row (h : Placed text lo n hi) : Row lo [n] hi :=
  .cons h.le_start h.sound (.nil (Int.le_of_eq h.stop_eq))

/-- A tree in front of a row. -/
theorem cons (h : Placed text lo n hi) (hrest : Row hi ns mid) : Row lo (n :: ns) mid :=
  .cons h.le_start h.sound (hrest.mono (Int.le_of_eq h.stop_eq) (Int.le_refl _))

/-- A tree whose children make up a row. -/
theorem of_row (start lo' hi' : Int) (hspan : n.span = ⟨start, hi⟩) (hrow : Row lo' n.children hi')
    (hlo : start ≤ lo') (hhi : hi' ≤ hi) (hlt : start < hi) (hend : TokenEnd text hi) :
    Placed text start n hi where
  le_start := Int.le_of_eq (by rw [hspan])
  stop_eq := by rw [hspan]
  sound := Node.sound_of_row hrow (by rw [hspan]; exact hlo) (by rw [hspan]; exact hhi)
    (by rw [hspan]; exact hlt)
  tokenEnd := hend

/-- A tree with the same fields and the same span. -/
theorem recast {m : Node} (h : Placed text lo n hi) (hfields : m.fields = n.fields)
    (hspan : m.span = n.span) : Placed text lo m hi where
  le_start := hspan ▸ h.le_start
  stop_eq := hspan ▸ h.stop_eq
  sound := h.sound.widen hfields (Int.le_of_eq (by rw [hspan])) (Int.le_of_eq (by rw [hspan]))
  tokenEnd := h.tokenEnd

end Placed

/-- A tree behind a row. -/
theorem Row.snoc {text : Array Char} {lo mid lo' : Int} {hi : Nat} {n : Node} {ns : List Node}
    (h : Row lo ns mid) (hn : Placed text lo' n hi) (hle : mid ≤ lo') : Row lo (ns ++ [n]) hi :=
  h.append (hn.mono hle).row

/-- A tree behind the row of the trees in an array. -/
theorem Row.push {α : Type} {text : Array Char} {lo mid lo' : Int} {hi : Nat} {node : α → Node}
    {as : Array α} {a : α} (h : Row lo (as.toList.map node) mid) (ha : Placed text lo' (node a) hi)
    (hle : mid ≤ lo') : Row lo ((as.push a).toList.map node) hi := by
  rw [Array.toList_push, List.map_append]
  exact h.snoc ha hle

/-- Trees in an array, of which the last one ends at `hi`. -/
structure Series {α : Type} (text : Array Char) (lo : Int) (node : α → Node) (first : α)
    (as : Array α) (hi : Nat) : Prop where
  row : Row lo (as.toList.map node) hi
  head_eq : as.toList.head? = some first
  stop_eq : (node (as.back?.getD first)).span.stop = hi
  tokenEnd : TokenEnd text hi

namespace Series

variable {α : Type} {text : Array Char} {lo lo' : Int} {hi hi' : Nat} {node : α → Node}
  {first a : α} {as : Array α}

theorem singleton (h : Placed text lo (node first) hi) : Series text lo node first #[first] hi :=
  ⟨h.row, rfl, h.stop_eq, h.tokenEnd⟩

theorem push (h : Series text lo node first as hi) (ha : Placed text lo' (node a) hi')
    (hle : hi ≤ lo') : Series text lo node first (as.push a) hi' where
  row := h.row.push ha hle
  head_eq := by rw [Array.toList_push, List.head?_append, h.head_eq]; rfl
  stop_eq := by rw [Array.back?_push]; exact ha.stop_eq
  tokenEnd := ha.tokenEnd

theorem toList_eq (h : Series text lo node first as hi) : as.toList = first :: as.toList.drop 1 := by
  have := h.head_eq
  cases hlist : as.toList with
  | nil => simp [hlist] at this
  | cons b rest =>
    rw [hlist] at this
    cases this
    rfl

/-- The row begins with its first tree. -/
theorem row_first (h : Series text lo node first as hi) :
    Row (node first).span.start (as.toList.map node) hi := by
  have hrow := h.row
  rw [h.toList_eq] at hrow ⊢
  cases hrow with
  | cons _ hsound hrest => exact .cons (Int.le_refl _) hsound hrest

theorem le_start (h : Series text lo node first as hi) : lo ≤ (node first).span.start := by
  have hrow := h.row
  rw [h.toList_eq] at hrow
  cases hrow with
  | cons hlo _ _ => exact hlo

theorem lt (h : Series text lo node first as hi) : (node first).span.start < hi := by
  have hrow := h.row
  rw [h.toList_eq] at hrow
  cases hrow with
  | cons _ hsound hrest =>
    have := hsound.start_lt_stop
    have := hrest.le
    omega

end Series

/-- A tree that may be missing: what was read behind `stop` is the tree, or nothing. -/
structure Tail {α : Type} (text : Array Char) (stop : Nat) (node : α → Node) (o : Option α)
    (hi : Nat) : Prop where
  row : Row stop (o.toList.map node) hi
  stop_eq : (o.map fun a => (node a).span).elim (stop : Int) Span.stop = hi
  tokenEnd : TokenEnd text stop → TokenEnd text hi

namespace Tail

variable {α : Type} {text : Array Char} {stop hi : Nat} {node : α → Node} {o : Option α} {a : α}
  {lo : Int}

theorem none : Tail text stop node (none : Option α) stop :=
  ⟨.nil (Int.le_refl _), rfl, id⟩

theorem some (h : Placed text lo (node a) hi) (hle : stop ≤ lo) :
    Tail text stop node (some a) hi :=
  ⟨h.row.mono hle (Int.le_refl _), h.stop_eq, fun _ => h.tokenEnd⟩

theorem le (h : Tail text stop node o hi) : stop ≤ hi := Int.ofNat_le.1 h.row.le

end Tail

end PklSyntax
