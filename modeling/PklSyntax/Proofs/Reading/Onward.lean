import PklSyntax.Cursor.Documentation
import PklSyntax.Proofs.Reading.Trivia

/-!
# How a parse goes on

What is known of a state in the middle of a parse is where the last token ended. The state does not
record it; it is a number `c` that goes along with the state. The state *stands* behind `c`: either
the cursor is at `c` itself, or the trivia behind `c` have been skipped, and then the doc comment of
the run is the last one among them.

A parse goes *onward* from one state to another: the cursor does not move back, and nothing that was
recorded is lost. Either no token was read, or one was, and then the last token ends behind the
*front*, the first place at which a token could have begun.

## Main definitions

* `State.runDoc?`: the last doc comment of the trivia in front of the cursor.
* `State.pending`: the doc comment that a declaration at the cursor would take.
* `State.HasError`: an error has been recorded.
* `Stands`, `State.front`, `Poised`, `Onward`.

## Main statements

* `Onward.trans`: steps can be put together.
* `Onward.rewind`: going back to where a parse went onward from restores the state.
-/

namespace PklSyntax

variable {text : Array Char} {s s' t : State} {c c' d : Nat}

namespace State

/-- The last doc comment of the run of trivia that was skipped last. -/
def runDoc? (s : State) : Option DocComment :=
  if s.runStart < s.docs.size then s.docs[s.docs.size - 1]? else none

/-- The doc comment that a declaration at the cursor would take. -/
def pending (s : State) : Option DocComment := s.takeDoc.1

/-- An error has been recorded. -/
def HasError (s : State) : Prop := ∃ d ∈ s.diagnostics.toList, d.isError = true

/-- The first place at which the next token can begin, when the last one ended at `c`. -/
def front (text : Array Char) (s : State) (c : Nat) : Nat :=
  match s.mode with
  | .loose => skipEnd text c
  | .tight => s.pos

theorem HasError.mono (h : s.HasError)
    (hkept : s.diagnostics.toList <+: s'.diagnostics.toList) : s'.HasError := by
  obtain ⟨d, hd, herror⟩ := h
  exact ⟨d, hkept.subset hd, herror⟩

theorem pending_eq (s : State) :
    s.pending =
      if s.triviaEnd = some s.pos ∧ s.attached.contains (s.docs.size - 1) = false then s.runDoc?
      else none := by
  rw [pending, takeDoc, runDoc?]
  split
  · rename_i h
    dsimp only
    split
    · rename_i hattached
      rw [if_neg fun hcond => Bool.false_ne_true (hcond.2.symm.trans hattached)]
    · rename_i hattached
      rw [if_pos ⟨h.1, by simpa using hattached⟩, if_pos h.2]
  · rename_i h
    split
    · rename_i hcond
      rw [if_neg fun hrun => h ⟨hcond.1, hrun⟩]
    · rfl

theorem runDoc?_of_pending {doc : DocComment} (h : s.pending = some doc) :
    s.triviaEnd = some s.pos ∧ s.runDoc? = some doc := by
  rw [pending_eq] at h
  split at h
  · rename_i hcond
    exact ⟨hcond.1, h⟩
  · simp at h

end State

/-- The state is behind a token that ends at `c`: at its end, or behind the trivia that follow. -/
structure Stands (text : Array Char) (s : State) (c : Nat) : Prop where
  pos_le_size : s.pos ≤ text.size
  attached_lt : ∀ i ∈ s.attached, i < s.docs.size
  place : (s.pos = c ∧ ∀ e, s.triviaEnd = some e → e < c) ∨
    (s.triviaEnd = some s.pos ∧ s.pos = skipEnd text c ∧
      s.runDoc? = (docsFrom text c).getLast? ∧
      (AllClosed text c ∨ s.HasError))

/-- The cursor is where the next token can begin. -/
def Poised (text : Array Char) (s : State) (c : Nat) : Prop := s.front text c ≤ s.pos

namespace Stands

theorem le_pos (h : Stands text s c) : c ≤ s.pos := by
  rcases h.place with ⟨hpos, -⟩ | ⟨-, hpos, -⟩
  · exact Nat.le_of_eq hpos.symm
  · exact hpos ▸ le_skipEnd c

theorem pos_le_skipEnd (h : Stands text s c) : s.pos ≤ skipEnd text c := by
  rcases h.place with ⟨hpos, -⟩ | ⟨-, hpos, -⟩
  · exact hpos ▸ le_skipEnd c
  · exact Nat.le_of_eq hpos

theorem pos_le_front (h : Stands text s c) : s.pos ≤ s.front text c := by
  rw [State.front]
  split
  · exact h.pos_le_skipEnd
  · exact Nat.le_refl _

theorem le_size (h : Stands text s c) : c ≤ text.size := Nat.le_trans h.le_pos h.pos_le_size

theorem with_mode (h : Stands text s c) (mode : Mode) : Stands text { s with mode } c where
  pos_le_size := h.pos_le_size
  attached_lt := h.attached_lt
  place := h.place

/-- Where no trivia begin, the cursor is where the next token can begin. -/
theorem poised (h : Stands text s c) (hnone : triviaAt? text s.pos = none) : Poised text s c := by
  rw [Poised, State.front]
  split
  · rcases h.place with ⟨hpos, -⟩ | ⟨-, hpos, -⟩
    · exact Nat.le_of_eq (by rw [← hpos, skipEnd_of_none hnone])
    · exact Nat.le_of_eq hpos.symm
  · exact Nat.le_refl _

end Stands

theorem Poised.pos_eq_front (h : Poised text s c) (hs : Stands text s c) :
    s.pos = s.front text c :=
  Nat.le_antisymm hs.pos_le_front h

/-- A parse has gone from the state `s`, where the last token ended at `c`, to the state `s'`, where
the last token ended at `c'`. -/
structure Onward (text : Array Char) (s : State) (c : Nat) (s' : State) (c' : Nat) : Prop where
  start : Stands text s c
  stands : Stands text s' c'
  pos_le : s.pos ≤ s'.pos
  moved : c' = c ∨ s.front text c < c' ∨ c ≤ c' ∧ s'.HasError
  mode_eq : s'.mode = s.mode
  diagnostics : s.diagnostics.toList <+: s'.diagnostics.toList
  docs : s.docs.toList <+: s'.docs.toList

namespace Onward

theorem refl (h : Stands text s c) : Onward text s c s c :=
  ⟨h, h, Nat.le_refl _, .inl rfl, rfl, List.prefix_rfl, List.prefix_rfl⟩

theorem le (h : Onward text s c s' c') : c ≤ c' := by
  have := h.start.le_pos
  have := h.start.pos_le_front
  rcases h.moved with hc | hc | ⟨hc, -⟩ <;> omega

theorem hasError (h : Onward text s c s' c') (herror : s.HasError) : s'.HasError :=
  herror.mono h.diagnostics

/-- The front does not move back while no token is read. -/
theorem front_le (h : Onward text s c s' c) : s.front text c ≤ s'.front text c := by
  rw [State.front, State.front, h.mode_eq]
  split
  · exact Nat.le_refl _
  · exact h.pos_le

theorem trans (h : Onward text s c s' c') (h' : Onward text s' c' t d) :
    Onward text s c t d where
  start := h.start
  stands := h'.stands
  pos_le := Nat.le_trans h.pos_le h'.pos_le
  moved := by
    have hle := h'.le
    rcases h.moved with rfl | hlt | ⟨hle', herror⟩
    · rcases h'.moved with rfl | hlt' | hstuck
      · exact .inl rfl
      · exact .inr (.inl (Nat.lt_of_le_of_lt h.front_le hlt'))
      · exact .inr (.inr hstuck)
    · exact .inr (.inl (by omega))
    · exact .inr (.inr ⟨by omega, h'.hasError herror⟩)
  mode_eq := h'.mode_eq.trans h.mode_eq
  diagnostics := h.diagnostics.trans h'.diagnostics
  docs := h.docs.trans h'.docs

/-- Going back to where the parse went onward from restores the state. -/
theorem rewind (h : Onward text s c s' c') : s'.rewind s.checkpoint = s := by
  have hdiagnostics : s'.diagnostics.take s.diagnostics.size = s.diagnostics := by
    obtain ⟨rest, hrest⟩ := h.diagnostics
    apply Array.toList_inj.1
    rw [Array.take_eq_extract, Array.toList_extract, ← hrest, ← Array.length_toList]
    simp
  have hdocs : s'.docs.take s.docs.size = s.docs := by
    obtain ⟨rest, hrest⟩ := h.docs
    apply Array.toList_inj.1
    rw [Array.take_eq_extract, Array.toList_extract, ← hrest, ← Array.length_toList]
    simp
  simp only [State.rewind, State.checkpoint, hdiagnostics, hdocs, h.mode_eq]

end Onward

end PklSyntax
