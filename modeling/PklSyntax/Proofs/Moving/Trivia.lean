import PklSyntax.Proofs.Moving.Overlap

/-!
# Trivia in texts that agree on a stretch

Trivia that lie in the stretch are the same items in both texts, each with its offsets moved. What
is looked at to find an item does not reach over the end of the stretch, since a token ends there.

## Main statements

* `Overlap.triviaAt?_place`, `Overlap.triviaAt?_place_none`: one item.
* `Overlap.skipEnd_place`, `Overlap.docsFrom_place`: all items from an offset on.
-/

namespace PklSyntax

namespace Overlap

variable {W : Overlap} {i : Nat}

theorem findFrom?_place {word : String} (hglued : glued word.toList = true) (h : W.lo ≤ i)
    (hi : ∀ j, findFrom? W.left.text word i = some j → W.Inside j)
    (hnone : findFrom? W.left.text word i = none → W.whole = true) :
    findFrom? W.right.text word (W.place i) =
      (findFrom? W.left.text word i).map W.place := by
  fun_induction findFrom? W.left.text word i with
  | case1 i hmatch =>
    rw [findFrom?, matchesAt_place hglued h (hi i rfl), if_pos hmatch]
    rfl
  | case2 i hmatch hsize ih =>
    have hin : W.Inside i := by
      cases hfind : findFrom? W.left.text word (i + 1) with
      | none => exact .inr (hnone hfind)
      | some j =>
        have := (findFrom?_eq_some hfind).1
        exact (hi j hfind).imp_left fun _ => by omega
    rw [findFrom?, matchesAt_place hglued h hin, if_neg hmatch,
      if_pos ((lt_size_place h hin).2 hsize), ← place_add h]
    exact ih (by omega) hi hnone
  | case3 i hmatch hsize =>
    have hin : W.Inside i := .inr (hnone rfl)
    rw [findFrom?, matchesAt_place hglued h hin, if_neg hmatch,
      if_neg fun hlt => hsize ((lt_size_place h hin).1 hlt)]
    rfl

theorem not_isIndent_of_endsToken (c : Char) (h : endsToken c = true) : isIndent c = false := by
  rw [← Bool.not_eq_true]
  intro hindent
  simp only [isIndent, Bool.or_eq_true, beq_iff_eq] at hindent
  rcases hindent with rfl | rfl
  all_goals exact absurd h (by decide)

/-- A block of documentation is found in the right text as in the left one. -/
theorem docBlockFrom_place (h : W.lo ≤ i) (hi : W.Inside (docBlockFrom W.left.text i).2) :
    docBlockFrom W.right.text (W.place i) =
      ((docBlockFrom W.left.text i).1, W.place (docBlockFrom W.left.text i).2) := by
  fun_induction docBlockFrom W.left.text i with
  | case1 i stop line next hnext lines last hlast ih =>
    rw [Bool.and_eq_true, decide_eq_true_eq] at hnext
    have hle : i ≤ stop := le_skipWhile W.left.text isInLine i
    have hle' : stop + 1 ≤ next := le_skipWhile W.left.text isIndent (stop + 1)
    have hlt := (docBlockFrom_spec hnext.2).1
    rw [hlast] at hlt ih
    have hinside : ∀ j, j ≤ next → W.Inside j := fun j hj => hi.imp_left fun hi => by
      simp only at hi hlt
      omega
    have hstop : skipWhile W.right.text isInLine (W.place i) = W.place stop :=
      skipWhile_place h (.inl (hinside _ (by omega)))
    have hplace : skipWhile W.right.text isIndent (W.place stop + 1) = W.place next := by
      rw [← place_add (by omega)]
      exact skipWhile_place (by omega) (.inl (hinside _ (Nat.le_refl _)))
    rw [docBlockFrom]
    simp only [hstop, hplace]
    rw [if_pos, ih (by omega) hi, ← place_add h,
      extract_place (by omega) (by omega) ((hinside stop (by omega)).imp_left Nat.le_of_lt)]
    rw [Bool.and_eq_true, decide_eq_true_eq, lt_size_place (by omega) (hinside _ (by omega)),
      matchesAt_place (by decide) (by omega) (hinside _ (Nat.le_refl _))]
    exact hnext
  | case2 i stop line next hnext =>
    have hle : i ≤ stop := le_skipWhile W.left.text isInLine i
    have hle' : stop + 1 ≤ next := le_skipWhile W.left.text isIndent (stop + 1)
    have hstop : skipWhile W.right.text isInLine (W.place i) = W.place stop :=
      skipWhile_place h (.inl hi)
    rw [docBlockFrom]
    simp only [hstop]
    rw [if_neg, ← place_add h, extract_place (by omega) (by omega) (hi.imp_left Nat.le_of_lt)]
    rw [Bool.and_eq_true, decide_eq_true_eq, lt_size_place (by omega) hi]
    rintro ⟨hsize, hmatch⟩
    -- The line break at the end of the line does not end the stretch.
    have hin : W.Inside (stop + 1) := by
      rcases Bool.eq_false_or_eq_true W.whole with hw | hw
      · exact .inr hw
      · have hlt : stop < W.stop := hi.resolve_right (by simp [hw])
        refine .inl (Nat.lt_of_le_of_ne hlt fun heq => ?_)
        have hbreak := (@skipWhile_spec W.left.text i isInLine).2 hsize
        have hend := (W.cut hw).2.1.tokenEnd.endsToken
        rw [← heq, Nat.add_sub_cancel] at hend
        have hbreak : charAt W.left.text stop = '\n' := by simpa [isInLine] using hbreak
        rw [hbreak] at hend
        exact absurd hend (by decide)
    have hin' := inside_skipWhile hin not_isIndent_of_endsToken
    rw [← place_add (by omega), skipWhile_place (by omega) (.inl hin'),
      matchesAt_place (by decide) (by omega) hin'] at hmatch
    exact hnext (by rw [Bool.and_eq_true, decide_eq_true_eq]; exact ⟨hsize, hmatch⟩)

end Overlap

/-- The item of trivia with all its offsets moved. -/
def Trivia.moved (P : Placement) : Trivia → Trivia
  | blanks stop => blanks (move P stop)
  | lineComment stop => lineComment (move P stop)
  | docBlock doc stop => docBlock (doc.placed P) (move P stop)
  | blockComment stop => blockComment (move P stop)
  | unclosedComment start stop => unclosedComment (move P start) (move P stop)

theorem Trivia.stop_moved {P : Placement} (item : Trivia) :
    (item.moved P).stop = move P item.stop := by
  cases item <;> rfl

theorem Trivia.doc?_moved {P : Placement} (item : Trivia) :
    (item.moved P).doc? = item.doc?.map (DocComment.placed P) := by
  cases item <;> rfl

namespace Overlap

variable {W : Overlap} {i : Nat}

theorem ofNat_place {j : Nat} (hi : W.lo ≤ i) (hj : W.lo ≤ j) :
    Span.ofNat (W.place i) (W.place j) = W.shift.span (Span.ofNat i j) := by
  rw [Span.ofNat, cast_place hi, cast_place hj]
  rfl

/-- Where the left text has an item of trivia in the stretch, the right text has the same item. -/
theorem triviaAt?_place {item : Trivia} (h : W.lo ≤ i) (hitem : triviaAt? W.left.text i = some item)
    (hi : W.Inside item.stop) :
    triviaAt? W.right.text (W.place i) = some (item.moved W.shift) := by
  obtain ⟨hlt, hle, -⟩ := triviaAt?_spec hitem
  have hin : W.Inside i := hi.imp_left fun _ => by omega
  rw [triviaAt?, charAt_place h hin, matchesAt_place (by decide) h hin,
    matchesAt_place (by decide) h hin, matchesAt_place (by decide) h hin]
  rw [triviaAt?] at hitem
  split at hitem
  next hsize =>
    rw [if_pos ((lt_size_place h hin).2 hsize)]
    split at hitem
    next hblank =>
      cases hitem
      rw [if_pos hblank, skipWhile_place h (.inl hi)]
      rfl
    next hblank =>
      rw [if_neg hblank]
      split at hitem
      next hdoc =>
        cases hitem
        rw [if_pos hdoc, docBlockFrom_place h hi]
        have hle := (docBlockFrom_spec hdoc).1
        simp only [ofNat_place h (show W.lo ≤ (docBlockFrom W.left.text i).2 by omega)]
        rfl
      next hdoc =>
        rw [if_neg hdoc]
        split at hitem
        next hline =>
          cases hitem
          rw [if_pos hline, skipWhile_place h (.inl hi)]
          rfl
        next hline =>
          rw [if_neg hline]
          split at hitem
          next hopen =>
            rw [if_pos hopen, ← place_add h]
            have hclose := @findFrom?_place W (i + 2) "*/" (by decide) (by omega)
            cases hfind : findFrom? W.left.text "*/" (i + 2) with
            | some close =>
              rw [hfind] at hitem hclose
              cases hitem
              have hle' := (findFrom?_eq_some hfind).1
              have hinside : W.Inside close :=
                hi.imp_left fun (_ : close + 2 < W.stop) => by omega
              rw [hclose (fun j hj => by cases hj; exact hinside) (fun h => by cases h),
                Option.map_some]
              show some (Trivia.blockComment (W.place close + 2)) = _
              rw [← place_add (by omega)]
              rfl
            | none =>
              rw [hfind] at hitem hclose
              cases hitem
              -- Only in a whole stretch can a comment be left open.
              have hw : W.whole = true := by
                rcases hi with hlt | hw
                · rw [← Bool.not_eq_false]
                  intro hw
                  exact absurd hlt (Nat.not_lt.2 (W.cut hw).1)
                · exact hw
              rw [hclose (fun j hj => by cases hj) fun _ => hw, Option.map_none]
              show some (Trivia.unclosedComment (W.place i) W.right.text.size) = _
              rw [(W.full hw).2.1]
              rfl
          next => simp at hitem
  next => simp at hitem

/-- Where no trivia begin in the stretch of the left text, none begin in the right text. -/
theorem triviaAt?_place_none (h : W.lo ≤ i) (hi : W.Inside i)
    (hnone : triviaAt? W.left.text i = none) : triviaAt? W.right.text (W.place i) = none := by
  rw [triviaAt?] at hnone ⊢
  split at hnone
  next hsize =>
    rw [if_pos ((lt_size_place h hi).2 hsize), charAt_place h hi, matchesAt_place (by decide) h hi,
      matchesAt_place (by decide) h hi, matchesAt_place (by decide) h hi]
    split at hnone
    next => simp at hnone
    next hblank =>
      rw [if_neg hblank]
      split at hnone
      next => simp at hnone
      next hdoc =>
        rw [if_neg hdoc]
        split at hnone
        next => simp at hnone
        next hline =>
          rw [if_neg hline]
          split at hnone
          next =>
            split at hnone <;> simp at hnone
          next hopen => rw [if_neg hopen]
  next hsize => rw [if_neg fun hlt => hsize ((lt_size_place h hi).1 hlt)]

/-- The trivia of the stretch are the same in both texts. -/
theorem triviaFrom_place (h : W.lo ≤ i) (hi : W.Inside (skipEnd W.left.text i)) :
    triviaFrom W.right.text (W.place i) =
      ((triviaFrom W.left.text i).1.map (Trivia.moved W.shift),
        W.place (skipEnd W.left.text i)) := by
  induction i using trivia_induction W.left.text with
  | stop i hnone =>
    rw [skipEnd_of_none hnone] at hi ⊢
    rw [triviaFrom_of_none hnone, triviaFrom_of_none (triviaAt?_place_none h hi hnone)]
    rfl
  | item i item hitem ih =>
    have hlt := (triviaAt?_spec hitem).1
    have hle := @le_skipEnd W.left.text item.stop
    rw [skipEnd_of_some hitem] at hi ⊢
    have hitem' := triviaAt?_place h hitem (hi.imp_left fun _ => by omega)
    rw [triviaFrom_of_some hitem, triviaFrom_of_some hitem', Trivia.stop_moved]
    rw [show move W.shift item.stop = W.place item.stop from rfl, ih (by omega) hi]
    rfl

theorem skipEnd_place (h : W.lo ≤ i) (hi : W.Inside (skipEnd W.left.text i)) :
    skipEnd W.right.text (W.place i) = W.place (skipEnd W.left.text i) := by
  rw [skipEnd, triviaFrom_place h hi]

theorem docsFrom_place (h : W.lo ≤ i) (hi : W.Inside (skipEnd W.left.text i)) :
    docsFrom W.right.text (W.place i) =
      (docsFrom W.left.text i).map (DocComment.placed W.shift) := by
  rw [docsFrom, triviaFrom_place h hi, docsFrom, List.filterMap_map, List.map_filterMap]
  exact List.filterMap_congr fun item _ => item.doc?_moved

/-- The comments that are left open are the same in both texts. -/
theorem diagnosticsFrom_place (h : W.lo ≤ i) (hi : W.Inside (skipEnd W.left.text i)) :
    (triviaFrom W.right.text (W.place i)).1.filterMap Trivia.diagnostic? =
      ((triviaFrom W.left.text i).1.filterMap Trivia.diagnostic?).map
        (Diagnostic.placed W.shift) := by
  induction i using trivia_induction W.left.text with
  | stop i hnone =>
    rw [skipEnd_of_none hnone] at hi
    rw [triviaFrom_of_none hnone, triviaFrom_of_none (triviaAt?_place_none h hi hnone)]
    rfl
  | item i item hitem ih =>
    have hlt := (triviaAt?_spec hitem).1
    have hle := @le_skipEnd W.left.text item.stop
    rw [skipEnd_of_some hitem] at hi
    have hitem' := triviaAt?_place h hitem (hi.imp_left fun _ => by omega)
    have ih := ih (by omega) hi
    rw [triviaFrom_of_some hitem, triviaFrom_of_some hitem', Trivia.stop_moved]
    rw [show move W.shift item.stop = W.place item.stop from rfl]
    cases item with
    | unclosedComment start stop =>
      obtain ⟨rfl, -, -⟩ := triviaAt?_unclosedComment hitem
      have hspan := ofNat_place (W := W) (i := start) (j := start + 2) h (by omega)
      simp only [List.filterMap_cons, Trivia.moved, Trivia.diagnostic?, ih, List.map_cons]
      rw [← Problem.diagnostic_placed, ← hspan, place_add h]
      rfl
    | _ => exact ih

end Overlap

end PklSyntax
