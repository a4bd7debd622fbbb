import PklSyntax.Proofs.Moving.Round

/-!
# Loops over declarations in two texts

Two texts end with the same stretch, and in each of them a parse is between declarations, at places
that correspond to one another. Then the loops over the declarations come to the same: they read the
same declarations, and give up the same ones with the same errors. Where one is given up, both go on
at corresponding places, since only what stands behind its start is looked at for that.

## Main definitions

* `Overlap.Paired`: two parses between declarations at corresponding places.

## Main statements

* `Overlap.Paired.next`: one more declaration.
* `Overlap.Paired.loops`: the loops over the declarations.
-/

namespace PklSyntax

open PklSyntax.Parser

/-! ### Going on -/

namespace Between

variable {text : Array Char} {s t u : State} {c c' pos : Nat}

/-- What a declaration took does not stay taken when it is given up. -/
theorem release (h : Between text u c) (hkept : Kept text u t) (ht : Stands text t c')
    (hle : c ≤ c') :
    Between text { t with attached := u.attached } c' where
  stands :=
    { ht with
      attached_lt := fun i hi =>
        Nat.lt_of_lt_of_le (h.stands.attached_lt i hi) (by simpa using hkept.docs.length_le) }
  mode_eq := hkept.mode_eq.trans h.mode_eq
  attached := fun i hi => (h.attached i hi).mono (h.stands.attached_lt i hi) hkept.docs hle

/-- Going on at a place further on. -/
theorem at_pos (h : Between text s c) (hlt : s.pos < pos) (hsize : pos ≤ text.size) :
    Between text { s with pos } pos where
  stands := h.stands.at_pos hlt hsize
  mode_eq := h.mode_eq
  attached := fun i hi => (h.attached i hi).mono (h.stands.attached_lt i hi) List.prefix_rfl
    (Nat.le_of_lt (Nat.lt_of_le_of_lt h.stands.le_pos hlt))

/-- With an error on record nothing else of what is recorded has a bearing on where the parse is. -/
theorem with_diagnostics (h : Between text s c) {diagnostics : Array Diagnostic}
    (herror : State.HasError { s with diagnostics }) : Between text { s with diagnostics } c where
  stands :=
    { h.stands with
      place := h.stands.place.imp_right
        fun ⟨hend, hpos, hdoc, _⟩ => ⟨hend, hpos, hdoc, .inr herror⟩ }
  mode_eq := h.mode_eq
  attached := h.attached

end Between

namespace Overlap

variable {W : Overlap} {s t u v : State} {c pos i start n : Nat}

/-- Declarations go on at the same place. -/
theorem declarationRestart_place (hw : W.whole = true) (hlt : W.lo < i) :
    declarationRestart W.right.text (W.place i) = W.place (declarationRestart W.left.text i) := by
  have hbehind {i : Nat} (hlt : W.lo < i) : W.place i - 1 = W.place (i - 1) := by
    have := W.place_add (i := i - 1) (by omega) 1
    rw [show i - 1 + 1 = i by omega] at this
    omega
  have hchar {i : Nat} (hlt : W.lo < i) (hsize : i < W.left.text.size) :
      ∃ hsize' : W.place i < W.right.text.size, W.right.text[W.place i] = W.left.text[i] ∧
        charAt W.right.text (W.place i - 1) = charAt W.left.text (i - 1) := by
    have hsize' := (lt_size_place (Nat.le_of_lt hlt) (.inr hw)).2 hsize
    have heq := charAt_place (Nat.le_of_lt hlt) (.inr hw)
    rw [charAt_of_lt hsize, charAt_of_lt hsize'] at heq
    rw [hbehind hlt]
    exact ⟨hsize', heq, charAt_place (by omega) (.inr hw)⟩
  fun_induction declarationRestart W.left.text i with
  | case1 i hsize hbegins =>
    obtain ⟨hsize', heq, hbreak⟩ := hchar hlt hsize
    rw [declarationRestart, dif_pos hsize', heq, hbreak, if_pos hbegins]
  | case2 i hsize hbegins ih =>
    obtain ⟨hsize', heq, hbreak⟩ := hchar hlt hsize
    rw [declarationRestart, dif_pos hsize', heq, hbreak, if_neg hbegins,
      ← place_add (Nat.le_of_lt hlt)]
    exact ih (by omega)
  | case3 i hsize =>
    rw [declarationRestart, dif_neg fun hsize' =>
      hsize ((lt_size_place (Nat.le_of_lt hlt) (.inr hw)).1 hsize')]

theorem declarationResume_place (hw : W.whole = true) (hlo : W.lo ≤ start) (hle : start ≤ pos)
    (hlt : start < W.left.text.size) :
    declarationResume W.right.text (W.place start) (W.place pos) =
      W.place (declarationResume W.left.text start pos) := by
  have hsize : W.right.text.size = W.place W.left.text.size := (W.full hw).2.1
  rw [declarationResume, declarationResume]
  by_cases hpos : pos ≤ start
  · rw [if_pos (place_le (by omega) hpos), if_pos hpos, hsize, ← place_add (by omega),
      show min (W.place W.left.text.size) (W.place (pos + 1)) = W.place (pos + 1) from
        Nat.min_eq_right (place_le (by omega) (by omega)),
      Nat.min_eq_right (by omega)]
    exact declarationRestart_place hw (by omega)
  · rw [if_neg (Nat.not_le.2 (place_lt hlo (by omega))), if_neg hpos]
    exact declarationRestart_place hw (by omega)

/-! ### Side by side -/

/-- Two parses between declarations, at corresponding places of a whole stretch, with the same
errors on record. -/
structure Paired (W : Overlap) (s : State) (c : Nat) (t : State) : Prop where
  whole : W.whole = true
  lo_le : W.lo ≤ c
  left : Between W.left.text s c
  right : Between W.right.text t (W.place c)
  skipped : t.triviaEnd = some t.pos ↔ s.triviaEnd = some s.pos
  errors : t.errors = s.errors.map (Diagnostic.placed W.shift)

namespace Paired

theorem abreast (h : W.Paired s c t) : W.Abreast s c t :=
  .of_between h.lo_le h.left h.right h.skipped h.errors

theorem pos_eq (h : W.Paired s c t) : t.pos = W.place s.pos :=
  h.abreast.pos_eq h.lo_le h.left.stands (.inr h.whole)

theorem skipTrivia (h : W.Paired s c t) :
    W.Paired (s.skipTrivia W.left.text) c (t.skipTrivia W.right.text) where
  whole := h.whole
  lo_le := h.lo_le
  left := h.left.skipTrivia.1
  right := h.right.skipTrivia.1
  skipped := iff_of_true h.right.skipTrivia.2.2 h.left.skipTrivia.2.2
  errors := (h.abreast.skipTrivia h.lo_le h.left.stands h.left.mode_eq (.inl h.whole)).errors

/-- Behind what is given up both parses go on at corresponding places. -/
theorem resume (h : W.Paired s c t) (hlo : W.lo ≤ start) (hle : start ≤ s.pos)
    (hlt : start < W.left.text.size) :
    ∃ c', W.Paired { s with pos := declarationResume W.left.text start s.pos } c'
      { t with pos := declarationResume W.right.text (W.place start) t.pos } := by
  have hkept := (kept_declarationResume start s : Kept W.left.text _ _)
  have hpos := h.left.stands.pos_le_size
  have hpos_le := hkept.pos_le
  have hsize := hkept.pos_le_size hpos
  rw [h.pos_eq, declarationResume_place h.whole hlo hle hlt]
  generalize declarationResume W.left.text start s.pos = pos at hpos_le hsize
  simp only at hpos_le hsize
  rcases Nat.lt_or_eq_of_le (show s.pos ≤ pos by omega) with hlt' | rfl
  · have habreast := h.abreast.at_pos h.lo_le h.left.stands h.pos_eq hlt' hsize (.inr h.whole)
    have hlo' := Nat.le_trans h.lo_le h.left.stands.le_pos
    refine ⟨pos, h.whole, by omega, h.left.at_pos hlt' hsize, h.right.at_pos ?_ ?_,
      habreast.skipped, habreast.errors⟩
    · rw [h.pos_eq]
      exact place_lt hlo' hlt'
    · exact habreast.stands.pos_le_size
  · rw [← h.pos_eq]
    exact ⟨c, h⟩

/-- One more declaration is read, or given up, on both sides. -/
theorem next {progress progress₁ : Progress} (progress' : Progress) (h : W.Paired u c v)
    (hlt : u.pos < W.left.text.size)
    (hnext : nextDeclaration progress W.left u = .ok progress₁ s) :
    ∃ c₁ added t progress₁', nextDeclaration progress' W.right v = .ok progress₁' t ∧
      W.Paired s c₁ t ∧ progress₁.declarations.toList = progress.declarations.toList ++ added ∧
      progress₁'.declarations.toList =
        progress'.declarations.toList ++ added.map (Declaration.placed W.shift) := by
  have hlo : W.lo ≤ u.pos := Nat.le_trans h.lo_le h.left.stands.le_pos
  cases hcall : Grammar.full.declarationRule W.left u with
  | ok decl s₁ =>
    obtain ⟨ds, hds, hnext₁⟩ := nextDeclaration_of_read progress hcall
    rw [hnext] at hnext₁
    cases hnext₁
    obtain ⟨c₁, hread⟩ := Grammar.declarationRead h.left hcall
    obtain ⟨t₁, hcall', habreast, hread'⟩ := declaration_abreast h.lo_le h.left h.right h.abreast
      hcall hread.span_eq (.inl h.whole)
    obtain ⟨ds', hds', hnext'⟩ := nextDeclaration_of_read progress' hcall'
    have hpaired : W.Paired { s₁ with diagnostics := s₁.diagnostics ++ ds } c₁
        { t₁ with diagnostics := t₁.diagnostics ++ ds' } :=
      { whole := h.whole
        lo_le := Nat.le_trans h.lo_le hread.passes.onward.le
        left := (h.left.read hread).record ds
        right := (h.right.read hread').record ds'
        skipped := habreast.skipped
        errors := by rw [State.errors_record hds, State.errors_record hds', habreast.errors] }
    exact ⟨c₁, [decl], _, _, hnext', hpaired, by simp, by simp⟩
  | error stop s₁ =>
    have hmirror := (Grammar.mirrored_full W).declarationRule (b := true)
      (⟨h.lo_le, h.left.stands, h.left.mode_eq, h.right.mode_eq⟩ : W.Linked .loose u c v)
    rw [hcall] at hmirror
    obtain ⟨-, c₁, hpass, hright⟩ := hmirror
    obtain ⟨t₁, hcall', habreast⟩ := hright (fun _ => h.abreast) h.whole
    have hcall' : Grammar.full.declarationRule W.right v = .error stop t₁ := hcall'
    have hkept := (Grammar.grows_full W.left).declaration_of_error hcall
    have hkept' := (Grammar.grows_full W.right).declaration_of_error hcall'
    have hreleased := h.left.release hkept hpass.onward.stands hpass.onward.le
    have hreleased' := h.right.release hkept' habreast.stands (place_le h.lo_le hpass.onward.le)
    have hle : W.lo ≤ c₁ := Nat.le_trans h.lo_le hpass.onward.le
    cases stop with
    | failed =>
      rw [nextDeclaration_of_failed hcall] at hnext
      cases hnext
      have hpaired : W.Paired { s₁ with attached := u.attached } c₁
          { t₁ with attached := v.attached } :=
        ⟨h.whole, hle, hreleased, hreleased', habreast.skipped, habreast.errors⟩
      obtain ⟨c₂, hresumed⟩ := hpaired.resume hlo hpass.onward.pos_le hlt
      rw [← h.pos_eq] at hresumed
      exact ⟨c₂, [], _, _, nextDeclaration_of_failed hcall', hresumed, by simp, by simp⟩
    | tooDeep =>
      rw [nextDeclaration_of_tooDeep hcall hkept] at hnext
      cases hnext
      have hplaced : (Problem.nestingTooDeep.diagnostic (.ofNat u.pos (u.pos + 1))).placed W.shift =
          Problem.nestingTooDeep.diagnostic (.ofNat v.pos (v.pos + 1)) := by
        rw [← Problem.diagnostic_placed, ← ofNat_place hlo (by omega), place_add hlo, h.pos_eq]
        rfl
      have hpaired : W.Paired
          { s₁ with
            attached := u.attached
            diagnostics := u.diagnostics.push
              (Problem.nestingTooDeep.diagnostic (.ofNat u.pos (u.pos + 1))) } c₁
          { t₁ with
            attached := v.attached
            diagnostics := v.diagnostics.push
              (Problem.nestingTooDeep.diagnostic (.ofNat v.pos (v.pos + 1))) } :=
        { whole := h.whole
          lo_le := hle
          left := hreleased.with_diagnostics (State.hasError_push (s := u) rfl)
          right := hreleased'.with_diagnostics (State.hasError_push (s := v) rfl)
          skipped := habreast.skipped
          errors := by
            rw [← hplaced]
            exact (h.abreast.push _).errors }
      obtain ⟨c₂, hresumed⟩ := hpaired.resume hlo hpass.onward.pos_le hlt
      rw [← h.pos_eq] at hresumed
      exact ⟨c₂, [], _, _, nextDeclaration_of_tooDeep hcall' hkept', hresumed, by simp, by simp⟩
    | stalled =>
      rw [nextDeclaration_of_stalled hcall] at hnext
      cases hnext

/-- The loop over the declarations comes to the same in both texts, from states that are paired
behind the trivia at the cursors. The induction is on the rounds. -/
theorem loops {progress progress₁ progress' : Progress} {s₁ : State}
    (h : W.Paired (s.skipTrivia W.left.text) c (t.skipTrivia W.right.text))
    (hsize : t.pos ≤ W.right.text.size)
    (hrun : rounds declarationRound n progress W.left s = .ok progress₁ s₁) :
    Loops declarationRound W.right (fun progress₁' t₁ => ∃ added,
      progress₁.declarations.toList = progress.declarations.toList ++ added ∧
      progress₁'.declarations.toList =
        progress'.declarations.toList ++ added.map (Declaration.placed W.shift) ∧
      t₁.errors = s₁.errors.map (Diagnostic.placed W.shift)) progress' t := by
  induction n generalizing s t c progress progress' with
  | zero => cases hrun
  | succ n ih =>
    have hlo : W.lo ≤ (s.skipTrivia W.left.text).pos := Nat.le_trans h.lo_le h.left.stands.le_pos
    have hlimit := limitReached_eq h.whole h.abreast
    have hlt_iff := W.lt_size_place hlo (.inr h.whole)
    rw [← h.pos_eq] at hlt_iff
    rcases rounds_declarationRound_cases W.left rfl hrun with
      ⟨hdone, rfl, rfl⟩ | ⟨hlt, hgo, progress₂, s₂, hnext, hrest⟩
    · refine .stop (declarationRound_of_done rfl ?_) ⟨[], by simp, by simp, h.errors⟩
      rw [hlimit]
      exact hdone.imp_left fun hsize => Nat.not_lt.1 fun hlt => Nat.not_lt.2 hsize (hlt_iff.1 hlt)
    · obtain ⟨c₂, added, t₂, progress₂', hnext', hpaired, hadded, hadded'⟩ :=
        h.next progress' hlt hnext
      have hlt' := hlt_iff.2 hlt
      obtain ⟨result, t₁, hcall⟩ := exists_outcome Grammar.full.declarationRule W.right
        (t.skipTrivia W.right.text)
      have hmoved := (nextDeclaration_spec hlt' hcall hnext').lt
      have hskip := (Grown.skipTrivia t : Grown W.right.text _ _).pos_le
      refine .more (declarationRound_of_next rfl hlt' (hlimit.trans hgo) hnext') (by omega)
        hpaired.right.stands.pos_le_size ?_
      refine (ih hpaired.skipTrivia hpaired.right.stands.pos_le_size hrest).mono ?_
      rintro progress₃' t₃ ⟨more, hmore, hmore', herrors⟩
      exact ⟨added ++ more, by rw [hmore, hadded, List.append_assoc],
        by rw [hmore', hadded', List.map_append, List.append_assoc], herrors⟩

end Paired

end Overlap

end PklSyntax
