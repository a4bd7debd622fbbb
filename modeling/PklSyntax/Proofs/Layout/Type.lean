import PklSyntax.Grammar.Type
import PklSyntax.Proofs.Layout.Literal

/-!
# How types lie in the text

A type in parentheses takes the parentheses into its span, and a name takes in an empty list of
arguments; either way the span of a tree becomes wider and nothing else of it changes. When a union
in parentheses is dissolved in another one, its members lie where it lay.

## Main statements

* `Grammar.Places.string`, `Grammar.Places.sourceString`: strings of a grammar.
* `Grammar.Places.typeAtom`, `Grammar.Places.typeSegment`: the parts of types.
* `Grammar.Places.typeRule`: a type is placed when what stands inside it is.
-/

namespace PklSyntax

namespace Grammar

open PklSyntax.Parser

variable {g : Grammar} {ctx : Context} {s : State} {c : Nat}

/-! ### Strings of a grammar -/

theorem Places.string (hg : g.Places ctx) (hstring : stringAt ctx.text s.pos = true) :
    g.string.Yields ctx s c fun literal _ c' => Placed ctx.text s.pos (.string literal) c' :=
  .look theOptions_looks (stringLiteral_yields hg.expr hstring)

theorem Places.sourceString (hg : g.Places ctx) {keyword : String} :
    (g.sourceString keyword).Yields ctx s c fun literal _ c' =>
      Placed ctx.text s.pos (.string literal) c' := by
  refine skip_yields.bind fun _ s₁ c₁ h₁ _ => .look atString_looks ?_
  have hle := h₁.pos_le
  refine .guard (fun _ => failExpected_yields) fun hstring =>
    (hg.string (by simpa using hstring)).bind fun literal s₂ c₂ _ hliteral => ?_
  exact .guard (fun _ => failWith_yields rfl) fun _ => .pure (hliteral.mono (by omega))

/-! ### Arguments and parentheses -/

/-- The arguments behind a name. -/
theorem Places.typeArguments (hg : g.Places ctx) {base : NamedType} {lo : Int}
    (hbase : Placed ctx.text lo (.namedType base) c) (hopen : charAt ctx.text s.pos = '<') :
    (g.typeArguments base).Yields ctx s c fun type s' c' =>
      Placed ctx.text lo (.type type) c' ∧ s'.pos = c' := by
  refine .of_stands fun hs => ?_
  have hpos := hs.le_pos
  have hlt := hbase.sound.start_lt_stop
  have hstop : base.span.stop = c := hbase.stop_eq
  refine .bind (P := fun _ s' _ => s.pos ≤ s'.pos)
    (.look position_looks ((advance_sign (by rw [hopen]; decide)).bind
      fun _ s₁ c₁ h₁ _ => .value (spanFrom_looks _) h₁.pos_le))
    fun opening s₁ c₁ _ hle₁ => ?_
  refine (commaList_yields hg.type).bind fun args s₂ c₂ h₂ hargs =>
    (expect_yields (by decide)).bind fun close s₃ c₃ h₃ hclose => ?_
  have hle₂ := h₂.pos_le
  have hclose₃ := hclose.lt (by decide)
  have hend := hclose.tokenEnd '>' rfl (by decide) (by decide)
  have hpos₃ := hclose.pos_eq
  have hlt' : base.span.start < c₃ := by
    have : base.span.start < base.span.stop := hlt
    omega
  dsimp only
  rw [hclose.stop_eq]
  split
  · refine (report_yields _ _).bind fun _ s₄ c₄ _ h => .pure ?_
    obtain ⟨rfl, rfl⟩ := h
    refine ⟨⟨hbase.le_start, rfl, ?_, hend⟩, hpos₃⟩
    exact hbase.sound.widen rfl (Int.le_refl _) (by show base.span.stop ≤ (c₄ : Int); omega)
  · refine .pure ⟨Placed.mono ?_ hbase.le_start, hpos₃⟩
    refine .of_row base.span.start base.span.start s₂.pos rfl ?_
      (Int.le_refl _) (by omega) hlt' hend
    have hrow : Row base.span.start (Node.namedType base :: args.map Node.type) s₂.pos :=
      .cons (Int.le_refl _) hbase.sound
        (hargs.1.mono (by show base.span.stop ≤ (s₁.pos : Int); omega) (Int.le_refl _))
    simpa [Node.children, Node.fields, TypeExpr.fields] using hrow

theorem Places.arrowResult? (hg : g.Places ctx) :
    g.arrowResult?.Yields ctx s c fun result? s' c' =>
      match result? with
      | some result => Placed ctx.text s.pos (.type result) c'
      | none => s' = s ∧ c' = c := by
  refine fun hs => .look mark_looks (.bind skip_yields (.refl hs) fun _ s₁ c₁ h₁ _ _ =>
    .look (startsWith_looks "->") ?_)
  have hle₁ := h₁.pos_le
  split
  · rename_i harrow
    refine .bind (advance_token "->" harrow (by decide)) h₁ fun _ s₂ c₂ h₂ h₂' hadv => ?_
    have hle₂ := h₂.pos_le
    exact .bind (hg.type s₂ c₂) h₂' fun result s₃ c₃ _ h₃ hresult =>
      .pure h₃ (hresult.mono (by omega))
  · exact .rewind h₁ (.pure (.refl hs) ⟨rfl, rfl⟩)

theorem fields_withSpan (type : TypeExpr) (span : Span) :
    (Node.type (type.withSpan span)).fields = (Node.type type).fields := by
  cases type <;> rfl

theorem Places.parenthesizedType (hg : g.Places ctx) (hopen : charAt ctx.text s.pos = '(') :
    g.parenthesizedType.Yields ctx s c fun type _ c' => Placed ctx.text s.pos (.type type) c' := by
  refine .look position_looks ((advance_sign (by rw [hopen]; decide)).bind fun _ s₁ c₁ h₁ _ =>
    (commaList_yields hg.type).bind fun params s₂ c₂ h₂ hparams =>
      (expect_yields (by decide)).bind fun close s₃ c₃ h₃ hclose =>
        hg.arrowResult?.bind fun result? s₄ c₄ h₄ hresult => ?_)
  have hle₁ := h₁.pos_le
  have hle₂ := h₂.pos_le
  have hclose₃ := hclose.lt (by decide)
  have hend := hclose.tokenEnd ')' rfl (by decide) (by decide)
  have hpos₃ := hclose.pos_eq
  obtain ⟨hrow, -⟩ := hparams
  cases result? with
  | some result =>
    have hlt := hresult.lt
    refine .pure (.of_row s.pos s₁.pos c₄ ?_ ?_ (by omega)
      (Int.le_refl _) (by omega) hresult.tokenEnd)
    · show Span.mk _ _ = _
      rw [show result.span.stop = c₄ from hresult.stop_eq]
    · have hrow' := hrow.snoc hresult (by omega)
      simpa [Node.children, Node.fields, TypeExpr.fields] using hrow'
  | none =>
    obtain ⟨rfl, rfl⟩ := hresult
    dsimp only
    split
    · rename_i type
      refine .pure ⟨?_, ?_, ?_, hend⟩
      · simp [Node.span]
      · simp [Node.span, hclose.stop_eq]
      · have hwithin := hrow.within (show Node.type type ∈ [type].map Node.type by simp)
        refine (hrow.sound (show Node.type type ∈ [type].map Node.type by simp)).widen
          (fields_withSpan type _) ?_ ?_
        · simp only [Node.span, TypeExpr.span_withSpan] at hwithin ⊢
          omega
        · simp only [Node.span, TypeExpr.span_withSpan, hclose.stop_eq] at hwithin ⊢
          omega
    · exact failExpected_yields

theorem Places.stringType (hg : g.Places ctx) (hstring : stringAt ctx.text s.pos = true) :
    g.stringType.Yields ctx s c fun type _ c' => Placed ctx.text s.pos (.type type) c' := by
  refine (hg.string hstring).bind fun literal s₁ c₁ _ hliteral =>
    .guard (fun _ => failWith_yields rfl) fun _ => .pure (.mono ?_ hliteral.le_start)
  have hstop : literal.span.stop = c₁ := hliteral.stop_eq
  refine .of_row literal.span.start literal.span.start c₁ ?_ ?_
    (Int.le_refl _) (Int.le_refl _) ?_ hliteral.tokenEnd
  · show literal.span = _
    rw [← hstop]
  · exact .cons (Int.le_refl _) hliteral.sound (.nil (Int.le_of_eq hliteral.stop_eq))
  · rw [← hstop]
    exact hliteral.sound.start_lt_stop

theorem Places.typeAtom (hg : g.Places ctx) :
    g.typeAtom.Yields ctx s c fun type _ c' => Placed ctx.text s.pos (.type type) c' := by
  refine .look peek_looks ?_
  split
  · rename_i hopen
    exact hg.parenthesizedType (by simpa using hopen)
  refine .look atString_looks ?_
  split
  · exact hg.stringType ‹_›
  refine .look atIdentifier_looks ?_
  split
  · refine qualifiedName_yields.bind fun name s₁ c₁ _ hname => .look peek_looks ?_
    split
    · rename_i hopen
      exact (hg.typeArguments hname.1 (by simpa using hopen)).mono fun _ _ _ _ h => h.1
    · exact .pure ⟨hname.1.le_start, hname.1.stop_eq, hname.1.sound.widen rfl (Int.le_refl _)
        (Int.le_refl _), hname.1.tokenEnd⟩
  · exact failExpected_yields

/-! ### Suffixes and unions -/

/-- The predicates behind a type. -/
theorem Places.constraints (hg : g.Places ctx) {base : TypeExpr} {lo : Int}
    (hbase : Placed ctx.text lo (.type base) c) (hopen : charAt ctx.text s.pos = '(') :
    (g.constraints base).Yields ctx s c fun type s' c' =>
      Placed ctx.text lo (.type type) c' ∧ s.pos < s'.pos := by
  refine .of_stands fun hs => (advance_sign (by rw [hopen]; decide)).bind fun _ s₁ c₁ h₁ _ =>
    (hg.expr s₁ c₁).bind fun first s₂ c₂ h₂ hfirst => ?_
  have hpos := hs.le_pos
  have hle₁ := h₁.pos_le
  have hle₂ := h₂.pos_le
  refine .bind (P := fun predicates s' c' =>
    Row s₁.pos (predicates.toList.map Node.expr) s'.pos) ?_ fun predicates s₃ c₃ h₃ hrow => ?_
  · have hle := h₂.stands.le_pos
    refine .repeating (fun (predicates : Array Expr) s' _ =>
      Row s₁.pos (predicates.toList.map Node.expr) s'.pos)
      (hfirst.row.mono (Int.le_refl _) (by omega)) fun predicates s₃ c₃ h₃ hrow => ?_
    refine (accept_yields (by decide)).bind fun comma s₄ c₄ h₄ hcomma => ?_
    have hle₄ := h₄.pos_le
    cases comma with
    | true =>
      obtain ⟨span, htoken⟩ := hcomma
      have hlt := htoken.lt (by decide)
      have hpos₄ := htoken.pos_eq
      refine (hg.expr s₄ c₄).bind fun e s₅ c₅ h₅ he => .pure ?_
      have hle₅ := h₅.stands.le_pos
      have hlt₅ := he.lt
      exact ⟨by omega, (hrow.push he (by omega)).mono (Int.le_refl _) (by omega)⟩
    | false => exact .pure (hrow.mono (Int.le_refl _) (by omega))
  · have hle₃ := h₃.pos_le
    refine (expect_yields (by decide)).bind fun close s₄ c₄ h₄ hclose => .pure ?_
    have hlt := hclose.lt (by decide)
    have hpos₄ := hclose.pos_eq
    have hstart := hbase.sound.start_lt_stop
    have hstop := hbase.stop_eq
    refine ⟨Placed.mono (.of_row base.span.start base.span.start s₃.pos ?_ ?_ (Int.le_refl _) (by omega) ?_
      (hclose.tokenEnd ')' rfl (by decide) (by decide))) hbase.le_start, by omega⟩
    · show Span.mk _ _ = _
      rw [hclose.stop_eq]
    · have hall : Row base.span.start (Node.type base :: predicates.toList.map Node.expr) s₃.pos :=
        .cons (Int.le_refl _) hbase.sound (hrow.mono (by omega) (Int.le_refl _))
      simpa [Node.children, Node.fields, TypeExpr.fields] using hall
    · have : (Node.type base).span.start = base.span.start := rfl
      omega

/-- One more suffix of a type, or none. -/
theorem Places.typeSuffix (hg : g.Places ctx) {base : TypeExpr} {lo : Int}
    (hbase : Placed ctx.text lo (.type base) c) :
    (g.typeSuffix base).Yields ctx s c fun round s' c' =>
      round.Meets (fun type => s.pos < s'.pos ∧ Placed ctx.text lo (.type type) c')
        fun type => Placed ctx.text lo (.type type) c' := by
  refine .of_stands fun hs => .look peek_looks (.look (peekAt_looks 1) ?_)
  have hpos := hs.le_pos
  split
  · rename_i hmark
    simp only [Bool.and_eq_true, beq_iff_eq] at hmark
    refine (advance_sign (by rw [hmark.1.1]; decide)).bind fun _ s₁ c₁ _ hadv =>
      .look position_looks (.pure ?_)
    obtain ⟨rfl, rfl⟩ := hadv
    have hstart := hbase.sound.start_lt_stop
    have hstop := hbase.stop_eq
    refine ⟨by simp only; omega, Placed.mono (.of_row base.span.start base.span.start c rfl ?_ (Int.le_refl _) (by omega) ?_
      (tokenEnd_of_sign hmark.1.1 (by decide) (by decide))) hbase.le_start⟩
    · exact .cons (Int.le_refl _) hbase.sound (.nil (Int.le_of_eq hbase.stop_eq))
    · have : (Node.type base).span.start = base.span.start := rfl
      omega
  · split
    · rename_i hopen
      simp only [Bool.and_eq_true, beq_iff_eq] at hopen
      exact (hg.constraints hbase hopen.1).bind fun type s₁ c₁ _ h => .pure ⟨h.2, h.1⟩
    · exact .pure hbase

theorem Places.typeSegment (hg : g.Places ctx) :
    g.typeSegment.Yields ctx s c fun type _ c' => Placed ctx.text s.pos (.type type) c' := by
  refine skip_yields.bind fun _ s₁ c₁ h₁ _ => .look position_looks (.look peek_looks ?_)
  have hle₁ := h₁.pos_le
  -- What follows the mark of a default, which may be missing.
  have hrest : ∀ {isDefault : Bool} {t : State} {d : Nat}, s₁.pos ≤ t.pos →
      (do
        let base ← g.typeAtom
        let type ← repeating g.typeSuffix base
        if isDefault = true then return .default type ⟨s₁.pos, type.span.stop⟩
        else return type : Parser TypeExpr).Yields ctx t d
          fun type _ c' => Placed ctx.text s₁.pos (.type type) c' := by
    intro isDefault t d hle
    refine hg.typeAtom.bind fun base s₂ c₂ h₂ hbase =>
      .bind (P := fun type _ c' => Placed ctx.text t.pos (.type type) c')
        (.repeating (fun type _ c' => Placed ctx.text t.pos (.type type) c') hbase
          fun type s₃ c₃ h₃ htype => hg.typeSuffix htype) fun type s₃ c₃ h₃ htype => ?_
    split
    · have hlt := htype.lt
      refine .pure (.of_row s₁.pos t.pos c₃ ?_ htype.row (by omega)
        (Int.le_refl _) (by omega) htype.tokenEnd)
      show Span.mk _ _ = _
      rw [show type.span.stop = c₃ from htype.stop_eq]
    · exact .pure (htype.mono (by omega))
  refine .ite (fun hstar => ?_) fun _ => ?_
  · refine (advance_sign (by rw [beq_iff_eq] at hstar; rw [hstar]; decide)).bind
      fun _ s₂ c₂ h₂ _ => skip_yields.bind fun _ s₃ c₃ h₃ _ => ?_
    have hle₂ := h₂.pos_le
    have hle₃ := h₃.pos_le
    exact .mono (hrest (by omega)) fun _ _ _ _ h => h.mono (by omega)
  · exact .mono (hrest (Nat.le_refl _)) fun _ _ _ _ h => h.mono (by omega)

/-- The members of a type within a union lie where the type lies. -/
theorem row_unionMembers {type : TypeExpr} (h : (Node.type type).Sound) :
    Row type.span.start ((unionMembers type).map Node.type) type.span.stop := by
  cases type with
  | union members span =>
    have hmem : ∀ n ∈ members.map Node.type, n ∈ (Node.type (.union members span)).children := by
      simp [Node.children, Node.fields, TypeExpr.fields]
    refine .of_pairwise (Int.le_of_lt h.start_lt_stop) (fun n hn => ?_) ?_
    · exact ⟨h.child (hmem n hn), h.tidy.within n (hmem n hn)⟩
    · exact h.tidy.listed ⟨"members", .ofList .type members⟩ (by simp [Node.fields, TypeExpr.fields])
  | _ => exact .cons (Int.le_refl _) h (.nil (Int.le_refl _))

theorem row_flatMap_unionMembers {types : List TypeExpr} {lo hi : Int}
    (h : Row lo (types.map Node.type) hi) :
    Row lo ((types.flatMap unionMembers).map Node.type) hi := by
  induction types generalizing lo with
  | nil => exact h
  | cons type rest ih =>
    cases h with
    | cons hlo hsound hrest =>
      rw [List.flatMap_cons, List.map_append]
      exact ((row_unionMembers hsound).mono hlo (Int.le_refl _)).append (ih hrest)

theorem atUnionBar_yields :
    atUnionBar.Yields ctx s c fun found s' c' =>
      Skipped ctx.text c s' c' ∧ (found = true → matchesAt ctx.text "|" s'.pos = true) := by
  refine (atToken_yields "|").bind fun bar s₁ c₁ _ hbar => ?_
  obtain ⟨hskip, hmatch⟩ := hbar
  split
  · exact .pure ⟨hskip, nofun⟩
  · rename_i hfound
    refine .look (startsWith_looks "||") ?_
    split
    · exact .pure ⟨hskip, nofun⟩
    · exact .look (startsWith_looks "|>") (.pure ⟨hskip, fun _ => by simp_all⟩)

/-- A type is placed when what stands inside it is. -/
theorem Places.typeRule (hg : g.Places ctx) :
    g.typeRule.Yields ctx s c fun type _ c' => Placed ctx.text s.pos (.type type) c' := by
  refine skip_yields.bind fun _ s₁ c₁ h₁ _ => .look position_looks
    (hg.typeSegment.bind fun first s₂ c₂ h₂ hfirst => ?_)
  have hle₁ := h₁.pos_le
  refine .bind (P := fun members _ c' =>
    Series ctx.text s₁.pos Node.type first members c') ?_ fun members s₃ c₃ h₃ hseries => ?_
  · refine .repeating (fun members _ c' => Series ctx.text s₁.pos Node.type first members c')
      (.singleton hfirst) fun members s₃ c₃ h₃ hseries => ?_
    refine atUnionBar_yields.bind fun bar s₄ c₄ h₄ hbar => ?_
    obtain ⟨hskip, hmatch⟩ := hbar
    obtain rfl := hskip.eq
    have hle₃ := h₄.start.le_pos
    have hle₄ := h₄.pos_le
    split
    · rename_i hfound
      refine .bind (advance_token "|" (hmatch hfound) (by decide)) fun _ s₅ c₅ h₅ _ =>
        hg.typeSegment.bind fun type s₆ c₆ h₆ htype => .pure ?_
      have hle₅ := h₅.pos_le
      have hlt := htype.lt
      have hle₆ := h₆.stands.le_pos
      exact ⟨by omega, hseries.push htype (by omega)⟩
    · exact .pure hseries
  · split
    · rename_i type hone
      have htoList := hseries.toList_eq
      rw [hone] at htoList
      obtain rfl : type = first := by simpa using congrArg List.head? htoList
      have hback : members.back?.getD type = type := by
        rw [← Array.getLast?_toList, hone]
        rfl
      have hsound := hseries.row.sound (show Node.type type ∈ members.toList.map Node.type by
        simp [hone])
      refine .pure ⟨by have := hseries.le_start; omega, ?_, hsound, hseries.tokenEnd⟩
      have hstop := hseries.stop_eq
      rwa [hback] at hstop
    · have hlt := hseries.row.le
      have hstart := hseries.le_start
      have hlt' := hseries.lt
      refine .pure (Placed.mono (.of_row s₁.pos s₁.pos c₃ ?_ ?_
        (Int.le_refl _) (Int.le_refl _) (by omega) hseries.tokenEnd) (by omega))
      · show Span.mk _ _ = _
        rw [show (members.back?.getD first).span.stop = c₃ from hseries.stop_eq]
      · have hrow := row_flatMap_unionMembers hseries.row
        simpa [Node.children, Node.fields, TypeExpr.fields] using hrow

end Grammar

end PklSyntax
