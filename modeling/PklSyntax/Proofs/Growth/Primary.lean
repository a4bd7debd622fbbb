import PklSyntax.Proofs.Growth.Type
import PklSyntax.Proofs.Layout.Primary

/-!
# Growth: primary expressions

What can be selected from or amended is built with no operator: the levels of expressions begin
with the primary expressions. Looking for a lambda leaves the state as it was when there is none,
also when its parameters were given up in the middle.

## Main definitions

* `Expr.IsSelectable`: a well-formed expression that is built with no operator.
* `Expr.IsBare`: one behind which no object bodies stand.

## Main statements

* `Grammar.Grows.lambda?`: looking for a lambda.
* `Grammar.Grows.primary`: a primary expression.
-/

namespace PklSyntax

/-- The expression is well-formed and built with no operator, so that it can be selected from. -/
structure Expr.IsSelectable (e : Expr) : Prop where
  wellFormed : (Node.expr e).WellFormed
  kind : e.nodeKind ∉ NodeKind.operations

/-- The expression can be selected from, and no object bodies stand behind it. -/
structure Expr.IsBare (e : Expr) : Prop extends e.IsSelectable where
  notAmended : e.nodeKind ≠ .amendedValue

theorem Expr.IsBare.of_children {e : Expr} (hconforms : e.Conforms)
    (hchildren : ∀ child ∈ (Node.expr e).children, child.WellFormed)
    (hkind : e.nodeKind ∉ NodeKind.amendedValue :: NodeKind.operations) : e.IsBare := by
  rw [List.mem_cons, not_or] at hkind
  exact ⟨⟨(Node.wellFormed_iff _).2 ⟨hconforms, hchildren⟩, hkind.2⟩, hkind.1⟩

namespace Grammar

open PklSyntax.Parser

variable {g : Grammar} {ctx : Context} {s : State}

/-! ### Calls and members -/

theorem Grows.call (hg : g.Grows ctx) {callee : Identifier} {kind : CallKind} :
    (g.call callee kind).Grows ctx s fun call _ => (Node.call call).WellFormed := by
  refine (advance_grows 1).bind fun _ s₁ _ _ => (commaList_grows hg.expr').bind
    fun args s₂ _ hargs => (expect_grows (by decide)).bind fun close s₃ _ _ => .pure ?_
  rw [Node.wellFormed_iff]
  exact ⟨trivial, by simpa [Node.children, Node.fields, Call.fields] using hargs⟩

theorem Grows.member (hg : g.Grows ctx) :
    g.member.Grows ctx s fun member _ => (Node.ofMember member).WellFormed := by
  refine skip_grows.bind fun _ s₁ _ _ => identifier_grows.bind fun name s₂ _ _ => .look peek_looks ?_
  split
  · exact hg.call.bind fun call s₃ _ hcall => .pure hcall
  · exact .pure (Node.wellFormed_identifier name)

/-- A call is well-formed as an expression too. -/
theorem isBare_call {call : Call} (h : (Node.call call).WellFormed) :
    (Expr.call call).IsBare where
  wellFormed := h.recast trivial rfl
  kind := by simp [Expr.nodeKind, NodeKind.operations]
  notAmended := by simp [Expr.nodeKind]

/-! ### Parameters and lambdas -/

/-- A type behind a colon, if there is one. -/
theorem Grows.annotatedType (hg : g.Grows ctx) {β : Type} {k : Option TypeExpr → Parser β}
    {Q : β → State → Prop}
    (hk : ∀ type? s', Grown ctx.text s s' → (∀ type ∈ type?, (Node.type type).WellFormed) →
      (k type?).Grows ctx s' Q) :
    (do
      let found ← accept ":"
      if found = true then do
        let type ← some <$> g.type
        k type
      else do
        let type ← pure none
        k type : Parser β).Grows ctx s Q :=
  announced_grows ((accept_grows (by decide)).mono fun _ _ _ _ => trivial) hg.type hk

theorem Grows.param (hg : g.Grows ctx) :
    g.param.Grows ctx s fun param _ => (Node.param param).WellFormed := by
  refine expectName_grows.bind fun name s₁ _ _ => hg.annotatedType fun type? s₂ _ htype => .pure ?_
  rw [Node.wellFormed_iff]
  exact ⟨trivial, by simpa [Node.children, Node.fields, Param.fields] using htype⟩

theorem Grows.params (hg : g.Grows ctx) :
    g.params.Grows ctx s fun params s' =>
      (∀ param ∈ params.1, (Node.param param).WellFormed) ∧ Advanced ctx.text s s' :=
  (expect_grows (by decide)).bind fun _ s₁ _ hopen => (commaList_grows fun _ => hg.param).bind
    fun params s₂ h₂ hparams => (expect_grows (by decide)).bind fun close s₃ h₃ _ =>
      .pure ⟨hparams, (hopen.grown h₂).grown h₃⟩

/-- When no lambda stands at the cursor, the state is left as it was. -/
theorem Grows.lambda? (hg : g.Grows ctx) :
    g.lambda?.Grows ctx s fun lambda? s' =>
      match lambda? with
      | some lambda => lambda.IsBare ∧ Advanced ctx.text s s'
      | none => s' = s := by
  refine .mark (.look position_looks (.attempt hg.params (fun params s₁ h₁ hparams => ?_)
    fun s₁ h₁ => .rewind h₁ (.pure (.refl s) rfl)))
  refine .bind h₁ (atToken_grows "->") fun arrow s₂ h₂ h₂' _ => ?_
  cases arrow with
  | false => exact .rewind h₂'.toKept (.pure (.refl s) rfl)
  | true =>
    refine .bind h₂' (advance_grows 2) fun _ s₃ h₃ h₃' _ => .bind h₃' (hg.expr' s₃)
      fun body s₄ h₄ h₄' hbody => .pure h₄' ⟨?_, ((hparams.2.grown h₂).grown h₃).grown h₄⟩
    refine .of_children trivial ?_ (by simp [Expr.nodeKind, NodeKind.operations])
    simpa [Node.children, Node.fields, Expr.fields, or_imp, forall_and] using ⟨hparams.1, hbody⟩

/-! ### Primary expressions -/

theorem Grows.parenthesized (hg : g.Grows ctx) (hopen : matchesAt ctx.text "(" s.pos = true) :
    g.parenthesized.Grows ctx s fun e s' => e.IsBare ∧ Advanced ctx.text s s' := by
  refine .look position_looks (hg.lambda?.bind fun lambda? s₁ _ hlambda => ?_)
  cases lambda? with
  | some lambda => exact .pure hlambda
  | none =>
    obtain rfl := hlambda
    refine .bind (advance_matched_grows "(" hopen (by decide)) fun _ s₂ _ hadv =>
      (hg.expr' s₂).bind fun inner s₃ h₃ hinner => (expect_grows (by decide)).bind
        fun close s₄ h₄ _ => .pure ⟨?_, (hadv.grown h₃).grown h₄⟩
    refine .of_children trivial ?_ (by simp [Expr.nodeKind, NodeKind.operations])
    simpa [Node.children, Node.fields, Expr.fields] using hinner

theorem Grows.conditional (hg : g.Grows ctx) (hword : matchesAt ctx.text "if" s.pos = true) :
    g.conditional.Grows ctx s fun e s' => e.IsBare ∧ Advanced ctx.text s s' := by
  refine .look position_looks (.bind (advance_matched_grows "if" hword (by decide))
    fun _ s₁ _ hadv => .mono (P := fun e _ => e.IsBare) ?_ fun _ _ h he => ⟨he, hadv.grown h⟩)
  refine (expect_grows (by decide)).bind fun _ s₂ _ _ => (hg.expr' s₂).bind
    fun condition s₃ _ hcondition => (expect_grows (by decide)).bind fun _ s₄ _ _ =>
      (hg.expr' s₄).bind fun thenBranch s₅ _ hthen => (expectKeyword_grows (by decide)).bind
        fun _ s₆ _ _ => (hg.expr' s₆).bind fun elseBranch s₇ _ helse => .pure ?_
  refine .of_children trivial ?_ (by simp [Expr.nodeKind, NodeKind.operations])
  simpa [Node.children, Node.fields, Expr.fields] using ⟨hcondition, hthen, helse⟩

theorem Grows.letExpression (hg : g.Grows ctx) (hword : matchesAt ctx.text "let" s.pos = true) :
    g.letExpression.Grows ctx s fun e s' => e.IsBare ∧ Advanced ctx.text s s' := by
  refine .look position_looks (.bind (advance_matched_grows "let" hword (by decide))
    fun _ s₁ _ hadv => .mono (P := fun e _ => e.IsBare) ?_ fun _ _ h he => ⟨he, hadv.grown h⟩)
  refine (expect_grows (by decide)).bind fun _ s₂ _ _ => expectName_grows.bind fun name s₃ _ _ =>
    hg.annotatedType fun type? s₄ _ htype => atAssign_grows.bind fun assign s₅ _ _ =>
      .guard (fun _ => failExpected_grows) fun _ => ?_
  refine (advance_grows 1).bind fun _ s₆ _ _ => (hg.expr' s₆).bind fun value s₇ _ hvalue =>
    (expect_grows (by decide)).bind fun _ s₈ _ _ => (hg.expr' s₈).bind fun body s₉ _ hbody =>
      .pure ?_
  refine .of_children trivial ?_ (by simp [Expr.nodeKind, NodeKind.operations])
  simpa [Node.children, Node.fields, Expr.fields, or_imp, forall_and] using ⟨htype, hvalue, hbody⟩

theorem Grows.newExpression (hg : g.Grows ctx) (hword : matchesAt ctx.text "new" s.pos = true) :
    g.newExpression.Grows ctx s fun e s' => e.IsBare ∧ Advanced ctx.text s s' := by
  refine .look position_looks (.bind (advance_matched_grows "new" hword (by decide))
    fun _ s₁ _ hadv => .mono (P := fun e _ => e.IsBare) ?_ fun _ _ h he => ⟨he, hadv.grown h⟩)
  refine (atToken_grows "\x7b").bind fun found s₂ _ _ => .branch
    (P := fun type? _ => ∀ type ∈ type?, (Node.type type).WellFormed) (fun _ => .pure (by simp))
    (fun _ => .map ((hg.type s₂).mono fun type _ _ htype => by simpa using htype))
    fun type? s₃ _ htype => (hg.body s₃).bind fun body s₄ _ hbody => .pure ?_
  refine .of_children trivial ?_ (by simp [Expr.nodeKind, NodeKind.operations])
  simpa [Node.children, Node.fields, Expr.fields, or_imp, forall_and] using ⟨htype, hbody⟩

theorem isBare_identifier (name : Identifier) : (Expr.identifier name).IsBare :=
  .of_children trivial (by simp [Node.children, Node.fields, Expr.fields, Identifier.fields])
    (by simp [Expr.nodeKind, NodeKind.operations])

theorem isBare_number (literal : NumberLiteral) : (Expr.number literal).IsBare := by
  refine .of_children trivial ?_ ?_ <;> cases literal
  · simp [Node.children, Node.fields, Expr.fields, NumberLiteral.fields]
  · simp [Node.children, Node.fields, Expr.fields, NumberLiteral.fields]
  · simp [Expr.nodeKind, NumberLiteral.nodeKind, NodeKind.operations]
  · simp [Expr.nodeKind, NumberLiteral.nodeKind, NodeKind.operations]

theorem isBare_string {literal : StringLiteral} (h : (Node.string literal).WellFormed) :
    (Expr.string literal).IsBare where
  wellFormed := h.recast trivial rfl
  kind := by simp [Expr.nodeKind, NodeKind.operations]
  notAmended := by simp [Expr.nodeKind]

theorem Grows.nameExpression (hg : g.Grows ctx) :
    g.nameExpression.Grows ctx s fun e s' => e.IsBare ∧ Advanced ctx.text s s' := by
  refine identifier_grows.bind fun name s₁ _ hname => .look peek_looks ?_
  refine .ite (fun _ => .guard (fun _ => failWith_grows rfl) fun _ => ?_) fun _ =>
    .guard (fun _ => failWith_grows rfl) fun _ => .pure ⟨isBare_identifier name, hname⟩
  exact hg.call.bind fun call s₂ h₂ hcall => .pure ⟨isBare_call hcall, hname.grown h₂⟩

theorem Grows.identifierExpression (hg : g.Grows ctx) :
    g.identifierExpression.Grows ctx s fun e s' => e.IsBare ∧ Advanced ctx.text s s' := by
  refine .look readKind?_looks ?_
  split
  · rename_i kind hkind
    have hlt := lt_size_of_charAt_ne (by rw [charAt_of_readKindAt? hkind]; decide)
    refine .look position_looks ((advance_grows 5).bind fun _ s₁ _ hadv =>
      hg.call.bind fun call s₂ h₂ hcall => .pure ⟨isBare_call hcall, .grown ?_ h₂⟩)
    rw [hadv]
    exact ⟨by omega, by simp only; omega⟩
  · exact hg.nameExpression

theorem constant?_grows :
    constant?.Grows ctx s fun constant? s' =>
      match constant? with
      | some e => e.IsBare ∧ Advanced ctx.text s s'
      | none => s' = s := by
  have hbool (value : Bool) (span : Span) : (Expr.bool value span).IsBare :=
    .of_children trivial (by simp [Node.children, Node.fields, Expr.fields])
      (by simp [Expr.nodeKind, NodeKind.operations])
  have hnull (span : Span) : (Expr.null span).IsBare :=
    .of_children trivial (by simp [Node.children, Node.fields, Expr.fields])
      (by simp [Expr.nodeKind, NodeKind.operations])
  refine .look (atWord_looks _) (.ite (fun hword => ?_) fun _ => ?_)
  · exact (takeToken_grows "true" (matchesAt_of_wordAt hword) (by decide)).bind
      fun span s₁ _ h => .pure ⟨hbool _ span, h⟩
  refine .look (atWord_looks _) (.ite (fun hword => ?_) fun _ => ?_)
  · exact (takeToken_grows "false" (matchesAt_of_wordAt hword) (by decide)).bind
      fun span s₁ _ h => .pure ⟨hbool _ span, h⟩
  refine .look (atWord_looks _) (.ite (fun hword => ?_) fun _ => .pure rfl)
  exact (takeToken_grows "null" (matchesAt_of_wordAt hword) (by decide)).bind
    fun span s₁ _ h => .pure ⟨hnull span, h⟩

/-- A primary expression is well-formed when what stands inside it is. -/
theorem Grows.primary (hg : g.Grows ctx) :
    g.primary.Grows ctx s fun e s' => e.IsBare ∧ Advanced ctx.text s s' := by
  refine skip_grows.bind fun _ s₁ h₁ _ => .mono
    (P := fun e s' => e.IsBare ∧ Advanced ctx.text s₁ s') ?_ fun _ _ _ h => ⟨h.1, h₁.advanced h.2⟩
  refine .look (atWord_looks _) (.ite (fun hword => hg.conditional (matchesAt_of_wordAt hword))
    fun _ => ?_)
  refine .look (atWord_looks _) (.ite (fun hword => hg.letExpression (matchesAt_of_wordAt hword))
    fun _ => ?_)
  refine .look (startsWith_looks _) (.ite (fun hopen => hg.parenthesized hopen) fun _ => ?_)
  refine .look (atWord_looks _) (.ite (fun hword => hg.newExpression (matchesAt_of_wordAt hword))
    fun _ => ?_)
  refine .look atNumber_looks (.ite (fun hnum => .look theOptions_looks
    ((number_grows hnum).bind fun literal s₂ _ h => .pure ⟨isBare_number literal, h⟩))
    fun _ => ?_)
  refine .look atString_looks (.ite (fun hstring => (hg.string hstring).bind
    fun literal s₂ _ h => .pure ⟨isBare_string h.1, h.2⟩) fun _ => ?_)
  refine constant?_grows.bind fun constant? s₂ _ hconstant => ?_
  cases constant? with
  | some e => exact .pure hconstant
  | none =>
    obtain rfl := hconstant
    exact .look atIdentifier_looks (.ite (fun _ => hg.identifierExpression)
      fun _ => failExpected_grows)

end Grammar

end PklSyntax
