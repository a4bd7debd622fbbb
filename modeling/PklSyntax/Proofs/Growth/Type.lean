import PklSyntax.Proofs.Growth.Literal
import PklSyntax.Proofs.Layout.Type

/-!
# Growth: types

All that is said of productions supposes of the grammar for what stands inside them that what it
gives is well-formed, and that an expression moves the cursor on.

## Main definitions

* `Grammar.Grows`: the grammar for what stands inside gives well-formed trees.

## Main statements

* `Grammar.Grows.arrowResult?`: looking for an arrow leaves the state as it was when there is none.
* `Grammar.Grows.typeRule`: a type is well-formed when what stands inside it is.
-/

namespace PklSyntax

/-- The grammar gives well-formed trees; its expressions are not empty. -/
structure Grammar.Grows (g : Grammar) (ctx : Context) : Prop where
  expr : ∀ s, g.expr.Grows ctx s fun e s' => (Node.expr e).WellFormed ∧ Advanced ctx.text s s'
  type : ∀ s, g.type.Grows ctx s fun t _ => (Node.type t).WellFormed
  body : ∀ s, g.body.Grows ctx s fun b _ => (Node.objectBody b).WellFormed

namespace Grammar

open PklSyntax.Parser

variable {g : Grammar} {ctx : Context} {s : State}

/-- Expressions are well-formed. -/
theorem Grows.expr' (hg : g.Grows ctx) (s : State) :
    g.expr.Grows ctx s fun e _ => (Node.expr e).WellFormed :=
  (hg.expr s).mono fun _ _ _ h => h.1

/-! ### Strings of a grammar -/

theorem Grows.string (hg : g.Grows ctx) (hstring : stringAt ctx.text s.pos = true) :
    g.string.Grows ctx s fun literal s' =>
      (Node.string literal).WellFormed ∧ Advanced ctx.text s s' :=
  .look theOptions_looks (stringLiteral_grows hg.expr' hstring)

theorem Grows.sourceString (hg : g.Grows ctx) {keyword : String} :
    (g.sourceString keyword).Grows ctx s fun _ s' => Advanced ctx.text s s' := by
  refine skip_grows.bind fun _ s₁ h₁ _ => .look atString_looks ?_
  refine .guard (fun _ => failExpected_grows) fun hstring =>
    (hg.string (by simpa using hstring)).bind fun literal s₂ _ hliteral => ?_
  exact .guard (fun _ => failWith_grows rfl) fun _ => .pure (h₁.advanced hliteral.2)

/-! ### Arguments and parentheses -/

/-- A constant string is a well-formed type. -/
theorem wellFormed_stringLiteral {literal : StringLiteral} (h : (Node.string literal).WellFormed)
    (hconstant : literal.isConstant = true) (span : Span) :
    (Node.type (.stringLiteral literal span)).WellFormed := by
  rw [Node.wellFormed_iff]
  exact ⟨hconstant, by simpa [Node.children, Node.fields, TypeExpr.fields] using h⟩

theorem wellFormed_named {type : NamedType} (h : type.path ≠ []) :
    (Node.type (.named type)).WellFormed :=
  ((Node.wellFormed_namedType type).2 h).recast h rfl

/-- The arguments behind a name. -/
theorem Grows.typeArguments (hg : g.Grows ctx) {base : NamedType} (hbase : base.path ≠ []) :
    (g.typeArguments base).Grows ctx s fun type _ => (Node.type type).WellFormed := by
  refine .bind (P := fun _ _ => True) (.look position_looks ((advance_grows 1).bind
    fun _ s₁ _ _ => .value (spanFrom_looks _) trivial)) fun opening s₁ _ _ => ?_
  refine (commaList_grows hg.type).bind fun args s₂ _ hargs =>
    (expect_grows (by decide)).bind fun close s₃ _ _ => ?_
  dsimp only
  refine .ite (fun _ => ?_) fun hempty => .pure ?_
  · exact (report_grows rfl rfl).bind fun _ s₄ _ _ => .pure (wellFormed_named hbase)
  · rw [Node.wellFormed_iff]
    have hne : args ≠ [] := by simpa using hempty
    exact ⟨hne, by simpa [Node.children, Node.fields, TypeExpr.fields] using ⟨hbase, hargs⟩⟩

/-- When no arrow follows, the state is left as it was. -/
theorem Grows.arrowResult? (hg : g.Grows ctx) :
    g.arrowResult?.Grows ctx s fun result? s' =>
      match result? with
      | some result => (Node.type result).WellFormed
      | none => s' = s := by
  refine .mark (.bind (.refl s) skip_grows fun _ s₁ _ h₁ _ => .look (startsWith_looks _) ?_)
  split
  · exact .bind h₁ (advance_grows 2) fun _ s₂ _ h₂ _ => .bind h₂ (hg.type s₂)
      fun result s₃ _ h₃ hresult => .pure h₃ hresult
  · exact .rewind h₁.toKept (.pure (.refl s) rfl)

/-- A function type, or a type in parentheses. -/
theorem Grows.parenthesizedType (hg : g.Grows ctx) :
    g.parenthesizedType.Grows ctx s fun type _ => (Node.type type).WellFormed := by
  refine .look position_looks ((advance_grows 1).bind fun _ s₁ _ _ =>
    (commaList_grows hg.type).bind fun params s₂ _ hparams =>
      (expect_grows (by decide)).bind fun close s₃ _ _ =>
        hg.arrowResult?.bind fun result? s₄ _ hresult => ?_)
  cases result? with
  | some result =>
    refine .pure ?_
    rw [Node.wellFormed_iff]
    refine ⟨trivial, ?_⟩
    simpa [Node.children, Node.fields, TypeExpr.fields, or_imp, forall_and]
      using ⟨hparams, hresult⟩
  | none =>
    dsimp only
    split
    · exact .pure (TypeExpr.wellFormed_withSpan (hparams _ (List.mem_singleton_self _)) _)
    · exact failExpected_grows

theorem Grows.stringType (hg : g.Grows ctx) (hstring : stringAt ctx.text s.pos = true) :
    g.stringType.Grows ctx s fun type _ => (Node.type type).WellFormed :=
  (hg.string hstring).bind fun literal s₁ _ hliteral =>
    .guard (fun _ => failWith_grows rfl) fun hconstant =>
      .pure (wellFormed_stringLiteral hliteral.1 (by simpa using hconstant) _)

theorem Grows.typeAtom (hg : g.Grows ctx) :
    g.typeAtom.Grows ctx s fun type _ => (Node.type type).WellFormed := by
  refine .look peek_looks (.ite (fun _ => hg.parenthesizedType) fun _ => ?_)
  refine .look atString_looks (.ite (fun hstring => hg.stringType hstring) fun _ => ?_)
  refine .look atIdentifier_looks (.ite (fun _ => ?_) fun _ => failExpected_grows)
  exact qualifiedName_grows.bind fun name s₁ _ hname => .look peek_looks
    (.ite (fun _ => hg.typeArguments hname.1) fun _ => .pure (wellFormed_named hname.1))

/-! ### Suffixes and unions -/

theorem isFunctionType_eq_true {type : TypeExpr} :
    isFunctionType type = true ↔ type.nodeKind = .functionType := by
  cases type <;> simp [isFunctionType, TypeExpr.nodeKind]

theorem Grows.constraints (hg : g.Grows ctx) {base : TypeExpr} (hbase : (Node.type base).WellFormed)
    (hkind : base.nodeKind ≠ .functionType) :
    (g.constraints base).Grows ctx s fun type _ => (Node.type type).WellFormed := by
  refine (advance_grows 1).bind fun _ s₁ _ _ => (hg.expr' s₁).bind fun first s₂ _ hfirst => ?_
  refine .bind (P := fun predicates _ => predicates.toList ≠ [] ∧
    ∀ e ∈ predicates.toList, (Node.expr e).WellFormed) ?_ fun predicates s₃ _ hpredicates =>
      (expect_grows (by decide)).bind fun close s₄ _ _ => .pure ?_
  · refine .repeating (fun (predicates : Array Expr) _ => predicates.toList ≠ [] ∧
      ∀ e ∈ predicates.toList, (Node.expr e).WellFormed) (by simpa using hfirst)
      fun predicates s₃ _ hpredicates => (accept_grows (by decide)).bind fun comma s₄ _ _ =>
        .ite (fun _ => (hg.expr' s₄).bind fun e s₅ _ he =>
          .pure ⟨by simp, forall_mem_toList_push hpredicates.2 he⟩) fun _ => .pure hpredicates
  · rw [Node.wellFormed_iff]
    refine ⟨⟨hkind, hpredicates.1⟩, ?_⟩
    simpa [Node.children, Node.fields, TypeExpr.fields] using ⟨hbase, by simpa using hpredicates.2⟩

theorem Grows.typeSuffix (hg : g.Grows ctx) {base : TypeExpr}
    (hbase : (Node.type base).WellFormed) :
    (g.typeSuffix base).Grows ctx s fun round _ =>
      round.Meets (fun type => (Node.type type).WellFormed)
        fun type => (Node.type type).WellFormed := by
  refine .look peek_looks (.look (peekAt_looks 1) (.ite (fun _ => ?_) fun _ =>
    .ite (fun hopen => ?_) fun _ => .pure hbase))
  · refine (advance_grows 1).bind fun _ s₁ _ _ => .look position_looks (.pure ?_)
    show (Node.type _).WellFormed
    rw [Node.wellFormed_iff]
    exact ⟨trivial, by simpa [Node.children, Node.fields, TypeExpr.fields] using hbase⟩
  · rw [Bool.and_eq_true, Bool.not_eq_true', Bool.eq_false_iff, ne_eq, isFunctionType_eq_true]
      at hopen
    exact (hg.constraints hbase hopen.2).bind fun type s₁ _ htype => .pure htype

theorem Grows.typeSegment (hg : g.Grows ctx) :
    g.typeSegment.Grows ctx s fun type _ => (Node.type type).WellFormed := by
  refine skip_grows.bind fun _ s₁ _ _ => .look position_looks (.look peek_looks ?_)
  -- The atom with its suffixes, behind the mark of a default or without one.
  have hatom : ∀ s', (do
      let base ← g.typeAtom
      let type ← repeating g.typeSuffix base
      if charAt ctx.text s₁.pos == '*' then return .default type ⟨s₁.pos, type.span.stop⟩
      else return type : Parser TypeExpr).Grows ctx s' fun type _ => (Node.type type).WellFormed := by
    refine fun s' => hg.typeAtom.bind fun base s₂ _ hbase => .bind (P := fun type _ =>
      (Node.type type).WellFormed) (.repeating (fun type _ => (Node.type type).WellFormed) hbase
        fun type s₃ _ htype => hg.typeSuffix htype) fun type s₃ _ htype =>
          .ite (fun _ => .pure ?_) fun _ => .pure htype
    rw [Node.wellFormed_iff]
    exact ⟨trivial, by simpa [Node.children, Node.fields, TypeExpr.fields] using htype⟩
  exact .ite (fun _ => (advance_grows 1).bind fun _ s₂ _ _ => skip_grows.bind fun _ s₃ _ _ =>
    hatom s₃) fun _ => hatom s₁

theorem atUnionBar_grows : atUnionBar.Grows ctx s fun _ _ => True := by
  refine (atToken_grows "|").bind fun found s₁ _ _ => .ite (fun _ => .pure trivial) fun _ =>
    .look (startsWith_looks _) (.ite (fun _ => .pure trivial) fun _ => ?_)
  exact .look (startsWith_looks _) (.pure trivial)

/-- A list that gets an entry or more for each of its entries does not become shorter. -/
theorem length_le_flatMap {α β : Type} {f : α → List β} {as : List α}
    (h : ∀ a ∈ as, 1 ≤ (f a).length) : as.length ≤ (as.flatMap f).length := by
  induction as with
  | nil => exact Nat.le_refl _
  | cons a as ih =>
    rw [List.forall_mem_cons] at h
    have := ih h.2
    rw [List.flatMap_cons, List.length_append, List.length_cons]
    omega

/-- Two types or more make a union, in which those that are unions themselves are dissolved. -/
theorem wellFormed_union {types : List TypeExpr} (hlength : 2 ≤ types.length)
    (htypes : ∀ t ∈ types, (Node.type t).WellFormed) (span : Span) :
    (Node.type (.union (types.flatMap unionMembers) span)).WellFormed := by
  have hmembers : ∀ m ∈ types.flatMap unionMembers,
      m.nodeKind ≠ .unionType ∧ (Node.type m).WellFormed := by
    intro m hm
    obtain ⟨t, ht, hm⟩ := List.mem_flatMap.1 hm
    exact (unionMembers_spec (htypes t ht)).2 m hm
  have hcount := length_le_flatMap fun t ht => (unionMembers_spec (htypes t ht)).1
  rw [Node.wellFormed_iff]
  refine ⟨⟨by omega, fun m hm => (hmembers m hm).1⟩, ?_⟩
  simp only [Node.children, Node.fields, TypeExpr.fields, List.flatMap_cons, List.flatMap_nil,
    FieldValue.children_ofList, List.append_nil, List.forall_mem_map]
  exact fun m hm => (hmembers m hm).2

theorem Grows.typeRule (hg : g.Grows ctx) :
    g.typeRule.Grows ctx s fun type _ => (Node.type type).WellFormed := by
  refine skip_grows.bind fun _ s₁ _ _ => .look position_looks (hg.typeSegment.bind
    fun first s₂ _ hfirst => ?_)
  refine .bind (P := fun members _ => members.toList ≠ [] ∧
    ∀ t ∈ members.toList, (Node.type t).WellFormed) ?_ fun members s₃ _ hmembers => ?_
  · refine .repeating (fun (members : Array TypeExpr) _ => members.toList ≠ [] ∧
      ∀ t ∈ members.toList, (Node.type t).WellFormed) (by simpa using hfirst)
      fun members s₃ _ hmembers => atUnionBar_grows.bind fun bar s₄ _ _ =>
        .ite (fun _ => (advance_grows 1).bind fun _ s₅ _ _ =>
          hg.typeSegment.bind fun type s₆ _ htype =>
            .pure ⟨by simp, forall_mem_toList_push hmembers.2 htype⟩) fun _ => .pure hmembers
  · obtain ⟨hne, hall⟩ := hmembers
    split
    · rename_i type heq
      exact .pure (hall type (by rw [heq]; exact List.mem_singleton_self _))
    · rename_i hnot
      refine .pure (wellFormed_union ?_ hall _)
      match hlist : members.toList with
      | [] => exact absurd hlist hne
      | [type] => exact absurd hlist (hnot type)
      | _ :: _ :: _ => simp

end Grammar

end PklSyntax
