import PklSyntax.Grammar.Nesting
import PklSyntax.Proofs.Growth.Expression
import PklSyntax.Proofs.Layout.Declaration

/-!
# Growth: declarations

A declaration is read in one go, and when it is given up, one fault says why. This holds of the
members of classes and objects, and of all declarations but classes with a body: for these it holds
of what stands in front of the body.

## Main definitions

* `ClassHead`, `Grammar.classHead`: a class without its body.

## Main statements

* `Grammar.classRule_eq`: a class is a head and perhaps a body behind it.
* `Grammar.Grows.propertyRule`, `Grammar.Grows.functionRule`, `Grammar.Grows.classMember`.
* `Grammar.Grows.classHead`, `Grammar.Grows.importRule`, and so on.
-/

namespace PklSyntax

/-- What stands in front of a declaration is well-formed. -/
def Preamble.WellFormed (before : Preamble) : Prop :=
  ∀ a ∈ before.annotations, (Node.annotation a).WellFormed

/-- The fields that end a declaration hold well-formed nodes. -/
theorem wellFormed_documentation {doc : Option DocComment} {annotations : List Annotation}
    (h : ∀ a ∈ annotations, (Node.annotation a).WellFormed) :
    ∀ field ∈ documentationFields doc annotations, ∀ n ∈ field.value.children, n.WellFormed := by
  simpa [documentationFields] using h

/-- A declaration is well-formed when what its own fields hold is, and what stands in front of it. -/
theorem Node.WellFormed.of_documentation {n : Node} {own : List Field} {doc : Option DocComment}
    {annotations : List Annotation} (hn : n.Conforms)
    (hfields : n.fields = own ++ documentationFields doc annotations)
    (hown : ∀ child ∈ own.flatMap fun field => field.value.children, child.WellFormed)
    (hannotations : ∀ a ∈ annotations, (Node.annotation a).WellFormed) : n.WellFormed := by
  rw [wellFormed_iff, children, hfields, List.flatMap_append]
  refine ⟨hn, fun child hchild => (List.mem_append.1 hchild).elim (hown child) fun hchild => ?_⟩
  obtain ⟨field, hfield, hchild⟩ := List.mem_flatMap.1 hchild
  exact wellFormed_documentation hannotations field hfield child hchild

namespace Parser

variable {ctx : Context} {s : State}

theorem modifiers_grows : modifiers.Grows ctx s fun _ _ => True := by
  refine .repeating (fun _ _ => True) trivial fun found s₁ _ _ => skip_grows.bind fun _ s₂ _ _ =>
    .look (firstModifier?_looks _) ?_
  split
  · exact (advance_grows _).bind fun _ s₃ _ _ => .pure trivial
  · exact .pure trivial

theorem variance_grows : variance.Grows ctx s fun _ _ => True := by
  refine .look (atWord_looks _) (.ite (fun _ => ?_) fun _ => .look (atWord_looks _)
    (.ite (fun _ => ?_) fun _ => .pure trivial))
  · exact (advance_grows 2).bind fun _ s₁ _ _ => .pure trivial
  · exact (advance_grows 3).bind fun _ s₁ _ _ => .pure trivial

end Parser

namespace Grammar

open PklSyntax.Parser

variable {g : Grammar} {ctx : Context} {s : State}

/-! ### In front of a declaration -/

theorem Grows.annotationRule (hg : g.Grows ctx) :
    g.annotationRule.Grows ctx s fun annotation _ => ( Node.annotation annotation).WellFormed := by
  refine .look position_looks ((advance_grows 1).bind fun _ s₁ _ _ =>
    qualifiedName_grows.bind fun name s₂ _ hname => announced_grows
      ((atToken_grows "\x7b").mono fun _ _ _ _ => trivial) hg.body fun body? s₃ _ hbody => .pure ?_)
  rw [Node.wellFormed_iff]
  refine ⟨trivial, ?_⟩
  simpa [Node.children, Node.fields, Annotation.fields, or_imp, forall_and]
    using ⟨hname.1, hbody⟩

theorem Grows.annotationRules (hg : g.Grows ctx) :
    g.annotationRules.Grows ctx s fun annotations _ =>
      ∀ a ∈ annotations, ( Node.annotation a).WellFormed :=
  .bind (P := fun annotations _ => ∀ a ∈ annotations.toList, ( Node.annotation a).WellFormed)
    (.repeating (fun annotations _ => ∀ a ∈ annotations.toList, ( Node.annotation a).WellFormed)
      (by simp) fun annotations s₁ _ hannotations => (atToken_grows "@").bind fun found s₂ _ _ =>
        .ite (fun _ => hg.annotationRule.bind fun a s₃ _ ha =>
          .pure (forall_mem_toList_push hannotations ha)) fun _ => .pure hannotations)
    fun annotations s₁ _ h => .pure h

theorem Grows.preamble (hg : g.Grows ctx) :
    g.preamble.Grows ctx s fun before _ => before.WellFormed :=
  .look position_looks (takeDoc_grows.bind fun _ _ _ _ => hg.annotationRules.bind
    fun _ _ _ hannotations => modifiers_grows.bind fun _ _ _ _ =>
      skip_grows.bind fun _ _ _ _ => .pure hannotations)

/-! ### Type parameters -/

theorem Grows.typeParameter (hg : g.Grows ctx) :
    g.typeParameter.Grows ctx s fun param _ => (Node.typeParameter param).WellFormed := by
  refine skip_grows.bind fun _ s₁ _ _ => .look position_looks (variance_grows.bind
    fun variance s₂ _ _ => (hg.type s₂).bind fun type s₃ _ htype => .pure ?_)
  rw [Node.wellFormed_iff]
  exact ⟨trivial, by simpa [Node.children, Node.fields, TypeParameter.fields] using htype⟩

theorem Grows.typeParameters (hg : g.Grows ctx) {stop : Int} :
    (g.typeParameters stop).Grows ctx s fun params _ =>
      ∀ param ∈ params.1, (Node.typeParameter param).WellFormed := by
  refine (accept?_grows (by decide)).bind fun opening? s₁ _ _ => ?_
  cases opening? with
  | none => exact .pure (by simp)
  | some opening =>
    refine (accept?_grows (by decide)).bind fun close? s₂ _ _ => ?_
    cases close? with
    | some close => exact (report_grows rfl rfl).bind fun _ s₃ _ _ => .pure (by simp)
    | none =>
      exact hg.typeParameter.bind fun first s₃ _ hfirst => .bind (P := fun params _ =>
        ∀ param ∈ params.toList, (Node.typeParameter param).WellFormed)
        (.repeating (fun params _ => ∀ param ∈ params.toList, (Node.typeParameter param).WellFormed)
          (by simpa using hfirst) fun params s₄ _ hparams => (accept_grows (by decide)).bind
            fun comma s₅ _ _ => .ite (fun _ => hg.typeParameter.bind fun param s₆ _ hparam =>
              .pure (forall_mem_toList_push hparams hparam)) fun _ => .pure hparams)
        fun params s₄ _ hparams => (expect_grows (by decide)).bind fun close s₅ _ _ => .pure hparams

/-! ### Properties and functions -/

theorem Grows.objectForm (hg : g.Grows ctx) :
    g.objectForm.Grows ctx s fun form _ => (Node.objectForm form).WellFormed := by
  refine (hg.body s).bind fun first s₁ _ hfirst => (hg.moreBodies hfirst).bind
    fun bodies s₂ _ hbodies => .pure ?_
  rw [Node.wellFormed_iff]
  exact ⟨hbodies.1, by simpa [Node.children, Node.fields, ObjectForm.fields] using hbodies.2.1⟩

theorem Grows.propertyForm (hg : g.Grows ctx) {name : Identifier} :
    (g.propertyForm name).Grows ctx s fun form _ => (Node.ofPropertyForm form).WellFormed := by
  refine (atToken_grows "\x7b").bind fun brace s₁ _ _ => ?_
  refine .ite (fun _ => hg.objectForm.bind fun form s₂ _ hform => .pure hform) fun _ => ?_
  refine hg.annotatedType fun type? s₂ _ htype => atAssign_grows.bind fun assign s₃ _ _ => ?_
  refine .ite (fun _ => (advance_grows 1).bind fun _ s₄ _ _ => (hg.expr' s₄).bind
    fun value s₅ _ hvalue => .pure ?_) fun _ => ?_
  · refine (Node.wellFormed_iff (.propertyForm _)).2 ⟨trivial, ?_⟩
    simpa [Node.children, Node.fields, PropertyForm.fields, or_imp, forall_and] using ⟨htype, hvalue⟩
  · cases type? with
    | some type =>
      refine .pure ((Node.wellFormed_iff (.propertyForm _)).2 ⟨trivial, ?_⟩)
      simpa [Node.children, Node.fields, PropertyForm.fields] using htype
    | none => exact failWith_grows rfl

theorem Grows.propertyRule (hg : g.Grows ctx) {before : Preamble} (hbefore : before.WellFormed) :
    (g.propertyRule before).Grows ctx s fun decl s' =>
      (Node.property decl).WellFormed ∧ Advanced ctx.text s s' := by
  refine expectName_grows.bind fun name s₁ _ hname => hg.propertyForm.bind fun form s₂ h₂ hform =>
    .pure ⟨.of_documentation trivial rfl ?_ hbefore, hname.grown h₂⟩
  simpa using hform

theorem Grows.functionRule (hg : g.Grows ctx) {before : Preamble} (hbefore : before.WellFormed)
    (hword : wordAt ctx.text "function" s.pos = true) :
    (g.functionRule before).Grows ctx s fun decl s' =>
      (Node.function decl).WellFormed ∧ Advanced ctx.text s s' := by
  refine .bind (advance_matched_grows _ (matchesAt_of_wordAt hword) (by decide)) fun _ s₁ _ hadv =>
    .mono (P := fun decl _ => (Node.function decl).WellFormed) ?_
      fun _ _ h hdecl => ⟨hdecl, hadv.grown h⟩
  refine expectName_grows.bind fun name s₂ _ _ => hg.typeParameters.bind
    fun typeParams s₃ _ htypeParams => hg.params.bind fun params s₄ _ hparams =>
      hg.annotatedType fun result? s₅ _ hresult => atAssign_grows.bind fun hasBody s₆ _ _ => ?_
  refine .option (P := fun _ _ => True) () (fun _ => (advance_grows 1).mono fun _ _ _ _ => trivial)
    (fun _ => trivial) fun _ s₇ _ _ => .branch
      (P := fun body? _ => ∀ e ∈ body?, (Node.expr e).WellFormed)
      (fun _ => .map ((hg.expr' s₇).mono fun e _ _ he => by simpa using he))
      (fun _ => .pure (by simp)) fun body? s₈ _ hbody => .pure ?_
  refine .of_documentation trivial rfl ?_ hbefore
  simpa [or_imp, forall_and] using ⟨htypeParams, hparams.1, hresult, hbody⟩

/-! ### Classes -/

theorem Grows.classMember (hg : g.Grows ctx) :
    g.classMember.Grows ctx s fun member s' =>
      (Node.ofClassMember member).WellFormed ∧ Advanced ctx.text s s' := by
  refine hg.preamble.bind fun before s₁ h₁ hbefore => .look (atWord_looks _) ?_
  refine .ite (fun hword => (hg.functionRule hbefore hword).bind fun decl s₂ _ hdecl =>
    .pure ⟨hdecl.1, h₁.advanced hdecl.2⟩) fun _ => ?_
  exact .look atIdentifier_looks (.ite (fun _ => (hg.propertyRule hbefore).bind
    fun decl s₂ _ hdecl => .pure ⟨hdecl.1, h₁.advanced hdecl.2⟩) fun _ => failExpected_grows)

end Grammar

/-- A class without its body, with the offset behind it. -/
structure ClassHead where
  before : Preamble
  name : Identifier
  typeParams : List TypeParameter
  parent : Option TypeExpr
  stop : Int

namespace ClassHead

/-- The class with a body, or without one. -/
def withBody (head : ClassHead) (body : Option (List ClassMember × Int)) : ClassDecl where
  modifiers := head.before.modifiers
  name := head.name
  typeParams := head.typeParams
  parent := head.parent
  body := body.map Prod.fst
  doc := head.before.doc
  annotations := head.before.annotations
  span := ⟨head.before.start, body.elim head.stop Prod.snd⟩

/-- The parts of the class are well-formed. -/
structure WellFormed (head : ClassHead) : Prop where
  before : head.before.WellFormed
  typeParams : ∀ param ∈ head.typeParams, (Node.typeParameter param).WellFormed
  parent : ∀ type ∈ head.parent, (Node.type type).WellFormed

theorem WellFormed.withBody {head : ClassHead} (h : head.WellFormed)
    {body : Option (List ClassMember × Int)}
    (hbody : ∀ members ∈ body, ∀ m ∈ members.1, (Node.ofClassMember m).WellFormed) :
    (Node.classDecl (head.withBody body)).WellFormed := by
  refine .of_documentation trivial rfl ?_ h.before
  cases body with
  | none => simpa [ClassHead.withBody, or_imp, forall_and] using ⟨h.typeParams, h.parent⟩
  | some members =>
    simpa [ClassHead.withBody, or_imp, forall_and]
      using ⟨h.typeParams, h.parent, fun m hm => hbody members rfl m hm⟩

end ClassHead

namespace Grammar

open PklSyntax.Parser

variable {g : Grammar} {ctx : Context} {s : State}

/-- A class up to its body. -/
def classHead (g : Grammar) (before : Preamble) : Parser ClassHead := do
  advance "class".length
  let name ← expectName "a class name"
  let (typeParams, stop) ← g.typeParameters name.span.stop
  let parent ← if ← acceptKeyword "extends" then some <$> g.type else pure none
  return ⟨before, name, typeParams, parent, (parent.map TypeExpr.span).elim stop Span.stop⟩

/-- A class is a head and perhaps a body behind it. -/
theorem classRule_eq (g : Grammar) (before : Preamble) :
    g.classRule before = do
      let head ← g.classHead before
      let body ← if ← atToken "\x7b" then some <$> g.classBody else pure none
      return head.withBody body := by
  rw [classRule, classHead]
  simp only [bind_assoc, pure_bind]
  refine congrArg _ (funext fun _ => congrArg _ (funext fun name => congrArg _ (funext fun params =>
    congrArg _ (funext fun extending => ?_))))
  cases extending <;> simp only [bind_assoc, pure_bind, if_true, if_false, Bool.false_eq_true] <;>
    rfl

theorem Grows.classHead (hg : g.Grows ctx) {before : Preamble} (hbefore : before.WellFormed)
    (hword : wordAt ctx.text "class" s.pos = true) :
    (g.classHead before).Grows ctx s fun head s' => head.WellFormed ∧ Advanced ctx.text s s' := by
  refine .bind (advance_matched_grows _ (matchesAt_of_wordAt hword) (by decide)) fun _ s₁ _ hadv =>
    .mono (P := fun head _ => ClassHead.WellFormed head) ?_ fun _ _ h hhead => ⟨hhead, hadv.grown h⟩
  refine expectName_grows.bind fun name s₂ _ _ => hg.typeParameters.bind
    fun typeParams s₃ _ htypeParams => announced_grows
      ((acceptKeyword_grows (by decide)).mono fun _ _ _ _ => trivial) hg.type
      fun parent? s₄ _ hparent => .pure ⟨hbefore, htypeParams, hparent⟩

/-! ### Clauses of a module -/

theorem moduleClauseRule_grows {before : Preamble} (hbefore : before.WellFormed)
    (hword : wordAt ctx.text "module" s.pos = true) :
    (moduleClauseRule before).Grows ctx s fun clause s' =>
      (Node.moduleClause clause).WellFormed ∧ Advanced ctx.text s s' := by
  refine .bind (advance_matched_grows _ (matchesAt_of_wordAt hword) (by decide)) fun _ s₁ _ hadv =>
    skip_grows.bind fun _ s₂ h₂ _ => qualifiedName_grows.bind fun name s₃ h₃ hname =>
      .pure ⟨.of_documentation trivial rfl ?_ hbefore, (hadv.grown h₂).grown h₃⟩
  simpa using hname.1

theorem Grows.importRule (hg : g.Grows ctx) {before : Preamble} (hbefore : before.WellFormed)
    (hword : wordAt ctx.text "import" s.pos = true) :
    (g.importRule before).Grows ctx s fun decl s' =>
      (Node.importDecl decl).WellFormed ∧ Advanced ctx.text s s' := by
  refine .bind (advance_matched_grows _ (matchesAt_of_wordAt hword) (by decide)) fun _ s₁ _ hadv =>
    .mono (P := fun decl _ => (Node.importDecl decl).WellFormed) ?_
      fun _ _ h hdecl => ⟨hdecl, hadv.grown h⟩
  refine .look peek_looks (.option (P := fun _ _ => True) () (fun _ => (advance_grows 1).mono
    fun _ _ _ _ => trivial) (fun _ => trivial) fun _ s₂ _ _ => hg.sourceString.bind
      fun source s₃ _ _ => announced_grows (P := fun _ => True)
        ((acceptKeyword_grows (by decide)).mono fun _ _ _ _ => trivial)
        (fun s' => expectName_grows.mono fun _ _ _ _ => trivial) fun localName s₄ _ _ => .pure ?_)
  exact .of_documentation trivial rfl (by simp) hbefore

theorem Grows.extendsRule (hg : g.Grows ctx) {before : Preamble} (hbefore : before.WellFormed) :
    (g.extendsRule before).Grows ctx s fun clause s' =>
      (Node.extendsClause clause).WellFormed ∧ Advanced ctx.text s s' :=
  (advance_grows _).bind fun _ s₁ h₁ _ => hg.sourceString.bind fun source s₂ _ hsource =>
    .pure ⟨.of_documentation trivial (show Node.fields _ = [_] ++ _ from rfl) (by simp) hbefore, h₁.advanced hsource⟩

theorem Grows.amendsRule (hg : g.Grows ctx) {before : Preamble} (hbefore : before.WellFormed) :
    (g.amendsRule before).Grows ctx s fun clause s' =>
      (Node.amendsClause clause).WellFormed ∧ Advanced ctx.text s s' :=
  (advance_grows _).bind fun _ s₁ h₁ _ => hg.sourceString.bind fun source s₂ _ hsource =>
    .pure ⟨.of_documentation trivial (show Node.fields _ = [_] ++ _ from rfl) (by simp) hbefore, h₁.advanced hsource⟩

theorem Grows.typeAliasRule (hg : g.Grows ctx) {before : Preamble} (hbefore : before.WellFormed) :
    (g.typeAliasRule before).Grows ctx s fun decl s' =>
      (Node.typeAlias decl).WellFormed ∧ Advanced ctx.text s s' := by
  refine (advance_grows _).bind fun _ s₁ h₁ _ => expectName_grows.bind fun name s₂ h₂ hname =>
    hg.typeParameters.bind fun typeParams s₃ h₃ htypeParams => (expect_grows (by decide)).bind
      fun _ s₄ h₄ _ => (hg.type s₄).bind fun aliased s₅ h₅ haliased =>
        .pure ⟨.of_documentation trivial rfl ?_ hbefore,
          h₁.advanced (((hname.grown h₃).grown h₄).grown h₅)⟩
  simpa [or_imp, forall_and] using ⟨htypeParams, haliased⟩

theorem failDeclaration_grows {Q : Declaration → State → Prop} : failDeclaration.Grows ctx s Q := by
  refine .look peek_looks (.look atEnd_looks (.ite (fun _ => failExpected_grows) fun _ =>
    .ite (fun _ => ?_) fun _ => ?_))
  · exact .idle here_idle fun _ => failWith_grows rfl
  · exact .idle describeCurrent_idle fun _ => .idle here_idle fun _ => failWith_grows rfl

end Grammar

end PklSyntax
