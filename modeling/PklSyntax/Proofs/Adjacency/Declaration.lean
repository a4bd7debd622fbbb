import PklSyntax.Grammar.Declaration
import PklSyntax.Proofs.Adjacency.Expression

/-!
# Types and literals in declarations

A declaration has neither suffixes nor units of its own: it is well-joined when the types,
expressions and object bodies in it are, and so is what stands in front of it.

## Main definitions

* `Preamble.WellJoined`: what stands in front of a declaration is well-joined.

## Main statements

* `Node.WellJoined.of_documentation`: when a declaration is well-joined.
* `Grammar.Joins.declarationRule`: a declaration is well-joined when what stands inside it is.
-/

namespace PklSyntax

/-! ### In front of a declaration -/

/-- What stands in front of a declaration is well-joined. -/
def Preamble.WellJoined (text : Array Char) (before : Preamble) : Prop :=
  ∀ a ∈ before.annotations, (Node.annotation a).WellJoined text

/-- A declaration is well-joined when what its own fields hold is, and what stands in front of
it. -/
theorem Node.WellJoined.of_documentation {text : Array Char} {n : Node} {own : List Field}
    {before : Preamble} (hn : n.Joined text)
    (hfields : n.fields = own ++ documentationFields before.doc before.annotations)
    (hown : ∀ child ∈ own.flatMap fun field => field.value.children, child.WellJoined text)
    (hbefore : before.WellJoined text) : n.WellJoined text := by
  have hdocumentation : ∀ child ∈ (documentationFields before.doc before.annotations).flatMap
      fun field => field.value.children, child.WellJoined text := by
    simpa [documentationFields, or_imp, forall_and, Preamble.WellJoined] using hbefore
  refine .of_children hn ?_
  intro child hchild
  rw [children, hfields, List.flatMap_append, List.mem_append] at hchild
  exact hchild.elim (hown child) (hdocumentation child)

namespace Grammar

open PklSyntax.Parser

variable {g : Grammar} {ctx : Context} {s : State} {before : Preamble}

/-! ### Clauses of a module -/

theorem moduleClauseRule_leaves (hbefore : before.WellJoined ctx.text) :
    (moduleClauseRule before).Leaves Steady ctx s fun clause _ =>
      (Node.moduleClause clause).WellJoined ctx.text := by
  refine .after fun _ _ => .after fun _ _ => .after fun name _ => .pure ?_
  refine .of_documentation trivial rfl ?_ hbefore
  simp

theorem importRule_leaves [g.Upkept] (hbefore : before.WellJoined ctx.text) :
    (g.importRule before).Leaves Steady ctx s fun decl _ =>
      (Node.importDecl decl).WellJoined ctx.text := by
  refine .after fun _ _ => .after fun c _ => .option () fun _ _ => .after fun source _ => ?_
  apply announced_leaves (P := fun _ => True) fun _ => .of_run fun _ _ _ _ => trivial
  intro localName? _ _
  refine .pure (.of_documentation trivial rfl ?_ hbefore)
  simp

theorem extendsRule_leaves [g.Upkept] (hbefore : before.WellJoined ctx.text) :
    (g.extendsRule before).Leaves Steady ctx s fun clause _ =>
      (Node.extendsClause clause).WellJoined ctx.text := by
  have hfields (clause : ExtendsClause) : (Node.extendsClause clause).fields =
      [⟨"source", .text clause.source⟩] ++ documentationFields clause.doc clause.annotations := rfl
  refine .after fun _ _ => .after fun source _ => .pure ?_
  refine .of_documentation trivial (hfields _) ?_ hbefore
  simp

theorem amendsRule_leaves [g.Upkept] (hbefore : before.WellJoined ctx.text) :
    (g.amendsRule before).Leaves Steady ctx s fun clause _ =>
      (Node.amendsClause clause).WellJoined ctx.text := by
  have hfields (clause : AmendsClause) : (Node.amendsClause clause).fields =
      [⟨"source", .text clause.source⟩] ++ documentationFields clause.doc clause.annotations := rfl
  refine .after fun _ _ => .after fun source _ => .pure ?_
  refine .of_documentation trivial (hfields _) ?_ hbefore
  simp

theorem failDeclaration_leaves {I : Context → State → Prop} {Q : Declaration → State → Prop} :
    failDeclaration.Leaves I ctx s Q := by
  apply Leaves.of_never
  refine .after fun c _ => .after fun ended _ => .ite (fun _ => failExpected_leaves) fun _ => .ite
    (fun _ => .after fun span _ => failWith_leaves) fun _ => ?_
  exact .after fun found _ => .after fun span _ => failWith_leaves

namespace Joins

theorem annotationRule (hg : g.Joins ctx) (s : State) :
    g.annotationRule.Leaves Steady ctx s fun a _ => (Node.annotation a).WellJoined ctx.text := by
  refine .after fun start _ => .after fun _ _ => .after fun name _ => ?_
  apply announced_leaves hg.body
  intro body? _ hbody
  refine .pure (.of_children trivial ?_)
  simpa [Node.children, Node.fields, Annotation.fields] using hbody

theorem preamble (hg : g.Joins ctx) :
    g.preamble.Leaves Steady ctx s fun before _ => before.WellJoined ctx.text := by
  refine .after fun start _ => .after fun doc _ => ?_
  apply Leaves.bind (P := fun annotations _ =>
    ∀ a ∈ annotations, (Node.annotation a).WellJoined ctx.text)
  · apply (collect_leaves hg.annotationRule (by simp)).bind
    intro annotations _ hannotations
    exact .pure hannotations
  · intro annotations _ hannotations
    exact .after fun modifiers _ => .after fun _ _ => .pure hannotations

/-! ### Type parameters -/

theorem typeParameter (hg : g.Joins ctx) (s : State) :
    g.typeParameter.Leaves Steady ctx s fun p _ => (Node.typeParameter p).WellJoined ctx.text := by
  refine .after fun _ _ => .after fun start _ => .after fun variance s₁ => ?_
  refine (hg.type s₁).bind fun type _ htype => .pure (.of_children trivial ?_)
  simpa [Node.children, Node.fields, TypeParameter.fields] using htype

theorem typeParameters (hg : g.Joins ctx) {stop : Int} :
    (g.typeParameters stop).Leaves Steady ctx s fun params _ =>
      ∀ p ∈ params.1, (Node.typeParameter p).WellJoined ctx.text := by
  apply Leaves.after
  intro opening? _
  cases opening? with
  | none =>
    apply Leaves.pure
    simp
  | some opening =>
    apply Leaves.after
    intro close? s₁
    cases close? with
    | some close =>
      refine .after fun _ _ => .pure ?_
      simp
    | none =>
      refine (hg.typeParameter s₁).bind fun first _ hfirst => ?_
      refine (collect_leaves hg.typeParameter (by simpa using hfirst)).bind ?_
      intro params _ hparams
      exact .after fun close _ => .pure hparams

/-! ### Properties and functions -/

theorem objectForm (hg : g.Joins ctx) :
    g.objectForm.Leaves Steady ctx s fun form _ => (Node.objectForm form).WellJoined ctx.text := by
  refine (hg.body s).bind fun first _ hfirst => (hg.moreBodies hfirst).bind ?_
  intro bodies _ hbodies
  refine .pure (.of_children trivial ?_)
  simpa [Node.children, Node.fields, ObjectForm.fields] using hbodies

theorem propertyForm (hg : g.Joins ctx) {name : Identifier} :
    (g.propertyForm name).Leaves Steady ctx s fun form _ =>
      (Node.ofPropertyForm form).WellJoined ctx.text := by
  refine .after fun brace _ => .ite (fun _ => hg.objectForm.bind fun form _ hform => .pure hform)
    fun _ => hg.annotatedType fun type? _ htype => .after fun assign _ => .ite (fun _ => ?_)
      fun _ => ?_
  · refine .after fun _ s₁ => (hg.expr s₁).bind fun value _ hvalue => .pure ?_
    refine Node.WellJoined.of_children (n := .propertyForm _) trivial ?_
    simpa [Node.children, Node.fields, PropertyForm.fields, or_imp, forall_and]
      using ⟨htype, hvalue⟩
  · cases type? with
    | none => exact failWith_leaves
    | some type =>
      refine .pure (Node.WellJoined.of_children (n := .propertyForm _) trivial ?_)
      simpa [Node.children, Node.fields, PropertyForm.fields] using htype

theorem propertyRule (hg : g.Joins ctx) (hbefore : before.WellJoined ctx.text) :
    (g.propertyRule before).Leaves Steady ctx s fun decl _ =>
      (Node.property decl).WellJoined ctx.text := by
  refine .after fun name _ => hg.propertyForm.bind fun form _ hform => .pure ?_
  refine .of_documentation trivial rfl ?_ hbefore
  simpa using hform

theorem functionRule (hg : g.Joins ctx) (hbefore : before.WellJoined ctx.text) :
    (g.functionRule before).Leaves Steady ctx s fun decl _ =>
      (Node.function decl).WellJoined ctx.text := by
  refine .after fun _ _ => .after fun name _ => hg.typeParameters.bind ?_
  intro typeParams _ htypeParams
  apply hg.params.bind
  intro params _ hparams
  apply hg.annotatedType
  intro result? _ hresult
  refine .after fun hasBody _ => .option () fun _ s₁ => .branch
    (P := fun body? _ => ∀ e ∈ body?, (Node.expr e).WellJoined ctx.text)
    (fun _ => .map ((hg.expr s₁).mono fun e _ he => by simpa using he))
    (fun _ => .pure (by simp)) ?_
  intro body? _ hbody
  refine .pure (.of_documentation trivial rfl ?_ hbefore)
  simpa [or_imp, forall_and] using ⟨htypeParams, hparams, hresult, hbody⟩

/-! ### Classes -/

theorem classMember (hg : g.Joins ctx) :
    g.classMember.Leaves Steady ctx s fun member _ =>
      (Node.ofClassMember member).WellJoined ctx.text := by
  refine hg.preamble.bind fun before _ hbefore => ?_
  refine .after fun _ _ => .ite (fun _ => ?_) fun _ => .after fun _ _ => .ite (fun _ => ?_)
    fun _ => failExpected_leaves
  · exact (hg.functionRule hbefore).bind fun decl _ hdecl => .pure hdecl
  · exact (hg.propertyRule hbefore).bind fun decl _ hdecl => .pure hdecl

theorem classBody (hg : g.Joins ctx) (s : State) :
    g.classBody.Leaves Steady ctx s fun body _ =>
      ∀ member ∈ body.1, (Node.ofClassMember member).WellJoined ctx.text := by
  have := hg.upkept
  apply Leaves.after
  intro opening _
  apply Leaves.bind (P := fun members _ => ∀ member ∈ members.toList,
    (Node.ofClassMember member).WellJoined ctx.text)
  · apply Leaves.repeating fun members _ => ∀ member ∈ members.toList,
      (Node.ofClassMember member).WellJoined ctx.text
    · simp
    · intro members _ hmembers
      refine .after fun _ _ => .after fun ended _ => .guard failWith_leaves fun _ =>
        .after fun c _ => .ite (fun _ => .after fun _ _ => .pure hmembers) fun _ => ?_
      refine .after fun start _ => hg.classMember.attempt.bind fun member? _ hmember => ?_
      cases member? with
      | some member => exact .pure (forall_mem_toList_push hmembers (hmember member rfl))
      | none =>
        exact .after fun limit _ => .guard throw_leaves fun _ => .after fun _ _ => .pure hmembers
  · intro members _ hmembers
    exact .after fun stop _ => .pure hmembers

theorem classRule (hg : g.Joins ctx) (hbefore : before.WellJoined ctx.text) :
    (g.classRule before).Leaves Steady ctx s fun decl _ =>
      (Node.classDecl decl).WellJoined ctx.text := by
  refine .after fun _ _ => .after fun name _ => hg.typeParameters.bind ?_
  intro typeParams _ htypeParams
  apply announced_leaves hg.type
  intro parent? _ hparent
  apply announced_leaves hg.classBody
  intro body? _ hbody
  refine .pure (.of_documentation trivial rfl ?_ hbefore)
  cases body? with
  | none => simpa [or_imp, forall_and] using ⟨htypeParams, hparent⟩
  | some body => simpa [or_imp, forall_and] using ⟨htypeParams, hparent, by simpa using hbody⟩

theorem typeAliasRule (hg : g.Joins ctx) (hbefore : before.WellJoined ctx.text) :
    (g.typeAliasRule before).Leaves Steady ctx s fun decl _ =>
      (Node.typeAlias decl).WellJoined ctx.text := by
  refine .after fun _ _ => .after fun name _ => hg.typeParameters.bind ?_
  intro typeParams _ htypeParams
  refine .after fun _ s₁ => (hg.type s₁).bind fun aliased _ haliased => .pure ?_
  refine .of_documentation trivial rfl ?_ hbefore
  simpa [or_imp, forall_and] using ⟨htypeParams, haliased⟩

/-! ### Declarations of a module -/

theorem declarationRule (hg : g.Joins ctx) :
    g.declarationRule.Leaves Steady ctx s fun decl _ =>
      (Node.ofDeclaration decl).WellJoined ctx.text := by
  have := hg.upkept
  refine hg.preamble.bind fun before _ hbefore => ?_
  refine .after fun _ _ => .ite (fun _ => (moduleClauseRule_leaves hbefore).bind
    fun clause _ hclause => .pure hclause) fun _ => ?_
  refine .after fun _ _ => .ite (fun _ => (importRule_leaves hbefore).bind
    fun decl _ hdecl => .pure hdecl) fun _ => ?_
  refine .after fun _ _ => .ite (fun _ => (extendsRule_leaves hbefore).bind
    fun clause _ hclause => .pure hclause) fun _ => ?_
  refine .after fun _ _ => .ite (fun _ => (amendsRule_leaves hbefore).bind
    fun clause _ hclause => .pure hclause) fun _ => ?_
  refine .after fun _ _ => .ite (fun _ => (hg.typeAliasRule hbefore).bind
    fun decl _ hdecl => .pure hdecl) fun _ => ?_
  refine .after fun _ _ => .ite (fun _ => (hg.classRule hbefore).bind
    fun decl _ hdecl => .pure hdecl) fun _ => ?_
  refine .after fun _ _ => .ite (fun _ => (hg.functionRule hbefore).bind
    fun decl _ hdecl => .pure hdecl) fun _ => ?_
  exact .after fun _ _ => .ite (fun _ => (hg.propertyRule hbefore).bind
    fun decl _ hdecl => .pure hdecl) fun _ => failDeclaration_leaves

end Joins

end Grammar

end PklSyntax
