import PklSyntax.Grammar.Declaration
import PklSyntax.Proofs.Names.Expression

/-!
# Names in declarations

A declaration gives one name, and whatever name it gives was read as one. What stands in front of
it, its doc comment, annotations and modifiers, names nothing, but an annotation has an object body.

## Main definitions

* `Preamble.WellNamed`: what stands in front of a declaration is well-named.

## Main statements

* `Node.WellNamed.of_documentation`: when a declaration is well-named.
* `Grammar.WellNamed.propertyRule`, `Grammar.WellNamed.functionRule`, `Grammar.WellNamed.classRule`,
  `Grammar.WellNamed.typeAliasRule`, `Grammar.importRule_gives`: the names of declarations are free.
* `Grammar.WellNamed.declarationRule`: a declaration is well-named when what stands inside it is.
-/

namespace PklSyntax

/-! ### In front of a declaration -/

/-- What stands in front of a declaration is well-named. -/
def Preamble.WellNamed (before : Preamble) : Prop :=
  ∀ a ∈ before.annotations, (Node.annotation a).WellNamed

/-- A declaration is well-named when it names freely, what its own fields hold is well-named, and so
is what stands in front of it. -/
theorem Node.WellNamed.of_documentation {n : Node} {own : List Field} {before : Preamble}
    (hn : n.NamesFreely)
    (hfields : n.fields = own ++ documentationFields before.doc before.annotations)
    (hown : ∀ child ∈ own.flatMap fun field => field.value.children, child.WellNamed)
    (hbefore : before.WellNamed) : n.WellNamed := by
  have hdocumentation : ∀ child ∈ (documentationFields before.doc before.annotations).flatMap
      fun field => field.value.children, child.WellNamed := by
    simpa [documentationFields, or_imp, forall_and, Preamble.WellNamed] using hbefore
  refine .of_children hn ?_
  intro child hchild
  rw [children, hfields, List.flatMap_append, List.mem_append] at hchild
  exact hchild.elim (hown child) (hdocumentation child)

namespace Grammar

open PklSyntax.Parser

variable {g : Grammar} {before : Preamble}

/-! ### Clauses of a module -/

theorem moduleClauseRule_gives (hbefore : before.WellNamed) :
    (moduleClauseRule before).Gives fun clause => (Node.moduleClause clause).WellNamed := by
  refine .after fun _ => .after fun _ => .after fun name => .pure ?_
  refine .of_documentation trivial rfl ?_ hbefore
  simp

/-- The name under which a module is imported is free. -/
theorem importRule_gives (hbefore : before.WellNamed) :
    (g.importRule before).Gives fun decl => (Node.importDecl decl).WellNamed := by
  refine .after fun _ => .after fun c => .option () fun _ => .after fun source => ?_
  apply announced_gives expectName_gives
  intro localName? hname
  apply Gives.pure
  refine .of_documentation hname rfl ?_ hbefore
  simp

theorem extendsRule_gives (hbefore : before.WellNamed) :
    (g.extendsRule before).Gives fun clause => (Node.extendsClause clause).WellNamed := by
  have hfields (clause : ExtendsClause) : (Node.extendsClause clause).fields =
      [⟨"source", .text clause.source⟩] ++ documentationFields clause.doc clause.annotations := rfl
  refine .after fun _ => .after fun source => .pure ?_
  refine .of_documentation trivial (hfields _) ?_ hbefore
  simp

theorem amendsRule_gives (hbefore : before.WellNamed) :
    (g.amendsRule before).Gives fun clause => (Node.amendsClause clause).WellNamed := by
  have hfields (clause : AmendsClause) : (Node.amendsClause clause).fields =
      [⟨"source", .text clause.source⟩] ++ documentationFields clause.doc clause.annotations := rfl
  refine .after fun _ => .after fun source => .pure ?_
  refine .of_documentation trivial (hfields _) ?_ hbefore
  simp

theorem failDeclaration_gives {Q : Declaration → Prop} : failDeclaration.Gives Q := by
  refine .after fun c => .after fun ended => .ite (fun _ => failExpected_gives) fun _ => .ite
    (fun _ => .after fun span => failWith_gives) fun _ => ?_
  exact .after fun found => .after fun span => failWith_gives

namespace WellNamed

theorem annotationRule (hg : g.WellNamed) :
    g.annotationRule.Gives fun a => (Node.annotation a).WellNamed := by
  refine .after fun start => .after fun _ => .after fun name => ?_
  apply announced_gives hg.body
  intro body? hbody
  apply Gives.pure
  refine .of_children trivial ?_
  simpa [Node.children, Node.fields, Annotation.fields] using hbody

theorem preamble (hg : g.WellNamed) : g.preamble.Gives Preamble.WellNamed := by
  apply Gives.after
  intro start
  apply Gives.after
  intro doc
  apply Gives.bind (P := fun annotations => ∀ a ∈ annotations, (Node.annotation a).WellNamed)
  · apply (collect_gives hg.annotationRule (by simp)).bind
    intro annotations hannotations
    exact .pure hannotations
  · intro annotations hannotations
    exact .after fun modifiers => .after fun _ => .pure hannotations

/-! ### Type parameters -/

theorem typeParameter (hg : g.WellNamed) :
    g.typeParameter.Gives fun p => (Node.typeParameter p).WellNamed := by
  refine .after fun _ => .after fun start => .after fun variance => ?_
  apply hg.type.bind
  intro type htype
  apply Gives.pure
  refine .of_children trivial ?_
  simpa [Node.children, Node.fields, TypeParameter.fields] using htype

theorem typeParameters (hg : g.WellNamed) {stop : Int} :
    (g.typeParameters stop).Gives fun params =>
      ∀ p ∈ params.1, (Node.typeParameter p).WellNamed := by
  apply Gives.after
  intro opening?
  cases opening? with
  | none =>
    apply Gives.pure
    simp
  | some opening =>
    apply Gives.after
    intro close?
    cases close? with
    | some close =>
      apply Gives.after
      intro _
      apply Gives.pure
      simp
    | none =>
      apply hg.typeParameter.bind
      intro first hfirst
      apply (collect_gives hg.typeParameter (by simpa using hfirst)).bind
      intro params hparams
      apply Gives.after
      intro close
      exact .pure hparams

/-! ### Properties and functions -/

theorem objectForm (hg : g.WellNamed) :
    g.objectForm.Gives fun form => (Node.objectForm form).WellNamed := by
  apply hg.body.bind
  intro first hfirst
  apply (hg.moreBodies hfirst).bind
  intro bodies hbodies
  apply Gives.pure
  refine .of_children trivial ?_
  simpa [Node.children, Node.fields, ObjectForm.fields] using hbodies

theorem propertyForm (hg : g.WellNamed) {name : Identifier} :
    (g.propertyForm name).Gives fun form => (Node.ofPropertyForm form).WellNamed := by
  refine .after fun brace => .ite (fun _ => hg.objectForm.bind fun form hform => .pure hform)
    fun _ => hg.annotatedType fun type? htype => .after fun assign => .ite (fun _ => ?_) fun _ => ?_
  · apply Gives.after
    intro _
    apply hg.expr.bind
    intro value hvalue
    apply Gives.pure
    refine Node.WellNamed.of_children (n := .propertyForm _) trivial ?_
    simpa [Node.children, Node.fields, PropertyForm.fields, or_imp, forall_and]
      using ⟨htype, hvalue⟩
  · cases type? with
    | none => exact failWith_gives
    | some type =>
      apply Gives.pure
      refine Node.WellNamed.of_children (n := .propertyForm _) trivial ?_
      simpa [Node.children, Node.fields, PropertyForm.fields] using htype

theorem propertyRule (hg : g.WellNamed) (hbefore : before.WellNamed) :
    (g.propertyRule before).Gives fun decl => (Node.property decl).WellNamed := by
  apply expectName_gives.bind
  intro name hname
  apply hg.propertyForm.bind
  intro form hform
  apply Gives.pure
  refine .of_documentation hname rfl ?_ hbefore
  simpa using hform

theorem functionRule (hg : g.WellNamed) (hbefore : before.WellNamed) :
    (g.functionRule before).Gives fun decl => (Node.function decl).WellNamed := by
  apply Gives.after
  intro _
  apply expectName_gives.bind
  intro name hname
  apply hg.typeParameters.bind
  intro typeParams htypeParams
  apply hg.params.bind
  intro params hparams
  apply hg.annotatedType
  intro result? hresult
  refine .after fun hasBody => .option () fun _ => .branch
    (P := fun body? => ∀ e ∈ body?, (Node.expr e).WellNamed)
    (fun _ => .map (hg.expr.mono fun e he => by simpa using he)) (fun _ => .pure (by simp)) ?_
  intro body? hbody
  apply Gives.pure
  refine .of_documentation hname rfl ?_ hbefore
  simpa [or_imp, forall_and] using ⟨htypeParams, hparams, hresult, hbody⟩

/-! ### Classes -/

theorem classMember (hg : g.WellNamed) :
    g.classMember.Gives fun member => (Node.ofClassMember member).WellNamed := by
  apply hg.preamble.bind
  intro before hbefore
  refine .after fun _ => .ite (fun _ => ?_) fun _ => .after fun _ => .ite (fun _ => ?_) fun _ => ?_
  · exact (hg.functionRule hbefore).bind fun decl hdecl => .pure hdecl
  · exact (hg.propertyRule hbefore).bind fun decl hdecl => .pure hdecl
  · exact failExpected_gives

/-- The members that are not left out are well-named. -/
theorem classBody (hg : g.WellNamed) :
    g.classBody.Gives fun body => ∀ member ∈ body.1, (Node.ofClassMember member).WellNamed := by
  apply Gives.after
  intro opening
  apply Gives.bind (P := fun members => ∀ member ∈ members.toList,
    (Node.ofClassMember member).WellNamed)
  · apply Gives.repeating fun members => ∀ member ∈ members.toList,
      (Node.ofClassMember member).WellNamed
    · simp
    · intro members hmembers
      refine .after fun _ => .after fun ended => .guard failWith_gives fun _ => .after fun c =>
        .ite (fun _ => .after fun _ => .pure hmembers) fun _ => .after fun start => ?_
      apply hg.classMember.attempt.bind
      intro member? hmember
      cases member? with
      | some member => exact .pure (forall_mem_toList_push hmembers (hmember member rfl))
      | none =>
        exact .after fun limit => .guard throw_gives fun _ => .after fun _ => .pure hmembers
  · intro members hmembers
    apply Gives.after
    intro stop
    exact .pure hmembers

theorem classRule (hg : g.WellNamed) (hbefore : before.WellNamed) :
    (g.classRule before).Gives fun decl => (Node.classDecl decl).WellNamed := by
  apply Gives.after
  intro _
  apply expectName_gives.bind
  intro name hname
  apply hg.typeParameters.bind
  intro typeParams htypeParams
  apply announced_gives hg.type
  intro parent? hparent
  apply announced_gives hg.classBody
  intro body? hbody
  apply Gives.pure
  refine .of_documentation hname rfl ?_ hbefore
  cases body? with
  | none => simpa [or_imp, forall_and] using ⟨htypeParams, hparent⟩
  | some body => simpa [or_imp, forall_and] using ⟨htypeParams, hparent, by simpa using hbody⟩

theorem typeAliasRule (hg : g.WellNamed) (hbefore : before.WellNamed) :
    (g.typeAliasRule before).Gives fun decl => (Node.typeAlias decl).WellNamed := by
  apply Gives.after
  intro _
  apply expectName_gives.bind
  intro name hname
  apply hg.typeParameters.bind
  intro typeParams htypeParams
  apply Gives.after
  intro _
  apply hg.type.bind
  intro aliased haliased
  apply Gives.pure
  refine .of_documentation hname rfl ?_ hbefore
  simpa [or_imp, forall_and] using ⟨htypeParams, haliased⟩

/-! ### Declarations of a module -/

theorem declarationRule (hg : g.WellNamed) :
    g.declarationRule.Gives fun decl => (Node.ofDeclaration decl).WellNamed := by
  apply hg.preamble.bind
  intro before hbefore
  refine .after fun _ => .ite (fun _ => (moduleClauseRule_gives hbefore).bind
    fun clause hclause => .pure hclause) fun _ => ?_
  refine .after fun _ => .ite (fun _ => (importRule_gives hbefore).bind
    fun decl hdecl => .pure hdecl) fun _ => ?_
  refine .after fun _ => .ite (fun _ => (extendsRule_gives hbefore).bind
    fun clause hclause => .pure hclause) fun _ => ?_
  refine .after fun _ => .ite (fun _ => (amendsRule_gives hbefore).bind
    fun clause hclause => .pure hclause) fun _ => ?_
  refine .after fun _ => .ite (fun _ => (hg.typeAliasRule hbefore).bind
    fun decl hdecl => .pure hdecl) fun _ => ?_
  refine .after fun _ => .ite (fun _ => (hg.classRule hbefore).bind
    fun decl hdecl => .pure hdecl) fun _ => ?_
  refine .after fun _ => .ite (fun _ => (hg.functionRule hbefore).bind
    fun decl hdecl => .pure hdecl) fun _ => ?_
  refine .after fun _ => .ite (fun _ => (hg.propertyRule hbefore).bind
    fun decl hdecl => .pure hdecl) fun _ => failDeclaration_gives

end WellNamed

end Grammar

end PklSyntax
