import PklSyntax.Grammar.Module
import PklSyntax.Proofs.Names.Declaration

/-!
# Names in modules

What begins like an expression inside an object body is first tried as a property. A keyword may
well stand in the place of its name, but then the try is given up, or the whole body is. With the
members of object bodies the circle of expressions, types and object bodies is closed, so that what
holds of the productions holds at every depth of nesting, and so of every text.

## Main statements

* `Grammar.loopNames_gives`: the names of a loop are free.
* `Grammar.WellNamed.propertyMember?`, `Grammar.WellNamed.bodyRule`: members of object bodies.
* `Grammar.wellNamed_nested`: the grammars of all depths give well-named trees.
* `parse_wellNamed`: no word of the language is a name in the tree of a text.
-/

namespace PklSyntax

namespace Grammar

open PklSyntax.Parser

variable {g : Grammar}

/-! ### Object bodies -/

/-- A member that is no property and no function is well-named when it names freely and its parts
are well-named. -/
theorem wellNamed_ofObjectMember {member : ObjectMember}
    (hnode : Node.ofObjectMember member = .objectMember member) (hmember : member.NamesFreely)
    (hchildren : ∀ child ∈ member.fields.flatMap fun field => field.value.children,
      child.WellNamed) : (Node.ofObjectMember member).WellNamed := by
  rw [hnode]
  exact .of_children hmember hchildren

theorem loopNames_gives : loopNames.Gives fun names => ∀ name ∈ names, name.Free := by
  apply expectName_gives.bind
  intro first hfirst
  refine .after fun comma => .ite (fun _ => ?_) fun _ => ?_
  · apply expectName_gives.bind
    intro second hsecond
    apply Gives.pure
    simpa using ⟨hfirst, hsecond⟩
  · apply Gives.pure
    simpa using hfirst

namespace WellNamed

theorem entryValue (hg : g.WellNamed) :
    g.entryValue.Gives fun value => (Node.ofEntryValue value).WellNamed := by
  refine .after fun assign => .ite (fun _ => ?_) fun _ => .after fun brace => .ite (fun _ => ?_)
    fun _ => failExpected_gives
  · apply Gives.after
    intro _
    exact hg.expr.bind fun value hvalue => .pure hvalue
  · exact hg.objectForm.bind fun form hform => .pure hform

theorem mappingEntry (hg : g.WellNamed) :
    g.mappingEntry.Gives fun member => (Node.ofObjectMember member).WellNamed := by
  refine .after fun start => .after fun _ => hg.expr.bind fun key hkey =>
    .after fun _ => hg.entryValue.bind fun value hvalue => .pure ?_
  refine wellNamed_ofObjectMember rfl trivial ?_
  simpa [ObjectMember.fields] using ⟨hkey, hvalue⟩

theorem predicateEntry (hg : g.WellNamed) :
    g.predicateEntry.Gives fun member => (Node.ofObjectMember member).WellNamed := by
  refine .after fun start => .after fun _ => hg.expr.bind fun predicate hpredicate =>
    .after fun _ => hg.entryValue.bind fun value hvalue => .pure ?_
  refine wellNamed_ofObjectMember rfl trivial ?_
  simpa [ObjectMember.fields] using ⟨hpredicate, hvalue⟩

theorem spread (hg : g.WellNamed) :
    g.spread.Gives fun member => (Node.ofObjectMember member).WellNamed := by
  refine .after fun start => .after fun _ => .after fun c => .option () fun _ =>
    hg.expr.bind fun e he => .pure ?_
  refine wellNamed_ofObjectMember rfl trivial ?_
  simpa [ObjectMember.fields] using he

theorem fieldAmend (hg : g.WellNamed) :
    g.fieldAmend.Gives fun member => (Node.ofObjectMember member).WellNamed := by
  refine .after fun start => .after fun _ => .after fun _ => .after fun _ => hg.expr.bind
    fun index hindex => .after fun _ => .after fun _ => hg.body.bind fun body hbody => .pure ?_
  refine wellNamed_ofObjectMember rfl trivial ?_
  simpa [ObjectMember.fields] using ⟨hindex, hbody⟩

theorem whenGenerator (hg : g.WellNamed) :
    g.whenGenerator.Gives fun member => (Node.ofObjectMember member).WellNamed := by
  refine .after fun start => .after fun _ => .after fun _ => ?_
  apply hg.expr.bind
  intro condition hcondition
  apply Gives.after
  intro _
  apply hg.body.bind
  intro thenBody hthen
  apply announced_gives hg.body
  intro elseBody? helse
  apply Gives.pure
  refine wellNamed_ofObjectMember rfl trivial ?_
  simpa [ObjectMember.fields, or_imp, forall_and] using ⟨hcondition, hthen, helse⟩

theorem forGenerator (hg : g.WellNamed) :
    g.forGenerator.Gives fun member => (Node.ofObjectMember member).WellNamed := by
  refine .after fun start => .after fun _ => .after fun _ => ?_
  apply loopNames_gives.bind
  intro names hnames
  apply Gives.after
  intro _
  apply hg.expr.bind
  intro iterable hiterable
  apply Gives.after
  intro _
  apply hg.body.bind
  intro body hbody
  apply Gives.pure
  refine wellNamed_ofObjectMember rfl hnames ?_
  simpa [ObjectMember.fields, or_imp, forall_and] using ⟨hiterable, hbody⟩

theorem propertyMember? (hg : g.WellNamed) :
    g.propertyMember?.Gives fun member? =>
      ∀ member ∈ member?, (Node.ofObjectMember member).WellNamed := by
  apply Gives.after
  intro start
  apply hg.preamble.bind
  intro before hbefore
  refine .after fun _ => .ite (fun _ => ?_) fun _ => .after fun head =>
    .ite (fun _ => ?_) fun _ => ?_
  · apply (hg.functionRule hbefore).bind
    intro decl hdecl
    apply Gives.pure
    rintro _ ⟨⟩
    exact hdecl
  · apply (hg.propertyRule hbefore).bind
    intro decl hdecl
    apply Gives.pure
    rintro _ ⟨⟩
    exact hdecl
  · apply Gives.after
    intro _
    apply Gives.pure
    simp

theorem namedMember (hg : g.WellNamed) :
    g.namedMember.Gives fun member => (Node.ofObjectMember member).WellNamed := by
  apply hg.propertyMember?.bind
  intro member? hmember
  cases member? with
  | some member => exact .pure (hmember member rfl)
  | none =>
    apply hg.expr.bind
    intro e he
    apply Gives.pure
    refine wellNamed_ofObjectMember rfl trivial ?_
    simpa [ObjectMember.fields] using he

theorem objectMember (hg : g.WellNamed) :
    g.objectMember.Gives fun member => (Node.ofObjectMember member).WellNamed := by
  refine .after fun _ => .ite (fun _ => hg.predicateEntry) fun _ => ?_
  refine .after fun _ => .ite (fun _ => hg.mappingEntry) fun _ => ?_
  refine .after fun _ => .ite (fun _ => hg.spread) fun _ => ?_
  refine .after fun _ => .ite (fun _ => hg.fieldAmend) fun _ => ?_
  refine .after fun _ => .ite (fun _ => hg.whenGenerator) fun _ => ?_
  exact .after fun _ => .ite (fun _ => hg.forGenerator) fun _ => hg.namedMember

theorem objectMembers (hg : g.WellNamed) {opening : Span} :
    (g.objectMembers opening).Gives fun members =>
      ∀ member ∈ members.toList, (Node.ofObjectMember member).WellNamed := by
  apply Gives.repeating fun members =>
    ∀ member ∈ members.toList, (Node.ofObjectMember member).WellNamed
  · simp
  · intro members hmembers
    refine .after fun _ => .after fun c => .after fun ended => .ite (fun _ => failWith_gives)
      fun _ => .ite (fun _ => .after fun _ => .pure hmembers) fun _ => .ite
        (fun _ => .after fun _ => .pure hmembers) fun _ => ?_
    apply hg.objectMember.bind
    intro member hmember
    exact .pure (forall_mem_toList_push hmembers hmember)

theorem bodyRule (hg : g.WellNamed) :
    g.bodyRule.Gives fun body => (Node.objectBody body).WellNamed := by
  apply Gives.after
  intro opening
  apply hg.objectMembers.inMode.bind
  intro members hmembers
  apply Gives.after
  intro stop
  apply Gives.pure
  refine .of_children trivial ?_
  simpa [Node.children, Node.fields, ObjectBody.fields] using hmembers

end WellNamed

/-! ### Grammars -/

/-- A grammar gives well-named trees, whatever depth of nesting it admits. -/
theorem wellNamed_nested (depth : Nat) : (nested depth).WellNamed := by
  induction depth with
  | zero => exact ⟨throw_gives, throw_gives, throw_gives⟩
  | succ depth ih => exact ⟨ih.expressionRule, ih.typeRule, ih.bodyRule⟩

end Grammar

/-! ### Modules -/

namespace Parser

theorem Gives.outcome {α : Type} {p : Parser α} {P : α → Prop} (hp : p.Gives P) :
    (Parser.outcome p).Gives fun result => ∀ a, result = .ok a → P a :=
  .of_leaves fun _ _ => hp.leaves.outcome

end Parser

/-- The declarations that have been read are well-named. -/
def Progress.WellNamed (progress : Progress) : Prop :=
  ∀ decl ∈ progress.declarations.toList, (Node.ofDeclaration decl).WellNamed

namespace Parser

/-- A declaration that is given up leaves nothing in the tree. -/
theorem nextDeclaration_gives {progress : Progress} (hprogress : progress.WellNamed) :
    (nextDeclaration progress).Gives Progress.WellNamed := by
  apply Gives.after
  intro start
  apply Gives.after
  intro before
  apply (Grammar.wellNamed_nested nestingLimit).declarationRule.outcome.bind
  intro result hresult
  split
  next decl =>
    apply Gives.after
    intro _
    exact .pure (forall_mem_toList_push hprogress (hresult decl rfl))
  next => exact throw_gives
  next =>
    have hresume : (do
        skipDeclaration start
        return progress : Parser Progress).Gives Progress.WellNamed := by
      apply Gives.after
      intro _
      exact .pure hprogress
    refine .after fun _ => .ite (fun _ => ?_) fun _ => hresume
    exact .after fun _ => .after fun _ => hresume

theorem moduleDeclarations_gives :
    moduleDeclarations.Gives fun decls => ∀ decl ∈ decls, (Node.ofDeclaration decl).WellNamed := by
  have hdeclarations : declarations.Gives fun decls =>
      ∀ decl ∈ decls, (Node.ofDeclaration decl).WellNamed := by
    apply Gives.bind (P := Progress.WellNamed)
    · apply Gives.repeating Progress.WellNamed
      · simp [Progress.WellNamed]
      · intro progress hprogress
        refine .after fun _ => .after fun ended => .after fun limit => .ite
          (fun _ => .pure hprogress) fun _ => ?_
        apply (nextDeclaration_gives hprogress).bind
        intro progress hprogress
        exact .pure hprogress
    · intro progress hprogress
      exact .pure hprogress
  apply hdeclarations.bind
  intro decls hdecls
  apply Gives.after
  intro _
  exact .pure hdecls

end Parser

/-- No word of the language is a name in the tree of a text. Whatever the text and the options, a
class, function, property, type alias, parameter, local variable, loop or import is given only names
that are neither keywords nor reserved words, unless they stand between backticks; the names that
stand as expressions are such names or refer to what surrounds them; and what is called by its name
alone has such a name or is one of the keywords that are called like functions. -/
theorem parse_wellNamed (text filename : String) (options : Options) :
    (Node.module (parse text filename options).module).WellNamed := by
  have hdeclarations : ∀ decl ∈ (parse text filename options).module.declarations,
      (Node.ofDeclaration decl).WellNamed := by
    rw [parse, SourceText.parse]
    split
    next decls s hrun => exact Parser.moduleDeclarations_gives.of_ok hrun
    next => simp
  refine .of_children trivial ?_
  simpa [Node.children, Node.fields] using hdeclarations

end PklSyntax
