import PklSyntax.Proofs.Adjacency.Declaration
import PklSyntax.Proofs.Documentation.Members
import PklSyntax.Proofs.Growth.Module

/-!
# What stands behind what in the tree of a text

With the members of object bodies the circle of expressions, types and object bodies is closed, so
that what holds of the productions holds at every depth of nesting, and so of every text: the
suffixes of its types, the units of its literals and the arguments of its calls stand where they
should, and what line breaks separate stands on one line.

A declaration that is given up leaves the parse in a steady state, so that this goes for the
declarations behind it, too.

## Main statements

* `Grammar.joins_nested`: the grammars of all depths give well-joined trees.
* `parse_wellJoined`: the tree of a text is well-joined.
* `parse_suffixes`: where the suffixes of types stand.
* `parse_lineSensitive`: where brackets, minus signs and the arguments of calls stand.
* `parse_unitLiterals`: the text of a literal with a unit.
-/

namespace PklSyntax

namespace Grammar

open PklSyntax.Parser

variable {g : Grammar} {ctx : Context} {s : State}

/-! ### Object bodies -/

/-- A member that is no property and no function is well-joined when its parts are. -/
theorem wellJoined_ofObjectMember {text : Array Char} {member : ObjectMember}
    (hnode : Node.ofObjectMember member = .objectMember member)
    (hchildren : ∀ child ∈ member.fields.flatMap fun field => field.value.children,
      child.WellJoined text) : (Node.ofObjectMember member).WellJoined text := by
  rw [hnode]
  exact .of_children trivial hchildren

namespace Joins

theorem entryValue (hg : g.Joins ctx) :
    g.entryValue.Leaves Steady ctx s fun value _ => (Node.ofEntryValue value).WellJoined ctx.text := by
  refine .after fun assign _ => .ite (fun _ => ?_) fun _ => .after fun brace _ =>
    .ite (fun _ => ?_) fun _ => failExpected_leaves
  · exact .after fun _ s₁ => (hg.expr s₁).bind fun value _ hvalue => .pure hvalue
  · exact hg.objectForm.bind fun form _ hform => .pure hform

theorem mappingEntry (hg : g.Joins ctx) :
    g.mappingEntry.Leaves Steady ctx s fun member _ =>
      (Node.ofObjectMember member).WellJoined ctx.text := by
  refine .after fun start _ => .after fun _ s₁ => (hg.expr s₁).bind fun key _ hkey =>
    .after fun _ _ => hg.entryValue.bind fun value _ hvalue => .pure ?_
  refine wellJoined_ofObjectMember rfl ?_
  simpa [ObjectMember.fields] using ⟨hkey, hvalue⟩

theorem predicateEntry (hg : g.Joins ctx) :
    g.predicateEntry.Leaves Steady ctx s fun member _ =>
      (Node.ofObjectMember member).WellJoined ctx.text := by
  refine .after fun start _ => .after fun _ s₁ => (hg.expr s₁).bind fun predicate _ hpredicate =>
    .after fun _ _ => hg.entryValue.bind fun value _ hvalue => .pure ?_
  refine wellJoined_ofObjectMember rfl ?_
  simpa [ObjectMember.fields] using ⟨hpredicate, hvalue⟩

theorem spread (hg : g.Joins ctx) :
    g.spread.Leaves Steady ctx s fun member _ =>
      (Node.ofObjectMember member).WellJoined ctx.text := by
  refine .after fun start _ => .after fun _ _ => .after fun c _ => .option () fun _ s₁ =>
    (hg.expr s₁).bind fun e _ he => .pure ?_
  refine wellJoined_ofObjectMember rfl ?_
  simpa [ObjectMember.fields] using he

theorem fieldAmend (hg : g.Joins ctx) :
    g.fieldAmend.Leaves Steady ctx s fun member _ =>
      (Node.ofObjectMember member).WellJoined ctx.text := by
  refine .after fun start _ => .after fun _ _ => .after fun _ _ => .after fun _ s₁ => ?_
  refine (hg.expr s₁).bind fun index _ hindex => .after fun _ _ => .after fun _ s₂ => ?_
  refine (hg.body s₂).bind fun body _ hbody => .pure (wellJoined_ofObjectMember rfl ?_)
  simpa [ObjectMember.fields] using ⟨hindex, hbody⟩

theorem whenGenerator (hg : g.Joins ctx) :
    g.whenGenerator.Leaves Steady ctx s fun member _ =>
      (Node.ofObjectMember member).WellJoined ctx.text := by
  refine .after fun start _ => .after fun _ _ => .after fun _ s₁ => ?_
  refine (hg.expr s₁).bind fun condition _ hcondition => .after fun _ s₂ => ?_
  refine (hg.body s₂).bind fun thenBody _ hthen => announced_leaves hg.body ?_
  intro elseBody? _ helse
  refine .pure (wellJoined_ofObjectMember rfl ?_)
  simpa [ObjectMember.fields, or_imp, forall_and] using ⟨hcondition, hthen, helse⟩

theorem forGenerator (hg : g.Joins ctx) :
    g.forGenerator.Leaves Steady ctx s fun member _ =>
      (Node.ofObjectMember member).WellJoined ctx.text := by
  refine .after fun start _ => .after fun _ _ => .after fun _ _ => .after fun names _ =>
    .after fun _ s₁ => ?_
  refine (hg.expr s₁).bind fun iterable _ hiterable => .after fun _ s₂ => ?_
  refine (hg.body s₂).bind fun body _ hbody => .pure (wellJoined_ofObjectMember rfl ?_)
  simpa [ObjectMember.fields, or_imp, forall_and] using ⟨hiterable, hbody⟩

theorem propertyMember? (hg : g.Joins ctx) :
    g.propertyMember?.Leaves Steady ctx s fun member? _ =>
      ∀ member ∈ member?, (Node.ofObjectMember member).WellJoined ctx.text := by
  have hgrows := (hg.upkept.upholds (Upkeep.steady ctx)).grows
  refine .of_holds fun hs => .look mark_looks (hg.preamble.with_run.bind ?_)
  rintro before s₁ ⟨hrun, hbefore⟩
  have hkept := (hgrows.preamble.of_ok hrun).1.toKept
  refine .look (atWord_looks _) (.ite (fun _ => ?_) fun _ => .bind (.of_run fun _ _ _ h => h)
    fun head s₂ hhead => .ite (fun _ => ?_) fun _ => ?_)
  · refine (hg.functionRule hbefore).bind fun decl _ hdecl => .pure ?_
    rintro _ ⟨⟩
    exact hdecl
  · refine (hg.propertyRule hbefore).bind fun decl _ hdecl => .pure ?_
    rintro _ ⟨⟩
    exact hdecl
  · have hback := (hkept.trans (atPropertyHead_grows.of_ok hhead).1.toKept).rewind
    exact .rewind hback hs (.pure (by simp))

theorem namedMember (hg : g.Joins ctx) :
    g.namedMember.Leaves Steady ctx s fun member _ =>
      (Node.ofObjectMember member).WellJoined ctx.text := by
  apply hg.propertyMember?.bind
  intro member? s₁ hmember
  cases member? with
  | some member => exact .pure (hmember member rfl)
  | none =>
    refine (hg.expr s₁).bind fun e _ he => .pure (wellJoined_ofObjectMember rfl ?_)
    simpa [ObjectMember.fields] using he

theorem objectMember (hg : g.Joins ctx) :
    g.objectMember.Leaves Steady ctx s fun member _ =>
      (Node.ofObjectMember member).WellJoined ctx.text := by
  refine .after fun _ _ => .ite (fun _ => hg.predicateEntry) fun _ => ?_
  refine .after fun _ _ => .ite (fun _ => hg.mappingEntry) fun _ => ?_
  refine .after fun _ _ => .ite (fun _ => hg.spread) fun _ => ?_
  refine .after fun _ _ => .ite (fun _ => hg.fieldAmend) fun _ => ?_
  refine .after fun _ _ => .ite (fun _ => hg.whenGenerator) fun _ => ?_
  exact .after fun _ _ => .ite (fun _ => hg.forGenerator) fun _ => hg.namedMember

theorem objectMembers (hg : g.Joins ctx) {opening : Span} :
    (g.objectMembers opening).Leaves Steady ctx s fun members _ =>
      ∀ member ∈ members.toList, (Node.ofObjectMember member).WellJoined ctx.text := by
  apply Leaves.repeating fun members _ =>
    ∀ member ∈ members.toList, (Node.ofObjectMember member).WellJoined ctx.text
  · simp
  · intro members _ hmembers
    refine .after fun _ _ => .after fun c _ => .after fun ended _ => .ite
      (fun _ => failWith_leaves) fun _ => .ite (fun _ => .after fun _ _ => .pure hmembers)
        fun _ => .ite (fun _ => .after fun _ _ => .pure hmembers) fun _ => ?_
    refine hg.objectMember.bind fun member _ hmember => ?_
    exact .pure (forall_mem_toList_push hmembers hmember)

theorem bodyRule (hg : g.Joins ctx) (hself : g.Mirrored (.self ctx)) (s : State) :
    g.bodyRule.Leaves Steady ctx s fun body _ => (Node.objectBody body).WellJoined ctx.text := by
  have := hg.upkept
  have hmembers : g.bodyRule.Leaves Steady ctx s fun body _ =>
      ∀ member ∈ body.members, (Node.ofObjectMember member).WellJoined ctx.text := by
    refine .after fun opening _ => .bind (.inMode hg.objectMembers fun _ _ h => h) ?_
    intro members _ hmembers
    exact .after fun stop _ => .pure hmembers
  apply (hmembers.and (bodyRule_documented hself)).mono
  rintro body _ ⟨hmembers, hdocumented⟩
  refine .of_children hdocumented ?_
  simpa [Node.children, Node.fields, ObjectBody.fields] using hmembers

end Joins

/-! ### Grammars -/

/-- A grammar gives well-joined trees, whatever depth of nesting it admits. -/
theorem joins_nested (depth : Nat) (ctx : Context) : (nested depth).Joins ctx := by
  induction depth with
  | zero =>
    exact ⟨inferInstance, places_nested ctx 0, fun _ => throw_leaves, fun _ => throw_leaves,
      fun _ => throw_leaves⟩
  | succ depth ih =>
    exact ⟨inferInstance, places_nested ctx _, ih.expressionRule, fun _ => ih.typeRule,
      ih.bodyRule (mirrored_nested _ depth)⟩

end Grammar

/-! ### Modules -/

/-- The declarations that have been read are well-joined. -/
def Progress.WellJoined (text : Array Char) (progress : Progress) : Prop :=
  ∀ decl ∈ progress.declarations.toList, (Node.ofDeclaration decl).WellJoined text

namespace Parser

variable {ctx : Context} {s : State}

/-- Reporting problems leads from steady states to steady ones. -/
theorem forM_report_leaves (problems : List Problem) (span : Span) :
    (problems.forM fun problem => report problem span).Leaves Steady ctx s fun _ _ => True := by
  induction problems generalizing s with
  | nil => exact .pure trivial
  | cons problem problems ih => exact .after fun _ _ => ih

/-- Where the declarations go on behind one that was given up, the state is steady. -/
theorem steady_resume {t : State} {stop : Stop} {diagnostics : Array Diagnostic}
    (hs : Steady ctx s) (hrun : Grammar.full.declarationRule ctx s = .error stop t)
    (herror : ∃ d ∈ diagnostics.toList, d.isError = true) :
    Steady ctx { t with
      attached := s.attached
      diagnostics := diagnostics
      pos := declarationResume ctx.text s.pos t.pos } := by
  have ht : Steady ctx t := Keeps.of_error hs hrun
  have hkept := (Grammar.grows_full ctx).declaration_of_error hrun
  obtain ⟨c, hc⟩ := hs.stands
  obtain ⟨c', hc'⟩ := ht.stands
  have hattached : ∀ i ∈ s.attached, i < t.docs.size := fun i hi =>
    Nat.lt_of_lt_of_le (hc.attached_lt i hi) (by simpa using hkept.docs.length_le)
  have hresume := @kept_declarationResume ctx.text s.pos t
  have hpos := hresume.pos_le
  have hle := hc'.pos_le_size
  rw [Nat.min_eq_left hle] at hpos
  exact (ht.attach hattached herror).moveTo hpos (hresume.pos_le_size hle)

/-- When a declaration is given up for what stands there, an error is on record. -/
theorem hasError_of_failed {t : State} (hs : Steady ctx s)
    (hrun : Grammar.full.declarationRule ctx s = .error .failed t) : t.HasError := by
  obtain ⟨c, hc⟩ := hs.stands
  have hends := (Grammar.places_full ctx).declarationRule hc
  rw [EndsFrom, hrun] at hends
  exact hends.2.1 rfl

/-- Behind a declaration that is given up the state is steady, with an error on record, and the doc
comments are taken that were taken in front of it. -/
theorem nextDeclaration_of_error {progress progress' : Progress} {stop : Stop} {t v : State}
    (hs : Steady ctx s) (hdecl : Grammar.full.declarationRule ctx s = .error stop t)
    (hnext : nextDeclaration progress ctx s = .ok progress' v) :
    progress' = progress ∧ Steady ctx v ∧ v.HasError ∧ v.attached = s.attached ∧
      s.docs.toList <+: v.docs.toList := by
  have hkept := (Grammar.grows_full ctx).declaration_of_error hdecl
  cases stop with
  | failed =>
    have herror := hasError_of_failed hs hdecl
    rw [nextDeclaration_of_failed hdecl] at hnext
    cases hnext
    exact ⟨rfl, steady_resume hs hdecl herror, herror, rfl, hkept.docs⟩
  | tooDeep =>
    have herror : ∃ d ∈ (s.diagnostics.push
        (Problem.nestingTooDeep.diagnostic (.ofNat s.pos (s.pos + 1)))).toList, d.isError = true :=
      ⟨_, Array.mem_toList_iff.2 Array.mem_push_self, rfl⟩
    rw [nextDeclaration_of_tooDeep hdecl hkept] at hnext
    cases hnext
    exact ⟨rfl, steady_resume hs hdecl herror, herror, rfl, hkept.docs⟩
  | stalled =>
    rw [nextDeclaration_of_stalled hdecl] at hnext
    cases hnext

theorem nextDeclaration_leaves {progress : Progress} (hprogress : progress.WellJoined ctx.text) :
    (nextDeclaration progress).Leaves Steady ctx s fun progress _ =>
      progress.WellJoined ctx.text where
  of_ok {progress' v} hs hrun := by
    have hrule := (Grammar.joins_nested nestingLimit ctx).declarationRule (s := s)
    cases hdecl : Grammar.full.declarationRule ctx s with
    | ok decl t =>
      obtain ⟨ht, hjoined⟩ := hrule.of_ok hs hdecl
      rw [nextDeclaration_eq_of_ok progress hdecl] at hrun
      have hadded : Progress.WellJoined ctx.text
          ⟨progress.declarations.push decl, progress.header.add decl⟩ :=
        forall_mem_toList_push hprogress hjoined
      exact (Leaves.bind (Q := fun progress _ => progress.WellJoined ctx.text)
        (forM_report_leaves _ _) fun _ _ _ => .pure hadded).of_ok ht hrun
    | error stop t =>
      obtain ⟨rfl, hv, -⟩ := nextDeclaration_of_error hs hdecl hrun
      exact ⟨hv, hprogress⟩

theorem declarations_leaves :
    declarations.Leaves Steady ctx s fun decls _ =>
      ∀ decl ∈ decls, (Node.ofDeclaration decl).WellJoined ctx.text := by
  apply Leaves.bind (P := fun progress _ => Progress.WellJoined ctx.text progress)
  · apply Leaves.repeating fun progress _ => Progress.WellJoined ctx.text progress
    · simp [Progress.WellJoined]
    · intro progress _ hprogress
      refine .after fun _ _ => .after fun ended _ => .after fun limit _ => .ite
        (fun _ => .pure hprogress) fun _ => ?_
      exact (nextDeclaration_leaves hprogress).bind fun progress _ hprogress => .pure hprogress
  · intro progress _ hprogress
    exact .pure hprogress

theorem moduleDeclarations_leaves :
    moduleDeclarations.Leaves Anywhere ctx {} fun decls _ =>
      ∀ decl ∈ decls, (Node.ofDeclaration decl).WellJoined ctx.text :=
  (declarations_leaves.forget (.initial ctx)).bind fun _ _ hdecls => .after fun _ _ => .pure hdecls

end Parser

/-- The parts of all nodes in the tree of a text stand where they should, whatever the text and the
options. -/
theorem parse_wellJoined (text filename : String) (options : Options) :
    (Node.module (parse text filename options).module).WellJoined text.toList.toArray := by
  have hdeclarations : ∀ decl ∈ (parse text filename options).module.declarations,
      (Node.ofDeclaration decl).WellJoined text.toList.toArray := by
    rw [parse, SourceText.parse]
    split
    next decls s hrun => exact (Parser.moduleDeclarations_leaves.of_ok trivial hrun).2
    next => simp
  refine .of_children trivial ?_
  simpa [Node.children, Node.fields] using hdeclarations

/-! ### Suffixes of types -/

/-- Where the suffixes of types stand in a text. The arguments of a generic type begin where its
name ends, and the predicates on a type where the type ends. So does the mark of a nullable type,
unless it stands behind a function type: then only trivia lie between the two. -/
theorem parse_suffixes (text filename : String) (options : Options) :
    let source := text.toList.toArray
    let nodes := (Node.module (parse text filename options).module).walk
    (∀ (base : NamedType) args span, .type (.generic base args span) ∈ nodes →
      ∃ i : Nat, base.span.stop = i ∧ charAt source i = '<') ∧
    (∀ (base : TypeExpr) predicates span, .type (.constrained base predicates span) ∈ nodes →
      ∃ i : Nat, base.span.stop = i ∧ charAt source i = '(') ∧
    ∀ (inner : TypeExpr) span, .type (.nullable inner span) ∈ nodes →
      ∃ i j : Nat, inner.span.stop = i ∧ charAt source j = '?' ∧ TriviaRun source i j ∧
        (Grammar.isFunctionType inner = false → i = j) := by
  intro source nodes
  have hjoined := parse_wellJoined text filename options
  exact ⟨fun _ _ _ h => hjoined _ h, fun _ _ _ h => hjoined _ h, fun _ _ h => hjoined _ h⟩

/-- The mark of a nullable function type may stand apart from it. -/
example :
    (Node.module (parse "x: (A) -> B ?" "m" {}).module).walk.filterMap (fun n => match n with
      | .type (.nullable inner span) => some (inner.span.stop, span.stop)
      | _ => none) = [(11, 13)] := by
  decide +kernel

/-! ### Line breaks in expressions -/

/-- Where line breaks matter in expressions. The bracket of an access stands behind its target with
nothing but trivia between the two, and no line feed. So does the minus sign behind its left
operand, whatever the grouping of operators has made of that. The parenthesis of a call stands where
the callee ends, or one character behind `read` when a sign follows it. -/
theorem parse_lineSensitive (text filename : String) (options : Options) :
    let source := text.toList.toArray
    let nodes := (Node.module (parse text filename options).module).walk
    (∀ (target index : Expr) (bracket span : Span),
      .expr (.index target (.bracket index bracket) span) ∈ nodes →
      ∃ i j : Nat, target.span.stop = i ∧ bracket.start = j ∧ charAt source j = '[' ∧
        TriviaRun source i j ∧ ∀ k, i ≤ k → k < j → charAt source k ≠ '\n') ∧
    (∀ (left right : Expr) span, .expr (.binary left .subtract right span) ∈ nodes →
      ∃ i j : Nat, left.span.stop = i ∧ j < right.span.start ∧ charAt source j = '-' ∧
        TriviaRun source i j ∧ ∀ k, i ≤ k → k < j → charAt source k ≠ '\n') ∧
    ∀ c : Call, .call c ∈ nodes ∨ .expr (.call c) ∈ nodes →
      ∃ i : Nat, c.callee.span.stop + (if c.kind = .identifier then 0 else 1) = i ∧
        charAt source i = '(' ∧ ∀ arg ∈ c.args, (i : Int) < arg.span.start := by
  intro source nodes
  have hjoined := parse_wellJoined text filename options
  refine ⟨fun target index bracket span h => ?_, fun left right span h => ?_, fun c h => ?_⟩
  · obtain ⟨j, hstart, hopen, i, hstop, hrun, hline⟩ := hjoined _ h
    exact ⟨i, j, hstop, hstart, hopen, hrun, hline⟩
  · obtain ⟨j, hminus, ⟨i, hstop, hrun, hline⟩, hlt⟩ := hjoined _ h rfl
    exact ⟨i, j, hstop, hlt, hminus, hrun, hline⟩
  · have hcall : c.Joined source := h.elim (hjoined _) (hjoined _)
    obtain ⟨i, hstop, hopen, hargs⟩ := hcall
    refine ⟨i, ?_, hopen, hargs⟩
    rw [← hstop]
    cases c.kind <;> rfl

/-- A bracket on the next line begins an element, and one behind a comment an access. -/
example :
    (Node.module (parse "x = new \x7b a /**/ [0]\n[1] = 2 \x7d" "m" {}).module).walk.filterMap
      (fun n => match n with
        | .expr (.index target (.bracket _ bracket) _) => some (target.span.stop, bracket.start)
        | _ => none) = [(11, 17)] := by
  decide +kernel

/-! ### Literals with units -/

theorem sliceOf_append {text : Array Char} {i j k : Nat} (hij : i ≤ j) (hjk : j ≤ k) :
    sliceOf text i j ++ sliceOf text j k = sliceOf text i k := by
  rw [sliceOf, sliceOf, sliceOf, ← String.ofList_append, ← Array.toList_append,
    Array.extract_append_extract, Nat.min_eq_left hij, Nat.max_eq_right hjk]

theorem sliceOf_of_charAt {text : Array Char} {i : Nat} {c : Char} (h : charAt text i = c)
    (hne : c ≠ '\x00') : sliceOf text i (i + 1) = String.singleton c := by
  subst h
  have hlt := lt_size_of_charAt_ne hne
  rw [sliceOf, charAt_of_lt hlt, Array.toList_extract, List.extract_eq_take_drop,
    Nat.add_sub_cancel_left, List.drop_eq_getElem_cons (by simpa using hlt)]
  rfl

/-- The spans of all nodes but the module itself begin in the text and are not empty. -/
theorem parse_span_of_mem_walk {text filename : String} {options : Options} {n : Node}
    (hn : n ∈ (Node.module (parse text filename options).module).walk)
    (hne : n ≠ .module (parse text filename options).module) :
    0 ≤ n.span.start ∧ n.span.start < n.span.stop := by
  obtain ⟨-, hrow, -⟩ := parse_spec text filename options
  rw [Node.walk_eq, List.mem_cons, or_iff_right hne] at hn
  obtain ⟨child, hchild, hn⟩ := List.mem_flatMap.1 hn
  have hmem : child ∈ (parse text filename options).module.declarations.map Node.ofDeclaration := by
    simpa [Node.children, Node.fields] using hchild
  have hstart := (hrow.within hmem).1
  have hsound := hrow.sound hmem
  exact ⟨Int.le_trans hstart (hsound.within_walk hn).1, (hsound n hn).1⟩

/-- The amount and the symbol of the unit, when the expression is a literal with a unit. -/
def Expr.unitParts? : Expr → Option (NumberLiteral × String)
  | duration amount unit _ => some (amount, unit.symbol)
  | dataSize amount unit _ => some (amount, unit.symbol)
  | _ => none

/-- The text of a literal with a unit is the text of its amount, a point, and the symbol of its
unit, with nothing in front of the point and only trivia behind it. -/
theorem parse_unitLiterals {text filename : String} {options : Options} {e : Expr}
    {amount : NumberLiteral} {symbol : String}
    (he : .expr e ∈ (Node.module (parse text filename options).module).walk)
    (hparts : e.unitParts? = some (amount, symbol)) :
    let source := SourceText.ofString text filename
    ∃ i j : Nat, amount.span.stop = i ∧ TriviaRun source.chars (i + 1) j ∧
      source.sliceText e.span =
        source.sliceText amount.span ++ "." ++ sliceOf source.chars (i + 1) j ++ symbol := by
  intro source
  have hunit : UnitBehind source.chars amount.span symbol e.span := by
    have hjoined : e.Joined source.chars := parse_wellJoined text filename options _ he
    cases e <;> cases hparts <;> exact hjoined
  have hamount : .number amount ∈ (Node.module (parse text filename options).module).walk := by
    refine Node.mem_walk_trans he ?_
    rw [Node.walk_eq]
    refine List.mem_cons_of_mem _ (List.mem_flatMap.2 ⟨_, ?_, Node.mem_walk_self _⟩)
    cases e <;> cases hparts <;> simp [Node.children, Node.fields, Expr.fields]
  obtain ⟨hstart, hlt⟩ := parse_span_of_mem_walk hamount (by intro h; cases h)
  obtain ⟨i, j, k, hstop, hpoint, hrun, hjk, hsymbol, hspan⟩ := hunit
  obtain ⟨a, ha⟩ := Int.eq_ofNat_of_zero_le hstart
  change amount.span.start = a at ha
  change amount.span.start < amount.span.stop at hlt
  have hij := hrun.le
  have hcover : e.span = .ofNat a k := by
    rw [hspan, Span.cover_eq (by rw [ha]; show (a : Int) ≤ j; omega)
      (by rw [hstop]; show (i : Int) ≤ k; omega), ha]
    rfl
  have hamountSpan : amount.span = .ofNat a i := by
    rw [Span.ofNat, ← ha, ← hstop]
  have htext (start stop : Nat) :
      source.sliceText (.ofNat start stop) = sliceOf source.chars start stop := rfl
  refine ⟨i, j, hstop, hrun, ?_⟩
  calc source.sliceText e.span
      = sliceOf source.chars a k := by rw [hcover, htext]
    _ = sliceOf source.chars a i ++ sliceOf source.chars i (i + 1) ++
          sliceOf source.chars (i + 1) j ++ sliceOf source.chars j k := by
        rw [sliceOf_append (by omega) (by omega), sliceOf_append (by omega) (by omega),
          sliceOf_append (by omega) hjk]
    _ = source.sliceText amount.span ++ "." ++ sliceOf source.chars (i + 1) j ++ symbol := by
        rw [hamountSpan, htext, sliceOf_of_charAt hpoint (by decide), hsymbol]
        rfl

/-- The unit of a literal may stand apart from the point in front of it. -/
example :
    (Node.module (parse "x = 5. s" "m" {}).module).walk.filterMap (fun n => match n with
      | .expr (.duration amount unit span) => some (amount.span.stop, unit, span.stop)
      | _ => none) = [(5, .s, 8)] := by
  decide +kernel

end PklSyntax
