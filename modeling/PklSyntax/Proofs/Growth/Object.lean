import PklSyntax.Proofs.Growth.Declaration
import PklSyntax.Proofs.Layout.Object

/-!
# Growth: object bodies

What begins like an expression is first tried as a property. Whatever was read, found wrong or taken
on the way, going back undoes all of it. With this the circle of expressions, types and object
bodies is closed, so that what holds of the productions holds at every depth of nesting.

## Main statements

* `Parser.atPropertyHead_grows`, `Parser.atFieldAmend_grows`, `Grammar.Grows.propertyMember?`:
  reading ahead leaves the state as it was.
* `Grammar.Grows.objectMember`, `Grammar.Grows.bodyRule`.
* `Grammar.grows_nested`: the grammars of all depths give well-formed trees.
* `abandoned_leaves_no_trace`: alternatives that are given up change nothing.
-/

namespace PklSyntax

/-! ### Reading ahead -/

namespace Parser

variable {ctx : Context} {s : State}

/-- Whether the name of a property stands at the cursor or not, the state is left as it was. -/
theorem atPropertyHead_grows : atPropertyHead.Grows ctx s fun _ s' => s' = s := by
  rw [atPropertyHead]
  refine .mark ?_
  rw [propertyName?, bind_assoc]
  refine .attempt identifier?_grows (fun name? s₁ h₁ _ => ?_) fun s₁ h₁ => ?_
  · rw [pure_bind]
    split
    · exact .rewind h₁.toKept (.pure (.refl s) rfl)
    · exact .bind h₁ skip_grows fun _ s₂ _ h₂ _ => .look peek_looks (.look (peekAt_looks 1)
        (.rewind h₂.toKept (.pure (.refl s) rfl)))
  · rw [pure_bind]
    exact .rewind h₁ (.pure (.refl s) rfl)

/-- Whether the amendment of an element stands at the cursor or not, the state is left as it was. -/
theorem atFieldAmend_grows :
    atFieldAmend.Grows ctx s fun found s' =>
      s' = s ∧ (found = true → matchesAt ctx.text "(" s.pos = true) := by
  refine .look (startsWith_looks _) ?_
  cases hopen : matchesAt ctx.text "(" s.pos with
  | false => exact .pure ⟨rfl, nofun⟩
  | true =>
    refine .mark (.bind (.refl s) (advance_grows 1) fun _ s₁ _ h₁ _ =>
      .bind h₁ (acceptKeyword_grows (by decide)) fun found s₂ _ h₂ _ => ?_)
    have hdone : ∀ found {s₃}, Grown ctx.text s s₃ → GrowsFrom (do
        Parser.rewind s.checkpoint
        return found) ctx s s₃ fun found s' => s' = s ∧ (found = true → true = true) :=
      fun found _ h => .rewind h.toKept (.pure (.refl s) ⟨rfl, fun _ => rfl⟩)
    cases found with
    | true => exact .bind h₂ (atToken_grows "[") fun found s₃ _ h₃ _ => hdone found h₃
    | false => exact hdone false h₂

end Parser

namespace Grammar

open PklSyntax.Parser

variable {g : Grammar} {ctx : Context} {s : State}

/-! ### Entries and elements -/

theorem Grows.entryValue (hg : g.Grows ctx) :
    g.entryValue.Grows ctx s fun value _ => (Node.ofEntryValue value).WellFormed := by
  refine atAssign_grows.bind fun assign s₁ _ _ => .ite (fun _ => (advance_grows 1).bind
    fun _ s₂ _ _ => (hg.expr' s₂).bind fun e s₃ _ he => .pure he) fun _ => ?_
  exact (atToken_grows "\x7b").bind fun found s₂ _ _ => .ite (fun _ => hg.objectForm.bind
    fun form s₃ _ hform => .pure hform) fun _ => failExpected_grows

/-- A member that is no property and no function is well-formed when its parts are. -/
theorem wellFormed_ofObjectMember {member : ObjectMember}
    (hnode : Node.ofObjectMember member = .objectMember member) (hconforms : member.Conforms)
    (hchildren : ∀ child ∈ member.fields.flatMap fun field => field.value.children,
      child.WellFormed) : (Node.ofObjectMember member).WellFormed := by
  rw [hnode, Node.wellFormed_iff]
  exact ⟨hconforms, hchildren⟩

theorem Grows.mappingEntry (hg : g.Grows ctx) (hopening : matchesAt ctx.text "[" s.pos = true) :
    g.mappingEntry.Grows ctx s fun member s' =>
      (Node.ofObjectMember member).WellFormed ∧ Advanced ctx.text s s' := by
  refine .look position_looks (.bind (advance_matched_grows "[" hopening (by decide))
    fun _ s₁ _ hadv => (hg.expr' s₁).bind fun key s₂ h₂ hkey => (expect_grows (by decide)).bind
      fun _ s₃ h₃ _ => hg.entryValue.bind fun value s₄ h₄ hvalue =>
        .pure ⟨wellFormed_ofObjectMember rfl trivial ?_, ((hadv.grown h₂).grown h₃).grown h₄⟩)
  simpa [ObjectMember.fields] using ⟨hkey, hvalue⟩

theorem Grows.predicateEntry (hg : g.Grows ctx)
    (hopening : matchesAt ctx.text "[[" s.pos = true) :
    g.predicateEntry.Grows ctx s fun member s' =>
      (Node.ofObjectMember member).WellFormed ∧ Advanced ctx.text s s' := by
  refine .look position_looks (.bind (advance_matched_grows "[[" hopening (by decide))
    fun _ s₁ _ hadv => (hg.expr' s₁).bind fun predicate s₂ h₂ hpredicate =>
      (expect_grows (by decide)).bind fun _ s₃ h₃ _ => hg.entryValue.bind fun value s₄ h₄ hvalue =>
        .pure ⟨wellFormed_ofObjectMember rfl trivial ?_, ((hadv.grown h₂).grown h₃).grown h₄⟩)
  simpa [ObjectMember.fields] using ⟨hpredicate, hvalue⟩

theorem Grows.spread (hg : g.Grows ctx) (hdots : matchesAt ctx.text "..." s.pos = true) :
    g.spread.Grows ctx s fun member s' =>
      (Node.ofObjectMember member).WellFormed ∧ Advanced ctx.text s s' := by
  refine .look position_looks (.bind (advance_matched_grows "..." hdots (by decide))
    fun _ s₁ _ hadv => .look peek_looks (.option (P := fun _ _ => True) ()
      (fun _ => (advance_grows 1).mono fun _ _ _ _ => trivial) (fun _ => trivial)
      fun _ s₂ h₂ _ => (hg.expr' s₂).bind fun e s₃ h₃ he =>
        .pure ⟨wellFormed_ofObjectMember rfl trivial ?_, (hadv.grown h₂).grown h₃⟩))
  simpa [ObjectMember.fields] using he

theorem Grows.fieldAmend (hg : g.Grows ctx) (hopen : matchesAt ctx.text "(" s.pos = true) :
    g.fieldAmend.Grows ctx s fun member s' =>
      (Node.ofObjectMember member).WellFormed ∧ Advanced ctx.text s s' := by
  refine .look position_looks (.bind (advance_matched_grows "(" hopen (by decide))
    fun _ s₁ _ hadv => .mono (P := fun member _ => (Node.ofObjectMember member).WellFormed) ?_
      fun _ _ h hmember => ⟨hmember, hadv.grown h⟩)
  refine (expectKeyword_grows (by decide)).bind fun _ s₂ _ _ => (expect_grows (by decide)).bind
    fun _ s₃ _ _ => (hg.expr' s₃).bind fun index s₄ _ hindex => (expect_grows (by decide)).bind
      fun _ s₅ _ _ => (expect_grows (by decide)).bind fun _ s₆ _ _ => (hg.body s₆).bind
        fun body s₇ _ hbody => .pure (wellFormed_ofObjectMember rfl trivial ?_)
  simpa [ObjectMember.fields] using ⟨hindex, hbody⟩

/-! ### Generators -/

theorem Grows.whenGenerator (hg : g.Grows ctx) (hword : wordAt ctx.text "when" s.pos = true) :
    g.whenGenerator.Grows ctx s fun member s' =>
      (Node.ofObjectMember member).WellFormed ∧ Advanced ctx.text s s' := by
  refine .look position_looks (.bind (advance_matched_grows _ (matchesAt_of_wordAt hword) (by decide))
    fun _ s₁ _ hadv => .mono (P := fun member _ => (Node.ofObjectMember member).WellFormed) ?_
      fun _ _ h hmember => ⟨hmember, hadv.grown h⟩)
  refine (expect_grows (by decide)).bind fun _ s₂ _ _ => (hg.expr' s₂).bind
    fun condition s₃ _ hcondition => (expect_grows (by decide)).bind fun _ s₄ _ _ =>
      (hg.body s₄).bind fun thenBody s₅ _ hthen => announced_grows
        ((acceptKeyword_grows (by decide)).mono fun _ _ _ _ => trivial) hg.body
        fun elseBody? s₆ _ helse => .pure (wellFormed_ofObjectMember rfl trivial ?_)
  simpa [ObjectMember.fields, or_imp, forall_and] using ⟨hcondition, hthen, helse⟩

theorem loopNames_grows :
    loopNames.Grows ctx s fun names _ => names.length = 1 ∨ names.length = 2 :=
  expectName_grows.bind fun first s₁ _ _ => (accept_grows (by decide)).bind fun comma s₂ _ _ =>
    .ite (fun _ => expectName_grows.bind fun second s₃ _ _ => .pure (.inr rfl)) fun _ => .pure (.inl rfl)

theorem Grows.forGenerator (hg : g.Grows ctx) (hword : wordAt ctx.text "for" s.pos = true) :
    g.forGenerator.Grows ctx s fun member s' =>
      (Node.ofObjectMember member).WellFormed ∧ Advanced ctx.text s s' := by
  refine .look position_looks (.bind (advance_matched_grows _ (matchesAt_of_wordAt hword) (by decide))
    fun _ s₁ _ hadv => .mono (P := fun member _ => (Node.ofObjectMember member).WellFormed) ?_
      fun _ _ h hmember => ⟨hmember, hadv.grown h⟩)
  refine (expect_grows (by decide)).bind fun _ s₂ _ _ => loopNames_grows.bind fun names s₃ _ hnames =>
    (expectKeyword_grows (by decide)).bind fun _ s₄ _ _ => (hg.expr' s₄).bind
      fun iterable s₅ _ hiterable => (expect_grows (by decide)).bind fun _ s₆ _ _ =>
        (hg.body s₆).bind fun body s₇ _ hbody => .pure (wellFormed_ofObjectMember rfl hnames ?_)
  simpa [ObjectMember.fields, or_imp, forall_and] using ⟨hiterable, hbody⟩

/-! ### Members -/

/-- When no property and no function stands at the cursor, the state is left as it was. -/
theorem Grows.propertyMember? (hg : g.Grows ctx) :
    g.propertyMember?.Grows ctx s fun member? s' =>
      match member? with
      | some member => (Node.ofObjectMember member).WellFormed ∧ Advanced ctx.text s s'
      | none => s' = s := by
  refine .mark (.bind (.refl s) hg.preamble fun before s₁ h₁ h₁' hbefore =>
    .look (atWord_looks _) ?_)
  cases hword : wordAt ctx.text "function" s₁.pos with
  | true =>
    exact .bind h₁' (hg.functionRule hbefore hword) fun decl s₂ h₂ h₂' hdecl =>
      .pure h₂' ⟨hdecl.1, h₁.advanced hdecl.2⟩
  | false =>
    refine .bind h₁' atPropertyHead_grows fun head s₂ _ h₂ hhead => ?_
    obtain rfl := hhead
    split
    · exact .bind h₁' (hg.propertyRule hbefore) fun decl s₃ h₃ h₃' hdecl =>
        .pure h₃' ⟨hdecl.1, h₁.advanced hdecl.2⟩
    · exact .rewind h₂.toKept (.pure (.refl s) rfl)

theorem Grows.namedMember (hg : g.Grows ctx) :
    g.namedMember.Grows ctx s fun member s' =>
      (Node.ofObjectMember member).WellFormed ∧ Advanced ctx.text s s' := by
  refine hg.propertyMember?.bind fun member? s₁ _ hmember => ?_
  cases member? with
  | some member => exact .pure hmember
  | none =>
    obtain rfl := hmember
    refine (hg.expr s₁).bind fun e s₂ _ he =>
      .pure ⟨wellFormed_ofObjectMember rfl trivial ?_, he.2⟩
    simpa [ObjectMember.fields] using he.1

theorem Grows.objectMember (hg : g.Grows ctx) :
    g.objectMember.Grows ctx s fun member s' =>
      (Node.ofObjectMember member).WellFormed ∧ Advanced ctx.text s s' := by
  refine .look (startsWith_looks _) (.ite (fun h => hg.predicateEntry h) fun _ => ?_)
  refine .look (startsWith_looks _) (.ite (fun h => hg.mappingEntry h) fun _ => ?_)
  refine .look (startsWith_looks _) (.ite (fun h => hg.spread h) fun _ => ?_)
  refine atFieldAmend_grows.bind fun found s₁ _ hfound => ?_
  obtain ⟨rfl, hopen⟩ := hfound
  refine .ite (fun h => hg.fieldAmend (hopen h)) fun _ => ?_
  refine .look (atWord_looks _) (.ite (fun h => hg.whenGenerator h) fun _ => ?_)
  exact .look (atWord_looks _) (.ite (fun h => hg.forGenerator h) fun _ => hg.namedMember)

theorem Grows.objectMembers (hg : g.Grows ctx) {opening : Span} :
    (g.objectMembers opening).Grows ctx s fun members _ =>
      ∀ member ∈ members.toList, (Node.ofObjectMember member).WellFormed := by
  refine .repeating (fun members _ => ∀ member ∈ members.toList,
    (Node.ofObjectMember member).WellFormed) (by simp) fun members s₁ _ hmembers =>
      skip_grows.bind fun _ s₂ _ _ => .look peek_looks (.look atEnd_looks
        (.ite (fun _ => failWith_grows rfl) fun _ => .ite (fun _ => ?_) fun _ => .ite (fun _ => ?_)
          fun _ => ?_))
  · exact (advance_grows 1).bind fun _ s₃ _ _ => .pure hmembers
  · exact (advance_grows 1).bind fun _ s₃ _ _ => .pure hmembers
  · exact hg.objectMember.bind fun member s₃ _ hmember =>
      .pure (forall_mem_toList_push hmembers hmember.1)

theorem Grows.bodyRule (hg : g.Grows ctx) :
    g.bodyRule.Grows ctx s fun body _ => (Node.objectBody body).WellFormed := by
  refine (expect_grows (by decide)).bind fun opening s₁ _ _ => .bind
    (P := fun members _ => ∀ member ∈ members.toList, (Node.ofObjectMember member).WellFormed)
    (inMode_grows hg.objectMembers) fun members s₂ _ hmembers => .look position_looks (.pure ?_)
  rw [Node.wellFormed_iff]
  exact ⟨trivial, by simpa [Node.children, Node.fields, ObjectBody.fields] using hmembers⟩

/-! ### Grammars -/

/-- A grammar gives well-formed trees, whatever depth of nesting it admits. -/
theorem grows_nested (ctx : Context) (depth : Nat) : (nested depth).Grows ctx := by
  induction depth with
  | zero => exact ⟨fun _ => throw_tooDeep_grows, fun _ => throw_tooDeep_grows,
      fun _ => throw_tooDeep_grows⟩
  | succ depth ih => exact ⟨fun _ => ih.expressionRule, fun _ => ih.typeRule, fun _ => ih.bodyRule⟩

theorem grows_full (ctx : Context) : full.Grows ctx := grows_nested ctx nestingLimit

end Grammar

/-! ### Alternatives that are given up -/

/-- Reading ahead leaves no trace. When there is no lambda, no property or function, or no arrow at
the cursor, and whatever is found out about the head of a property or the amendment of an element,
the state is the one from which the text was read: the cursor, the mode, the doc comments with what
is taken of them, and the diagnostics. -/
theorem abandoned_leaves_no_trace (ctx : Context) (depth : Nat) (s s' : State) :
    ((Grammar.nested depth).lambda? ctx s = .ok none s' → s' = s) ∧
      ((Grammar.nested depth).propertyMember? ctx s = .ok none s' → s' = s) ∧
      ((Grammar.nested depth).arrowResult? ctx s = .ok none s' → s' = s) ∧
      (∀ found, Parser.atPropertyHead ctx s = .ok found s' → s' = s) ∧
      ∀ found, Parser.atFieldAmend ctx s = .ok found s' → s' = s := by
  have hg := Grammar.grows_nested ctx depth
  exact ⟨fun h => (hg.lambda?.of_ok h).2, fun h => (hg.propertyMember?.of_ok h).2,
    fun h => (hg.arrowResult?.of_ok h).2, fun _ h => (Parser.atPropertyHead_grows.of_ok h).2,
    fun _ h => (Parser.atFieldAmend_grows.of_ok h).2.1⟩

/-- A number in parentheses is no lambda, and the state is as it was before the parameters were
looked for. -/
theorem abandoned_leaves_no_trace_parentheses :
    (Grammar.nested 2).lambda? ⟨"(1)".toList.toArray, {}⟩ {} = .ok none {} := by
  obtain ⟨found?, s', hrun, hnone⟩ := Parser.exists_of_passes (Grammar.nested 2).lambda?
    ⟨"(1)".toList.toArray, {}⟩ {} (fun found? _ => found?.isNone) (by decide +kernel)
  obtain rfl := Option.isNone_iff_eq_none.1 hnone
  rw [hrun, (abandoned_leaves_no_trace _ 2 {} s').1 hrun]

end PklSyntax
