import PklSyntax.Grammar.Object
import PklSyntax.Proofs.Adjacency.Declaration
import PklSyntax.Proofs.Documentation.Basic
import PklSyntax.Proofs.Layout.Declaration

/-!
# How what can be documented begins

What stands in front of a declaration is read from the cursor on: its doc comment is the one that
waits there, and its annotations and modifiers begin there. Where there are neither annotations nor
modifiers the cursor does not move, and then the declaration begins with a token of its own.

All this goes for a cursor with no trivia behind it. Reading ahead for the name of a property
changes nothing, for the cursor goes back.

## Main definitions

* `Documentable.ReadAt`: something that can be documented has been read at the cursor.
* `ModifiersFrom`, `Preamble.ReadAt`: modifiers, and what stands in front of a declaration.

## Main statements

* `Grammar.preamble_readAt`: what stands in front of a declaration is read at the cursor.
* `Grammar.classMember_readAt`, `Grammar.propertyMember?_readAt`, `Grammar.declarationRule_readAt`:
  and so are members and declarations.
-/

namespace PklSyntax

variable {text : Array Char} {s s' : State} {before : Preamble} {item : Documentable}

/-! ### What is read at the cursor -/

/-- It begins at the cursor, and its doc comment is the one that waits there. -/
structure Documentable.ReadAt (text : Array Char) (s : State) (item : Documentable) : Prop where
  doc_eq : item.doc = s.pending
  begins : item.BeginsAt text s.pos

/-- One of the modifiers stands at the offset, or there are none and the cursor is there. -/
def ModifiersFrom (text : Array Char) (i : Nat) (found : Modifiers) (s' : State) : Prop :=
  (∃ m ∈ found.members, wordAt text m.keyword i = true) ∨ found.isEmpty = true ∧ s'.pos = i

/-- What stands in front of a declaration has been read from the state `s` on, and the cursor has
moved unless that is nothing but a doc comment. -/
structure Preamble.ReadAt (text : Array Char) (s : State) (before : Preamble) (s' : State) :
    Prop where
  doc_eq : before.doc = s.pending
  begins : before.annotations.head?.elim (ModifiersFrom text s.pos before.modifiers s')
    fun annotation => annotation.span.start = s.pos

/-- It has what stands in front of it. -/
structure Documentable.Behind (before : Preamble) (item : Documentable) : Prop where
  doc_eq : item.doc = before.doc
  annotations_eq : item.annotations = before.annotations
  modifiers_eq : item.modifiers = none ∨ item.modifiers = some before.modifiers

theorem Documentable.Behind.readAt (h : item.Behind before) (hbefore : before.ReadAt text s s')
    (hown : s'.pos = s.pos → item.own.StandsAt text s.pos) : item.ReadAt text s := by
  refine ⟨h.doc_eq.trans hbefore.doc_eq, ?_⟩
  have hmodifiers : ∀ modifiers ∈ item.modifiers, modifiers = before.modifiers := by
    rcases h.modifiers_eq with heq | heq
    · simp [heq]
    · simp [heq]
  have hbegins := hbefore.begins
  rw [BeginsAt, h.annotations_eq]
  cases hhead : before.annotations.head? with
  | some annotation =>
    rw [hhead] at hbegins
    exact hbegins
  | none =>
    rw [hhead] at hbegins
    rcases hbegins with ⟨m, hm, hword⟩ | ⟨hempty, hpos⟩
    · exact .inl ⟨m, hword, fun modifiers hmem => hmodifiers modifiers hmem ▸ hm⟩
    · exact .inr ⟨hown hpos, fun modifiers hmem => hmodifiers modifiers hmem ▸ hempty⟩

theorem Modifiers.mem_insert {m m' : Modifier} {found : Modifiers} :
    m' ∈ (found.insert m).members ↔ m' = m ∨ m' ∈ found.members := by
  have hall : m' ∈ Modifier.all := by cases m' <;> decide
  simp [Modifiers.insert, Modifiers.ofFilter, hall]

namespace Parser

variable {ctx : Context} {i : Nat} {found : Modifiers}

/-! ### Steps -/

/-- Where no trivia stand the cursor does not move. -/
theorem skip_stays :
    skip.Leaves Anywhere ctx s fun _ s' => triviaAt? ctx.text s.pos = none → s'.pos = s.pos where
  of_ok {_ s'} _ hrun := by
    obtain rfl : s.skipTrivia ctx.text = s' := by
      cases hrun
      rfl
    refine ⟨trivial, fun hnone => ?_⟩
    rw [State.skipTrivia]
    split
    · rfl
    · exact skipEnd_of_none hnone

theorem atToken_stays (token : String) :
    (atToken token).Leaves Anywhere ctx s fun _ s' =>
      triviaAt? ctx.text s.pos = none → s'.pos = s.pos :=
  skip_stays.bind fun _ _ hpos => .value (startsWith_looks token) hpos

theorem takeDoc_pending :
    takeDoc.Leaves Anywhere ctx s fun doc s' => doc = s.pending ∧ s'.pos = s.pos where
  of_ok _ hrun := by
    obtain ⟨attached, heq, -⟩ := s.takeDoc_eq
    have hrun' : takeDoc ctx s = .ok s.takeDoc.1 s.takeDoc.2 := rfl
    rw [hrun', heq] at hrun
    cases hrun
    exact ⟨trivial, rfl, rfl⟩

/-- Where no trivia stand a name begins at the cursor. -/
theorem expectName_stays {what : String} :
    (expectName what).Leaves Anywhere ctx s fun name _ =>
      triviaAt? ctx.text s.pos = none → name.span.start = s.pos := by
  apply skip_stays.bind
  intro _ s₁ hpos
  apply (identifier_leaves what).bind
  intro name s₂ hname
  apply Leaves.guard failWith_leaves
  intro _
  apply Leaves.pure
  intro hnone
  rw [hname.start_eq, hpos hnone]

theorem atPropertyHead_stays :
    atPropertyHead.Leaves Anywhere ctx s fun _ s' => s'.pos = s.pos := by
  refine .look mark_looks (.after fun name? _ => ?_)
  cases name? with
  | none => exact (rewind_leaves _).bind fun _ _ hpos => .pure hpos
  | some name =>
    refine .after fun _ _ => .after fun c _ => .after fun next _ => ?_
    exact (rewind_leaves _).bind fun _ _ hpos => .pure hpos

/-! ### Modifiers -/

theorem skip_modifiersFrom (hnone : triviaAt? ctx.text i = none)
    (h : ModifiersFrom ctx.text i found s) :
    skip.Leaves Anywhere ctx s fun _ s' => ModifiersFrom ctx.text i found s' := by
  rcases h with hfirst | ⟨hempty, rfl⟩
  · exact .of_run fun _ _ _ _ => .inl hfirst
  · exact skip_stays.mono fun _ _ hpos => .inr ⟨hempty, hpos hnone⟩

theorem modifiers_leaves (hnone : triviaAt? ctx.text s.pos = none) :
    modifiers.Leaves Anywhere ctx s (ModifiersFrom ctx.text s.pos) := by
  apply Leaves.repeating (ModifiersFrom ctx.text s.pos) (.inr ⟨rfl, rfl⟩)
  intro found s₁ hfound
  apply (skip_modifiersFrom hnone hfound).bind
  intro _ s₂ hfound
  apply Leaves.look (firstModifier?_looks _)
  cases hfirst : Modifier.all.find? fun m => wordAt ctx.text m.keyword s₂.pos with
  | none => exact .pure hfound
  | some m =>
    have hword : wordAt ctx.text m.keyword s₂.pos = true :=
      List.find?_some (p := fun m : Modifier => wordAt ctx.text m.keyword s₂.pos) hfirst
    refine .after fun _ s₃ => .pure (.inl ?_)
    rcases hfound with ⟨m', hm', hword'⟩ | ⟨-, hpos⟩
    · exact ⟨m', Modifiers.mem_insert.2 (.inr hm'), hword'⟩
    · exact ⟨m, Modifiers.mem_insert.2 (.inl rfl), hpos ▸ hword⟩

end Parser

namespace Grammar

open PklSyntax.Parser

variable {g : Grammar} {ctx : Context}

/-! ### In front of a declaration -/

theorem annotationRule_leaves :
    g.annotationRule.Leaves Anywhere ctx s fun annotation _ => annotation.span.start = s.pos := by
  refine .look position_looks (.after fun _ _ => .after fun name _ => ?_)
  apply announced_leaves (P := fun _ => True) fun _ => .of_run fun _ _ _ _ => trivial
  intro body? _ _
  exact .pure rfl

theorem annotationRules_leaves (hnone : triviaAt? ctx.text s.pos = none) :
    g.annotationRules.Leaves Anywhere ctx s fun annotations s' =>
      annotations.head?.elim (s'.pos = s.pos) fun annotation => annotation.span.start = s.pos := by
  apply Leaves.bind (P := fun annotations s' => annotations.toList.head?.elim (s'.pos = s.pos)
    fun annotation => annotation.span.start = s.pos)
  · apply Leaves.repeating fun annotations s' => annotations.toList.head?.elim (s'.pos = s.pos)
      fun annotation => annotation.span.start = s.pos
    · rfl
    · intro annotations s₁ hfirst
      cases hhead : annotations.toList.head? with
      | none =>
        rw [hhead, Option.elim_none] at hfirst
        apply (atToken_stays _).bind
        intro found s₂ hpos
        have hpos := hpos (hfirst ▸ hnone)
        apply Leaves.ite
        · intro _
          apply annotationRule_leaves.bind
          intro annotation _ hstart
          apply Leaves.pure
          simpa [Round.Meets, List.head?_append, hhead] using hstart.trans (by rw [hpos, hfirst])
        · intro _
          apply Leaves.pure
          simpa [Round.Meets, hhead] using hpos.trans hfirst
      | some annotation =>
        rw [hhead, Option.elim_some] at hfirst
        refine .after fun found _ => .ite (fun _ => .after fun annotation' _ => .pure ?_)
          fun _ => .pure ?_
        · simpa [Round.Meets, List.head?_append, hhead] using hfirst
        · simpa [Round.Meets, hhead] using hfirst
  · intro annotations s₁ hfirst
    exact .pure hfirst

/-- What stands in front of a declaration is read at the cursor. -/
theorem preamble_readAt (hnone : triviaAt? ctx.text s.pos = none) :
    g.preamble.Leaves Anywhere ctx s fun before s' => before.ReadAt ctx.text s s' := by
  refine .look position_looks (takeDoc_pending.bind ?_)
  rintro doc s₁ ⟨hdoc, hpos⟩
  rw [← hpos] at hnone
  apply (annotationRules_leaves hnone).bind
  intro annotations s₂ hfirst
  cases hhead : annotations.head? with
  | some annotation =>
    rw [hhead, Option.elim_some, hpos] at hfirst
    refine .after fun modifiers _ => .after fun _ _ => .pure ⟨hdoc, ?_⟩
    rw [hhead]
    exact hfirst
  | none =>
    rw [hhead, Option.elim_none] at hfirst
    apply (modifiers_leaves (hfirst ▸ hnone)).bind
    intro modifiers s₃ hmodifiers
    rw [hfirst] at hmodifiers
    apply (skip_modifiersFrom hnone hmodifiers).bind
    intro _ s₄ hmodifiers
    refine .pure ⟨hdoc, ?_⟩
    rw [hhead, ← hpos]
    exact hmodifiers

/-! ### Rules -/

theorem propertyRule_behind :
    (g.propertyRule before).Leaves Anywhere ctx s fun decl _ =>
      (Documentable.ofProperty decl).Behind before ∧
        (triviaAt? ctx.text s.pos = none → decl.name.span.start = s.pos) := by
  apply expectName_stays.bind
  intro name _ hstart
  exact .after fun form _ => .pure ⟨⟨rfl, rfl, .inr rfl⟩, hstart⟩

theorem functionRule_behind :
    (g.functionRule before).Leaves Anywhere ctx s fun decl _ =>
      (Documentable.ofFunction decl).Behind before := by
  refine .after fun _ _ => .after fun name _ => .after fun typeParams _ => .after fun params _ => ?_
  apply announced_leaves (P := fun _ => True) fun _ => .of_run fun _ _ _ _ => trivial
  intro result? _ _
  refine .after fun hasBody _ => .option () fun _ _ => .branch (P := fun _ _ => True)
    (fun _ => .of_run fun _ _ _ _ => trivial) (fun _ => .pure trivial) ?_
  intro body? _ _
  exact .pure ⟨rfl, rfl, .inr rfl⟩

theorem moduleClauseRule_behind :
    (moduleClauseRule before).Leaves Anywhere ctx s fun clause _ =>
      (Declaration.moduleClause clause).documentable.Behind before :=
  .after fun _ _ => .after fun _ _ => .after fun _ _ => .pure ⟨rfl, rfl, .inr rfl⟩

theorem importRule_behind :
    (g.importRule before).Leaves Anywhere ctx s fun decl _ =>
      (Declaration.importDecl decl).documentable.Behind before := by
  refine .after fun _ _ => .after fun c _ => .option () fun _ _ => .after fun source _ => ?_
  apply announced_leaves (P := fun _ => True) fun _ => .of_run fun _ _ _ _ => trivial
  intro localName? _ _
  exact .pure ⟨rfl, rfl, .inl rfl⟩

theorem extendsRule_behind :
    (g.extendsRule before).Leaves Anywhere ctx s fun clause _ =>
      (Declaration.extendsClause clause).documentable.Behind before :=
  .after fun _ _ => .after fun _ _ => .pure ⟨rfl, rfl, .inl rfl⟩

theorem amendsRule_behind :
    (g.amendsRule before).Leaves Anywhere ctx s fun clause _ =>
      (Declaration.amendsClause clause).documentable.Behind before :=
  .after fun _ _ => .after fun _ _ => .pure ⟨rfl, rfl, .inl rfl⟩

theorem typeAliasRule_behind :
    (g.typeAliasRule before).Leaves Anywhere ctx s fun decl _ =>
      (Declaration.typeAlias decl).documentable.Behind before :=
  .after fun _ _ => .after fun _ _ => .after fun _ _ => .after fun _ _ => .after fun _ _ =>
    .pure ⟨rfl, rfl, .inr rfl⟩

theorem classRule_behind :
    (g.classRule before).Leaves Anywhere ctx s fun decl _ =>
      (Declaration.classDecl decl).documentable.Behind before := by
  refine .after fun _ _ => .after fun name _ => .after fun typeParams _ => ?_
  apply announced_leaves (P := fun _ => True) fun _ => .of_run fun _ _ _ _ => trivial
  intro parent? _ _
  apply announced_leaves (P := fun _ => True) fun _ => .of_run fun _ _ _ _ => trivial
  intro body? _ _
  exact .pure ⟨rfl, rfl, .inr rfl⟩

/-! ### Members and declarations -/

section Members

variable {α β : Type} {s₀ : State}

/-- What a keyword announces begins with it, when nothing but a doc comment stands in front. -/
theorem word_readAt {word : String} {rule : Parser β} {build : β → α} {otherwise : Parser α}
    {Q : α → State → Prop} (item : β → Documentable) (hown : ∀ b, (item b).own = .keyword word)
    (hbefore : before.ReadAt ctx.text s₀ s)
    (hrule : rule.Leaves Anywhere ctx s fun b _ => (item b).Behind before)
    (hQ : ∀ b s', (item b).ReadAt ctx.text s₀ → Q (build b) s')
    (hotherwise : otherwise.Leaves Anywhere ctx s Q) :
    (do if ← atWord word then return build (← rule) else otherwise).Leaves Anywhere ctx s Q := by
  refine .look (atWord_looks word) (.ite (fun hword => ?_) fun _ => hotherwise)
  apply hrule.bind
  intro b s₁ hb
  refine .pure (hQ b s₁ (hb.readAt hbefore fun hpos => ?_))
  rw [hown, ← hpos]
  exact hword

/-- A property begins with its name, when nothing but a doc comment stands in front. -/
theorem propertyRule_readAt (hnone : triviaAt? ctx.text s₀.pos = none)
    (hbefore : before.ReadAt ctx.text s₀ s) :
    (g.propertyRule before).Leaves Anywhere ctx s fun decl _ =>
      (Documentable.ofProperty decl).ReadAt ctx.text s₀ := by
  apply propertyRule_behind.mono
  rintro decl _ ⟨hbehind, hstart⟩
  refine hbehind.readAt hbefore fun hpos => ?_
  rw [← hpos]
  exact hstart (hpos ▸ hnone)

end Members

theorem classMember_readAt (hnone : triviaAt? ctx.text s.pos = none) :
    g.classMember.Leaves Anywhere ctx s fun member _ =>
      member.documentable.ReadAt ctx.text s := by
  apply (preamble_readAt hnone).bind
  intro before s₁ hbefore
  refine word_readAt .ofFunction (fun _ => rfl) hbefore functionRule_behind (fun _ _ h => h) ?_
  refine .look atIdentifier_looks (.ite (fun _ => ?_) fun _ => failExpected_leaves)
  exact (propertyRule_readAt hnone hbefore).bind fun _ _ h => .pure h

/-- A property or function that is found has been read at the cursor. -/
theorem propertyMember?_readAt (hnone : triviaAt? ctx.text s.pos = none) :
    g.propertyMember?.Leaves Anywhere ctx s fun member? _ =>
      ∀ member ∈ member?, ∀ item ∈ member.documentable?, item.ReadAt ctx.text s := by
  refine .look mark_looks ((preamble_readAt hnone).bind fun before s₁ hbefore => ?_)
  refine word_readAt .ofFunction (fun _ => rfl) hbefore functionRule_behind ?_ ?_
  · intro decl _ hdecl
    simpa [ObjectMember.documentable?] using hdecl
  · apply atPropertyHead_stays.bind
    intro found s₂ hpos
    -- The cursor has gone back, which is all that matters for what stands in front.
    have hbefore₂ : before.ReadAt ctx.text s s₂ := by
      have hbegins := hbefore.begins
      rw [ModifiersFrom, ← hpos] at hbegins
      exact ⟨hbefore.doc_eq, hbegins⟩
    refine .ite (fun _ => ?_) fun _ => .after fun _ _ => .pure (by simp)
    apply (propertyRule_readAt hnone hbefore₂).bind
    intro decl _ hdecl
    apply Leaves.pure
    simpa [ObjectMember.documentable?] using hdecl

theorem declarationRule_readAt (hnone : triviaAt? ctx.text s.pos = none) :
    g.declarationRule.Leaves Anywhere ctx s fun decl _ => decl.documentable.ReadAt ctx.text s := by
  apply (preamble_readAt hnone).bind
  intro before s₁ hbefore
  have hword {β : Type} {word : String} {rule : Parser β} {build : β → Declaration}
      {otherwise : Parser Declaration} (hown : ∀ b, (build b).documentable.own = .keyword word)
      (hrule : rule.Leaves Anywhere ctx s₁ fun b _ => (build b).documentable.Behind before)
      (hotherwise : otherwise.Leaves Anywhere ctx s₁ fun decl _ =>
        decl.documentable.ReadAt ctx.text s) :
      (do if ← atWord word then return build (← rule) else otherwise).Leaves Anywhere ctx s₁
        fun decl _ => decl.documentable.ReadAt ctx.text s :=
    word_readAt (fun b => (build b).documentable) hown hbefore hrule (fun _ _ h => h) hotherwise
  refine hword (fun _ => rfl) moduleClauseRule_behind (hword (fun _ => rfl) importRule_behind
    (hword (fun _ => rfl) extendsRule_behind (hword (fun _ => rfl) amendsRule_behind
      (hword (fun _ => rfl) typeAliasRule_behind (hword (fun _ => rfl) classRule_behind
        (hword (fun _ => rfl) functionRule_behind ?_))))))
  refine .look atIdentifier_looks (.ite (fun _ => ?_) fun _ => failDeclaration_leaves)
  exact (propertyRule_readAt hnone hbefore).bind fun _ _ h => .pure h

end Grammar

end PklSyntax
