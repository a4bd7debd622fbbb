import PklSyntax.Editor.Item
import PklSyntax.Proofs.Adjacency.Module

/-!
# Names as words of the text

The name of a declaration or of a member of a class, unless it stands between backticks, is a whole
word of the text: a run of characters of names that cannot be made longer at either end. That it
ends with its run is how names are read. That it begins there is known of every place at which a
name is looked for: behind trivia, behind a token that is no name or has ended as one, and where
reading goes on after something was given up.

## Main definitions

* `WordBreak`: no name goes on across an offset.
* `Identifier.IsWord`: a name without backticks is a whole word.
* `Declaration.identifiers`: the names that a declaration gives to itself and to its members.

## Main statements

* `TriviaTo.wordBreak`, `TokenEnd.wordBreak`: where no name goes on.
* `Grammar.declarationRule_names`: the names of a declaration that is read at such a place.
* `parse_names`: the names of any text.
-/

namespace PklSyntax

open PklSyntax.Parser

variable {text : Array Char} {s : State} {c i j : Nat}

/-! ### Where no name goes on -/

/-- No name goes on across the offset. -/
def WordBreak (text : Array Char) (i : Nat) : Prop :=
  0 < i → continuesName (charAt text (i - 1)) = true → continuesName (charAt text i) = false

namespace WordBreak

theorem zero : WordBreak text 0 := fun h => absurd h (Nat.lt_irrefl 0)

/-- Behind a character that is not one of a name. -/
theorem behind (h : continuesName (charAt text i) = false) : WordBreak text (i + 1) := by
  intro _ hname
  rw [Nat.add_sub_cancel, h] at hname
  cases hname

/-- In front of a character that is not one of a name. -/
theorem before (h : continuesName (charAt text i) = false) : WordBreak text i := fun _ _ => h

theorem size_le (h : text.size ≤ i) : WordBreak text i :=
  .before (by rw [charAt_of_size_le h]; decide)

end WordBreak

theorem TokenEnd.wordBreak (h : TokenEnd text i) : WordBreak text i := fun _ => h.apart

/-- A run of characters of names goes as far as it can. -/
theorem not_continuesName_nameEnd (i : Nat) :
    continuesName (charAt text (skipWhile text continuesName i)) = false := by
  rcases Nat.lt_or_ge (skipWhile text continuesName i) text.size with hlt | hge
  · exact (skipWhile_spec continuesName).2 hlt
  · rw [charAt_of_size_le hge]
    decide

theorem not_continuesName_of_isTriviaBlank {c : Char} (h : isTriviaBlank c = true) :
    continuesName c = false := by
  rw [← Bool.not_eq_true]
  intro hname
  rw [not_isTriviaBlank_of_continuesName hname] at h
  cases h

theorem TriviaRun.wordBreak (h : TriviaRun text i j) (hi : WordBreak text i) : WordBreak text j := by
  induction h with
  | nil => exact hi
  | blank _ hblank _ ih => exact ih (.behind (not_continuesName_of_isTriviaBlank hblank))
  | lineComment _ _ _ hstop _ ih =>
    refine ih ?_
    rcases hstop with hstop | hstop
    · exact .size_le (Nat.le_of_eq hstop.symm)
    · exact .before (by rw [hstop]; decide)
  | blockComment _ _ hclose _ _ ih =>
    have hslash := charAt_of_matchesAt hclose (show ("*/".toList)[1]? = some '/' from rfl)
    exact ih (.behind (by rw [hslash]; decide))

theorem TriviaTo.wordBreak (h : TriviaTo text i j) (hi : WordBreak text i) : WordBreak text j := by
  rcases Nat.lt_or_ge j text.size with hlt | hge
  · exact (h.run hlt).wordBreak hi
  · exact .size_le hge

theorem Stands.wordBreak (h : Stands text s c) (hend : TokenEnd text c) : WordBreak text s.pos :=
  h.triviaTo.wordBreak hend.wordBreak

/-- Where members go on no name goes on. -/
theorem wordBreak_memberRestart (start i depth : Nat) :
    WordBreak text (Grammar.memberRestart text start i depth) := by
  fun_induction Grammar.memberRestart text start i depth with
  | case1 _ _ _ _ _ ih => exact ih
  | case2 i hi c _ hclose =>
    rw [beq_iff_eq] at hclose
    exact .before (by rw [charAt_of_lt hi, show text[i] = '\x7d' from hclose]; decide)
  | case3 _ _ _ _ _ _ _ ih => exact ih
  | case4 i _ hi c _ _ hfeed =>
    simp only [Bool.and_eq_true, beq_iff_eq] at hfeed
    exact .behind (by rw [charAt_of_lt hi, show text[i] = '\n' from hfeed.1.1]; decide)
  | case5 _ _ _ _ _ _ _ ih => exact ih
  | case6 i _ hi => exact .size_le (Nat.le_of_not_lt hi)

/-- Where declarations go on no name goes on. -/
theorem wordBreak_declarationRestart (i : Nat) : WordBreak text (declarationRestart text i) := by
  fun_induction declarationRestart text i with
  | case1 i hi hfeed =>
    simp only [Bool.and_eq_true, beq_iff_eq] at hfeed
    intro _ hname
    rw [hfeed.1] at hname
    exact absurd hname (by decide)
  | case2 _ _ _ ih => exact ih
  | case3 i hi => exact .size_le (Nat.le_of_not_lt hi)

/-! ### Names -/

/-- The name is the run of characters of names from one offset up to another, and the run cannot be
made longer. -/
structure WholeWord (text : Array Char) (name : Identifier) (start stop : Nat) : Prop where
  span_eq : name.span = .ofNat start stop
  name_eq : name.name = sliceOf text start stop
  lt : start < stop
  continues : ∀ k, start ≤ k → k < stop → k < text.size ∧ continuesName (charAt text k) = true
  front : WordBreak text start
  behind : continuesName (charAt text stop) = false

/-- The name is a whole word of the text, unless it stands between backticks. -/
def Identifier.IsWord (text : Array Char) (name : Identifier) : Prop :=
  name.kind ≠ .backtick → ∃ start stop, WholeWord text name start stop

/-- The name that a member of a class gives itself. -/
def ClassMember.identifier : ClassMember → Identifier
  | property decl => decl.name
  | function decl => decl.name

namespace Declaration

/-- The name that a class, a type alias, a function or a property gives itself. -/
def identifier? : Declaration → Option Identifier
  | typeAlias decl => some decl.name
  | classDecl decl => some decl.name
  | function decl => some decl.name
  | property decl => some decl.name
  | moduleClause _ | importDecl _ | extendsClause _ | amendsClause _ => none

/-- The names that a declaration gives to itself and to its members. -/
def identifiers (decl : Declaration) : List Identifier :=
  decl.identifier?.toList ++ decl.members.map ClassMember.identifier

/-- The names of the declaration are whole words. -/
def IsNamed (text : Array Char) (decl : Declaration) : Prop :=
  ∀ name ∈ decl.identifiers, name.IsWord text

end Declaration

namespace Parser

variable {ctx : Context}

theorem identifier?_isWord (h : WordBreak ctx.text s.pos) :
    identifier?.Leaves Anywhere ctx s fun name? _ => ∀ name ∈ name?, name.IsWord ctx.text := by
  refine .look peek_looks (.ite (fun _ => ?_) fun _ => .ite (fun hstart => ?_) fun _ => ?_)
  · apply Leaves.bind (P := fun (name : Identifier) _ => name.kind = .backtick)
    · refine .look theText_looks (.look position_looks (.ite (fun _ => ?_) fun _ => failWith_leaves))
      exact .after fun _ _ => .look (slice_looks _ _) (.look (spanFrom_looks _) (.pure rfl))
    · intro name _ hkind
      apply Leaves.pure
      rintro _ ⟨⟩
      exact absurd hkind
  · have hlt := lt_nameEnd (continuesName_of_startsName hstart)
    refine .look position_looks (.look wordEnd_looks ((moveTo_leaves _).bind fun _ s₁ hpos => ?_))
    refine .look (sliceFrom_looks _) (.look (spanFrom_looks _) (.pure ?_))
    rintro _ ⟨⟩ -
    rw [hpos]
    exact ⟨_, _, rfl, rfl, hlt, (skipWhile_spec continuesName).1, h,
      not_continuesName_nameEnd _⟩
  · apply Leaves.pure
    simp

theorem expectName_isWord {what : String} (h : WordBreak ctx.text s.pos) :
    (expectName what).Leaves Anywhere ctx s fun name _ => name.IsWord ctx.text := by
  apply skip_leaves.bind
  intro _ s₁ htrivia
  apply Leaves.bind (P := fun (name : Identifier) _ => name.IsWord ctx.text)
  · apply (identifier?_isWord (htrivia.wordBreak h)).bind
    intro name? _ hname
    cases name? with
    | some name => exact .pure (hname name rfl)
    | none => exact failExpected_leaves
  · intro name _ hname
    exact .guard failWith_leaves fun _ => .pure hname

/-- Behind a word that does not go on as a longer name. -/
theorem advance_word {word : String} (hword : wordAt ctx.text word s.pos = true)
    (hne : word ≠ "") :
    (advance word.length).Leaves Anywhere ctx s fun _ s' => WordBreak ctx.text s'.pos := by
  apply (advance_leaves _).mono
  intro _ s' hpos
  have hsize := add_length_le_of_matchesAt (matchesAt_of_wordAt hword) hne
  rw [wordAt, Bool.and_eq_true, Bool.not_eq_true'] at hword
  rw [hpos, Nat.min_eq_right hsize]
  exact .before hword.2

/-- Behind what ends as a token does, no name goes on. -/
theorem wordBreak_leaves {α : Type} {p : Parser α} [Keeps Steady p] {Q : α → State → Nat → Prop}
    (hyields : ∀ c, p.Yields ctx s c Q) (hend : ∀ a s' c', Q a s' c' → TokenEnd ctx.text c') :
    p.Leaves Steady ctx s fun _ s' => WordBreak ctx.text s'.pos := by
  apply Leaves.of_holds
  rintro ⟨⟨c, hc⟩, -⟩
  apply (Leaves.of_yields hc (hyields c)).mono
  rintro a s' ⟨c', hon, hQ⟩
  exact hon.stands.wordBreak (hend a s' c' hQ)

theorem modifiers_break (h : WordBreak ctx.text s.pos) :
    modifiers.Leaves Anywhere ctx s fun _ s' => WordBreak ctx.text s'.pos := by
  apply Leaves.repeating (fun _ s' => WordBreak ctx.text s'.pos) h
  intro found s₁ hbreak
  apply skip_leaves.bind
  intro _ s₂ htrivia
  have hbreak := htrivia.wordBreak hbreak
  apply Leaves.look (firstModifier?_looks _)
  cases hfirst : Modifier.all.find? fun m => wordAt ctx.text m.keyword s₂.pos with
  | none => exact .pure hbreak
  | some m =>
    have hword : wordAt ctx.text m.keyword s₂.pos = true :=
      List.find?_some (p := fun m : Modifier => wordAt ctx.text m.keyword s₂.pos) hfirst
    exact (advance_word hword (by cases m <;> decide)).bind fun _ _ hbreak => .pure hbreak

end Parser

namespace Grammar

variable {g : Grammar} [g.Upkept] {ctx : Context} {before : Preamble}

instance : Parser.Upkept g.annotationRule := ⟨fun U => (Upkept.upholds U).annotationRule⟩
instance (stop : Int) : Parser.Upkept (g.typeParameters stop) :=
  ⟨fun U => (Upkept.upholds U).typeParameters stop⟩
instance (name : Identifier) : Parser.Upkept (g.propertyForm name) :=
  ⟨fun U => (Upkept.upholds U).propertyForm name⟩
instance : Parser.Upkept (moduleClauseRule before) := ⟨fun _ => moduleClauseRule_upholds before⟩
instance : Parser.Upkept (g.importRule before) := ⟨fun U => (Upkept.upholds U).importRule before⟩
instance : Parser.Upkept (g.extendsRule before) := ⟨fun U => (Upkept.upholds U).extendsRule before⟩
instance : Parser.Upkept (g.amendsRule before) := ⟨fun U => (Upkept.upholds U).amendsRule before⟩

/-! ### In front of a declaration -/

theorem annotationRules_break (hg : g.Places ctx) (h : WordBreak ctx.text s.pos) :
    g.annotationRules.Leaves Steady ctx s fun _ s' => WordBreak ctx.text s'.pos := by
  apply Leaves.bind (P := fun _ s' => WordBreak ctx.text s'.pos)
  · apply Leaves.repeating (fun _ s' => WordBreak ctx.text s'.pos) h
    intro annotations s₁ hbreak
    apply (atToken_leaves "@").under.bind
    rintro found s₂ ⟨htrivia, rfl⟩
    apply Leaves.ite
    · intro hsign
      apply (wordBreak_leaves (fun c => hg.annotationRule hsign) fun _ _ _ h => h.tokenEnd).bind
      intro annotation s₃ hbreak
      exact .pure hbreak
    · intro _
      exact .pure (htrivia.wordBreak hbreak)
  · intro annotations s₁ hbreak
    exact .pure hbreak

theorem preamble_break (hg : g.Places ctx) (h : WordBreak ctx.text s.pos) :
    g.preamble.Leaves Steady ctx s fun _ s' => WordBreak ctx.text s'.pos := by
  refine .look position_looks (takeDoc_pending.under.bind ?_)
  rintro doc s₁ ⟨-, hpos⟩
  apply (annotationRules_break hg (hpos ▸ h)).bind
  intro annotations s₂ hbreak
  apply (modifiers_break hbreak).under.bind
  intro modifiers s₃ hbreak
  apply skip_leaves.under.bind
  intro _ s₄ htrivia
  exact .pure (htrivia.wordBreak hbreak)

/-! ### Members of classes -/

theorem propertyRule_isWord (h : WordBreak ctx.text s.pos) :
    (g.propertyRule before).Leaves Steady ctx s fun decl _ => decl.name.IsWord ctx.text := by
  apply (expectName_isWord h).under.bind
  intro name _ hname
  exact .after fun form _ => .pure hname

theorem functionRule_isWord (hword : wordAt ctx.text "function" s.pos = true) :
    (g.functionRule before).Leaves Steady ctx s fun decl _ => decl.name.IsWord ctx.text := by
  apply (advance_word hword (by decide)).under.bind
  intro _ s₁ hbreak
  apply (expectName_isWord hbreak).under.bind
  intro name _ hname
  refine .after fun typeParams _ => .after fun params _ => ?_
  apply announced_leaves (P := fun _ => True) fun _ => .of_run fun _ _ _ _ => trivial
  intro result? _ _
  refine .after fun hasBody _ => .option () fun _ _ => .branch (P := fun _ _ => True)
    (fun _ => .map (.of_run fun _ _ _ _ => trivial)) (fun _ => .pure trivial) ?_
  intro body? _ _
  exact .pure hname

theorem classMember_isWord (hg : g.Places ctx) (h : WordBreak ctx.text s.pos) :
    g.classMember.Leaves Steady ctx s fun member s' =>
      member.identifier.IsWord ctx.text ∧ WordBreak ctx.text s'.pos := by
  refine .and ?_ (wordBreak_leaves (fun c => hg.classMember) fun _ _ _ h => h.1.tokenEnd)
  apply (preamble_break hg h).bind
  intro before s₁ hbreak
  refine .look (atWord_looks _) (.ite (fun hword => ?_) fun _ =>
    .look atIdentifier_looks (.ite (fun _ => ?_) fun _ => failExpected_leaves))
  · exact (functionRule_isWord hword).bind fun decl _ hdecl => .pure hdecl
  · exact (propertyRule_isWord hbreak).bind fun decl _ hdecl => .pure hdecl

theorem skipMember_break (start : Nat) :
    (skipMember start).Leaves Anywhere ctx s fun _ s' => WordBreak ctx.text s'.pos := by
  refine .look theText_looks (.look position_looks ((moveTo_leaves _).mono fun _ s' hpos => ?_))
  rw [hpos]
  exact wordBreak_memberRestart _ _ _

/-- The members that have been read are named by words, and no name goes on at the cursor. -/
def MembersNamed (ctx : Context) (members : Array ClassMember) (s : State) : Prop :=
  (∀ member ∈ members.toList, member.identifier.IsWord ctx.text) ∧ WordBreak ctx.text s.pos

theorem classRound_isWord (hg : g.Places ctx) {opening : Span} {members : Array ClassMember}
    (h : MembersNamed ctx members s) :
    (g.classRound opening members).Leaves Steady ctx s fun round s' =>
      round.Meets (MembersNamed ctx · s')
        fun members => ∀ member ∈ members.toList, member.identifier.IsWord ctx.text := by
  obtain ⟨hmembers, hbreak⟩ := h
  apply skip_leaves.under.bind
  intro _ s₁ htrivia
  have hbreak := htrivia.wordBreak hbreak
  refine .look atEnd_looks (.guard failWith_leaves fun _ => .look peek_looks (.ite
    (fun _ => .after fun _ _ => .pure hmembers) fun _ => .look position_looks ?_))
  apply (classMember_isWord hg hbreak).attempt.bind
  intro member? s₂ hmember
  cases member? with
  | some member =>
    obtain ⟨hname, hbreak⟩ := hmember member rfl
    exact .pure ⟨forall_mem_toList_push hmembers hname, hbreak⟩
  | none =>
    refine .after fun limit _ => .guard throw_leaves fun _ => ?_
    exact (skipMember_break _).under.bind fun _ _ hbreak => .pure ⟨hmembers, hbreak⟩

theorem classBody_isWord (hg : g.Places ctx) (s : State) :
    g.classBody.Leaves Steady ctx s fun body _ =>
      ∀ member ∈ body.1, member.identifier.IsWord ctx.text := by
  rw [classBody_eq]
  apply (expect_at (by decide)).under.bind
  rintro opening s₁ ⟨i, -, hmatch, -, hpos⟩
  have hbrace : charAt ctx.text i = '\x7b' := charAt_of_matchesAt (n := 0) hmatch (by decide)
  have hbreak : WordBreak ctx.text s₁.pos := by
    rw [hpos]
    exact .behind (by rw [hbrace]; decide)
  apply Leaves.bind (P := fun members _ =>
    ∀ member ∈ members.toList, member.identifier.IsWord ctx.text)
  · exact .repeating (MembersNamed ctx) ⟨by simp, hbreak⟩ fun _ _ h => classRound_isWord hg h
  · intro members _ hmembers
    exact .look position_looks (.pure hmembers)

/-! ### Declarations -/

theorem classRule_isNamed (hg : g.Places ctx) (hword : wordAt ctx.text "class" s.pos = true) :
    (g.classRule before).Leaves Steady ctx s fun decl _ =>
      (Declaration.classDecl decl).IsNamed ctx.text := by
  apply (advance_word hword (by decide)).under.bind
  intro _ s₁ hbreak
  apply (expectName_isWord hbreak).under.bind
  intro name _ hname
  refine .after fun typeParams _ => ?_
  apply announced_leaves (P := fun _ => True) fun _ => .of_run fun _ _ _ _ => trivial
  intro parent? _ _
  apply announced_leaves (classBody_isWord hg)
  intro body? _ hbody
  apply Leaves.pure
  rw [Declaration.IsNamed, Declaration.identifiers]
  cases body? with
  | none => simpa [Declaration.identifier?, Declaration.members] using hname
  | some body =>
    have hmembers := hbody body rfl
    simpa [Declaration.identifier?, Declaration.members, or_imp, forall_and] using
      ⟨hname, hmembers⟩

theorem typeAliasRule_isWord (hword : wordAt ctx.text "typealias" s.pos = true) :
    (g.typeAliasRule before).Leaves Steady ctx s fun decl _ => decl.name.IsWord ctx.text := by
  apply (advance_word hword (by decide)).under.bind
  intro _ s₁ hbreak
  apply (expectName_isWord hbreak).under.bind
  intro name _ hname
  exact .after fun typeParams _ => .after fun _ _ => .after fun aliased _ => .pure hname

/-- A declaration without members is named when its name is a word. -/
theorem isNamed_of_identifier? {decl : Declaration} {name : Identifier}
    (hmembers : decl.members = []) (hname : decl.identifier? = some name)
    (h : name.IsWord ctx.text) : decl.IsNamed ctx.text := by
  rw [Declaration.IsNamed, Declaration.identifiers, hmembers, hname]
  simpa using h

theorem isNamed_of_none {decl : Declaration} (hmembers : decl.members = [])
    (hname : decl.identifier? = none) : decl.IsNamed ctx.text := by
  rw [Declaration.IsNamed, Declaration.identifiers, hmembers, hname]
  simp

/-- The names of a declaration that is read where no name goes on, and where none goes on behind
it. -/
theorem declarationRule_names (hg : g.Places ctx) (h : WordBreak ctx.text s.pos) :
    g.declarationRule.Leaves Steady ctx s fun decl s' =>
      decl.IsNamed ctx.text ∧ WordBreak ctx.text s'.pos := by
  refine .and ?_ (wordBreak_leaves (fun c => hg.declarationRule) fun _ _ _ h => h.1.tokenEnd)
  apply (preamble_break hg h).bind
  intro before s₁ hbreak
  refine .look (atWord_looks _) (.ite
    (fun _ => .after fun clause _ => .pure (isNamed_of_none rfl rfl)) fun _ => ?_)
  refine .look (atWord_looks _) (.ite
    (fun _ => .after fun decl _ => .pure (isNamed_of_none rfl rfl)) fun _ => ?_)
  refine .look (atWord_looks _) (.ite
    (fun _ => .after fun clause _ => .pure (isNamed_of_none rfl rfl)) fun _ => ?_)
  refine .look (atWord_looks _) (.ite
    (fun _ => .after fun clause _ => .pure (isNamed_of_none rfl rfl)) fun _ => ?_)
  refine .look (atWord_looks _) (.ite (fun hword => (typeAliasRule_isWord hword).bind
    fun decl _ hdecl => .pure (isNamed_of_identifier? rfl rfl hdecl)) fun _ => ?_)
  refine .look (atWord_looks _) (.ite (fun hword => (classRule_isNamed hg hword).bind
    fun decl _ hdecl => .pure hdecl) fun _ => ?_)
  refine .look (atWord_looks _) (.ite (fun hword => (functionRule_isWord hword).bind
    fun decl _ hdecl => .pure (isNamed_of_identifier? rfl rfl hdecl)) fun _ => ?_)
  exact .look atIdentifier_looks (.ite (fun _ => (propertyRule_isWord hbreak).bind
    fun decl _ hdecl => .pure (isNamed_of_identifier? rfl rfl hdecl)) fun _ =>
      failDeclaration_leaves)

end Grammar

/-! ### Modules -/

namespace Parser

variable {ctx : Context} {t v : State} {progress progress' : Progress}

/-- What one more declaration comes to: it is added, or it is left out, and reading goes on where
the next one may begin. -/
theorem nextDeclaration_cases (hrun : nextDeclaration progress ctx s = .ok progress' v) :
    (∃ decl t, Grammar.full.declarationRule ctx s = .ok decl t ∧
        progress'.declarations = progress.declarations.push decl ∧ v.pos = t.pos) ∨
      progress' = progress ∧ ∃ i, v.pos = declarationRestart ctx.text i := by
  cases hdecl : Grammar.full.declarationRule ctx s with
  | ok decl t =>
    obtain ⟨u, hnext, -, hpos⟩ := nextDeclaration_of_ok progress hdecl
    rw [hnext] at hrun
    cases hrun
    exact .inl ⟨decl, t, rfl, rfl, hpos⟩
  | error stop t =>
    cases stop with
    | failed =>
      rw [nextDeclaration_of_failed hdecl] at hrun
      cases hrun
      exact .inr ⟨rfl, _, rfl⟩
    | tooDeep =>
      rw [nextDeclaration_of_tooDeep hdecl ((Grammar.grows_full ctx).declaration_of_error hdecl)]
        at hrun
      cases hrun
      exact .inr ⟨rfl, _, rfl⟩
    | stalled =>
      rw [nextDeclaration_of_stalled hdecl] at hrun
      cases hrun

/-- The declarations that have been read are named, and no name goes on at the cursor. -/
structure NamedSoFar (ctx : Context) (progress : Progress) (s : State) : Prop where
  joined : progress.WellJoined ctx.text
  named : ∀ decl ∈ progress.declarations.toList, decl.IsNamed ctx.text
  wordBreak : WordBreak ctx.text s.pos

theorem nextDeclaration_named (h : NamedSoFar ctx progress s) :
    (nextDeclaration progress).Leaves Steady ctx s fun progress s' =>
      NamedSoFar ctx progress s' where
  of_ok {progress' v} hs hrun := by
    obtain ⟨hv, hjoined⟩ := (nextDeclaration_leaves h.joined).of_ok hs hrun
    obtain ⟨decl, t, hdecl, hpush, hpos⟩ | ⟨rfl, i, hpos⟩ := nextDeclaration_cases hrun
    · have hnames := Grammar.declarationRule_names (Grammar.places_full ctx) h.wordBreak
      obtain ⟨-, hnamed, hbreak⟩ := hnames.of_ok hs hdecl
      refine ⟨hv, hjoined, ?_, hpos ▸ hbreak⟩
      rw [hpush]
      exact forall_mem_toList_push h.named hnamed
    · exact ⟨hv, hjoined, h.named, hpos ▸ wordBreak_declarationRestart i⟩

theorem moduleDeclarations_named :
    moduleDeclarations.Leaves Anywhere ctx {} fun decls _ =>
      ∀ decl ∈ decls, decl.IsNamed ctx.text := by
  have hdeclarations : declarations.Leaves Steady ctx {} fun decls _ =>
      ∀ decl ∈ decls, decl.IsNamed ctx.text := by
    apply Leaves.bind (P := fun progress _ =>
      ∀ decl ∈ progress.declarations.toList, decl.IsNamed ctx.text)
    · apply Leaves.repeating (NamedSoFar ctx)
        ⟨by simp [Progress.WellJoined], by simp, .zero⟩
      intro progress s₁ h
      apply skip_leaves.under.bind
      intro _ s₂ htrivia
      have hnext : NamedSoFar ctx progress s₂ := ⟨h.joined, h.named, htrivia.wordBreak h.wordBreak⟩
      refine .look atEnd_looks (.look limitReached_looks (.ite (fun _ => .pure h.named) fun _ => ?_))
      exact (nextDeclaration_named hnext).bind fun progress _ h => .pure h
    · intro progress _ hnamed
      exact .pure hnamed
  exact (hdeclarations.forget (.initial ctx)).bind fun _ _ hdecls => .after fun _ _ => .pure hdecls

end Parser

/-- In any text the names of classes, type aliases, functions and properties, and of the members of
classes, are whole words, unless they stand between backticks. -/
theorem parse_names (text filename : String) (options : Options) :
    ∀ decl ∈ (parse text filename options).module.declarations,
      decl.IsNamed text.toList.toArray := by
  rw [parse, SourceText.parse]
  split
  next decls s hrun => exact (Parser.moduleDeclarations_named.of_ok trivial hrun).2
  next => simp

end PklSyntax
