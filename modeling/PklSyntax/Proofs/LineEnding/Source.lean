import PklSyntax.Proofs.LineEnding.Object
import PklSyntax.Proofs.Growth.Module

/-!
# Other line endings: sources

The source of an import or of a clause is the value of a string, and it is kept without the string. A
string between single quotes lies within a line, so that it has the same value with other line
endings; the value of a string between triple quotes may contain line feeds.

## Main definitions

* `Segment.IsUnbroken`: a segment without a line feed in its text.
* `Grammar.importHead`: an import up to its source.
* `Grammar.clauseSource?`: the string that is the source of a declaration.
* `sourceLiterals`: the sources of the declarations of a text.

## Main statements

* `Grammar.Follows.sourceString`: the source is placed, and it has the same value.
* `Grammar.Follows.importRule` and its likes.
* `Grammar.Grows.declarationRule_source`: the source of a declaration is the value of such a string.
-/

namespace PklSyntax

open PklSyntax.Parser

/-- There is no line feed in the text of the segment. -/
def Segment.IsUnbroken : Segment → Prop
  | .text value _ => '\n' ∉ value.toList
  | .escape .. | .interpolation .. => True

namespace LineFeeds

variable {W : LineFeeds} {s : State} {quotes : Quotes} {contentStart : Nat} {interpolate : Parser Expr}

/-- A string without line feeds in its text has the same value at its new place. -/
theorem constantValue_placed {literal : StringLiteral}
    (h : ∀ segment ∈ literal.segments, segment.IsUnbroken) :
    (literal.placed W.placement).constantValue = literal.constantValue := by
  cases literal with
  | mk multiline pounds segments contentSpan indent span =>
    simp only [StringLiteral.placed, StringLiteral.constantValue, List.map_map]
    refine congrArg String.join (List.map_congr_left fun segment hsegment => ?_)
    cases segment with
    | text text span => simpa [Segment.placed] using crlfText_eq_self (h _ hsegment)
    | escape => simp [Segment.placed]
    | interpolation => simp [Segment.placed]

/-! ### Strings between single quotes -/

variable (W) in
/-- All that has been read of the body of a string lies within a line. -/
structure BodyUnbroken (body : StringBody) (s : State) : Prop where
  segments : ∀ segment ∈ body.segments.toList, segment.IsUnbroken
  line : W.OnLine body.textStart s.pos

theorem flush_unbroken (body : StringBody) :
    (flush body).Grows W.front s fun body' s' => s' = s ∧
      (W.BodyUnbroken body s → ∀ segment ∈ body'.segments.toList, segment.IsUnbroken) := by
  refine .look position_looks ?_
  split
  · refine .look (sliceFrom_looks _) (.pure ⟨rfl, fun h => ?_⟩)
    refine forall_mem_toList_push h.segments ?_
    show '\n' ∉ (sliceOf W.text body.textStart s.pos).toList
    rw [sliceOf, String.toList_ofList]
    exact not_mem_extract h.line
  · exact .pure ⟨rfl, fun h => h.segments⟩

theorem escapeSequence_unbroken
    (hexpr : ∀ s, interpolate.Grows W.front s fun e _ => (Node.expr e).WellFormed) :
    (escapeSequence quotes interpolate).Grows W.front s fun segment _ => segment.IsUnbroken := by
  refine .look position_looks ((advance_grows _).bind fun _ s₁ _ _ => .look peek_looks ?_)
  split
  · exact (advance_grows 1).bind fun _ s₂ _ _ => .look (spanFrom_looks _) (.pure trivial)
  refine .ite (fun _ => ?_) fun _ => .ite (fun _ => ?_) fun _ => ?_
  · exact (advance_grows 1).bind fun _ s₂ _ _ => unicodeEscape_grows.bind fun value s₃ _ _ =>
      .look (spanFrom_looks _) (.pure trivial)
  · exact (advance_grows 1).bind fun _ s₂ _ _ => (interpolation_grows hexpr).bind fun e s₃ _ _ =>
      .look (spanFrom_looks _) (.pure trivial)
  · exact .look position_looks (.look (slice_looks _ _) (failWith_grows rfl))

theorem finishString_unbroken {segments : Array Segment} (contentStop : Nat) (indent : Option String)
    (h : quotes.multiline = false → ∀ segment ∈ segments.toList, segment.IsUnbroken) :
    (finishString quotes contentStart contentStop segments indent).Grows W.front s fun literal _ =>
      literal.multiline = false → ∀ segment ∈ literal.segments, segment.IsUnbroken :=
  .look position_looks (.pure h)

theorem stringStep_unbroken {body : StringBody}
    (hexpr : ∀ s, interpolate.Grows W.front s fun e _ => (Node.expr e).WellFormed)
    (hbody : quotes.multiline = false → W.BodyUnbroken body s) :
    (stringStep quotes contentStart interpolate body).Grows W.front s fun round s' =>
      round.Meets (fun body => quotes.multiline = false → W.BodyUnbroken body s') fun literal =>
        literal.multiline = false → ∀ segment ∈ literal.segments, segment.IsUnbroken := by
  refine .look (closingLine?_looks quotes) ?_
  split
  next probe hprobe =>
    have hmulti : quotes.multiline ≠ false := fun h => by
      rw [closingAt?_of_single h] at hprobe
      cases hprobe
    obtain ⟨hle, hquote, hfit⟩ := closingAt?_eq_some hprobe
    have hsize := (poundsFit.tokenEnd hquote hfit).1
    refine .look position_looks ((flush_unbroken body).bind fun body' s₁ _ hflush =>
      .look (slice_looks _ _) ?_)
    obtain ⟨rfl, -⟩ := hflush
    exact (moveTo_grows (by omega) fun _ => hsize).bind fun _ s₂ _ _ =>
      (finishString_unbroken _ _ fun h => absurd h hmulti).bind fun _ _ _ h => .pure h
  next =>
    refine .look position_looks (.look peek_looks (.look atEnd_looks
      (.ite (fun _ => failWith_grows rfl) fun hgoOn => .look (poundsAt_looks quotes _) ?_)))
    refine .ite (fun _ => ?_) fun _ => .look (poundsAt_looks quotes _) (.ite (fun _ => ?_) fun _ => ?_)
    · exact (flush_unbroken body).bind fun body' s₁ _ hflush => (advance_grows _).bind fun _ s₂ _ _ =>
        (finishString_unbroken _ _ fun h => hflush.2 (hbody h)).bind fun _ _ _ h => .pure h
    · exact (flush_unbroken body).bind fun body' s₁ _ hflush => (escapeSequence_unbroken hexpr).bind
        fun segment s₂ _ hsegment => .look position_looks (.pure fun h =>
          ⟨forall_mem_toList_push (hflush.2 (hbody h)) hsegment, onLine_self _⟩)
    · refine (advance_grows 1).bind fun _ s₁ _ h₁ => .pure fun hmulti => ?_
      rw [hmulti, Bool.not_false, Bool.true_and, Bool.or_eq_false_iff, beq_eq_false_iff_ne] at hgoOn
      exact ⟨(hbody hmulti).segments, (hbody hmulti).line.trans (onLine_advance hgoOn.2 h₁)⟩

/-- A string between single quotes lies within a line. -/
theorem stringLiteral_unbroken {styleWarnings : Bool}
    (hexpr : ∀ s, interpolate.Grows W.front s fun e _ => (Node.expr e).WellFormed)
    (hstring : stringAt W.text s.pos = true) :
    (stringLiteral interpolate styleWarnings).Grows W.front s fun literal _ =>
      literal.multiline = false → ∀ segment ∈ literal.segments, segment.IsUnbroken := by
  refine inMode_grows (.look position_looks (.look theText_looks ?_))
  have hle := le_skipWhile W.text (· == '#') s.pos
  have hquote := add_length_le_of_matchesAt hstring (by decide)
  refine (moveTo_grows (by simp only; omega) fun _ => by simp only; omega).bind
    fun _ s₁ _ _ => .look (startsWith_looks _) ((advance_grows _).bind fun _ s₂ _ _ =>
      .look (spanFrom_looks _) (.option (P := fun _ _ => True) () (fun _ => openingLine_grows)
        (fun _ => trivial) fun _ s₃ _ _ => .look position_looks ?_))
  exact .repeating (fun body s => _ → W.BodyUnbroken body s)
    (fun _ => ⟨by simp, onLine_self _⟩) fun body s₄ _ hbody => stringStep_unbroken hexpr hbody

end LineFeeds

namespace Grammar

variable {g : Grammar} {W : LineFeeds} {ctx : Context} {s s' : State}

/-! ### Sources -/

theorem Follows.sourceString (hg : g.Follows W) (keyword : String) :
    W.FollowsAt (StringLiteral.placed W.placement) (g.sourceString keyword) (g.sourceString keyword)
      s := by
  refine LineFeeds.skip_follows.bind fun _ s₁ _ => .look atString_looks atString_looks
    (LineFeeds.stringAt_place s₁.pos) (.guard rfl (failExpected_givesUp _) (failExpected_givesUp _)
      fun hstring => (hg.string (by simpa using hstring)).bind fun literal s₂ _ => ?_)
  exact .guard (by rw [StringLiteral.isConstant_placed]) (failWith_givesUp _ _) (failWith_givesUp _ _)
    fun _ => .pure rfl

theorem Follows.sourceString_unbroken (hg : g.Follows W) (keyword : String) :
    (g.sourceString keyword).Grows W.front s fun literal _ =>
      literal.multiline = false → ∀ segment ∈ literal.segments, segment.IsUnbroken := by
  refine skip_grows.bind fun _ s₁ _ _ => .look atString_looks (.guard (fun _ => failExpected_grows)
    fun hstring => .bind (.look theOptions_looks (LineFeeds.stringLiteral_unbroken hg.grows.expr'
      (by simpa using hstring))) fun literal s₂ _ hliteral => ?_)
  exact .guard (fun _ => failWith_grows rfl) fun _ => .pure hliteral

/-! ### Declarations with a source -/

/-- An import up to its source: whether it is one of many modules, and the string. -/
def importHead (g : Grammar) : Parser (Bool × StringLiteral) := do
  advance "import".length
  let globbed := (← peek) == '*'
  if globbed then advance 1
  let source ← g.sourceString (if globbed then "import*" else "import")
  return (globbed, source)

/-- An import is its head, and perhaps a name behind it. -/
theorem importRule_eq (g : Grammar) (before : Preamble) :
    g.importRule before = do
      let head ← g.importHead
      let localName ←
        if ← acceptKeyword "as" then some <$> expectName "an import alias" else pure none
      return {
        source := head.2.constantValue
        globbed := head.1
        localName
        doc := before.doc
        annotations := before.annotations
        span := ⟨before.start, (localName.map Identifier.span).elim head.2.span.stop Span.stop⟩ } := by
  rw [importRule, importHead]
  simp only [bind_assoc, pure_bind]
  refine congrArg _ (funext fun _ => congrArg _ (funext fun c => ?_))
  cases c == '*' <;> simp only [bind_assoc, pure_bind, if_true, if_false, Bool.false_eq_true]

theorem Follows.importHead (hg : g.Follows W) (hword : wordAt W.text "import" s.pos = true) :
    W.FollowsAt (Prod.map id (StringLiteral.placed W.placement)) g.importHead g.importHead s := by
  refine (LineFeeds.advance_word_follows "import" (by decide) (matchesAt_of_wordAt hword)
    (Nat.le_refl _)).bind fun _ s₁ _ => .peek ?_
  rw [lineEnd_beq (by decide)]
  exact .option rfl (fun hmark => LineFeeds.advance_seen_follows hmark (by decide)) fun s₂ =>
    (hg.sourceString _).bind fun _ _ _ => .pure rfl

theorem Follows.importHead_unbroken (hg : g.Follows W) :
    g.importHead.Grows W.front s fun head _ =>
      head.2.multiline = false → ∀ segment ∈ head.2.segments, segment.IsUnbroken :=
  (advance_grows _).bind fun _ _ _ _ => .look peek_looks (.option (P := fun _ _ => True) ()
    (fun _ => (advance_grows 1).mono fun _ _ _ _ => trivial) (fun _ => trivial)
    fun _ _ _ _ => (hg.sourceString_unbroken _).bind fun _ _ _ hsource => .pure hsource)

theorem Follows.importRule (hg : g.Follows W) (before : Preamble)
    (hword : wordAt W.text "import" s.pos = true)
    (hsource : ∀ head s', g.importHead W.front s = .ok head s' → head.2.multiline = false) :
    W.FollowsAt (ImportDecl.placed W.placement) (g.importRule before)
      (g.importRule (before.placed W.placement)) s := by
  rw [importRule_eq, importRule_eq]
  refine (hg.importHead hword).bind fun head s₁ h₁ => LineFeeds.announced_follows
    (LineFeeds.acceptKeyword_follows "as" (by decide)) (fun _ => LineFeeds.expectName_follows _)
    fun localName? s₂ => .pure ?_
  have hvalue := LineFeeds.constantValue_placed (W := W)
    ((hg.importHead_unbroken.of_ok h₁).2 (hsource head s₁ h₁))
  cases localName? <;>
    simp [ImportDecl.placed, Preamble.placed, Identifier.placed, Placement.span, hvalue]

/-- A clause up to the string that names another module. -/
def parentSource (g : Grammar) (keyword : String) : Parser StringLiteral := do
  advance keyword.length
  g.sourceString keyword

theorem Follows.parentSource (hg : g.Follows W) {keyword : String}
    (hword : wordAt W.text keyword s.pos = true) (hkeyword : InLine keyword) :
    W.FollowsAt (StringLiteral.placed W.placement) (g.parentSource keyword) (g.parentSource keyword) s :=
  (LineFeeds.advance_word_follows keyword hkeyword (matchesAt_of_wordAt hword) (Nat.le_refl _)).bind
    fun _ _ _ => hg.sourceString keyword

theorem Follows.parentSource_unbroken (hg : g.Follows W) (keyword : String) :
    (g.parentSource keyword).Grows W.front s fun literal _ =>
      literal.multiline = false → ∀ segment ∈ literal.segments, segment.IsUnbroken :=
  (advance_grows _).bind fun _ _ _ _ => hg.sourceString_unbroken keyword

theorem extendsRule_eq (g : Grammar) (before : Preamble) :
    g.extendsRule before = do
      let source ← g.parentSource "extends"
      return ⟨source.constantValue, before.doc, before.annotations,
        ⟨before.start, source.span.stop⟩⟩ := rfl

theorem amendsRule_eq (g : Grammar) (before : Preamble) :
    g.amendsRule before = do
      let source ← g.parentSource "amends"
      return ⟨source.constantValue, before.doc, before.annotations,
        ⟨before.start, source.span.stop⟩⟩ := rfl

theorem Follows.extendsRule (hg : g.Follows W) (before : Preamble)
    (hword : wordAt W.text "extends" s.pos = true)
    (hsource : ∀ literal s', g.parentSource "extends" W.front s = .ok literal s' →
      literal.multiline = false) :
    W.FollowsAt (ExtendsClause.placed W.placement) (g.extendsRule before)
      (g.extendsRule (before.placed W.placement)) s := by
  rw [extendsRule_eq, extendsRule_eq]
  refine (hg.parentSource hword (by decide)).bind fun literal s₁ h₁ => .pure ?_
  have hvalue := LineFeeds.constantValue_placed (W := W)
    (((hg.parentSource_unbroken "extends").of_ok h₁).2 (hsource literal s₁ h₁))
  simp [ExtendsClause.placed, Preamble.placed, Placement.span, hvalue]

theorem Follows.amendsRule (hg : g.Follows W) (before : Preamble)
    (hword : wordAt W.text "amends" s.pos = true)
    (hsource : ∀ literal s', g.parentSource "amends" W.front s = .ok literal s' →
      literal.multiline = false) :
    W.FollowsAt (AmendsClause.placed W.placement) (g.amendsRule before)
      (g.amendsRule (before.placed W.placement)) s := by
  rw [amendsRule_eq, amendsRule_eq]
  refine (hg.parentSource hword (by decide)).bind fun literal s₁ h₁ => .pure ?_
  have hvalue := LineFeeds.constantValue_placed (W := W)
    (((hg.parentSource_unbroken "amends").of_ok h₁).2 (hsource literal s₁ h₁))
  simp [AmendsClause.placed, Preamble.placed, Placement.span, hvalue]

/-! ### The sources of a text -/

/-- The string that is the source of the declaration at the cursor, if that is an import or a clause
with a source. -/
def clauseSource? (g : Grammar) : Parser (Option StringLiteral) := do
  let _ ← g.preamble
  if ← atWord "module" then return none
  else if ← atWord "import" then
    let head ← g.importHead
    return some head.2
  else if ← atWord "extends" then
    let source ← g.parentSource "extends"
    return some source
  else if ← atWord "amends" then
    let source ← g.parentSource "amends"
    return some source
  else return none

end Grammar

/-- The source of an import or of a clause. -/
def Declaration.source? : Declaration → Option String
  | importDecl decl => some decl.source
  | extendsClause clause => some clause.source
  | amendsClause clause => some clause.source
  | _ => none

namespace Parser

variable {α β : Type} {ctx : Context} {s s' : State}

/-- A result that is made of another one. -/
theorem exists_of_bind_pure {p : Parser α} {f : α → β} {b : β}
    (h : (p >>= fun a => pure (f a)) ctx s = .ok b s') : ∃ a, p ctx s = .ok a s' ∧ b = f a := by
  rw [bind_apply] at h
  cases hrun : p ctx s with
  | ok a t =>
    rw [hrun] at h
    cases h
    exact ⟨a, rfl, rfl⟩
  | error stop t =>
    rw [hrun] at h
    cases h

/-- A result behind the question for a keyword. -/
theorem ok_of_atWord {word : String} {p q : Parser α} {a : α}
    (h : (do if ← atWord word then p else q : Parser α) ctx s = .ok a s') :
    wordAt ctx.text word s.pos = true ∧ p ctx s = .ok a s' ∨
      wordAt ctx.text word s.pos = false ∧ q ctx s = .ok a s' := by
  rw [(atWord_looks word).bind_apply] at h
  cases hword : wordAt ctx.text word s.pos with
  | true => exact .inl ⟨rfl, by simpa [hword] using h⟩
  | false => exact .inr ⟨rfl, by simpa [hword] using h⟩

end Parser

namespace Grammar

variable {g : Grammar} {ctx : Context} {s s' : State}

/-- The declarations behind the last keyword of a clause have no source. -/
theorem source?_of_other {before : Preamble} {decl : Declaration}
    (h : (do
      if ← atWord "typealias" then return .typeAlias (← g.typeAliasRule before)
      else if ← atWord "class" then return .classDecl (← g.classRule before)
      else if ← atWord "function" then return .function (← g.functionRule before)
      else if ← atIdentifier then return .property (← g.propertyRule before)
      else failDeclaration : Parser Declaration) ctx s = .ok decl s') : decl.source? = none := by
  obtain ⟨-, h⟩ | ⟨-, h⟩ := ok_of_atWord h
  · obtain ⟨_, -, rfl⟩ := exists_of_bind_pure h
    rfl
  obtain ⟨-, h⟩ | ⟨-, h⟩ := ok_of_atWord h
  · obtain ⟨_, -, rfl⟩ := exists_of_bind_pure h
    rfl
  obtain ⟨-, h⟩ | ⟨-, h⟩ := ok_of_atWord h
  · obtain ⟨_, -, rfl⟩ := exists_of_bind_pure h
    rfl
  rw [atIdentifier_looks.bind_apply] at h
  split at h
  · obtain ⟨_, -, rfl⟩ := exists_of_bind_pure h
    rfl
  · exact ((failDeclaration_grows (Q := fun _ _ => False)).of_ok h).2.elim

theorem Grows.importHead (hg : g.Grows ctx) : g.importHead.Grows ctx s fun _ _ => True :=
  (advance_grows _).bind fun _ _ _ _ => .look peek_looks (.option (P := fun _ _ => True) ()
    (fun _ => (advance_grows 1).mono fun _ _ _ _ => trivial) (fun _ => trivial)
    fun _ _ _ _ => hg.sourceString.bind fun _ _ _ _ => .pure trivial)

/-- The source of an import is the value of the string in it. -/
theorem Grows.importRule_source (hg : g.Grows ctx) {before : Preamble} :
    (g.importRule before).Grows ctx s fun decl _ =>
      ∃ head t, g.importHead ctx s = .ok head t ∧ decl.source = head.2.constantValue := by
  rw [importRule_eq]
  exact hg.importHead.tracked.bind fun head s₁ _ hhead => announced_grows (P := fun _ => True)
    ((acceptKeyword_grows (by decide)).mono fun _ _ _ _ => trivial)
    (fun _ => expectName_grows.mono fun _ _ _ _ => trivial)
    fun _ _ _ _ => .pure ⟨head, s₁, hhead.1, rfl⟩

/-- The source of a declaration is the value of the string that is read in its place. The cases are
those of the keyword of the declaration. -/
theorem Grows.declarationRule_source (hg : g.Grows ctx) {decl : Declaration}
    (h : g.declarationRule ctx s = .ok decl s') :
    ∃ literal? t, g.clauseSource? ctx s = .ok literal? t ∧
      decl.source? = literal?.map StringLiteral.constantValue := by
  rw [Grammar.declarationRule, bind_apply] at h
  rw [Grammar.clauseSource?, bind_apply]
  cases hbefore : g.preamble ctx s with
  | error stop s₁ => rw [hbefore] at h; cases h
  | ok before s₁ =>
    rw [hbefore] at h
    dsimp only at h ⊢
    obtain ⟨hmodule, h⟩ | ⟨hmodule, h⟩ := ok_of_atWord h
    · obtain ⟨clause, -, rfl⟩ := exists_of_bind_pure h
      exact ⟨none, s₁, by rw [(atWord_looks _).bind_apply, hmodule]; rfl, rfl⟩
    rw [(atWord_looks _).bind_apply, hmodule, if_neg Bool.false_ne_true]
    obtain ⟨himport, h⟩ | ⟨himport, h⟩ := ok_of_atWord h
    · obtain ⟨decl, hrun, rfl⟩ := exists_of_bind_pure h
      obtain ⟨head, t, hhead, hsource⟩ := (hg.importRule_source.of_ok hrun).2
      refine ⟨some head.2, t, ?_, congrArg some hsource⟩
      rw [(atWord_looks _).bind_apply, himport, if_pos rfl, bind_apply, hhead]
      rfl
    rw [(atWord_looks _).bind_apply, himport, if_neg Bool.false_ne_true]
    obtain ⟨hextends, h⟩ | ⟨hextends, h⟩ := ok_of_atWord h
    · obtain ⟨clause, hrun, rfl⟩ := exists_of_bind_pure h
      obtain ⟨literal, hsource, rfl⟩ := exists_of_bind_pure (extendsRule_eq g before ▸ hrun)
      refine ⟨some literal, s', ?_, rfl⟩
      rw [(atWord_looks _).bind_apply, hextends, if_pos rfl, bind_apply, hsource]
      rfl
    rw [(atWord_looks _).bind_apply, hextends, if_neg Bool.false_ne_true]
    obtain ⟨hamends, h⟩ | ⟨hamends, h⟩ := ok_of_atWord h
    · obtain ⟨clause, hrun, rfl⟩ := exists_of_bind_pure h
      obtain ⟨literal, hsource, rfl⟩ := exists_of_bind_pure (amendsRule_eq g before ▸ hrun)
      refine ⟨some literal, s', ?_, rfl⟩
      rw [(atWord_looks _).bind_apply, hamends, if_pos rfl, bind_apply, hsource]
      rfl
    rw [(atWord_looks _).bind_apply, hamends, if_neg Bool.false_ne_true]
    exact ⟨none, s₁, rfl, source?_of_other h⟩

end Grammar

/-- The source of the declaration that begins in a state. -/
def Parser.sourceAt? (ctx : Context) (s : State) : Option StringLiteral :=
  match Grammar.full.clauseSource? ctx s with
  | .ok literal? _ => literal?
  | .error .. => none

/-- The sources of the declarations from a state on: those of the declarations with which the rounds
of the loop over the declarations begin. -/
def Parser.sourcesFrom (ctx : Context) : Nat → Progress → State → List StringLiteral
  | 0, _, _ => []
  | n + 1, progress, s =>
    match declarationRound progress ctx s with
    | .ok (.next progress') s' =>
      (sourceAt? ctx (s.skipTrivia ctx.text)).toList ++ sourcesFrom ctx n progress' s'
    | _ => []

namespace Parser

variable {ctx : Context} {n : Nat} {progress progress' : Progress} {s u v : State}

theorem sourcesFrom_of_next (hskip : s.skipTrivia ctx.text = u)
    (h : declarationRound progress ctx s = .ok (.next progress') v) :
    sourcesFrom ctx (n + 1) progress s =
      (sourceAt? ctx u).toList ++ sourcesFrom ctx n progress' v := by
  rw [sourcesFrom, h, hskip]

theorem sourcesFrom_of_done (h : declarationRound progress ctx s = .ok (.done progress') u) :
    sourcesFrom ctx (n + 1) progress s = [] := by
  rw [sourcesFrom, h]

end Parser

/-- The strings that are the sources of the imports and clauses of a text, in their order. -/
def sourceLiterals (text : String) (options : Options) : List StringLiteral :=
  sourcesFrom ⟨text.toList.toArray, options⟩ (text.toList.length + 1) {} {}

end PklSyntax
