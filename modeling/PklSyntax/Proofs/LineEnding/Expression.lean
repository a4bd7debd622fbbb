import PklSyntax.Proofs.LineEnding.Type

/-!
# Other line endings: expressions

The line feeds that matter to expressions are those in front of `[` and `-`, which then begin
something new: between the end of a target and the cursor stands a line feed in both texts or in
neither. An amount and its unit are one literal when nothing stands between them, and nothing stands
between their places either.

## Main statements

* `readKindAt?_place`, `LineFeeds.firstOperator?_place`: what is seen at the cursor.
* `Grammar.Follows.lambda?`, `Grammar.Follows.primary`, `Grammar.Follows.postfixStep`.
* `Grammar.Follows.expressionRule`: expressions.
-/

namespace PklSyntax

open PklSyntax.Parser

namespace LineFeeds

variable {W : LineFeeds} {s : State}

/-- An operator is written within a line. -/
theorem inLine_symbol (op : BinaryOperator) : InLine op.symbol := by cases op <;> decide

theorem firstOperator?_place (i : Nat) :
    (BinaryOperator.longestFirst.find? fun op => matchesAt W.crlf op.symbol (W.place i)) =
      BinaryOperator.longestFirst.find? fun op => matchesAt W.text op.symbol i :=
  congrArg (BinaryOperator.longestFirst.find? ·)
    (funext fun op => matchesAt_place (inLine_symbol op) i)

end LineFeeds

namespace Grammar

variable {g : Grammar} {W : LineFeeds} {s : State}

/-! ### Calls and members -/

theorem Follows.call (hg : g.Follows W) (callee : Identifier) (kind : CallKind)
    (hopen : charAt W.text s.pos ≠ '\n') :
    W.FollowsAt (Call.placed W.placement) (g.call callee kind)
      (g.call (callee.placed W.placement) kind) s :=
  (LineFeeds.advance_sign_follows hopen).bind fun _ _ _ =>
    (LineFeeds.commaList_follows hg.expr (by decide)).bind fun args _ _ =>
      (LineFeeds.expect_follows ")" (by decide)).bind fun close _ _ =>
        .pure (by simp [Call.placed, Identifier.placed, Placement.span])

theorem Follows.member (hg : g.Follows W) :
    W.FollowsAt (Member.placed W.placement) g.member g.member s := by
  refine LineFeeds.skip_follows.bind fun _ s₁ _ => (LineFeeds.identifier_follows _).bind
    fun name s₂ _ => .peek (.ite (lineEnd_beq (by decide)) (fun hopen => ?_)
      fun _ => .pure (by simp [Member.placed]))
  exact (hg.call name _ (by rw [beq_iff_eq.1 hopen]; decide)).bind fun _ _ _ =>
    .pure (by simp [Member.placed])

/-! ### Parameters and lambdas -/

theorem Follows.param (hg : g.Follows W) :
    W.FollowsAt (Param.placed W.placement) g.param g.param s := by
  refine (LineFeeds.expectName_follows _).bind fun name s₁ _ => LineFeeds.announced_follows
    (LineFeeds.accept_follows ":" (by decide)) hg.type fun type? s₂ => .pure ?_
  cases type? <;> simp [Param.placed_mk, Identifier.placed, Placement.span]

theorem Follows.params (hg : g.Follows W) :
    W.FollowsAt (Prod.map (List.map (Param.placed W.placement)) W.placement.offset) g.params g.params
      s :=
  (LineFeeds.expect_follows "(" (by decide)).bind fun _ _ _ =>
    (LineFeeds.commaList_follows (fun _ => hg.param) (by decide)).bind
    fun _ _ _ => (LineFeeds.expect_follows ")" (by decide)).bind fun _ _ _ => .pure rfl

theorem Follows.lambda? (hg : g.Follows W) :
    W.FollowsAt (Option.map (Expr.placed W.placement)) g.lambda? g.lambda? s := by
  refine .mark (.position (.attempt hg.params hg.grows.params hg.grows_behind.params rfl rfl
    (.pure rfl) fun params s₁ h₁ => ?_))
  refine (LineFeeds.atToken_follows "->" (by decide)).bind fun arrow s₂ h₂ =>
    .ite rfl (fun harrow => ?_) fun _ => ?_
  · exact (LineFeeds.advance_found_follows h₂ harrow (by decide)).bind fun _ s₃ _ => (hg.expr s₃).bind
      fun body _ _ => .pure (by simp [Expr.placed, Placement.span])
  · exact .rewind ((hg.grows.params.of_ok h₁).1.toKept.trans ((atToken_grows _).of_ok h₂).1.toKept)
      (.pure rfl)

/-! ### Primary expressions -/

/-- The word `read` stands within a line. -/
theorem onLine_of_read {i : Nat} (h : sliceOf W.text i (skipWhile W.text continuesName i) = "read") :
    W.OnLine i (i + 4) := by
  have hlength := congrArg (fun word : String => word.toList.length) h
  simp only [sliceOf, String.toList_ofList, Array.length_toList, Array.size_extract] at hlength
  have hfour : "read".toList.length = 4 := by decide
  exact fun k hle hlt => LineFeeds.onLine_run (p := continuesName) (by decide) i k hle (by omega)

/-- So does the word with a sign behind it. -/
theorem onLine_of_readKindAt? {i : Nat} {kind : CallKind} (h : readKindAt? W.text i = some kind) :
    W.OnLine i (i + 5) := by
  rw [readKindAt?] at h
  split at h
  next hcond =>
    rw [Bool.and_eq_true, beq_iff_eq] at hcond
    refine (onLine_of_read hcond.1).trans (LineFeeds.onLine_succ fun hbreak => ?_)
    rw [hbreak, if_neg (by decide), if_neg (by decide)] at h
    cases h
  next => cases h

theorem readKindAt?_place (i : Nat) : readKindAt? W.crlf (W.place i) = readKindAt? W.text i := by
  rw [readKindAt?, readKindAt?, LineFeeds.skipWhile_place (by decide), LineFeeds.sliceOf_place,
    LineFeeds.crlfText_sliceOf (LineFeeds.onLine_run (by decide) i)]
  by_cases hword : sliceOf W.text i (skipWhile W.text continuesName i) = "read"
  · have hline := onLine_of_read hword
    rw [← LineFeeds.place_add hline, LineFeeds.charAt_place]
    by_cases hbreak : charAt W.text (i + 4) = '\n'
    · have hnext : W.place i + 5 = W.place (i + 4) + 1 := by rw [LineFeeds.place_add hline]
      rw [hnext, LineFeeds.charAt_place_add_one hbreak, hbreak]
      simp
    · have hnext : W.place i + 5 = W.place (i + 5) := by
        rw [LineFeeds.place_succ hbreak, LineFeeds.place_add hline]
      rw [hnext, LineFeeds.charAt_place, lineEnd_of_ne hbreak, lineEnd_beq (by decide)]
  · rw [beq_eq_false_iff_ne.2 hword, Bool.false_and, Bool.false_and, if_neg Bool.false_ne_true,
      if_neg Bool.false_ne_true]

theorem Follows.parenthesized (hg : g.Follows W) (hopen : matchesAt W.text "(" s.pos = true) :
    W.FollowsAt (Expr.placed W.placement) g.parenthesized g.parenthesized s := by
  refine .position (hg.lambda?.bind fun lambda? s₁ h₁ => ?_)
  cases lambda? with
  | some lambda => exact .pure rfl
  | none =>
    obtain rfl := (hg.grows.lambda?.of_ok h₁).2
    exact (LineFeeds.advance_word_follows "(" (by decide) hopen (Nat.le_refl 1)).bind fun _ s₂ _ =>
      (hg.expr s₂).bind fun inner _ _ => (LineFeeds.expect_follows ")" (by decide)).bind
        fun close _ _ =>
        .pure (by simp [Expr.placed, Placement.span])

theorem Follows.conditional (hg : g.Follows W) (hword : matchesAt W.text "if" s.pos = true) :
    W.FollowsAt (Expr.placed W.placement) g.conditional g.conditional s :=
  .position ((LineFeeds.advance_word_follows "if" (by decide) hword (Nat.le_refl _)).bind fun _ _ _ =>
    (LineFeeds.expect_follows "(" (by decide)).bind fun _ s₂ _ => (hg.expr s₂).bind fun _ _ _ =>
      (LineFeeds.expect_follows ")" (by decide)).bind fun _ s₄ _ => (hg.expr s₄).bind fun _ _ _ =>
        (LineFeeds.expectKeyword_follows "else" (by decide)).bind fun _ s₆ _ => (hg.expr s₆).bind
          fun _ _ _ =>
          .pure (by simp [Expr.placed, Placement.span]))

theorem Follows.letExpression (hg : g.Follows W) (hword : matchesAt W.text "let" s.pos = true) :
    W.FollowsAt (Expr.placed W.placement) g.letExpression g.letExpression s := by
  refine .position ((LineFeeds.advance_word_follows "let" (by decide) hword (Nat.le_refl _)).bind
    fun _ _ _ => (LineFeeds.expect_follows "(" (by decide)).bind fun _ _ _ =>
      (LineFeeds.expectName_follows _).bind
      fun name _ _ => LineFeeds.announced_follows (LineFeeds.accept_follows ":" (by decide)) hg.type
        fun type? _ => LineFeeds.atAssign_follows.bind fun assign s₅ h₅ =>
          .guard rfl (failExpected_givesUp _) (failExpected_givesUp _) fun hassign => ?_)
  exact (LineFeeds.advance_assign_follows h₅ (by simpa using hassign)).bind fun _ s₆ _ =>
    (hg.expr s₆).bind fun value _ _ => (LineFeeds.expect_follows ")" (by decide)).bind fun _ s₈ _ =>
      (hg.expr s₈).bind fun body _ _ => .pure (by simp [Expr.placed_letIn, Placement.span])

theorem Follows.newExpression (hg : g.Follows W) (hword : matchesAt W.text "new" s.pos = true) :
    W.FollowsAt (Expr.placed W.placement) g.newExpression g.newExpression s :=
  .position ((LineFeeds.advance_word_follows "new" (by decide) hword (Nat.le_refl _)).bind fun _ _ _ =>
    (LineFeeds.atToken_follows "\x7b" (by decide)).bind fun _ s₂ _ =>
      .join (f := Option.map (TypeExpr.placed W.placement)) rfl (fun _ => .pure rfl)
        (fun _ => (hg.type s₂).map fun _ => rfl) fun type? s₃ => (hg.body s₃).bind fun body _ _ =>
          .pure (by simp [Expr.placed_new, Placement.span]))

theorem Follows.nameExpression (hg : g.Follows W) :
    W.FollowsAt (Expr.placed W.placement) g.nameExpression g.nameExpression s := by
  refine (LineFeeds.identifier_follows _).bind fun name s₁ _ => .peek (.ite (lineEnd_beq (by decide))
    (fun hopen => .guard rfl (failWith_givesUp _ _) (failWith_givesUp _ _) fun _ => ?_)
    fun _ => .guard rfl (failWith_givesUp _ _) (failWith_givesUp _ _) fun _ =>
      .pure (by simp [Expr.placed]))
  exact (hg.call name _ (by rw [beq_iff_eq.1 hopen]; decide)).bind fun _ _ _ =>
    .pure (by simp [Expr.placed])

theorem Follows.identifierExpression (hg : g.Follows W) :
    W.FollowsAt (Expr.placed W.placement) g.identifierExpression g.identifierExpression s := by
  refine .look readKind?_looks readKind?_looks (readKindAt?_place s.pos) ?_
  cases hkind : readKindAt? W.text s.pos with
  | none => exact hg.nameExpression
  | some kind =>
    have hopen := charAt_of_readKindAt? hkind
    have hline := onLine_of_readKindAt? hkind
    have hcallee : W.place (s.pos + 4) = W.place s.pos + 4 :=
      LineFeeds.place_add fun k hle hlt => hline k hle (by omega)
    refine .position ((LineFeeds.advance_follows (LineFeeds.place_add hline)).bind fun _ s₁ h₁ => ?_)
    have hpos : s₁.pos = s.pos + 5 := by
      have hlt := lt_size_of_charAt_ne (by rw [hopen]; decide)
      rw [((advance_grows 5).of_ok h₁).2]
      exact Nat.min_eq_right (Nat.le_of_lt hlt)
    rw [← hcallee]
    exact (hg.call ⟨"read", .plain, .ofNat s.pos (s.pos + 4)⟩ kind
      (by rw [hpos, hopen]; decide)).bind fun _ _ _ => .pure (by simp [Expr.placed])

theorem constant?_follows :
    W.FollowsAt (Option.map (Expr.placed W.placement)) constant? constant? s := by
  have htake (token : String) (hword : wordAt W.text token s.pos = true) (n : Nat)
      (htoken : InLine token ∧ n ≤ token.length) :
      W.FollowsAt W.placement.span (takeToken n) (takeToken n) s :=
    LineFeeds.takeToken_follows token (matchesAt_of_wordAt hword) htoken.2 htoken.1
  refine .atWord (by decide) (.ite rfl (fun hword => ?_) fun _ => .atWord (by decide)
    (.ite rfl (fun hword => ?_) fun _ => .atWord (by decide) (.ite rfl (fun hword => ?_)
      fun _ => .pure rfl)))
  · exact (htake "true" hword 4 (by decide)).bind fun _ _ _ => .pure (by simp [Expr.placed])
  · exact (htake "false" hword 5 (by decide)).bind fun _ _ _ => .pure (by simp [Expr.placed])
  · exact (htake "null" hword 4 (by decide)).bind fun _ _ _ => .pure (by simp [Expr.placed])

theorem Follows.primary (hg : g.Follows W) :
    W.FollowsAt (Expr.placed W.placement) g.primary g.primary s := by
  refine LineFeeds.skip_follows.bind fun _ s₁ _ => .atWord (by decide) (.ite rfl
    (fun hword => hg.conditional (matchesAt_of_wordAt hword)) fun _ => .atWord (by decide) (.ite rfl
      (fun hword => hg.letExpression (matchesAt_of_wordAt hword)) fun _ => .startsWith (by decide)
        (.ite rfl (fun hopen => hg.parenthesized hopen) fun _ => .atWord (by decide) (.ite rfl
          (fun hword => hg.newExpression (matchesAt_of_wordAt hword)) fun _ => ?_))))
  refine .look atNumber_looks atNumber_looks (LineFeeds.numberAt_place s₁.pos) (.ite rfl
    (fun _ => .theOptions ((LineFeeds.number_follows _).bind fun _ _ _ => .pure (by simp [Expr.placed])))
    fun _ => ?_)
  refine .look atString_looks atString_looks (LineFeeds.stringAt_place s₁.pos) (.ite rfl
    (fun hstring => (hg.string hstring).bind fun _ _ _ => .pure (by simp [Expr.placed])) fun _ => ?_)
  refine constant?_follows.bind fun constant? s₂ _ => ?_
  cases constant? with
  | some constant => exact .pure rfl
  | none =>
    exact .atIdentifier fun _ => .ite rfl (fun _ => hg.identifierExpression)
      fun _ => LineFeeds.failExpected_follows _

/-! ### Selections and amendments -/

theorem Follows.moreBodies (hg : g.Follows W) (first : ObjectBody) :
    W.FollowsAt (Array.map (ObjectBody.placed W.placement)) (g.moreBodies first)
      (g.moreBodies (first.placed W.placement)) s := by
  refine .repeating (f := Array.map (ObjectBody.placed W.placement)) (fun bodies s₁ => ?_) (by simp)
  exact (LineFeeds.atToken_follows "\x7b" (by decide)).bind fun _ s₂ _ => .ite rfl
    (fun _ => (hg.body s₂).bind fun body _ _ => .pure (by simp [Round.map])) fun _ => .pure rfl

theorem Follows.amendments (hg : g.Follows W) (base : Expr) :
    W.FollowsAt (Expr.placed W.placement) (g.amendments base)
      (g.amendments (base.placed W.placement)) s := by
  refine (hg.body s).bind fun first _ _ => (hg.moreBodies first).bind fun bodies _ _ => .pure ?_
  rw [Array.getD_back?_map, Array.toList_map, ← List.map_drop, ← amend_placed]
  simp [Placement.span]

theorem Follows.dotAccess (hg : g.Follows W) (target : Expr)
    (hdot : charAt W.text s.pos ≠ '\n') :
    W.FollowsAt (Expr.placed W.placement) (g.dotAccess target)
      (g.dotAccess (target.placed W.placement)) s := by
  refine .position ((LineFeeds.advance_sign_follows hdot).bind fun _ _ _ => hg.member.bind
    fun member _ _ => .pure ?_)
  have hselect : select (target.placed W.placement) (.dot (member.placed W.placement)
      ⟨W.place s.pos, (member.placed W.placement).span.stop⟩) =
      (select target (.dot member ⟨s.pos, member.span.stop⟩)).placed W.placement := by
    rw [← select_placed]
    simp [Access.placed, Placement.span]
  have hstop : (target.placed W.placement).span.stop = ((W.place s.pos : Nat) : Int) ↔
      target.span.stop = (s.pos : Int) := by
    rw [Expr.span_placed, ← LineFeeds.offset_natCast]
    exact LineFeeds.offset_inj
  rw [hselect]
  by_cases hunit : target.span.stop = (s.pos : Int)
  · rw [if_pos hunit, if_pos (hstop.2 hunit), unitLiteral?_placed]
    cases unitLiteral? target member <;> rfl
  · rw [if_neg hunit, if_neg fun h => hunit (hstop.1 h)]
    rfl

theorem Follows.nullSafeAccess (hg : g.Follows W) (target : Expr)
    (hsign : matchesAt W.text "?." s.pos = true) :
    W.FollowsAt (Expr.placed W.placement) (g.nullSafeAccess target)
      (g.nullSafeAccess (target.placed W.placement)) s :=
  .position ((LineFeeds.advance_word_follows "?." (by decide) hsign (Nat.le_refl 2)).bind fun _ _ _ =>
    hg.member.bind fun member _ _ => .pure (by
      rw [← select_placed]
      simp [Access.placed, Placement.span]))

theorem Follows.bracketAccess (hg : g.Follows W) (target : Expr)
    (hsign : matchesAt W.text "[" s.pos = true) :
    W.FollowsAt (Expr.placed W.placement) (g.bracketAccess target)
      (g.bracketAccess (target.placed W.placement)) s :=
  .position ((LineFeeds.advance_word_follows "[" (by decide) hsign (Nat.le_refl 1)).bind fun _ s₁ _ =>
    (hg.expr s₁).bind fun index _ _ => (LineFeeds.expect_follows "]" (by decide)).bind
      fun close _ _ => .pure (by
      rw [← select_placed]
      simp [Access.placed, Placement.span]))

theorem Follows.postfixStep (hg : g.Follows W) (target : Expr) :
    W.FollowsAt (Round.map (Expr.placed W.placement) (Expr.placed W.placement)) (g.postfixStep target)
      (g.postfixStep (target.placed W.placement)) s := by
  have hnext {p q : Parser Expr} {s : State} (h : W.FollowsAt (Expr.placed W.placement) p q s) :
      W.FollowsAt (Round.map (Expr.placed W.placement) (Expr.placed W.placement))
        (p >>= fun e => pure (Round.next e : Round Expr Expr))
        (q >>= fun e => pure (Round.next e : Round Expr Expr)) s :=
    h.bind fun _ _ _ => .pure rfl
  refine LineFeeds.skip_follows.bind fun _ s₁ _ => .startsWith (by decide) (.ite rfl
    (fun hsign => hnext (hg.nullSafeAccess target hsign)) fun _ => .startsWith (by decide)
      (.startsWith (by decide) (.ite rfl (fun hdot => ?_) fun _ => .startsWith (by decide) ?_)))
  · rw [Bool.and_eq_true] at hdot
    exact hnext (hg.dotAccess target (LineFeeds.ne_lineFeed_of_matchesAt (by decide) hdot.1))
  · rw [Expr.span_placed]
    refine .newlineSince (.ite rfl (fun hsign => ?_) fun _ => .startsWith (by decide) (.ite rfl
      (fun hsign => ?_) fun _ => .startsWith (by decide) (.ite (by rw [isLiteral_placed]) (fun _ =>
        hnext (hg.amendments target)) fun _ => .pure rfl)))
    · rw [Bool.and_eq_true] at hsign
      exact hnext (hg.bracketAccess target hsign.1)
    · exact (LineFeeds.advance_word_follows "!!" (by decide) hsign (Nat.le_refl 2)).bind fun _ _ _ =>
        .position (.pure (by simp [Round.map, Expr.placed, Placement.span]))

/-! ### Type tests and prefix operators -/

theorem Follows.typeTestStep (hg : g.Follows W) (e : Expr) :
    W.FollowsAt (Round.map (Expr.placed W.placement) (Expr.placed W.placement)) (g.typeTestStep e)
      (g.typeTestStep (e.placed W.placement)) s :=
  LineFeeds.skip_follows.bind fun _ s₁ _ => .atWord (by decide) (.ite rfl
    (fun hword => (LineFeeds.advance_word_follows "is" (by decide) (matchesAt_of_wordAt hword)
      (Nat.le_refl 2)).bind fun _ s₂ _ => (hg.type s₂).bind fun _ _ _ =>
        .pure (by simp [Round.map, Expr.placed]))
    fun _ => .atWord (by decide) (.ite rfl
      (fun hword => (LineFeeds.advance_word_follows "as" (by decide) (matchesAt_of_wordAt hword)
        (Nat.le_refl 2)).bind fun _ s₂ _ => (hg.type s₂).bind fun _ _ _ =>
          .pure (by simp [Round.map, Expr.placed]))
      fun _ => .pure rfl))

/-- The places of prefix operators. -/
abbrev placedOperators (W : LineFeeds) : List (UnaryOperator × Nat) → List (UnaryOperator × Nat) :=
  List.map (Prod.map id W.place)

theorem prefixStep_follows (operators : List (UnaryOperator × Nat)) :
    W.FollowsAt (Round.map (placedOperators W) (placedOperators W)) (prefixStep operators)
      (prefixStep (placedOperators W operators)) s := by
  have hsign (sign : String) (hsign : InLine sign ∧ 1 ≤ sign.length) {s : State} {b : Bool}
      (h : (matchesAt W.text sign s.pos && b) = true) : W.FollowsAt id (advance 1) (advance 1) s :=
    LineFeeds.advance_word_follows sign hsign.1 (Bool.and_eq_true _ _ ▸ h).1 hsign.2
  exact LineFeeds.skip_follows.bind fun _ s₁ _ => .position (.startsWith (by decide) (.startsWith
    (by decide) (.ite rfl (fun h => (hsign "-" (by decide) h).bind fun _ _ _ => .pure rfl)
      fun _ => .startsWith (by decide) (.startsWith (by decide) (.ite rfl
        (fun h => (hsign "!" (by decide) h).bind fun _ _ _ => .pure rfl) fun _ => .pure rfl)))))

theorem applyPrefixes_placed (operators : List (UnaryOperator × Nat)) (operand : Expr) :
    applyPrefixes (placedOperators W operators) (operand.placed W.placement) =
      (applyPrefixes operators operand).placed W.placement := by
  induction operators generalizing operand with
  | nil => rfl
  | cons operator others ih =>
    obtain ⟨op, start⟩ := operator
    refine Eq.trans ?_ (ih (.unary op operand ⟨start, operand.span.stop⟩))
    simp [applyPrefixes, Expr.placed, Placement.span]

theorem Follows.operand (hg : g.Follows W) :
    W.FollowsAt (Expr.placed W.placement) g.operand g.operand s :=
  .bind (f := placedOperators W) (.repeating (fun operators _ => prefixStep_follows operators) rfl)
    fun operators _ _ => hg.primary.bind fun _ _ _ =>
      .bind (.repeating (fun e _ => hg.postfixStep e) rfl) fun _ _ _ =>
        .bind (.repeating (fun e _ => hg.typeTestStep e) rfl) fun tested _ _ =>
          .pure (applyPrefixes_placed operators tested)

/-! ### Infix operators -/

theorem infixOperator?_follows (left : Expr) :
    W.FollowsAt id (infixOperator? left) (infixOperator? (left.placed W.placement)) s := by
  refine LineFeeds.skip_follows.bind fun _ s₁ _ => .look (firstOperator?_looks _)
    (firstOperator?_looks _) (LineFeeds.firstOperator?_place s₁.pos) ?_
  cases BinaryOperator.longestFirst.find? fun op => matchesAt W.text op.symbol s₁.pos with
  | none => exact .pure rfl
  | some op =>
    cases op with
    | subtract =>
      rw [Expr.span_placed]
      exact .startsWith (by decide) (.newlineSince (.ite rfl (fun _ => .pure rfl) fun _ => .pure rfl))
    | _ => exact .pure rfl

/-- An infix operator is found where it stands. -/
theorem infixOperator?_symbol {ctx : Context} (left : Expr) :
    (infixOperator? left).Grows ctx s fun op? s' =>
      ∀ op, op? = some op → matchesAt ctx.text op.symbol s'.pos = true := by
  refine skip_grows.bind fun _ s₁ _ _ => .look (firstOperator?_looks _) ?_
  have hmatch : ∀ op, BinaryOperator.longestFirst.find?
      (fun op => matchesAt ctx.text op.symbol s₁.pos) = some op →
        matchesAt ctx.text op.symbol s₁.pos = true :=
    fun op h => List.find?_some (p := fun op : BinaryOperator =>
      matchesAt ctx.text op.symbol s₁.pos) h
  split
  · rename_i hsubtract
    refine .look (startsWith_looks _) (.look (newlineSince_looks _) (.ite (fun _ => .pure nofun)
      fun _ => .pure fun op hop => ?_))
    cases hop
    exact hmatch _ hsubtract
  · exact .pure hmatch

theorem Follows.infixSteps (hg : g.Follows W) (first : Expr) :
    W.FollowsAt (Array.map (InfixStep.placed W.placement)) (g.infixSteps first)
      (g.infixSteps (first.placed W.placement)) s := by
  refine .repeating (f := Array.map (InfixStep.placed W.placement)) (fun steps s₁ => ?_) (by simp)
  have hlast : ((steps.map (InfixStep.placed W.placement)).back?.map InfixStep.operand).getD
      (first.placed W.placement) = ((steps.back?.map InfixStep.operand).getD first).placed W.placement := by
    rw [Array.back?_map]
    cases steps.back? <;> rfl
  rw [hlast]
  refine (infixOperator?_follows _).bind fun op? s₂ h₂ => ?_
  cases op? with
  | none => exact .pure rfl
  | some op =>
    have hmatch := ((infixOperator?_symbol _).of_ok h₂).2 op rfl
    exact (LineFeeds.advance_word_follows op.symbol (LineFeeds.inLine_symbol op) hmatch
      (Nat.le_refl _)).bind fun _ _ _ => hg.operand.bind fun right _ _ =>
        .pure (by simp [Round.map, InfixStep.placed])

theorem Follows.expressionRule (hg : g.Follows W) :
    W.FollowsAt (Expr.placed W.placement) g.expressionRule g.expressionRule s := by
  refine hg.operand.bind fun first _ _ => (hg.infixSteps first).bind fun steps _ _ => ?_
  rw [Array.toList_map, groupInfix_placed]
  refine .iteProp (by rw [Expr.rightDepth_placed]) (fun _ => ?_) fun _ => .pure rfl
  exact .of_stop nofun

end Grammar

end PklSyntax
