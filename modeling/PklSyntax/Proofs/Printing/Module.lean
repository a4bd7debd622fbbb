import PklSyntax.Grammar.Module
import PklSyntax.Proofs.Printing.Expression

/-!
# Texts of one property

A text that is a single property with a plain name and no doc comment, annotations or modifiers is
read as that property and nothing else, if what belongs to its name is read to the end. With a plain
expression as its value this is how printed expressions are read again.

## Main statements

* `Near.declaration`: a property is recognised by its name.
* `parse_property`: what a text of one property is read as.
* `parse_print_expr`: printed expressions are read as what was printed.
-/

namespace PklSyntax

open PklSyntax.Parser

section Property

variable {g : Grammar} {ctx : Context} {s : State} {tokens rest : List String} {name : Identifier}

/-- The first token begins with the name. -/
structure OpensWith (name : Identifier) (tokens : List String) : Prop where
  word : firstWord tokens = name.name
  letter : ∃ first, (firstToken tokens).toList[0]? = some first ∧ isLetter first = true

theorem OpensWith.letterAt (h : OpensWith name tokens) (hat : At ctx.text s tokens) :
    isLetter (charAt ctx.text s.pos) = true := by
  obtain ⟨first, hfirst, hletter⟩ := h.letter
  rw [show charAt ctx.text s.pos = first from hat.charAt_token hfirst, hletter]

/-- No modifier stands where a plain name does. -/
theorem OpensWith.firstModifier? (h : OpensWith name tokens) (hname : name.IsPlain)
    (hat : At ctx.text s tokens) (ms : List Modifier) :
    (firstModifier? ms).Reads ctx s fun m? s' => m? = none ∧ s' = s := by
  induction ms with
  | nil => exact .pure ⟨rfl, rfl⟩
  | cons m ms ih =>
    refine .look (atWord_looks m.keyword) (.ite_false ?_ ih)
    have hchars : m.keyword.toList.all continuesName = true := by cases m <;> decide
    exact Grammar.ReadsPlain.not_keywordAt hname hat h.word _ hchars (by cases m <;> decide)

theorem OpensWith.not_sign (h : OpensWith name tokens) (hat : At ctx.text s tokens) {sign : String}
    {c : Char} (hsign : sign.toList[0]? = some c) (hc : isLetter c = false) :
    matchesAt ctx.text sign s.pos = false :=
  not_matchesAt isLetter (h.letterAt hat) hsign hc

/-- Nothing stands in front of a declaration that begins with a plain name. -/
theorem OpensWith.preamble (h : OpensWith name tokens) (hname : name.IsPlain)
    (hat : At ctx.text s tokens) :
    g.preamble.Reads ctx s fun _ s' => At ctx.text s' tokens := by
  refine .look position_looks ?_
  have htake : takeDoc ctx s = .ok none s := by
    show EStateM.Result.ok s.takeDoc.1 s.takeDoc.2 = _
    rw [State.takeDoc, if_neg (by simp [hat.quiet.docs])]
  refine .of_run htake ?_
  have hannotations : g.annotationRules.Reads ctx s fun _ s' => At ctx.text s' tokens := by
    refine Reads.bind (P := fun _ s' => At ctx.text s' tokens) (Loops.reads (.done ?_))
      fun _ _ hat => .pure hat
    refine (hat.near_at.atToken "@").bind ?_
    rintro found s₁ ⟨hfound, hat₁⟩
    exact .ite_false (hfound.trans (h.not_sign hat₁ rfl (by decide))) (.pure ⟨_, rfl, hat₁⟩)
  refine hannotations.bind fun annotations s₁ hat₁ => ?_
  have hmodifiers : modifiers.Reads ctx s₁ fun _ s' => At ctx.text s' tokens := by
    refine Loops.reads (.done (hat₁.near_at.skip.bind fun _ s₂ hat₂ =>
      (h.firstModifier? hname hat₂ _).bind ?_))
    rintro _ _ ⟨rfl, rfl⟩
    exact .pure ⟨_, rfl, hat₂⟩
  exact hmodifiers.bind fun _ s₂ hat₂ => hat₂.near_at.skip.bind fun _ s₃ hat₃ => .pure hat₃

/-- A declaration that begins with a plain name is a property. -/
theorem OpensWith.declaration {P : PropertyForm → Prop} {Q : State → Prop}
    (h : OpensWith name tokens) (hname : name.IsPlain) (hat : At ctx.text s tokens)
    (hform : ∀ s', At ctx.text s' tokens → (expectName "a property name" >>= g.propertyForm).Reads
      ctx s' fun form s'' => P form ∧ Q s'') :
    g.declarationRule.Reads ctx s fun decl s' =>
      (∃ property : PropertyDecl, decl = .property property ∧ P property.form) ∧ Q s' := by
  refine (h.preamble hname hat).bind fun before s₁ hat₁ => ?_
  have hno (word : String) (hchars : word.toList.all continuesName = true)
      (hreserved : isReserved word = true) : wordAt ctx.text word s₁.pos = false :=
    Grammar.ReadsPlain.not_keywordAt hname hat₁ h.word word hchars hreserved
  refine .look (atWord_looks "module") (.ite_false (hno _ (by decide) (by decide)) ?_)
  refine .look (atWord_looks "import") (.ite_false (hno _ (by decide) (by decide)) ?_)
  refine .look (atWord_looks "extends") (.ite_false (hno _ (by decide) (by decide)) ?_)
  refine .look (atWord_looks "amends") (.ite_false (hno _ (by decide) (by decide)) ?_)
  refine .look (atWord_looks "typealias") (.ite_false (hno _ (by decide) (by decide)) ?_)
  refine .look (atWord_looks "class") (.ite_false (hno _ (by decide) (by decide)) ?_)
  refine .look (atWord_looks "function") (.ite_false (hno _ (by decide) (by decide)) ?_)
  refine .look atIdentifier_looks (.ite_true (by simp [startsName, h.letterAt hat₁]) ?_)
  obtain ⟨form, s₂, hrun, hP, hQ⟩ := hform s₁ hat₁
  rw [bind_apply] at hrun
  cases hfound : expectName "a property name" ctx s₁ with
  | error stop s' =>
    rw [hfound] at hrun
    cases hrun
  | ok found s' =>
    rw [hfound] at hrun
    exact .bind (.of_run hfound (.of_run hrun (.pure ⟨rfl, rfl⟩)))
      (P := fun property s'' => property = _ ∧ s'' = s₂)
      (by rintro _ _ ⟨rfl, rfl⟩; exact .pure ⟨⟨_, rfl, hP⟩, hQ⟩)

/-- A round of the loop over declarations that reads a property. -/
theorem OpensWith.nextDeclaration {P : PropertyForm → Prop} (h : OpensWith name tokens)
    (hname : name.IsPlain) (hat : At ctx.text s tokens)
    (hform : ∀ s', At ctx.text s' tokens →
      (expectName "a property name" >>= Grammar.full.propertyForm).Reads ctx s'
        fun form s'' => P form ∧ Near ctx.text s'' rest) :
    (nextDeclaration {}).Reads ctx s fun progress s' =>
      (∃ property : PropertyDecl, progress.declarations = #[.property property] ∧
        P property.form) ∧ Near ctx.text s' rest := by
  refine .look position_looks (.look mark_looks ?_)
  refine Reads.bind (P := fun ended s' => ∃ property : PropertyDecl,
    ended = .ok (.property property) ∧ P property.form ∧ Near ctx.text s' rest) ?_ ?_
  · obtain ⟨decl, s', hrun, ⟨property, rfl, hP⟩, hnear⟩ := h.declaration hname hat hform
    exact ⟨.ok (.property property), s', by rw [outcome, hrun], property, rfl, hP, hnear⟩
  · rintro _ s' ⟨property, rfl, hP, hnear⟩
    exact .of_run (a := ()) rfl (.pure ⟨⟨property, rfl, hP⟩, hnear⟩)

/-- The declarations of a text of one property. -/
theorem OpensWith.moduleDeclarations {P : PropertyForm → Prop} (h : OpensWith name tokens)
    (hname : name.IsPlain) (hat : At ctx.text s tokens)
    (hform : ∀ s', At ctx.text s' tokens →
      (expectName "a property name" >>= Grammar.full.propertyForm).Reads ctx s'
        fun form s'' => P form ∧ Near ctx.text s'' []) :
    moduleDeclarations.Reads ctx s fun decls s' =>
      (∃ property : PropertyDecl, decls = [.property property] ∧ P property.form) ∧
        s'.Quiet := by
  have hlimit {s : State} (hquiet : s.Quiet) : ctx.options.limitReached s = false := by
    have hcount : s.errorCount = 0 := by rw [State.errorCount, hquiet.diagnostics]; rfl
    rw [Options.limitReached, hcount]
    by_cases hpos : 0 < ctx.options.maxErrors
    · simp [Int.not_le.2 hpos]
    · simp [hpos]
  refine Reads.bind (P := fun decls s' => (∃ property : PropertyDecl,
    decls = [.property property] ∧ P property.form) ∧ s'.Quiet) (Reads.bind (P := fun progress s' =>
      (∃ property : PropertyDecl, progress.declarations = #[.property property] ∧
        P property.form) ∧ s'.Quiet) (Loops.reads (.next ?_)) ?_) ?_
  · refine hat.near_at.skip.bind fun _ s₁ hat₁ => .look atEnd_looks (.look limitReached_looks ?_)
    have hlt : s₁.pos < ctx.text.size := lt_size_of_charAt_ne fun hnul => by
      have hletter := h.letterAt hat₁
      rw [hnul] at hletter
      exact absurd hletter (by decide)
    refine .ite_false (by simp [hlimit hat₁.quiet, Nat.not_le.2 hlt]) ?_
    refine (h.nextDeclaration hname hat₁ hform).bind fun progress s₂ ⟨hprogress, hnear⟩ =>
      .pure ⟨progress, rfl, ?_, hnear.pos_le, .done ?_⟩
    · have hread : Near ctx.text s (tokens ++ []) := by rw [List.append_nil]; exact hat.near_at
      refine hread.pos_lt _ ?_ hnear
      rintro rfl
      obtain ⟨first, hfirst, -⟩ := h.letter
      cases hfirst
    · refine hnear.skip.bind fun _ s₃ hend => .look atEnd_looks (.look limitReached_looks ?_)
      have hle : ctx.text.size ≤ s₃.pos := by
        rw [← Array.length_toList]
        exact List.drop_eq_nil_iff.1 hend.rest
      exact .ite_true (by simp [hle]) (.pure ⟨progress, rfl, hprogress, hend.quiet⟩)
  · rintro progress s' ⟨⟨property, hprogress, hP⟩, hquiet⟩
    exact .pure ⟨⟨property, by rw [hprogress], hP⟩, hquiet⟩
  · rintro decls s' ⟨hdecls, hquiet⟩
    have horphans : s'.orphans = [] := by simp [State.orphans, hquiet.docs]
    refine Reads.bind (P := fun _ s'' => s'' = s') (.look theOptions_looks ?_) ?_
    · cases ctx.options.docCommentWarnings
      · exact .ite_false rfl (.pure rfl)
      · refine .ite_true rfl ⟨(), s', ?_, rfl⟩
        show (s'.orphans.forM _ : Parser Unit) ctx s' = _
        rw [horphans]
        rfl
    · rintro _ _ rfl
      exact .pure ⟨hdecls, hquiet⟩

end Property

/-! ### Texts -/

theorem joined_oneLine {tokens : List String} (h : ∀ token ∈ tokens, IsToken token) :
    '\n' ∉ joined tokens := by
  have hspaced : ∀ tokens : List String, (∀ token ∈ tokens, IsToken token) →
      '\n' ∉ spaced tokens := by
    intro tokens h
    induction tokens with
    | nil => exact List.not_mem_nil
    | cons token tokens ih =>
      obtain ⟨htoken, htokens⟩ := List.forall_mem_cons.1 h
      simp [spaced, htoken.oneLine, ih htokens]
  cases tokens with
  | nil => exact List.not_mem_nil
  | cons token tokens =>
    obtain ⟨htoken, htokens⟩ := List.forall_mem_cons.1 h
    rw [joined, List.mem_append, not_or]
    exact ⟨htoken.oneLine, hspaced tokens htokens⟩

theorem toList_intercalate_blank (tokens : List String) :
    (" ".intercalate tokens).toList = joined tokens := by
  induction tokens with
  | nil => rfl
  | cons token tokens ih =>
    cases tokens with
    | nil => simp [joined, firstToken, spaced]
    | cons other tokens =>
      rw [String.intercalate_cons_cons, String.toList_append, String.toList_append, ih]
      simp [joined, firstToken, spaced]

/-- A text that is a property, read to its end, is read as this property without any problem. -/
theorem parse_property {text : String} {tokens : List String}
    {name : Identifier} {P : PropertyForm → Prop} (htext : text.toList = joined tokens)
    (htokens : ∀ token ∈ tokens, IsToken token) (h : OpensWith name tokens) (hname : name.IsPlain)
    (filename : String) (options : Options)
    (hform : ∀ s, At text.toList.toArray s tokens →
      (expectName "a property name" >>= Grammar.full.propertyForm).Reads
        ⟨text.toList.toArray, options⟩ s fun form s' => P form ∧ Near text.toList.toArray s' []) :
    (parse text filename options).diagnostics = [] ∧
      ∃ property : PropertyDecl,
        (parse text filename options).module.declarations = [.property property] ∧
          P property.form := by
  have hline : At (⟨text.toList.toArray, options⟩ : Context).text {} tokens :=
    ⟨⟨rfl, rfl, rfl, rfl, rfl⟩, htokens, by simpa [htext] using joined_oneLine htokens,
      Nat.zero_le _, htext⟩
  obtain ⟨decls, s', hrun, ⟨property, rfl, hP⟩, hquiet⟩ :=
    h.moduleDeclarations hname hline hform
  rw [parse_of_run hrun, hquiet.diagnostics]
  exact ⟨by rw [inTextOrder]; exact List.mergeSort_nil, property, rfl, hP⟩

/-! ### Printed expressions -/

/-- The name of the property whose value is written. -/
def exampleName : Identifier := ⟨"x", .plain, .ofNat 0 1⟩

theorem exampleName_isPlain : exampleName.IsPlain where
  kind_eq := rfl
  isName := ⟨'x', [], rfl, by decide, List.forall_mem_nil _⟩
  notReserved := by decide
  notFloat := by decide

/-- A plain expression behind a sign of assignment is the value of a property. -/
theorem Grammar.ReadsPlain.assigned {g : Grammar} {ctx : Context} {depth : Nat} {s : State}
    {e : Expr} (hg : g.ReadsPlain ctx depth) (hplain : e.Plain) (hdepth : e.nesting < depth)
    (name : Identifier) (h : Near ctx.text s ("=" :: e.tokens)) :
    (g.propertyForm name).Reads ctx s fun form s' =>
      (∃ value span, form = .init none value span ∧ value.Alike e) ∧ Near ctx.text s' [] := by
  refine (h.atToken "\x7b").bind fun found s₁ ⟨hfound, hat⟩ => .ite_false ?_ ?_
  · rw [hfound, hat.sign "\x7b" (by decide : _ ∧ _ = false)]
  refine (hat.near_at.not_accept ":" (by decide)
    (show ":".toList.isPrefixOf "=".toList = false by decide)).bind
      fun typed s₂ ⟨htyped, hat⟩ => .ite_false htyped (.of_run rfl ?_)
  refine Reads.bind (P := fun found s' => found = true ∧ At ctx.text s' ("=" :: e.tokens)) ?_ ?_
  · refine (hat.near_at.atToken "=").bind fun found s₃ ⟨hfound, hat⟩ => .ite_true ?_ ?_
    · rw [hfound, hat.sign "=" (by decide : _ ∧ _ = true)]
    · refine .look (startsWith_looks "==") (.pure ⟨?_, hat⟩)
      rw [hat.sign "==" (by decide : _ ∧ _ = false)]
      rfl
  rintro _ s₃ ⟨rfl, hat⟩
  have hread : Near ctx.text s₃ ("=" :: e.tokens) := hat.near_at
  refine .ite_true rfl ((hat.advance_token rfl).bind fun _ s₄ hbehind => ?_)
  have hbehind : Near ctx.text s₄ (e.tokens ++ []) := by
    rw [List.append_nil]
    exact hbehind.near_behind
  exact (hg.expr hplain hdepth hbehind (show "" ∈ exprEnds by decide)).bind
    fun value s₅ ⟨hvalue, hnear⟩ => .pure ⟨⟨value, _, rfl, hvalue⟩, hnear⟩

/-- An expression of names, decimal integers, parentheses, calls, selections, type tests and
operators, that respects how these bind, is read from what it is printed as: a text that gives it to
a property is read as that property, without any problem and with a value of the same shape. -/
theorem parse_print_expr {e : Expr} (hplain : e.Plain) (hdepth : e.nesting < nestingLimit)
    (filename : String) (options : Options) :
    (parse ("x = " ++ e.print) filename options).diagnostics = [] ∧
      ∃ (property : PropertyDecl) (value : Expr) (span : Span),
        (parse ("x = " ++ e.print) filename options).module.declarations = [.property property] ∧
          property.form = .init none value span ∧
          (Node.expr value).sameShape (.expr e) = true := by
  have htext : ("x = " ++ e.print).toList = joined ("x" :: "=" :: e.tokens) := by
    rw [String.toList_append, Expr.print, toList_intercalate_blank]
    cases htokens : e.tokens with
    | nil => exact absurd htokens hplain.tokens_ne_nil
    | cons token tokens => simp [joined, firstToken, spaced]
  have htokens : ∀ token ∈ "x" :: "=" :: e.tokens, IsToken token :=
    List.forall_mem_cons.2 ⟨by decide, List.forall_mem_cons.2 ⟨by decide, hplain.isToken⟩⟩
  have hopens : OpensWith exampleName ("x" :: "=" :: e.tokens) :=
    ⟨Grammar.ReadsPlain.firstWord_name exampleName_isPlain _, exampleName_isPlain.isName.first⟩
  have hgrammar := Grammar.readsPlain_nested ⟨("x = " ++ e.print).toList.toArray, options⟩
    nestingLimit
  have hname {s : State} (hat : At ("x = " ++ e.print).toList.toArray s ("x" :: "=" :: e.tokens)) :
      (expectName "a property name").Reads ⟨("x = " ++ e.print).toList.toArray, options⟩ s
        fun _ s' => Behind ("x = " ++ e.print).toList.toArray s' ("=" :: e.tokens) :=
    (Line.expectName hat (fun s' (hat : At _ s' _) => (hat.with_tokens
      fun t ht => hat.tokens t (List.mem_cons_of_mem _ ht) :
        Line _ s' ("=" :: e.tokens) (exampleName.name.toList ++ spaced ("=" :: e.tokens))))
      exampleName_isPlain (by decide : continuesName ' ' = false) _).mono
        fun _ _ hname => hname.2
  obtain ⟨hnone, property, hdecls, ⟨value, span, hform, halike⟩⟩ :=
    parse_property htext htokens hopens exampleName_isPlain filename options fun s hat =>
      (hname hat).bind fun name _ hbehind => hgrammar.assigned hplain hdepth name (.inr hbehind)
  exact ⟨hnone, property, value, span, hdecls, hform, halike.shape⟩

/-- A call behind a point, a prefix operator and operators that group either way. -/
def exampleExpr : Expr :=
  .binary (.index (.identifier exampleName)
      (.dot (.call ⟨exampleName, .identifier, [.number (.int ⟨.decimal, "1", ⟨0, 1⟩⟩)], ⟨0, 1⟩⟩)
        ⟨0, 1⟩) ⟨0, 1⟩) .subtract
    (.binary (.unary .negate (.identifier exampleName) ⟨0, 1⟩) .power
      (.paren (.typeTest (.identifier exampleName) (.single exampleName ⟨0, 1⟩) ⟨0, 1⟩) ⟨0, 1⟩)
      ⟨0, 1⟩) ⟨0, 1⟩

theorem exampleExpr_plain : exampleExpr.Plain := by
  have hname : (Expr.identifier exampleName).Plain := .identifier exampleName_isPlain
  have hone : (Expr.number (.int ⟨.decimal, "1", ⟨0, 1⟩⟩)).Plain :=
    .number ⟨rfl, by decide, by simp, by decide⟩
  have hargs := List.forall_mem_singleton.2 hone
  have hcall : (Expr.call ⟨exampleName, .identifier, _, ⟨0, 1⟩⟩).Plain :=
    .call exampleName_isPlain hargs
  refine .binary (.dot hname trivial hcall) (.binary (.unary hname rfl)
    (.paren (.typeTest hname trivial exampleName_isPlain)) nofun nofun (by decide)) nofun ?_
    (by decide)
  rintro other ⟨rfl⟩
  exact .inl (by decide)

example : exampleExpr.print = "x . x( 1 ) - - x ** ( x is x )" := by decide +kernel

theorem parse_print_expr_power :
    exampleExpr.Plain ∧ exampleExpr.nesting < nestingLimit ∧
      (parse ("x = " ++ exampleExpr.print) "" {}).diagnostics = [] ∧
      ∃ (property : PropertyDecl) (value : Expr) (span : Span),
        (parse ("x = " ++ exampleExpr.print) "" {}).module.declarations = [.property property] ∧
          property.form = .init none value span ∧
          (Node.expr value).sameShape (.expr exampleExpr) = true :=
  have hdepth : exampleExpr.nesting < nestingLimit := by decide
  ⟨exampleExpr_plain, hdepth, parse_print_expr exampleExpr_plain hdepth "" {}⟩

end PklSyntax
