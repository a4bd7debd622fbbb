import PklSyntax.Proofs.Growth.Module

/-!
# Growth: progress

A parse of any text comes to an end, with a result. The loops over the declarations of a module, the
members of a class and the members of an object move on in every round but the last, also when a
construct was given up in the round. Besides giving constructs up, and finding them nested too
deeply, nothing can go wrong on the way: the infix operators and their operands make up a tree, a
letter that announces a base has one, an escape gives a character, no character is read that is not
there, and all that is recorded has a place in the text.

## Main definitions

* `Parser.Advances`: a round of a loop that moves on.
* `Grammar.objectRound`: one round of the loop over the members of an object.
* `Parser.StaysInText`: a parser that leaves the cursor in the text.
* `declarationRestart?`: where declarations go on, when all characters are there that are read.

## Main statements

* `groupSymbols_steps`, `declarationRestart?_eq`: what may fail in general does not fail here.
* `parse_total`: the parse of any text has a result, and all of its loops move on.
-/

namespace PklSyntax

open PklSyntax.Parser

namespace Parser

variable {α σ : Type} {ctx : Context}

/-- Each round of the loop but the last moves the cursor on. -/
def Advances (step : σ → Parser (Round σ α)) (ctx : Context) : Prop :=
  ∀ value s value' s', step value ctx s = .ok (.next value') s' → s.pos < s'.pos

/-- The parser leaves the cursor in the text, whatever it comes to. -/
def StaysInText (p : Parser α) (ctx : Context) : Prop :=
  ∀ s, s.pos ≤ ctx.text.size →
    (∀ a s', p ctx s = .ok a s' → s'.pos ≤ ctx.text.size) ∧
      ∀ stop s', p ctx s = .error stop s' → s'.pos ≤ ctx.text.size

theorem StaysInText.of_grows {p : Parser α} {Q : State → α → State → Prop}
    (h : ∀ s, p.Grows ctx s (Q s)) : p.StaysInText ctx :=
  fun s hs => ⟨fun _ _ hrun => ((h s).of_ok hrun).1.pos_le_size hs,
    fun _ _ hrun => ((h s).kept hrun).pos_le_size hs⟩

end Parser

/-! ### Loops -/

namespace Grammar

variable {g : Grammar} {ctx : Context} {opening : Span}

/-- A round of the loop over the members of an object. -/
def objectRound (g : Grammar) (opening : Span) (members : Array ObjectMember) :
    Parser (Round (Array ObjectMember) (Array ObjectMember)) := do
  skip
  let c ← peek
  if ← atEnd then failWith .unclosedObjectBody opening
  else if c == '\x7d' then
    advance 1
    return .done members
  else if c == ';' then
    advance 1
    return .next members
  else return .next (members.push (← g.objectMember))

theorem objectMembers_eq (g : Grammar) (opening : Span) :
    g.objectMembers opening = repeating (g.objectRound opening) #[] := rfl

theorem Grows.objectRound_advances (hg : g.Grows ctx) : Advances (g.objectRound opening) ctx := by
  intro members s members' s' hrun
  have hround : (g.objectRound opening members).Grows ctx s fun round s' =>
      round.Meets (fun _ => Advanced ctx.text s s') fun _ => True := by
    refine skip_grows.bind fun _ s₁ h₁ _ => .look peek_looks (.look atEnd_looks
      (.ite (fun _ => failWith_grows rfl) fun _ => .ite (fun _ => ?_) fun _ =>
        .ite (fun hsemicolon => ?_) fun _ => ?_))
    · exact (advance_grows 1).bind fun _ s₂ _ _ => .pure trivial
    · exact (advance_sign_grows (beq_iff_eq.1 hsemicolon) (by decide)).bind
        fun _ s₂ _ h₂ => .pure (h₁.advanced h₂)
    · exact hg.objectMember.bind fun member s₂ _ hmember => .pure (h₁.advanced hmember.2)
  exact (hround.of_ok hrun).2.2

theorem Grows.classRound_advances (hg : g.Grows ctx) : Advances (g.classRound opening) ctx := by
  intro members s members' s' hrun
  obtain ⟨u, hskip⟩ : ∃ u, s.skipTrivia ctx.text = u := ⟨_, rfl⟩
  have hle : min s.pos ctx.text.size ≤ u.pos := hskip ▸ (Grown.skipTrivia s).pos_le
  rw [classRound_apply members hskip] at hrun
  split at hrun
  · cases hrun
  next hend =>
  split at hrun
  · cases hrun
  next hclose =>
  split at hrun
  next member t hmember =>
    cases hrun
    have hadvanced := (hg.classMember.of_ok hmember).2.2.2
    omega
  next t hmember =>
    have hkept := (hg.classMember.kept hmember).pos_le
    split at hrun
    · cases hrun
    · cases hrun
      have hrestart (depth) := (@memberRestart_spec ctx.text u.pos t.pos depth).1
      have hresume : u.pos < memberResume ctx.text u.pos t.pos := by
        rw [memberResume]
        rcases Nat.eq_or_lt_of_le (show u.pos ≤ t.pos by omega) with heq | hlt
        · rw [← heq]
          exact lt_memberRestart _ (by omega) hclose
        · exact Nat.lt_of_lt_of_le hlt (hrestart _)
      simp only
      omega
  · cases hrun

end Grammar

theorem Parser.declarationRound_advances (ctx : Context) : Advances declarationRound ctx := by
  intro progress s progress' s' hrun
  obtain ⟨u, hskip⟩ : ∃ u, s.skipTrivia ctx.text = u := ⟨_, rfl⟩
  have hle : min s.pos ctx.text.size ≤ u.pos := hskip ▸ (Grown.skipTrivia s).pos_le
  rw [declarationRound_apply progress hskip] at hrun
  split at hrun
  · cases hrun
  next hdone =>
  simp only [not_or, Nat.not_le] at hdone
  obtain ⟨result, t, hcall⟩ := exists_outcome Grammar.full.declarationRule ctx u
  cases hnext : nextDeclaration progress ctx u with
  | error stop v => rw [hnext] at hrun; cases hrun
  | ok progress₁ v =>
    rw [hnext] at hrun
    cases hrun
    have := (nextDeclaration_spec hdone.1 hcall hnext).lt
    omega

/-! ### What may fail in general -/

/-- Every operator is found by the way it is written. -/
theorem ofSymbol_symbol (op : BinaryOperator) : BinaryOperator.ofSymbol op.symbol = .ok op := by
  cases op <;> rfl

/-- The operands and the operators of an expression, as they are written, make up a tree. -/
theorem groupSymbols_steps (first : Expr) (steps : List InfixStep) :
    groupSymbols (first :: steps.map InfixStep.operand) (steps.map fun step => step.op.symbol) =
      .ok (groupInfix first steps) := by
  have hops : (steps.map fun step => step.op.symbol).mapM BinaryOperator.ofSymbol =
      .ok (steps.map InfixStep.op) := by
    induction steps with
    | nil => rfl
    | cons step steps ih =>
      rw [List.map_cons, List.mapM_cons, ih, ofSymbol_symbol]
      rfl
  have hsteps : List.zipWith InfixStep.mk (steps.map InfixStep.op) (steps.map InfixStep.operand) =
      steps := by
    simp [List.zipWith_map]
  rw [groupSymbols, if_neg (by simp), hops]
  show Except.ok (groupInfix first (List.zipWith _ _ _)) = _
  rw [hsteps]

/-- The letters with which bases are announced, in lower case. -/
def IntBase.prefixes : List (Char × IntBase) := [('x', hexadecimal), ('o', octal), ('b', binary)]

/-- The letters that announce a base are the entries of the list, in either case. -/
theorem ofLetter?_prefixes : ∀ c ∈ "xXoObB".toList, ∃ base, IntBase.ofLetter? c = some base ∧
    IntBase.prefixes.lookup c.toLower = some base := by
  intro c hc
  have hletters : "xXoObB".toList = ['x', 'X', 'o', 'O', 'b', 'B'] := by decide
  simp only [hletters, List.mem_cons, List.not_mem_nil, or_false] at hc
  rcases hc with rfl | rfl | rfl | rfl | rfl | rfl
  all_goals exact ⟨_, rfl, rfl⟩

/-- `declarationRestart`, when all characters are there that are read. -/
def declarationRestart? (text : Array Char) (i : Nat) : Option Nat :=
  if h : i < text.size then
    if 0 < i then
      if text[i - 1] == '\n' && !continuationChars.contains text[i] then some i
      else declarationRestart? text (i + 1)
    else none
  else some i
termination_by text.size - i

/-- Behind the first character all characters are there that are read. -/
theorem declarationRestart?_eq (text : Array Char) {i : Nat} (hi : 0 < i) :
    declarationRestart? text i = some (declarationRestart text i) := by
  fun_induction declarationRestart text i with
  | case1 i h hline =>
    rw [charAt_of_lt (by omega)] at hline
    rw [declarationRestart?, dif_pos h, if_pos hi, if_pos hline]
  | case2 i h hline ih =>
    rw [charAt_of_lt (by omega)] at hline
    rw [declarationRestart?, dif_pos h, if_pos hi, if_neg hline, ih (by omega)]
  | case3 i h => rw [declarationRestart?, dif_neg h]

/-- The cursor stays in the text, and no character is read that is not there: the letter that
announces a base, the character in front of the cursor when something stands there, and the characters
in front of the places where declarations may go on. -/
structure ReadsInText (ctx : Context) : Prop where
  expr : ∀ depth, StaysInText (Grammar.nested depth).expr ctx
  type : ∀ depth, StaysInText (Grammar.nested depth).type ctx
  body : ∀ depth, StaysInText (Grammar.nested depth).body ctx
  declaration : StaysInText Grammar.full.declarationRule ctx
  base : ∀ i base, IntBase.ofLetter? (charAt ctx.text i) = some base → i < ctx.text.size
  before : ∀ i, 0 < i → i ≤ ctx.text.size → i - 1 < ctx.text.size
  restart : ∀ start pos, start < ctx.text.size → start ≤ pos →
    declarationRestart? ctx.text (if pos ≤ start then min ctx.text.size (pos + 1) else pos) =
      some (declarationResume ctx.text start pos)

theorem readsInText (ctx : Context) : ReadsInText ctx where
  expr depth := .of_grows (Grammar.grows_nested ctx depth).expr
  type depth := .of_grows (Grammar.grows_nested ctx depth).type
  body depth := .of_grows (Grammar.grows_nested ctx depth).body
  declaration s hs :=
    ⟨fun _ _ hrun => ((Grammar.grows_full ctx).declaration_of_ok hrun).1.pos_le_size hs,
      fun _ _ hrun => ((Grammar.grows_full ctx).declaration_of_error hrun).pos_le_size hs⟩
  base i base h := by
    refine lt_size_of_charAt_ne fun hnul => ?_
    rw [hnul] at h
    cases h
  before i hpos hle := by omega
  restart start pos hlt hle := by
    rw [declarationResume]
    exact declarationRestart?_eq _ (by split <;> omega)

/-- The parse of any text has a result: it is a run over the declarations, of which each call ends
with a declaration, with a failure or because of the depth of nesting. In each loop over
declarations or members every round but the last moves on, also when it ends in going on behind a
failure. Nothing else can go wrong: operands and operators make up a tree, the letters that announce a
base have one, an escape gives a character, all that is read is there, and all that is on record has
a place. -/
theorem parse_total (text filename : String) (options : Options) :
    let ctx : Context := ⟨text.toList.toArray, options⟩
    (∃ calls progress s s', ModuleRun ctx {} {} calls progress s ∧
        moduleDeclarations ctx {} = .ok progress.declarations.toList s' ∧
        parse text filename options =
          { module := ⟨progress.declarations.toList, filename, .ofNat 0 ctx.text.size⟩
            diagnostics := inTextOrder s'.diagnostics } ∧
        (∀ call ∈ calls, call.result ≠ .error .stalled ∧ call.before.pos < ctx.text.size ∧
          call.after.pos ≤ ctx.text.size) ∧
        s'.Located) ∧
      (Advances declarationRound ctx ∧
        (∀ opening, Advances (Grammar.full.classRound opening) ctx) ∧
        ∀ depth opening, Advances ((Grammar.nested depth).objectRound opening) ctx) ∧
      (∀ first steps, groupSymbols (first :: steps.map InfixStep.operand)
        (steps.map fun step => step.op.symbol) = .ok (groupInfix first steps)) ∧
      (∀ c ∈ "xXoObB".toList, ∃ base, IntBase.ofLetter? c = some base ∧
        IntBase.prefixes.lookup c.toLower = some base) ∧
      (∀ quotes start s c s', unicodeEscape quotes start ctx s = .ok c s' →
        ∃ digits, CodePoint c digits) ∧
      ReadsInText ctx := by
  intro ctx
  obtain ⟨calls, progress, s, s', hrun, hgrown, hresult⟩ := moduleDeclarations_run ctx
  refine ⟨⟨calls, progress, s, s', hrun, hresult, parse_of_run hresult, fun call hcall => ?_, ?_⟩,
    ⟨declarationRound_advances ctx, fun opening => (Grammar.grows_full ctx).classRound_advances,
      fun depth opening => (Grammar.grows_nested ctx depth).objectRound_advances⟩,
    groupSymbols_steps, ofLetter?_prefixes, fun quotes start s c s' h => (unicodeEscape_grows.of_ok h).2,
    readsInText ctx⟩
  · obtain ⟨hlt, houtcome, progress₁, progress₂, v, hnext⟩ := hrun.of_mem hcall
    have hspec := nextDeclaration_spec hlt houtcome hnext
    refine ⟨fun hstalled => ?_, hlt, hspec.called.pos_le_size (Nat.le_of_lt hlt)⟩
    rw [hstalled] at houtcome
    rw [nextDeclaration_of_stalled (error_of_outcome houtcome)] at hnext
    cases hnext
  · exact (hrun.kept_state.trans hgrown.toKept).located (by simp [State.Located])

end PklSyntax
