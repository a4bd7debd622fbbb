import PklSyntax.Proofs.Printing.Words

/-!
# How plain expressions begin and end

Whether an expression in parentheses is a lambda is found out by reading parameters and going back.
What decides it is how the tokens begin: parameters begin with a name, and behind it stands what no
expression goes on with, unless the name is all that there is.

Behind an operand stands what ends it: an operator, or a sign that closes or separates what the
operand is part of.

## Main definitions

* `Begins`: how the tokens of an expression begin, with what follows them.
* `exprEnds`, `operandEnds`, `selectedEnds`: the tokens that end an expression and parts of it.

## Main statements

* `Expr.Plain.begins`, `Expr.Plain.opens`: how plain expressions begin.
* `Expr.Plain.isToken`: what plain expressions consist of.
-/

namespace PklSyntax

/-! ### How they begin -/

/-- The characters with which an operand begins that has no prefix operator. -/
def opensOperand (c : Char) : Bool := isLetter c || c.isDigit || c == '('

/-- The token goes on a parameter, or ends it. -/
def goesOnParam (token : String) : Bool :=
  [":", ",", ")"].any fun sign => sign.toList.isPrefixOf token.toList

/-- The tokens begin as those of an expression do that `rest` follows. -/
inductive Begins (rest : List String) : List String → Prop
  | sign {token : String} {tokens : List String} {first : Char}
      (hfirst : token.toList[0]? = some first)
      (hopens : first.isDigit = true ∨ first = '(' ∨ first = '-' ∨ first = '!') :
      Begins rest (token :: tokens)
  | name {name : Identifier} {tokens : List String} (hname : name.IsPlain)
      (hnext : goesOnParam (firstToken tokens) = false) : Begins rest (name.name :: tokens)
  | alone {name : Identifier} (hname : name.IsPlain) : Begins rest (name.name :: rest)
  | callee {name : Identifier} {tokens : List String} (hname : name.IsPlain) :
      Begins rest ((name.name ++ "(") :: tokens)

/-- More tokens that go on an expression change nothing but what follows a single name. -/
theorem Begins.of_append {token : String} {more rest tokens : List String}
    (h : Begins (token :: more ++ rest) tokens) (hnext : goesOnParam token = false) :
    Begins rest tokens := by
  cases h with
  | sign hfirst hopens => exact .sign hfirst hopens
  | name hname hnext => exact .name hname hnext
  | alone hname => exact .name hname hnext
  | callee hname => exact .callee hname

/-- Tokens behind an expression change nothing of how it begins, unless they go on a parameter. -/
theorem Begins.go_on {tokens more : List String} {token : String}
    (h : ∀ rest, Begins rest (tokens ++ rest)) (hnext : goesOnParam token = false)
    (rest : List String) : Begins rest (tokens ++ token :: more ++ rest) := by
  rw [List.append_assoc]
  exact (h _).of_append hnext

/-- No parenthesis is closed where an expression begins. -/
theorem Begins.not_close {rest tokens : List String} (h : Begins rest tokens) :
    ")".toList.isPrefixOf (firstToken tokens).toList = false := by
  have hletter {token : String} {first : Char} (hfirst : token.toList[0]? = some first)
      (hletter : isLetter first = true) : ")".toList.isPrefixOf token.toList = false :=
    not_isPrefixOf isLetter hfirst hletter rfl (by decide)
  cases h with
  | sign hfirst hopens =>
    refine not_isPrefixOf (· != ')') hfirst ?_ rfl rfl
    rw [bne_iff_ne]
    rintro rfl
    revert hopens
    decide
  | name hname =>
    obtain ⟨first, hfirst, hisLetter⟩ := hname.isName.first
    exact hletter hfirst hisLetter
  | alone hname =>
    obtain ⟨first, hfirst, hisLetter⟩ := hname.isName.first
    exact hletter hfirst hisLetter
  | callee hname =>
    obtain ⟨first, hfirst, hisLetter⟩ := hname.isName.first_append "("
    exact hletter hfirst hisLetter

theorem Expr.IsPostfix.isTested {e : Expr} (h : e.IsPostfix) : e.IsTested := by
  cases e <;> first | exact h | exact trivial

theorem Expr.Plain.begins {e : Expr} (h : e.Plain) (rest : List String) :
    Begins rest (e.tokens ++ rest) := by
  induction h generalizing rest with
  | @number literal hliteral =>
    obtain ⟨first, others, hchars, hfirst⟩ := hliteral.first
    exact .sign (by rw [hchars]; rfl) (.inl hfirst)
  | identifier hname => exact .alone hname
  | paren => exact .sign rfl (.inr (.inl rfl))
  | call hcallee => exact .callee hcallee
  | @unary op =>
    cases op with
    | negate => exact .sign rfl (.inr (.inr (.inl rfl)))
    | not => exact .sign rfl (.inr (.inr (.inr rfl)))
  | @binary _ _ op _ _ _ _ _ _ ih => exact Begins.go_on ih (by cases op <;> decide) rest
  | dot _ _ _ ih => exact Begins.go_on ih (by decide) rest
  | nullSafe _ _ _ ih => exact Begins.go_on ih (by decide) rest
  | bracket _ _ _ ih => exact Begins.go_on ih (by decide) rest
  | nonNull _ _ ih => exact Begins.go_on ih (by decide) rest
  | typeTest _ _ _ ih => exact Begins.go_on ih (by decide) rest
  | typeCast _ _ _ ih => exact Begins.go_on ih (by decide) rest

theorem Expr.Plain.tokens_ne_nil {e : Expr} (h : e.Plain) : e.tokens ≠ [] := by
  intro hnil
  have hbegins := h.begins []
  rw [hnil] at hbegins
  cases hbegins

/-- An expression without an operator in front of it begins with its first operand. -/
theorem Expr.Plain.opens {e : Expr} (h : e.Plain) (he : e.IsTested) :
    ∃ token tokens first, e.tokens = token :: tokens ∧ token.toList[0]? = some first ∧
      opensOperand first = true := by
  have happend {a b : List String} (ha : ∃ token tokens first, a = token :: tokens ∧
      token.toList[0]? = some first ∧ opensOperand first = true) :
      ∃ token tokens first, a ++ b = token :: tokens ∧ token.toList[0]? = some first ∧
        opensOperand first = true := by
    obtain ⟨token, tokens, first, rfl, hfirst⟩ := ha
    exact ⟨token, tokens ++ b, first, rfl, hfirst⟩
  induction h with
  | number hliteral =>
    obtain ⟨first, others, hchars, hfirst⟩ := hliteral.first
    exact ⟨_, [], first, rfl, by rw [hchars]; rfl, by simp [opensOperand, hfirst]⟩
  | identifier hname =>
    obtain ⟨first, others, hchars, hfirst, -⟩ := hname.isName
    exact ⟨_, [], first, rfl, by rw [hchars]; rfl, by simp [opensOperand, hfirst]⟩
  | paren => exact ⟨_, _, '(', rfl, rfl, by decide⟩
  | call hcallee =>
    obtain ⟨first, others, hchars, hfirst, -⟩ := hcallee.isName
    exact ⟨_, _, first, rfl, by rw [String.toList_append, hchars]; rfl,
      by simp [opensOperand, hfirst]⟩
  | dot _ hform _ ih => exact happend (ih hform.isTested)
  | nullSafe _ hform _ ih => exact happend (ih hform.isTested)
  | bracket _ hform _ ih => exact happend (ih hform.isTested)
  | nonNull _ hform ih => exact happend (ih hform.isTested)
  | typeTest _ htested _ ih => exact happend (ih htested)
  | typeCast _ htested _ ih => exact happend (ih htested)
  | unary => exact he.elim
  | binary => exact he.elim

/-! ### What they consist of -/

/-- What stands among arguments is part of one of them, or stands between them. -/
theorem mem_argumentTokens {token : String} {args : List Expr} (h : token ∈ argumentTokens args) :
    token = "," ∨ ∃ e ∈ args, token ∈ e.tokens := by
  induction args with
  | nil => cases h
  | cons e es ih =>
    have hfirst (h : token ∈ e.tokens) : token = "," ∨ ∃ e' ∈ e :: es, token ∈ e'.tokens :=
      .inr ⟨e, List.mem_cons_self, h⟩
    cases es with
    | nil => exact hfirst h
    | cons e' es =>
      rcases List.mem_append.1 h with h | h
      · exact hfirst h
      · rcases List.mem_cons.1 h with h | h
        · exact .inl h
        · exact (ih h).imp id fun ⟨other, hother, h⟩ =>
            ⟨other, List.mem_cons_of_mem e hother, h⟩

theorem IntLiteral.IsPlain.isToken {literal : IntLiteral} (h : literal.IsPlain) :
    IsToken literal.digits := by
  obtain ⟨first, rest, hchars, hfirst⟩ := h.first
  have hdigit (c : Char) (hc : c.isDigit = false) : first ≠ c := by
    rintro rfl
    simp [hc] at hfirst
  refine ⟨?_, fun hmem => ?_⟩
  · simp [hchars, beginsToken, isTriviaBlank, hdigit]
  · exact absurd (h.inInteger '\n' hmem) (by decide)

/-- Plain expressions consist of tokens. -/
theorem Expr.Plain.isToken {e : Expr} (h : e.Plain) : ∀ token ∈ e.tokens, IsToken token := by
  have happend {a b : List String} (ha : ∀ token ∈ a, IsToken token)
      (hb : ∀ token ∈ b, IsToken token) : ∀ token ∈ a ++ b, IsToken token := fun token ht =>
    (List.mem_append.1 ht).elim (ha token) (hb token)
  have hcons {a : String} {b : List String} (ha : IsToken a) (hb : ∀ token ∈ b, IsToken token) :
      ∀ token ∈ a :: b, IsToken token := List.forall_mem_cons.2 ⟨ha, hb⟩
  have hnil : ∀ token ∈ ([] : List String), IsToken token := nofun
  induction h with
  | number hliteral => exact hcons hliteral.isToken hnil
  | identifier hname => exact hcons hname.isName.isToken hnil
  | paren _ ih => exact hcons (by decide) (happend ih (hcons (by decide) hnil))
  | call hcallee _ ih =>
    refine hcons (hcallee.isName.isToken_append (by decide)) (happend (fun token ht => ?_)
      (hcons (by decide) hnil))
    rcases mem_argumentTokens ht with rfl | ⟨e, he, ht⟩
    · decide
    · exact ih e he token ht
  | @dot _ member _ _ _ _ _ ih ihmember =>
    exact happend ih (hcons (by decide) (member.tokens_toExpr ▸ ihmember))
  | @nullSafe _ member _ _ _ _ _ ih ihmember =>
    exact happend ih (hcons (by decide) (member.tokens_toExpr ▸ ihmember))
  | bracket _ _ _ ih ihindex =>
    exact happend ih (hcons (by decide) (happend ihindex (hcons (by decide) hnil)))
  | nonNull _ _ ih => exact happend ih (hcons (by decide) hnil)
  | typeTest _ _ hname ih =>
    exact happend ih (hcons (by decide) (hcons hname.isName.isToken hnil))
  | typeCast _ _ hname ih =>
    exact happend ih (hcons (by decide) (hcons hname.isName.isToken hnil))
  | @unary op _ _ _ _ ih => exact hcons (by cases op <;> decide) ih
  | @binary _ _ op _ _ _ _ _ _ ih ih' => exact happend ih (hcons (by cases op <;> decide) ih')

/-! ### What follows them -/

/-- The tokens that end an expression; no token stands for the end of the text. -/
def exprEnds : List String := ["", ")", ",", "]"]

/-- The tokens that end an operand. -/
def operandEnds : List String := exprEnds ++ BinaryOperator.all.map BinaryOperator.symbol

/-- The tokens that end a primary expression with its selections. -/
def selectedEnds : List String := operandEnds ++ ["is", "as"]

/-- No selection begins where a primary expression ends with its selections. -/
theorem not_postfix_of_selectedEnds : ∀ token ∈ selectedEnds,
    ∀ sign ∈ ["?.", ".", "[", "!!", "\x7b", "->"],
      sign.toList.isPrefixOf token.toList = false := by
  decide

/-- A type ends where a primary expression with its selections does. -/
theorem endsType_of_selectedEnds : ∀ token ∈ selectedEnds,
    "|".toList.isPrefixOf token.toList = true →
      ("||".toList.isPrefixOf token.toList || "|>".toList.isPrefixOf token.toList) = true := by
  decide

/-- No type test stands where an operand ends. -/
theorem not_test_of_operandEnds : ∀ token ∈ operandEnds,
    ∀ word ∈ ["is", "as"], String.ofList (token.toList.takeWhile continuesName) ≠ word := by
  decide

/-- No operator stands where an expression ends. -/
theorem not_operator_of_exprEnds : ∀ token ∈ exprEnds,
    ∀ op ∈ BinaryOperator.longestFirst, op.symbol.toList.isPrefixOf token.toList = false := by
  decide

end PklSyntax
