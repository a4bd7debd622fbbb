import PklSyntax.Grammar.Type
import PklSyntax.Proofs.Growth.Basic
import PklSyntax.Proofs.Layout.Token

/-!
# Growth: steps, tokens and names

What the steps of parsers, the parsers of tokens and those of names come to, from any state. Each
moves on when it finds what it looks for; otherwise it has skipped trivia at most, or it records the
one fault for which the construct is given up.

What has been read respects the data model besides. The types of the tree admit more than the
grammar can give: a union of one member, a sum as the operand of a sign, a string with
interpolations as a type. A node *conforms* to the data model when it is none of these, and a tree
is *well-formed* when all of its nodes conform. What a node has to respect concerns only itself and
the roots of its children.

The levels of expressions are respected without parentheses, since parentheses are a node of their
own. For types they are not: a type in parentheses is the type itself, so that a union may stand
under a `?`, but never directly in another union.

## Main definitions

* `TypeExpr.Conforms`, `Expr.Conforms`, `ObjectMember.Conforms`: what the parts respect.
* `Node.Conforms`, `Node.WellFormed`.

## Main statements

* `Node.wellFormed_iff`: a tree is well-formed when its root conforms and its children are.
* `Parser.skip_grows`, `Parser.advance_grows`, `Parser.failWith_grows`, `Parser.inMode_grows`: steps.
* `Parser.accept?_grows`, `Parser.expect_grows`, `Parser.commaList_grows`: tokens and lists.
* `Parser.identifier?_grows`, `Parser.qualifiedName_grows`: names.
-/

namespace PklSyntax

/-! ### Conforming nodes -/

/-- The kinds of expressions that are built with operators. -/
def NodeKind.operations : List NodeKind := [.unaryExpr, .binaryExpr, .typeTestExpr, .typeCastExpr]

/-- The kinds of literals. -/
def NodeKind.literals : List NodeKind :=
  [.boolLit, .nullLit, .intLit, .floatLit, .durationLit, .dataSizeLit, .stringLit]

/-- A union has members, none of which is a union; no list is empty that has to have an entry; the
result of a function type bears no constraint; and the string of a type is constant. -/
def TypeExpr.Conforms : TypeExpr → Prop
  | named type => type.path ≠ []
  | generic _ args _ => args ≠ []
  | constrained base predicates _ => base.nodeKind ≠ .functionType ∧ predicates ≠ []
  | union members _ => 2 ≤ members.length ∧ ∀ m ∈ members, m.nodeKind ≠ .unionType
  | stringLiteral value _ => value.isConstant = true
  | nullable .. | default .. | function .. => True

/-- The left operand, if it is built with an infix operator, binds tighter than `op` does, or as
tight as `op` does and groups to the left. -/
def Expr.FitsLeft (op : BinaryOperator) : Expr → Prop
  | binary _ other _ _ =>
    op.level < other.level ∨ op.level = other.level ∧ other.groupsRight = false
  | _ => True

/-- The right operand, if it is built with an infix operator, binds tighter than `op` does, or as
tight as `op` does and is a power. -/
def Expr.FitsRight (op : BinaryOperator) : Expr → Prop
  | binary _ other _ _ => op.level < other.level ∨ op.level = other.level ∧ other = .power
  | _ => True

/-- What is built with an operator stands only where the operator around it allows it. -/
def Expr.Conforms : Expr → Prop
  | index target _ _ => target.nodeKind ∉ NodeKind.operations
  | nonNull operand _ => operand.nodeKind ∉ NodeKind.operations
  | typeTest e _ _ | typeCast e _ _ => e.nodeKind ∉ [NodeKind.unaryExpr, NodeKind.binaryExpr]
  | unary _ operand _ => operand.nodeKind ≠ .binaryExpr
  | binary left op right _ => left.FitsLeft op ∧ right.FitsRight op
  | amended base layers _ =>
    base.nodeKind ∉ NodeKind.literals ++ [.parenExpr, .amendedValue] ++ NodeKind.operations ∧
      layers ≠ []
  | _ => True

/-- Object bodies that stand as a value are not none. -/
def ObjectForm.Conforms (form : ObjectForm) : Prop := form.bodies ≠ []

/-- A loop has one name or two. -/
def ObjectMember.Conforms : ObjectMember → Prop
  | forGenerator bindings _ _ _ => bindings.length = 1 ∨ bindings.length = 2
  | _ => True

/-- The node respects the data model, as far as it and the roots of its children go. -/
def Node.Conforms : Node → Prop
  | expr e => e.Conforms
  | type t => t.Conforms
  | namedType t => t.path ≠ []
  | objectForm form => form.Conforms
  | propertyForm (.object form) => form.Conforms
  | objectMember member => member.Conforms
  | _ => True

/-! ### Well-formed trees -/

namespace Node

/-- All nodes of the tree conform. -/
def WellFormed (n : Node) : Prop := ∀ m ∈ n.walk, m.Conforms

theorem wellFormed_iff (n : Node) :
    n.WellFormed ↔ n.Conforms ∧ ∀ child ∈ n.children, child.WellFormed :=
  n.forall_mem_walk_iff

/-- A node without children is well-formed when it conforms. -/
theorem WellFormed.leaf {n : Node} (hn : n.Conforms) (hchildren : n.children = []) :
    n.WellFormed :=
  (wellFormed_iff n).2 ⟨hn, by simp [hchildren]⟩

/-- A node with the same fields as a well-formed one is well-formed when it conforms. -/
theorem WellFormed.recast {n m : Node} (h : n.WellFormed) (hm : m.Conforms)
    (hfields : m.fields = n.fields) : m.WellFormed := by
  rw [wellFormed_iff] at h ⊢
  rw [children, hfields]
  exact ⟨hm, h.2⟩

theorem WellFormed.conforms {n : Node} (h : n.WellFormed) : n.Conforms := ((wellFormed_iff n).1 h).1

@[simp] theorem wellFormed_identifier (name : Identifier) : (identifier name).WellFormed :=
  .leaf trivial rfl

@[simp] theorem wellFormed_docComment (doc : DocComment) : (docComment doc).WellFormed :=
  .leaf trivial rfl

@[simp] theorem wellFormed_number (literal : NumberLiteral) : (number literal).WellFormed :=
  .leaf trivial (by cases literal <;> rfl)

@[simp] theorem wellFormed_namedType (type : NamedType) :
    (namedType type).WellFormed ↔ type.path ≠ [] := by
  rw [wellFormed_iff]
  simp [Conforms, children, fields, NamedType.fields]

end Node

/-- The type is well-formed whatever its span is. -/
theorem TypeExpr.wellFormed_withSpan {type : TypeExpr} (h : (Node.type type).WellFormed)
    (span : Span) : (Node.type (type.withSpan span)).WellFormed := by
  have hconforms := h.conforms
  cases type <;> exact h.recast hconforms rfl

/-- The members that a type brings to a union are no unions, and there is at least one. -/
theorem Grammar.unionMembers_spec {type : TypeExpr} (h : (Node.type type).WellFormed) :
    1 ≤ (unionMembers type).length ∧
      ∀ m ∈ unionMembers type, m.nodeKind ≠ .unionType ∧ (Node.type m).WellFormed := by
  cases type with
  | union members span =>
    obtain ⟨⟨hlength, hkinds⟩, hmembers⟩ := (Node.wellFormed_iff _).1 h
    simp only [Node.children, Node.fields, TypeExpr.fields, List.flatMap_cons, List.flatMap_nil,
      FieldValue.children_ofList, List.append_nil, List.forall_mem_map] at hmembers
    exact ⟨Nat.le_of_succ_le hlength, fun m hm => ⟨hkinds m hm, hmembers m hm⟩⟩
  | _ => simpa [unionMembers, TypeExpr.nodeKind] using h

variable {text : Array Char} {s s' : State}

/-- No trivia stand at the cursor, or none would be skipped there. -/
def Settled (text : Array Char) (s : State) : Prop := (s.skipTrivia text).pos = s.pos

/-- Behind skipped trivia nothing more is skipped. -/
theorem settled_skipTrivia (s : State) : Settled text (s.skipTrivia text) := by
  have hmode : (s.skipTrivia text).mode = s.mode := (Grown.skipTrivia s).mode_eq
  rw [Settled]
  cases h : s.mode with
  | tight => rw [State.skipTrivia, hmode, h]
  | loose =>
    have hpos : (s.skipTrivia text).pos = skipEnd text s.pos := by
      rw [State.skipTrivia, h]
      rfl
    have hnext : ((s.skipTrivia text).skipTrivia text).pos =
        skipEnd text (s.skipTrivia text).pos := by
      rw [State.skipTrivia, hmode, h]
      rfl
    rw [hnext, hpos, skipEnd_skipEnd]

namespace Parser

variable {α β : Type} {ctx : Context}

/-! ### Steps -/

theorem skip_grows : skip.Grows ctx s fun _ s' => s' = s.skipTrivia ctx.text :=
  ⟨.skipTrivia s, rfl⟩

theorem moveTo_grows {pos : Nat} (hle : min s.pos ctx.text.size ≤ pos)
    (hsize : s.pos ≤ ctx.text.size → pos ≤ ctx.text.size) :
    (moveTo pos).Grows ctx s fun _ s' => s' = { s with pos } :=
  ⟨.moveTo hle hsize, rfl⟩

theorem advance_grows (n : Nat) :
    (advance n).Grows ctx s fun _ s' => s' = { s with pos := min ctx.text.size (s.pos + n) } := by
  refine .look theText_looks (.look position_looks ?_)
  exact moveTo_grows (by omega) fun _ => Nat.min_le_left _ _

/-- Moving over what stands in the text. -/
theorem advance_matched_grows (token : String) (hmatch : matchesAt ctx.text token s.pos = true)
    (hne : token ≠ "") :
    (advance token.length).Grows ctx s fun _ s' => Advanced ctx.text s s' := by
  have hlen : 0 < token.length := Nat.pos_of_ne_zero fun h => hne (String.length_eq_zero_iff.1 h)
  have hsize := add_length_le_of_matchesAt hmatch hne
  refine (advance_grows _).mono fun _ s' _ h => ?_
  rw [h]
  exact ⟨by omega, by simp only; omega⟩

/-- Moving over a character that stands in the text. -/
theorem advance_sign_grows {c : Char} (hsign : charAt ctx.text s.pos = c) (hc : c ≠ '\x00') :
    (advance 1).Grows ctx s fun _ s' => Advanced ctx.text s s' := by
  have hlt := lt_size_of_charAt_ne (by rw [hsign]; exact hc)
  refine (advance_grows _).mono fun _ s' _ h => ?_
  rw [h]
  exact ⟨hlt, by simp only; omega⟩

theorem report_grows {problem : Problem} {span : Span}
    (herror : (problem.diagnostic span).isError = false)
    (hcomment : (problem.diagnostic span).isUnclosedComment = false) :
    (report problem span).Grows ctx s fun _ s' =>
      s' = { s with diagnostics := s.diagnostics.push (problem.diagnostic span) } :=
  ⟨.push herror hcomment (by simp), rfl⟩

/-- A construct that is given up has no result. -/
theorem failWith_grows {Q : α → State → Prop} {problem : Problem} {span : Span}
    (hfault : (problem.diagnostic span).isFault = true) :
    (failWith problem span : Parser α).Grows ctx s Q :=
  ⟨s, problem.diagnostic span, .refl s, hfault, by simp, rfl⟩

theorem failWith_bind_grows {f : α → Parser β} {Q : β → State → Prop} {problem : Problem}
    {span : Span} (hfault : (problem.diagnostic span).isFault = true) :
    (failWith problem span >>= f).Grows ctx s Q :=
  .bind (P := fun _ _ => False) (failWith_grows hfault) fun _ _ _ h => h.elim

theorem throw_tooDeep_grows {Q : α → State → Prop} : (throw .tooDeep : Parser α).Grows ctx s Q :=
  Grown.refl s

theorem takeDoc_grows : takeDoc.Grows ctx s fun _ _ => True := by
  obtain ⟨attached, heq, -⟩ := s.takeDoc_eq
  show GrowsFrom (modifyGet State.takeDoc) ctx s s _
  rw [GrowsFrom]
  show Grown ctx.text s s.takeDoc.2 ∧ True
  rw [heq]
  exact ⟨.attach, trivial⟩

theorem inMode_grows {p : Parser α} {mode : Mode} {Q : α → State → Prop}
    (hp : p.Grows ctx { s with mode } fun a s' => Q a { s' with mode := s.mode }) :
    (inMode mode p).Grows ctx s Q := by
  rw [Grows, GrowsFrom] at hp ⊢
  rw [inMode]
  cases hrun : p ctx { s with mode } with
  | ok a s' =>
    rw [hrun] at hp
    exact ⟨hp.1.of_mode, hp.2⟩
  | error stop s' =>
    rw [hrun] at hp
    cases stop with
    | failed => exact GivenUp.of_mode hp
    | tooDeep => exact Grown.of_mode hp
    | stalled => exact Grown.of_mode hp

/-! ### Errors at the cursor -/

theorem failExpected_grows {what : String} {Q : α → State → Prop} :
    (failExpected what : Parser α).Grows ctx s Q := by
  refine .look peek_looks (.look atEnd_looks (.ite (fun _ => ?_) fun _ => ?_))
  · exact .idle here_idle fun _ => failWith_grows rfl
  · exact .idle describeCurrent_idle fun _ => .idle here_idle fun _ => failWith_grows rfl

/-! ### Tokens -/

theorem atToken_grows (token : String) :
    (atToken token).Grows ctx s fun found s' =>
      s' = s.skipTrivia ctx.text ∧ found = matchesAt ctx.text token s'.pos :=
  skip_grows.bind fun _ _ _ h => .value (startsWith_looks token) ⟨h, rfl⟩

theorem atKeyword_grows (word : String) :
    (atKeyword word).Grows ctx s fun found s' =>
      s' = s.skipTrivia ctx.text ∧ found = wordAt ctx.text word s'.pos :=
  skip_grows.bind fun _ _ _ h => .value (atWord_looks word) ⟨h, rfl⟩

theorem atAssign_grows :
    atAssign.Grows ctx s fun _ s' => s' = s.skipTrivia ctx.text := by
  refine (atToken_grows "=").bind fun found s₁ _ h => .ite (fun _ => ?_) fun _ => .pure h.1
  exact .look (startsWith_looks "==") (.pure h.1)

theorem takeToken_grows (token : String) (hmatch : matchesAt ctx.text token s.pos = true)
    (hne : token ≠ "") :
    (takeToken token.length).Grows ctx s fun _ s' => Advanced ctx.text s s' :=
  .look position_looks ((advance_matched_grows _ hmatch hne).bind fun _ _ _ h =>
    .value (spanFrom_looks _) h)

theorem accept?_grows {token : String} (hne : token ≠ "") :
    (accept? token).Grows ctx s fun span? s' =>
      match span? with
      | some _ => Advanced ctx.text s s'
      | none => s' = s.skipTrivia ctx.text := by
  refine (atToken_grows token).bind fun found s₁ h₁ hfound => ?_
  obtain ⟨hskip, rfl⟩ := hfound
  refine .ite (fun hmatch => ?_) fun _ => .pure hskip
  exact (takeToken_grows _ hmatch hne).bind fun span s₂ _ h₂ => .pure (h₁.advanced h₂)

theorem accept_grows {token : String} (hne : token ≠ "") :
    (accept token).Grows ctx s fun found s' =>
      if found = true then Advanced ctx.text s s' else s' = s.skipTrivia ctx.text := by
  refine (accept?_grows hne).bind fun span? s' _ h => .pure ?_
  cases span? with
  | some span => exact h
  | none => exact h

theorem expect_grows {token : String} (hne : token ≠ "") :
    (expect token).Grows ctx s fun _ s' => Advanced ctx.text s s' := by
  refine (accept?_grows hne).bind fun span? s' _ h => ?_
  cases span? with
  | some span => exact .pure h
  | none => exact failExpected_grows

theorem acceptKeyword_grows {word : String} (hne : word ≠ "") :
    (acceptKeyword word).Grows ctx s fun found s' =>
      if found = true then Advanced ctx.text s s' else s' = s.skipTrivia ctx.text := by
  refine (atKeyword_grows word).bind fun found s₁ h₁ hfound => ?_
  obtain ⟨hskip, rfl⟩ := hfound
  refine .ite (fun hword => ?_) fun _ => .pure hskip
  exact (advance_matched_grows _ (matchesAt_of_wordAt hword) hne).bind fun _ s₂ _ h₂ =>
    .pure (h₁.advanced h₂)

theorem expectKeyword_grows {word : String} (hne : word ≠ "") :
    (expectKeyword word).Grows ctx s fun _ s' => Advanced ctx.text s s' := by
  refine (acceptKeyword_grows hne).bind fun found s' _ h => ?_
  cases found with
  | true => exact .pure h
  | false => exact failExpected_grows

/-- What holds of each item holds of the items of a list. -/
theorem commaList_grows {close : String} {item : Parser α} {P : α → Prop}
    (hitem : ∀ s, item.Grows ctx s fun a _ => P a) :
    (commaList close item).Grows ctx s fun items _ => ∀ a ∈ items, P a := by
  refine .bind (P := fun items _ => ∀ a ∈ items.toList, P a) ?_ fun items _ _ h => .pure h
  refine .repeating (fun items _ => ∀ a ∈ items.toList, P a) (by simp) fun items s₁ _ hitems => ?_
  refine (atToken_grows close).bind fun found s₂ _ _ => .ite (fun _ => .pure hitems) fun _ => ?_
  refine (hitem s₂).bind fun a s₃ _ ha => ?_
  have hpush := forall_mem_toList_push hitems ha
  exact (accept_grows (by decide)).bind fun comma s₄ _ _ =>
    .ite (fun _ => .pure hpush) fun _ => .pure hpush

/-- What is read when something that announces it was found. -/
theorem announced_grows {announced : Parser Bool} {p : Parser α} {k : Option α → Parser β}
    {P : α → Prop} {Q : β → State → Prop} (hannounced : announced.Grows ctx s fun _ _ => True)
    (hp : ∀ s', p.Grows ctx s' fun a _ => P a)
    (hk : ∀ a? s', Grown ctx.text s s' → (∀ a ∈ a?, P a) → (k a?).Grows ctx s' Q) :
    (do
      let found ← announced
      if found = true then do
        let a ← some <$> p
        k a
      else do
        let a ← pure none
        k a : Parser β).Grows ctx s Q := by
  refine hannounced.bind fun found s₁ h₁ _ => .branch (P := fun a? _ => ∀ a ∈ a?, P a)
    (fun _ => .map ((hp s₁).mono fun a _ _ ha => ?_)) (fun _ => .pure (by simp))
    fun a? s₂ h₂ ha => hk a? s₂ (h₁.trans h₂) ha
  simpa using ha

/-! ### Names -/

theorem identifier?_grows :
    identifier?.Grows ctx s fun name? s' =>
      match name? with
      | some _ => Advanced ctx.text s s'
      | none => s' = s := by
  refine .look peek_looks (.ite (fun hfirst => ?_) fun _ => .ite (fun hfirst => ?_) fun _ => .pure rfl)
  · rw [beq_iff_eq] at hfirst
    have hlt := lt_size_of_charAt_ne (by rw [hfirst]; decide)
    refine .bind (P := fun _ s' => Advanced ctx.text s s') (.look theText_looks
      (.look position_looks ?_)) fun name s' _ h => .pure h
    dsimp only
    refine .ite (fun hlast => ?_) fun _ => failWith_grows rfl
    rw [beq_iff_eq] at hlast
    have hle := le_skipWhile ctx.text (fun c => c != backtick && c != '\n') (s.pos + 1)
    have hlt' := lt_size_of_charAt_ne (by rw [hlast]; decide)
    refine (moveTo_grows (by omega) fun _ => hlt').bind fun _ s' _ h =>
      .look (slice_looks _ _) (.look (spanFrom_looks _) (.pure ?_))
    rw [h]
    exact ⟨hlt, by simp only; omega⟩
  · have hname := continuesName_of_startsName hfirst
    have hlt := lt_nameEnd hname
    have hsize := lt_size_of_charAt_ne (ne_nul_of_continuesName hname)
    have hend := skipWhile_le_size ctx.text continuesName (Nat.le_of_lt hsize)
    refine .look position_looks (.look wordEnd_looks ?_)
    refine (moveTo_grows (by omega) fun _ => hend).bind fun _ s' _ h =>
      .look (sliceFrom_looks _) (.look (spanFrom_looks _) (.pure ?_))
    rw [h]
    exact ⟨hsize, hlt⟩

theorem identifier_grows {what : String} :
    (identifier what).Grows ctx s fun _ s' => Advanced ctx.text s s' := by
  refine identifier?_grows.bind fun name? s' _ h => ?_
  cases name? with
  | some name => exact .pure h
  | none => exact failExpected_grows

theorem expectName_grows {what : String} :
    (expectName what).Grows ctx s fun _ s' => Advanced ctx.text s s' :=
  skip_grows.bind fun _ _ h₁ _ => identifier_grows.bind fun _ _ _ h =>
    .guard (fun _ => failWith_grows rfl) fun _ => .pure (h₁.advanced h)

theorem qualifiedName_grows {what : String} :
    (qualifiedName what).Grows ctx s fun name s' => name.path ≠ [] ∧ Advanced ctx.text s s' := by
  refine identifier_grows.bind fun first s₁ _ hfirst => ?_
  refine .bind (P := fun (path : Array Identifier) _ => path.toList ≠ []) ?_
    fun path s₂ h₂ hpath => .pure ⟨hpath, ?_⟩
  · refine .repeating (fun (path : Array Identifier) _ => path.toList ≠ []) (by simp)
      fun path s₂ _ hpath => .look atPathStep_looks (.ite (fun _ => ?_) fun _ => .pure hpath)
    exact (advance_grows 1).bind fun _ s₃ _ _ => identifier_grows.bind fun name s₄ _ _ =>
      .pure (by simp)
  · exact hfirst.grown h₂

end Parser

end PklSyntax
