import PklSyntax.Grammar.Type
import PklSyntax.Proofs.Reading.Leaves
import PklSyntax.Tree.Walk

/-!
# Words of the language as names

A keyword, or a word that is kept for later use, is a name only between backticks. Where a tree
gives something a name this holds without exception; where an expression refers to something by its
name, or calls it, a few keywords stand for values and functions of their own. A member that is
selected behind a point may have any name.

Neither a string nor a type names anything by itself. Both are well-named when the expressions
inside them are: those of interpolations, and the predicates on a type.

## Main definitions

* `Identifier.Free`, `Identifier.FreeExcept`: the name is no word of the language.
* `Node.NamesFreely`, `Node.WellNamed`: a node, and a tree, with no word of the language as a name.
* `Grammar.WellNamed`: the grammar for what stands inside gives well-named trees.

## Main statements

* `Identifier.free_iff`, `Identifier.freeExcept_iff`: what the grammar asks of a name.
* `Node.wellNamed_iff`: a tree is well-named when its root names freely and its children are.
* `Parser.expectName_gives`: what is read as a name is free.
* `Parser.stringLiteral_gives`: a string is well-named when its interpolations are.
* `Grammar.WellNamed.typeRule`: a type is well-named when what stands inside it is.
-/

namespace PklSyntax

/-! ### Free names -/

namespace Identifier

/-- The identifier is neither a keyword nor a reserved word, unless it stands between backticks. -/
def Free (name : Identifier) : Prop :=
  name.kind = .plain → name.name ∉ keywords ∧ name.name ∉ reservedWords

instance (name : Identifier) : Decidable name.Free :=
  inferInstanceAs
    (Decidable (name.kind = .plain → name.name ∉ keywords ∧ name.name ∉ reservedWords))

/-- Of the keywords and reserved words, the identifier is at most one of the given words, unless it
stands between backticks. -/
def FreeExcept (words : List String) (name : Identifier) : Prop :=
  name.kind = .plain → name.name ∈ keywords ∨ name.name ∈ reservedWords → name.name ∈ words

theorem isReservedWord_iff {name : Identifier} :
    name.isReservedWord = true ↔
      name.kind = .plain ∧ (name.name ∈ keywords ∨ name.name ∈ reservedWords) := by
  simp [isReservedWord, isReserved]

theorem free_iff {name : Identifier} : name.Free ↔ name.isReservedWord = false := by
  rw [← Bool.not_eq_true, isReservedWord_iff, not_and, not_or]
  exact Iff.rfl

/-- Backticks make a name of a keyword. -/
example : ¬Free ⟨"class", .plain, default⟩ ∧ Free ⟨"class", .backtick, default⟩ := by decide

theorem freeExcept_iff {words : List String} {name : Identifier} :
    name.FreeExcept words ↔ (name.isReservedWord && !words.contains name.name) = false := by
  rw [Bool.and_eq_false_imp, isReservedWord_iff, and_imp]
  simp [FreeExcept]

end Identifier

/-! ### Well-named trees -/

/-- A local name is free. A name that stands for a value is free or refers to what surrounds it, and
what is called is free or a keyword that is called like a function. -/
def Expr.NamesFreely : Expr → Prop
  | letIn name _ _ _ _ => name.Free
  | identifier name => name.FreeExcept selfReferences
  | call c => c.callee.FreeExcept callableKeywords
  | _ => True

/-- The names of a loop are free. -/
def ObjectMember.NamesFreely : ObjectMember → Prop
  | forGenerator bindings _ _ _ => ∀ name ∈ bindings, name.Free
  | _ => True

namespace Node

/-- The names that the node gives, or by which it refers to something, are free. A member that is
selected from a value is a node of another kind than a name or a call that stands by itself, and
nothing is asked of it. -/
def NamesFreely : Node → Prop
  | importDecl decl => ∀ name ∈ decl.localName, name.Free
  | typeAlias decl => decl.name.Free
  | classDecl decl => decl.name.Free
  | function decl => decl.name.Free
  | property decl => decl.name.Free
  | param p => p.name.Free
  | expr e => e.NamesFreely
  | objectMember member => member.NamesFreely
  | _ => True

/-- All nodes of the tree name freely. -/
def WellNamed (n : Node) : Prop := ∀ m ∈ n.walk, m.NamesFreely

theorem wellNamed_iff (n : Node) :
    n.WellNamed ↔ n.NamesFreely ∧ ∀ child ∈ n.children, child.WellNamed :=
  n.forall_mem_walk_iff

theorem WellNamed.of_children {n : Node} (hn : n.NamesFreely)
    (hchildren : ∀ child ∈ n.children, child.WellNamed) : n.WellNamed :=
  n.wellNamed_iff.2 ⟨hn, hchildren⟩

/-- A node with the same fields as a well-named one is well-named when it names freely. -/
theorem WellNamed.recast {n m : Node} (h : n.WellNamed) (hm : m.NamesFreely)
    (hfields : m.fields = n.fields) : m.WellNamed := by
  refine .of_children hm ?_
  rw [children, hfields]
  exact (n.wellNamed_iff.1 h).2

@[simp] theorem wellNamed_identifier (name : Identifier) : (identifier name).WellNamed :=
  .of_children trivial (by simp [children, fields, Identifier.fields])

@[simp] theorem wellNamed_docComment (doc : DocComment) : (docComment doc).WellNamed :=
  .of_children trivial (by simp [children, fields, DocComment.fields])

@[simp] theorem wellNamed_number (literal : NumberLiteral) : (number literal).WellNamed := by
  refine .of_children trivial ?_
  cases literal <;> simp [children, fields, NumberLiteral.fields]

@[simp] theorem wellNamed_namedType (type : NamedType) : (namedType type).WellNamed :=
  .of_children trivial (by simp [children, fields, NamedType.fields])

end Node

/-! ### Reading names -/

namespace Parser

/-- What is read as a name is free. -/
theorem expectName_gives {what : String} : (expectName what).Gives Identifier.Free := by
  apply Gives.after
  intro _
  apply Gives.after
  intro name
  apply Gives.guard failWith_gives
  intro hname
  apply Gives.pure
  rwa [Identifier.free_iff, ← Bool.not_eq_true]

end Parser

/-! ### Strings -/

/-- The segments that have been read are well-named. -/
def StringBody.WellNamed (body : StringBody) : Prop :=
  ∀ segment ∈ body.segments.toList, (Node.segment segment).WellNamed

theorem StringBody.WellNamed.push {body : StringBody} {segment : Segment} {textStart : Nat}
    (h : body.WellNamed) (hsegment : (Node.segment segment).WellNamed) :
    StringBody.WellNamed ⟨body.segments.push segment, textStart⟩ :=
  Parser.forall_mem_toList_push h hsegment

theorem Node.wellNamed_text (text : String) (span : Span) : (segment (.text text span)).WellNamed :=
  .of_children trivial (by simp [children, fields, Segment.fields])

theorem Node.wellNamed_escape (value : Char) (span : Span) :
    (segment (.escape value span)).WellNamed :=
  .of_children trivial (by simp [children, fields, Segment.fields])

namespace Parser

variable {quotes : Quotes} {interpolate : Parser Expr} {body : StringBody}

theorem flush_gives (hbody : body.WellNamed) : (flush body).Gives StringBody.WellNamed := by
  apply Gives.after
  intro pos
  apply Gives.ite
  · intro _
    apply Gives.after
    intro text
    exact .pure (hbody.push (Node.wellNamed_text text _))
  · intro _
    exact .pure hbody

theorem interpolation_gives (hexpr : interpolate.Gives fun e => (Node.expr e).WellNamed) :
    (interpolation interpolate).Gives fun e => (Node.expr e).WellNamed := by
  apply Gives.inMode
  apply Gives.after
  intro _
  apply hexpr.bind
  intro e he
  refine .after fun _ => .after fun _ => .ite (fun _ => ?_) fun _ => ?_
  · apply Gives.after
    intro pos
    exact .never failWith_gives
  · apply Gives.after
    intro _
    exact .pure he

theorem escapeSequence_gives (hexpr : interpolate.Gives fun e => (Node.expr e).WellNamed) :
    (escapeSequence quotes interpolate).Gives fun segment => (Node.segment segment).WellNamed := by
  refine .after fun start => .after fun _ => .after fun c => ?_
  split
  · exact .after fun _ => .after fun _ => .pure (Node.wellNamed_escape _ _)
  · apply Gives.ite
    · intro _
      exact .after fun _ => .after fun _ => .after fun _ => .pure (Node.wellNamed_escape _ _)
    · intro _
      apply Gives.ite
      · intro _
        apply Gives.after
        intro _
        apply (interpolation_gives hexpr).bind
        intro e he
        apply Gives.after
        intro span
        apply Gives.pure
        refine .of_children trivial ?_
        simpa [Node.children, Node.fields, Segment.fields] using he
      · intro _
        exact .after fun _ => .after fun _ => failWith_gives

theorem finishString_gives (hbody : body.WellNamed) {start stop : Nat} {indent : Option String} :
    (finishString quotes start stop body.segments indent).Gives fun literal =>
      (Node.string literal).WellNamed := by
  apply Gives.after
  intro pos
  apply Gives.pure
  refine .of_children trivial ?_
  simpa [Node.children, Node.fields, StringLiteral.fields, StringBody.WellNamed] using hbody

/-- One step through a string adds a well-named segment at most. -/
theorem stringStep_gives (hexpr : interpolate.Gives fun e => (Node.expr e).WellNamed)
    (hbody : body.WellNamed) {start : Nat} :
    (stringStep quotes start interpolate body).Gives
      (Round.Meets StringBody.WellNamed fun literal => (Node.string literal).WellNamed) := by
  apply Gives.after
  intro probe?
  cases probe? with
  | some probe =>
    apply Gives.after
    intro pos
    apply (flush_gives hbody).bind
    intro body hbody
    refine .after fun _ => .after fun _ => ?_
    apply (finishString_gives hbody).bind
    intro literal hliteral
    exact .pure hliteral
  | none =>
    refine .after fun pos => .after fun c => .after fun ended => .ite (fun _ => ?_) fun _ => ?_
    · exact failWith_gives
    refine .after fun closes => .ite (fun _ => ?_) fun _ => ?_
    · apply (flush_gives hbody).bind
      intro body hbody
      apply Gives.after
      intro _
      apply (finishString_gives hbody).bind
      intro literal hliteral
      exact .pure hliteral
    refine .after fun escapes => .ite (fun _ => ?_) fun _ => ?_
    · apply (flush_gives hbody).bind
      intro body hbody
      apply (escapeSequence_gives hexpr).bind
      intro segment hsegment
      apply Gives.after
      intro pos
      exact .pure (hbody.push hsegment)
    · apply Gives.after
      intro _
      exact .pure hbody

theorem stringLiteral_gives {styleWarnings : Bool}
    (hexpr : interpolate.Gives fun e => (Node.expr e).WellNamed) :
    (stringLiteral interpolate styleWarnings).Gives fun literal =>
      (Node.string literal).WellNamed := by
  apply Gives.inMode
  refine .after fun start => .after fun text => .after fun _ => .after fun multiline =>
    .after fun _ => .after fun opening => .option () fun _ => .after fun contentStart => ?_
  apply Gives.repeating StringBody.WellNamed
  · simp [StringBody.WellNamed]
  · intro body hbody
    exact stringStep_gives hexpr hbody

end Parser

/-! ### Types -/

/-- What the grammar gives is well-named. -/
structure Grammar.WellNamed (g : Grammar) : Prop where
  expr : g.expr.Gives fun e => (Node.expr e).WellNamed
  type : g.type.Gives fun t => (Node.type t).WellNamed
  body : g.body.Gives fun b => (Node.objectBody b).WellNamed

namespace TypeExpr

theorem wellNamed_named (type : NamedType) : (Node.type (.named type)).WellNamed :=
  (Node.wellNamed_namedType type).recast trivial rfl

/-- The type is well-named whatever its span is. -/
theorem wellNamed_withSpan {type : TypeExpr} (h : (Node.type type).WellNamed) (span : Span) :
    (Node.type (type.withSpan span)).WellNamed := by
  cases type <;> exact h.recast trivial rfl

end TypeExpr

namespace Grammar

open PklSyntax.Parser

variable {g : Grammar} {type : TypeExpr}

theorem wellNamed_unionMembers (h : (Node.type type).WellNamed) :
    ∀ m ∈ unionMembers type, (Node.type m).WellNamed := by
  cases type with
  | union members span =>
    have hmembers := ((Node.wellNamed_iff _).1 h).2
    simpa [unionMembers, Node.children, Node.fields, TypeExpr.fields] using hmembers
  | _ => simpa [unionMembers] using h

namespace WellNamed

theorem string (hg : g.WellNamed) :
    g.string.Gives fun literal => (Node.string literal).WellNamed := by
  apply Gives.after
  intro options
  exact stringLiteral_gives hg.expr

theorem typeArguments (hg : g.WellNamed) {base : NamedType} :
    (g.typeArguments base).Gives fun t => (Node.type t).WellNamed := by
  apply Gives.after
  intro opening
  apply (commaList_gives hg.type).bind
  intro args hargs
  apply Gives.after
  intro close
  apply Gives.ite
  · intro _
    apply Gives.after
    intro _
    exact .pure (TypeExpr.wellNamed_named _)
  · intro _
    apply Gives.pure
    refine .of_children trivial ?_
    simpa [Node.children, Node.fields, TypeExpr.fields] using hargs

theorem arrowResult? (hg : g.WellNamed) :
    g.arrowResult?.Gives fun result? => ∀ result ∈ result?, (Node.type result).WellNamed := by
  refine .after fun before => .after fun _ => .after fun arrow => .ite (fun _ => ?_) fun _ => ?_
  · apply Gives.after
    intro _
    apply hg.type.bind
    intro result hresult
    apply Gives.pure
    simpa using hresult
  · apply Gives.after
    intro _
    apply Gives.pure
    simp

theorem parenthesizedType (hg : g.WellNamed) :
    g.parenthesizedType.Gives fun t => (Node.type t).WellNamed := by
  refine .after fun start => .after fun _ => (commaList_gives hg.type).bind fun params hparams => ?_
  apply Gives.after
  intro close
  apply hg.arrowResult?.bind
  intro result? hresult
  cases result? with
  | some result =>
    apply Gives.pure
    refine .of_children trivial ?_
    simpa [Node.children, Node.fields, TypeExpr.fields, or_imp, forall_and]
      using ⟨hparams, by simpa using hresult⟩
  | none =>
    dsimp only
    split
    · exact .pure (TypeExpr.wellNamed_withSpan (hparams _ (List.mem_singleton_self _)) _)
    · exact failExpected_gives

theorem stringType (hg : g.WellNamed) : g.stringType.Gives fun t => (Node.type t).WellNamed := by
  apply hg.string.bind
  intro literal hliteral
  apply Gives.guard failWith_gives
  intro _
  apply Gives.pure
  refine .of_children trivial ?_
  simpa [Node.children, Node.fields, TypeExpr.fields] using hliteral

theorem typeAtom (hg : g.WellNamed) : g.typeAtom.Gives fun t => (Node.type t).WellNamed := by
  refine .after fun c => .ite (fun _ => hg.parenthesizedType) fun _ => ?_
  refine .after fun quoted => .ite (fun _ => hg.stringType) fun _ => ?_
  refine .after fun named => .ite (fun _ => ?_) fun _ => failExpected_gives
  refine .after fun name => .after fun c => .ite (fun _ => hg.typeArguments) fun _ => ?_
  exact .pure (TypeExpr.wellNamed_named name)

/-- The predicates on a type are well-named expressions. -/
theorem constraints (hg : g.WellNamed) (htype : (Node.type type).WellNamed) :
    (g.constraints type).Gives fun t => (Node.type t).WellNamed := by
  apply Gives.after
  intro _
  apply hg.expr.bind
  intro first hfirst
  apply (collect_gives hg.expr (by simpa using hfirst)).bind
  intro predicates hpredicates
  apply Gives.after
  intro close
  apply Gives.pure
  refine .of_children trivial ?_
  simpa [Node.children, Node.fields, TypeExpr.fields] using ⟨htype, by simpa using hpredicates⟩

theorem typeSuffix (hg : g.WellNamed) (htype : (Node.type type).WellNamed) :
    (g.typeSuffix type).Gives
      (Round.Meets (fun t => (Node.type t).WellNamed) fun t => (Node.type t).WellNamed) := by
  refine .after fun c => .after fun next => .ite (fun _ => ?_) fun _ =>
    .ite (fun _ => ?_) fun _ => ?_
  · refine .after fun _ => .after fun stop => .pure ?_
    refine .of_children trivial ?_
    simpa [Node.children, Node.fields, TypeExpr.fields] using htype
  · apply (hg.constraints htype).bind
    intro t ht
    exact .pure ht
  · exact .pure htype

theorem typeSegment (hg : g.WellNamed) : g.typeSegment.Gives fun t => (Node.type t).WellNamed := by
  refine .after fun _ => .after fun start => .after fun c => ?_
  -- The atom with its suffixes, behind the mark of a default or without one.
  have hatom : (do
      let base ← g.typeAtom
      let type ← repeating g.typeSuffix base
      if c == '*' then return .default type ⟨start, type.span.stop⟩
      else return type : Parser TypeExpr).Gives fun t => (Node.type t).WellNamed := by
    apply hg.typeAtom.bind
    intro base hbase
    apply (Gives.repeating (fun t => (Node.type t).WellNamed) hbase fun t ht =>
      hg.typeSuffix ht).bind
    intro t ht
    apply Gives.ite
    · intro _
      apply Gives.pure
      refine .of_children trivial ?_
      simpa [Node.children, Node.fields, TypeExpr.fields] using ht
    · intro _
      exact .pure ht
  apply Gives.ite
  · intro _
    exact .after fun _ => .after fun _ => hatom
  · intro _
    exact hatom

theorem typeRule (hg : g.WellNamed) : g.typeRule.Gives fun t => (Node.type t).WellNamed := by
  refine .after fun _ => .after fun start => hg.typeSegment.bind fun first hfirst => ?_
  apply Gives.bind (P := fun members => ∀ t ∈ members.toList, (Node.type t).WellNamed)
  · apply Gives.repeating fun members => ∀ t ∈ members.toList, (Node.type t).WellNamed
    · simpa using hfirst
    · intro members hmembers
      apply Gives.after
      intro bar
      apply Gives.ite
      · intro _
        apply Gives.after
        intro _
        apply hg.typeSegment.bind
        intro t ht
        exact .pure (forall_mem_toList_push hmembers ht)
      · intro _
        exact .pure hmembers
  · intro members hmembers
    split
    · rename_i t heq
      apply Gives.pure
      apply hmembers
      rw [heq]
      exact List.mem_singleton_self t
    · apply Gives.pure
      refine .of_children trivial ?_
      simp only [Node.children, Node.fields, TypeExpr.fields, List.flatMap_cons, List.flatMap_nil,
        FieldValue.children_ofList, List.append_nil, List.forall_mem_map, List.mem_flatMap]
      rintro m ⟨t, ht, hm⟩
      exact wellNamed_unionMembers (hmembers t ht) m hm

end WellNamed

end Grammar

end PklSyntax
