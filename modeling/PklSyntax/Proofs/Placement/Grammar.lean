import PklSyntax.Proofs.Growth.Module
import PklSyntax.Proofs.Placement.Tree

/-!
# Placed trees in the grammar

What productions make of the parts that they have read commutes with placing them, and what they ask
of these parts has the same answer at another place.

## Main definitions

* `Preamble.placed`, `ClassHead.placed`, `Quotes.placed`, `Progress.placed`: parts that are no trees.

## Main statements

* `Grammar.select_placed`, `Grammar.amend_placed`, `Grammar.unitLiteral?_placed`,
  `ClassHead.withBody_placed`: trees that are made of parts.
* `Grammar.isLiteral_placed`, `Grammar.isFunctionType_placed`, `Header.problems_placed`: questions.
-/

namespace PklSyntax

open PklSyntax.Parser

variable {P : Placement}

/-- The last of the entries of an array, each of them changed. -/
theorem Array.getD_back?_map {α β : Type} (f : α → β) (items : Array α) (first : α) :
    (items.map f).back?.getD (f first) = f (items.back?.getD first) := by
  rw [Array.back?_map]
  cases items.back? <;> rfl

/-- The quotes at their new place. -/
def Quotes.placed (P : Placement) (quotes : Quotes) : Quotes :=
  { quotes with opening := P.span quotes.opening }

/-- What stands in front of a declaration, at its new place. -/
def Preamble.placed (P : Placement) (before : Preamble) : Preamble where
  start := P.offset before.start
  doc := before.doc.map (DocComment.placed P)
  annotations := before.annotations.map ( Annotation.placed P)
  modifiers := before.modifiers

/-- The class without its body, at its new place. -/
def ClassHead.placed (P : Placement) (head : ClassHead) : ClassHead where
  before := head.before.placed P
  name := head.name.placed P
  typeParams := head.typeParams.map (TypeParameter.placed P)
  parent := head.parent.map (TypeExpr.placed P)
  stop := P.offset head.stop

/-- The members of a class with the offset behind the class, at their new place. -/
abbrev placedMembers (P : Placement) : List ClassMember × Int → List ClassMember × Int :=
  Prod.map (List.map (ClassMember.placed P)) P.offset

theorem ClassHead.withBody_placed (head : ClassHead)
    (body : Option (List ClassMember × Int)) :
    (head.placed P).withBody (body.map (placedMembers P)) = (head.withBody body).placed P := by
  cases body <;> simp [withBody, placed, Preamble.placed, ClassDecl.placed, Placement.span]

/-- A name that is no keyword is none at its new place. -/
theorem filter_isKeyword_placed (name? : Option Identifier) :
    (name?.map (Identifier.placed P)).filter (fun name => !name.isKeyword) =
      (name?.filter fun name => !name.isKeyword).map (Identifier.placed P) := by
  rw [Option.filter_map]
  rfl

/-! ### Types and expressions -/

namespace Grammar

theorem isFunctionType_placed (type : TypeExpr) :
    isFunctionType (type.placed P) = isFunctionType type := by
  cases type <;> simp [TypeExpr.placed, isFunctionType]

theorem unionMembers_placed (type : TypeExpr) :
    unionMembers (type.placed P) = (unionMembers type).map (TypeExpr.placed P) := by
  cases type <;> simp [TypeExpr.placed, unionMembers]

theorem unitLiteral?_placed (target : Expr) (member : Member) :
    unitLiteral? (target.placed P) (member.placed P) =
      (unitLiteral? target member).map (Expr.placed P) := by
  cases target with
  | number amount =>
    cases member with
    | identifier name =>
      simp only [Expr.placed, Member.placed, unitLiteral?, Identifier.placed,
        NumberLiteral.span_placed, Placement.span_cover]
      split
      · rfl
      · split <;> simp [Expr.placed]
    | call => simp [Expr.placed, Member.placed, unitLiteral?]
  | letIn => simp [Expr.placed_letIn, unitLiteral?]
  | new => simp [Expr.placed_new, unitLiteral?]
  | _ => simp [Expr.placed, unitLiteral?]

theorem isLiteral_placed (e : Expr) : isLiteral (e.placed P) = isLiteral e := by
  cases e with
  | letIn => simp [Expr.placed_letIn, isLiteral]
  | new => simp [Expr.placed_new, isLiteral]
  | _ => simp [Expr.placed, isLiteral]

theorem select_placed (target : Expr) (access : Access) :
    select (target.placed P) (access.placed P) = (select target access).placed P := by
  simp [select, Expr.placed]

theorem amend_placed (base : Expr) (first : ObjectBody) (others : List ObjectBody)
    (span : Span) :
    amend (base.placed P) (first.placed P) (others.map (ObjectBody.placed P)) (P.span span) =
      (amend base first others span).placed P := by
  cases base with
  | paren inner span' => cases others <;> simp [amend, Expr.placed, Expr.span, Placement.span]
  | letIn => simp [Expr.placed_letIn, amend, Expr.placed]
  | new => simp [Expr.placed_new, amend, Expr.placed]
  | _ => simp [amend, Expr.placed]

end Grammar

/-! ### Declarations -/

/-- The declarations read so far, at their new places. -/
def Progress.placed (P : Placement) (progress : Progress) : Progress where
  declarations := progress.declarations.map (Declaration.placed P)
  header := progress.header

/-- A declaration plays the same part at its new place. -/
theorem Header.problems_placed (header : Header) (decl : Declaration) :
    header.problems (decl.placed P) = header.problems decl := by
  cases decl <;> rfl

theorem Header.add_placed (header : Header) (decl : Declaration) :
    header.add (decl.placed P) = header.add decl := by
  cases decl <;> rfl

/-- What is wrong with a header is said of a place alone. -/
theorem Header.diagnostic_placed {header : Header} {decl : Declaration}
    {problem : Problem} (h : problem ∈ header.problems decl) (span : Span) :
    (problem.diagnostic span).placed P = problem.diagnostic (P.span span) := by
  obtain ⟨keyword, rfl⟩ | ⟨keyword, rfl⟩ | ⟨phase, rfl⟩ := problems_cases h <;> rfl

theorem Declaration.span_placed (decl : Declaration) :
    (decl.placed P).span = P.span decl.span := by
  cases decl with
  | function decl => cases decl; simp [Declaration.placed, Declaration.span, FunctionDecl.placed_mk]
  | property decl => cases decl; simp [Declaration.placed, Declaration.span, PropertyDecl.placed]
  | _ => rfl

end PklSyntax
