import PklSyntax.Proofs.Documentation.Items
import PklSyntax.Proofs.Reading.Characters
import PklSyntax.Tree.Basic

/-!
# What doc comments document

Declarations, members of classes, and the properties and functions among the members of objects can
be documented. What is documented begins with its first annotation, else with a modifier, else with
a token of its own, and its doc comment is the last one of the trivia directly in front of that.

These trivia begin where the last token ended. For the members of a body that is where the member in
front ended, or a sign that separates them, or the sign in front of all of them. So it is said of a
list of items, from its first place on, that each is documented from the place where the one in
front ended.

## Main definitions

* `Documentable`: what can be documented, by what it begins with.
* `Documentable.BeginsAt`, `Documentable.DocumentedFrom`: where it begins, and what documents it.
* `Listed`: items one behind the other, each documented from where the one in front ended.
* `ObjectBody.Documented`, `ClassDecl.Documented`: the members of an object or a class are
  documented from the brace on.

## Main statements

* `Listed.append`, `Listed.cons`: lists can be put together.
-/

namespace PklSyntax

/-! ### What can be documented -/

/-- The token with which a declaration begins when neither annotations nor modifiers stand in front
of it. -/
inductive OwnToken where
  | keyword (word : String)
  | name (identifier : Identifier)

/-- What can be documented: the doc comment that it has, and what it begins with. Some declarations
do not record their modifiers. -/
structure Documentable where
  doc : Option DocComment
  annotations : List Annotation
  modifiers : Option Modifiers
  own : OwnToken

/-- The token stands at the offset. -/
def OwnToken.StandsAt (text : Array Char) (i : Nat) : OwnToken → Prop
  | keyword word => wordAt text word i = true
  | name identifier => identifier.span.start = i

def Documentable.ofProperty (decl : PropertyDecl) : Documentable :=
  ⟨decl.doc, decl.annotations, some decl.modifiers, .name decl.name⟩

def Documentable.ofFunction (decl : FunctionDecl) : Documentable :=
  ⟨decl.doc, decl.annotations, some decl.modifiers, .keyword "function"⟩

/-- A declaration as something that can be documented. -/
def Declaration.documentable : Declaration → Documentable
  | moduleClause clause =>
    ⟨clause.doc, clause.annotations, some clause.modifiers, .keyword "module"⟩
  | importDecl decl => ⟨decl.doc, decl.annotations, none, .keyword "import"⟩
  | extendsClause clause => ⟨clause.doc, clause.annotations, none, .keyword "extends"⟩
  | amendsClause clause => ⟨clause.doc, clause.annotations, none, .keyword "amends"⟩
  | typeAlias decl => ⟨decl.doc, decl.annotations, some decl.modifiers, .keyword "typealias"⟩
  | classDecl decl => ⟨decl.doc, decl.annotations, some decl.modifiers, .keyword "class"⟩
  | function decl => .ofFunction decl
  | property decl => .ofProperty decl

/-- A member of a class as something that can be documented. -/
def ClassMember.documentable : ClassMember → Documentable
  | property decl => .ofProperty decl
  | function decl => .ofFunction decl

/-- A member of an object as something that can be documented, if it is a property or a function. -/
def ObjectMember.documentable? : ObjectMember → Option Documentable
  | property decl => some (.ofProperty decl)
  | function decl => some (.ofFunction decl)
  | _ => none

namespace Documentable

/-- The first annotation begins at the offset; or there is none, and one of the modifiers stands
there; or there are no modifiers either, and the token of its own does. -/
def BeginsAt (text : Array Char) (item : Documentable) (i : Nat) : Prop :=
  item.annotations.head?.elim
    ((∃ m : Modifier, wordAt text m.keyword i = true ∧ ∀ ms ∈ item.modifiers, m ∈ ms.members) ∨
      item.own.StandsAt text i ∧ ∀ ms ∈ item.modifiers, ms.isEmpty = true)
    fun annotation => annotation.span.start = i

/-- Trivia lead from the offset to the place where the item begins, and its doc comment is the last
one among them. -/
def DocumentedFrom (text : Array Char) (i : Nat) (item : Documentable) : Prop :=
  ∃ (j : Nat) (docs : List DocComment), TriviaItems text i j docs none ∧ NoTrivia text j ∧
    item.BeginsAt text j ∧ item.doc = docs.getLast?

end Documentable

/-! ### Lists of items -/

/-- Items one behind the other from `lo` on, as far as `j`, with some signs and trivia in front of
them. Each one that can be documented is documented from where the item or the sign in front of it
ended. -/
inductive Listed (text : Array Char) (signs : List Char) (lo : Nat) :
    List (Option Documentable × Span) → Nat → Prop
  | nil : Listed text signs lo [] lo
  | sign {items : List (Option Documentable × Span)} {i j : Nat}
      (front : Listed text signs lo items i) (run : TriviaRun text i j)
      (hsign : charAt text j ∈ signs) : Listed text signs lo items (j + 1)
  | item {items : List (Option Documentable × Span)} {i j : Nat} {item? : Option Documentable}
      {span : Span} (front : Listed text signs lo items i)
      (hdoc : ∀ item ∈ item?, item.DocumentedFrom text i) (hstop : span.stop = j) :
      Listed text signs lo (items ++ [(item?, span)]) j

theorem Listed.append {text : Array Char} {signs : List Char} {lo i j : Nat}
    {items items' : List (Option Documentable × Span)} (h : Listed text signs lo items i)
    (h' : Listed text signs i items' j) : Listed text signs lo (items ++ items') j := by
  induction h' with
  | nil => rwa [List.append_nil]
  | sign _ run hsign ih => exact .sign ih run hsign
  | item _ hdoc hstop ih =>
    rw [← List.append_assoc]
    exact .item ih hdoc hstop

/-- The first item may be put in front of the others. -/
theorem Listed.cons {text : Array Char} {signs : List Char} {lo i j : Nat}
    {items : List (Option Documentable × Span)} {item? : Option Documentable} {span : Span}
    (hdoc : ∀ item ∈ item?, item.DocumentedFrom text lo) (hstop : span.stop = i)
    (h : Listed text signs i items j) : Listed text signs lo ((item?, span) :: items) j :=
  Listed.append (.item .nil hdoc hstop) h

/-- The members of the object are documented from the opening brace on. Semicolons may stand between
them. -/
def ObjectBody.Documented (text : Array Char) (body : ObjectBody) : Prop :=
  ∃ i hi : Nat, body.span.start = i ∧ charAt text i = '\x7b' ∧
    Listed text [';'] (i + 1)
      (body.members.map fun member => (member.documentable?, member.span)) hi

/-- The offset at which the last part in the head of the class ends: its parent, or else the last of
its type parameters, or else its name. -/
def ClassDecl.headStop (decl : ClassDecl) : Int :=
  (decl.parent.map TypeExpr.span).elim
    ((decl.typeParams.getLast?.map TypeParameter.span).elim decl.name.span.stop Span.stop) Span.stop

/-- The members in a body of a class are documented from the opening brace on. The brace stands
behind the head of the class, which ends at `stop`, and between the two only trivia and the signs
that enclose type parameters. -/
def DocumentedBehind (text : Array Char) (stop : Int) (members : List ClassMember) : Prop :=
  ∃ lo i j hi : Nat, stop = lo ∧ Listed text ['<', '>'] lo [] i ∧ TriviaRun text i j ∧
    charAt text j = '\x7b' ∧
      Listed text [] (j + 1) (members.map fun member => (some member.documentable, member.span)) hi

/-- The members of the class are documented, if it has a body. -/
def ClassDecl.Documented (text : Array Char) (decl : ClassDecl) : Prop :=
  ∀ members ∈ decl.body, DocumentedBehind text decl.headStop members

end PklSyntax
