import PklSyntax.Diagnostic.Problem
import PklSyntax.Tree.Basic

/-!
# The header of a module

A module begins with its own clause, then names the module that it amends or extends, then imports
others; all else comes after these. A module has each clause at most once, and does not both amend
and extend. What offends against these rules is a warning.

## Main definitions

* `Clause`, `Declaration.clause?`, `Declaration.phase`: the part that a declaration plays.
* `Header`: what is known after some declarations.
* `Header.problems`: the rules that the next declaration offends against.
-/

namespace PklSyntax

/-- The clauses that a module has at most once: its own, and those that name the module it amends or
extends. -/
inductive Clause where
  | own
  | amending
  | extending
  deriving Repr, DecidableEq

namespace Clause

/-- The word with which a clause begins. -/
def keyword : Clause → String
  | own => "module"
  | amending => "amends"
  | extending => "extends"

/-- The clause names another module, of which this one is a variant. -/
def namesParent : Clause → Bool
  | own => false
  | amending | extending => true

end Clause

namespace Declaration

/-- The clause that a declaration is. -/
def clause? : Declaration → Option Clause
  | moduleClause _ => some .own
  | amendsClause _ => some .amending
  | extendsClause _ => some .extending
  | _ => none

/-- The phase of the header in which a declaration belongs. -/
def phase : Declaration → HeaderPhase
  | moduleClause _ => .moduleClause
  | amendsClause _ | extendsClause _ => .parentClause
  | importDecl _ => .imports
  | _ => .declarations

end Declaration

/-- What is known of the header after some declarations: the clauses among them, and the last
phase that one of them belongs in. -/
structure Header where
  clauses : List Clause := []
  latest : HeaderPhase := .moduleClause
  deriving Repr, DecidableEq, Inhabited

namespace Header

/-- What is wrong with one more clause. -/
def clauseProblem? (header : Header) (clause : Clause) : Option Problem :=
  if header.clauses.contains clause then some (.duplicateClause clause.keyword)
  else if clause.namesParent && header.clauses.any Clause.namesParent then
    some (.conflictingClause clause.keyword)
  else none

/-- What is wrong with the place of one more declaration. -/
def orderProblem? (header : Header) (phase : HeaderPhase) : Option Problem :=
  if phase.rank < header.latest.rank then some (.outOfOrder phase) else none

/-- The rules that one more declaration offends against. -/
def problems (header : Header) (decl : Declaration) : List Problem :=
  (decl.clause?.bind header.clauseProblem?).toList ++ (header.orderProblem? decl.phase).toList

/-- What is known after one more declaration. -/
def add (header : Header) (decl : Declaration) : Header where
  clauses := decl.clause?.toList ++ header.clauses
  latest := if header.latest.rank < decl.phase.rank then decl.phase else header.latest

end Header

end PklSyntax
