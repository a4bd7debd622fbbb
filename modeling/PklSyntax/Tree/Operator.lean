/-!
# Operators

The infix operators bind at nine levels. Operators of one level group to the left, except that
`**` groups to the right. The prefix operators bind tighter than all infix operators; above them
stand `!!`, then `is` and `as`, whose operands the grammar reads as parts of one operand.

## Main definitions

* `BinaryOperator`, `BinaryOperator.symbol`, `BinaryOperator.ofSymbol?`.
* `BinaryOperator.level`, `BinaryOperator.rightLevel`: the level of an operator, and the least
  level that its right operand may have.
* `BinaryOperator.longestFirst`: the operators in an order in which none is a beginning of a later
  one.
* `UnaryOperator`.
-/

namespace PklSyntax

/-- The infix operators. -/
inductive BinaryOperator where
  | pipe
  | nullCoalesce
  | or
  | and
  | equal
  | notEqual
  | less
  | lessEqual
  | greater
  | greaterEqual
  | add
  | subtract
  | multiply
  | divide
  | divideInt
  | remainder
  | power
  deriving Repr, DecidableEq, Inhabited

namespace BinaryOperator

/-- The operators by rising level. -/
def all : List BinaryOperator :=
  [pipe, nullCoalesce, or, and, equal, notEqual, less, lessEqual, greater, greaterEqual, add,
    subtract, multiply, divide, divideInt, remainder, power]

/-- The operator as it is written. -/
def symbol : BinaryOperator → String
  | pipe => "|>"
  | nullCoalesce => "??"
  | or => "||"
  | and => "&&"
  | equal => "=="
  | notEqual => "!="
  | less => "<"
  | lessEqual => "<="
  | greater => ">"
  | greaterEqual => ">="
  | add => "+"
  | subtract => "-"
  | multiply => "*"
  | divide => "/"
  | divideInt => "~/"
  | remainder => "%"
  | power => "**"

theorem symbol_injective : Function.Injective symbol := by
  intro a b
  cases a <;> cases b <;> decide

/-- The operator that is written so. -/
def ofSymbol? (s : String) : Option BinaryOperator :=
  all.find? fun op => op.symbol == s

/-- The level at which an operator binds; a higher level binds tighter. -/
def level : BinaryOperator → Nat
  | pipe => 1
  | nullCoalesce => 2
  | or => 3
  | and => 4
  | equal | notEqual => 5
  | less | lessEqual | greater | greaterEqual => 6
  | add | subtract => 7
  | multiply | divide | divideInt | remainder => 8
  | power => 9

/-- Operators of this kind group to the right. -/
def groupsRight (op : BinaryOperator) : Bool := op == power

/-- The least level of an operator that the right operand of `op` may be built with. -/
def rightLevel (op : BinaryOperator) : Nat :=
  if op.groupsRight then op.level else op.level + 1

/-- The operators of two characters, and then those of one: in this order the first one that
begins a text is the longest that does. -/
def longestFirst : List BinaryOperator :=
  all.filter (fun op => op.symbol.length == 2) ++ all.filter (fun op => op.symbol.length == 1)

end BinaryOperator

/-- The prefix operators. -/
inductive UnaryOperator where
  | negate
  | not
  deriving Repr, DecidableEq, Inhabited

/-- The operator as it is written. -/
def UnaryOperator.symbol : UnaryOperator → String
  | negate => "-"
  | not => "!"

theorem UnaryOperator.symbol_injective : Function.Injective symbol := by
  intro a b
  cases a <;> cases b <;> decide

end PklSyntax
