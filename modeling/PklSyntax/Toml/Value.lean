import PklSyntax.Number.Decimal

/-!
# Values of TOML

A document is a table: names with values, in the order in which they were given. A table remembers
how it came about, since this decides what may still be added to it.

## Main definitions

* `Toml.Value`, `Toml.Table`, `Toml.Origin`.
* `Toml.Value.isTrue`: whether a value counts as true.
* `Toml.find?`: the value of a name in a table.
-/

namespace PklSyntax.Toml

/-- How a table came about. A table that is written between braces is complete. One that a header
names is open under this header alone. A table through which a header leads to another one can
still get a header of its own. One that is made by keys with points in them is open to such keys
in the same block of lines. -/
inductive Origin where
  | inline
  | header
  | passage
  | keys (block : Nat)
  deriving Repr, DecidableEq, Inhabited

/-- The sorts of dates and times. -/
inductive TimeKind where
  | dateTime
  | date
  | time
  deriving Repr, DecidableEq, Inhabited

/-- A value. `tables` is an array whose elements are tables with a header each, of which only the
latest is open. -/
inductive Value where
  | string (text : String)
  | integer (value : Int)
  | float (value : Binary64)
  | boolean (value : Bool)
  | time (kind : TimeKind) (text : String)
  | array (items : List Value)
  | table (origin : Origin) (entries : List (String × Value))
  | tables (earlier : List (List (String × Value))) (latest : List (String × Value))
  deriving Repr, Inhabited

/-- The names of a table with their values. -/
abbrev Table := List (String × Value)

/-- The value of a name. -/
def find? (name : String) (table : Table) : Option Value := table.lookup name

/-- The value is neither zero nor empty nor false. -/
def Value.isTrue : Value → Bool
  | string text => !text.isEmpty
  | integer value => value != 0
  | float value => !value.isZero
  | boolean value => value
  | array items => !items.isEmpty
  | table _ entries => !entries.isEmpty
  | time .. | tables .. => true

end PklSyntax.Toml
