import PklSyntax.Source.Span

/-!
# Atomic parts of the tree

The parts of a syntax tree that hold no further syntax: identifiers, doc comments, numbers with
their units, and modifiers. All but modifiers carry the span of text they were read from.

## Main definitions

* `Identifier`, `IdentifierKind`, `DocComment`.
* `IntLiteral`, `FloatLiteral`, `NumberLiteral`, with `DurationUnit` and `DataSizeUnit`.
* `Modifier`, `Modifiers`: sets of modifiers in one fixed order, so that equal sets are equal
  lists.
-/

namespace PklSyntax

/-- The forms of an identifier: beginning with a letter, beginning with `_` or `$`, between
backticks, or the blank `_` alone. -/
inductive IdentifierKind where
  | plain
  | symbol
  | backtick
  | blank
  deriving Repr, DecidableEq, Inhabited

/-- The word for a form of identifier. -/
def IdentifierKind.name : IdentifierKind → String
  | plain => "plain"
  | symbol => "symbol"
  | backtick => "backtick"
  | blank => "blank"

theorem IdentifierKind.name_injective : Function.Injective name := by
  intro a b
  cases a <;> cases b <;> decide

/-- A name, without the backticks around it. -/
structure Identifier where
  name : String
  kind : IdentifierKind
  span : Span
  deriving Repr, DecidableEq, Inhabited

/-- A block of documentation, without the marks in front of its lines. -/
structure DocComment where
  text : String
  span : Span
  deriving Repr, DecidableEq, Inhabited

/-- The base in which an integer is written. -/
inductive IntBase where
  | decimal
  | hexadecimal
  | octal
  | binary
  deriving Repr, DecidableEq, Inhabited

/-- The number of digits of the base. -/
def IntBase.radix : IntBase → Nat
  | decimal => 10
  | hexadecimal => 16
  | octal => 8
  | binary => 2

theorem IntBase.radix_injective : Function.Injective radix := by
  intro a b
  cases a <;> cases b <;> decide

/-- An integer as it is written: its digits without the sign of the base, with the underscores
between them. -/
structure IntLiteral where
  base : IntBase
  digits : String
  span : Span
  deriving Repr, DecidableEq, Inhabited

/-- A floating-point number as it is written, or one of the words `NaN` and `Infinity`. -/
structure FloatLiteral where
  text : String
  span : Span
  deriving Repr, DecidableEq, Inhabited

/-- A number of either sort. -/
inductive NumberLiteral where
  | int (literal : IntLiteral)
  | float (literal : FloatLiteral)
  deriving Repr, DecidableEq, Inhabited

/-- The span of a number. -/
def NumberLiteral.span : NumberLiteral → Span
  | int literal => literal.span
  | float literal => literal.span

/-- The units of a duration. -/
inductive DurationUnit where
  | ns
  | us
  | ms
  | s
  | min
  | h
  | d
  deriving Repr, DecidableEq, Inhabited

namespace DurationUnit

/-- All units of a duration, the shortest first. -/
def all : List DurationUnit := [ns, us, ms, s, min, h, d]

/-- The unit as it is written. -/
def symbol : DurationUnit → String
  | ns => "ns"
  | us => "us"
  | ms => "ms"
  | s => "s"
  | min => "min"
  | h => "h"
  | d => "d"

theorem symbol_injective : Function.Injective symbol := by
  intro u v
  cases u <;> cases v <;> decide

/-- The unit that is written so. -/
def ofSymbol? (text : String) : Option DurationUnit :=
  all.find? fun unit => unit.symbol == text

end DurationUnit

/-- The units of a data size, in powers of ten and of two. -/
inductive DataSizeUnit where
  | b
  | kb
  | kib
  | mb
  | mib
  | gb
  | gib
  | tb
  | tib
  | pb
  | pib
  deriving Repr, DecidableEq, Inhabited

namespace DataSizeUnit

/-- All units of a data size, the smallest first. -/
def all : List DataSizeUnit := [b, kb, kib, mb, mib, gb, gib, tb, tib, pb, pib]

/-- The unit as it is written. -/
def symbol : DataSizeUnit → String
  | b => "b"
  | kb => "kb"
  | kib => "kib"
  | mb => "mb"
  | mib => "mib"
  | gb => "gb"
  | gib => "gib"
  | tb => "tb"
  | tib => "tib"
  | pb => "pb"
  | pib => "pib"

theorem symbol_injective : Function.Injective symbol := by
  intro u v
  cases u <;> cases v <;> decide

/-- The unit that is written so. -/
def ofSymbol? (text : String) : Option DataSizeUnit :=
  all.find? fun unit => unit.symbol == text

end DataSizeUnit

/-- The words that may stand before a declaration. -/
inductive Modifier where
  | isLocal
  | isFixed
  | isConst
  | isExternal
  | isHidden
  | isAbstract
  | isOpen
  deriving Repr, DecidableEq, Inhabited

namespace Modifier

/-- All modifiers. -/
def all : List Modifier :=
  [isLocal, isFixed, isConst, isExternal, isHidden, isAbstract, isOpen]

/-- The modifier as it is written. -/
def keyword : Modifier → String
  | isLocal => "local"
  | isFixed => "fixed"
  | isConst => "const"
  | isExternal => "external"
  | isHidden => "hidden"
  | isAbstract => "abstract"
  | isOpen => "open"

theorem keyword_injective : Function.Injective keyword := by
  intro a b
  cases a <;> cases b <;> decide

end Modifier

/-- A set of modifiers: the members in the order of `Modifier.all`, each at most once. -/
structure Modifiers where
  members : List Modifier
  ordered : Modifier.all.filter members.contains = members
  deriving Repr, DecidableEq

namespace Modifiers

/-- The set of the modifiers that meet a condition. -/
def ofFilter (p : Modifier → Bool) : Modifiers where
  members := Modifier.all.filter p
  ordered := List.filter_congr fun m hm => by simp [List.contains_eq_mem, hm]

/-- No modifier. -/
def empty : Modifiers := ⟨[], rfl⟩

instance : Inhabited Modifiers := ⟨empty⟩

/-- The set with one more member. -/
def insert (m : Modifier) (set : Modifiers) : Modifiers :=
  ofFilter fun other => other == m || set.members.contains other

/-- The set has the member. -/
def contains (m : Modifier) (set : Modifiers) : Bool := set.members.contains m

/-- The set has no member. -/
def isEmpty (set : Modifiers) : Bool := set.members.isEmpty

/-- The members as they are written, in the order of the alphabet. -/
def keywords (set : Modifiers) : List String :=
  (set.members.map Modifier.keyword).mergeSort fun a b => decide (a ≤ b)

end Modifiers

end PklSyntax
