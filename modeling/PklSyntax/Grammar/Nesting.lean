import PklSyntax.Grammar.Object
import PklSyntax.Grammar.Type

/-!
# Nesting

The rules for expressions, types and object bodies, tied together. A grammar that admits `n + 1`
levels of nesting applies the rules with the grammar that admits `n` levels inside them, and a
grammar that admits none gives everything up.

## Main definitions

* `Grammar.nested`: the grammar that admits a number of levels.
* `Grammar.full`: the grammar in which texts are read.
-/

namespace PklSyntax

namespace Grammar

/-- The grammar that finds everything nested too deeply. -/
def exhausted : Grammar where
  expr := throw .tooDeep
  type := throw .tooDeep
  body := throw .tooDeep

/-- The grammar whose constructs apply the rules with `g` for what stands inside them. -/
def deeper (g : Grammar) : Grammar where
  expr := g.expressionRule
  type := g.typeRule
  body := g.bodyRule

/-- The grammar that admits `depth` levels of nesting. -/
def nested : Nat → Grammar
  | 0 => exhausted
  | depth + 1 => (nested depth).deeper

/-- The grammar in which texts are read. -/
def full : Grammar := nested nestingLimit

end Grammar

end PklSyntax
