import PklSyntax.Text.Similarity
import PklSyntax.Tree.Token

/-!
# Words of the language

## Main definitions

* `keywords`: the words with a meaning in the grammar.
* `reservedWords`: words without one that are kept for later use.
* `isReserved`: whether a word can be a name only between backticks.
* `selfReferences`, `callableKeywords`: keywords that stand as an expression, and keywords that are
  called like functions.
* `suggestedKeyword?`: the keyword that was perhaps meant by a property without a value.
-/

namespace PklSyntax

/-- The words with a meaning in the grammar. -/
def keywords : List String :=
  ["abstract", "amends", "as", "class", "const", "else", "extends", "external", "false", "fixed",
    "for", "function", "hidden", "if", "import", "in", "is", "let", "local", "module", "new",
    "nothing", "null", "open", "out", "outer", "read", "super", "this", "throw", "trace", "true",
    "typealias", "unknown", "when"]

/-- Words without a meaning yet that are no names either. -/
def reservedWords : List String :=
  ["case", "delete", "override", "protected", "record", "switch", "vararg"]

/-- The word can be a name only between backticks. -/
def isReserved (word : String) : Bool := keywords.contains word || reservedWords.contains word

/-- Keywords that stand as an expression. -/
def selfReferences : List String := ["this", "outer", "super", "module"]

/-- Keywords that are called like functions. -/
def callableKeywords : List String := ["read", "throw", "trace", "import"]

/-- The words that begin a declaration. -/
def declarationKeywords : List String :=
  ["module", "import", "extends", "amends", "typealias", "class", "function"]

/-- The keyword that was perhaps meant where a property has neither type nor value. -/
def suggestedKeyword? (name : String) : Option String :=
  closestWord? (declarationKeywords ++ Modifier.all.map Modifier.keyword) name

namespace Identifier

/-- The identifier is a keyword or a reserved word without backticks. -/
def isReservedWord (i : Identifier) : Bool := i.kind == .plain && isReserved i.name

/-- The identifier is a keyword without backticks. -/
def isKeyword (i : Identifier) : Bool := i.kind == .plain && keywords.contains i.name

end Identifier

end PklSyntax
