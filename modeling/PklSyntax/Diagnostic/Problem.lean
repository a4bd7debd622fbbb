import PklSyntax.Diagnostic.Basic
import PklSyntax.Tree.Token

/-!
# The problems of a module text

Everything that can be wrong with a module text, as causes, with the one place where each is
worded. Codes E1xx concern tokens, E2xx the grammar, and W3xx are warnings.

## Main definitions

* `Problem`: a cause, with what its message names.
* `Problem.diagnostic`: the diagnostic that reports a problem at a span.
-/

namespace PklSyntax

/-- Where an underscore stands that does not separate two digits. -/
inductive UnderscorePlace where
  | leading
  | trailing
  | doubled
  deriving Repr, DecidableEq

/-- The word for the place of an underscore. -/
def UnderscorePlace.name : UnderscorePlace → String
  | leading => "leading"
  | trailing => "trailing"
  | doubled => "doubled"

/-- The order of the header of a module: its own clause, the clause that names another module to
amend or extend, imports, and all else. -/
inductive HeaderPhase where
  | moduleClause
  | parentClause
  | imports
  | declarations
  deriving Repr, DecidableEq, Inhabited

/-- The place of a phase in the order of the header. -/
def HeaderPhase.rank : HeaderPhase → Nat
  | moduleClause => 1
  | parentClause => 2
  | imports => 3
  | declarations => 4

/-- What can be wrong with a module text. -/
inductive Problem where
  | unterminatedComment
  | unterminatedQuotedName
  | unterminatedString
  | invalidEscape (shown : String) (opening : Span)
  | missingUnicodeBrace (opening : Span)
  | wrongUnicodeDigits (opening : Span)
  | invalidScalar (value : Nat) (opening : Span)
  | missingDigits (base : IntBase) (letter : Char)
  | misplacedUnderscore (place : UnderscorePlace)
  | malformedNumber (text : String)
  | strayCharacter (c : Char) (what : String)
  | strayDeclarationCharacter (c : Char)
  | unexpected (what found : String)
  | unclosedInterpolation
  | interpolatedSource (keyword : String)
  | unclosedClassBody
  | unclosedObjectBody
  | interpolatedType
  | unexpectedDeclaration (found : String)
  | keywordAsName (name what : String)
  | keywordInExpression (name : String)
  | emptyProperty (name : String) (closest : Option String)
  | nestingTooDeep
  | orphanedDocComment
  | conflictingClause (keyword : String)
  | duplicateClause (keyword : String)
  | emptyTypeParameters
  | emptyTypeArguments
  | missingIntegerPart (text : String)
  | contentOnOpeningLine
  | outOfOrder (phase : HeaderPhase)
  deriving Repr, DecidableEq

namespace Problem

/-- The word for a base other than ten. -/
def baseName : IntBase → String
  | .decimal => "decimal"
  | .hexadecimal => "hexadecimal"
  | .octal => "octal"
  | .binary => "binary"

/-- The order in which the header is to be written, as a rule for one phase. -/
def headerRule : HeaderPhase → String
  | .moduleClause => "'module' clause must come first in the file"
  | .parentClause =>
    "'amends' and 'extends' clauses must come before imports and declarations"
  | .imports => "imports must come before other declarations"
  | .declarations => ""

/-- The advice for a keyword that is meant as a name. -/
def backtickNote : String := "enclose it in backticks to use it as an identifier"

/-- The number in upper-case hexadecimal digits. -/
def upperHex (n : Nat) : String := (String.ofList (Nat.toDigits 16 n)).toUpper

/-- An error with one label. -/
def errorAt (code message : String) (span : Span) (label : String) : Diagnostic where
  severity := .error
  code := code
  message := message
  labels := [⟨span, label, .primary⟩]

/-- A warning with one label. -/
def warningAt (code message : String) (span : Span) (label : String) : Diagnostic where
  severity := .warning
  code := code
  message := message
  labels := [⟨span, label, .primary⟩]

/-- An error in an escape sequence, which also points at the opening quotes of the string. -/
def escapeErrorAt (code message : String) (span : Span) (label : String) (opening : Span) :
    Diagnostic :=
  { errorAt code message span label with
    labels := [⟨span, label, .primary⟩, ⟨opening, "in the string starting here", .secondary⟩] }

/-- The diagnostic that reports the problem at a span. -/
def diagnostic (problem : Problem) (span : Span) : Diagnostic :=
  match problem with
  | unterminatedComment => errorAt "E100" "unterminated block comment" span ""
  | unterminatedQuotedName => errorAt "E100" "unterminated quoted identifier" span "opened here"
  | unterminatedString => errorAt "E100" "unterminated string literal" span "string starts here"
  | invalidEscape shown opening =>
    escapeErrorAt "E101" ("invalid escape sequence '" ++ shown ++ "'") span
      "valid escapes are \\t \\n \\r \\\" \\\\ \\u\x7b...\x7d and \\(...)" opening
  | missingUnicodeBrace opening =>
    escapeErrorAt "E102" "expected '\x7b' after unicode escape" span "" opening
  | wrongUnicodeDigits opening =>
    escapeErrorAt "E102" "unicode escape needs 1 to 6 hex digits in braces" span "" opening
  | invalidScalar value opening =>
    escapeErrorAt "E102" ("invalid unicode scalar value U+" ++ upperHex value) span "" opening
  | missingDigits base letter =>
    errorAt "E103"
      ("expected " ++ baseName base ++ " digits after '0" ++ String.singleton letter ++ "'")
      span "no digits"
  | misplacedUnderscore place =>
    errorAt "E103" (place.name ++ " underscore in number literal") span
      "underscores may only separate digits"
  | malformedNumber text =>
    errorAt "E103" ("malformed number literal '" ++ text ++ "'") span
      "unexpected character in number"
  | strayCharacter c what =>
    { errorAt "E104" ("unexpected character '" ++ String.singleton c ++ "'") span
        ("expected " ++ what) with
      expected := some what }
  | strayDeclarationCharacter c =>
    errorAt "E104" ("unexpected character '" ++ String.singleton c ++ "'") span
      "expected a declaration"
  | unexpected what found =>
    { errorAt "E200" ("expected " ++ what ++ ", found " ++ found) span ("expected " ++ what) with
      expected := some what }
  | unclosedInterpolation =>
    { errorAt "E200" "expected ')' to close string interpolation" span
        "interpolation opened earlier" with
      expected := some "')'" }
  | interpolatedSource keyword =>
    { errorAt "E200" ("'" ++ keyword ++ "' needs a constant string") span
        "interpolation is not allowed here" with
      expected := some "a constant string" }
  | unclosedClassBody =>
    { errorAt "E200" "expected '\x7d' to close class body" span "class body opened here" with
      expected := some "'\x7d'" }
  | unclosedObjectBody =>
    { errorAt "E200" "expected '\x7d' to close object body" span "unclosed '\x7b'" with
      expected := some "'\x7d'" }
  | interpolatedType =>
    { errorAt "E200" "string literal types cannot contain interpolation" span "" with
      expected := some "a constant string" }
  | unexpectedDeclaration found =>
    { errorAt "E201" ("unexpected " ++ found ++ " at module level") span
        "expected a declaration" with
      expected := some "a declaration" }
  | keywordAsName name what =>
    { errorAt "E202" ("keyword '" ++ name ++ "' cannot be used as " ++ what) span
        "reserved keyword" with
      notes := [backtickNote] }
  | keywordInExpression name =>
    { errorAt "E202" ("unexpected keyword '" ++ name ++ "' in expression") span
        "reserved keyword" with
      expected := some "an expression"
      notes := [backtickNote] }
  | emptyProperty name closest =>
    { errorAt "E203"
        ("property '" ++ name ++ "' needs a type annotation, a value or an object body") span
        "empty property declaration" with
      expected := some "':', '=' or '\x7b'"
      suggestions := closest.toList.map fun word => ⟨"did you mean '" ++ word ++ "'?", word⟩ }
  | nestingTooDeep => errorAt "E204" "nesting too deep" span "in the declaration starting here"
  | orphanedDocComment =>
    warningAt "W300" "doc comment is not attached to any declaration" span "orphaned doc comment"
  | conflictingClause keyword =>
    warningAt "W301" "a module cannot both amend and extend another module" span
      ("conflicting '" ++ keyword ++ "' clause")
  | duplicateClause keyword =>
    warningAt "W302" ("duplicate '" ++ keyword ++ "' clause") span "already declared earlier"
  | emptyTypeParameters => warningAt "W303" "empty type parameter list" span "remove '<>'"
  | emptyTypeArguments => warningAt "W303" "empty type argument list" span "remove '<>'"
  | missingIntegerPart text =>
    warningAt "W304" "float literal is missing its integer part" span ("write 0" ++ text)
  | contentOnOpeningLine =>
    warningAt "W305" "multiline string content should start on a new line" span
      "line break expected after this"
  | outOfOrder phase => warningAt "W306" (headerRule phase) span "out of order"

/-- Every problem is reported with its place as the primary label. -/
@[simp] theorem span?_diagnostic (problem : Problem) (span : Span) :
    (problem.diagnostic span).span? = some span := by
  cases problem <;> rfl

end Problem

end PklSyntax
