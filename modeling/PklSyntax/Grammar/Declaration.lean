import PklSyntax.Grammar.Expression

/-!
# Declarations

A declaration begins with what may stand before any declaration: a doc comment, annotations and
modifiers, in this order. A keyword, or the name of a property, then decides which it is.

## Main definitions

* `Preamble`, `Grammar.preamble`: what stands in front of a declaration.
* `Grammar.propertyRule`, `Grammar.functionRule`: also the members of objects and of classes.
* `Grammar.classRule`, `Grammar.typeAliasRule`, `Grammar.importRule`, and so on.
* `Grammar.declarationRule`: a declaration of a module.
-/

namespace PklSyntax

/-- What stands in front of a declaration, with the offset at which the declaration begins. -/
structure Preamble where
  start : Int
  doc : Option DocComment
  annotations : List Annotation
  modifiers : Modifiers

namespace Parser

/-! ### Modifiers -/

/-- The first modifier of the list that stands at the cursor. -/
def firstModifier? : List Modifier → Parser (Option Modifier)
  | [] => return none
  | m :: others => do
    if ← atWord m.keyword then return some m else firstModifier? others

/-- The modifiers at the cursor, with the trivia behind them. -/
def modifiers : Parser Modifiers :=
  repeating (fun (found : Modifiers) => do
    skip
    match ← firstModifier? Modifier.all with
    | some m =>
      advance m.keyword.length
      return .next (found.insert m)
    | none => return .done found) .empty

/-- The variance in front of a type parameter, with the word for it taken. -/
def variance : Parser Variance := do
  if ← atWord "in" then
    advance 2
    return .contravariant
  else if ← atWord "out" then
    advance 3
    return .covariant
  else return .plain

end Parser

namespace Grammar

open PklSyntax.Parser

variable (g : Grammar)

/-! ### In front of a declaration -/

/-- The annotation at the cursor. -/
def annotationRule : Parser Annotation := do
  let start ← position
  advance 1
  let name ← qualifiedName "an annotation name"
  let body ← if ← atToken "\x7b" then some <$> g.body else pure none
  return ⟨name, body, ⟨start, (body.map ObjectBody.span).elim name.span.stop Span.stop⟩⟩

/-- The annotations at the cursor. -/
def annotationRules : Parser (List Annotation) := do
  let annotations ← repeating (fun (annotations : Array Annotation) => do
    if ← atToken "@" then return .next (annotations.push (← g.annotationRule))
    else return .done annotations) #[]
  return annotations.toList

/-- What stands in front of the declaration at the cursor. A doc comment belongs to the
declaration and begins it. -/
def preamble : Parser Preamble := do
  let start ← position
  let doc ← takeDoc
  let annotations ← g.annotationRules
  let modifiers ← modifiers
  skip
  return ⟨(doc.map DocComment.span).elim start Span.start, doc, annotations, modifiers⟩

/-! ### Type parameters -/

/-- A type parameter. -/
def typeParameter : Parser TypeParameter := do
  skip
  let start ← position
  let variance ← variance
  let type ← g.type
  return ⟨variance, type, ⟨start, type.span.stop⟩⟩

/-- The type parameters behind a name, with the offset behind them, which is `stop` when there are
none. An empty list is a warning. -/
def typeParameters (stop : Int) : Parser (List TypeParameter × Int) := do
  match ← accept? "<" with
  | none => return ([], stop)
  | some opening =>
    match ← accept? ">" with
    | some close =>
      report .emptyTypeParameters (opening.cover close)
      return ([], close.stop)
    | none =>
      let first ← g.typeParameter
      let parameters ← repeating (fun (parameters : Array TypeParameter) => do
        if ← accept "," then return .next (parameters.push (← g.typeParameter))
        else return .done parameters) #[first]
      let close ← expect ">"
      return (parameters.toList, close.stop)

/-! ### Properties and functions -/

/-- Object bodies that stand as a value. -/
def objectForm : Parser ObjectForm := do
  let first ← g.body
  let bodies ← g.moreBodies first
  return ⟨bodies.toList, ⟨first.span.start, (bodies.back?.getD first).span.stop⟩⟩

/-- What follows the name of a property, which may not be nothing. -/
def propertyForm (name : Identifier) : Parser PropertyForm := do
  if ← atToken "\x7b" then return .object (← g.objectForm)
  let type? ← if ← accept ":" then some <$> g.type else pure none
  if ← atAssign then
    advance 1
    let value ← g.expr
    let start := (type?.map TypeExpr.span).elim value.span.start Span.start
    return .init type? value ⟨start, value.span.stop⟩
  else match type? with
    | some type => return .typeOnly type type.span
    | none => failWith (.emptyProperty name.name (suggestedKeyword? name.name)) name.span

/-- The property whose name is at the cursor. -/
def propertyRule (before : Preamble) : Parser PropertyDecl := do
  let name ← expectName "a property name"
  let form ← g.propertyForm name
  return {
    modifiers := before.modifiers
    name := name
    form := form
    doc := before.doc
    annotations := before.annotations
    span := ⟨before.start, form.span.stop⟩ }

/-- The function whose keyword is at the cursor. -/
def functionRule (before : Preamble) : Parser FunctionDecl := do
  advance "function".length
  let name ← expectName "a function name"
  let (typeParams, _) ← g.typeParameters name.span.stop
  let (params, stop) ← g.params
  let result ← if ← accept ":" then some <$> g.type else pure none
  let hasBody ← atAssign
  if hasBody then advance 1
  let body ← if hasBody then some <$> g.expr else pure none
  let stop := (result.map TypeExpr.span).elim stop Span.stop
  return {
    modifiers := before.modifiers
    name := name
    typeParams := typeParams
    params := params
    result := result
    body := body
    doc := before.doc
    annotations := before.annotations
    span := ⟨before.start, (body.map Expr.span).elim stop Span.stop⟩ }

/-! ### Classes -/

/-- A member of a class. -/
def classMember : Parser ClassMember := do
  let before ← g.preamble
  if ← atWord "function" then return .function (← g.functionRule before)
  else if ← atIdentifier then return .property (← g.propertyRule before)
  else failExpected "a property or method"

/-- The change that a character makes to the depth of braces. -/
def braceDepth (depth : Int) (c : Char) : Int :=
  if c == '\x7b' then depth + 1 else if c == '\x7d' then depth - 1 else depth

/-- The offset at which the members of a class go on after one was given up: the start of the next
line or the closing brace, both outside of braces. -/
def memberRestart (text : Array Char) (start i : Nat) (depth : Nat) : Nat :=
  if h : i < text.size then
    let c := text[i]
    if c == '\x7b' then memberRestart text start (i + 1) (depth + 1)
    else if c == '\x7d' then
      if depth = 0 then i else memberRestart text start (i + 1) (depth - 1)
    else if c == '\n' && depth == 0 && start < i then i + 1
    else memberRestart text start (i + 1) depth
  else i
termination_by text.size - i

/-- Moves to where the members of a class go on after the one that began at `start` was given
up. -/
def skipMember (start : Nat) : Parser Unit := do
  let text ← theText
  let pos ← position
  let depth := (text.extract start pos).foldl braceDepth 0
  moveTo (memberRestart text start pos depth.toNat)

/-- The body of a class, with the offset behind it. A member that fails is left out, unless there
are errors enough. -/
def classBody : Parser (List ClassMember × Int) := do
  let opening ← expect "\x7b"
  let members ← repeating (fun (members : Array ClassMember) => do
    skip
    if ← atEnd then failWith .unclosedClassBody opening
    if (← peek) == '\x7d' then
      advance 1
      return .done members
    let start ← position
    match ← attempt g.classMember with
    | some member => return .next (members.push member)
    | none =>
      if ← limitReached then throw .failed
      skipMember start
      return .next members) #[]
  return (members.toList, ← position)

/-- The class whose keyword is at the cursor. -/
def classRule (before : Preamble) : Parser ClassDecl := do
  advance "class".length
  let name ← expectName "a class name"
  let (typeParams, stop) ← g.typeParameters name.span.stop
  let parent ← if ← acceptKeyword "extends" then some <$> g.type else pure none
  let body ← if ← atToken "\x7b" then some <$> g.classBody else pure none
  let stop := (parent.map TypeExpr.span).elim stop Span.stop
  return {
    modifiers := before.modifiers
    name := name
    typeParams := typeParams
    parent := parent
    body := body.map Prod.fst
    doc := before.doc
    annotations := before.annotations
    span := ⟨before.start, body.elim stop Prod.snd⟩ }

/-! ### Clauses of a module -/

/-- The clause that names the module. -/
def moduleClauseRule (before : Preamble) : Parser ModuleClause := do
  advance "module".length
  skip
  let name ← qualifiedName "a module name"
  return ⟨before.modifiers, name, before.doc, before.annotations, ⟨before.start, name.span.stop⟩⟩

/-- The import whose keyword is at the cursor. -/
def importRule (before : Preamble) : Parser ImportDecl := do
  advance "import".length
  let globbed := (← peek) == '*'
  if globbed then advance 1
  let source ← g.sourceString (if globbed then "import*" else "import")
  let localName ←
    if ← acceptKeyword "as" then some <$> expectName "an import alias" else pure none
  return {
    source := source.constantValue
    globbed := globbed
    localName
    doc := before.doc
    annotations := before.annotations
    span := ⟨before.start, (localName.map Identifier.span).elim source.span.stop Span.stop⟩ }

/-- The clause that names the module to extend. -/
def extendsRule (before : Preamble) : Parser ExtendsClause := do
  advance "extends".length
  let source ← g.sourceString "extends"
  return ⟨source.constantValue, before.doc, before.annotations, ⟨before.start, source.span.stop⟩⟩

/-- The clause that names the module to amend. -/
def amendsRule (before : Preamble) : Parser AmendsClause := do
  advance "amends".length
  let source ← g.sourceString "amends"
  return ⟨source.constantValue, before.doc, before.annotations, ⟨before.start, source.span.stop⟩⟩

/-- The type alias whose keyword is at the cursor. -/
def typeAliasRule (before : Preamble) : Parser TypeAliasDecl := do
  advance "typealias".length
  let name ← expectName "a type alias name"
  let (typeParams, _) ← g.typeParameters name.span.stop
  let _ ← expect "="
  let aliased ← g.type
  return {
    modifiers := before.modifiers
    name := name
    typeParams := typeParams
    aliased := aliased
    doc := before.doc
    annotations := before.annotations
    span := ⟨before.start, aliased.span.stop⟩ }

/-! ### Declarations -/

/-- Fails because no declaration stands at the cursor. -/
def failDeclaration : Parser Declaration := do
  let c ← peek
  if ← atEnd then failExpected "a declaration"
  else if isStray c then failWith (.strayDeclarationCharacter c) (← here)
  else failWith (.unexpectedDeclaration (← describeCurrent)) (← here)

/-- A declaration of a module. -/
def declarationRule : Parser Declaration := do
  let before ← g.preamble
  if ← atWord "module" then return .moduleClause (← moduleClauseRule before)
  else if ← atWord "import" then return .importDecl (← g.importRule before)
  else if ← atWord "extends" then return .extendsClause (← g.extendsRule before)
  else if ← atWord "amends" then return .amendsClause (← g.amendsRule before)
  else if ← atWord "typealias" then return .typeAlias (← g.typeAliasRule before)
  else if ← atWord "class" then return .classDecl (← g.classRule before)
  else if ← atWord "function" then return .function (← g.functionRule before)
  else if ← atIdentifier then return .property (← g.propertyRule before)
  else failDeclaration

end Grammar

end PklSyntax
