import PklSyntax.Editor.Item
import PklSyntax.Editor.Range
import PklSyntax.Grammar.Module

/-!
# Documents in an editor

What an editor asks about an open document: what is wrong with it, what is at a location, which
names can be completed, and how the document is structured.

## Main definitions

* `Document`, `Document.notices`.
* `wordAt`, `Document.hover?`: the doc comment of the name at a location.
* `completions`: the names that can be written, with their sorts.
* `Symbol`, `Document.symbols`: the items of a document with their ranges.
-/

namespace PklSyntax

/-- A text that is open in an editor, with the result of parsing it. -/
structure Document where
  source : SourceText
  result : ParseResult

namespace Document

/-- What is wrong with the document. -/
def notices (doc : Document) : List Notice :=
  doc.result.diagnostics.map fun d => d.notice doc.source

/-- The items that a name can mean in the document. -/
def items (doc : Document) : List Item := doc.result.module.declaredItems

end Document

/-! ### Words -/

/-- The longest words of name characters in a line, each with its place, if the line begins at the
place `start`. -/
def wordsFrom (start : Nat) (line : List Char) : List (Nat × String) :=
  match line with
  | [] => []
  | c :: rest =>
    if continuesName c then
      let word := c :: rest.takeWhile continuesName
      (start, String.ofList word) ::
        wordsFrom (start + word.length) (rest.dropWhile continuesName)
    else wordsFrom (start + 1) rest
termination_by line.length
decreasing_by
  · have := (List.dropWhile_sublist continuesName (l := rest)).length_le
    simp only [List.length_cons]
    omega
  · simp

/-- The word of a line that touches a character, either of its ends included. -/
def wordInLine (line : List Char) (character : Int) : Option String :=
  ((wordsFrom 0 line).find? fun (start, word) =>
    decide ((start : Int) ≤ character ∧ character ≤ (start + word.length : Nat))).map Prod.snd

/-- The word at a line and a character, both counted from zero. -/
def SourceText.wordAt (source : SourceText) (line character : Int) : Option String :=
  if line < 0 then none
  else (source.lines[line.toNat]?).bind fun text => wordInLine text.toList character

/-- The text of the doc comment of the item that is named at a location. -/
def Document.hover? (doc : Document) (line character : Int) : Option String := do
  let word ← doc.source.wordAt line character
  let item ← doc.items.find? (·.name == word)
  let comment ← item.doc
  return comment.text

/-! ### Completion -/

/-- The names that can be completed in a document, if one is open: the keywords in the order of the
alphabet, and then the names of the document that are no keywords. -/
def completions (doc? : Option Document) : List (String × ItemKind) :=
  let items := (doc?.map Document.items).getD []
  keywords.map (·, .keyword) ++
    (items.filter fun item => !keywords.contains item.name).map fun item => (item.name, item.kind)

/-! ### Symbols -/

/-- An item with its ranges: of all of it, and of its name. -/
structure SymbolHead where
  name : String
  kind : ItemKind
  range : Range
  selection : Range
  detail : Option String
  deriving Repr, DecidableEq, Inhabited

/-- A top-level item with its members. -/
structure DocumentSymbol where
  head : SymbolHead
  members : List SymbolHead
  deriving Repr, DecidableEq, Inhabited

/-- The parameters of a function as a detail of its symbol; other items have no detail. -/
def Item.detail (item : Item) : Option String :=
  if item.kind = .function then some ("(" ++ ", ".intercalate item.params ++ ")") else none

/-- The symbol of an item. -/
def Item.symbol (item : Item) (source : SourceText) : SymbolHead where
  name := item.name
  kind := item.kind
  range := source.range item.span
  selection := source.range item.nameSpan
  detail := item.detail

/-- The symbol of a declaration, if it has one. Imports have none. -/
def Declaration.symbol? (decl : Declaration) (source : SourceText) : Option DocumentSymbol := do
  let item ← decl.item?
  if item.kind = .importAlias then none
  else some ⟨item.symbol source, decl.members.map fun member => member.item.symbol source⟩

/-- The symbols of a document, in the order of the text. -/
def Document.symbols (doc : Document) : List DocumentSymbol :=
  doc.result.module.declarations.filterMap fun decl => decl.symbol? doc.source

end PklSyntax
