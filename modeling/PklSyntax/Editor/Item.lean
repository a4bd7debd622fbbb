import PklSyntax.Tree.Basic

/-!
# Named items

What a module gives a name to: itself, its classes with their members, its type aliases, functions
and properties, and what it imports under an alias.

## Main definitions

* `ItemKind`, `Item`: a named thing with the part of the text that declares it.
* `ClassMember.item`, `Declaration.item?`, `Declaration.items`.
* `Module.declaredItems`: the items that a name can mean, each name once.

## Main statements

* `nodup_declaredItems`: the names are distinct.
-/

namespace PklSyntax

/-- The sorts of things that have a name. -/
inductive ItemKind where
  | keyword
  | module
  | importAlias
  | classDecl
  | typeAlias
  | function
  | property
  deriving Repr, DecidableEq, Inhabited

/-- A thing that a module gives a name to. `params` are the names of the parameters of a
function. -/
structure Item where
  kind : ItemKind
  name : String
  nameSpan : Span
  span : Span
  doc : Option DocComment
  params : List String := []
  deriving Repr, DecidableEq, Inhabited

namespace PropertyDecl

/-- The item that a property is. -/
def item (decl : PropertyDecl) : Item where
  kind := .property
  name := decl.name.name
  nameSpan := decl.name.span
  span := decl.span
  doc := decl.doc

end PropertyDecl

namespace FunctionDecl

/-- The item that a function is. -/
def item (decl : FunctionDecl) : Item where
  kind := .function
  name := decl.name.name
  nameSpan := decl.name.span
  span := decl.span
  doc := decl.doc
  params := decl.params.map fun param => param.name.name

end FunctionDecl

/-- The item that a member of a class is. -/
def ClassMember.item : ClassMember → Item
  | property decl => decl.item
  | function decl => decl.item

namespace Declaration

/-- The item that a declaration is. An import is one under its alias only. -/
def item? : Declaration → Option Item
  | moduleClause clause =>
    some ⟨.module, clause.name.name, clause.name.span, clause.span, clause.doc, []⟩
  | importDecl decl =>
    decl.localName.map fun name => ⟨.importAlias, name.name, name.span, decl.span, decl.doc, []⟩
  | typeAlias decl =>
    some ⟨.typeAlias, decl.name.name, decl.name.span, decl.span, decl.doc, []⟩
  | classDecl decl => some ⟨.classDecl, decl.name.name, decl.name.span, decl.span, decl.doc, []⟩
  | function decl => some decl.item
  | property decl => some decl.item
  | extendsClause _ | amendsClause _ => none

/-- The members of a class; a declaration of another sort has none. -/
def members : Declaration → List ClassMember
  | classDecl decl => decl.body.getD []
  | _ => []

/-- The items that a declaration brings: itself, unless its name is empty, and the members of a
class. -/
def items (decl : Declaration) : List Item :=
  (decl.item?.filter fun item => !item.name.isEmpty).toList ++ decl.members.map ClassMember.item

end Declaration

/-- The items with one more, unless its name is there already. -/
def addDistinct (found : List Item) (item : Item) : List Item :=
  if found.any (·.name == item.name) then found else found ++ [item]

/-- The items that a name can mean, in the order of the text: of several with one name, the
first. -/
def Module.declaredItems (tree : Module) : List Item :=
  (tree.declarations.flatMap Declaration.items).foldl addDistinct []

theorem nodup_addDistinct {found : List Item} (h : (found.map Item.name).Nodup) (item : Item) :
    ((addDistinct found item).map Item.name).Nodup := by
  unfold addDistinct
  split
  · exact h
  next hnew =>
    simp only [List.any_eq_true, beq_iff_eq, not_exists, not_and] at hnew
    simp only [List.map_append, List.map_cons, List.map_nil]
    refine List.nodup_append.2 ⟨h, by simp, ?_⟩
    intro a ha b hb
    obtain ⟨x, hx, rfl⟩ := List.mem_map.1 ha
    rw [List.mem_singleton.1 hb]
    exact hnew x hx

theorem nodup_foldl_addDistinct (items : List Item) {found : List Item}
    (h : (found.map Item.name).Nodup) : ((items.foldl addDistinct found).map Item.name).Nodup := by
  induction items generalizing found with
  | nil => exact h
  | cons item rest ih => exact ih (nodup_addDistinct h item)

/-- No name stands for two items. -/
theorem nodup_declaredItems (tree : Module) : (tree.declaredItems.map Item.name).Nodup :=
  nodup_foldl_addDistinct _ List.nodup_nil

end PklSyntax
