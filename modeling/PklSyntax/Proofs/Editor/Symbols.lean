import PklSyntax.Editor.Document
import PklSyntax.Proofs.Editor.Range
import PklSyntax.Proofs.Layout.Module

/-!
# How the symbols of a document lie

An editor shows the symbols of a document as an outline, and rejects a symbol whose name lies
outside its range. The spans of the tree settle how symbols lie: the name of a declaration is among
its children, the members of a class are among the children of the class, and positions keep the
order of offsets. This holds for any text, also where declarations were given up.

## Main definitions

* `Declaration.isListed`: the declaration has a symbol.
* `SymbolHead.Placed`: the range of a name lies in the range of what it names.
* `DocumentSymbol.Nested`: the members of a symbol lie in it, one behind the other.

## Main statements

* `symbols_of_declarations`: the symbols of a document, declaration by declaration.
* `symbols_nested`: how the symbols of any text lie.
-/

namespace PklSyntax

variable {source : SourceText} {decl : Declaration} {member : ClassMember}

/-! ### Declarations with a symbol -/

namespace Declaration

/-- The declaration has a symbol: it is no import, and no clause that extends or amends. -/
def isListed : Declaration → Bool
  | importDecl _ | extendsClause _ | amendsClause _ => false
  | moduleClause _ | typeAlias _ | classDecl _ | function _ | property _ => true

/-- The symbol has the name, the kind and the ranges of the declaration and of its name, and the
members of the declaration in their order. -/
structure ShownBy (source : SourceText) (decl : Declaration) (symbol : DocumentSymbol) :
    Prop where
  head : ∃ item, decl.item? = some item ∧ symbol.head = item.symbol source
  range : symbol.head.range = source.range decl.span
  members : symbol.members = decl.members.map fun member => member.item.symbol source

theorem span_item? {item : Item} (h : decl.item? = some item) : item.span = decl.span := by
  cases decl with
  | importDecl decl =>
    obtain ⟨name, -, rfl⟩ := Option.map_eq_some_iff.1 h
    rfl
  | extendsClause _ | amendsClause _ => cases h
  | moduleClause _ | typeAlias _ | classDecl _ | function _ | property _ =>
    obtain rfl := Option.some.inj h
    rfl

theorem isSome_symbol? (source : SourceText) (decl : Declaration) :
    (decl.symbol? source).isSome = decl.isListed := by
  cases decl with
  | importDecl decl => cases hname : decl.localName <;> simp [symbol?, item?, isListed, hname]
  | extendsClause _ | amendsClause _ | moduleClause _ | typeAlias _ | classDecl _ | function _
  | property _ => rfl

theorem shownBy_of_symbol? {symbol : DocumentSymbol} (h : decl.symbol? source = some symbol) :
    decl.ShownBy source symbol := by
  obtain ⟨item, hitem, hsymbol⟩ := Option.bind_eq_some_iff.1 h
  split at hsymbol
  · cases hsymbol
  · obtain rfl := Option.some.inj hsymbol
    exact ⟨⟨item, hitem, rfl⟩, congrArg source.range (span_item? hitem), rfl⟩

end Declaration

/-- The symbols of some declarations, declaration by declaration. -/
theorem shownBy_filterMap_symbol? (source : SourceText) (decls : List Declaration) :
    List.Forall₂ (Declaration.ShownBy source) (decls.filter Declaration.isListed)
      (decls.filterMap fun decl => decl.symbol? source) := by
  induction decls with
  | nil => exact .nil
  | cons decl decls ih =>
    have hlisted := decl.isSome_symbol? source
    cases hsymbol : decl.symbol? source with
    | some symbol =>
      rw [hsymbol] at hlisted
      rw [List.filter_cons_of_pos hlisted.symm, List.filterMap_cons, hsymbol]
      exact .cons (Declaration.shownBy_of_symbol? hsymbol) ih
    | none =>
      rw [hsymbol] at hlisted
      rw [List.filter_cons_of_neg (by simp [← hlisted]), List.filterMap_cons, hsymbol]
      exact ih

/-! ### Where names and members lie -/

/-- The name of an item is a child of the declaration that the item is. -/
theorem Declaration.exists_name_child {item : Item} (h : decl.item? = some item) :
    ∃ child ∈ (Node.ofDeclaration decl).children,
      child.kind ≠ .module ∧ child.span = item.nameSpan := by
  cases decl with
  | importDecl decl =>
    obtain ⟨name, hname, rfl⟩ := Option.map_eq_some_iff.1 h
    exact ⟨.identifier name, by simp [Node.ofDeclaration, Node.children, Node.fields,
      ImportDecl.fields, hname, FieldValue.ofOption], by rintro ⟨⟩, rfl⟩
  | extendsClause _ | amendsClause _ => cases h
  | moduleClause clause =>
    obtain rfl := Option.some.inj h
    exact ⟨.namedType clause.name, by simp [Node.ofDeclaration, Node.children, Node.fields,
      ModuleClause.fields], by rintro ⟨⟩, rfl⟩
  | typeAlias decl =>
    obtain rfl := Option.some.inj h
    exact ⟨.identifier decl.name, by simp [Node.ofDeclaration, Node.children, Node.fields,
      TypeAliasDecl.fields], by rintro ⟨⟩, rfl⟩
  | classDecl decl =>
    obtain rfl := Option.some.inj h
    exact ⟨.identifier decl.name, by simp [Node.ofDeclaration, Node.children, Node.fields,
      ClassDecl.fields], by rintro ⟨⟩, rfl⟩
  | function decl =>
    obtain rfl := Option.some.inj h
    exact ⟨.identifier decl.name, by simp [Node.ofDeclaration, Node.children, Node.fields,
      FunctionDecl.fields], by rintro ⟨⟩, rfl⟩
  | property decl =>
    obtain rfl := Option.some.inj h
    exact ⟨.identifier decl.name, by simp [Node.ofDeclaration, Node.children, Node.fields,
      PropertyDecl.fields], by rintro ⟨⟩, rfl⟩

theorem ClassMember.exists_name_child (member : ClassMember) :
    ∃ child ∈ (Node.ofClassMember member).children,
      child.kind ≠ .module ∧ child.span = member.item.nameSpan := by
  cases member with
  | property decl => exact @Declaration.exists_name_child (.property decl) _ rfl
  | function decl => exact @Declaration.exists_name_child (.function decl) _ rfl

theorem ClassMember.span_item (member : ClassMember) : member.item.span = member.span := by
  cases member <;> rfl

/-- Where a declaration has members it is a class. -/
theorem Declaration.members_eq_nil_or (decl : Declaration) :
    decl.members = [] ∨ ∃ c, decl = .classDecl c ∧ c.body = some decl.members := by
  cases decl with
  | classDecl c =>
    cases hbody : c.body with
    | none => exact .inl (by rw [members, hbody]; rfl)
    | some members => exact .inr ⟨c, rfl, by rw [Declaration.members, hbody]; rfl⟩
  | _ => exact .inl rfl

theorem Declaration.ofClassMember_mem_children (h : member ∈ decl.members) :
    Node.ofClassMember member ∈ (Node.ofDeclaration decl).children := by
  rcases decl.members_eq_nil_or with hnil | ⟨c, rfl, hbody⟩
  · rw [hnil] at h
    cases h
  · exact List.mem_flatMap.2 ⟨⟨"body", .ofList .ofClassMember (classDecl c).members⟩,
      by simp [Node.ofDeclaration, Node.fields, ClassDecl.fields, hbody, FieldValue.ofOptionList],
      by simpa using ⟨member, h, rfl⟩⟩

/-! ### Symbols -/

/-- Neither the range of the name nor the range of what it names is empty, and the first lies in
the second. -/
structure SymbolHead.Placed (head : SymbolHead) : Prop where
  range : head.range.Proper
  selection : head.selection.Proper
  within : head.selection.Within head.range

/-- The symbol and its members are placed, and the members lie in the symbol, one behind the
other. -/
structure DocumentSymbol.Nested (symbol : DocumentSymbol) : Prop where
  head : symbol.head.Placed
  members : ∀ member ∈ symbol.members, member.Placed ∧ member.range.Within symbol.head.range
  apart : symbol.members.Pairwise fun a b => a.range.Before b.range

/-- The symbol of an item is placed when the name of the item is a child of the node that the item
is, the child lies in the node, the node in the text, and neither of the two is empty. -/
theorem placed_symbol {item : Item} {n child : Node} (hitem : item.span = n.span)
    (hname : child.span = item.nameSpan) (hwithin : child.span.Within n.span)
    (hstart : 0 ≤ n.span.start) (hstop : n.span.stop ≤ source.chars.size)
    (hchild : child.span.start < child.span.stop) : (item.symbol source).Placed := by
  obtain ⟨hlo, hhi⟩ := hwithin
  refine ⟨?_, ?_, ?_⟩
  · rw [Item.symbol, hitem]
    exact SourceText.proper_range hstart (by omega) hstop
  · rw [Item.symbol, ← hname]
    exact SourceText.proper_range (by omega) hchild (by omega)
  · rw [Item.symbol, hitem, ← hname]
    exact Span.Within.range ⟨hlo, hhi⟩ source

section Parsed

variable {text filename : String} {options : Options}

/-- An item has a placed symbol when it is a node of the tree of a text with the name among the
children of the node. -/
theorem placed_of_mem_walk {item : Item} {n : Node}
    (hn : n ∈ (Node.module (parse text filename options).module).walk)
    (hitem : item.span = n.span)
    (hname : ∃ child ∈ n.children, child.kind ≠ .module ∧ child.span = item.nameSpan) :
    (item.symbol (.ofString text filename)).Placed := by
  have hsize : ((SourceText.ofString text filename).chars.size : Int) = text.length := by
    rw [← String.length_toList]
    rfl
  obtain ⟨child, hchild, hkind, hspan⟩ := hname
  obtain ⟨hstart, -, hstop, -, htidy⟩ := parse_tidy hn
  exact placed_symbol hitem hspan (htidy.within child hchild) hstart (hsize ▸ hstop)
    ((parse_tidy (Node.mem_walk_child hn hchild)).2.2.2.1 hkind)

theorem ofDeclaration_mem_walk {m : Module} (h : decl ∈ m.declarations) :
    Node.ofDeclaration decl ∈ (Node.module m).walk :=
  Node.mem_walk_child (Node.mem_walk_self _)
    (by simpa [Node.children, Node.fields] using ⟨decl, h, rfl⟩)

/-- A member of a declaration of a text is placed, and lies in the range of the declaration. -/
theorem placed_member (hdecl : decl ∈ (parse text filename options).module.declarations)
    (hmember : member ∈ decl.members) :
    (member.item.symbol (.ofString text filename)).Placed ∧
      (member.item.symbol (.ofString text filename)).range.Within
        ((SourceText.ofString text filename).range decl.span) := by
  have hwalk := ofDeclaration_mem_walk hdecl
  have hchild := Declaration.ofClassMember_mem_children hmember
  have hspan : member.item.span = (Node.ofClassMember member).span :=
    member.span_item.trans (span_ofClassMember member).symm
  refine ⟨placed_of_mem_walk (Node.mem_walk_child hwalk hchild) hspan member.exists_name_child, ?_⟩
  have hwithin := (parse_tidy hwalk).2.2.2.2.within _ hchild
  rw [Item.symbol, hspan, ← span_ofDeclaration]
  exact hwithin.range _

theorem nested_of_symbol? {symbol : DocumentSymbol}
    (hdecl : decl ∈ (parse text filename options).module.declarations)
    (hsymbol : decl.symbol? (.ofString text filename) = some symbol) : symbol.Nested := by
  obtain ⟨⟨item, hitem, hhead⟩, hrange, hmembers⟩ := Declaration.shownBy_of_symbol? hsymbol
  refine ⟨?_, ?_, ?_⟩
  · rw [hhead]
    exact placed_of_mem_walk (ofDeclaration_mem_walk hdecl)
      ((Declaration.span_item? hitem).trans (span_ofDeclaration decl).symm)
      (Declaration.exists_name_child hitem)
  · rw [hmembers, hrange]
    intro head hhead
    obtain ⟨member, hmember, rfl⟩ := List.mem_map.1 hhead
    exact placed_member hdecl hmember
  · rcases decl.members_eq_nil_or with hnil | ⟨c, rfl, hbody⟩
    · rw [hmembers, hnil]
      exact .nil
    · rw [hmembers, List.pairwise_map]
      refine (parse_members_pairwise (ofDeclaration_mem_walk hdecl) hbody).imp fun {a b} hbefore => ?_
      rw [← a.span_item, ← b.span_item] at hbefore
      exact hbefore.range _

end Parsed

/-- How the symbols of any text lie. The declarations but imports and clauses that extend or amend
have one symbol each, in the order of the text, with the ranges of the declaration and of its name,
and with the members of a class as its members. Every name lies in the range of what it names,
members lie in the range of their class, and symbols that stand side by side do not overlap. -/
theorem symbols_nested (text filename : String) (options : Options) :
    let doc : Document := ⟨.ofString text filename, parse text filename options⟩
    List.Forall₂ (Declaration.ShownBy doc.source)
      (doc.result.module.declarations.filter Declaration.isListed) doc.symbols ∧
    (∀ symbol ∈ doc.symbols, symbol.Nested) ∧
    doc.symbols.Pairwise fun a b => a.head.range.Before b.head.range := by
  intro doc
  refine ⟨shownBy_filterMap_symbol? doc.source _, fun symbol hsymbol => ?_, ?_⟩
  · obtain ⟨decl, hdecl, hsymbol⟩ := List.mem_filterMap.1 hsymbol
    exact nested_of_symbol? hdecl hsymbol
  · rw [Document.symbols, List.pairwise_filterMap]
    refine parse_declarations_pairwise.imp fun {a b} hbefore symbol hsymbol symbol' hsymbol' => ?_
    rw [(Declaration.shownBy_of_symbol? hsymbol).range,
      (Declaration.shownBy_of_symbol? hsymbol').range]
    exact hbefore.range doc.source

end PklSyntax
