import Mathlib.Data.List.Nodup
import PklSyntax.Proofs.Editor.Hover
import PklSyntax.Proofs.Editor.Symbols

/-!
# Completing names

An editor is offered the keywords and the names that a module declares, each once. Names are kept
apart twice: a name means the first item that bears it, and a keyword is offered as a keyword also
where an item between backticks bears it. Nothing gets lost on either occasion.

What a module declares is told by cases of its declarations, and which of two things comes first by
where they lie in the text.

## Main definitions

* `Module.Declares`: the module declares something under a name.
* `Span.Ahead`: the order of the text, in which a class comes in front of its members.
* `Module.DeclaresFirst`: the first of what the module declares under a name.

## Main statements

* `parse_items_pairwise`: the items of any text stand in the order of the text.
* `completions_complete`: what is offered.
-/

namespace PklSyntax

/-! ### What a module declares -/

/-- The module declares something of this sort and with this span under the name. A declaration
with an empty name declares nothing; a member of a class declares its name, whatever it is. -/
inductive Module.Declares (tree : Module) : String → ItemKind → Span → Prop
  | moduleClause {clause : ModuleClause} (hdecl : .moduleClause clause ∈ tree.declarations)
      (hname : clause.name.name ≠ "") : tree.Declares clause.name.name .module clause.span
  | importAlias {decl : ImportDecl} {name : Identifier}
      (hdecl : .importDecl decl ∈ tree.declarations) (hlocal : decl.localName = some name)
      (hname : name.name ≠ "") : tree.Declares name.name .importAlias decl.span
  | typeAlias {decl : TypeAliasDecl} (hdecl : .typeAlias decl ∈ tree.declarations)
      (hname : decl.name.name ≠ "") : tree.Declares decl.name.name .typeAlias decl.span
  | classDecl {decl : ClassDecl} (hdecl : .classDecl decl ∈ tree.declarations)
      (hname : decl.name.name ≠ "") : tree.Declares decl.name.name .classDecl decl.span
  | function {decl : FunctionDecl} (hdecl : .function decl ∈ tree.declarations)
      (hname : decl.name.name ≠ "") : tree.Declares decl.name.name .function decl.span
  | property {decl : PropertyDecl} (hdecl : .property decl ∈ tree.declarations)
      (hname : decl.name.name ≠ "") : tree.Declares decl.name.name .property decl.span
  | memberFunction {c : ClassDecl} {members : List ClassMember} {decl : FunctionDecl}
      (hclass : .classDecl c ∈ tree.declarations) (hbody : c.body = some members)
      (hmember : .function decl ∈ members) : tree.Declares decl.name.name .function decl.span
  | memberProperty {c : ClassDecl} {members : List ClassMember} {decl : PropertyDecl}
      (hclass : .classDecl c ∈ tree.declarations) (hbody : c.body = some members)
      (hmember : .property decl ∈ members) : tree.Declares decl.name.name .property decl.span

/-- The span begins in front of the other, or it begins at the same place and reaches further. -/
def Span.Ahead (a b : Span) : Prop := a.start < b.start ∨ a.start = b.start ∧ b.stop < a.stop

/-- Something of this sort is the first in the text of all that the module declares under the
name. -/
def Module.DeclaresFirst (tree : Module) (word : String) (kind : ItemKind) : Prop :=
  ∃ span, tree.Declares word kind span ∧ ∀ kind' span', tree.Declares word kind' span' →
    (kind', span') = (kind, span) ∨ span.Ahead span'

theorem Span.Ahead.asymm {a b : Span} (h : a.Ahead b) : ¬b.Ahead a := by
  rcases h with h | h <;> rintro (h' | h') <;> omega

theorem Span.Before.ahead {a b : Span} (h : a.Before b) (ha : a.start < a.stop) : a.Ahead b :=
  .inl (Int.lt_of_lt_of_le ha h)

variable {decl : Declaration} {member : ClassMember} {item : Item} {tree : Module}

/-! ### Items -/

theorem Declaration.mem_items_iff :
    item ∈ decl.items ↔
      decl.item? = some item ∧ item.name ≠ "" ∨ ∃ member ∈ decl.members, member.item = item := by
  rw [items, List.mem_append, Option.mem_toList, Option.filter_eq_some_iff, List.mem_map]
  simp

theorem ClassMember.declares {c : ClassDecl} {members : List ClassMember}
    (hclass : .classDecl c ∈ tree.declarations) (hbody : c.body = some members)
    (hmember : member ∈ members) :
    tree.Declares member.item.name member.item.kind member.item.span := by
  cases member with
  | property decl => exact .memberProperty hclass hbody hmember
  | function decl => exact .memberFunction hclass hbody hmember

theorem Declaration.declares_of_item? (hdecl : decl ∈ tree.declarations)
    (hitem : decl.item? = some item) (hname : item.name ≠ "") :
    tree.Declares item.name item.kind item.span := by
  cases decl with
  | moduleClause clause =>
    obtain rfl := Option.some.inj hitem
    exact .moduleClause hdecl hname
  | importDecl decl =>
    obtain ⟨name, hlocal, rfl⟩ := Option.map_eq_some_iff.1 hitem
    exact .importAlias hdecl hlocal hname
  | typeAlias decl =>
    obtain rfl := Option.some.inj hitem
    exact .typeAlias hdecl hname
  | classDecl decl =>
    obtain rfl := Option.some.inj hitem
    exact .classDecl hdecl hname
  | function decl =>
    obtain rfl := Option.some.inj hitem
    exact .function hdecl hname
  | property decl =>
    obtain rfl := Option.some.inj hitem
    exact .property hdecl hname
  | extendsClause _ | amendsClause _ => cases hitem

/-- What a module declares is what its items tell. -/
theorem Module.declares_iff {word : String} {kind : ItemKind} {span : Span} :
    tree.Declares word kind span ↔ ∃ item ∈ tree.declarations.flatMap Declaration.items,
      item.name = word ∧ item.kind = kind ∧ item.span = span := by
  constructor
  · intro h
    have hown {decl : Declaration} {item : Item} (hdecl : decl ∈ tree.declarations)
        (hitem : decl.item? = some item) (hname : item.name ≠ "") :
        item ∈ tree.declarations.flatMap Declaration.items :=
      List.mem_flatMap.2 ⟨decl, hdecl, Declaration.mem_items_iff.2 (.inl ⟨hitem, hname⟩)⟩
    have hmem {c : ClassDecl} {members : List ClassMember} {member : ClassMember}
        (hclass : .classDecl c ∈ tree.declarations) (hbody : c.body = some members)
        (hmember : member ∈ members) :
        member.item ∈ tree.declarations.flatMap Declaration.items := by
      refine List.mem_flatMap.2 ⟨_, hclass, Declaration.mem_items_iff.2 (.inr ⟨member, ?_, rfl⟩)⟩
      rw [Declaration.members, hbody]
      exact hmember
    cases h with
    | moduleClause hdecl hname => exact ⟨_, hown hdecl rfl hname, rfl, rfl, rfl⟩
    | importAlias hdecl hlocal hname =>
      exact ⟨_, hown hdecl (congrArg (Option.map _) hlocal) hname, rfl, rfl, rfl⟩
    | typeAlias hdecl hname => exact ⟨_, hown hdecl rfl hname, rfl, rfl, rfl⟩
    | classDecl hdecl hname => exact ⟨_, hown hdecl rfl hname, rfl, rfl, rfl⟩
    | function hdecl hname => exact ⟨_, hown hdecl rfl hname, rfl, rfl, rfl⟩
    | property hdecl hname => exact ⟨_, hown hdecl rfl hname, rfl, rfl, rfl⟩
    | memberFunction hclass hbody hmember => exact ⟨_, hmem hclass hbody hmember, rfl, rfl, rfl⟩
    | memberProperty hclass hbody hmember => exact ⟨_, hmem hclass hbody hmember, rfl, rfl, rfl⟩
  · rintro ⟨item, hitem, rfl, rfl, rfl⟩
    obtain ⟨decl, hdecl, hitem⟩ := List.mem_flatMap.1 hitem
    rcases Declaration.mem_items_iff.1 hitem with ⟨hitem, hname⟩ | ⟨member, hmember, rfl⟩
    · exact decl.declares_of_item? hdecl hitem hname
    · rcases decl.members_eq_nil_or with hnil | ⟨c, rfl, hbody⟩
      · rw [hnil] at hmember
        cases hmember
      · exact member.declares hdecl hbody hmember

/-- A name means an item just when this is the first that bears the name. -/
theorem Module.mem_declaredItems_iff :
    item ∈ tree.declaredItems ↔
      (tree.declarations.flatMap Declaration.items).find? (·.name == item.name) = some item := by
  rw [← tree.find?_declaredItems]
  constructor
  · intro hitem
    have hfound : (tree.declaredItems.find? (·.name == item.name)).isSome = true := by
      rw [List.find?_isSome]
      exact ⟨item, hitem, beq_self_eq_true _⟩
    obtain ⟨first, hfirst⟩ := Option.isSome_iff_exists.1 hfound
    have hname : first.name = item.name := by simpa using List.find?_some hfirst
    rw [hfirst, List.inj_on_of_nodup_map (nodup_declaredItems tree)
      (List.mem_of_find?_eq_some hfirst) hitem hname]
  · exact List.mem_of_find?_eq_some

/-- Of the items with one name, one is what the name means. -/
theorem Module.exists_declaredItem (hitem : item ∈ tree.declarations.flatMap Declaration.items) :
    ∃ first ∈ tree.declaredItems, first.name = item.name := by
  obtain ⟨first, hfirst⟩ : ∃ first, (tree.declarations.flatMap Declaration.items).find?
      (·.name == item.name) = some first := by
    rw [← Option.isSome_iff_exists, List.find?_isSome]
    exact ⟨item, hitem, beq_self_eq_true _⟩
  have hname : first.name = item.name := by simpa using List.find?_some hfirst
  refine ⟨first, ?_, hname⟩
  rw [mem_declaredItems_iff, hname]
  exact hfirst

/-! ### The order of the text -/

section Parsed

variable {text filename : String} {options : Options}

theorem start_lt_stop_of_mem_declarations
    (hdecl : decl ∈ (parse text filename options).module.declarations) :
    decl.span.start < decl.span.stop := by
  rw [← span_ofDeclaration]
  refine (parse_tidy (ofDeclaration_mem_walk hdecl)).2.2.2.1 ?_
  cases decl <;> rintro ⟨⟩

theorem start_lt_stop_of_mem_members
    (hdecl : decl ∈ (parse text filename options).module.declarations)
    (hmember : member ∈ decl.members) : member.span.start < member.span.stop := by
  rw [← span_ofClassMember]
  refine (parse_tidy (Node.mem_walk_child (ofDeclaration_mem_walk hdecl)
    (Declaration.ofClassMember_mem_children hmember))).2.2.2.1 ?_
  cases member <;> rintro ⟨⟩

theorem within_of_mem_members
    (hdecl : decl ∈ (parse text filename options).module.declarations)
    (hmember : member ∈ decl.members) : member.span.Within decl.span := by
  rw [← span_ofClassMember, ← span_ofDeclaration]
  exact (parse_tidy (ofDeclaration_mem_walk hdecl)).2.2.2.2.within _
    (Declaration.ofClassMember_mem_children hmember)

/-- A class is ahead of its members: its name lies in it, and apart from them. -/
theorem ahead_of_mem_members
    (hdecl : decl ∈ (parse text filename options).module.declarations)
    (hmember : member ∈ decl.members) : decl.span.Ahead member.span := by
  have hwithin := within_of_mem_members hdecl hmember
  have hchild := Declaration.ofClassMember_mem_children hmember
  have htidy := (parse_tidy (ofDeclaration_mem_walk hdecl)).2.2.2.2
  rcases decl.members_eq_nil_or with hnil | ⟨c, rfl, -⟩
  · rw [hnil] at hmember
    cases hmember
  have hname : Node.identifier c.name ∈ (Node.ofDeclaration (.classDecl c)).children := by
    simp [Node.ofDeclaration, Node.children, Node.fields, ClassDecl.fields]
  have hlt := (parse_tidy (Node.mem_walk_child (ofDeclaration_mem_walk hdecl) hname)).2.2.2.1
    fun h => by cases h
  have hnameWithin := htidy.within _ hname
  have : Std.Symm fun a b : Node => a.span.Apart b.span := ⟨fun _ _ => Span.Apart.symm⟩
  have hapart := htidy.apart.forall hname hchild fun h => by
    cases member <;> cases h
  rw [span_ofClassMember] at hapart
  rw [span_ofDeclaration] at hnameWithin
  simp only [Span.Apart, Span.Before, Span.Within, Span.Ahead] at hwithin hnameWithin hapart ⊢
  omega

theorem pairwise_members
    (hdecl : decl ∈ (parse text filename options).module.declarations) :
    decl.members.Pairwise fun a b => a.span.Before b.span := by
  rcases decl.members_eq_nil_or with hnil | ⟨c, rfl, hbody⟩
  · rw [hnil]
    exact .nil
  · exact parse_members_pairwise (ofDeclaration_mem_walk hdecl) hbody

theorem items_pairwise (hdecl : decl ∈ (parse text filename options).module.declarations) :
    decl.items.Pairwise fun a b => a.span.Ahead b.span := by
  rw [Declaration.items, List.pairwise_append]
  refine ⟨?_, ?_, fun a ha b hb => ?_⟩
  · cases decl.item?.filter fun item => !item.name.isEmpty <;> simp
  · rw [List.pairwise_map]
    refine (pairwise_members hdecl).imp_of_mem fun {a b} ha _ hbefore => ?_
    rw [a.span_item, b.span_item]
    exact hbefore.ahead (start_lt_stop_of_mem_members hdecl ha)
  · obtain ⟨member, hmember, rfl⟩ := List.mem_map.1 hb
    have hitem := Option.eq_some_of_filter_eq_some (Option.mem_toList.1 ha)
    rw [Declaration.span_item? hitem, member.span_item]
    exact ahead_of_mem_members hdecl hmember

theorem within_of_mem_items (hdecl : decl ∈ (parse text filename options).module.declarations)
    (hitem : item ∈ decl.items) :
    item.span.Within decl.span ∧ item.span.start < item.span.stop := by
  rcases Declaration.mem_items_iff.1 hitem with ⟨hitem, -⟩ | ⟨member, hmember, rfl⟩
  · rw [Declaration.span_item? hitem]
    exact ⟨⟨Int.le_refl _, Int.le_refl _⟩, start_lt_stop_of_mem_declarations hdecl⟩
  · rw [member.span_item]
    exact ⟨within_of_mem_members hdecl hmember, start_lt_stop_of_mem_members hdecl hmember⟩

/-- The items of a text, declaration by declaration, stand in the order of the text. -/
theorem parse_items_pairwise :
    ((parse text filename options).module.declarations.flatMap Declaration.items).Pairwise
      fun a b => a.span.Ahead b.span := by
  refine List.pairwise_flatMap.2 ⟨fun decl hdecl => items_pairwise hdecl, ?_⟩
  refine parse_declarations_pairwise.imp_of_mem fun {a b} ha hb hbefore x hx y hy => ?_
  obtain ⟨⟨-, hx⟩, hlt⟩ := within_of_mem_items ha hx
  obtain ⟨⟨hy, -⟩, -⟩ := within_of_mem_items hb hy
  exact Span.Before.ahead (Int.le_trans hx (Int.le_trans hbefore hy)) hlt

/-- Of the items with a name, the one that is found first is the first in the text. -/
theorem declaresFirst_iff {word : String} {kind : ItemKind} :
    (parse text filename options).module.DeclaresFirst word kind ↔
      ∃ item ∈ (parse text filename options).module.declaredItems,
        item.name = word ∧ item.kind = kind := by
  have hpairwise := @parse_items_pairwise text filename options
  generalize (parse text filename options).module = tree at hpairwise
  -- What stands behind the first item with a name is told by the order of the list.
  have hfirst {item : Item} (hitem : item ∈ tree.declaredItems) {other : Item}
      (hother : other ∈ tree.declarations.flatMap Declaration.items)
      (hname : other.name = item.name) : other = item ∨ item.span.Ahead other.span := by
    obtain ⟨-, before, behind, hall, hnone⟩ :=
      List.find?_eq_some_iff_append.1 (Module.mem_declaredItems_iff.1 hitem)
    rw [hall] at hother hpairwise
    rcases List.mem_append.1 hother with hother | hother
    · exact absurd (hnone other hother) (by simp [hname])
    · rcases List.mem_cons.1 hother with rfl | hother
      · exact .inl rfl
      · exact .inr (List.rel_of_pairwise_cons (List.pairwise_append.1 hpairwise).2.1 hother)
  constructor
  · rintro ⟨span, hdeclares, hall⟩
    obtain ⟨item, hitem, rfl, rfl, rfl⟩ := Module.declares_iff.1 hdeclares
    obtain ⟨first, hmem, hname⟩ := Module.exists_declaredItem hitem
    have hlisted := List.mem_of_find?_eq_some (Module.mem_declaredItems_iff.1 hmem)
    refine ⟨first, hmem, hname, ?_⟩
    rcases hfirst hmem hitem hname.symm with rfl | hahead
    · rfl
    · rcases hall first.kind first.span (Module.declares_iff.2 ⟨first, hlisted, hname, rfl, rfl⟩)
        with heq | hahead'
      · exact (Prod.mk.inj heq).1
      · exact absurd hahead hahead'.asymm
  · rintro ⟨item, hitem, rfl, rfl⟩
    have hmem := List.mem_of_find?_eq_some (Module.mem_declaredItems_iff.1 hitem)
    refine ⟨item.span, Module.declares_iff.2 ⟨item, hmem, rfl, rfl, rfl⟩, fun kind span h => ?_⟩
    obtain ⟨other, hother, hname, rfl, rfl⟩ := Module.declares_iff.1 h
    exact (hfirst hitem hother hname).imp_left fun heq => by rw [heq]

end Parsed

/-! ### What is offered -/

theorem nodup_keywords : keywords.Nodup := by decide

theorem mem_completions_iff {doc : Document} {word : String} {kind : ItemKind} :
    (word, kind) ∈ completions (some doc) ↔ word ∈ keywords ∧ kind = .keyword ∨
      word ∉ keywords ∧ ∃ item ∈ doc.items, item.name = word ∧ item.kind = kind := by
  rw [completions, List.mem_append, List.mem_map, List.mem_map]
  constructor
  · rintro (⟨keyword, hkeyword, heq⟩ | ⟨item, hitem, heq⟩)
    · obtain ⟨rfl, rfl⟩ := Prod.mk.inj heq
      exact .inl ⟨hkeyword, rfl⟩
    · obtain ⟨rfl, rfl⟩ := Prod.mk.inj heq
      obtain ⟨hitem, hnew⟩ := List.mem_filter.1 hitem
      exact .inr ⟨by simpa using hnew, item, hitem, rfl, rfl⟩
  · rintro (⟨hkeyword, rfl⟩ | ⟨hnew, item, hitem, rfl, rfl⟩)
    · exact .inl ⟨word, hkeyword, rfl⟩
    · exact .inr ⟨item, List.mem_filter.2 ⟨hitem, by simpa using hnew⟩, rfl⟩

/-- No name is offered twice, whether a document is open or not. -/
theorem nodup_completions (doc? : Option Document) :
    ((completions doc?).map Prod.fst).Nodup := by
  have hitems : (((doc?.map Document.items).getD []).map Item.name).Nodup := by
    cases doc? with
    | none => exact List.nodup_nil
    | some doc => exact nodup_declaredItems doc.result.module
  rw [completions, List.map_append, List.map_map, List.map_map, List.nodup_append]
  refine ⟨?_, hitems.sublist (List.filter_sublist.map _), fun a ha b hb => ?_⟩
  · exact (List.map_id keywords).symm ▸ nodup_keywords
  · obtain ⟨keyword, hkeyword, rfl⟩ := List.mem_map.1 ha
    obtain ⟨item, hitem, rfl⟩ := List.mem_map.1 hb
    have hnew : item.name ∉ keywords := by simpa using (List.mem_filter.1 hitem).2
    exact fun heq : keyword = item.name => hnew (heq ▸ hkeyword)

/-- What is offered in any document: the keywords and the names that the module declares, each name
once. A keyword is offered as such, whatever is declared under it, and any other name as what the
first declaration in the text that bears it is. -/
theorem completions_complete (text filename : String) (options : Options) :
    let doc : Document := ⟨.ofString text filename, parse text filename options⟩
    let tree := doc.result.module
    ((completions (some doc)).map Prod.fst).Nodup ∧
      (∀ word, word ∈ (completions (some doc)).map Prod.fst ↔
        word ∈ keywords ∨ ∃ kind span, tree.Declares word kind span) ∧
      ∀ word kind, (word, kind) ∈ completions (some doc) ↔
        word ∈ keywords ∧ kind = .keyword ∨ word ∉ keywords ∧ tree.DeclaresFirst word kind := by
  intro doc tree
  have hkinds (word : String) (kind : ItemKind) : (word, kind) ∈ completions (some doc) ↔
      word ∈ keywords ∧ kind = .keyword ∨ word ∉ keywords ∧ tree.DeclaresFirst word kind := by
    rw [mem_completions_iff, Document.items, ← declaresFirst_iff]
  refine ⟨nodup_completions _, fun word => ?_, hkinds⟩
  rw [List.mem_map]
  constructor
  · rintro ⟨⟨_, kind⟩, hmem, rfl⟩
    refine ((hkinds _ kind).1 hmem).imp And.left fun h => ?_
    obtain ⟨-, span, hdeclares, -⟩ := h
    exact ⟨kind, span, hdeclares⟩
  · rintro (hkeyword | ⟨kind, span, hdeclares⟩)
    · exact ⟨(word, .keyword), (hkinds word _).2 (.inl ⟨hkeyword, rfl⟩), rfl⟩
    · obtain ⟨item, hitem, rfl, -, -⟩ := Module.declares_iff.1 hdeclares
      obtain ⟨first, hfirst, hname⟩ := Module.exists_declaredItem hitem
      by_cases hkeyword : item.name ∈ keywords
      · exact ⟨(item.name, .keyword), (hkinds _ _).2 (.inl ⟨hkeyword, rfl⟩), rfl⟩
      · exact ⟨(item.name, first.kind), mem_completions_iff.2
          (.inr ⟨hkeyword, first, hfirst, hname, rfl⟩), rfl⟩

/-- A property with the name of a keyword, and a function with that of a member in front of it. -/
example :
    let text := "class A \x7b\n  x: B\n\x7d\n\x60if\x60 = 1\nfunction x() = 2"
    (completions (some ⟨.ofString text "m", parse text "m" {}⟩)).filter
        (["A", "if", "x"].contains ·.1) =
      [("if", .keyword), ("A", .classDecl), ("x", .property)] := by decide +kernel

end PklSyntax
