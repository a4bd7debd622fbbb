import PklSyntax.Proofs.Layout.Type
import PklSyntax.Proofs.Printing.Facing

/-!
# Types as they are written

A type is written with parentheses around each part that is not a name alone, so that its suffixes,
bars and arrows belong to what they are written for.

## Main definitions

* `TypeExpr.Simple`: the types of names, arguments, `?`, `*`, unions and functions.
* `TypeExpr.print`: how they are written.
* `TypeExpr.nesting`: how deep types lie in types.
* `TypeExpr.Alike`: types of the same shape.

## Main statements

* `TypeExpr.Simple.first`: what a written type begins with.
* `TypeExpr.Simple.isToken`: a written type is found by skipping trivia, on one line.
-/

namespace PklSyntax

open PklSyntax.Parser

namespace TypeExpr

/-! ### Types as they are written -/

/-- The type is a name alone. -/
def isNamed : TypeExpr → Bool
  | .named _ => true
  | _ => false

/-- The type is a union. -/
def isUnion : TypeExpr → Bool
  | .union .. => true
  | _ => false

/-- The text of a part, in parentheses unless it is a name. -/
def enclose (type : TypeExpr) (text : String) : String :=
  if type.isNamed then text else "(" ++ text ++ ")"

/-- The nesting of a part, with its parentheses. -/
def enclosedNesting (type : TypeExpr) (nesting : Nat) : Nat :=
  if type.isNamed then nesting else nesting + 1

end TypeExpr

mutual

/-- A type as it is written. Only simple types are written. -/
def TypeExpr.print : TypeExpr → String
  | .named type => type.print
  | .generic base args _ => base.print ++ "<" ++ ", ".intercalate (printParts args) ++ ">"
  | .nullable inner _ => inner.enclose inner.print ++ "?"
  | .default inner _ => "*" ++ inner.enclose inner.print
  | .union members _ => " | ".intercalate (printParts members)
  | .function params result _ =>
    "(" ++ ", ".intercalate (printParts params) ++ ") -> (" ++ result.print ++ ")"
  | _ => ""

/-- The parts of a type as they are written. -/
def printParts : List TypeExpr → List String
  | [] => []
  | part :: parts => part.enclose part.print :: printParts parts

end

mutual

/-- How deep types lie in one another as they are written. -/
def TypeExpr.nesting : TypeExpr → Nat
  | .generic _ args _ => partsNesting args + 1
  | .nullable inner _ | .default inner _ => inner.enclosedNesting inner.nesting
  | .union members _ => partsNesting members
  | .function params result _ => max (partsNesting params) (result.nesting + 1) + 1
  | _ => 0

/-- How deep types lie in the parts of a type. -/
def partsNesting : List TypeExpr → Nat
  | [] => 0
  | part :: parts => max (part.enclosedNesting part.nesting) (partsNesting parts)

end

/-- The types of names, generic types, nullable types, default types, unions and function types. A
generic type has arguments, and a union two members at least, of which none is a union. -/
inductive TypeExpr.Simple : TypeExpr → Prop
  | named {type : NamedType} (hpath : type.path ≠ []) (hwritten : ∀ i ∈ type.path, i.IsWritten) :
      Simple (.named type)
  | generic {base : NamedType} {args : List TypeExpr} {span : Span} (hpath : base.path ≠ [])
      (hwritten : ∀ i ∈ base.path, i.IsWritten) (hargs : args ≠ []) (hparts : ∀ t ∈ args, Simple t) :
      Simple (.generic base args span)
  | nullable {inner : TypeExpr} {span : Span} (hinner : Simple inner) :
      Simple (.nullable inner span)
  | default {inner : TypeExpr} {span : Span} (hinner : Simple inner) : Simple (.default inner span)
  | union {members : List TypeExpr} {span : Span} (htwo : 2 ≤ members.length)
      (hflat : ∀ t ∈ members, t.isUnion = false) (hparts : ∀ t ∈ members, Simple t) :
      Simple (.union members span)
  | function {params : List TypeExpr} {result : TypeExpr} {span : Span}
      (hparts : ∀ t ∈ params, Simple t) (hresult : Simple result) :
      Simple (.function params result span)

/-- The text is a way to write the type, as it is or in parentheses, with its nesting. -/
inductive TypeExpr.WrittenAs (t : TypeExpr) : String → Nat → Prop
  | bare : WrittenAs t t.print t.nesting
  | paren : WrittenAs t ("(" ++ t.print ++ ")") (t.nesting + 1)

theorem TypeExpr.writtenAs_enclose (t : TypeExpr) :
    t.WrittenAs (t.enclose t.print) (t.enclosedNesting t.nesting) := by
  rw [TypeExpr.enclose, TypeExpr.enclosedNesting]
  cases t.isNamed with
  | true => exact .bare
  | false => exact .paren

theorem printParts_eq (parts : List TypeExpr) :
    printParts parts = parts.map fun t => t.enclose t.print := by
  induction parts with
  | nil => rfl
  | cons part parts ih => rw [printParts, ih, List.map_cons]

theorem le_partsNesting {parts : List TypeExpr} {t : TypeExpr} (h : t ∈ parts) :
    t.enclosedNesting t.nesting ≤ partsNesting parts := by
  induction parts with
  | nil => cases h
  | cons part parts ih =>
    rw [partsNesting]
    rcases List.mem_cons.1 h with rfl | h
    · exact Nat.le_max_left _ _
    · exact Nat.le_trans (ih h) (Nat.le_max_right _ _)

/-! ### Types of the same shape -/

/-- The type differs from the other one in nothing but spans. -/
abbrev TypeExpr.Alike (v t : TypeExpr) : Prop := (Node.type v).Alike (.type t)

namespace TypeExpr.Alike

variable {v v' t t' : TypeExpr} {span span' : Span}

theorem path {name name' : NamedType} (h : List.Forall₂ Identifier.Alike name.path name'.path) :
    List.Forall₂ Node.Alike (name.path.map Node.identifier) (name'.path.map Node.identifier) := by
  rw [List.forall₂_map_left_iff, List.forall₂_map_right_iff]
  exact h.imp fun _ _ hi => hi.node

theorem types {vs ts : List TypeExpr} (h : List.Forall₂ Alike vs ts) :
    List.Forall₂ Node.Alike (vs.map Node.type) (ts.map Node.type) := by
  rwa [List.forall₂_map_left_iff, List.forall₂_map_right_iff]

theorem named {name name' : NamedType} (h : List.Forall₂ Identifier.Alike name.path name'.path) :
    Alike (.named name) (.named name') := by
  refine .of_children ?_ ?_
  · simp [Node.outline, Node.kind, Node.fields, TypeExpr.fields, NamedType.fields,
      FieldValue.outline, FieldValue.ofList, h.length_eq, TypeExpr.nodeKind]
  · simpa [Node.children, Node.fields, TypeExpr.fields, NamedType.fields, FieldValue.children,
      FieldValue.ofList] using path h

theorem generic {base base' : NamedType} {vs ts : List TypeExpr}
    (hbase : List.Forall₂ Identifier.Alike base.path base'.path) (h : List.Forall₂ Alike vs ts) :
    Alike (.generic base vs span) (.generic base' ts span') := by
  have hnode : (Node.namedType base).Alike (.namedType base') := by
    refine .of_children ?_ ?_
    · simp [Node.outline, Node.kind, Node.fields, NamedType.fields, FieldValue.outline,
        FieldValue.ofList, hbase.length_eq]
    · simpa [Node.children, Node.fields, NamedType.fields, FieldValue.children,
        FieldValue.ofList] using path hbase
  refine .of_children ?_ ?_
  · simp [Node.outline, Node.kind, Node.fields, TypeExpr.fields, FieldValue.outline,
      FieldValue.ofList, h.length_eq, TypeExpr.nodeKind]
  · simpa [Node.children, Node.fields, TypeExpr.fields, FieldValue.children, FieldValue.ofList]
      using ⟨hnode, h⟩

theorem nullable (h : v.Alike t) : Alike (.nullable v span) (.nullable t span') :=
  .of_children rfl (.cons h .nil)

theorem default (h : v.Alike t) : Alike (.default v span) (.default t span') :=
  .of_children rfl (.cons h .nil)

theorem union {vs ts : List TypeExpr} (h : List.Forall₂ Alike vs ts) :
    Alike (.union vs span) (.union ts span') := by
  refine .of_children ?_ ?_
  · simp [Node.outline, Node.kind, Node.fields, TypeExpr.fields, FieldValue.outline,
      FieldValue.ofList, h.length_eq, TypeExpr.nodeKind]
  · simpa [Node.children, Node.fields, TypeExpr.fields, FieldValue.children, FieldValue.ofList]
      using types h

theorem function {vs ts : List TypeExpr} (h : List.Forall₂ Alike vs ts) (h' : v.Alike t) :
    Alike (.function vs v span) (.function ts t span') := by
  refine .of_children ?_ ?_
  · simp [Node.outline, Node.kind, Node.fields, TypeExpr.fields, FieldValue.outline,
      FieldValue.ofList, h.length_eq, TypeExpr.nodeKind]
  · have hchildren := List.rel_append (types h) (List.Forall₂.cons h' .nil)
    simpa [Node.children, Node.fields, TypeExpr.fields, FieldValue.children, FieldValue.ofList]
      using hchildren

/-- Another span does not matter. -/
theorem withSpan (h : v.Alike t) : (v.withSpan span).Alike t := by
  obtain ⟨houtline, hchildren⟩ := (Node.sameShape_iff _ _).1 h
  have hfields := Grammar.fields_withSpan v span
  have hkind : (Node.type (v.withSpan span)).kind = (Node.type v).kind := by cases v <;> rfl
  refine (Node.sameShape_iff _ _).2 ⟨?_, ?_⟩
  · rw [← houtline, Node.outline, Node.outline, hfields, hkind]
  · rw [Node.children, hfields]
    exact hchildren

/-- What is like a type that is no union is no union itself. -/
theorem unionMembers_eq (h : v.Alike t) (ht : t.isUnion = false) :
    Grammar.unionMembers v = [v] := by
  have hkind := congrArg NodeOutline.kind ((Node.sameShape_iff _ _).1 h).1
  cases v with
  | union members span =>
    cases t with
    | union => cases ht
    | _ => cases hkind
  | _ => rfl

theorem flatMap_unionMembers {vs ts : List TypeExpr} (h : List.Forall₂ Alike vs ts)
    (hts : ∀ t ∈ ts, t.isUnion = false) : vs.flatMap Grammar.unionMembers = vs := by
  induction h with
  | nil => rfl
  | cons hv _ ih =>
    obtain ⟨ht, hts⟩ := List.forall_mem_cons.1 hts
    rw [List.flatMap_cons, hv.unionMembers_eq ht, ih hts, List.singleton_append]

end TypeExpr.Alike

/-! ### The text of a type -/

/-- The characters with which a name can be written first. -/
def opensName (c : Char) : Bool := c == backtick || startsName c

/-- The characters with which a type can be written first. -/
def opensType (c : Char) : Bool := c == '(' || c == '*' || opensName c

theorem NamedType.print_first {type : NamedType} (hpath : type.path ≠ [])
    (hwritten : ∀ i ∈ type.path, i.IsWritten) :
    ∃ c more, type.print.toList = c :: more ∧ opensName c = true := by
  obtain ⟨path, span⟩ := type
  obtain ⟨i, path, rfl⟩ := List.exists_cons_of_ne_nil hpath
  obtain ⟨c, others, hprint, hc⟩ := (hwritten i List.mem_cons_self).first
  exact ⟨c, others ++ pathTail path, by rw [print_toList_cons, hprint, List.cons_append],
    by simpa [opensName] using hc⟩

theorem opensType_of_opensName {c : Char} (h : opensName c = true) :
    opensType c = true ∧ c ≠ '*' := by
  refine ⟨by rw [opensType, h, Bool.or_true], ?_⟩
  rintro rfl
  exact absurd h (by decide)

theorem opensType_fresh {c : Char} {more : List Char} (h : opensType c = true) :
    Fresh (c :: more) := by
  simp only [opensType, opensName, Bool.or_eq_true, beq_iff_eq] at h
  rcases h with (rfl | rfl) | rfl | h
  · exact fresh_cons (by decide) (by decide)
  · exact fresh_cons (by decide) (by decide)
  · exact fresh_cons (by decide) (by decide)
  · have hname := continuesName_of_startsName h
    exact fresh_cons (not_isTriviaBlank_of_continuesName hname) (ne_slash_of_continuesName hname)

/-- A part is not written with a `*` first. -/
theorem TypeExpr.Simple.enclose_first {t : TypeExpr} (h : t.Simple) :
    ∃ c more, (t.enclose t.print).toList = c :: more ∧ opensType c = true ∧ c ≠ '*' := by
  rw [TypeExpr.enclose]
  cases hnamed : t.isNamed with
  | true =>
    cases h with
    | named hpath hwritten =>
      obtain ⟨c, more, hprint, hc⟩ := NamedType.print_first hpath hwritten
      exact ⟨c, more, hprint, opensType_of_opensName hc⟩
    | _ => cases hnamed
  | false => exact ⟨'(', t.print.toList ++ [')'], by simp, by decide, by decide⟩

theorem TypeExpr.Simple.first {t : TypeExpr} (h : t.Simple) :
    ∃ c more, t.print.toList = c :: more ∧ opensType c = true ∧
      (c = '*' → ∃ inner span, t = .default inner span) := by
  have happend {a b : String} (ha : ∃ c more, a.toList = c :: more ∧ opensType c = true ∧ c ≠ '*') :
      ∃ c more, (a ++ b).toList = c :: more ∧ opensType c = true ∧ c ≠ '*' := by
    obtain ⟨c, more, ha, hc⟩ := ha
    exact ⟨c, more ++ b.toList, by rw [String.toList_append, ha, List.cons_append], hc⟩
  have hname {type : NamedType} (hpath : type.path ≠ [])
      (hwritten : ∀ i ∈ type.path, i.IsWritten) :
      ∃ c more, type.print.toList = c :: more ∧ opensType c = true ∧ c ≠ '*' := by
    obtain ⟨c, more, hprint, hc⟩ := type.print_first hpath hwritten
    exact ⟨c, more, hprint, opensType_of_opensName hc⟩
  have hno {text : String} (hfirst : ∃ c more, text.toList = c :: more ∧ opensType c = true ∧
      c ≠ '*') : ∃ c more, text.toList = c :: more ∧ opensType c = true ∧
        (c = '*' → ∃ inner span, t = .default inner span) := by
    obtain ⟨c, more, htext, hopens, hstar⟩ := hfirst
    exact ⟨c, more, htext, hopens, fun heq => absurd heq hstar⟩
  cases h with
  | named hpath hwritten => exact hno (hname hpath hwritten)
  | generic hpath hwritten => exact hno (happend (happend (happend (hname hpath hwritten))))
  | nullable hinner => exact hno (happend hinner.enclose_first)
  | @default inner span hinner =>
    exact ⟨'*', (inner.enclose inner.print).toList, by simp [TypeExpr.print], by decide,
      fun _ => ⟨inner, span, rfl⟩⟩
  | @union members span htwo _ hparts =>
    match members with
    | [] => simp at htwo
    | [_] => simp at htwo
    | part :: other :: parts =>
      rw [TypeExpr.print, printParts, printParts, String.intercalate_cons_cons]
      exact hno (happend (happend (hparts part List.mem_cons_self).enclose_first))
  | function =>
    rw [TypeExpr.print]
    exact hno (happend (happend (happend (happend ⟨'(', [], by decide, by decide, by decide⟩))))

theorem TypeExpr.WrittenAs.first {t : TypeExpr} {text : String} {nesting : Nat} (h : t.Simple)
    (htext : t.WrittenAs text nesting) :
    ∃ c more, text.toList = c :: more ∧ opensType c = true := by
  cases htext with
  | bare =>
    obtain ⟨c, more, hprint, hopens, -⟩ := h.first
    exact ⟨c, more, hprint, hopens⟩
  | paren => exact ⟨'(', t.print.toList ++ [')'], by simp, by decide⟩

theorem Identifier.IsWritten.oneLine {i : Identifier} (h : i.IsWritten) :
    '\n' ∉ i.print.toList := by
  rw [Identifier.IsWritten] at h
  rw [Identifier.print]
  split at h
  · have hno : ¬ '\n' = backtick := by decide
    simpa [hno] using h.2
  · obtain ⟨first, rest, hchars, hfirst, hrest, -⟩ := h
    have hall : ∀ c ∈ i.name.toList, continuesName c = true := by
      rw [hchars]
      exact List.forall_mem_cons.2 ⟨continuesName_of_startsName hfirst, hrest⟩
    exact fun hmem => absurd (hall _ hmem) (by decide)

theorem append_oneLine {a b : String} (ha : '\n' ∉ a.toList) (hb : '\n' ∉ b.toList) :
    '\n' ∉ (a ++ b).toList := by
  rw [String.toList_append, List.mem_append, not_or]
  exact ⟨ha, hb⟩

theorem intercalate_oneLine {sep : String} (hsep : '\n' ∉ sep.toList) {texts : List String}
    (h : ∀ text ∈ texts, '\n' ∉ text.toList) : '\n' ∉ (sep.intercalate texts).toList := by
  induction texts with
  | nil => simp
  | cons text texts ih =>
    obtain ⟨htext, htexts⟩ := List.forall_mem_cons.1 h
    cases texts with
    | nil => simpa using htext
    | cons other texts =>
      rw [String.intercalate_cons_cons]
      exact append_oneLine (append_oneLine htext hsep) (ih htexts)

theorem TypeExpr.Simple.oneLine {t : TypeExpr} (h : t.Simple) : '\n' ∉ t.print.toList := by
  have hname {type : NamedType} (hwritten : ∀ i ∈ type.path, i.IsWritten) :
      '\n' ∉ type.print.toList :=
    intercalate_oneLine (by decide)
      (List.forall_mem_map.2 fun i hi => (hwritten i hi).oneLine)
  have henclose {t : TypeExpr} (ht : '\n' ∉ t.print.toList) :
      '\n' ∉ (t.enclose t.print).toList := by
    rw [TypeExpr.enclose]
    split
    · exact ht
    · exact append_oneLine (append_oneLine (by decide) ht) (by decide)
  have hparts {sep : String} (hsep : '\n' ∉ sep.toList) {parts : List TypeExpr}
      (h : ∀ t ∈ parts, '\n' ∉ t.print.toList) :
      '\n' ∉ (sep.intercalate (printParts parts)).toList := by
    rw [printParts_eq]
    exact intercalate_oneLine hsep (List.forall_mem_map.2 fun t ht => henclose (h t ht))
  induction h with
  | named _ hwritten => exact hname hwritten
  | generic _ hwritten _ _ ih =>
    exact append_oneLine (append_oneLine (append_oneLine (hname hwritten) (by decide))
      (hparts (by decide) ih)) (by decide)
  | nullable _ ih => exact append_oneLine (henclose ih) (by decide)
  | default _ ih => exact append_oneLine (by decide) (henclose ih)
  | union _ _ _ ih => exact hparts (by decide) ih
  | function _ _ ih ih' =>
    exact append_oneLine (append_oneLine (append_oneLine (append_oneLine (by decide)
      (hparts (by decide) ih)) (by decide)) ih') (by decide)

theorem TypeExpr.Simple.isToken {t : TypeExpr} (h : t.Simple) : IsToken t.print := by
  obtain ⟨c, more, hprint, hopens, -⟩ := h.first
  refine ⟨?_, h.oneLine⟩
  rw [hprint]
  exact (opensType_fresh hopens).resolve_left nofun

end PklSyntax
