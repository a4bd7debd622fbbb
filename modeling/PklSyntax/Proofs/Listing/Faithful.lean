import PklSyntax.Proofs.Listing.Lines

/-!
# Listings are faithful

The listings of two modules without spans are equal just when the modules have the same shape. A line
of a node says its kind, and so which fields the lines below it may belong to; a line of a field says
its value, or that nodes follow; and the listings of these can be told apart. So the lines say what
every node holds by itself, and the induction is on the tree.

With spans, the lines of nodes are those that begin with an upper-case letter, and they follow the
walk of the module.

## Main definitions

* `isHeaderLine`: a line that begins with an upper-case letter.

## Main statements

* `Node.sameShape_of_listing_eq`, `Node.listing_eq_of_sameShape`: the two directions.
* `listing_faithful`: listings show shapes, and the lines of nodes follow the walk.
-/

namespace PklSyntax

/-! ### Modifiers -/

theorem Modifiers.eq_of_keywords {a b : Modifiers} (h : a.keywords = b.keywords) : a = b := by
  have hperm : (a.members.map Modifier.keyword).Perm (b.members.map Modifier.keyword) :=
    (List.mergeSort_perm _ _).symm.trans ((List.Perm.of_eq h).trans (List.mergeSort_perm _ _))
  have hcontains : a.members.contains = b.members.contains := by
    funext m
    have hmem : m ∈ a.members ↔ m ∈ b.members := by
      rw [← List.mem_map_of_injective Modifier.keyword_injective, hperm.mem_iff,
        List.mem_map_of_injective Modifier.keyword_injective]
    simp [List.contains_eq_mem, hmem]
  have hmembers : a.members = b.members := by rw [← a.ordered, hcontains, b.ordered]
  cases a
  cases b
  congr

theorem Modifiers.exists_of_mem_keywords {set : Modifiers} {word : String}
    (h : word ∈ set.keywords) : ∃ m : Modifier, word = m.keyword := by
  obtain ⟨m, -, rfl⟩ := List.mem_map.1 (List.mem_mergeSort.1 h)
  exact ⟨m, rfl⟩

/-- Modifiers are told by their words, with blanks between them. -/
theorem Modifiers.eq_of_line {a b : Modifiers} (ha : a.isEmpty = false) (hb : b.isEmpty = false)
    (h : " ".intercalate a.keywords = " ".intercalate b.keywords) : a = b := by
  have hsplit {set : Modifiers} (hset : set.isEmpty = false) :
      (" ".intercalate set.keywords).toList.splitOn ' ' = set.keywords.map String.toList := by
    rw [String.toList_intercalate]
    refine List.splitOn_intercalate ' ' (fun cs hcs => ?_) ?_
    · obtain ⟨word, hword, rfl⟩ := List.mem_map.1 hcs
      obtain ⟨m, rfl⟩ := exists_of_mem_keywords hword
      cases m <;> decide
    · intro hnil
      have hlength := congrArg List.length hnil
      rw [List.length_map, keywords, List.length_mergeSort, List.length_map] at hlength
      rw [isEmpty, List.length_eq_zero_iff.1 hlength] at hset
      cases hset
  have hwords : a.keywords.map String.toList = b.keywords.map String.toList := by
    rw [← hsplit ha, h, hsplit hb]
  exact eq_of_keywords (List.map_injective_iff.2 (fun _ _ => String.toList_injective) hwords)

/-! ### Values -/

theorem blank_append_inj {s t : String} (h : some (" " ++ s) = some (" " ++ t)) : s = t := by
  have hlists := congrArg String.toList (Option.some.inj h)
  rw [String.toList_append, String.toList_append] at hlists
  exact String.toList_injective (List.append_cancel_left hlists)

theorem toString_nat_injective : Function.Injective (toString : Nat → String) := by
  intro m n h
  have hvalues := congrArg (fun s : String => Nat.ofDigitChars 10 s.toList 0) h
  simpa [Nat.toString_eq_repr] using hvalues

namespace FieldValue

theorem shown_nodes_ne_none (ns : List Node) : (nodes ns).shown ≠ none := by
  cases ns <;> rintro ⟨⟩

theorem eq_of_shown_modifiers {a b : Modifiers} (h : (modifiers a).shown = (modifiers b).shown) :
    a = b := by
  have hempty {set : Modifiers} (hset : set.isEmpty = true) : set.keywords = [] := by
    rw [Modifiers.keywords, List.isEmpty_iff.1 hset, List.map_nil, List.mergeSort_nil]
  rw [shown, shown] at h
  cases ha : a.isEmpty <;> cases hb : b.isEmpty <;> rw [ha, hb] at h
  · exact Modifiers.eq_of_line ha hb (blank_append_inj h)
  · cases h
  · cases h
  · exact Modifiers.eq_of_keywords ((hempty ha).trans (hempty hb).symm)

/-- What is shown of the value of a field, and the number of its nodes, say what it holds. -/
theorem outline_eq {sort : FieldSort} {v w : FieldValue} (hv : sort.admits v = true)
    (hw : sort.admits w = true) (hshown : v.shown = w.shown)
    (hlength : v.children.length = w.children.length) : v.outline = w.outline := by
  cases sort <;> cases v <;> try cases hv
  all_goals cases w <;> try cases hw
  case nodes.nodes.refl.nodes.refl | optionalNodes.nodes.refl.nodes.refl =>
    exact congrArg FieldOutline.nodes hlength
  case text.text.refl.text.refl | optionalText.text.refl.text.refl =>
    exact congrArg FieldOutline.text (quoted_injective (blank_append_inj hshown))
  case flag.flag.refl.flag.refl b c =>
    have htext := blank_append_inj hshown
    revert htext
    cases b <;> cases c <;> decide
  case count.count.refl.count.refl =>
    exact congrArg FieldOutline.count (toString_nat_injective (blank_append_inj hshown))
  case word.word.word => exact congrArg FieldOutline.word (blank_append_inj hshown)
  case modifiers.modifiers.refl.modifiers.refl =>
    exact congrArg FieldOutline.modifiers (eq_of_shown_modifiers hshown)
  case optionalNodes.nodes.refl.absent.refl ns => exact absurd hshown (shown_nodes_ne_none ns)
  case optionalNodes.absent.refl.nodes.refl ns => exact absurd hshown.symm (shown_nodes_ne_none ns)
  all_goals first
    | rfl
    | cases hshown

end FieldValue

theorem Field.label_append_inj {f g : Field} {depth : Nat} {s t : String} (hname : f.name = g.name)
    (h : f.label depth ++ s = g.label depth ++ t) : s = t := by
  have hlabel : f.label depth = g.label depth := by rw [label, label, hname]
  have hlists := congrArg String.toList h
  rw [hlabel, String.toList_append, String.toList_append] at hlists
  exact String.toList_injective (List.append_cancel_left hlists)

/-- The lines of a field say what the field holds, and what the listings of its nodes are. -/
theorem Field.Alike.of_lines_eq {f g : Field} {spans : Bool} {depth : Nat} (hfg : f.Alike g)
    (h : f.lines spans depth = g.lines spans depth) :
    f.value.outline = g.value.outline ∧
      f.value.children.map (Node.listing spans (depth + 2)) =
        g.value.children.map (Node.listing spans (depth + 2)) := by
  obtain ⟨hname, sort, hf, hg⟩ := hfg
  have hboth : f.value.shown = g.value.shown ∧
      f.value.children.map (Node.listing spans (depth + 2)) =
        g.value.children.map (Node.listing spans (depth + 2)) := by
    rw [lines, lines] at h
    cases hfs : f.value.shown with
    | none =>
      cases hgs : g.value.shown with
      | none =>
        rw [FieldValue.children_of_shown hfs, FieldValue.children_of_shown hgs]
        exact ⟨rfl, rfl⟩
      | some t =>
        rw [hfs, hgs] at h
        cases h
    | some s =>
      cases hgs : g.value.shown with
      | none =>
        rw [hfs, hgs] at h
        cases h
      | some t =>
        rw [hfs, hgs] at h
        obtain ⟨hfirst, hothers⟩ := List.cons.inj h
        exact ⟨congrArg some (label_append_inj hname hfirst),
          map_eq_of_flatMap_isBlock (fun c _ => isBlock_listing spans (depth + 2) c)
            (fun c _ => isBlock_listing spans (depth + 2) c) hothers⟩
  obtain ⟨hshown, hlistings⟩ := hboth
  refine ⟨FieldValue.outline_eq hf hg hshown ?_, hlistings⟩
  simpa using congrArg List.length hlistings

/-! ### Shapes from listings -/

theorem kind_of_headerLine {a b : Node} {depth : Nat}
    (h : a.headerLine false depth = b.headerLine false depth) : a.kind = b.kind := by
  have hnames := congrArg unindented h
  rw [Node.headerLine, Node.headerLine, String.append_assoc, String.append_assoc,
    unindented_indentation (unblank_header false a), unindented_indentation (unblank_header false b)]
    at hnames
  exact NodeKind.name_injective (by simpa using hnames)

namespace Node

/-- Trees with the same listing have the same shape. The induction is on the first tree: the line of
its root says which fields there are, their lines say what they hold, and the children have the same
listings. -/
theorem sameShape_of_listing_eq {a b : Node} {depth : Nat}
    (h : a.listing false depth = b.listing false depth) : a.sameShape b = true := by
  rw [listing_eq, listing_eq] at h
  obtain ⟨hheader, hfields⟩ := List.cons.inj h
  have hkind := kind_of_headerLine hheader
  have hnames : a.fields.map Field.name = b.fields.map Field.name := by
    rw [map_name_fields, map_name_fields, hkind]
  have hlines := forall₂_lines_of_flatMap_eq hnames a.nodup_names (fun _ => wellNamed)
    (fun _ => wellNamed) hfields
  obtain ⟨houtlines, hchildren⟩ := (forall₂_values_iff (listing false (depth + 2))).1
    (List.Forall₂.mp (fun _ _ => Field.Alike.of_lines_eq) (forall₂_alike hkind) hlines)
  have houtline : a.outline = b.outline := by rw [outline, outline, hkind, houtlines]
  rw [← List.forall₂_eq_eq_eq, List.forall₂_map_left_iff, List.forall₂_map_right_iff,
    List.forall₂_iff_zip] at hchildren
  refine (sameShape_iff a b).2 ⟨houtline, fun p hp => ?_⟩
  have hx : p.1 ∈ a.children := (List.of_mem_zip hp).1
  exact sameShape_of_listing_eq (hchildren.2 hp)
termination_by sizeOf a
decreasing_by exact sizeOf_lt_of_mem_children hx

end Node

/-! ### Listings from shapes -/

theorem FieldValue.shown_eq {v w : FieldValue} (h : v.outline = w.outline) : v.shown = w.shown := by
  cases v <;> cases w <;> try cases h
  case nodes.nodes ns ns' =>
    have hlength : ns.length = ns'.length := FieldOutline.nodes.inj h
    cases ns <;> cases ns' <;> first
      | rfl
      | cases hlength
  all_goals rfl

namespace Node

/-- Trees of the same shape have the same listing. -/
theorem listing_eq_of_sameShape {a b : Node} (h : a.sameShape b = true) (depth : Nat) :
    a.listing false depth = b.listing false depth := by
  obtain ⟨houtline, hzip⟩ := (sameShape_iff a b).1 h
  have hkind : a.kind = b.kind := congrArg NodeOutline.kind houtline
  have hchildren : a.children.map (listing false (depth + 2)) =
      b.children.map (listing false (depth + 2)) := by
    rw [← List.forall₂_eq_eq_eq, List.forall₂_map_left_iff, List.forall₂_map_right_iff,
      List.forall₂_iff_zip]
    refine ⟨length_children_eq houtline, fun {x y} hxy => ?_⟩
    have hx : x ∈ a.children := (List.of_mem_zip hxy).1
    exact listing_eq_of_sameShape (hzip (x, y) hxy) (depth + 2)
  have hlines : a.fields.map (Field.lines false depth) = b.fields.map (Field.lines false depth) := by
    rw [← List.forall₂_eq_eq_eq, List.forall₂_map_left_iff, List.forall₂_map_right_iff]
    refine List.Forall₂.mp (fun f g hfg hvalue => ?_) (forall₂_alike hkind)
      ((forall₂_values_iff (listing false (depth + 2))).2
        ⟨congrArg NodeOutline.fields houtline, hchildren⟩)
    rw [Field.lines, Field.lines, Field.label, Field.label, hfg.1, FieldValue.shown_eq hvalue.1,
      List.flatMap_def, List.flatMap_def, hvalue.2]
  rw [listing_eq, listing_eq, List.flatMap_def, List.flatMap_def, hlines, headerLine, headerLine,
    hkind]
  rfl
termination_by sizeOf a
decreasing_by exact sizeOf_lt_of_mem_children hx

end Node

/-! ### Lines of nodes -/

/-- The line begins with an upper-case letter, behind the blanks in front. -/
def isHeaderLine (line : String) : Bool := (unindented line).toList.head?.any Char.isUpper

theorem isHeaderLine_headerLine (spans : Bool) (depth : Nat) (n : Node) :
    isHeaderLine (n.headerLine spans depth) = true := by
  obtain ⟨c, cs, hname, hc, -⟩ := n.kind.spelled_name
  rw [isHeaderLine, Node.headerLine, String.append_assoc,
    unindented_indentation (unblank_header spans n), String.toList_append, hname]
  exact hc

/-- The lines of nodes among the lines of a field are those of the nodes that it holds. -/
theorem filter_lines {field : Field} (hname : field.WellNamed) (spans : Bool) (depth : Nat) :
    (field.lines spans depth).filter isHeaderLine =
      field.value.children.flatMap fun c => (c.listing spans (depth + 2)).filter isHeaderLine := by
  have hline (shown : String) : isHeaderLine (field.label depth ++ shown) = false := by
    obtain ⟨c, cs, hchars, hc, -⟩ := id hname
    have hupper : c.isUpper = false := by
      delta Char.isLower at hc
      delta Char.isUpper
      simp only [Bool.and_eq_true, decide_eq_true_eq, ge_iff_le, UInt32.le_iff_toNat_le,
        decide_eq_false_iff_not] at hc ⊢
      have ha : 'a'.val.toNat = 97 := rfl
      have hz : 'Z'.val.toNat = 90 := rfl
      omega
    rw [isHeaderLine, hname.unindented_line, String.toList_append, String.toList_append, hchars]
    exact hupper
  rw [Field.lines]
  cases hshown : field.value.shown with
  | none => rw [FieldValue.children_of_shown hshown]; rfl
  | some shown =>
    rw [List.filter_cons_of_neg (by rw [hline]; decide), List.filter_flatMap]

/-- The lines of nodes in a listing follow the walk of the tree. -/
theorem map_filter_listing (spans : Bool) (depth : Nat) (n : Node) :
    ((n.listing spans depth).filter isHeaderLine).map unindented =
      n.walk.map fun m => m.kind.name ++ if spans then " @" ++ m.span.render else "" := by
  have hfields : (n.fields.flatMap (Field.lines spans depth)).filter isHeaderLine =
      n.children.flatMap fun c => (c.listing spans (depth + 2)).filter isHeaderLine := by
    rw [List.filter_flatMap, Node.children, List.flatMap_assoc]
    exact List.flatMap_congr fun field hfield => filter_lines (Node.wellNamed hfield) spans depth
  have hchildren : ∀ c ∈ n.children,
      ((c.listing spans (depth + 2)).filter isHeaderLine).map unindented =
        c.walk.map fun m => m.kind.name ++ if spans then " @" ++ m.span.render else "" :=
    fun c hc => map_filter_listing spans (depth + 2) c
  rw [Node.listing_eq, List.filter_cons_of_pos (isHeaderLine_headerLine spans depth n), hfields,
    List.map_cons, Node.walk_eq, List.map_cons, List.map_flatMap, List.map_flatMap,
    List.flatMap_congr hchildren, Node.headerLine, String.append_assoc,
    unindented_indentation (unblank_header spans n)]
termination_by sizeOf n
decreasing_by exact Node.sizeOf_lt_of_mem_children hc

/-! ### Lines -/

theorem lineFeed_notMem_toString (n : Nat) : '\n' ∉ (toString n).toList := by
  intro hmem
  rw [Nat.toString_eq_repr, Nat.repr_eq_ofList_toDigits, String.toList_ofList] at hmem
  exact absurd (Nat.isDigit_of_mem_toDigits (by decide) (by decide) hmem) (by decide)

theorem lineFeed_notMem_render (s : Span) : '\n' ∉ s.render.toList := by
  have hint (i : Int) : '\n' ∉ (toString i).toList := by
    cases i with
    | ofNat n => exact lineFeed_notMem_toString n
    | negSucc n =>
      show '\n' ∉ ("-" ++ toString (n + 1)).toList
      rw [String.toList_append, List.mem_append]
      exact not_or.2 ⟨by decide, lineFeed_notMem_toString (n + 1)⟩
  rw [Span.render, String.toList_append, String.toList_append, List.mem_append, List.mem_append]
  exact not_or.2 ⟨not_or.2 ⟨hint s.start, by decide⟩, hint s.stop⟩

theorem lineFeed_notMem_intercalate {words : List String} (h : ∀ word ∈ words, '\n' ∉ word.toList) :
    '\n' ∉ (" ".intercalate words).toList := by
  induction words with
  | nil => exact List.not_mem_nil
  | cons word words ih =>
    obtain ⟨hword, hwords⟩ := List.forall_mem_cons.1 h
    cases words with
    | nil => rwa [String.intercalate_singleton]
    | cons other words =>
      rw [String.intercalate_cons_cons, String.toList_append, String.toList_append, List.mem_append,
        List.mem_append]
      exact not_or.2 ⟨not_or.2 ⟨hword, by decide⟩, ih hwords⟩

theorem lineFeed_notMem_keywords (set : Modifiers) :
    '\n' ∉ (" ".intercalate set.keywords).toList := by
  refine lineFeed_notMem_intercalate fun word hword => ?_
  obtain ⟨m, rfl⟩ := Modifiers.exists_of_mem_keywords hword
  cases m <;> decide

theorem lineFeed_notMem_shown {sort : FieldSort} {value : FieldValue} (h : sort.admits value = true)
    {shown : String} (hshown : value.shown = some shown) : '\n' ∉ shown.toList := by
  have hblank {s : String} (hs : '\n' ∉ s.toList) : '\n' ∉ (" " ++ s).toList := by
    rw [String.toList_append, List.mem_append]
    exact not_or.2 ⟨by decide, hs⟩
  cases value with
  | node n => cases hshown; decide
  | nodes ns => cases ns <;> cases hshown <;> decide
  | absent => cases hshown
  | text value => cases hshown; exact hblank (lineFeed_notMem_quoted value)
  | flag value => cases value <;> cases hshown <;> decide
  | count value => cases hshown; exact hblank (lineFeed_notMem_toString value)
  | word value =>
    cases hshown
    cases sort <;> try cases h
    exact hblank (by simpa [FieldSort.admits] using h)
  | modifiers value =>
    rw [FieldValue.shown] at hshown
    split at hshown <;> cases hshown
    exact hblank (lineFeed_notMem_keywords value)

theorem lineFeed_notMem_indentation (depth : Nat) :
    '\n' ∉ (Node.indentation depth).toList := by
  simp [Node.indentation]

theorem lineFeed_notMem_headerLine (spans : Bool) (depth : Nat) (n : Node) :
    '\n' ∉ (n.headerLine spans depth).toList := by
  have hname : '\n' ∉ n.kind.name.toList := n.kind.spelled_name.notMem (by decide) (by decide)
  have hspan : '\n' ∉ (if spans then " @" ++ n.span.render else "").toList := by
    cases spans with
    | false => exact List.not_mem_nil
    | true =>
      rw [if_pos rfl, String.toList_append, List.mem_append]
      exact not_or.2 ⟨by decide, lineFeed_notMem_render n.span⟩
  rw [Node.headerLine, String.toList_append, String.toList_append, List.mem_append, List.mem_append]
  exact not_or.2 ⟨not_or.2 ⟨lineFeed_notMem_indentation depth, hname⟩, hspan⟩

theorem Field.WellNamed.lineFeed_notMem_label {field : Field} (h : field.WellNamed) (depth : Nat) :
    '\n' ∉ (field.label depth).toList := by
  have hname : '\n' ∉ field.name.toList := h.notMem (by decide) (by decide)
  rw [label, String.toList_append, String.toList_append, List.mem_append, List.mem_append]
  exact not_or.2 ⟨lineFeed_notMem_indentation (depth + 1), not_or.2 ⟨hname, by decide⟩⟩

/-- No line of a listing has a line feed in it. -/
theorem lineFeed_notMem_listing {spans : Bool} {depth : Nat} {n : Node} {line : String}
    (h : line ∈ n.listing spans depth) : '\n' ∉ line.toList := by
  rw [Node.listing_eq, List.mem_cons] at h
  rcases h with rfl | h
  · exact lineFeed_notMem_headerLine spans depth n
  · obtain ⟨field, hfield, h⟩ := List.mem_flatMap.1 h
    obtain ⟨-, sort, hsort, -⟩ := List.forall₂_same.1 (Node.forall₂_alike (rfl : n.kind = n.kind))
      field hfield
    rw [Field.lines] at h
    split at h
    · exact absurd h List.not_mem_nil
    · next shown hshown =>
      rcases List.mem_cons.1 h with rfl | h
      · rw [String.toList_append, List.mem_append]
        exact not_or.2 ⟨(Node.wellNamed hfield).lineFeed_notMem_label depth,
          lineFeed_notMem_shown hsort hshown⟩
      · obtain ⟨child, hchild, h⟩ := List.mem_flatMap.1 h
        have hmem : child ∈ n.children := List.mem_flatMap.2 ⟨field, hfield, hchild⟩
        exact lineFeed_notMem_listing h
termination_by sizeOf n
decreasing_by exact Node.sizeOf_lt_of_mem_children hmem

/-- The listing of a module is faithful. Two modules have the same listing without spans just when they
have the same shape; in a listing with spans the lines of nodes follow the walk of the module, one for
each node, with its kind and its span; and what is listed as one line is one line. -/
theorem listing_faithful :
    (∀ a b : Module, (Node.module a).listing false 0 = (Node.module b).listing false 0 ↔
      (Node.module a).sameShape (.module b) = true) ∧
      (∀ m : Module, (((Node.module m).listing true 0).filter isHeaderLine).map unindented =
        (Node.module m).walk.map fun n => n.kind.name ++ " @" ++ n.span.render) ∧
      ∀ (m : Module) (spans : Bool), ∀ line ∈ (Node.module m).listing spans 0,
        '\n' ∉ line.toList := by
  refine ⟨fun a b => ⟨Node.sameShape_of_listing_eq, fun h => Node.listing_eq_of_sameShape h 0⟩,
    fun m => ?_, fun m spans line hline => lineFeed_notMem_listing hline⟩
  rw [map_filter_listing]
  simp only [if_true, String.append_assoc]

end PklSyntax
