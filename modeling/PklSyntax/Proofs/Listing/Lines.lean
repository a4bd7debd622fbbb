import PklSyntax.Proofs.Listing.Quoted
import PklSyntax.Proofs.Listing.Schema
import PklSyntax.Tree.Listing

/-!
# Lines of listings

The listing of a node is a *block*: its first line stands at a margin, and all other lines stand
further in. So are the lines of a field. Where blocks at one margin follow one another, each of them
ends before the next line that stands at the margin, so the blocks can be told apart.

The first line of a field names it, and behind the name stands what is shown of its value; its other
lines are the listings of the nodes that it holds. As the fields of a node have different names, the
lines of the fields say which of them are shown.

## Main definitions

* `margin`, `unindented`: the number of blanks in front of a line, and the line behind them.
* `FieldValue.shown`, `Field.lines`: what is shown of a value, and the lines of a field.
* `IsBlock`: a line at a margin with lines behind it that stand further in.

## Main statements

* `Node.listing_eq`: a listing is a line for the node and then the lines of its fields.
* `isBlock_listing`: a listing is a block.
* `map_eq_of_flatMap_isBlock`, `forall₂_lines_of_flatMap_eq`: blocks, and the lines of fields, can be
  told apart.
-/

namespace PklSyntax

variable {α : Type}

/-! ### Margins -/

/-- The number of blanks in front of a line. -/
def margin (line : String) : Nat := (line.toList.takeWhile (· == ' ')).length

/-- The line without the blanks in front. -/
def unindented (line : String) : String := String.ofList (line.toList.dropWhile (· == ' '))

/-- The text begins with a character other than a blank. -/
def Unblank (text : String) : Prop := ∃ c cs, text.toList = c :: cs ∧ c ≠ ' '

theorem Unblank.append {s : String} (h : Unblank s) (t : String) : Unblank (s ++ t) := by
  obtain ⟨c, cs, hs, hc⟩ := h
  exact ⟨c, cs ++ t.toList, by rw [String.toList_append, hs, List.cons_append], hc⟩

theorem margin_indentation {text : String} (h : Unblank text) (depth : Nat) :
    margin (Node.indentation depth ++ text) = 2 * depth := by
  obtain ⟨c, cs, htext, hc⟩ := h
  rw [margin, Node.indentation, String.toList_append, String.toList_ofList, htext,
    List.takeWhile_append_of_pos (by simp), List.takeWhile_cons_of_neg (by simpa using hc),
    List.append_nil, List.length_replicate]

theorem unindented_indentation {text : String} (h : Unblank text) (depth : Nat) :
    unindented (Node.indentation depth ++ text) = text := by
  obtain ⟨c, cs, htext, hc⟩ := h
  rw [unindented, Node.indentation, String.toList_append, String.toList_ofList, htext,
    List.dropWhile_append_of_pos (by simp), List.dropWhile_cons_of_neg (by simpa using hc), ← htext,
    String.ofList_toList]

/-! ### Blocks -/

/-- A line at the margin, with lines behind it that all stand further in. -/
def IsBlock (m : Nat) (block : List String) : Prop :=
  ∃ first others, block = first :: others ∧ margin first = m ∧ ∀ line ∈ others, m < margin line

/-- A block ends before the next line that does not stand further in. -/
theorem IsBlock.append_inj {m : Nat} {block block' rest rest' : List String}
    (hblock : IsBlock m block) (hblock' : IsBlock m block')
    (hrest : ∀ line ∈ rest.head?, margin line ≤ m) (hrest' : ∀ line ∈ rest'.head?, margin line ≤ m)
    (h : block ++ rest = block' ++ rest') : block = block' ∧ rest = rest' := by
  obtain ⟨first, others, rfl, -, hothers⟩ := hblock
  obtain ⟨first', others', rfl, -, hothers'⟩ := hblock'
  have htake {ls rest : List String} (hls : ∀ line ∈ ls, m < margin line)
      (hrest : ∀ line ∈ rest.head?, margin line ≤ m) :
      (ls ++ rest).takeWhile (fun line => decide (m < margin line)) = ls := by
    rw [List.takeWhile_append_of_pos (by simpa using hls)]
    cases rest with
    | nil => simp
    | cons line rest =>
      rw [List.takeWhile_cons_of_neg (by simpa using hrest line rfl), List.append_nil]
  rw [List.cons_append, List.cons_append, List.cons.injEq] at h
  obtain ⟨rfl, hothers_eq⟩ := h
  obtain rfl : others = others' := by
    rw [← htake hothers hrest, hothers_eq, htake hothers' hrest']
  exact ⟨rfl, List.append_cancel_left hothers_eq⟩

/-- What blocks begin with, one after the other, is the first line of one of them. -/
theorem exists_of_head?_flatMap {f : α → List String} {as : List α} {line : String}
    (h : line ∈ (as.flatMap f).head?) : ∃ a ∈ as, line ∈ (f a).head? := by
  induction as with
  | nil => exact absurd h (by simp)
  | cons a as ih =>
    cases ha : f a with
    | nil =>
      rw [List.flatMap_cons, ha, List.nil_append] at h
      obtain ⟨b, hb, hline⟩ := ih h
      exact ⟨b, List.mem_cons_of_mem a hb, hline⟩
    | cons first others =>
      rw [List.flatMap_cons, ha, List.cons_append, List.head?_cons] at h
      exact ⟨a, List.mem_cons_self, ha ▸ h⟩

theorem IsBlock.margin_of_head? {m : Nat} {block : List String} (h : IsBlock m block) {line : String}
    (hline : line ∈ block.head?) : margin line = m := by
  obtain ⟨first, others, rfl, hmargin, -⟩ := h
  rw [List.head?_cons, Option.mem_some_iff] at hline
  rw [← hline, hmargin]

/-- Blocks at one margin, one after the other, can be told apart. -/
theorem map_eq_of_flatMap_isBlock {m : Nat} {f : α → List String} {as bs : List α}
    (has : ∀ a ∈ as, IsBlock m (f a)) (hbs : ∀ b ∈ bs, IsBlock m (f b))
    (h : as.flatMap f = bs.flatMap f) : as.map f = bs.map f := by
  have hhead {cs : List α} (hcs : ∀ c ∈ cs, IsBlock m (f c)) :
      ∀ line ∈ (cs.flatMap f).head?, margin line ≤ m := by
    intro line hline
    obtain ⟨c, hc, hline⟩ := exists_of_head?_flatMap hline
    exact Nat.le_of_eq ((hcs c hc).margin_of_head? hline)
  induction as generalizing bs with
  | nil =>
    cases bs with
    | nil => rfl
    | cons b bs =>
      obtain ⟨first, others, hb, -⟩ := hbs b List.mem_cons_self
      rw [List.flatMap_nil, List.flatMap_cons, hb] at h
      cases h
  | cons a as ih =>
    obtain ⟨hfirst, has⟩ := List.forall_mem_cons.1 has
    cases bs with
    | nil =>
      obtain ⟨first, others, ha, -⟩ := hfirst
      rw [List.flatMap_nil, List.flatMap_cons, ha] at h
      cases h
    | cons b bs =>
      obtain ⟨hfirst', hbs⟩ := List.forall_mem_cons.1 hbs
      rw [List.flatMap_cons, List.flatMap_cons] at h
      obtain ⟨hab, hrest⟩ := hfirst.append_inj hfirst' (hhead has) (hhead hbs) h
      rw [List.map_cons, List.map_cons, hab, ih has hbs hrest]

/-! ### Lines of fields -/

/-- What is shown of a value behind the name of its field; nothing at all, and an empty set of
modifiers, are not shown. -/
def FieldValue.shown : FieldValue → Option String
  | node _ => some ""
  | nodes [] => some " []"
  | nodes (_ :: _) => some ""
  | absent => none
  | text value => some (" " ++ quoted value)
  | flag value => some (" " ++ if value then "True" else "False")
  | count value => some (" " ++ toString value)
  | word value => some (" " ++ value)
  | modifiers value => if value.isEmpty then none else some (" " ++ " ".intercalate value.keywords)

theorem FieldValue.children_of_shown {value : FieldValue} (h : value.shown = none) :
    value.children = [] := by
  cases value with
  | node n => cases h
  | nodes ns => cases ns <;> cases h
  | _ => rfl

namespace Field

/-- The name of a field with the blanks in front of it, in a node that stands at `depth`. -/
def label (depth : Nat) (field : Field) : String :=
  Node.indentation (depth + 1) ++ (field.name ++ ":")

/-- The lines of a field of a node that stands at `depth`. -/
def lines (spans : Bool) (depth : Nat) (field : Field) : List String :=
  match field.value.shown with
  | none => []
  | some shown => (field.label depth ++ shown) ::
      field.value.children.flatMap (Node.listing spans (depth + 2))

end Field

/-- A listing is a line for the node and then the lines of its fields. -/
theorem Node.listing_eq (spans : Bool) (depth : Nat) (n : Node) :
    n.listing spans depth =
      headerLine spans depth n :: n.fields.flatMap (Field.lines spans depth) := by
  rw [listing]
  congr 1
  conv_rhs => rw [← List.attach_map_subtype_val n.fields, List.flatMap_map]
  congr 1
  funext ⟨⟨name, value⟩, hfield⟩
  have hline (shown : String) :
      fieldLine depth name shown = Field.label depth ⟨name, value⟩ ++ (" " ++ shown) := by
    rw [fieldLine, Field.label, show ": " = ":" ++ " " from rfl]
    simp only [String.append_assoc]
  have hlabel : indentation (depth + 1) ++ name ++ ":" = Field.label depth ⟨name, value⟩ ++ "" := by
    rw [Field.label, String.append_empty, String.append_assoc]
  cases value with
  | node c => simp [Field.lines, FieldValue.shown, hlabel]
  | nodes ns =>
    cases ns with
    | nil => simp [Field.lines, FieldValue.shown, hline, FieldValue.children]
    | cons c cs =>
      simp only [Field.lines, FieldValue.shown, hlabel, FieldValue.children]
      refine congrArg (List.cons _) ?_
      conv_rhs => rw [← List.attach_map_subtype_val (c :: cs), List.flatMap_map]
  | modifiers m => 
    simp only [Field.lines, FieldValue.shown, hline]
    split <;> simp
  | _ => simp [Field.lines, FieldValue.shown, hline]

/-! ### Lines of fields are blocks -/

namespace Field

variable {field : Field} {spans : Bool} {depth : Nat}

theorem WellNamed.unblank (h : field.WellNamed) (text : String) :
    Unblank (field.name ++ ":" ++ text) := by
  obtain ⟨c, cs, hname, hc, -⟩ := h
  have hblank : c ≠ ' ' := by
    rintro rfl
    exact absurd hc (by decide)
  have hunblank : Unblank field.name := ⟨c, cs, hname, hblank⟩
  exact (hunblank.append ":").append text

theorem WellNamed.margin_line (h : field.WellNamed) (shown : String) :
    margin (field.label depth ++ shown) = 2 * (depth + 1) := by
  rw [label, String.append_assoc]
  exact margin_indentation (h.unblank shown) _

theorem WellNamed.unindented_line (h : field.WellNamed) (shown : String) :
    unindented (field.label depth ++ shown) = field.name ++ ":" ++ shown := by
  rw [label, String.append_assoc]
  exact unindented_indentation (h.unblank shown) _

/-- The name of a field ends at the first colon of its line. -/
theorem WellNamed.takeWhile_line (h : field.WellNamed) (shown : String) :
    (unindented (field.label depth ++ shown)).toList.takeWhile (· != ':') = field.name.toList := by
  have hall : ∀ c ∈ field.name.toList, (c != ':') = true := by
    intro c hc
    rw [bne_iff_ne]
    rintro rfl
    exact h.notMem (by decide) (by decide) hc
  rw [h.unindented_line, String.toList_append, String.toList_append, List.append_assoc,
    List.takeWhile_append_of_pos hall]
  exact List.append_nil _

end Field

theorem unblank_header (spans : Bool) (n : Node) :
    Unblank (n.kind.name ++ if spans then " @" ++ n.span.render else "") := by
  obtain ⟨c, cs, hname, hc, -⟩ := n.kind.spelled_name
  refine Unblank.append ⟨c, cs, hname, ?_⟩ _
  rintro rfl
  exact absurd hc (by decide)

theorem margin_headerLine (spans : Bool) (depth : Nat) (n : Node) :
    margin (Node.headerLine spans depth n) = 2 * depth := by
  rw [Node.headerLine, String.append_assoc]
  exact margin_indentation (unblank_header spans n) depth

/-- No line of a listing stands further out than its first line. -/
theorem le_margin_of_mem_listing {spans : Bool} {depth : Nat} {n : Node} {line : String}
    (h : line ∈ n.listing spans depth) : 2 * depth ≤ margin line := by
  rw [Node.listing_eq, List.mem_cons] at h
  rcases h with rfl | h
  · exact Nat.le_of_eq (margin_headerLine spans depth n).symm
  · obtain ⟨field, hfield, h⟩ := List.mem_flatMap.1 h
    rw [Field.lines] at h
    split at h
    · exact absurd h List.not_mem_nil
    · rcases List.mem_cons.1 h with rfl | h
      · rw [(Node.wellNamed hfield).margin_line]
        omega
      · obtain ⟨child, hchild, h⟩ := List.mem_flatMap.1 h
        have hmem : child ∈ n.children := List.mem_flatMap.2 ⟨field, hfield, hchild⟩
        have := le_margin_of_mem_listing h
        omega
termination_by sizeOf n
decreasing_by exact Node.sizeOf_lt_of_mem_children hmem

/-- The lines of a field that is shown are a block. -/
theorem isBlock_lines {field : Field} {spans : Bool} {depth : Nat} (hname : field.WellNamed)
    (h : field.lines spans depth ≠ []) : IsBlock (2 * (depth + 1)) (field.lines spans depth) := by
  rw [Field.lines] at h ⊢
  split
  · next hshown => exact absurd (by rw [hshown]) h
  · next shown hshown =>
    refine ⟨_, _, rfl, hname.margin_line shown, fun line hline => ?_⟩
    obtain ⟨child, -, hline⟩ := List.mem_flatMap.1 hline
    have := le_margin_of_mem_listing hline
    omega

/-- A listing is a block. -/
theorem isBlock_listing (spans : Bool) (depth : Nat) (n : Node) :
    IsBlock (2 * depth) (n.listing spans depth) := by
  rw [Node.listing_eq]
  refine ⟨_, _, rfl, margin_headerLine spans depth n, fun line hline => ?_⟩
  obtain ⟨field, hfield, hline⟩ := List.mem_flatMap.1 hline
  obtain ⟨first, others, hlines, hmargin, hothers⟩ :=
    isBlock_lines (Node.wellNamed hfield) (List.ne_nil_of_mem hline)
  rw [hlines] at hline
  rcases List.mem_cons.1 hline with rfl | hline
  · omega
  · have := hothers line hline
    omega

/-- The first line of a field names the field. -/
theorem takeWhile_of_head?_lines {field : Field} {spans : Bool} {depth : Nat}
    (hname : field.WellNamed) {line : String} (h : line ∈ (field.lines spans depth).head?) :
    (unindented line).toList.takeWhile (· != ':') = field.name.toList := by
  rw [Field.lines] at h
  split at h
  · exact absurd h (by simp)
  · rw [List.head?_cons, Option.mem_some_iff] at h
    exact h ▸ hname.takeWhile_line _

/-- A field is not shown where all lines at the margin name other fields. -/
theorem lines_eq_nil {f : Field} {gs : List Field} {spans : Bool} {depth : Nat}
    {rest : List String} (hf : f.WellNamed) (hgs : ∀ g ∈ gs, g.WellNamed)
    (hnot : f.name ∉ gs.map Field.name)
    (h : f.lines spans depth ++ rest = gs.flatMap (Field.lines spans depth)) :
    f.lines spans depth = [] := by
  cases hlines : f.lines spans depth with
  | nil => rfl
  | cons first others =>
    have hmem : first ∈ (f.lines spans depth).head? := by
      rw [hlines]
      rfl
    have hmem' : first ∈ (gs.flatMap (Field.lines spans depth)).head? := by
      rw [← h, hlines]
      rfl
    obtain ⟨g, hg, hline⟩ := exists_of_head?_flatMap hmem'
    have hsame : f.name = g.name := String.toList_injective
      ((takeWhile_of_head?_lines hf hmem).symm.trans (takeWhile_of_head?_lines (hgs g hg) hline))
    exact absurd (hsame ▸ List.mem_map_of_mem hg) hnot

/-- The lines of fields begin at the margin. -/
theorem margin_of_head?_lines {fs : List Field} {spans : Bool} {depth : Nat}
    (hfs : ∀ f ∈ fs, f.WellNamed) :
    ∀ line ∈ (fs.flatMap (Field.lines spans depth)).head?, margin line ≤ 2 * (depth + 1) := by
  intro line hline
  obtain ⟨f, hf, hline⟩ := exists_of_head?_flatMap hline
  have hne : f.lines spans depth ≠ [] := by
    rintro heq
    rw [heq] at hline
    cases hline
  exact Nat.le_of_eq ((isBlock_lines (hfs f hf) hne).margin_of_head? hline)

/-- The lines of fields with different names, one after the other, can be told apart, though some of
the fields may not be shown. -/
theorem forall₂_lines_of_flatMap_eq {spans : Bool} {depth : Nat} {fs gs : List Field}
    (hnames : fs.map Field.name = gs.map Field.name) (hnodup : (fs.map Field.name).Nodup)
    (hfs : ∀ f ∈ fs, f.WellNamed) (hgs : ∀ g ∈ gs, g.WellNamed)
    (h : fs.flatMap (Field.lines spans depth) = gs.flatMap (Field.lines spans depth)) :
    List.Forall₂ (fun f g => f.lines spans depth = g.lines spans depth) fs gs := by
  induction fs generalizing gs with
  | nil =>
    rw [List.map_eq_nil_iff.1 hnames.symm]
    exact .nil
  | cons f fs ih =>
    obtain ⟨g, gs, rfl, hname, hnames⟩ := List.map_eq_cons_iff.1 hnames.symm
    obtain ⟨hnot, hnodup⟩ := List.nodup_cons.1 hnodup
    obtain ⟨hf, hfs⟩ := List.forall_mem_cons.1 hfs
    obtain ⟨hg, hgs⟩ := List.forall_mem_cons.1 hgs
    rw [List.flatMap_cons, List.flatMap_cons] at h
    have hboth : f.lines spans depth = g.lines spans depth ∧
        fs.flatMap (Field.lines spans depth) = gs.flatMap (Field.lines spans depth) := by
      by_cases hfnil : f.lines spans depth = []
      · have hgnil : g.lines spans depth = [] := by
          rw [hfnil, List.nil_append] at h
          exact lines_eq_nil hg hfs (hname ▸ hnot) h.symm
        rw [hfnil, hgnil] at h
        exact ⟨hfnil.trans hgnil.symm, h⟩
      · have hgnil : g.lines spans depth ≠ [] := by
          intro hgnil
          rw [hgnil, List.nil_append] at h
          exact hfnil (lines_eq_nil hf hgs (hnames ▸ hnot) h)
        exact (isBlock_lines hf hfnil).append_inj (isBlock_lines hg hgnil)
          (margin_of_head?_lines hfs) (margin_of_head?_lines hgs) h
    exact .cons hboth.1 (ih hnames.symm hnodup hfs hgs hboth.2)

end PklSyntax
