import PklSyntax.Proofs.LineEnding.Module

/-!
# What other line endings change

A text without carriage returns, and without errors, is compared with the text in which a carriage
return stands in front of every line feed. The declarations are the same ones at their new places, and
only the text in strings has changed. The same problems are reported, in the same order.

A warning of a doc comment that no declaration has taken marks the whole comment, and so the carriage
return with which its last line ends. All that diagnostics are compared by is what is found, and where
it begins.

## Main definitions

* `Finding`: what diagnostics are compared by.
* `LineFeeds.SameFindings`: the same has been found in both texts.

## Main statements

* `LineFeeds.moduleDeclarations_follows`: what the readings of the two texts come to.
* `sources_eq_constantValues`: the sources in a tree are the values of the strings of the text.
* `parse_crlfText`: a parse does not depend on the line endings.
-/

namespace PklSyntax

open PklSyntax.Parser

/-- What has been found at an offset. -/
structure Finding where
  code : String
  isError : Bool
  offset : Int

/-- What a diagnostic says, with its offset moved. -/
def Diagnostic.finding (offset : Int → Int) (d : Diagnostic) : Finding where
  code := d.code
  isError := d.isError
  offset := offset d.offset

/-- Sorting diagnostics sorts what they say, as long as offsets stay in their order. -/
theorem map_finding_inTextOrder {offset : Int → Int} (hoffset : ∀ i j, offset i ≤ offset j ↔ i ≤ j)
    (ds : Array Diagnostic) :
    (inTextOrder ds).map (Diagnostic.finding offset) =
      (ds.toList.map (Diagnostic.finding offset)).mergeSort fun a b => a.offset ≤ b.offset :=
  List.map_mergeSort fun a _ b _ => by simp [Diagnostic.finding, hoffset]

namespace LineFeeds

variable {W : LineFeeds} {s s' t u : State}

variable (W) in
/-- The same has been found in both texts, in the same order. -/
def SameFindings (s s' : State) : Prop :=
  s'.diagnostics.toList.map (Diagnostic.finding id) =
    s.diagnostics.toList.map (Diagnostic.finding W.placement.offset)

/-! ### Diagnostics -/

/-- The diagnostic begins at the new place. -/
theorem offset_placed (d : Diagnostic) :
    (d.placed W.placement).offset = W.placement.offset d.offset := by
  have hprimary : Label.isPrimary ∘ Label.placed W.placement = Label.isPrimary := rfl
  simp only [Diagnostic.offset, Diagnostic.span?, Diagnostic.placed, List.find?_map, hprimary,
    Option.map_map]
  cases d.labels.find? Label.isPrimary <;> rfl

theorem sameFindings_moved (s : State) : W.SameFindings s (W.moved s) := by
  simp only [SameFindings, moved, Array.toList_map, List.map_map]
  refine List.map_congr_left fun d _ => ?_
  simp only [Function.comp_apply, Diagnostic.finding, offset_placed]
  rfl

theorem SameFindings.push {d d' : Diagnostic} (h : W.SameFindings s s')
    (hd : d'.finding id = d.finding W.placement.offset) :
    W.SameFindings { s with diagnostics := s.diagnostics.push d }
      { s' with diagnostics := s'.diagnostics.push d' } := by
  simp only [SameFindings, Array.toList_push, List.map_append, List.map_singleton, hd]
  exact congrArg (· ++ _) h

/-- The same is found in the same order of the text. -/
theorem SameFindings.inTextOrder (h : W.SameFindings s s') :
    (inTextOrder s'.diagnostics).map (Diagnostic.finding id) =
      (inTextOrder s.diagnostics).map (Diagnostic.finding W.placement.offset) := by
  have hid (i j : Int) : id i ≤ id j ↔ i ≤ j := Iff.rfl
  rw [map_finding_inTextOrder hid, map_finding_inTextOrder fun _ _ => offset_le_offset, h]

/-! ### Doc comments that no declaration has taken -/

theorem orphans_moved (s : State) :
    (W.moved s).orphans = s.orphans.map (DocComment.placed W.placement) := by
  simp only [State.orphans, moved, Array.toList_map, List.zipIdx_map, List.filter_map, List.map_map]
  rfl

/-- The induction is on the doc comments. -/
theorem forM_orphaned (docs : List DocComment) (h : W.SameFindings s s') :
    ∃ t t', (docs.forM fun doc => report .orphanedDocComment doc.span) W.front s = .ok () t ∧
      ((docs.map (DocComment.placed W.placement)).forM
        fun doc => report .orphanedDocComment doc.span) W.behind s' = .ok () t' ∧
      W.SameFindings t t' := by
  induction docs generalizing s s' with
  | nil => exact ⟨s, s', rfl, rfl, h⟩
  | cons doc docs ih => exact ih (h.push rfl)

theorem reportOrphans_follows (h : reportOrphans W.front s = .ok () t) :
    ∃ t', reportOrphans W.behind (W.moved s) = .ok () t' ∧ W.SameFindings t t' := by
  have horphans (ctx : Context) (s : State) : reportOrphans ctx s =
      (if ctx.options.docCommentWarnings = true then
        s.orphans.forM fun doc => report .orphanedDocComment doc.span
      else pure () : Parser Unit) ctx s := by
    rw [reportOrphans, theOptions_looks.bind_apply]
    split <;> rfl
  rw [horphans] at h ⊢
  by_cases hasked : W.options.docCommentWarnings = true
  · rw [if_pos hasked] at h ⊢
    obtain ⟨u, u', hfront, hbehind, hsame⟩ := forM_orphaned s.orphans (W.sameFindings_moved s)
    cases hfront.symm.trans h
    rw [orphans_moved]
    exact ⟨u', hbehind, hsame⟩
  · rw [if_neg hasked] at h ⊢
    cases h
    exact ⟨_, rfl, W.sameFindings_moved s⟩

/-! ### The readings of both texts -/

/-- Without an error, the reading of the text with other line endings comes to the same declarations at
their new places, and finds the same. -/
theorem moduleDeclarations_follows {decls : List Declaration}
    (hrun : moduleDeclarations W.front {} = .ok decls s) (herrors : s.errorCount = 0)
    (hsources : ∀ literal ∈ sourcesFrom W.front (W.text.size + 1) {} {}, literal.multiline = false) :
    ∃ s', moduleDeclarations W.behind {} = .ok (decls.map (Declaration.placed W.placement)) s' ∧
      W.SameFindings s s' := by
  obtain ⟨progress, t, s₁, hloop, horphans, hgrown, hfront⟩ := moduleDeclarations_rounds W.front
  obtain ⟨progress', t', s₂, hloop', horphans', -, hbehind⟩ := moduleDeclarations_rounds W.behind
  cases hfront.symm.trans hrun
  have hle := hgrown.toKept.errorCount_le
  have hsize : W.text.size + 1 ≤ W.crlf.size + 1 := by
    have := W.size_sub_le 0
    rw [place_zero] at this
    omega
  have hempty : W.moved {} = {} := by simp [moved, place_zero]
  have hfollows := rounds_declarations hsize hsources hloop (by omega)
  have hnone : Progress.placed W.placement {} = {} := by simp [Progress.placed]
  rw [hempty, hnone, hloop'] at hfollows
  cases hfollows
  obtain ⟨u, hrun', hsame⟩ := reportOrphans_follows horphans
  cases horphans'.symm.trans hrun'
  exact ⟨s₂, by simpa [Progress.placed] using hbehind, hsame⟩

end LineFeeds

/-! ### The results of both parses -/

/-- A result without errors, by the record from which it is made. -/
theorem any_isError_inTextOrder {s : State} :
    (inTextOrder s.diagnostics).any Diagnostic.isError = false ↔ s.errorCount = 0 := by
  rw [State.errorCount, ← Array.countP_toList, ← (List.mergeSort_perm _ _).countP_eq,
    List.countP_eq_zero, List.any_eq_false]
  rfl

/-- In a text without errors the sources of the imports and clauses are the values of the strings that
stand there. -/
theorem sources_eq_constantValues {text filename : String} {options : Options}
    (h : (parse text filename options).hasErrors = false) :
    (parse text filename options).module.declarations.filterMap Declaration.source? =
      (sourceLiterals text options).map StringLiteral.constantValue := by
  obtain ⟨progress, t, s, hloop, -, hgrown, hrun⟩ :=
    moduleDeclarations_rounds ⟨text.toList.toArray, options⟩
  rw [parse_of_run hrun] at h ⊢
  have hle := hgrown.toKept.errorCount_le
  have herrors := any_isError_inTextOrder.1 h
  exact (rounds_sources hloop (by omega)).trans (List.nil_append _)

/-- A parse does not depend on the line endings. In a text without carriage returns that is parsed
without errors, and in which no source is a string between triple quotes, other line endings change
nothing but the text in strings: there are no errors, the same diagnostics are reported in the same
order, and the declarations have the shape of those of the text, with other line endings in their
text. -/
theorem parse_crlfText (text filename : String) (options : Options) (hreturn : '\r' ∉ text.toList)
    (herrors : (parse text filename options).hasErrors = false)
    (hsources : ∀ literal ∈ sourceLiterals text options, literal.multiline = false) :
    let first := parse text filename options
    let second := parse (crlfText text) filename options
    second.hasErrors = false ∧
      second.diagnostics.map Diagnostic.code = first.diagnostics.map Diagnostic.code ∧
      Node.sameShapes (second.module.declarations.map Node.ofDeclaration)
        ((first.module.declarations.map (Declaration.placed (.ofText crlfText))).map
          Node.ofDeclaration) = true := by
  let W : LineFeeds := ⟨text.toList.toArray, options, hreturn⟩
  obtain ⟨progress, t, s, -, -, -, hrun⟩ := moduleDeclarations_rounds W.front
  have hfirst : parse text filename options = _ := parse_of_run hrun
  rw [hfirst] at herrors ⊢
  obtain ⟨s', hrun', hsame⟩ := LineFeeds.moduleDeclarations_follows hrun
    (any_isError_inTextOrder.1 herrors) hsources
  have hcrlf : (crlfText text).toList.toArray = W.crlf := by
    rw [crlfText, String.toList_ofList]
    rfl
  have hbehind : moduleDeclarations ⟨(crlfText text).toList.toArray, options⟩ {} = _ :=
    (congrArg (fun chars => moduleDeclarations ⟨chars, options⟩ {}) hcrlf).trans hrun'
  have hsecond : parse (crlfText text) filename options = _ := parse_of_run hbehind
  have hfindings := hsame.inTextOrder
  rw [hsecond]
  refine ⟨?_, ?_, Node.sameShapes_placed W.text_placement _⟩
  · have hany := congrArg (List.any · Finding.isError) hfindings
    simp only [List.any_map] at hany
    exact hany.trans herrors
  · have hcodes := congrArg (List.map Finding.code) hfindings
    rw [List.map_map, List.map_map] at hcodes
    exact hcodes

/-- A text with an import, a string of two lines, and a doc comment that belongs to nothing. -/
theorem parse_crlfText_two_lines :
    let text := "import \"a\"\nx = \"\"\"\n  one\n  two\n  \"\"\"\n/// on\n/// x\n"
    (parse (crlfText text) "m" {}).hasErrors = false ∧
      (parse (crlfText text) "m" {}).diagnostics.map Diagnostic.code = ["W300"] := by
  have hcodes : (parse "import \"a\"\nx = \"\"\"\n  one\n  two\n  \"\"\"\n/// on\n/// x\n" "m"
      {}).diagnostics.map Diagnostic.code = ["W300"] := by decide +kernel
  obtain ⟨herrors, hsame, -⟩ :=
    parse_crlfText "import \"a\"\nx = \"\"\"\n  one\n  two\n  \"\"\"\n/// on\n/// x\n" "m" {}
      (by decide) (by decide +kernel) (by decide +kernel)
  exact ⟨herrors, hsame.trans hcodes⟩

end PklSyntax
