import PklSyntax.Proofs.Documentation.Items
import PklSyntax.Proofs.Moving.Clause
import PklSyntax.Proofs.Names.Declaration

/-!
# Between declarations

Between two declarations of a module a parse is *between* them: it stands where the last token
ended, and the doc comments that were taken lie in front of that place. So the doc comment that
waits is the last one of the trivia behind it, whatever was read before, and it does not matter from
which of the places in front of the next token these trivia are counted, as long as they lead to the
same token with the same doc comment in front of it.

A declaration is read beside itself: the rules for two texts, applied to one text, say what it takes
and where it ends. What stands where it begins can only begin a declaration.

## Main definitions

* `Leads`: two places from which trivia lead to the same token.
* `Between`: a parse between declarations.
* `DeclarationRead`: a declaration has been read.

## Main statements

* `Between.pending`, `Between.exists_lead`: the doc comment in front of the next declaration.
* `Between.anchor`: another place that the trivia are counted from.
* `Grammar.declarationRead`: what a declaration takes, and where it ends.
* `Grammar.follows_of_declaration`: how declarations begin.
-/

namespace PklSyntax

open PklSyntax.Parser

variable {text : Array Char} {ctx : Context} {s t u : State} {c c' i j : Nat} {decl : Declaration}

/-! ### Ways to the next token -/

/-- From both places the trivia lead to the same token with the same doc comment in front of it, and
no comment among them is left open. -/
structure Leads (text : Array Char) (i j : Nat) : Prop where
  le : i ≤ j
  skipEnd_eq : skipEnd text i = skipEnd text j
  doc_eq : (docsFrom text i).getLast? = (docsFrom text j).getLast?
  closed : AllClosed text i
  closed_behind : AllClosed text j

namespace Leads

theorem refl (h : AllClosed text i) : Leads text i i := ⟨Nat.le_refl i, rfl, rfl, h, h⟩

/-- A blank in front changes nothing. -/
theorem of_blank (hblank : isTriviaBlank (charAt text i) = true) (h : Leads text (i + 1) j) :
    Leads text i j := by
  obtain ⟨hskip, hdocs, hdiags⟩ := triviaFrom_blank hblank
  have hclosed : AllClosed text i ↔ AllClosed text (i + 1) := by rw [AllClosed, hdiags, AllClosed]
  exact ⟨Nat.le_of_succ_le h.le, by rw [hskip, h.skipEnd_eq], by rw [hdocs, h.doc_eq],
    hclosed.2 h.closed, h.closed_behind⟩

/-- Blanks in front change nothing. -/
theorem of_blanks {k : Nat} (hle : i ≤ k)
    (hblank : ∀ n, i ≤ n → n < k → isTriviaBlank (charAt text n) = true) (h : Leads text k j) :
    Leads text i j := by
  induction k, hle using Nat.le_induction with
  | base => exact h
  | succ k hle ih =>
    exact ih (fun n hi hn => hblank n hi (by omega)) (.of_blank (hblank k hle (by omega)) h)

/-- A comment in front changes nothing, if it is no doc comment and not left open. -/
theorem of_item {item : Trivia} (hitem : triviaAt? text i = some item) (hdoc : item.doc? = none)
    (hopen : item.diagnostic? = none) (h : Leads text item.stop j) : Leads text i j := by
  have hlt := (triviaAt?_spec hitem).1
  refine ⟨Nat.le_trans (Nat.le_of_lt hlt) h.le, by rw [skipEnd_of_some hitem, h.skipEnd_eq], ?_, ?_,
    h.closed_behind⟩
  · rw [docsFrom, triviaFrom_of_some hitem, List.filterMap_cons, hdoc]
    exact h.doc_eq
  · rw [AllClosed, triviaFrom_of_some hitem, List.filterMap_cons, hopen]
    exact h.closed

/-- Trivia lead to where they end, when there is no doc comment among them. -/
theorem to_skipEnd (h : AllClosed text i) (hdoc : (docsFrom text i).getLast? = none) :
    Leads text i (skipEnd text i) where
  le := le_skipEnd i
  skipEnd_eq := (skipEnd_skipEnd i).symm
  doc_eq := by rw [hdoc, docsFrom_skipEnd]; rfl
  closed := h
  closed_behind := allClosed_skipEnd i

end Leads

/-! ### Parses between declarations -/

/-- A parse between two declarations: it stands where the last token ended at `c`, and the doc
comments that were taken lie in front of that place. -/
structure Between (text : Array Char) (s : State) (c : Nat) : Prop where
  stands : Stands text s c
  mode_eq : s.mode = .loose
  attached : ∀ i ∈ s.attached, s.DocEndsBy i c

namespace Between

theorem initial (text : Array Char) : Between text {} 0 where
  stands := ⟨Nat.zero_le _, by simp, .inl ⟨rfl, by simp⟩⟩
  mode_eq := rfl
  attached := by simp

/-- The doc comment that waits is the last one of the trivia behind the last token. -/
theorem pending (h : Between text s c) (hend : s.triviaEnd = some s.pos) :
    s.pending = (docsFrom text c).getLast? := by
  obtain ⟨-, hdoc⟩ := h.stands.of_skipped hend
  rw [State.pending_eq, ← hdoc]
  split
  · rfl
  · rename_i hcond
    have htaken : s.docs.size - 1 ∈ s.attached := by
      by_contra hnot
      exact hcond ⟨hend, by rw [← Bool.not_eq_true, List.contains_iff_mem]; exact hnot⟩
    cases hrun : s.runDoc? with
    | none => rfl
    | some doc =>
      -- What was taken lies in front of the last token, and the trivia behind it.
      obtain ⟨start, stop, hspan, hle, hlt, -⟩ := docsFrom_getLast? (hdoc.symm.trans hrun)
      rw [State.runDoc?] at hrun
      split at hrun
      · have hends := h.attached _ htaken doc hrun
        rw [hspan, Span.ofNat] at hends
        simp only at hends
        omega
      · cases hrun

/-- Behind the trivia that follow, the parse is still between declarations. -/
theorem skipTrivia (h : Between text s c) :
    Between text (s.skipTrivia text) c ∧ (s.skipTrivia text).pos = skipEnd text c ∧
      (s.skipTrivia text).triviaEnd = some (s.skipTrivia text).pos := by
  obtain ⟨hon, hpos, hend⟩ := h.stands.skipTrivia h.mode_eq
  refine ⟨⟨hon.stands, hon.mode_eq.trans h.mode_eq, fun i hi => ?_⟩, hpos, hend⟩
  rw [h.stands.attached_skipTrivia h.mode_eq] at hi
  exact (h.attached i hi).mono (h.stands.attached_lt i hi) hon.docs (Nat.le_refl c)

/-- The trivia may be counted from another place. -/
theorem anchor (h : Between text s i) (hend : s.triviaEnd = some s.pos) (hl : Leads text i j) :
    Between text s j := by
  obtain ⟨hpos, hdoc⟩ := h.stands.of_skipped hend
  refine ⟨⟨h.stands.pos_le_size, h.stands.attached_lt, .inr ⟨hend, ?_, ?_, .inl hl.closed_behind⟩⟩,
    h.mode_eq, fun n hn => ?_⟩
  · rw [hpos, hl.skipEnd_eq]
  · rw [hdoc, hl.doc_eq]
  · exact (h.attached n hn).mono (h.stands.attached_lt n hn) List.prefix_rfl hl.le

/-- A declaration at the cursor begins where the trivia lead to the cursor. -/
theorem exists_lead (h : Between text s c) (hend : s.triviaEnd = some s.pos)
    (hclosed : AllClosed text c) :
    ∃ lead : Nat, s.lead = lead ∧ Leads text c lead ∧ lead ≤ s.pos := by
  have hpending := h.pending hend
  have hpos := (h.stands.of_skipped hend).1
  cases hdoc : (docsFrom text c).getLast? with
  | none =>
    refine ⟨s.pos, by rw [State.lead, hpending, hdoc]; rfl, ?_, Nat.le_refl _⟩
    rw [hpos]
    exact .to_skipEnd hclosed hdoc
  | some doc =>
    obtain ⟨start, stop, hspan, hle, hlt, hstop, hskip, hlast, hrun⟩ := docsFrom_getLast? hdoc
    refine ⟨start, ?_, ⟨hle, hskip.symm, by rw [hdoc, hlast], hclosed, (hrun hclosed).2⟩, by omega⟩
    rw [State.lead, hpending, hdoc, Option.map_some, hspan]
    rfl

/-- What is recorded has no bearing on where a parse is between declarations. -/
theorem record (h : Between text s c) (ds : List Diagnostic) :
    Between text { s with diagnostics := s.diagnostics ++ ds } c where
  stands := ⟨h.stands.pos_le_size, h.stands.attached_lt, h.stands.place.imp_right
    fun ⟨hend, hpos, hdoc, hclosed⟩ => ⟨hend, hpos, hdoc, hclosed.imp_right fun he =>
      he.mono (by simp)⟩⟩
  mode_eq := h.mode_eq
  attached := h.attached

end Between

/-! ### Reading a declaration -/

/-- A declaration has been read: it begins with what leads to it and ends with the last token, and
the doc comments in front of that were taken. -/
structure DeclarationRead (text : Array Char) (u : State) (c : Nat) (decl : Declaration) (t : State)
    (c' : Nat) : Prop where
  passes : Passes text true u c t c'
  lt : u.pos < c'
  span_eq : decl.span = ⟨u.lead, c'⟩
  tokenEnd : TokenEnd text c'

/-- What may end where a declaration ends leaves the parse between declarations. -/
theorem Between.passes (h : Between text s c) (hpass : Passes text true s c t c') :
    Between text t c' where
  stands := hpass.onward.stands
  mode_eq := hpass.onward.mode_eq.trans h.mode_eq
  attached := fun i hi => by
    rcases hpass.taken i hi with hi' | hends
    · exact (h.attached i hi').mono (h.stands.attached_lt i hi') hpass.onward.docs hpass.onward.le
    · exact hends

/-- A declaration that is read leaves the parse between declarations. -/
theorem Between.read (h : Between text u c) (hread : DeclarationRead text u c decl t c') :
    Between text t c' :=
  h.passes hread.passes

/-- The text beside itself. -/
def Overlap.self (ctx : Context) : Overlap where
  left := ctx
  right := ctx
  lo := 0
  stop := ctx.text.size + 1
  offset := 0
  whole := true
  offset_le := by simp
  agree := by simp
  cut := nofun
  full := fun _ => ⟨rfl, by simp, rfl⟩

theorem Overlap.linked_self (h : Between ctx.text u c) : (Overlap.self ctx).Linked .loose u c u :=
  ⟨Nat.zero_le c, h.stands, h.mode_eq, h.mode_eq⟩

namespace Grammar

/-- What a declaration takes, and where it ends. -/
theorem declarationRead (h : Between ctx.text u c)
    (hrun : full.declarationRule ctx u = .ok decl t) :
    ∃ c', DeclarationRead ctx.text u c decl t c' := by
  have hself := (mirrored_full (.self ctx)).declarationRule (b := true) (Overlap.linked_self h)
  have hplaces := (places_full ctx).declarationRule h.stands
  rw [show (Overlap.self ctx).left = ctx from rfl, hrun] at hself
  rw [EndsFrom, hrun] at hplaces
  obtain ⟨c', hpass, ⟨hread, -⟩, -⟩ := hself
  obtain ⟨c'', -, hspans, hlt⟩ := hplaces
  have hspan : decl.span = ⟨u.lead, c''⟩ := (span_ofDeclaration decl).symm.trans hspans.span_eq
  obtain rfl : c' = c'' := by
    have hstop := hread.stop_eq
    rw [hspan] at hstop
    exact Int.ofNat.inj hstop.symm
  exact ⟨c', hpass, hlt, hspan, hspans.tokenEnd⟩

/-- The words with which declarations begin, apart from modifiers and the names of properties. -/
def declarationWords : List String :=
  ["module", "import", "extends", "amends", "typealias", "class", "function"]

/-- Where none of the words stands, a declaration is a property. -/
theorem declarationRule_of_no_word {g : Grammar} {before : Preamble} {s₁ : State}
    (hpreamble : g.preamble ctx u = .ok before s₁)
    (hwords : ∀ word ∈ declarationWords, wordAt ctx.text word s₁.pos = false) :
    g.declarationRule ctx u =
      (if charAt ctx.text s₁.pos == backtick || startsName (charAt ctx.text s₁.pos) then
        return .property (← g.propertyRule before)
      else failDeclaration : Parser Declaration) ctx s₁ := by
  simp only [declarationWords, List.forall_mem_cons, List.not_mem_nil, false_imp_iff,
    implies_true, and_true] at hwords
  obtain ⟨hmodule, himport, hextends, hamends, htypealias, hclass, hfunction⟩ := hwords
  rw [declarationRule, bind_apply, hpreamble]
  simp only [(atWord_looks _).bind_apply, atIdentifier_looks.bind_apply, hmodule, himport, hextends,
    hamends, htypealias, hclass, hfunction, Bool.false_eq_true, if_false]

/-- A word for a type test is no name. -/
theorem expectName_of_word {what word : String} (hs : Loosely ctx.text s c)
    (hend : s.triviaEnd = some s.pos) (hword : word = "is" ∨ word = "as")
    (hat : wordAt ctx.text word s.pos = true) {name : Identifier} :
    expectName what ctx s ≠ .ok name t := by
  intro hrun
  have hname : isName word = true ∧ word.toList.head?.any startsName = true := by
    rcases hword with rfl | rfl <;> decide
  have hstop := nameStop?_of_word hname.1 hname.2 hat
  have hfirst (first : Char) (h : word.toList[0]? = some first) :
      charAt ctx.text s.pos = first := by
    rw [← Nat.add_zero s.pos]
    exact charAt_of_matchesAt (matchesAt_of_wordAt hat) h
  have hquote : charAt ctx.text s.pos ≠ backtick := by
    rcases hword with rfl | rfl
    · rw [hfirst 'i' (by decide)]
      decide
    · rw [hfirst 'a' (by decide)]
      decide
  have hreserved : (nameAt ctx.text s.pos (s.pos + word.length)).isReservedWord = true := by
    rw [nameAt_of_word hquote hstop, wordOf_eq hname.1 hat]
    rcases hword with rfl | rfl
    · rw [hfirst 'i' (by decide)]
      rfl
    · rw [hfirst 'a' (by decide)]
      rfl
  have hskip : s.skipTrivia ctx.text = s := hs.stands.skipTrivia_of_skipped hend
  have hidentifier : identifier what ctx s =
      .ok (nameAt ctx.text s.pos (s.pos + word.length)) { s with pos := s.pos + word.length } := by
    rw [identifier, bind_apply, identifier?_run hstop]
    rfl
  have heq : expectName what ctx s = (identifier what >>= fun name => do
      if name.isReservedWord = true then failWith (.keywordAsName name.name what) name.span
      return name) ctx (s.skipTrivia ctx.text) := rfl
  rw [heq, hskip, bind_apply, hidentifier] at hrun
  dsimp only at hrun
  rw [if_pos hreserved] at hrun
  cases hrun

/-- What stands where a declaration begins goes on with no construct in front of it. -/
theorem follows_of_declaration (h : Between ctx.text u c) (hend : u.triviaEnd = some u.pos)
    (hrun : full.declarationRule ctx u = .ok decl t) : PklSyntax.Follows ctx.text u.pos := by
  have hmirror := (mirrored_full (.self ctx)).preamble (b := true) (Overlap.linked_self h)
  obtain ⟨before, s₁, hpreamble⟩ : ∃ before s₁, full.preamble ctx u = .ok before s₁ := by
    rw [declarationRule, bind_apply] at hrun
    cases hpreamble : full.preamble ctx u with
    | ok before s₁ => exact ⟨before, s₁, rfl⟩
    | error stop s₁ =>
      rw [hpreamble] at hrun
      cases hrun
  rw [show (Overlap.self ctx).left = ctx from rfl, hpreamble] at hmirror
  obtain ⟨c₁, hpass, ⟨⟨-, -, hend₁⟩, hnone, hplain⟩, -⟩ := hmirror
  rw [← (h.stands.of_skipped hend).1] at hplain
  -- Without annotations and modifiers the declaration goes on at the cursor.
  have hrest (hsign : charAt ctx.text u.pos ≠ '@') (hword : NoModifier ctx.text u.pos) :
      s₁.pos = u.pos := by
    obtain ⟨rfl, -⟩ := hnone hend (hplain hsign hword).1 (hplain hsign hword).2
    obtain ⟨attached, heq, -⟩ := u.takeDoc_eq
    rw [heq]
  have hwords : ∀ word ∈ declarationWords, isName word = true ∧
      word.toList.head?.any startsName = true ∧ word ≠ "is" ∧ word ≠ "as" := by decide
  have htest {word : String} (hword : word = "is" ∨ word = "as") :
      wordAt ctx.text word u.pos = false := by
    by_contra hat
    rw [Bool.not_eq_false] at hat
    have hname : isName word = true := by rcases hword with rfl | rfl <;> decide
    have hother {other : String} (hother : isName other = true) (hne : word ≠ other) :
        wordAt ctx.text other u.pos = false :=
      wordAt_of_wordOf_ne hother (by rwa [wordOf_eq hname hat])
    have hsign : charAt ctx.text u.pos ≠ '@' := by
      have hchar (first : Char) (hfirst : word.toList[0]? = some first) :
          charAt ctx.text u.pos = first := by
        rw [← Nat.add_zero u.pos]
        exact charAt_of_matchesAt (matchesAt_of_wordAt hat) hfirst
      rcases hword with rfl | rfl
      · rw [hchar 'i' (by decide)]
        decide
      · rw [hchar 'a' (by decide)]
        decide
    have hpos := hrest hsign fun m => hother (keyword_spec m).1 (by
      rcases hword with rfl | rfl <;> cases m <;> decide)
    rw [declarationRule_of_no_word hpreamble fun other hmem => by
      obtain ⟨hname', -, his, has⟩ := hwords other hmem
      rw [hpos]
      exact hother hname' (by rcases hword with rfl | rfl <;> exact Ne.symm ‹_›)] at hrun
    split at hrun
    · rw [bind_apply, propertyRule, bind_apply] at hrun
      cases hexpect : expectName "a property name" ctx s₁ with
      | ok name s₂ =>
        exact expectName_of_word ⟨hpass.onward.stands, hpass.onward.mode_eq.trans h.mode_eq⟩ hend₁
          hword (hpos ▸ hat) hexpect
      | error stop s₂ =>
        rw [hexpect] at hrun
        cases hrun
    · exact (failDeclaration_gives (Q := fun _ => False)).of_ok hrun
  refine .inr ⟨?_, htest (.inl rfl), htest (.inr rfl)⟩
  by_contra hnot
  have hnot := hnot
  simp only [beginsDeclaration, Bool.not_eq_true, Bool.or_eq_false_iff, beq_eq_false_iff_ne] at hnot
  have hpos := hrest hnot.1.1 (noModifier_of_not_startsName hnot.2)
  rw [declarationRule_of_no_word hpreamble fun word hmem => by
    rw [hpos]
    exact wordAt_of_not_startsName (hwords word hmem).2.1 hnot.2] at hrun
  rw [hpos, hnot.2, beq_false_of_ne hnot.1.2] at hrun
  exact (failDeclaration_gives (Q := fun _ => False)).of_ok hrun

end Grammar

end PklSyntax
