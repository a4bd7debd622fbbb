import Mathlib.Data.List.DropRight
import PklSyntax.Cursor.Basic
import PklSyntax.Proofs.Reading.Trivia

/-!
# Trivia item by item

A stretch of trivia is cut into items: single blanks, comments to the end of the line, blocks of
documentation, comments up to their first `*/`, and at the end of the text perhaps a comment that
is left open. What items there are is said of the text alone, and there is one way only to cut a
stretch behind which no item begins.

Skipping trivia takes in just such a stretch. It adds one doc comment for each block of
documentation and reports the comment that is left open, and doing it again changes nothing.

## Main definitions

* `LineEnd`: where the line of an offset ends.
* `IsDocLine`, `DocBlock`: a line of documentation, and the lines of a block of documentation.
* `TriviaItems`: the items of a stretch of trivia.
* `NoTrivia`: no item begins at an offset.

## Main statements

* `docBlock_iff`: the block of documentation at an offset.
* `TriviaItems.eq_triviaFrom`, `exists_triviaItems`: the items from an offset on.
* `Parser.skip_items`: what skipping trivia does.
-/

namespace PklSyntax

variable {text : Array Char} {i j k : Nat}

/-! ### The first place of a word -/

theorem findFrom?_first {word : String} (hne : word ≠ "") (hle : i ≤ k)
    (hmatch : matchesAt text word k = true)
    (hfirst : ∀ n, i ≤ n → n < k → matchesAt text word n = false) :
    findFrom? text word i = some k := by
  have hsize := add_length_le_of_matchesAt hmatch hne
  fun_induction findFrom? text word i with
  | case1 i hhere =>
    rcases Nat.lt_or_eq_of_le hle with hlt | rfl
    · exact absurd (hhere.symm.trans (hfirst i (Nat.le_refl i) hlt)) (by decide)
    · rfl
  | case2 i hnot hi ih =>
    rcases Nat.lt_or_eq_of_le hle with hlt | rfl
    · exact ih hlt fun n hn => hfirst n (Nat.le_of_succ_le hn)
    · exact absurd hmatch hnot
  | case3 i hnot hi =>
    obtain rfl : i = k := by omega
    exact absurd hmatch hnot

theorem findFrom?_eq_none {word : String} (hne : word ≠ "") :
    findFrom? text word i = none ↔ ∀ n, i ≤ n → matchesAt text word n = false := by
  constructor
  · intro h n hle
    rw [← Bool.not_eq_true]
    intro hmatch
    have hsize := add_length_le_of_matchesAt hmatch hne
    fun_induction findFrom? text word i with
    | case1 => cases h
    | case2 i hnot hi ih =>
      rcases Nat.lt_or_eq_of_le hle with hlt | rfl
      · exact ih h hlt
      · exact hnot hmatch
    | case3 i hnot hi =>
      obtain rfl : i = n := by omega
      exact hnot hmatch
  · intro hnever
    rw [Option.eq_none_iff_forall_ne_some]
    intro k hfind
    obtain ⟨hle, hmatch, -⟩ := findFrom?_eq_some hfind
    exact absurd (hmatch.symm.trans (hnever k hle)) (by decide)

/-! ### Lines -/

/-- The line of the offset `i` ends at `k`, in front of a line feed or at the end of the text. -/
structure LineEnd (text : Array Char) (i k : Nat) : Prop where
  le : i ≤ k
  le_size : k ≤ text.size
  inLine : ∀ n, i ≤ n → n < k → charAt text n ≠ '\n'
  stop : k = text.size ∨ charAt text k = '\n'

theorem LineEnd.eq (h : LineEnd text i k) (h' : LineEnd text i j) : k = j := by
  have hnot {a b : Nat} (ha : LineEnd text i a) (hb : LineEnd text i b) : ¬ a < b := by
    intro hlt
    rcases ha.stop with hsize | hfeed
    · have := hb.le_size
      omega
    · exact hb.inLine a ha.le hlt hfeed
  have := hnot h h'
  have := hnot h' h
  omega

theorem lineEnd_skipWhile (h : i ≤ text.size) : LineEnd text i (skipWhile text isInLine i) := by
  obtain ⟨hrun, hend⟩ := @skipWhile_spec text i isInLine
  have hle := skipWhile_le_size text isInLine h
  refine ⟨le_skipWhile text isInLine i, hle, fun n hi hn => ?_, ?_⟩
  · simpa [isInLine] using (hrun n hi hn).2
  · rcases Nat.lt_or_eq_of_le hle with hlt | heq
    · exact .inr (by simpa [isInLine] using hend hlt)
    · exact .inl heq

theorem lineEnd_iff (h : i ≤ text.size) : LineEnd text i k ↔ skipWhile text isInLine i = k :=
  ⟨fun hk => (lineEnd_skipWhile h).eq hk, fun hk => hk ▸ lineEnd_skipWhile h⟩

/-! ### Documentation -/

/-- What a line of documentation says: the characters behind its mark, without the carriage returns
at their end and without the one space that may stand in front. -/
def IsDocLine (chars : List Char) (line : String) : Prop :=
  ∃ (body : List Char) (returns : Nat), chars = body ++ List.replicate returns '\r' ∧
    body.getLast? ≠ some '\r' ∧
    (body = ' ' :: line.toList ∨ body.head? ≠ some ' ' ∧ body = line.toList)

theorem docLine_eq (chars : List Char) :
    docLine chars = String.ofList (match chars.rdropWhile (· == '\r') with
      | ' ' :: rest => rest
      | _ => chars.rdropWhile (· == '\r')) := rfl

theorem rdropWhile_returns {body : List Char} (h : body.getLast? ≠ some '\r') (n : Nat) :
    (body ++ List.replicate n '\r').rdropWhile (· == '\r') = body := by
  induction n with
  | zero =>
    rw [List.replicate_zero, List.append_nil, List.rdropWhile_eq_self_iff]
    intro hne hlast
    rw [List.getLast?_eq_some_getLast hne, beq_iff_eq.1 hlast] at h
    exact h rfl
  | succ n ih =>
    rw [List.replicate_succ', ← List.append_assoc, List.rdropWhile_concat_pos _ _ _ (by decide), ih]

theorem isDocLine_iff {chars : List Char} {line : String} :
    IsDocLine chars line ↔ docLine chars = line := by
  constructor
  · rintro ⟨body, returns, rfl, hlast, hbody⟩
    rw [docLine_eq, rdropWhile_returns hlast, ← String.ofList_toList (s := line)]
    congr 1
    rcases hbody with rfl | ⟨hhead, rfl⟩
    · rfl
    · split
      · rename_i hspace
        exact absurd (by rw [hspace]; rfl) hhead
      · rfl
  · rintro rfl
    have hreturns : ∀ c ∈ chars.rtakeWhile (· == '\r'), c = '\r' := fun c hc => by
      simpa using List.mem_rtakeWhile_imp hc
    refine ⟨chars.rdropWhile (· == '\r'), (chars.rtakeWhile (· == '\r')).length, ?_, ?_, ?_⟩
    · rw [← List.eq_replicate_of_mem hreturns, List.rdropWhile_append_rtakeWhile]
    · intro hlast
      have hne : chars.rdropWhile (· == '\r') ≠ [] := by
        intro hnil
        rw [hnil] at hlast
        cases hlast
      rw [List.getLast?_eq_some_getLast hne, Option.some.injEq] at hlast
      exact List.rdropWhile_last_not _ _ hne (by rw [hlast]; rfl)
    · rw [docLine_eq, String.toList_ofList]
      split
      · exact .inl ‹_›
      · rename_i hnot
        refine .inr ⟨fun hhead => ?_, rfl⟩
        obtain ⟨rest, hbody⟩ := List.head?_eq_some_iff.1 hhead
        exact hnot rest hbody

/-- A block of documentation from `i` up to `k`: lines that stand below one another, each with the
mark `///` behind its indentation. The line below the last one has no mark. -/
inductive DocBlock (text : Array Char) : Nat → Nat → List String → Prop
  | last {i k : Nat} {line : String} (hmark : matchesAt text "///" i = true)
      (hend : LineEnd text i k) (hline : IsDocLine (text.extract (i + 3) k).toList line)
      (hbelow : ∀ n, k < n → (∀ m, k < m → m < n → isIndent (charAt text m) = true) →
        matchesAt text "///" n = false) : DocBlock text i k [line]
  | cons {i k n stop : Nat} {line : String} {lines : List String}
      (hmark : matchesAt text "///" i = true) (hend : LineEnd text i k)
      (hline : IsDocLine (text.extract (i + 3) k).toList line) (hlt : k < n)
      (hindent : ∀ m, k < m → m < n → isIndent (charAt text m) = true)
      (rest : DocBlock text n stop lines) : DocBlock text i stop (line :: lines)

theorem DocBlock.mark {lines : List String} (h : DocBlock text i k lines) :
    matchesAt text "///" i = true := by
  cases h <;> assumption

/-- The first character behind an indentation. -/
theorem skipWhile_isIndent (hle : i ≤ k)
    (hindent : ∀ n, i ≤ n → n < k → isIndent (charAt text n) = true)
    (hmark : matchesAt text "///" k = true) : skipWhile text isIndent i = k := by
  obtain ⟨hrun, hend⟩ := @skipWhile_spec text i isIndent
  have hslash : charAt text k = '/' := charAt_of_matchesAt hmark (n := 0) rfl
  have hsize := add_length_le_of_matchesAt hmark (by decide)
  rcases Nat.lt_trichotomy (skipWhile text isIndent i) k with hlt | heq | hgt
  · have := hend (by omega)
    rw [hindent _ (le_skipWhile text isIndent i) hlt] at this
    cases this
  · exact heq
  · have := (hrun k hle hgt).2
    rw [hslash] at this
    exact absurd this (by decide)

theorem docBlock_docBlockFrom (hmark : matchesAt text "///" i = true) :
    DocBlock text i (docBlockFrom text i).2 (docBlockFrom text i).1 := by
  have hsize := add_length_le_of_matchesAt hmark (by decide)
  have hend : LineEnd text i (skipWhile text isInLine i) := lineEnd_skipWhile (by omega)
  fun_induction docBlockFrom text i with
  | case1 i stop line next hnext lines last hlast ih =>
    simp only [Bool.and_eq_true, decide_eq_true_eq] at hnext
    have hsize' := add_length_le_of_matchesAt hnext.2 (by decide)
    have hle := le_skipWhile text isIndent (stop + 1)
    have hrest := ih hnext.2 hsize' (lineEnd_skipWhile (by omega))
    rw [hlast] at hrest
    exact .cons hmark hend (isDocLine_iff.2 rfl) hle
      (fun m hm hlt => ((skipWhile_spec isIndent).1 m hm hlt).2) hrest
  | case2 i stop line next hnext =>
    refine .last hmark hend (isDocLine_iff.2 rfl) fun n hn hindent => ?_
    rw [← Bool.not_eq_true]
    intro hmatch
    have hsize' := add_length_le_of_matchesAt hmatch (by decide)
    have hnext' : next = n := skipWhile_isIndent hn hindent hmatch
    exact hnext (by
      rw [hnext', hmatch, Bool.and_true, decide_eq_true_eq]
      omega)

/-- The block of documentation at an offset. -/
theorem docBlock_iff {lines : List String} :
    DocBlock text i k lines ↔ matchesAt text "///" i = true ∧ docBlockFrom text i = (lines, k) := by
  constructor
  · intro h
    refine ⟨h.mark, ?_⟩
    induction h with
    | @last i k line hmark hend hline hbelow =>
      have hsize := add_length_le_of_matchesAt hmark (by decide)
      have hstop := (lineEnd_iff (by omega)).1 hend
      rw [docBlockFrom, hstop, if_neg, isDocLine_iff.1 hline]
      rw [Bool.and_eq_true, decide_eq_true_eq]
      rintro ⟨hlt, hmatch⟩
      rw [hbelow _ (le_skipWhile text isIndent (k + 1)) fun m hm hlt =>
        ((skipWhile_spec isIndent).1 m hm hlt).2] at hmatch
      cases hmatch
    | @cons i k n stop line lines hmark hend hline hlt hindent hrest ih =>
      have hsize := add_length_le_of_matchesAt hmark (by decide)
      have hsize' := add_length_le_of_matchesAt hrest.mark (by decide)
      have hstop := (lineEnd_iff (by omega)).1 hend
      have hnext := skipWhile_isIndent hlt hindent hrest.mark
      rw [docBlockFrom, hstop, hnext, if_pos, ih, isDocLine_iff.1 hline]
      rw [Bool.and_eq_true, decide_eq_true_eq]
      exact ⟨by omega, hrest.mark⟩
  · rintro ⟨hmark, heq⟩
    have := docBlock_docBlockFrom hmark
    rwa [heq] at this

/-! ### Items -/

/-- The text from `i` up to `j` is cut into items of trivia, with the doc comments among them in
order and the place where a comment begins that is left open. -/
inductive TriviaItems (text : Array Char) : Nat → Nat → List DocComment → Option Nat → Prop
  | nil (i : Nat) : TriviaItems text i i [] none
  | blank {i j : Nat} {docs : List DocComment} {unclosed : Option Nat} (hi : i < text.size)
      (hblank : isTriviaBlank (charAt text i) = true)
      (rest : TriviaItems text (i + 1) j docs unclosed) : TriviaItems text i j docs unclosed
  | lineComment {i k j : Nat} {docs : List DocComment} {unclosed : Option Nat}
      (hopen : matchesAt text "//" i = true) (hnodoc : matchesAt text "///" i = false)
      (hend : LineEnd text i k) (rest : TriviaItems text k j docs unclosed) :
      TriviaItems text i j docs unclosed
  | docBlock {i k j : Nat} {lines : List String} {docs : List DocComment} {unclosed : Option Nat}
      (hblock : DocBlock text i k lines) (rest : TriviaItems text k j docs unclosed) :
      TriviaItems text i j (⟨"\n".intercalate lines, .ofNat i k⟩ :: docs) unclosed
  | blockComment {i k j : Nat} {docs : List DocComment} {unclosed : Option Nat}
      (hopen : matchesAt text "/*" i = true) (hle : i + 2 ≤ k)
      (hclose : matchesAt text "*/" k = true)
      (hfirst : ∀ n, i + 2 ≤ n → n < k → matchesAt text "*/" n = false)
      (rest : TriviaItems text (k + 2) j docs unclosed) : TriviaItems text i j docs unclosed
  | unclosed {i : Nat} (hopen : matchesAt text "/*" i = true)
      (hnever : ∀ n, i + 2 ≤ n → matchesAt text "*/" n = false) :
      TriviaItems text i text.size [] (some i)

/-- No item of trivia begins at the offset. -/
def NoTrivia (text : Array Char) (i : Nat) : Prop :=
  isTriviaBlank (charAt text i) = false ∧ matchesAt text "//" i = false ∧
    matchesAt text "/*" i = false

theorem noTrivia_iff : NoTrivia text i ↔ triviaAt? text i = none := by
  rw [triviaAt?]
  by_cases hi : i < text.size
  · rw [if_pos hi]
    by_cases hblank : isTriviaBlank (charAt text i) = true
    · rw [if_pos hblank]
      simp [NoTrivia, hblank]
    · rw [if_neg hblank, NoTrivia]
      rw [Bool.not_eq_true] at hblank
      by_cases hdoc : matchesAt text "///" i = true
      · rw [if_pos hdoc]
        simp [matchesAt_line_of_doc hdoc]
      · rw [if_neg hdoc]
        by_cases hline : matchesAt text "//" i = true
        · simp [hline]
        · by_cases hopen : matchesAt text "/*" i = true
          · rw [if_neg hline, if_pos hopen]
            cases findFrom? text "*/" (i + 2) <;> simp [hopen]
          · simp [hblank, hline, hopen]
  · have hnot (word : String) (hne : word ≠ "") : matchesAt text word i = false := by
      rw [← Bool.not_eq_true]
      intro hmatch
      have := add_length_le_of_matchesAt hmatch hne
      have := Nat.pos_of_ne_zero fun h0 => hne (String.length_eq_zero_iff.1 h0)
      omega
    simp only [NoTrivia, if_neg hi, hnot "//" (by decide), hnot "/*" (by decide),
      charAt_of_size_le (Nat.le_of_not_lt hi)]
    decide

/-! ### The items that are found -/

/-- A blank in front of trivia changes nothing of what is found. -/
theorem triviaFrom_blank (h : isTriviaBlank (charAt text i) = true) :
    skipEnd text i = skipEnd text (i + 1) ∧ docsFrom text i = docsFrom text (i + 1) ∧
      (triviaFrom text i).1.filterMap Trivia.diagnostic? =
        (triviaFrom text (i + 1)).1.filterMap Trivia.diagnostic? := by
  have hsize : i < text.size := lt_size_of_charAt_ne fun hnul => by
    rw [hnul] at h
    exact absurd h (by decide)
  have hrun : skipWhile text isTriviaBlank i = skipWhile text isTriviaBlank (i + 1) := by
    rw [skipWhile, dif_pos hsize, if_pos (by rwa [← charAt_of_lt hsize])]
  have hitem : triviaAt? text i = some (.blanks (skipWhile text isTriviaBlank (i + 1))) := by
    rw [triviaAt?, if_pos hsize, if_pos h, hrun]
  by_cases hnext : i + 1 < text.size ∧ isTriviaBlank (charAt text (i + 1)) = true
  · -- The blanks at both offsets end at the same place.
    have hitem' :
        triviaAt? text (i + 1) = some (.blanks (skipWhile text isTriviaBlank (i + 1))) := by
      rw [triviaAt?, if_pos hnext.1, if_pos hnext.2]
    have heq : triviaFrom text i = triviaFrom text (i + 1) := by
      rw [triviaFrom_of_some hitem, triviaFrom_of_some hitem']
    rw [skipEnd, docsFrom, heq]
    exact ⟨rfl, rfl, rfl⟩
  · have hstop : skipWhile text isTriviaBlank (i + 1) = i + 1 := skipWhile_eq_self fun hlt => by
      rw [← charAt_of_lt hlt, ← Bool.not_eq_true]
      exact fun hblank => hnext ⟨hlt, hblank⟩
    rw [hstop] at hitem
    rw [skipEnd_of_some hitem, docsFrom, triviaFrom_of_some hitem]
    exact ⟨rfl, rfl, rfl⟩

section Slash

/-- A comment begins with a slash, which is no blank. -/
theorem triviaAt?_slash {word : String} (hword : word.toList[0]? = some '/')
    (h : matchesAt text word i = true) (hne : word ≠ "") :
    triviaAt? text i =
      if matchesAt text "///" i then
        some (.docBlock ⟨"\n".intercalate (docBlockFrom text i).1, .ofNat i (docBlockFrom text i).2⟩
          (docBlockFrom text i).2)
      else if matchesAt text "//" i then some (.lineComment (skipWhile text isInLine i))
      else if matchesAt text "/*" i then
        (findFrom? text "*/" (i + 2)).elim (some (.unclosedComment i text.size))
          fun close => some (.blockComment (close + 2))
      else none := by
  have hsize := add_length_le_of_matchesAt h hne
  have hlength : 0 < word.length := by
    rw [← String.length_toList]
    exact (List.getElem?_eq_some_iff.1 hword).1
  have hslash : charAt text i = '/' := charAt_of_matchesAt (n := 0) h hword
  rw [triviaAt?, if_pos (by omega), if_neg (by rw [hslash]; decide)]
  cases findFrom? text "*/" (i + 2) <;> rfl

variable (hopen : matchesAt text "/*" i = true)

include hopen in
theorem not_line_of_open : matchesAt text "//" i = false ∧ matchesAt text "///" i = false := by
  have hstar : charAt text (i + 1) = '*' := charAt_of_matchesAt hopen (n := 1) rfl
  have hnot : ¬ matchesAt text "//" i = true := fun hline => by
    have hslash : charAt text (i + 1) = '/' := charAt_of_matchesAt hline (n := 1) rfl
    exact absurd (hstar.symm.trans hslash) (by decide)
  exact ⟨by simpa using hnot, by simpa using fun hdoc => hnot (matchesAt_line_of_doc hdoc)⟩

end Slash

/-- The place where a comment begins that is left open, as it is reported. -/
def unclosedDiagnostics (unclosed : Option Nat) : List Diagnostic :=
  (unclosed.map fun i => Problem.unterminatedComment.diagnostic (.ofNat i (i + 2))).toList

theorem unclosedDiagnostics_injective {unclosed unclosed' : Option Nat}
    (h : unclosedDiagnostics unclosed = unclosedDiagnostics unclosed') : unclosed = unclosed' := by
  cases unclosed with
  | none => cases unclosed' with
    | none => rfl
    | some i => cases h
  | some i => cases unclosed' with
    | none => cases h
    | some j =>
      simp only [unclosedDiagnostics, Option.map_some, Option.toList_some, List.cons.injEq,
        and_true] at h
      have hspan := congrArg Diagnostic.span? h
      simp only [Problem.span?_diagnostic, Option.some.injEq, Span.ofNat, Span.mk.injEq, Int.ofNat_inj]
        at hspan
      rw [hspan.1]

/-- The items behind which no item begins are those that are found. -/
theorem TriviaItems.eq_triviaFrom {docs : List DocComment} {unclosed : Option Nat}
    (h : TriviaItems text i j docs unclosed) (hnone : NoTrivia text j) :
    skipEnd text i = j ∧ docsFrom text i = docs ∧
      (triviaFrom text i).1.filterMap Trivia.diagnostic? = unclosedDiagnostics unclosed := by
  induction h with
  | nil i =>
    rw [docsFrom, skipEnd, triviaFrom_of_none (noTrivia_iff.1 hnone)]
    exact ⟨rfl, rfl, rfl⟩
  | blank hi hblank rest ih =>
    obtain ⟨hskip, hdocs, hdiags⟩ := triviaFrom_blank hblank
    rw [hskip, hdocs, hdiags]
    exact ih hnone
  | @lineComment i k j docs unclosed hopen hnodoc hend rest ih =>
    have hitem := triviaAt?_slash rfl hopen (by decide)
    rw [if_neg (by simp [hnodoc]), if_pos hopen, (lineEnd_iff (Nat.le_trans hend.le hend.le_size)).1
      hend] at hitem
    rw [skipEnd_of_some hitem, docsFrom, triviaFrom_of_some hitem]
    exact ih hnone
  | @docBlock i k j lines docs unclosed hblock rest ih =>
    obtain ⟨hmark, hfrom⟩ := docBlock_iff.1 hblock
    have hitem := triviaAt?_slash rfl hmark (by decide)
    rw [if_pos hmark, hfrom] at hitem
    obtain ⟨hskip, hdocs, hdiags⟩ := ih hnone
    rw [skipEnd_of_some hitem, docsFrom, triviaFrom_of_some hitem]
    exact ⟨hskip, congrArg _ hdocs, hdiags⟩
  | @blockComment i k j docs unclosed hopen hle hclose hfirst rest ih =>
    have hitem := triviaAt?_slash rfl hopen (by decide)
    have hnot := not_line_of_open hopen
    rw [hnot.1, hnot.2, if_neg Bool.false_ne_true, if_neg Bool.false_ne_true, if_pos hopen,
      findFrom?_first (by decide) hle hclose hfirst] at hitem
    rw [skipEnd_of_some hitem, docsFrom, triviaFrom_of_some hitem]
    exact ih hnone
  | @unclosed i hopen hnever =>
    have hitem := triviaAt?_slash rfl hopen (by decide)
    have hnot := not_line_of_open hopen
    rw [hnot.1, hnot.2, if_neg Bool.false_ne_true, if_neg Bool.false_ne_true, if_pos hopen,
      (findFrom?_eq_none (by decide)).2 hnever] at hitem
    rw [skipEnd_of_some hitem, docsFrom, triviaFrom_of_some hitem]
    rw [Trivia.stop, skipEnd, triviaFrom_of_none (triviaAt?_size_le (Nat.le_refl _))]
    exact ⟨rfl, rfl, rfl⟩

/-- There is one way only to cut a text into items of trivia until no item begins. -/
theorem TriviaItems.unique {docs docs' : List DocComment} {unclosed unclosed' : Option Nat}
    (h : TriviaItems text i j docs unclosed) (hnone : NoTrivia text j)
    (h' : TriviaItems text i k docs' unclosed') (hnone' : NoTrivia text k) :
    k = j ∧ docs' = docs ∧ unclosed' = unclosed := by
  obtain ⟨hskip, hdocs, hdiags⟩ := h.eq_triviaFrom hnone
  obtain ⟨hskip', hdocs', hdiags'⟩ := h'.eq_triviaFrom hnone'
  exact ⟨hskip'.symm.trans hskip, hdocs'.symm.trans hdocs,
    unclosedDiagnostics_injective (hdiags'.symm.trans hdiags)⟩

theorem TriviaItems.of_blanks {docs : List DocComment} {unclosed : Option Nat}
    (h : TriviaItems text (skipWhile text isTriviaBlank i) j docs unclosed) :
    TriviaItems text i j docs unclosed := by
  fun_induction skipWhile text isTriviaBlank i with
  | case1 i hi hblank ih => exact .blank hi (by rwa [charAt_of_lt hi]) (ih h)
  | case2 => exact h
  | case3 => exact h

/-- What is found from an offset on are the items of the trivia there. -/
theorem exists_triviaItems (text : Array Char) (i : Nat) :
    ∃ unclosed, TriviaItems text i (skipEnd text i) (docsFrom text i) unclosed ∧
      (triviaFrom text i).1.filterMap Trivia.diagnostic? = unclosedDiagnostics unclosed := by
  induction i using trivia_induction text with
  | stop i h =>
    rw [skipEnd, docsFrom, triviaFrom_of_none h]
    exact ⟨none, .nil i, rfl⟩
  | item i item h ih =>
    obtain ⟨unclosed, hitems, hdiags⟩ := ih
    rw [skipEnd_of_some h, docsFrom, triviaFrom_of_some h]
    rw [triviaAt?] at h
    split at h
    next hi =>
      split at h
      next hblank =>
        cases h
        exact ⟨unclosed, .of_blanks hitems, hdiags⟩
      next hblank =>
        split at h
        next hdoc =>
          cases h
          exact ⟨unclosed, .docBlock (docBlock_docBlockFrom hdoc) hitems, hdiags⟩
        next hdoc =>
          split at h
          next hline =>
            cases h
            exact ⟨unclosed, .lineComment hline (by simpa using hdoc)
              (lineEnd_skipWhile (Nat.le_of_lt hi)) hitems, hdiags⟩
          next hline =>
            split at h
            next hopen =>
              split at h
              next close hfind =>
                obtain ⟨hle, hclose, hfirst⟩ := findFrom?_eq_some hfind
                cases h
                exact ⟨unclosed, .blockComment hopen hle hclose hfirst hitems, hdiags⟩
              next hfind =>
                cases h
                refine ⟨some i, ?_, ?_⟩
                · rw [Trivia.stop, skipEnd, triviaFrom_of_none (triviaAt?_size_le (Nat.le_refl _))]
                  exact .unclosed hopen ((findFrom?_eq_none (by decide)).1 hfind)
                · rw [Trivia.stop, triviaFrom_of_none (triviaAt?_size_le (Nat.le_refl _))]
                  rfl
            next => cases h
    next => cases h

/-! ### Skipping trivia -/

theorem State.skipTrivia_loose {s : State} (h : s.mode = .loose) :
    s.skipTrivia text =
      { s with
        pos := skipEnd text s.pos
        runStart := if s.triviaEnd = some s.pos then s.runStart else s.docs.size
        triviaEnd := some (skipEnd text s.pos)
        docs := s.docs ++ docsFrom text s.pos
        diagnostics :=
          s.diagnostics ++ (triviaFrom text s.pos).1.filterMap Trivia.diagnostic? } := by
  rw [State.skipTrivia, h]
  rfl

/-- Where no trivia begin behind a run of trivia, skipping them changes nothing. -/
theorem State.skipTrivia_settled {s : State} (h : s.mode = .loose)
    (hnone : triviaAt? text s.pos = none) (hend : s.triviaEnd = some s.pos) :
    s.skipTrivia text = s := by
  rw [State.skipTrivia_loose h, if_pos hend, skipEnd_of_none hnone, docsFrom,
    triviaFrom_of_none hnone, ← hend]
  simp

namespace Parser

/-- In loose mode, skipping trivia takes in the items of trivia at the cursor, until no item begins.
One doc comment is added for each block of documentation among them, in order, and a comment that
is left open is reported. A new run of trivia begins unless the cursor stands where the last one
ended. Skipping trivia once more changes nothing. -/
theorem skip_items (ctx : Context) (s : State) (hmode : s.mode = .loose) :
    ∃ (s' : State) (docs : List DocComment) (unclosed : Option Nat) (ds : List Diagnostic),
      skip ctx s = .ok () s' ∧
        (TriviaItems ctx.text s.pos s'.pos docs unclosed ∧ NoTrivia ctx.text s'.pos ∧
          ∀ j docs' unclosed', TriviaItems ctx.text s.pos j docs' unclosed' →
            NoTrivia ctx.text j → j = s'.pos ∧ docs' = docs ∧ unclosed' = unclosed) ∧
        s'.docs = s.docs ++ docs ∧
        (s'.diagnostics = s.diagnostics ++ ds ∧ ds.map (fun d => (d.code, d.span?)) =
          (unclosed.map fun i => ("E100", some (Span.ofNat i (i + 2)))).toList) ∧
        s'.runStart = (if s.triviaEnd = some s.pos then s.runStart else s.docs.size) ∧
        s'.triviaEnd = some s'.pos ∧ s'.attached = s.attached ∧ s'.mode = s.mode ∧
        skip ctx s' = .ok () s' := by
  obtain ⟨unclosed, hitems, hdiags⟩ := exists_triviaItems ctx.text s.pos
  have hnone : triviaAt? ctx.text (skipEnd ctx.text s.pos) = none := triviaAt?_skipEnd s.pos
  have hrun (u : State) : skip ctx u = .ok () (u.skipTrivia ctx.text) := rfl
  refine ⟨s.skipTrivia ctx.text, docsFrom ctx.text s.pos, unclosed, unclosedDiagnostics unclosed,
    hrun s, ?_⟩
  rw [hrun, State.skipTrivia_settled (s := s.skipTrivia ctx.text) (by
      rw [State.skipTrivia_loose hmode]
      exact hmode) (by rwa [State.skipTrivia_loose hmode]) (by rw [State.skipTrivia_loose hmode]),
    State.skipTrivia_loose hmode, hdiags]
  refine ⟨⟨hitems, noTrivia_iff.2 hnone, fun j docs' unclosed' hitems' hnone' =>
    hitems.unique (noTrivia_iff.2 hnone) hitems' hnone'⟩, rfl, ⟨rfl, ?_⟩, rfl, rfl, rfl, rfl, rfl⟩
  cases unclosed <;> rfl

/-- A blank and a block of documentation of two lines, in front of a name. -/
theorem skip_items_block :
    ∃ s' : State, (default : State).mode = .loose ∧
      skip ⟨" /// a\n/// b\nx".toList.toArray, {}⟩ default = .ok () s' ∧
      s'.docs = #[⟨"a\nb", .ofNat 1 12⟩] ∧
      NoTrivia " /// a\n/// b\nx".toList.toArray s'.pos := by
  obtain ⟨s', docs, unclosed, ds, hrun, ⟨-, hnone, -⟩, -⟩ :=
    skip_items ⟨" /// a\n/// b\nx".toList.toArray, {}⟩ default rfl
  refine ⟨s', rfl, hrun, ?_, hnone⟩
  obtain rfl := (EStateM.Result.ok.inj hrun).2
  decide +kernel

end Parser

end PklSyntax
