import Mathlib.Data.List.Chain
import PklSyntax.Cursor.Identifier
import PklSyntax.Proofs.Reading.Trivia

/-!
# Characters that begin and end tokens

Which characters can begin a name, a number or trivia is said by the classes of characters; here is
how these classes lie to one another. A set that is given by its boundaries is a union of runs of
code points, so that one set lies in another when each of its runs lies in a run of the other.

Behind the last character of a token nothing can go on that would have made the token longer. This
is what lets a text be cut there.

## Main definitions

* `CharSet.runs`: the runs of code points that make up a set.
* `endsToken`, `TokenEnd`: the characters that end tokens, and the offsets at which tokens end.
* `wordAt`: a word stands at an offset and does not go on as a longer name.

## Main statements

* `continuesName_of_isDigitLike`, `not_isDigitLike_of_isLetter`: digits among the characters of
  names.
* `tokenEnd_of_wordAt`, `tokenEnd_of_matchesAt`, `tokenEnd_nameEnd`: where tokens end.
-/

namespace PklSyntax

namespace CharSet

/-! ### Runs of code points -/

/-- The entries of a list by twos. -/
def pairs : List Nat → List (Nat × Nat)
  | a :: b :: rest => (a, b) :: pairs rest
  | _ => []

/-- The runs of code points that make up the set: each from a code point up to another. -/
def runs (s : CharSet) : List (Nat × Nat) := pairs s.boundaries.toList

theorem pairs_getElem (l : List Nat) (k : Nat) (h : 2 * k + 1 < l.length) :
    (l[2 * k], l[2 * k + 1]) ∈ pairs l := by
  fun_induction pairs l generalizing k with
  | case1 a b rest ih =>
    cases k with
    | zero => simp
    | succ k => exact List.mem_cons_of_mem _ (ih k (by simp at h; omega))
  | case2 l hl =>
    match l, hl with
    | [], _ => simp at h
    | [a], _ => simp at h
    | a :: b :: rest, hl => exact absurd rfl (hl a b rest)

theorem exists_of_mem_pairs {l : List Nat} {lo hi : Nat} (h : (lo, hi) ∈ pairs l) :
    ∃ k, ∃ hk : 2 * k + 1 < l.length, l[2 * k] = lo ∧ l[2 * k + 1] = hi := by
  fun_induction pairs l with
  | case1 a b rest ih =>
    rcases List.mem_cons.1 h with heq | hmem
    · cases heq
      exact ⟨0, by simp, rfl, rfl⟩
    · obtain ⟨k, hk, hlo, hhi⟩ := ih hmem
      exact ⟨k + 1, by simp; omega, hlo, hhi⟩
  | case2 => simp at h

/-- What the search by halving finds: the place of a code point among the entries. -/
theorem rankBetween_spec (a : Array Nat) (x : Nat) {lo hi : Nat} (hle : lo ≤ hi)
    (hhi : hi ≤ a.size) (hbelow : 0 < lo → a.getD (lo - 1) 0 ≤ x)
    (habove : hi < a.size → x < a.getD hi 0) :
    rankBetween a x lo hi ≤ a.size ∧
      (0 < rankBetween a x lo hi → a.getD (rankBetween a x lo hi - 1) 0 ≤ x) ∧
      (rankBetween a x lo hi < a.size → x < a.getD (rankBetween a x lo hi) 0) := by
  fun_induction rankBetween a x lo hi with
  | case1 lo hi hlt mid hmid ih =>
    exact ih (by omega) hhi (fun _ => by simpa using hmid) habove
  | case2 lo hi hlt mid hmid ih =>
    exact ih (by omega) (by omega) hbelow fun _ => by omega
  | case3 lo hi hlt =>
    obtain rfl : lo = hi := by omega
    exact ⟨hhi, hbelow, habove⟩

theorem rank_spec (s : CharSet) (x : Nat) :
    s.rank x ≤ s.boundaries.size ∧ (0 < s.rank x → s.boundaries.getD (s.rank x - 1) 0 ≤ x) ∧
      (s.rank x < s.boundaries.size → x < s.boundaries.getD (s.rank x) 0) :=
  rankBetween_spec _ _ (Nat.zero_le _) (Nat.le_refl _) (fun h => absurd h (Nat.lt_irrefl _))
    fun h => absurd h (Nat.lt_irrefl _)

/-- A member lies in one of the runs. -/
theorem exists_run_of_contains {s : CharSet} {c : Char} (heven : s.boundaries.size % 2 = 0)
    (h : s.contains c = true) : ∃ run ∈ s.runs, run.1 ≤ c.toNat ∧ c.toNat < run.2 := by
  have hodd : s.rank c.toNat % 2 = 1 := by simpa [contains] using h
  obtain ⟨hle, hbelow, habove⟩ := s.rank_spec c.toNat
  have hlt : 2 * (s.rank c.toNat / 2) + 1 < s.boundaries.toList.length := by
    rw [Array.length_toList]
    omega
  refine ⟨_, pairs_getElem s.boundaries.toList (s.rank c.toNat / 2) hlt, ?_, ?_⟩
  · have := hbelow (by omega)
    rw [show s.rank c.toNat - 1 = 2 * (s.rank c.toNat / 2) by omega] at this
    rwa [Array.getD, dif_pos (by rw [← Array.length_toList]; omega)] at this
  · have := habove (by rw [← Array.length_toList]; omega)
    rw [show s.rank c.toNat = 2 * (s.rank c.toNat / 2) + 1 by omega] at this
    rwa [Array.getD, dif_pos (by rw [← Array.length_toList]; omega)] at this

/-- What lies in a run of an ascending set is a member. -/
theorem contains_of_run {s : CharSet} {c : Char} {run : Nat × Nat}
    (hasc : s.boundaries.toList.Pairwise (· < ·)) (hmem : run ∈ s.runs) (hlo : run.1 ≤ c.toNat)
    (hhi : c.toNat < run.2) : s.contains c = true := by
  obtain ⟨k, hk, hfirst, hsecond⟩ := exists_of_mem_pairs hmem
  obtain ⟨hle, hbelow, habove⟩ := s.rank_spec c.toNat
  have hmono := List.pairwise_iff_getElem.1 hasc
  have hsize : s.boundaries.toList.length = s.boundaries.size := Array.length_toList
  have hrank : s.rank c.toNat = 2 * k + 1 := by
    rcases Nat.lt_trichotomy (s.rank c.toNat) (2 * k + 1) with hlt | heq | hgt
    · have hx := habove (by omega)
      rw [Array.getD, dif_pos (by omega)] at hx
      have hmid : s.boundaries.toList[s.rank c.toNat] ≤ s.boundaries.toList[2 * k] := by
        rcases Nat.lt_or_eq_of_le (show s.rank c.toNat ≤ 2 * k by omega) with hlt' | heq
        · exact Nat.le_of_lt (hmono _ _ _ _ hlt')
        · exact Nat.le_of_eq (getElem_congr_idx heq)
      rw [hfirst] at hmid
      exact absurd (Nat.lt_of_lt_of_le hx hmid) (by omega)
    · exact heq
    · have hx := hbelow (by omega)
      rw [Array.getD, dif_pos (by omega)] at hx
      have hin : s.rank c.toNat - 1 < s.boundaries.toList.length := by omega
      have hmid : s.boundaries.toList[2 * k + 1] ≤ s.boundaries.toList[s.rank c.toNat - 1] := by
        rcases Nat.lt_or_eq_of_le (show 2 * k + 1 ≤ s.rank c.toNat - 1 by omega) with hlt' | heq
        · exact Nat.le_of_lt (hmono _ _ _ _ hlt')
        · exact Nat.le_of_eq (getElem_congr_idx heq)
      rw [hsecond] at hmid
      exact absurd (Nat.le_trans hmid hx) (by omega)
  simp [contains, hrank]

/-- What the tables say of themselves and of one another: they are closed, the numerals ascend, the
digits lie among the numerals and apart from the letters. They are run through once for all of it. -/
theorem tables_agree :
    (digits.boundaries.size % 2 = 0 ∧ letters.boundaries.size % 2 = 0) ∧
      numerals.boundaries.toList.IsChain (· < ·) ∧
      (digits.runs.all fun d =>
        numerals.runs.any fun n => Nat.ble n.1 d.1 && Nat.ble d.2 n.2) = true ∧
      (digits.runs.all fun d =>
        letters.runs.all fun l => Nat.ble l.2 d.1 || Nat.ble d.2 l.1) = true := by
  decide +kernel

theorem numerals_ascending : numerals.boundaries.toList.Pairwise (· < ·) :=
  List.isChain_iff_pairwise.1 tables_agree.2.1

theorem numerals_of_digits {c : Char} (h : digits.contains c = true) :
    numerals.contains c = true := by
  obtain ⟨d, hd, hlo, hhi⟩ := exists_run_of_contains tables_agree.1.1 h
  obtain ⟨n, hn, hle⟩ := List.any_eq_true.1 (List.all_eq_true.1 tables_agree.2.2.1 d hd)
  simp only [Bool.and_eq_true, Nat.ble_eq] at hle
  exact contains_of_run numerals_ascending hn (by omega) (by omega)

theorem not_digits_of_letters {c : Char} (h : letters.contains c = true) :
    digits.contains c = false := by
  rw [← Bool.not_eq_true]
  intro hdigit
  obtain ⟨l, hl, hlo, hhi⟩ := exists_run_of_contains tables_agree.1.2 h
  obtain ⟨d, hd, hlo', hhi'⟩ := exists_run_of_contains tables_agree.1.1 hdigit
  have := List.all_eq_true.1 (List.all_eq_true.1 tables_agree.2.2.2 d hd) l hl
  simp only [Bool.or_eq_true, Nat.ble_eq] at this
  omega

end CharSet

/-! ### Characters of names -/

/-- A digit in the wide sense can stand in a name. -/
theorem continuesName_of_isDigitLike {c : Char} (h : isDigitLike c = true) :
    continuesName c = true := by
  have hnumeral : isNumeral c = true := by
    simp only [isDigitLike] at h
    simp only [isNumeral]
    split at h
    · rwa [if_pos ‹_›]
    · rw [if_neg ‹_›]
      exact CharSet.numerals_of_digits h
  simp [continuesName, isWordPart, hnumeral]

/-- The letters of ASCII by their code points. -/
theorem isAlpha_iff {c : Char} :
    c.isAlpha = true ↔ 65 ≤ c.toNat ∧ c.toNat ≤ 90 ∨ 97 ≤ c.toNat ∧ c.toNat ≤ 122 := by
  show (decide ('A'.val ≤ c.val ∧ c.val ≤ 'Z'.val) ||
    (decide ('a'.val ≤ c.val) && decide (c.val ≤ 'z'.val))) = true ↔ _
  simp only [Bool.or_eq_true, Bool.and_eq_true, decide_eq_true_eq, UInt32.le_iff_toNat_le]
  rfl

/-- The digits of ASCII by their code points. -/
theorem isDigit_iff {c : Char} : c.isDigit = true ↔ 48 ≤ c.toNat ∧ c.toNat ≤ 57 := by
  show (decide ('0'.val ≤ c.val) && decide (c.val ≤ '9'.val)) = true ↔ _
  simp only [Bool.and_eq_true, decide_eq_true_eq, UInt32.le_iff_toNat_le]
  rfl

theorem not_isDigitLike_of_isLetter {c : Char} (h : isLetter c = true) :
    isDigitLike c = false := by
  simp only [isLetter] at h
  simp only [isDigitLike]
  split at h
  · rw [if_pos ‹_›, ← Bool.not_eq_true]
    intro hdigit
    rw [isAlpha_iff] at h
    rw [isDigit_iff] at hdigit
    omega
  · rw [if_neg ‹_›]
    exact CharSet.not_digits_of_letters h

/-- The characters that begin a name do not begin a number. -/
theorem not_isDigitLike_of_startsName {c : Char} (h : startsName c = true) :
    isDigitLike c = false := by
  simp only [startsName, Bool.or_eq_true, beq_iff_eq] at h
  rcases h with (h | rfl) | rfl
  · exact not_isDigitLike_of_isLetter h
  · decide
  · decide

theorem isDigitLike_of_isDigit {c : Char} (h : c.isDigit = true) : isDigitLike c = true := by
  have hlt : c.toNat < 128 := by
    rw [isDigit_iff] at h
    omega
  rw [isDigitLike, if_pos hlt, h]

/-- The characters of names are no trivia. -/
theorem not_isTriviaBlank_of_continuesName {c : Char} (h : continuesName c = true) :
    isTriviaBlank c = false := by
  rw [← Bool.not_eq_true]
  intro hblank
  simp only [isTriviaBlank, Bool.or_eq_true, beq_iff_eq] at hblank
  rcases hblank with ((((rfl | rfl) | rfl) | rfl) | rfl) | rfl
  all_goals exact absurd h (by decide +kernel)

theorem ne_slash_of_continuesName {c : Char} (h : continuesName c = true) : c ≠ '/' := by
  rintro rfl
  exact absurd h (by decide)

theorem ne_nul_of_continuesName {c : Char} (h : continuesName c = true) : c ≠ '\x00' := by
  rintro rfl
  exact absurd h (by decide)

/-! ### Where tokens end -/

/-- The word stands in the text at the offset and does not go on there as a longer name. -/
def wordAt (text : Array Char) (word : String) (i : Nat) : Bool :=
  matchesAt text word i && !continuesName (charAt text (i + word.length))

/-- The characters that can end a construct: those of names, and closing signs. -/
def endsToken (c : Char) : Bool :=
  continuesName c || "\x7d)]>!?\"#\x60".toList.contains c

/-- A construct may end at the offset, and no name goes on there. -/
structure TokenEnd (text : Array Char) (i : Nat) : Prop where
  pos : 0 < i
  endsToken : endsToken (charAt text (i - 1)) = true
  apart : continuesName (charAt text (i - 1)) = true → continuesName (charAt text i) = false

variable {text : Array Char} {i : Nat}

theorem tokenEnd_of_sign {c : Char} (h : charAt text i = c) (hends : endsToken c = true)
    (hname : continuesName c = false) : TokenEnd text (i + 1) where
  pos := Nat.succ_pos i
  endsToken := by rwa [Nat.add_sub_cancel, h]
  apart := by simp [h, hname]

/-- Behind a token whose last character is a closing sign. -/
theorem tokenEnd_of_matchesAt {word : String} {c : Char} (h : matchesAt text word i = true)
    (hlast : word.toList[word.length - 1]? = some c) (hends : endsToken c = true)
    (hname : continuesName c = false) : TokenEnd text (i + word.length) := by
  have hlen : 0 < word.length := by
    rw [← String.length_toList]
    have := (List.getElem?_eq_some_iff.1 hlast).1
    omega
  have := tokenEnd_of_sign (charAt_of_matchesAt h hlast) hends hname
  rwa [Nat.add_assoc, Nat.sub_add_cancel hlen] at this

/-- Behind a word that does not go on as a longer name. -/
theorem tokenEnd_of_wordAt {word : String} {c : Char} (h : wordAt text word i = true)
    (hlast : word.toList[word.length - 1]? = some c) (hname : continuesName c = true) :
    TokenEnd text (i + word.length) := by
  rw [wordAt, Bool.and_eq_true, Bool.not_eq_true'] at h
  have hlen : 0 < word.length := by
    rw [← String.length_toList]
    have := (List.getElem?_eq_some_iff.1 hlast).1
    omega
  have hchar := charAt_of_matchesAt h.1 hlast
  rw [← Nat.add_sub_assoc hlen] at hchar
  exact ⟨by omega, by rw [hchar, endsToken, hname, Bool.true_or], fun _ => h.2⟩

/-- Behind the longest run of characters of names. -/
theorem tokenEnd_nameEnd (h : i < skipWhile text continuesName i) :
    TokenEnd text (skipWhile text continuesName i) := by
  obtain ⟨hrun, hstop⟩ := @skipWhile_spec text i continuesName
  have hlast := (hrun (skipWhile text continuesName i - 1) (by omega) (by omega)).2
  refine ⟨by omega, by rw [endsToken, hlast, Bool.true_or], fun _ => ?_⟩
  rcases Nat.lt_or_ge (skipWhile text continuesName i) text.size with hlt | hge
  · exact hstop hlt
  · rw [charAt_of_size_le hge]
    decide

/-- Where a character of a name stands, a run of them begins. -/
theorem lt_nameEnd (h : continuesName (charAt text i) = true) :
    i < skipWhile text continuesName i :=
  lt_skipWhile (lt_size_of_charAt_ne (ne_nul_of_continuesName h)) h

end PklSyntax
