import PklSyntax.Proofs.Moving.Recovery

/-!
# One text below another

A text without errors stands above another text, on lines of its own. The text below begins with
what can only begin a declaration, so the last declaration above ends where it ended, and behind it
nothing but white space and comments lead to the text below. What is read of the two texts together
is what is read of each of them, and what is wrong with the text below is found there as well,
further down.

The declarations above are compared one after the other, up to the end of the last one; then the
whole text below is compared with the end of the two together.

## Main definitions

* `stacked`: a text with another one below it.
* `Overlap.above`, `Overlap.below`: the stretches that a text shares with the stacked texts.
* `OpensDeclaration`: a text that begins with a declaration, as its first characters tell.

## Main statements

* `leads_to_below`: what stands behind the last declaration above leads to the text below.
* `Overlap.above_loops`, `Overlap.below_loops`: the declarations above and below.
* `parse_stacked`: two texts together are read as each of them is read.
-/

namespace PklSyntax

open PklSyntax.Parser

/-! ### Stacked texts -/

section Texts

/-- A text with another one below it. -/
def stacked (above below : Array Char) : Array Char := above.push '\n' ++ below

variable {above below : Array Char} {i : Nat} {word : String}

theorem size_stacked : (stacked above below).size = above.size + 1 + below.size := by
  rw [stacked, Array.size_append, Array.size_push]

theorem getElem?_stacked_above (hi : i < above.size) : (stacked above below)[i]? = above[i]? := by
  rw [stacked, Array.getElem?_append_left (by rw [Array.size_push]; omega),
    Array.getElem?_push_lt hi, Array.getElem?_eq_getElem hi]

theorem getElem?_stacked_break : (stacked above below)[above.size]? = some '\n' := by
  rw [stacked, Array.getElem?_append_left (by simp), Array.getElem?_push_size]

theorem getElem?_stacked_below : (stacked above below)[above.size + 1 + i]? = below[i]? := by
  rw [stacked, Array.getElem?_append_right (by rw [Array.size_push]; omega), Array.size_push,
    Nat.add_sub_cancel_left]

theorem charAt_stacked_above (hi : i < above.size) :
    charAt (stacked above below) i = charAt above i := by
  simp only [charAt, Array.getD_eq_getD_getElem?, getElem?_stacked_above hi]

theorem charAt_stacked_break : charAt (stacked above below) above.size = '\n' :=
  charAt_eq_of_getElem? getElem?_stacked_break

/-- No word without a line break reaches over the end of the text above. -/
theorem matchesAt_stacked (hword : '\n' ∉ word.toList) (hi : i ≤ above.size) :
    matchesAt (stacked above below) word i = matchesAt above word i := by
  rw [matchesAt, matchesAt, Bool.eq_iff_iff, charsMatchAt_eq_true, charsMatchAt_eq_true]
  constructor
  · intro h n hn
    have hlt : i + n < above.size := by
      by_contra hge
      have hbreak := h (above.size - i) (by omega)
      rw [show i + (above.size - i) = above.size by omega, getElem?_stacked_break] at hbreak
      exact hword (Option.some.inj hbreak ▸ List.getElem_mem _)
    rw [← getElem?_stacked_above hlt]
    exact h n hn
  · intro h n hn
    rw [getElem?_stacked_above (Array.getElem?_eq_some_iff.1 (h n hn)).1]
    exact h n hn

/-- What ends with the line ends in front of the text below. -/
theorem skipWhile_stacked {p : Char → Bool} (hp : p '\n' = false) (hi : i ≤ above.size) :
    skipWhile (stacked above below) p i = skipWhile above p i := by
  have hsize : (stacked above below).size = above.size + 1 + below.size := size_stacked
  have hget (i : Nat) (hlt : i < above.size) :
      ∃ hlt' : i < (stacked above below).size, (stacked above below)[i] = above[i] := by
    refine ⟨by omega, ?_⟩
    rw [← charAt_of_lt, ← charAt_of_lt, charAt_stacked_above hlt]
  fun_induction skipWhile above p i with
  | case1 i hlt hpi ih =>
    obtain ⟨hlt', heq⟩ := hget i hlt
    rw [skipWhile, dif_pos hlt', heq, if_pos hpi]
    exact ih (by omega)
  | case2 i hlt hpi =>
    obtain ⟨hlt', heq⟩ := hget i hlt
    rw [skipWhile, dif_pos hlt', heq, if_neg hpi]
  | case3 i hlt =>
    obtain rfl : i = above.size := by omega
    refine skipWhile_eq_self fun hlt' => ?_
    rw [← charAt_of_lt hlt', charAt_stacked_break, hp]

theorem findFrom?_stacked {k : Nat} (hword : '\n' ∉ word.toList) (hi : i ≤ above.size)
    (h : findFrom? above word i = some k) : findFrom? (stacked above below) word i = some k := by
  have hsize : (stacked above below).size = above.size + 1 + below.size := size_stacked
  fun_induction findFrom? above word i with
  | case1 i hmatch =>
    rw [findFrom?, matchesAt_stacked hword hi, if_pos hmatch]
    exact h
  | case2 i hmatch hlt ih =>
    rw [findFrom?, matchesAt_stacked hword hi, if_neg hmatch, if_pos (by omega)]
    exact ih (by omega) h
  | case3 => cases h

/-- A comment that ends in the text above is the same in the stacked texts, unless it is a doc
comment, which might go on below. -/
theorem triviaAt?_stacked {item : Trivia} (hitem : triviaAt? above i = some item)
    (hdoc : item.doc? = none) (hopen : item.diagnostic? = none)
    (hblank : isTriviaBlank (charAt above i) = false) :
    triviaAt? (stacked above below) i = some item := by
  have hsize : (stacked above below).size = above.size + 1 + below.size := size_stacked
  have hlt : i < above.size := by
    have := triviaAt?_spec hitem
    omega
  have hi := Nat.le_of_lt hlt
  rw [triviaAt?, if_pos hlt, if_neg (by simp [hblank])] at hitem
  rw [triviaAt?, if_pos (by omega), charAt_stacked_above hlt, if_neg (by simp [hblank]),
    matchesAt_stacked (by decide) hi, matchesAt_stacked (by decide) hi,
    matchesAt_stacked (by decide) hi]
  split at hitem
  next hmark =>
    cases hitem
    cases hdoc
  next hmark =>
    rw [if_neg hmark]
    split at hitem
    next hline =>
      cases hitem
      rw [if_pos hline, skipWhile_stacked (by decide) hi]
    next hline =>
      rw [if_neg hline]
      split at hitem
      next hcomment =>
        rw [if_pos hcomment]
        split at hitem
        next close hfind =>
          cases hitem
          have htwo : i + 2 ≤ above.size := add_length_le_of_matchesAt hcomment (by decide)
          rw [findFrom?_stacked (by decide) htwo hfind]
        next =>
          cases hitem
          cases hopen
      next => cases hitem

/-- Without doc comments and open comments, the trivia at the end of the text above lead to the text
below. The induction is along these trivia. -/
theorem leads_to_below (hi : i ≤ above.size) (hclosed : AllClosed above i)
    (hend : skipEnd above i = above.size) (hdocs : docsFrom above i = [])
    (hbelow : AllClosed (stacked above below) (above.size + 1)) :
    Leads (stacked above below) i (above.size + 1) := by
  induction i using trivia_induction above with
  | stop i hnone =>
    rw [skipEnd_of_none hnone] at hend
    subst hend
    exact .of_blank (by rw [charAt_stacked_break]; decide) (.refl hbelow)
  | item i item hitem ih =>
    obtain ⟨hlt, hle, -⟩ := triviaAt?_spec hitem
    rw [AllClosed, triviaFrom_of_some hitem, List.filterMap_cons] at hclosed
    rw [docsFrom, triviaFrom_of_some hitem, List.filterMap_cons] at hdocs
    cases hopen : item.diagnostic? with
    | some d => simp [hopen] at hclosed
    | none =>
      cases hdoc : item.doc? with
      | some doc => simp [hdoc] at hdocs
      | none =>
        rw [hopen] at hclosed
        rw [hdoc] at hdocs
        have hrest := ih hle hclosed (by rw [← skipEnd_of_some hitem, hend]) hdocs
        cases hblank : isTriviaBlank (charAt above i) with
        | false => exact hrest.of_item (triviaAt?_stacked hitem hdoc hopen hblank) hdoc hopen
        | true =>
          -- A run of blanks may go on below.
          rw [triviaAt?, if_pos (by omega), if_pos hblank] at hitem
          cases hitem
          refine hrest.of_blanks (Nat.le_of_lt hlt) fun n hin hn => ?_
          have hrun := (@skipWhile_spec above i isTriviaBlank).1 n hin hn
          rw [charAt_stacked_above hrun.1]
          exact hrun.2

end Texts

/-! ### What is shared -/

/-- A text that begins with a declaration, as far as its first characters tell. -/
def OpensDeclaration (text : Array Char) : Prop :=
  beginsDeclaration (charAt text (skipEnd text 0)) = true ∧
    ∀ word ∈ ["is", "as", "extends"], wordAt text word (skipEnd text 0) = false

instance (text : Array Char) : Decidable (OpensDeclaration text) :=
  inferInstanceAs (Decidable (_ ∧ _))

/-- No comment is left open in front of the first declaration. -/
theorem OpensDeclaration.closed {text : Array Char} (h : OpensDeclaration text) :
    AllClosed text 0 := by
  rcases called_triviaFrom text 0 with hclosed | ⟨-, -, hend⟩
  · exact hclosed
  · have hbegins := h.1
    rw [hend, charAt_of_size_le (Nat.le_refl _)] at hbegins
    exact absurd hbegins (by decide)

namespace Overlap

theorem getElem?_below (above below : Array Char) (i : Nat) :
    (stacked above below)[((i : Int) + (above.size + 1)).toNat]? = below[i]? := by
  rw [show ((i : Int) + (above.size + 1)).toNat = above.size + 1 + i by omega]
  exact getElem?_stacked_below

theorem size_below (above below : Array Char) :
    (stacked above below).size = ((below.size : Int) + (above.size + 1)).toNat := by
  rw [size_stacked]
  omega

/-- The text below is the end of the stacked texts. -/
def below (above : Array Char) (ctx : Context) : Overlap where
  left := ctx
  right := ⟨stacked above ctx.text, ctx.options⟩
  lo := 0
  stop := ctx.text.size + 1
  offset := above.size + 1
  whole := true
  offset_le := by omega
  agree i _ _ := getElem?_below above ctx.text i
  cut h := Bool.noConfusion h
  full _ := ⟨rfl, size_below above ctx.text, rfl⟩

theorem place_below {above : Array Char} {ctx : Context} :
    (Overlap.below above ctx).place 0 = above.size + 1 := by
  show ((0 : Nat) + ((above.size : Int) + 1)).toNat = above.size + 1
  omega

theorem getElem?_above {above below : Array Char} {stop : Nat} (hstop : stop ≤ above.size) {i : Nat}
    (hi : i < stop) : (stacked above below)[((i : Int) + 0).toNat]? = above[i]? := by
  rw [show ((i : Int) + 0).toNat = i by omega]
  exact getElem?_stacked_above (by omega)

/-- What may end in the text above, and in the stacked texts, is cut there. -/
theorem cut_above {above below : Array Char} {stop : Nat} (hstop : stop ≤ above.size)
    (hcut : Ends above stop ∧ Ends (stacked above below) stop ∧
      wordAt (stacked above below) "extends" (skipEnd (stacked above below) stop) = false) :
    stop ≤ above.size ∧ Ends above stop ∧ Ends (stacked above below) ((stop : Int) + 0).toNat ∧
      (wordAt (stacked above below) "extends"
          (skipEnd (stacked above below) ((stop : Int) + 0).toNat) = true →
        wordAt above "extends" (skipEnd above stop) = true) := by
  rw [show ((stop : Int) + 0).toNat = stop by omega]
  exact ⟨hstop, hcut.1, hcut.2.1, fun h => absurd hcut.2.2 (by simp [h])⟩

/-- The text above up to the place where its last declaration ends. -/
def above (ctx : Context) (below : Context) (stop : Nat) (hstop : stop ≤ ctx.text.size)
    (hcut : Ends ctx.text stop ∧ Ends (stacked ctx.text below.text) stop ∧
      wordAt (stacked ctx.text below.text) "extends" (skipEnd (stacked ctx.text below.text) stop) =
        false) : Overlap where
  left := ctx
  right := ⟨stacked ctx.text below.text, below.options⟩
  lo := 0
  stop := stop
  offset := 0
  whole := false
  offset_le := Int.le_refl 0
  agree _ _ hi := getElem?_above hstop hi
  cut _ := cut_above hstop hcut
  full h := Bool.noConfusion h

end Overlap

/-- Below another text, the text begins as it does alone. -/
theorem OpensDeclaration.stacked {ctx : Context} (h : OpensDeclaration ctx.text)
    (above : Array Char) :
    AllClosed (stacked above ctx.text) (above.size + 1) ∧
      beginsDeclaration (charAt (stacked above ctx.text)
        (skipEnd (stacked above ctx.text) (above.size + 1))) = true ∧
      ∀ word ∈ ["is", "as", "extends"], wordAt (stacked above ctx.text) word
        (skipEnd (stacked above ctx.text) (above.size + 1)) = false := by
  let W : Overlap := .below above ctx
  have hplace : W.place 0 = above.size + 1 := Overlap.place_below
  have hin (i : Nat) : W.Inside i := .inr rfl
  have hskip := W.skipEnd_place (Nat.le_refl 0) (hin _)
  have hclosed := W.diagnosticsFrom_place (Nat.le_refl 0) (hin _)
  have hnames : ∀ word ∈ ["is", "as", "extends"], isName word = true := by decide
  rw [hplace] at hskip hclosed
  rw [show (triviaFrom W.left.text 0).1.filterMap Trivia.diagnostic? = [] from h.closed] at hclosed
  refine ⟨hclosed, ?_, fun word hword => ?_⟩
  · rw [show skipEnd (PklSyntax.stacked above ctx.text) (above.size + 1) = _ from hskip]
    exact (congrArg beginsDeclaration (W.charAt_place (Nat.zero_le _) (hin _))).trans h.1
  · rw [show skipEnd (PklSyntax.stacked above ctx.text) (above.size + 1) = _ from hskip]
    exact (W.wordAt_place (hnames word hword) (Nat.zero_le _) (hin _)).trans (h.2 word hword)

/-! ### What is read above and below -/

section Loops

variable {W : Overlap} {s t : State} {c e n : Nat} {decls : List Declaration}
  {progress : Progress} {Q : List Declaration → Progress → State → Prop}

/-- A run without errors up to the end of the stretch is followed in the right text, and then it
goes on there as it does from the end of the stretch on. The induction is on the run. -/
theorem PlainRun.follow (hrun : PlainRun W.left s c decls e) (hstop : e = W.stop) (hlo : W.lo ≤ c)
    (progress : Progress) (ht : Between W.right.text t (W.place c)) (h : W.Abreast s c t)
    (hno : ¬ s.HasError)
    (hrest : ∀ progress' t', Between W.right.text t' (W.place W.stop) → ¬ t'.HasError →
      Loops declarationRound W.right (Q progress'.declarations.toList) progress' t') :
    Loops declarationRound W.right
      (Q (progress.declarations.toList ++ decls.map (Declaration.placed W.shift))) progress t := by
  have hfront {s : State} {c : Nat} (hmode : s.mode = .loose) :
      s.front W.left.text c = skipEnd W.left.text c := by rw [State.front, hmode]
  have hno' {s t : State} {c : Nat} (h : W.Abreast s c t) (hno : ¬ s.HasError) : ¬ t.HasError := by
    rw [← State.errors_eq_nil] at hno ⊢
    rw [h.errors, hno, List.map_nil]
  induction hrun generalizing t progress with
  | done =>
    rw [List.map_nil, List.append_nil]
    exact hrest progress t (hstop ▸ ht) (hno' h hno)
  | @read s u c c' e decl decls ds hs hclosed hcall hread herror hds hplain ih =>
    obtain ⟨hu, hpos, -⟩ := hs.skipTrivia
    obtain ⟨hv, -, -⟩ := ht.skipTrivia
    have hlt := hread.lt
    have hle := @le_skipEnd W.left.text c'
    have hend := hplain.end_cases
    have hlive : W.Live true s c := .inr ⟨hno, .inl (by rw [hfront hs.mode_eq]; omega)⟩
    have hlive' : W.Live true u c' := by
      refine .inr ⟨herror, hend.symm.imp (fun hlt => ?_) fun heq => ⟨rfl, heq.trans hstop⟩⟩
      rw [hfront (hread.passes.onward.mode_eq.trans hu.mode_eq), ← hstop]
      exact hlt
    obtain ⟨v, hcall', habreast, hread'⟩ := W.declaration_abreast hlo hu hv
      (h.skipTrivia hlo hs.stands hs.mode_eq hlive) hcall hread.span_eq hlive'
    refine .read ht hcall' hread' (hno' habreast herror) fun ds' hds' => ?_
    have hlo' := Nat.le_trans hlo hread.passes.onward.le
    have hnext := ih hstop hlo' ⟨progress.declarations.push (decl.placed W.shift),
        progress.header.add (decl.placed W.shift)⟩ ((hv.read hread').record ds')
      (.of_between hlo' ((hu.read hread).record ds) ((hv.read hread').record ds') habreast.skipped
        (by rw [State.errors_record hds, State.errors_record hds', habreast.errors]))
      (by rwa [← State.errors_eq_nil, State.errors_record hds, State.errors_eq_nil])
    rwa [Array.toList_push, List.append_assoc, List.singleton_append, ← List.map_cons] at hnext

/-- The loop over the declarations has come to the progress and the state that another one has come
to, `δ` further on and behind the declarations that were there before. -/
def ReadsOn (δ : Int) (progress : Progress) (s : State) (before : List Declaration)
    (progress' : Progress) (s' : State) : Prop :=
  progress'.declarations.toList =
      before ++ progress.declarations.toList.map (Declaration.placed (.shift δ)) ∧
    s'.errors = s.errors.map (Diagnostic.placed (.shift δ))

/-- Below a text without errors, behind its last declaration, the loop over the declarations comes
to what it comes to for the text below alone. -/
theorem loops_below {above : Array Char} {ctx : Context} (progress' : Progress)
    (hopens : OpensDeclaration ctx.text)
    (hleads : Leads (stacked above ctx.text) e (above.size + 1))
    (ht : Between (stacked above ctx.text) t e) (hno : ¬ t.HasError)
    (hrun : rounds declarationRound n {} ctx {} = .ok progress s) :
    Loops declarationRound ⟨stacked above ctx.text, ctx.options⟩
      (ReadsOn (above.size + 1) progress s progress'.declarations.toList) progress' t := by
  let W : Overlap := .below above ctx
  have hplace : W.place 0 = above.size + 1 := Overlap.place_below
  obtain ⟨hu, hv, habreast⟩ := W.abreast_skipTrivia (Nat.le_refl 0) (.initial ctx.text)
    (.refl hopens.closed) ht (hplace ▸ hleads) (by simp [State.HasError]) hno
  have hpaired : W.Paired _ 0 _ :=
    ⟨rfl, Nat.le_refl 0, hu, hv, habreast.skipped, habreast.errors⟩
  refine (hpaired.loops ht.stands.pos_le_size hrun).mono ?_
  rintro progress₁ t₁ ⟨added, hadded, hadded', herrors⟩
  exact ⟨by rw [hadded', hadded]; rfl, herrors⟩

/-- The loop over the declarations of the stacked texts reads those above and then those below. -/
theorem loops_stacked {above ctx : Context} (hplain : PlainRun above {} 0 decls e)
    (hdocs : docsFrom above.text e = []) (hopens : OpensDeclaration ctx.text)
    (hrun : rounds declarationRound n {} ctx {} = .ok progress s) :
    Loops declarationRound ⟨stacked above.text ctx.text, ctx.options⟩
      (ReadsOn (above.text.size + 1) progress s (decls.map (Declaration.placed (.shift 0))))
      {} {} := by
  obtain ⟨hclosed, hend, hsize⟩ := hplain.trivia_end
  obtain ⟨hclosed', hbegins, hwords⟩ := hopens.stacked above.text
  have hleads := leads_to_below hsize hclosed hend hdocs hclosed'
  by_cases hzero : 0 = e
  · have hnil : decls = [] := by
      cases hplain with
      | done => rfl
      | read hs _ _ hread _ _ hrest =>
        have := hread.lt
        have := hrest.end_cases
        have := @le_skipEnd above.text
        omega
    subst hzero hnil
    exact loops_below {} hopens hleads (.initial _) (by simp [State.HasError]) hrun
  · have htoken : TokenEnd above.text e := hplain.tokenEnd fun h0 => absurd h0 hzero
    have hlast : charAt (stacked above.text ctx.text) (e - 1) = charAt above.text (e - 1) :=
      charAt_stacked_above (by omega)
    have hends : Ends above.text e := ⟨htoken, hclosed, .inl (Nat.le_of_eq hend.symm)⟩
    have hends' : Ends (stacked above.text ctx.text) e := by
      refine ⟨⟨htoken.pos, hlast ▸ htoken.endsToken, fun hname => ?_⟩, hleads.closed, .inr ?_⟩
      · rcases Nat.lt_or_eq_of_le hsize with hlt | rfl
        · rw [charAt_stacked_above hlt]
          exact htoken.apart (hlast ▸ hname)
        · rw [charAt_stacked_break]
          decide
      · rw [hleads.skipEnd_eq]
        exact ⟨hbegins, hwords "is" (by simp), hwords "as" (by simp)⟩
    let W : Overlap := .above above ctx e hsize
      ⟨hends, hends', by rw [hleads.skipEnd_eq]; exact hwords "extends" (by simp)⟩
    have hplace : W.place e = e := by
      show ((e : Int) + 0).toNat = e
      omega
    have hinitial : W.Abreast {} 0 {} :=
      .of_between (Nat.le_refl 0) (.initial _) (.initial _) Iff.rfl rfl
    exact hplain.follow (W := W) (Q := ReadsOn (above.text.size + 1) progress s) rfl (Nat.le_refl 0)
      {} (.initial _) hinitial (by simp [State.HasError]) fun progress' t' ht' hno' =>
        loops_below progress' hopens hleads (hplace ▸ ht') hno' hrun

end Loops

/-! ### Results -/

/-- The offset at which the last one of the declarations ends: the start of the text, when there are
none. -/
def endOfDeclarations (decls : List Declaration) : Nat :=
  decls.getLast?.elim 0 fun decl => decl.span.stop.toNat

theorem toArray_append_line (above below : String) :
    (above ++ "\n" ++ below).toList.toArray =
      stacked above.toList.toArray below.toList.toArray := by
  rw [stacked, String.toList_append, String.toList_append, ← List.append_toArray,
    ← List.append_toArray, Array.push_eq_append]
  rfl

/-- A text without errors, and without a doc comment behind its last declaration, is read with
another text below it, on a new line, if that one begins with a declaration. The declarations are
those of the two texts, and the errors are those of the text below, further down. -/
theorem parse_stacked (above below filename : String) (options' options : Options)
    (habove : (parse above filename options').hasErrors = false)
    (hdocs : docsFrom above.toList.toArray
      (endOfDeclarations (parse above filename options').module.declarations) = [])
    (hbelow : OpensDeclaration below.toList.toArray) :
    let upper := parse above filename options'
    let lower := parse below filename options
    let both := parse (above ++ "\n" ++ below) filename options
    Node.sameShapes (both.module.declarations.map .ofDeclaration)
        ((upper.module.declarations ++ lower.module.declarations).map .ofDeclaration) = true ∧
      both.errors = lower.errors.map (Diagnostic.placed (.shift (above.length + 1))) := by
  intro upper lower both
  obtain ⟨progress, s, hrounds, hdecls, herrors⟩ := parse_of_rounds above filename options'
  have herror : ¬ s.HasError := by
    rwa [ParseResult.hasErrors_eq_false, herrors, sortedByOffset_eq_nil, State.errors_eq_nil]
      at habove
  obtain ⟨decls, e, heq, hplain⟩ := exists_plainRun (Between.initial _) hrounds herror
  obtain rfl : upper.module.declarations = decls := hdecls.trans heq
  rw [show endOfDeclarations (parse above filename options').module.declarations = e from
    hplain.end_eq.symm] at hdocs
  obtain ⟨progress', s', hrounds', hdecls', herrors'⟩ := parse_of_rounds below filename options
  have hopens : OpensDeclaration (Context.mk below.toList.toArray options).text := hbelow
  have hloops := loops_stacked hplain hdocs hopens hrounds'
  simp only at hloops
  rw [← toArray_append_line] at hloops
  obtain ⟨progress₂, s₂, ⟨hread, hread'⟩, hdecls₂, herrors₂⟩ := hloops.parse filename
  have hlength : above.toList.toArray.size = above.length := by
    rw [List.size_toArray, String.length_toList]
  have hlocated : ∀ d ∈ s'.errors, d.span?.isSome = true := fun d hd =>
    (prefix_of_rounds hrounds').2.located (by simp [State.Located]) d (List.mem_of_mem_filter hd)
  constructor
  · rw [hdecls₂, hread, show lower.module.declarations = _ from hdecls']
    exact sameShapes_of_moved (List.rel_append (forall₂_isMoved _ _) (forall₂_isMoved _ _))
  · rw [herrors₂, hread', show lower.errors = _ from herrors', ← hlength]
    exact sortedByOffset_shift hlocated

/-- A comment at the end of the text above does not reach into the text below, whose errors are
found as they are found in it alone. -/
theorem parse_stacked_comment :
    (parse "x = 1 // one" "m" {}).hasErrors = false ∧
      OpensDeclaration "y = )\n@A z = 2".toList.toArray ∧
      (parse "y = )\n@A z = 2" "m" {}).hasErrors = true ∧
      (parse ("x = 1 // one" ++ "\n" ++ "y = )\n@A z = 2") "m" {}).errors =
        (parse "y = )\n@A z = 2" "m" {}).errors.map (Diagnostic.placed (.shift 13)) := by
  have habove : (parse "x = 1 // one" "m" {}).hasErrors = false := by decide +kernel
  have hdocs : docsFrom "x = 1 // one".toList.toArray
      (endOfDeclarations (parse "x = 1 // one" "m" {}).module.declarations) = [] := by
    decide +kernel
  have hbelow : OpensDeclaration "y = )\n@A z = 2".toList.toArray := by decide +kernel
  exact ⟨habove, hbelow, by decide +kernel,
    (parse_stacked _ "y = )\n@A z = 2" "m" {} {} habove hdocs hbelow).2⟩

end PklSyntax
