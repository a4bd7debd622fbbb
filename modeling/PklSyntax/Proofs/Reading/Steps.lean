import PklSyntax.Cursor.Documentation
import PklSyntax.Proofs.Reading.Yields

/-!
# The steps of parsers

What each of the steps comes to of which parsers are made. A step that moves the cursor reads a
token; it may do so only where a token can begin. A step that gives a construct up leaves an error
on record. A parser that runs in another mode goes onward in the mode around it too, when it begins
where a token can begin.

## Main statements

* `Parser.skip_yields`, `Parser.moveTo_yields`, `Parser.advance_yields`: moving.
* `Parser.report_yields`, `Parser.failWith_yields`, `Parser.attempt_yields`: recording and stopping.
* `Parser.takeDoc_yields`: taking the doc comment in front of the cursor.
* `Parser.inMode_yields`: another mode.
* `Parser.identifier?_yields`: names.
-/

namespace PklSyntax

variable {text : Array Char} {s : State} {c : Nat}

/-- The last entry of an array to which a list was added is the last one of the list. -/
theorem getElem?_append_last {α : Type} {as : Array α} {bs : List α}
    (h : as.size < (as ++ bs).size) : (as ++ bs)[(as ++ bs).size - 1]? = bs.getLast? := by
  have hsize : (as ++ bs).size = as.size + bs.length := by
    rw [← Array.length_toList, Array.toList_appendList, List.length_append, Array.length_toList]
  have hlen : as.toList.length = as.size := Array.length_toList
  rw [hsize] at h ⊢
  rw [← Array.getElem?_toList, Array.toList_appendList, List.getElem?_append_right (by omega),
    List.getLast?_eq_getElem?, hlen]
  exact congrArg (bs[·]?) (by omega)

/-! ### The doc comment that waits -/

namespace State

/-- Taking a doc comment changes only what is attached. -/
theorem takeDoc_eq (s : State) :
    ∃ attached, s.takeDoc = (s.pending, { s with attached }) ∧
      ∀ i ∈ attached, i ∈ s.attached ∨ i < s.docs.size := by
  rw [pending, takeDoc]
  split
  · rename_i h
    simp only
    split
    · exact ⟨s.attached, rfl, fun i hi => .inl hi⟩
    · refine ⟨_, rfl, fun i hi => ?_⟩
      rcases List.mem_cons.1 hi with rfl | hi
      · exact .inr (by omega)
      · exact .inl hi
  · exact ⟨s.attached, rfl, fun i hi => .inl hi⟩

/-- Where trivia have just been skipped, nothing more is skipped. -/
theorem skipTrivia_eq_self (hend : s.triviaEnd = some s.pos) (hnone : triviaAt? text s.pos = none) :
    s.skipTrivia text = s := by
  rw [skipTrivia]
  split
  · rfl
  · rw [triviaFrom_of_none hnone]
    simp only [hend, if_true, List.filterMap_nil, Array.appendList_nil]
    rw [← hend]

end State

/-- Skipping trivia goes onward and reads no token. -/
theorem Stands.skipTrivia (h : Stands text s c) (hmode : s.mode = .loose) :
    Onward text s c (s.skipTrivia text) c ∧ (s.skipTrivia text).pos = skipEnd text c ∧
      (s.skipTrivia text).triviaEnd = some (s.skipTrivia text).pos := by
  rcases h.place with ⟨hpos, hfresh⟩ | ⟨hend, hpos, -⟩
  · have hne : s.triviaEnd ≠ some s.pos := fun he => by
      have := hfresh _ he
      omega
    have hskip : s.skipTrivia text =
        { s with
          pos := skipEnd text c
          runStart := s.docs.size
          triviaEnd := some (skipEnd text c)
          docs := s.docs ++ docsFrom text c
          diagnostics :=
            s.diagnostics ++ (triviaFrom text c).1.filterMap Trivia.diagnostic? } := by
      rw [State.skipTrivia, hmode]
      simp only [if_neg hne]
      rw [hpos]
      rfl
    have hle := @le_skipEnd text c
    have hsize : (s.docs ++ docsFrom text c).size = s.docs.size + (docsFrom text c).length := by
      rw [← Array.length_toList, Array.toList_appendList, List.length_append, Array.length_toList]
    rw [hskip]
    refine ⟨⟨h, ⟨?_, ?_, .inr ⟨rfl, rfl, ?_, ?_⟩⟩, ?_, .inl rfl, rfl, ?_, ?_⟩, rfl, rfl⟩
    · exact skipEnd_le_size h.le_size
    · intro i hi
      have := h.attached_lt i hi
      simp only [hsize]
      omega
    · -- The last doc comment is one of those that were found on the way.
      rw [State.runDoc?]
      simp only
      split
      · rename_i hcond
        exact getElem?_append_last hcond
      · rename_i hcond
        have hnil : (docsFrom text c).length = 0 := by omega
        rw [List.length_eq_zero_iff.1 hnil]
        rfl
    · by_cases hall : AllClosed text c
      · exact .inl hall
      · obtain ⟨d, hd⟩ := List.exists_mem_of_ne_nil _ hall
        refine .inr ⟨d, ?_, ?_⟩
        · simp [hd]
        · obtain ⟨item, -, hitem⟩ := List.mem_filterMap.1 hd
          cases item with
          | unclosedComment => cases hitem; rfl
          | _ => simp [Trivia.diagnostic?] at hitem
    · simp only
      omega
    · rw [Array.toList_appendList]
      exact List.prefix_append _ _
    · rw [Array.toList_appendList]
      exact List.prefix_append _ _
  · have hnone : triviaAt? text s.pos = none := hpos ▸ triviaAt?_skipEnd c
    rw [State.skipTrivia_eq_self hend hnone]
    exact ⟨.refl h, hpos, hend⟩

/-- A character with which no trivia begin. -/
def opensToken (c : Char) : Bool := !isTriviaBlank c && c != '/' && c != '\x00'

/-- The cursor is where the next token can begin, when what stands there is no trivia. -/
theorem Stands.poised_of_opens (h : Stands text s c)
    (hopens : opensToken (charAt text s.pos) = true) : Poised text s c := by
  simp only [opensToken, Bool.and_eq_true, Bool.not_eq_true', bne_iff_ne] at hopens
  exact h.poised (triviaAt?_eq_none hopens.1.1 hopens.1.2)

theorem lt_size_of_opens {i : Nat} (h : opensToken (charAt text i) = true) : i < text.size := by
  simp only [opensToken, Bool.and_eq_true, bne_iff_ne] at h
  exact lt_size_of_charAt_ne h.2

theorem opensToken_of_continuesName {c : Char} (h : continuesName c = true) :
    opensToken c = true := by
  simp [opensToken, not_isTriviaBlank_of_continuesName h, ne_slash_of_continuesName h,
    ne_nul_of_continuesName h]

theorem poised_of_tight (h : s.mode = .tight) : Poised text s c := by
  rw [Poised, State.front, h]

/-- Where the cursor is moved on to, it stands. -/
theorem Stands.at_pos (h : Stands text s c) {pos : Nat} (hlt : s.pos < pos)
    (hsize : pos ≤ text.size) : Stands text { s with pos } pos where
  pos_le_size := hsize
  attached_lt := h.attached_lt
  place := .inl ⟨rfl, fun e he => by
    rcases h.place with ⟨hpos, hfresh⟩ | ⟨hend, -⟩
    · have := hfresh e he
      omega
    · obtain rfl : s.pos = e := by simpa [hend] using he
      exact hlt⟩

/-- Moving the cursor on reads a token, where one can begin. -/
theorem Stands.moveTo (h : Stands text s c) (hp : Poised text s c) {pos : Nat} (hlt : s.pos < pos)
    (hsize : pos ≤ text.size) : Onward text s c { s with pos } pos where
  start := h
  stands := h.at_pos hlt hsize
  pos_le := Nat.le_of_lt hlt
  moved := .inr (.inl (Nat.lt_of_le_of_lt hp hlt))
  mode_eq := rfl
  diagnostics := List.prefix_rfl
  docs := List.prefix_rfl

/-- Once an error is on record the cursor may be moved on from anywhere. -/
theorem Stands.jump (h : Stands text s c) (herror : s.HasError) {pos : Nat} (hlt : s.pos < pos)
    (hsize : pos ≤ text.size) : Onward text s c { s with pos } pos where
  start := h
  stands := h.at_pos hlt hsize
  pos_le := Nat.le_of_lt hlt
  moved := .inr (.inr ⟨Nat.le_trans h.le_pos (Nat.le_of_lt hlt), herror⟩)
  mode_eq := rfl
  diagnostics := List.prefix_rfl
  docs := List.prefix_rfl

/-- What is recorded changes nothing else. -/
theorem Stands.push (h : Stands text s c) (d : Diagnostic) :
    Onward text s c { s with diagnostics := s.diagnostics.push d } c where
  start := h
  stands :=
    { pos_le_size := h.pos_le_size
      attached_lt := h.attached_lt
      place := by
        rcases h.place with hfresh | ⟨hend, hpos, hdoc, hclosed⟩
        · exact .inl hfresh
        · exact .inr ⟨hend, hpos, hdoc, hclosed.imp_right fun he => he.mono (by simp)⟩ }
  pos_le := Nat.le_refl _
  moved := .inl rfl
  mode_eq := rfl
  diagnostics := by simp
  docs := List.prefix_rfl

/-- What is attached has no bearing on where a parse stands. -/
theorem Stands.attach (h : Stands text s c) {attached : List Nat}
    (hlt : ∀ i ∈ attached, i < s.docs.size) : Onward text s c { s with attached } c where
  start := h
  stands := ⟨h.pos_le_size, hlt, h.place⟩
  pos_le := Nat.le_refl _
  moved := .inl rfl
  mode_eq := rfl
  diagnostics := List.prefix_rfl
  docs := List.prefix_rfl

theorem Stands.takeDoc (h : Stands text s c) : Onward text s c s.takeDoc.2 c := by
  obtain ⟨attached, heq, hlt⟩ := s.takeDoc_eq
  rw [heq]
  exact h.attach fun i hi => (hlt i hi).elim (h.attached_lt i) id

/-- The doc comment that waits stands between the last token and the cursor. -/
theorem Stands.pending_span {doc : DocComment} (h : Stands text s c)
    (hdoc : s.pending = some doc) :
    ∃ start stop : Nat, doc.span = .ofNat start stop ∧ c ≤ start ∧ start < stop ∧ stop ≤ s.pos := by
  obtain ⟨hend, hrun⟩ := State.runDoc?_of_pending hdoc
  rcases h.place with ⟨hpos, hfresh⟩ | ⟨-, hpos, hlast, -⟩
  · have := hfresh _ hend
    omega
  · obtain ⟨start, stop, hspan, hle, hlt, hstop, -⟩ := docsFrom_getLast? (hlast.symm.trans hrun)
    exact ⟨start, stop, hspan, hle, hlt, by omega⟩

/-- A parse in another mode goes onward in the mode around it. -/
theorem Onward.of_mode {mode : Mode} {s' : State} {c' : Nat} (hs : Stands text s c)
    (hp : mode = .tight → Poised text s c) (h : Onward text { s with mode } c s' c') :
    Onward text s c { s' with mode := s.mode } c' where
  start := hs
  stands := h.stands.with_mode s.mode
  pos_le := h.pos_le
  moved := by
    rcases h.moved with hc | hc | ⟨hc, herror⟩
    · exact .inl hc
    · refine .inr (.inl (Nat.lt_of_le_of_lt ?_ hc))
      cases mode with
      | loose =>
        have := hs.le_pos
        have := hs.pos_le_skipEnd
        simp only [State.front]
        split <;> omega
      | tight => exact hp rfl
    · exact .inr (.inr ⟨hc, herror⟩)
  mode_eq := rfl
  diagnostics := h.diagnostics
  docs := h.docs

namespace Parser

variable {α : Type} {ctx : Context}

/-! ### Moving -/

/-- No token was read, and the trivia behind the last one have been skipped, if there may be any. -/
structure Skipped (text : Array Char) (c : Nat) (s' : State) (c' : Nat) : Prop where
  eq : c' = c
  poised : Poised text s' c
  triviaEnd : s'.mode = .loose → s'.triviaEnd = some s'.pos

theorem skip_yields : skip.Yields ctx s c fun _ s' c' => Skipped ctx.text c s' c' := by
  intro hs
  show ∃ c', Onward ctx.text s c (s.skipTrivia ctx.text) c' ∧ _
  cases hmode : s.mode with
  | loose =>
    obtain ⟨hon, hpos, hend⟩ := hs.skipTrivia hmode
    refine ⟨c, hon, ⟨rfl, ?_, fun _ => hend⟩⟩
    rw [Poised, State.front, hon.mode_eq, hmode]
    exact Nat.le_of_eq hpos.symm
  | tight =>
    have hskip : s.skipTrivia ctx.text = s := by rw [State.skipTrivia, hmode]
    rw [hskip]
    exact ⟨c, .refl hs, ⟨rfl, poised_of_tight hmode, fun h => by simp [hmode] at h⟩⟩

theorem moveTo_yields {pos : Nat} (hp : Poised ctx.text s c) (hlt : s.pos < pos)
    (hsize : pos ≤ ctx.text.size) :
    (moveTo pos).Yields ctx s c fun _ s' c' => s' = { s with pos } ∧ c' = pos :=
  fun hs => ⟨pos, hs.moveTo hp hlt hsize, rfl, rfl⟩

/-- In tight mode the cursor may also be left where it is. -/
theorem moveTo_tight {pos : Nat} (hmode : s.mode = .tight) (hle : s.pos ≤ pos)
    (hsize : pos ≤ ctx.text.size) :
    (moveTo pos).Yields ctx s c fun _ s' c' =>
      s' = { s with pos } ∧ (c' = pos ∨ pos = s.pos ∧ c' = c) := by
  intro hs
  rcases Nat.lt_or_eq_of_le hle with hlt | rfl
  · exact ⟨pos, hs.moveTo (poised_of_tight hmode) hlt hsize, rfl, .inl rfl⟩
  · exact ⟨c, .refl hs, rfl, .inr ⟨rfl, rfl⟩⟩

/-- Once an error is on record the cursor may also be left where it is. -/
theorem moveTo_hasError {pos : Nat} (herror : s.HasError) (hle : s.pos ≤ pos)
    (hsize : pos ≤ ctx.text.size) :
    (moveTo pos).Yields ctx s c fun _ s' _ => s' = { s with pos } := by
  intro hs
  rcases Nat.lt_or_eq_of_le hle with hlt | rfl
  · exact ⟨pos, hs.jump herror hlt hsize, rfl⟩
  · exact ⟨c, .refl hs, rfl⟩

theorem advance_yields {n : Nat} (hp : Poised ctx.text s c) (hn : 0 < n)
    (hsize : s.pos + n ≤ ctx.text.size) :
    (advance n).Yields ctx s c fun _ s' c' => s' = { s with pos := s.pos + n } ∧ c' = s.pos + n := by
  refine .look theText_looks (.look position_looks ?_)
  rw [Nat.min_eq_right hsize]
  exact moveTo_yields hp (by omega) hsize

/-- Moving over a character with which no trivia begin. -/
theorem advance_sign (hopens : opensToken (charAt ctx.text s.pos) = true) :
    (advance 1).Yields ctx s c fun _ s' c' => s' = { s with pos := s.pos + 1 } ∧ c' = s.pos + 1 :=
  .of_stands fun hs =>
    advance_yields (hs.poised_of_opens hopens) Nat.one_pos (lt_size_of_opens hopens)

/-- Moving over a token with whose first character no trivia begin. -/
theorem advance_token (token : String) (hmatch : matchesAt ctx.text token s.pos = true)
    (hopens : token.toList.head?.any opensToken = true) :
    (advance token.length).Yields ctx s c fun _ s' c' =>
      s' = { s with pos := s.pos + token.length } ∧ c' = s.pos + token.length := by
  obtain ⟨first, hfirst, hopens⟩ := (Option.any_eq_true _ _).1 hopens
  rw [List.head?_eq_getElem?] at hfirst
  have hchar := charAt_of_matchesAt hmatch hfirst
  rw [Nat.add_zero] at hchar
  have hne : token ≠ "" := by
    rintro rfl
    simp at hfirst
  have hlen : 0 < token.length := Nat.pos_of_ne_zero fun h => hne (String.length_eq_zero_iff.1 h)
  exact .of_stands fun hs => advance_yields (hs.poised_of_opens (by rwa [hchar])) hlen
    (add_length_le_of_matchesAt hmatch hne)

/-- In tight mode the cursor can be moved on from behind a token, as far as the text goes. -/
theorem advance_tight {n : Nat} (hmode : s.mode = .tight) (hpos : s.pos = c) :
    (advance n).Yields ctx s c fun _ s' c' =>
      s' = { s with pos := min ctx.text.size (s.pos + n) } ∧ c' = s'.pos := by
  refine .of_stands fun hs => .look theText_looks (.look position_looks ?_)
  have := hs.pos_le_size
  refine (moveTo_tight hmode (by omega) (by omega)).mono fun _ s' c' _ h => ⟨h.1, ?_⟩
  rw [h.1]
  rcases h.2 with heq | ⟨heq, hc⟩
  · exact heq
  · simp only
    omega

/-! ### Recording and stopping -/

theorem report_yields (problem : Problem) (span : Span) :
    (report problem span).Yields ctx s c fun _ s' c' =>
      s' = { s with diagnostics := s.diagnostics.push (problem.diagnostic span) } ∧ c' = c :=
  fun hs => ⟨c, hs.push _, rfl, rfl⟩

/-- A construct that is given up has no result, and leaves an error on record. -/
theorem failWith_yields {Q : α → State → Nat → Prop} {problem : Problem} {span : Span}
    (herror : (problem.diagnostic span).isError = true) :
    (failWith problem span : Parser α).Yields ctx s c Q :=
  (report_yields problem span).bind fun _ _ c' _ h hs =>
    ⟨nofun, fun _ => ⟨_, by simp [h.1], herror⟩, c', .refl hs⟩

theorem failWith_bind_yields {β : Type} {f : α → Parser β} {Q : β → State → Nat → Prop}
    {problem : Problem} {span : Span} (herror : (problem.diagnostic span).isError = true) :
    (failWith problem span >>= f).Yields ctx s c Q :=
  .bind (P := fun _ _ _ => False) (failWith_yields herror) fun _ _ _ _ h => h.elim

theorem throw_yields {Q : α → State → Nat → Prop} (herror : s.HasError) :
    (throw .failed : Parser α).Yields ctx s c Q :=
  fun hs => ⟨nofun, fun _ => herror, c, .refl hs⟩

theorem throw_tooDeep_yields {Q : α → State → Nat → Prop} :
    (throw .tooDeep : Parser α).Yields ctx s c Q :=
  fun hs => ⟨nofun, nofun, c, .refl hs⟩

theorem attempt_yields {p : Parser α} {Q : α → State → Nat → Prop} (hp : p.Yields ctx s c Q) :
    (attempt p).Yields ctx s c fun a? s' c' =>
      match a? with
      | some a => Q a s' c'
      | none => s'.HasError := by
  intro hs
  have hp := hp hs
  rw [EndsFrom] at hp
  rw [EndsFrom, attempt]
  cases hrun : p ctx s with
  | ok a s' =>
    rw [hrun] at hp
    exact hp
  | error stop s' =>
    rw [hrun] at hp
    obtain ⟨hstop, herror, c', hon⟩ := hp
    cases stop with
    | failed => exact ⟨c', hon, herror rfl⟩
    | tooDeep => exact ⟨by simp, by simp, c', hon⟩
    | stalled => exact absurd rfl hstop

/-! ### Doc comments -/

theorem takeDoc_yields :
    takeDoc.Yields ctx s c fun doc s' c' =>
      doc = s.pending ∧ s'.pos = s.pos ∧ c' = c := by
  intro hs
  have hpos : s.takeDoc.2.pos = s.pos := by
    obtain ⟨attached, heq, -⟩ := s.takeDoc_eq
    rw [heq]
  exact ⟨c, hs.takeDoc, rfl, hpos, rfl⟩

/-! ### Modes -/

theorem inMode_yields {p : Parser α} {mode : Mode} {Q : α → State → Nat → Prop}
    (hpoised : mode = .tight → Poised ctx.text s c)
    (hp : p.Yields ctx { s with mode } c fun a s' c' => Q a { s' with mode := s.mode } c') :
    (inMode mode p).Yields ctx s c Q := by
  intro hs
  have hp := hp (hs.with_mode mode)
  rw [EndsFrom] at hp
  rw [EndsFrom, inMode]
  cases hrun : p ctx { s with mode } with
  | ok a s' =>
    rw [hrun] at hp
    obtain ⟨c', hon, hQ⟩ := hp
    exact ⟨c', .of_mode hs hpoised hon, hQ⟩
  | error stop s' =>
    rw [hrun] at hp
    obtain ⟨hstop, herror, c', hon⟩ := hp
    exact ⟨hstop, herror, c', .of_mode hs hpoised hon⟩

/-! ### Names -/

/-- What a name that was read from `s` on says of the text, and where it ends. -/
structure NameRead (text : Array Char) (s : State) (name : Identifier) (s' : State) (c' : Nat) :
    Prop where
  span : name.span = .ofNat s.pos c'
  lt : s.pos < c'
  state : s' = { s with pos := c' }
  tokenEnd : TokenEnd text c'

theorem identifier?_yields :
    identifier?.Yields ctx s c fun name? s' c' =>
      match name? with
      | some name => NameRead ctx.text s name s' c'
      | none => s' = s ∧ c' = c ∧ charAt ctx.text s.pos ≠ backtick ∧
          startsName (charAt ctx.text s.pos) = false := by
  refine .of_stands fun hs => .look peek_looks ?_
  split
  · rename_i hfirst
    rw [beq_iff_eq] at hfirst
    have hp : Poised ctx.text s c := hs.poised_of_opens (by rw [hfirst]; decide)
    refine .bind (P := fun name s' c' => NameRead ctx.text s name s' c')
      (.look theText_looks (.look position_looks ?_)) fun name s' c' _ h => .pure h
    dsimp only
    split
    · rename_i hlast
      rw [beq_iff_eq] at hlast
      have hle := le_skipWhile ctx.text (fun c => c != backtick && c != '\n') (s.pos + 1)
      have hlt := lt_size_of_charAt_ne (by rw [hlast]; decide)
      refine (moveTo_yields hp (by omega) (by omega)).bind
        fun _ s' c' _ h => .look (slice_looks _ _) (.look (spanFrom_looks _) (.pure ?_))
      obtain ⟨rfl, rfl⟩ := h
      exact ⟨rfl, by omega, rfl, tokenEnd_of_sign hlast (by decide) (by decide)⟩
    · exact failWith_yields rfl
  · rename_i hfirst
    split
    · rename_i hstart
      have hname := continuesName_of_startsName hstart
      have hlt := lt_nameEnd hname
      have hp := hs.poised_of_opens (opensToken_of_continuesName hname)
      have hsize := skipWhile_le_size ctx.text continuesName hs.pos_le_size
      refine .look position_looks (.look wordEnd_looks ?_)
      refine (moveTo_yields hp hlt hsize).bind
        fun _ s' c' _ h => .look (sliceFrom_looks _) (.look (spanFrom_looks _) (.pure ?_))
      obtain ⟨rfl, rfl⟩ := h
      exact ⟨rfl, hlt, rfl, tokenEnd_nameEnd hlt⟩
    · rename_i hstart
      exact .pure ⟨rfl, rfl, by simpa using hfirst, by simpa using hstart⟩

end Parser

end PklSyntax
