import PklSyntax.Proofs.Printing.Grouping
import PklSyntax.Proofs.Printing.Words

/-!
# Reading a line character by character

Where tokens stand directly behind one another, what is left of a line is given by its characters.
The cursor *faces* them when they are what is left, and it is *before* them when at most a blank is
yet to be skipped.

## Main definitions

* `Facing`, `Before`: where the cursor is.
* `Identifier.IsWritten`, `Identifier.print`: identifiers of all forms, and how they are written.

## Main statements

* `Before.accept?`, `Before.expect`, `Before.not_accept?`: signs that are asked for.
* `Facing.identifier`: identifiers.
* `Facing.qualifiedName`: names with points between them.
-/

namespace PklSyntax

open PklSyntax.Parser

/-- The characters are what is left of a line on which nothing has been recorded. -/
abbrev Facing (text : Array Char) (s : State) (rest : List Char) : Prop := Line text s [] rest

/-- The characters are what is left of a line, but for a blank in front of them. -/
def Before (text : Array Char) (s : State) (rest : List Char) : Prop :=
  Facing text s rest ∨ Facing text s (' ' :: rest) ∧ rest ≠ []

/-- No trivia stand in front of the characters. -/
def Fresh (rest : List Char) : Prop := rest = [] ∨ beginsToken rest = true

theorem fresh_cons {c : Char} {rest : List Char} (hblank : isTriviaBlank c = false)
    (hslash : c ≠ '/') : Fresh (c :: rest) := by
  refine .inr ?_
  rw [beginsToken, hblank, bne_iff_ne.2 hslash]
  rfl

section Signs

variable {ctx : Context} {s s' : State} {rest more : List Char}

theorem Line.facing {tokens : List String} (h : Line ctx.text s tokens rest) :
    Facing ctx.text s rest :=
  h.with_tokens (List.forall_mem_nil _)

/-- When fewer characters are left, the cursor has moved on. -/
theorem Before.pos_lt (h : Before ctx.text s rest) (h' : Facing ctx.text s' more)
    (hlen : more.length < rest.length) : s.pos < s'.pos := by
  have hmore := Line.pos_add_length h'
  rcases h with h | ⟨h, -⟩
  · have := Line.pos_add_length h
    omega
  · have := Line.pos_add_length h
    rw [List.length_cons] at this
    omega

/-- The characters that are left, as one token. -/
theorem Facing.isToken (h : Facing ctx.text s rest) {token : List Char} (hsuffix : token <:+ rest)
    (hbegins : beginsToken token = true) : IsToken (String.ofList token) where
  begins := by rwa [String.toList_ofList]
  oneLine := by
    rw [String.toList_ofList]
    intro hmem
    have hleft := hsuffix.subset hmem
    rw [← h.rest] at hleft
    exact h.oneLine (List.mem_of_mem_drop hleft)

theorem joined_ofList (rest : List Char) : joined [String.ofList rest] = rest := by
  simp [joined, firstToken, spaced]

/-- Skipping trivia leads to the characters. -/
theorem Before.skip (h : Before ctx.text s rest) (hfresh : Fresh rest) :
    Parser.skip.Reads ctx s fun _ s' => Facing ctx.text s' rest := by
  rcases hfresh with rfl | hbegins
  · rcases h with h | h
    · have hat : At ctx.text s [] := h
      exact hat.near_at.skip.mono fun _ _ hat => Line.facing hat
    · exact absurd rfl h.2
  · have hnear : Near ctx.text s [String.ofList rest] := by
      rcases h with h | h
      · have htoken := h.isToken (List.suffix_refl _) hbegins
        refine .inl (show Line _ _ _ _ from ?_)
        rw [joined_ofList]
        exact h.with_tokens (List.forall_mem_singleton.2 htoken)
      · have htoken := h.1.isToken (List.suffix_cons ' ' rest) hbegins
        refine .inr (show Line _ _ _ _ from ?_)
        rw [spaced_cons, joined_ofList]
        exact h.1.with_tokens (List.forall_mem_singleton.2 htoken)
    refine hnear.skip.mono fun _ s' hat => ?_
    have hat : Line ctx.text s' [String.ofList rest] (joined [String.ofList rest]) := hat
    rw [joined_ofList] at hat
    exact hat.facing

/-- A sign is asked for behind the trivia at the cursor. -/
theorem Before.atToken (h : Before ctx.text s rest) (hfresh : Fresh rest) (sign : String) :
    (Parser.atToken sign).Reads ctx s fun found s' =>
      found = sign.toList.isPrefixOf rest ∧ Facing ctx.text s' rest :=
  (h.skip hfresh).bind fun _ _ hface =>
    .value (startsWith_looks sign) ⟨matchesAt_of_drop hface.rest sign, hface⟩

/-- The sign stands at the cursor and is read. -/
theorem Before.accept? (sign : String) (h : Before ctx.text s (sign.toList ++ more))
    (hfresh : Fresh (sign.toList ++ more)) :
    (Parser.accept? sign).Reads ctx s fun span? s' =>
      span?.isSome = true ∧ Facing ctx.text s' more := by
  refine (h.atToken hfresh sign).bind fun found s₁ ⟨hfound, hface⟩ => .ite_true ?_ ?_
  · rw [hfound, List.isPrefixOf_iff_prefix]
    exact List.prefix_append _ _
  · refine Reads.bind (P := fun _ s' => Facing ctx.text s' more) ?_ fun span s' hface =>
      .pure ⟨rfl, hface⟩
    refine .look position_looks ((Line.advance_reads _ hface ?_).bind fun _ s₂ hface =>
      .value (spanFrom_looks _) hface)
    rw [String.length_toList]

theorem Before.accept (sign : String) (h : Before ctx.text s (sign.toList ++ more))
    (hfresh : Fresh (sign.toList ++ more)) :
    (Parser.accept sign).Reads ctx s fun found s' => found = true ∧ Facing ctx.text s' more :=
  (h.accept? sign hfresh).bind fun _ _ ⟨hsome, hface⟩ => .pure ⟨hsome, hface⟩

/-- Another sign stands at the cursor. -/
theorem Before.not_accept {sign : String} (h : Before ctx.text s rest) (hfresh : Fresh rest)
    (hno : sign.toList.isPrefixOf rest = false) :
    (Parser.accept sign).Reads ctx s fun found s' => found = false ∧ Facing ctx.text s' rest := by
  refine Reads.bind (P := fun span? s' => span? = none ∧ Facing ctx.text s' rest) ?_
    fun _ _ ⟨hnone, hface⟩ => .pure ⟨by rw [hnone]; rfl, hface⟩
  exact (h.atToken hfresh sign).bind fun _ _ ⟨hfound, hface⟩ =>
    .ite_false (by rw [hfound, hno]) (.pure ⟨rfl, hface⟩)

theorem Before.expect (sign : String) (h : Before ctx.text s (sign.toList ++ more))
    (hfresh : Fresh (sign.toList ++ more)) :
    (Parser.expect sign).Reads ctx s fun _ s' => Facing ctx.text s' more := by
  refine (h.accept? sign hfresh).bind fun span? s' ⟨hsome, hface⟩ => ?_
  obtain ⟨span, rfl⟩ := Option.isSome_iff_exists.1 hsome
  exact .pure hface

end Signs

/-! ### Identifiers -/

/-- The identifier is one that can be written: any text within a line between backticks, or a name
whose form is told by its characters. -/
def Identifier.IsWritten (i : Identifier) : Prop :=
  match i.kind with
  | .backtick => backtick ∉ i.name.toList ∧ '\n' ∉ i.name.toList
  | kind => ∃ first rest, i.name.toList = first :: rest ∧ startsName first = true ∧
      (∀ c ∈ rest, continuesName c = true) ∧ kind = .ofName first i.name

/-- An identifier as it is written. -/
def Identifier.print (i : Identifier) : String :=
  match i.kind with
  | .backtick => String.singleton backtick ++ i.name ++ String.singleton backtick
  | _ => i.name

section Identifiers

variable {ctx : Context} {s : State} {rest : List Char}

/-- Text between backticks is read as an identifier. -/
theorem Facing.quotedIdentifier {word : String} (hword : backtick ∉ word.toList ∧ '\n' ∉ word.toList)
    (h : Facing ctx.text s (backtick :: (word.toList ++ backtick :: rest))) :
    quotedIdentifier.Reads ctx s fun name s' =>
      (∃ span, name = ⟨word, .backtick, span⟩) ∧ Facing ctx.text s' rest := by
  have hopen : Line ctx.text { s with pos := s.pos + 1 } [] (word.toList ++ backtick :: rest) :=
    Line.advance (show Line _ _ _ ([backtick] ++ _) from h)
  have hdrop : ctx.text.toList.drop (s.pos + 1) = word.toList ++ backtick :: rest := hopen.rest
  have htake : (word.toList ++ backtick :: rest).takeWhile (fun c => c != backtick && c != '\n') =
      word.toList := by
    rw [List.takeWhile_append_of_pos]
    · simp
    · intro c hc
      simp only [Bool.and_eq_true, bne_iff_ne]
      exact ⟨fun heq => hword.1 (heq ▸ hc), fun heq => hword.2 (heq ▸ hc)⟩
  have hstop : skipWhile ctx.text (fun c => c != backtick && c != '\n') (s.pos + 1) =
      s.pos + 1 + word.toList.length := by
    rw [skipWhile_of_drop hdrop, htake]
  have hclose : charAt ctx.text (s.pos + 1 + word.toList.length) = backtick := by
    rw [charAt_of_drop hdrop]
    simp
  have hslice : sliceOf ctx.text (s.pos + 1) (s.pos + 1 + word.toList.length) = word := by
    rw [sliceOf_of_drop hdrop, String.ofList_toList]
  have hrest : Facing ctx.text { s with pos := s.pos + 1 + word.toList.length + 1 } rest :=
    Line.advance (show Line _ _ _ ([backtick] ++ _) from Line.advance hopen)
  refine .look theText_looks (.look position_looks ?_)
  dsimp only
  rw [hstop]
  refine .ite_true (by rw [hclose]; rfl) (.of_run rfl (.look (slice_looks _ _)
    (.look (spanFrom_looks _)
      (.pure ⟨⟨.ofNat s.pos (s.pos + 1 + word.toList.length + 1), ?_⟩, hrest⟩))))
  dsimp only
  rw [hslice]

/-- An identifier is read up to its end. -/
theorem Facing.identifier? {i : Identifier} (hi : i.IsWritten)
    (h : Facing ctx.text s (i.print.toList ++ rest))
    (hrest : continuesName (rest[0]?.getD '\x00') = false) :
    (identifier?).Reads ctx s fun name? s' => ∃ name, name? = some name ∧ name.Alike i ∧
      Facing ctx.text s' rest := by
  by_cases hkind : i.kind = .backtick
  · rw [Identifier.IsWritten, hkind] at hi
    have hprint : i.print.toList ++ rest = backtick :: (i.name.toList ++ backtick :: rest) := by
      rw [Identifier.print, hkind]
      simp
    rw [hprint] at h
    have hchar : charAt ctx.text s.pos = backtick := h.charAt_eq 0
    refine .look peek_looks (.ite_true (by rw [hchar]; rfl) ?_)
    refine (h.quotedIdentifier hi).bind ?_
    rintro _ s₁ ⟨⟨span, rfl⟩, hface⟩
    exact .pure ⟨_, rfl, ⟨rfl, hkind.symm⟩, hface⟩
  · have hprint : i.print = i.name := by
      rw [Identifier.print]
      split
      · exact absurd ‹_› hkind
      · rfl
    have hwritten : ∃ first rest, i.name.toList = first :: rest ∧ startsName first = true ∧
        (∀ c ∈ rest, continuesName c = true) ∧ i.kind = .ofName first i.name := by
      rw [Identifier.IsWritten] at hi
      split at hi
      · exact absurd ‹_› hkind
      · exact hi
    obtain ⟨first, others, hchars, hfirst, hothers, hform⟩ := hwritten
    rw [hprint] at h
    refine (Line.nameOfForm? h hchars hfirst hothers hrest).mono ?_
    rintro _ s' ⟨⟨span, rfl⟩, hface⟩
    exact ⟨_, rfl, ⟨rfl, hform.symm⟩, hface⟩

theorem Facing.identifier {i : Identifier} (hi : i.IsWritten)
    (h : Facing ctx.text s (i.print.toList ++ rest))
    (hrest : continuesName (rest[0]?.getD '\x00') = false) (what : String) :
    (Parser.identifier what).Reads ctx s fun name s' =>
      name.Alike i ∧ Facing ctx.text s' rest := by
  refine (h.identifier? hi hrest).bind ?_
  rintro _ s₁ ⟨name, rfl, halike, hface⟩
  exact .pure ⟨halike, hface⟩

/-- The character with which an identifier is written first. -/
theorem Identifier.IsWritten.first {i : Identifier} (hi : i.IsWritten) :
    ∃ first others, i.print.toList = first :: others ∧
      (first = backtick ∨ startsName first = true) := by
  rw [Identifier.IsWritten] at hi
  rw [Identifier.print]
  split at hi
  · exact ⟨backtick, i.name.toList ++ [backtick], by simp, .inl rfl⟩
  · obtain ⟨first, others, hchars, hfirst, -⟩ := hi
    exact ⟨first, others, hchars, .inr hfirst⟩

end Identifiers

/-! ### Names with points between them -/

/-- A name as it is written. -/
def NamedType.print (type : NamedType) : String :=
  ".".intercalate (type.path.map Identifier.print)

section Names

variable {ctx : Context} {s : State} {rest : List Char}

/-- No name with points goes on with the characters. -/
def EndsName (rest : List Char) : Prop :=
  continuesName (rest[0]?.getD '\x00') = false ∧ rest[0]?.getD '\x00' ≠ '.'

/-- The identifiers behind the first one of a name, as they are written. -/
def pathTail (path : List Identifier) : List Char :=
  path.flatMap fun i => '.' :: i.print.toList

theorem print_toList_cons (i : Identifier) (path : List Identifier) (span : Span) :
    (NamedType.print ⟨i :: path, span⟩).toList = i.print.toList ++ pathTail path := by
  have hpoint : ".".toList = ['.'] := by decide
  have htail : ∀ (i : Identifier) (path : List Identifier),
      (".".intercalate (List.map Identifier.print (i :: path))).toList =
        i.print.toList ++ pathTail path := by
    intro i path
    induction path generalizing i with
    | nil => simp [pathTail]
    | cons j path ih =>
      rw [List.map_cons, List.map_cons, String.intercalate_cons_cons, String.toList_append,
        String.toList_append, ← List.map_cons, ih j, hpoint]
      simp [pathTail]
  exact htail i path

/-- A name is read with all that follows behind points. -/
theorem Facing.qualifiedName {type : NamedType} (hpath : type.path ≠ [])
    (hwritten : ∀ i ∈ type.path, i.IsWritten)
    (h : Facing ctx.text s (type.print.toList ++ rest)) (hrest : EndsName rest) (what : String) :
    (Parser.qualifiedName what).Reads ctx s fun name s' =>
      List.Forall₂ Identifier.Alike name.path type.path ∧ Facing ctx.text s' rest := by
  obtain ⟨path, span⟩ := type
  obtain ⟨i, path, rfl⟩ := List.exists_cons_of_ne_nil hpath
  obtain ⟨hi, hwritten⟩ := List.forall_mem_cons.1 hwritten
  have hnext (path : List Identifier) :
      continuesName ((pathTail path ++ rest)[0]?.getD '\x00') = false := by
    cases path with
    | nil => exact hrest.1
    | cons i path => exact (by decide : continuesName '.' = false)
  rw [print_toList_cons, List.append_assoc] at h
  refine (h.identifier hi (hnext path) what).bind fun first s₁ ⟨hfirst, hface⟩ => ?_
  -- What is found goes behind what was found before.
  have hloop : ∀ (found : Array Identifier) (path : List Identifier) (s : State),
      (∀ i ∈ path, i.IsWritten) → Facing ctx.text s (pathTail path ++ rest) →
      Loops (fun (path : Array Identifier) => do
        if ← atPathStep then
          advance 1
          return .next (path.push (← Parser.identifier what))
        else return .done path) ctx (fun all s' => ∃ others, all.toList = found.toList ++ others ∧
          List.Forall₂ Identifier.Alike others path ∧ Facing ctx.text s' rest) found s := by
    intro found path
    induction path generalizing found with
    | nil =>
      intro s _ hface
      refine .done (.look atPathStep_looks
        (.ite_false ?_ (.pure ⟨found, rfl, [], by simp, .nil, hface⟩)))
      rw [Bool.and_eq_false_iff, beq_eq_false_iff_ne, show charAt ctx.text s.pos = _ from
        hface.charAt_eq 0]
      exact .inl hrest.2
    | cons j path ih =>
      intro s hwritten hface
      obtain ⟨hj, hwritten⟩ := List.forall_mem_cons.1 hwritten
      obtain ⟨c, others, hprint, hc⟩ := hj.first
      have hface : Facing ctx.text s ('.' :: (j.print.toList ++ (pathTail path ++ rest))) := by
        simpa [pathTail] using hface
      refine .next (.look atPathStep_looks (.ite_true ?_ ?_))
      · rw [show charAt ctx.text s.pos = '.' from hface.charAt_eq 0,
          show charAt ctx.text (s.pos + 1) = c by rw [hface.charAt_eq 1, hprint]; rfl]
        rcases hc with rfl | hc <;> simp [*]
      · refine (Line.advance_reads ['.'] hface rfl).bind fun _ s₂ hface₂ =>
          (Facing.identifier hj hface₂ (hnext path) what).bind fun name s₃ ⟨hname, hface₃⟩ =>
            .pure ⟨_, rfl, Before.pos_lt (.inl hface) hface₃ (by simp only [List.length_cons, List.length_append]; omega), hface₃.pos_le, ?_⟩
        refine (ih (found.push name) s₃ hwritten hface₃).mono ?_
        rintro all s' ⟨others, hall, halike, hface⟩
        exact ⟨name :: others, by rw [hall, Array.toList_push, List.append_assoc]; rfl,
          .cons hname halike, hface⟩
  refine (hloop #[first] path s₁ hwritten hface).reads.bind
    fun all s₂ ⟨others, hall, halike, hface⟩ => .pure ⟨?_, hface⟩
  rw [hall]
  exact .cons hfirst halike

end Names

end PklSyntax
