import PklSyntax.Grammar.Basic
import PklSyntax.Proofs.Layout.Row
import PklSyntax.Proofs.Reading.Steps

/-!
# How tokens and names lie in the text

The productions read tokens straight off the text. Each of the parsers for them either reads a token,
which then ends at the cursor, or it has skipped trivia and read nothing; when a token that has to
stand somewhere is not there, an error is left on record.

Constructs nest through a `Grammar`. A grammar *places* what it reads when each of its parsers does:
what it gives is a sound tree behind the place where it began, and it ends where the last token
ended. All that is said of productions supposes this of the grammar for what stands inside them.

## Main definitions

* `TokenRead`, `NameRead.placed`: a token and a name that have been read.
* `Grammar.Places`: a grammar that places what it reads.

## Main statements

* `Parser.accept?_yields`, `Parser.expect_yields`, `Parser.acceptKeyword_yields`: tokens.
* `Parser.commaList_yields`: lists.
* `Parser.expectName_yields`, `Parser.qualifiedName_yields`: names.
-/

namespace PklSyntax

variable {text : Array Char} {s s' : State} {c c' : Nat}

/-- The token was read behind `lo`. -/
structure TokenRead (text : Array Char) (token : String) (lo : Nat) (span : Span) (s' : State)
    (c' : Nat) : Prop where
  exists_start : ∃ start : Nat, lo ≤ start ∧ span = .ofNat start c' ∧
    matchesAt text token start = true ∧ c' = start + token.length
  pos_eq : s'.pos = c'

theorem TokenRead.tokenEnd {token : String} {lo : Nat} {span : Span}
    (h : TokenRead text token lo span s' c') (last : Char)
    (hlast : token.toList[token.length - 1]? = some last)
    (hends : endsToken last = true) (hname : continuesName last = false) : TokenEnd text c' := by
  obtain ⟨start, -, -, hmatch, rfl⟩ := h.exists_start
  exact tokenEnd_of_matchesAt hmatch hlast hends hname

theorem TokenRead.lt {token : String} {lo : Nat} {span : Span}
    (h : TokenRead text token lo span s' c') (hne : 0 < token.length) : lo < c' := by
  obtain ⟨start, hle, -, -, rfl⟩ := h.exists_start
  omega

theorem TokenRead.stop_eq {token : String} {lo : Nat} {span : Span}
    (h : TokenRead text token lo span s' c') : span.stop = c' := by
  obtain ⟨start, -, rfl, -⟩ := h.exists_start
  rfl

/-- A name is sound. -/
theorem Parser.NameRead.placed {name : Identifier} (h : NameRead text s name s' c') :
    Placed text s.pos (.identifier name) c' := by
  have hlt := h.lt
  exact .of_row s.pos s.pos s.pos h.span (.nil (Int.le_refl _)) (Int.le_refl _) (by omega)
    (by omega) h.tokenEnd

theorem Parser.NameRead.pos_eq {name : Identifier} (h : NameRead text s name s' c') :
    s'.pos = c' := by
  rw [h.state]

namespace Parser

variable {α : Type} {ctx : Context}

/-! ### Errors at the cursor -/

theorem here_looks :
    Looks here fun ctx s =>
      .ofNat s.pos (if decide (ctx.text.size ≤ s.pos) = true then s.pos else s.pos + 1) :=
  fun _ _ => rfl

theorem here_idle : Idle here := here_looks.idle

theorem describeCurrent_idle : Idle describeCurrent := by
  refine peek_looks.idle.bind fun c => peekWord_looks.idle.bind fun word =>
    atEnd_looks.idle.bind fun stop => ?_
  split
  · exact .pure _
  · split
    · exact .pure _
    · split <;> exact .pure _

theorem failExpected_yields {what : String} {Q : α → State → Nat → Prop} :
    (failExpected what : Parser α).Yields ctx s c Q := by
  refine .look peek_looks (.look atEnd_looks ?_)
  split
  · exact .idle here_idle fun _ => failWith_yields rfl
  · exact .idle describeCurrent_idle fun _ => .idle here_idle fun _ => failWith_yields rfl

/-! ### Tokens -/

theorem atToken_yields (token : String) :
    (atToken token).Yields ctx s c fun found s' c' =>
      Skipped ctx.text c s' c' ∧ found = matchesAt ctx.text token s'.pos :=
  skip_yields.bind fun _ _ _ _ h => .value (startsWith_looks token) ⟨h, rfl⟩

theorem atKeyword_yields (word : String) :
    (atKeyword word).Yields ctx s c fun found s' c' =>
      Skipped ctx.text c s' c' ∧ found = wordAt ctx.text word s'.pos := by
  refine skip_yields.bind fun _ s' c' _ h hs => ?_
  rw [EndsFrom, atWord_looks word ctx s']
  exact ⟨c', .refl hs, h, rfl⟩

theorem atAssign_yields :
    atAssign.Yields ctx s c fun found s' c' =>
      Skipped ctx.text c s' c' ∧
        found = (matchesAt ctx.text "=" s'.pos && !matchesAt ctx.text "==" s'.pos) := by
  refine (atToken_yields "=").bind fun found s' c' _ h => ?_
  obtain ⟨hskip, hfound⟩ := h
  cases found with
  | true => exact .look (startsWith_looks "==") (.pure ⟨hskip, by rw [← hfound]; rfl⟩)
  | false => exact .pure ⟨hskip, by rw [← hfound]; rfl⟩

/-- Moving over a token that stands where a token can begin. -/
theorem advance_matched {token : String} (hp : Poised ctx.text s c)
    (hmatch : matchesAt ctx.text token s.pos = true) (hne : token ≠ "") :
    (advance token.length).Yields ctx s c fun _ s' c' =>
      s' = { s with pos := s.pos + token.length } ∧ c' = s.pos + token.length := by
  have hlen : 0 < token.length := Nat.pos_of_ne_zero fun h => hne (String.length_eq_zero_iff.1 h)
  exact advance_yields hp hlen (add_length_le_of_matchesAt hmatch hne)

theorem takeToken_yields (token : String) (hp : Poised ctx.text s c)
    (hmatch : matchesAt ctx.text token s.pos = true) (hne : token ≠ "") :
    (takeToken token.length).Yields ctx s c fun span s' c' =>
      span = .ofNat s.pos c' ∧ c' = s.pos + token.length ∧ s'.pos = c' := by
  refine .look position_looks ((advance_matched hp hmatch hne).bind
    fun _ s' c' _ h => .value (spanFrom_looks _) ?_)
  obtain ⟨rfl, rfl⟩ := h
  exact ⟨rfl, rfl, rfl⟩

theorem accept?_yields {token : String} (hne : token ≠ "") :
    (accept? token).Yields ctx s c fun span? s' c' =>
      match span? with
      | some span => TokenRead ctx.text token s.pos span s' c'
      | none => Skipped ctx.text c s' c' ∧ matchesAt ctx.text token s'.pos = false := by
  refine (atToken_yields token).bind fun found s₁ c₁ h₁ hfound => ?_
  obtain ⟨hskip, rfl⟩ := hfound
  split
  · rename_i hmatch
    refine (takeToken_yields token (hskip.eq ▸ hskip.poised) hmatch hne).bind
      fun span s' c' _ h => .pure ?_
    exact ⟨⟨s₁.pos, h₁.pos_le, h.1, hmatch, h.2.1⟩, h.2.2⟩
  · rename_i hmatch
    exact .pure ⟨hskip, by simpa using hmatch⟩

theorem accept_yields {token : String} (hne : token ≠ "") :
    (accept token).Yields ctx s c fun found s' c' =>
      if found = true then ∃ span, TokenRead ctx.text token s.pos span s' c'
      else Skipped ctx.text c s' c' ∧ matchesAt ctx.text token s'.pos = false := by
  refine (accept?_yields hne).bind fun span? s' c' _ h => .pure ?_
  cases span? with
  | some span => exact ⟨span, h⟩
  | none => exact h

theorem expect_yields {token : String} (hne : token ≠ "") :
    (expect token).Yields ctx s c fun span s' c' => TokenRead ctx.text token s.pos span s' c' := by
  refine (accept?_yields hne).bind fun span? s' c' _ h => ?_
  cases span? with
  | some span => exact .pure h
  | none => exact failExpected_yields

/-- The keyword was read behind `lo`. -/
structure KeywordRead (text : Array Char) (word : String) (lo : Nat) (s' : State) (c' : Nat) :
    Prop where
  exists_start : ∃ start : Nat, lo ≤ start ∧ wordAt text word start = true ∧
    c' = start + word.length
  pos_eq : s'.pos = c'

theorem matchesAt_of_wordAt {word : String} {i : Nat} (h : wordAt text word i = true) :
    matchesAt text word i = true := by
  rw [wordAt, Bool.and_eq_true] at h
  exact h.1

theorem acceptKeyword_yields {word : String} (hne : word ≠ "") :
    (acceptKeyword word).Yields ctx s c fun found s' c' =>
      if found = true then KeywordRead ctx.text word s.pos s' c'
      else Skipped ctx.text c s' c' ∧ wordAt ctx.text word s'.pos = false := by
  refine (atKeyword_yields word).bind fun found s₁ c₁ h₁ hfound => ?_
  obtain ⟨hskip, rfl⟩ := hfound
  split
  · rename_i hword
    refine (advance_matched (hskip.eq ▸ hskip.poised) (matchesAt_of_wordAt hword) hne).bind
      fun _ s' c' _ h => .pure ?_
    obtain ⟨rfl, rfl⟩ := h
    exact ⟨⟨s₁.pos, h₁.pos_le, hword, rfl⟩, rfl⟩
  · rename_i hword
    exact .pure ⟨hskip, by simpa using hword⟩

theorem expectKeyword_yields {word : String} (hne : word ≠ "") :
    (expectKeyword word).Yields ctx s c fun _ s' c' => KeywordRead ctx.text word s.pos s' c' := by
  refine (acceptKeyword_yields hne).bind fun found s' c' _ h => ?_
  cases found with
  | true => exact .pure h
  | false => exact failExpected_yields

/-- The items of a list make up a row, and behind them trivia have been skipped. -/
theorem commaList_yields {close : String} {item : Parser α} {node : α → Node}
    (hitem : ∀ s c, item.Yields ctx s c fun a _ c' => Placed ctx.text s.pos (node a) c') :
    (commaList close item).Yields ctx s c fun items s' c' =>
      Row s.pos (items.map node) s'.pos ∧ Poised ctx.text s' c' := by
  refine .bind (P := fun items s' c' => Row s.pos (items.toList.map node) s'.pos ∧
    Poised ctx.text s' c') ?_ fun items s' c' _ h => .pure h
  refine .repeating (fun items s' _ => Row s.pos (items.toList.map node) s'.pos)
    (.nil (Int.le_refl _)) fun items s₁ c₁ h₁ hrow => ?_
  refine (atToken_yields close).bind fun found s₂ c₂ h₂ hfound => ?_
  have hle₂ := h₂.pos_le
  split
  · exact .pure ⟨hrow.mono (Int.le_refl _) (by omega), hfound.1.eq ▸ hfound.1.poised⟩
  · refine (hitem s₂ c₂).bind fun a s₃ c₃ h₃ ha => ?_
    have hrow₃ := hrow.push ha (by omega)
    have hle₃ := h₃.stands.le_pos
    refine (accept_yields (by decide)).bind fun comma s₄ c₄ h₄ hcomma => ?_
    have hle₄ := h₄.pos_le
    cases comma with
    | true =>
      obtain ⟨span, htoken⟩ := hcomma
      have := htoken.lt (by decide)
      have := htoken.pos_eq
      have := h₃.pos_le
      exact .pure ⟨by omega, hrow₃.mono (Int.le_refl _) (by omega)⟩
    | false =>
      exact .pure ⟨hrow₃.mono (Int.le_refl _) (by omega), hcomma.1.eq ▸ hcomma.1.poised⟩

/-! ### Names -/

theorem identifier_yields {what : String} :
    (identifier what).Yields ctx s c fun name s' c' => NameRead ctx.text s name s' c' := by
  refine identifier?_yields.bind fun name? s' c' _ h => ?_
  cases name? with
  | some name => exact .pure h
  | none => exact failExpected_yields

theorem expectName_yields {what : String} :
    (expectName what).Yields ctx s c fun name s' c' =>
      Placed ctx.text s.pos (.identifier name) c' ∧ s'.pos = c' := by
  refine skip_yields.bind fun _ s₁ c₁ h₁ _ => identifier_yields.bind fun name s' c' _ h => ?_
  have hle := h₁.pos_le
  exact .guard (fun _ => failWith_yields rfl) fun _ =>
    .pure ⟨h.placed.mono (by omega), h.pos_eq⟩

theorem atPathStep_looks :
    Looks atPathStep fun ctx s =>
      charAt ctx.text s.pos == '.' &&
        (charAt ctx.text (s.pos + 1) == backtick || startsName (charAt ctx.text (s.pos + 1))) :=
  fun _ _ => rfl

theorem qualifiedName_yields {what : String} :
    (qualifiedName what).Yields ctx s c fun name s' c' =>
      Placed ctx.text s.pos (.namedType name) c' ∧ s'.pos = c' := by
  refine identifier_yields.bind fun first s₁ c₁ h₁ hfirst => ?_
  refine .bind (P := fun (path : Array Identifier) s' c' =>
    Series ctx.text s.pos Node.identifier first path c' ∧ s'.pos = c') ?_
    fun path s' c' h hpath => .pure ?_
  · refine .repeating (fun (path : Array Identifier) s' c' =>
      Series ctx.text s.pos Node.identifier first path c' ∧ s'.pos = c')
      ⟨.singleton hfirst.placed, hfirst.pos_eq⟩ fun path s₂ c₂ h₂ hpath => ?_
    obtain ⟨hseries, hpos⟩ := hpath
    refine .look atPathStep_looks ?_
    split
    · rename_i hstep
      simp only [Bool.and_eq_true, beq_iff_eq] at hstep
      refine (advance_sign (by rw [hstep.1]; decide)).bind fun _ s₃ c₃ _ hadv =>
        identifier_yields.bind fun name s₄ c₄ h₄ hname => .pure ?_
      obtain ⟨rfl, rfl⟩ := hadv
      have hlt := hname.lt
      have hpos' := hname.pos_eq
      simp only at hlt
      exact ⟨by omega, hseries.push hname.placed (by simp only; omega), hpos'⟩
    · exact .pure ⟨hseries, hpos⟩
  · obtain ⟨hseries, hpos⟩ := hpath
    have hstart : first.span.start = s.pos := by rw [hfirst.span]; rfl
    have hlt := hseries.lt
    rw [show (Node.identifier first).span = first.span from rfl, hstart] at hlt
    refine ⟨.of_row s.pos s.pos c' ?_ ?_ (Int.le_refl _) (Int.le_refl _) hlt hseries.tokenEnd,
      hpos⟩
    · show Span.mk _ _ = _
      rw [hstart, show (path.back?.getD first).span.stop = c' from hseries.stop_eq]
    · simpa [Node.children, Node.fields, NamedType.fields] using hseries.row

end Parser

/-- The grammar gives sound trees, each of which ends where the last token ended that it read. -/
structure Grammar.Places (g : Grammar) (ctx : Context) : Prop where
  expr : ∀ s c, g.expr.Yields ctx s c fun e _ c' => Placed ctx.text s.pos (.expr e) c'
  type : ∀ s c, g.type.Yields ctx s c fun t _ c' => Placed ctx.text s.pos (.type t) c'
  body : ∀ s c, g.body.Yields ctx s c fun b _ c' => Placed ctx.text s.pos (.objectBody b) c'

end PklSyntax
