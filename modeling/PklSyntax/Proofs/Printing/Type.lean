import PklSyntax.Proofs.Printing.Module
import PklSyntax.Proofs.Printing.TypeText

/-!
# Printed types

A parenthesis opens a type or the parameters of a function type, and which of the two is seen only
behind the closing one: an arrow follows, or what ends the type. Parentheses leave nothing behind in
the tree, and a type that was written with them around its parts is read as it was.

## Main definitions

* `Grammar.ReadsTypes`: a grammar reads types up to a depth.

## Main statements

* `Grammar.ReadsTypes.typeRule`: types are read, when those inside them are.
* `parse_print_type`: printed types are read as what was printed.
-/

namespace PklSyntax

open PklSyntax.Parser

/-! ### What follows a type -/

/-- What follows a type among other tokens: the end, or a sign that closes or separates. -/
def EndsParts (rest : List Char) : Prop :=
  rest = [] ∨ ∃ c more, rest = c :: more ∧ (c = ')' ∨ c = ',' ∨ c = '>')

/-- What follows a member of a union: what follows the union, or a bar. -/
def EndsMember (rest : List Char) : Prop :=
  EndsParts rest ∨ ∃ more, rest = ' ' :: '|' :: ' ' :: more

/-- What follows a type without its suffixes. -/
def EndsAtom (rest : List Char) : Prop :=
  EndsMember rest ∨ ∃ more, rest = '?' :: more

section Ends

variable {ctx : Context} {s : State} {rest : List Char}

theorem EndsParts.fresh (h : EndsParts rest) : Fresh rest := by
  rcases h with rfl | ⟨c, more, rfl, rfl | rfl | rfl⟩
  · exact .inl rfl
  all_goals exact fresh_cons (by decide) (by decide)

/-- The character behind a member of a union. -/
theorem EndsMember.head (h : EndsMember rest) {p : Char → Bool}
    (hp : ['\x00', ')', ',', '>', ' '].all p = true) : p (rest[0]?.getD '\x00') = true := by
  refine List.all_eq_true.1 hp _ ?_
  rcases h with (rfl | ⟨c, more, rfl, hc⟩) | ⟨more, rfl⟩
  · simp
  · rcases hc with rfl | rfl | rfl <;> simp
  · simp

theorem EndsAtom.head (h : EndsAtom rest) {p : Char → Bool}
    (hp : ['?', '\x00', ')', ',', '>', ' '].all p = true) : p (rest[0]?.getD '\x00') = true := by
  rw [List.all_cons, Bool.and_eq_true] at hp
  rcases h with h | ⟨more, rfl⟩
  · exact h.head hp.2
  · exact hp.1

theorem EndsAtom.endsName (h : EndsAtom rest) : EndsName rest := by
  have hname := h.head (p := fun c => !continuesName c) (by decide)
  have hpoint := h.head (p := fun c => c != '.') (by decide)
  exact ⟨by simpa using hname, by simpa using hpoint⟩

/-- Behind a type in parentheses no arrow stands, and the parser goes back. -/
theorem EndsAtom.arrowResult? {g : Grammar} (h : EndsAtom rest) (hface : Facing ctx.text s rest) :
    g.arrowResult?.Reads ctx s fun result? s' => result? = none ∧ Facing ctx.text s' rest := by
  have hnone {more : List Char} (hbefore : Before ctx.text s more) (hfresh : Fresh more)
      (hno : "->".toList.isPrefixOf more = false) :
      g.arrowResult?.Reads ctx s fun result? s' => result? = none ∧ Facing ctx.text s' rest := by
    refine .look mark_looks ((hbefore.skip hfresh).bind fun _ s₁ hface₁ =>
      .look (startsWith_looks "->") (.ite_false ?_ (.of_run rfl (.pure ⟨rfl, ?_⟩))))
    · rw [matchesAt_of_drop hface₁.rest, hno]
    · exact Line.rewind hface hface₁.quiet.mode
  rcases h with (h | ⟨more, rfl⟩) | ⟨more, rfl⟩
  · refine hnone (.inl hface) h.fresh ?_
    rcases h with rfl | ⟨c, more, rfl, rfl | rfl | rfl⟩ <;> rfl
  · exact hnone (.inr ⟨hface, nofun⟩) (fresh_cons (by decide) (by decide)) rfl
  · exact hnone (.inl hface) (fresh_cons (by decide) (by decide)) rfl

end Ends

/-! ### Reading types -/

/-- The grammar reads simple types, however they are written, in which types lie in one another less
deep than the number says. -/
structure Grammar.ReadsTypes (g : Grammar) (ctx : Context) (depth : Nat) : Prop where
  type : ∀ {t : TypeExpr} {text : String} {nesting : Nat} {rest : List Char} {s : State}, t.Simple →
    t.WrittenAs text nesting → nesting < depth → Before ctx.text s (text.toList ++ rest) →
      EndsParts rest → g.type.Reads ctx s fun v s' => v.Alike t ∧ Facing ctx.text s' rest

/-- An atom that begins with a name is what comes of what follows the name. -/
theorem atomName {g : Grammar} {ctx : Context} {s : State} {rest : List Char} {type : NamedType}
    {Q : TypeExpr → State → Prop} (hpath : type.path ≠ []) (hwritten : ∀ i ∈ type.path, i.IsWritten)
    (hrest : EndsName rest) (h : Facing ctx.text s (type.print.toList ++ rest))
    (hnext : ∀ (name : NamedType) (s' : State), List.Forall₂ Identifier.Alike name.path type.path →
      Facing ctx.text s' rest → (do
        if (← peek) == '<' then g.typeArguments name else return .named name : Parser TypeExpr).Reads
          ctx s' Q) :
    g.typeAtom.Reads ctx s Q := by
  obtain ⟨c, more, hprint, hopens⟩ := type.print_first hpath hwritten
  have hchar : charAt ctx.text s.pos = c := by
    rw [show charAt ctx.text s.pos = _ from h.charAt_eq 0, hprint]
    rfl
  refine .look peek_looks (.ite_false ?_ (.look atString_looks (.ite_false ?_
    (.look atIdentifier_looks (.ite_true ?_ ((Facing.qualifiedName hpath hwritten h hrest _).bind
      fun name s₁ ⟨hname, hface⟩ => hnext name s₁ hname hface))))))
  · rw [hchar, beq_eq_false_iff_ne]
    rintro rfl
    exact absurd hopens (by decide)
  · exact not_stringAt opensName (by rwa [hchar]) (by decide) (by decide)
  · rwa [hchar]

namespace Grammar.ReadsTypes

variable {g : Grammar} {ctx : Context} {depth : Nat} {s : State} {rest : List Char}

/-- Types with commas between them are read up to the closing sign. -/
theorem parts (hg : g.ReadsTypes ctx depth) {items : List (TypeExpr × String)} (close : String)
    (c : Char)
    (hitems : ∀ item ∈ items, item.1.Simple ∧ ∃ nesting < depth, item.1.WrittenAs item.2 nesting)
    (hclose : close.toList = [c]) (hc : c = ')' ∨ c = '>')
    (h : Facing ctx.text s ((", ".intercalate (items.map Prod.snd)).toList ++ c :: rest)) :
    (commaList close g.type).Reads ctx s fun found s' =>
      List.Forall₂ TypeExpr.Alike found (items.map Prod.fst) ∧ Facing ctx.text s' (c :: rest) := by
  have hfresh : Fresh (c :: rest) := by
    rcases hc with rfl | rfl <;> exact fresh_cons (by decide) (by decide)
  have hends : EndsParts (c :: rest) := .inr ⟨c, rest, rfl, by rcases hc with rfl | rfl <;> simp⟩
  -- What is found goes behind what was found before.
  refine Reads.bind (P := fun found s' => ∃ others, found.toList = #[].toList ++ others ∧
      List.Forall₂ TypeExpr.Alike others (items.map Prod.fst) ∧ Facing ctx.text s' (c :: rest))
    (Loops.reads ?_) fun found s' ⟨others, hothers, halike, hface⟩ =>
      .pure ⟨by rw [hothers]; exact halike, hface⟩
  have hbefore : Before ctx.text s ((", ".intercalate (items.map Prod.snd)).toList ++ c :: rest) :=
    .inl h
  clear h
  generalize (#[] : Array TypeExpr) = found
  induction items generalizing s found with
  | nil =>
    refine .done ((hbefore.atToken hfresh close).bind fun closed s₁ ⟨hclosed, hface⟩ =>
      .ite_true ?_ (.pure ⟨found, rfl, [], by simp, .nil, hface⟩))
    rw [hclosed, hclose]
    simp
  | cons item items ih =>
    obtain ⟨⟨hsimple, nesting, hdepth, htext⟩, hitems⟩ := List.forall_mem_cons.1 hitems
    obtain ⟨first, more, hfirst, hopens⟩ := htext.first hsimple
    have hnot : close.toList.isPrefixOf (first :: more) = false := by
      rw [hclose, List.isPrefixOf, Bool.and_eq_false_iff, beq_eq_false_iff_ne]
      refine .inl ?_
      rintro rfl
      rcases hc with rfl | rfl <;> exact absurd hopens (by decide)
    have hread {rest : List Char} (hbefore : Before ctx.text s (item.2.toList ++ rest)) :
        (Parser.atToken close).Reads ctx s fun closed s' =>
          closed = false ∧ Facing ctx.text s' (item.2.toList ++ rest) := by
      rw [hfirst] at hbefore ⊢
      refine (hbefore.atToken (opensType_fresh hopens) close).mono fun closed _ ⟨hclosed, hface⟩ =>
        ⟨?_, hface⟩
      rw [hclosed, List.cons_append, ← hnot, hclose]
      rfl
    cases items with
    | nil =>
      have htext' : (", ".intercalate ([item].map Prod.snd)).toList ++ c :: rest =
          item.2.toList ++ c :: rest := by simp
      rw [htext'] at hbefore
      refine .done ((hread hbefore).bind fun closed s₁ ⟨hclosed, hface⟩ => .ite_false hclosed
        ((hg.type hsimple htext hdepth (.inl hface) hends).bind fun v s₂ ⟨hv, hface⟩ => ?_))
      have hcomma : ",".toList.isPrefixOf (c :: rest) = false := by
        rcases hc with rfl | rfl <;> rfl
      exact (Before.not_accept (.inl hface) hfresh hcomma).bind fun more s₃ ⟨hmore, hface⟩ =>
        .ite_false hmore (.pure ⟨_, rfl, [v], Array.toList_push, .cons hv .nil, hface⟩)
    | cons item' items =>
      have hcomma : ", ".toList = [',', ' '] := by decide
      have htext' : (", ".intercalate ((item :: item' :: items).map Prod.snd)).toList ++ c :: rest =
          item.2.toList ++ ',' :: ' ' ::
            ((", ".intercalate ((item' :: items).map Prod.snd)).toList ++ c :: rest) := by
        rw [List.map_cons, List.map_cons, String.intercalate_cons_cons, String.toList_append,
          String.toList_append, hcomma]
        simp
      rw [htext'] at hbefore
      refine .next ((hread hbefore).bind fun closed s₁ ⟨hclosed, hface₁⟩ => .ite_false hclosed
        ((hg.type hsimple htext hdepth (.inl hface₁) (.inr ⟨_, _, rfl, .inr (.inl rfl)⟩)).bind
          fun v s₂ ⟨hv, hface₂⟩ => ?_))
      refine (Before.accept "," (.inl hface₂) (fresh_cons (by decide) (by decide))).bind
        fun more s₃ ⟨hmore, hface₃⟩ => .ite_true hmore (.pure ⟨_, rfl, ?_, hface₃.pos_le, ?_⟩)
      · exact hbefore.pos_lt hface₃ (by simp; omega)
      · refine (ih hitems (.inr ⟨hface₃, by simp⟩) (found.push v)).mono ?_
        rintro all s' ⟨others, hall, halike, hface⟩
        exact ⟨v :: others, by rw [hall, Array.toList_push, List.append_assoc]; rfl,
          .cons hv halike, hface⟩

/-- A type in parentheses is read as an atom. -/
theorem paren (hg : g.ReadsTypes ctx depth) {t : TypeExpr} (ht : t.Simple)
    (hdepth : t.nesting < depth) (hrest : EndsAtom rest)
    (h : Facing ctx.text s ('(' :: (t.print.toList ++ ')' :: rest))) :
    g.typeAtom.Reads ctx s fun v s' => v.Alike t ∧ Facing ctx.text s' rest := by
  refine .look peek_looks (.ite_true (by rw [show charAt ctx.text s.pos = _ from h.charAt_eq 0]; rfl)
    (.look position_looks ((Line.advance_reads ['('] h rfl).bind
      fun _ s₁ hface₁ => ?_)))
  have hitems : ∀ item ∈ [(t, t.print)],
      item.1.Simple ∧ ∃ nesting < depth, item.1.WrittenAs item.2 nesting :=
    List.forall_mem_singleton.2 ⟨ht, t.nesting, hdepth, .bare⟩
  have hface₁ : Facing ctx.text s₁
      ((", ".intercalate ([(t, t.print)].map Prod.snd)).toList ++ ')' :: rest) := by
    simpa using hface₁
  refine (hg.parts ")" ')' hitems rfl (.inl rfl) hface₁).bind
    fun found s₂ ⟨halike, hface₂⟩ => ?_
  obtain ⟨v, hv, rfl⟩ : ∃ v, v.Alike t ∧ found = [v] := by
    obtain ⟨v, vs, hv, hvs, rfl⟩ := List.forall₂_cons_right_iff.1 halike
    rw [List.map_nil, List.forall₂_nil_right_iff] at hvs
    exact ⟨v, hv, by rw [hvs]⟩
  refine (Before.expect ")" (.inl hface₂) (fresh_cons (by decide) (by decide))).bind
    fun close s₃ hface₃ => (hrest.arrowResult? hface₃).bind ?_
  rintro _ s₄ ⟨rfl, hface₄⟩
  exact .pure ⟨hv.withSpan, hface₄⟩

/-- The parameters of a function type, or the arguments of a generic type. -/
theorem enclosedParts (hg : g.ReadsTypes ctx depth) {parts : List TypeExpr} (close : String)
    (c : Char) (hparts : ∀ t ∈ parts, t.Simple) (hdepth : partsNesting parts < depth)
    (hclose : close.toList = [c]) (hc : c = ')' ∨ c = '>')
    (h : Facing ctx.text s ((", ".intercalate (printParts parts)).toList ++ c :: rest)) :
    (commaList close g.type).Reads ctx s fun found s' =>
      List.Forall₂ TypeExpr.Alike found parts ∧ Facing ctx.text s' (c :: rest) := by
  have hitems : ∀ item ∈ parts.map fun t => (t, t.enclose t.print),
      item.1.Simple ∧ ∃ nesting < depth, item.1.WrittenAs item.2 nesting := by
    rw [List.forall_mem_map]
    exact fun t ht => ⟨hparts t ht, _, (le_partsNesting ht).trans_lt hdepth, t.writtenAs_enclose⟩
  have hread := hg.parts close c (s := s) hitems hclose hc
    (by simpa [printParts_eq, Function.comp_def] using h)
  simpa [Function.comp_def] using hread

/-- A function type is read as an atom. -/
theorem function (hg : g.ReadsTypes ctx depth) {params : List TypeExpr} {result : TypeExpr}
    {span : Span} (hparams : ∀ t ∈ params, t.Simple) (hresult : result.Simple)
    (hdepth : partsNesting params < depth ∧ result.nesting + 1 < depth) (hrest : EndsParts rest)
    (h : Facing ctx.text s ((TypeExpr.function params result span).print.toList ++ rest)) :
    g.typeAtom.Reads ctx s fun v s' =>
      v.Alike (.function params result span) ∧ Facing ctx.text s' rest := by
  have harrow : ") -> (".toList = [')', ' ', '-', '>', ' ', '('] := by decide
  have h : Facing ctx.text s ('(' :: ((", ".intercalate (printParts params)).toList ++
      ')' :: ' ' :: '-' :: '>' :: ' ' :: (("(" ++ result.print ++ ")").toList ++ rest))) := by
    simpa [TypeExpr.print, harrow] using h
  refine .look peek_looks (.ite_true (by rw [show charAt ctx.text s.pos = _ from h.charAt_eq 0]; rfl)
    (.look position_looks ((Line.advance_reads ['('] h rfl).bind
      fun _ s₁ hface₁ => ?_)))
  refine (hg.enclosedParts ")" ')' hparams hdepth.1 rfl (.inl rfl) hface₁).bind ?_
  rintro found s₂ ⟨hfound, hface₂⟩
  refine (Before.expect ")" (.inl hface₂) (fresh_cons (by decide) (by decide))).bind
    fun close s₃ hface₃ => ?_
  refine Reads.bind (P := fun result? s' => ∃ v, result? = some v ∧ v.Alike result ∧
    Facing ctx.text s' rest) ?_ ?_
  · refine .look mark_looks ((Before.skip (.inr ⟨hface₃, by simp⟩)
      (fresh_cons (by decide) (by decide))).bind fun _ s₄ hface₄ =>
        .look (startsWith_looks "->") (.ite_true ?_ ?_))
    · rw [matchesAt_of_drop hface₄.rest]
      rfl
    · exact (Line.advance_reads ['-', '>'] hface₄ rfl).bind fun _ s₅ hface₅ =>
        (hg.type hresult .paren hdepth.2 (.inr ⟨hface₅, by simp⟩) hrest).bind
          fun v s₆ hv => .pure ⟨v, rfl, hv⟩
  · rintro _ s₇ ⟨v, rfl, hv, hface₇⟩
    exact .pure ⟨.function hfound hv, hface₇⟩

/-- A name is read as an atom. -/
theorem named {type : NamedType} (hpath : type.path ≠ [])
    (hwritten : ∀ i ∈ type.path, i.IsWritten) (hrest : EndsAtom rest)
    (h : Facing ctx.text s (type.print.toList ++ rest)) :
    g.typeAtom.Reads ctx s fun v s' => v.Alike (.named type) ∧ Facing ctx.text s' rest := by
  refine atomName hpath hwritten hrest.endsName h fun name s₁ hname hface => ?_
  refine .look peek_looks (.ite_false ?_ (.pure ⟨.named hname, hface⟩))
  have hless := hrest.head (p := fun c => c != '<') (by decide)
  rw [show charAt ctx.text s₁.pos = _ from hface.charAt_eq 0, beq_eq_false_iff_ne]
  exact bne_iff_ne.1 hless

/-- A generic type is read as an atom. -/
theorem generic (hg : g.ReadsTypes ctx depth) {base : NamedType} {args : List TypeExpr}
    {span : Span} (hpath : base.path ≠ []) (hwritten : ∀ i ∈ base.path, i.IsWritten)
    (hargs : args ≠ []) (hparts : ∀ t ∈ args, t.Simple) (hdepth : partsNesting args < depth)
    (h : Facing ctx.text s ((TypeExpr.generic base args span).print.toList ++ rest)) :
    g.typeAtom.Reads ctx s fun v s' =>
      v.Alike (.generic base args span) ∧ Facing ctx.text s' rest := by
  have h : Facing ctx.text s (base.print.toList ++
      '<' :: ((", ".intercalate (printParts args)).toList ++ '>' :: rest)) := by
    simpa [TypeExpr.print] using h
  have hends : EndsName ('<' :: ((", ".intercalate (printParts args)).toList ++ '>' :: rest)) :=
    (by decide : continuesName '<' = false ∧ '<' ≠ '.')
  refine atomName hpath hwritten hends h fun name s₁ hname hface₁ => ?_
  refine .look peek_looks (.ite_true ?_ ?_)
  · rw [show charAt ctx.text s₁.pos = '<' from hface₁.charAt_eq 0]
    rfl
  refine Reads.bind (P := fun _ s' => Facing ctx.text s'
    ((", ".intercalate (printParts args)).toList ++ '>' :: rest))
      (.look position_looks ((Line.advance_reads ['<'] hface₁ rfl).bind
        fun _ s₂ hface₂ => .value (spanFrom_looks _) hface₂)) fun opening s₂ hface₂ => ?_
  refine (hg.enclosedParts ">" '>' hparts hdepth rfl (.inr rfl) hface₂).bind ?_
  rintro found s₃ ⟨hfound, hface₃⟩
  refine (Before.expect ">" (.inl hface₃) (fresh_cons (by decide) (by decide))).bind
    fun close s₄ hface₄ => .ite_false ?_ (.pure ⟨.generic hname hfound, hface₄⟩)
  cases hfound with
  | nil => exact absurd rfl hargs
  | cons => rfl

/-- A part is read as an atom. -/
theorem enclosed (hg : g.ReadsTypes ctx depth) {t : TypeExpr} (ht : t.Simple)
    (hdepth : t.enclosedNesting t.nesting < depth + 1) (hrest : EndsAtom rest)
    (h : Facing ctx.text s ((t.enclose t.print).toList ++ rest)) :
    g.typeAtom.Reads ctx s fun v s' => v.Alike t ∧ Facing ctx.text s' rest := by
  rw [TypeExpr.enclosedNesting] at hdepth
  rw [TypeExpr.enclose] at h
  cases hnamed : t.isNamed with
  | true =>
    cases ht with
    | named hpath hwritten => exact named hpath hwritten hrest h
    | _ => cases hnamed
  | false =>
    rw [hnamed] at h hdepth
    exact hg.paren ht (Nat.lt_of_succ_lt_succ hdepth) hrest (by simpa using h)

/-! ### Segments -/

/-- No suffix stands behind a member of a union. -/
theorem noSuffix {Q : TypeExpr → State → Prop} {v : TypeExpr} (hrest : EndsMember rest)
    (h : Facing ctx.text s rest) (hQ : Q v s) : Loops g.typeSuffix ctx Q v s := by
  have hmark := hrest.head (p := fun c => c != '?') (by decide)
  have hparen := hrest.head (p := fun c => c != '(') (by decide)
  have hchar : charAt ctx.text s.pos = rest[0]?.getD '\x00' := h.charAt_eq 0
  refine .done (.look peek_looks (.look (peekAt_looks 1) (.ite_false ?_ (.ite_false ?_
    (.pure ⟨v, rfl, hQ⟩)))))
  · rw [hchar, beq_false_of_ne (bne_iff_ne.1 hmark), Bool.false_and, Bool.false_and]
  · rw [hchar, beq_false_of_ne (bne_iff_ne.1 hparen), Bool.false_and]

/-- A question mark behind a part. -/
theorem questionMark {Q : TypeExpr → State → Prop} {v : TypeExpr} (hrest : EndsMember rest)
    (h : Facing ctx.text s ('?' :: rest))
    (hQ : ∀ s', Facing ctx.text s' rest → Q (.nullable v ⟨v.span.start, s'.pos⟩) s') :
    Loops g.typeSuffix ctx Q v s := by
  have hmark := hrest.head (p := fun c => c != '?') (by decide)
  have hpoint := hrest.head (p := fun c => c != '.') (by decide)
  refine .next (.look peek_looks (.look (peekAt_looks 1) (.ite_true ?_ ?_)))
  · rw [show charAt ctx.text s.pos = '?' from h.charAt_eq 0,
      show charAt ctx.text (s.pos + 1) = rest[0]?.getD '\x00' from h.charAt_eq 1, hmark,
      hpoint]
    rfl
  · exact (Line.advance_reads ['?'] h rfl).bind fun _ s₁ hface =>
      .look position_looks (.pure ⟨_, rfl, Before.pos_lt (.inl h) hface (Nat.lt_succ_self _),
        hface.pos_le, noSuffix hrest hface (hQ s₁ hface)⟩)

/-- A segment without a `*` in front is an atom with its suffixes. -/
theorem segment {Q : TypeExpr → State → Prop} {chars : List Char}
    (hfirst : ∃ c more, chars = c :: more ∧ opensType c = true ∧ c ≠ '*')
    (h : Before ctx.text s (chars ++ rest))
    (hatom : ∀ s', Facing ctx.text s' (chars ++ rest) →
      g.typeAtom.Reads ctx s' fun v s'' => Loops g.typeSuffix ctx Q v s'') :
    g.typeSegment.Reads ctx s Q := by
  obtain ⟨c, more, rfl, hopens, hstar⟩ := hfirst
  refine (h.skip (opensType_fresh hopens)).bind fun _ s₁ hface => .look position_looks
    (.look peek_looks ?_)
  have hno : (charAt ctx.text s₁.pos == '*') = false := by
    rw [show charAt ctx.text s₁.pos = c from hface.charAt_eq 0, beq_eq_false_iff_ne]
    exact hstar
  rw [hno]
  exact (hatom s₁ hface).bind fun v s₂ hsuffixes => hsuffixes.reads.bind
    fun v' s₃ hQ => .pure hQ

/-- A segment with a `*` in front. -/
theorem defaultSegment {P : TypeExpr → State → Prop} {chars : List Char}
    (hfresh : Fresh (chars ++ rest)) (h : Before ctx.text s ('*' :: (chars ++ rest)))
    (hatom : ∀ s', Facing ctx.text s' (chars ++ rest) →
      g.typeAtom.Reads ctx s' fun v s'' => Loops g.typeSuffix ctx P v s'') :
    g.typeSegment.Reads ctx s fun v s' => ∃ inner span, v = .default inner span ∧ P inner s' := by
  refine (h.skip (fresh_cons (by decide) (by decide))).bind fun _ s₁ hface =>
    .look position_looks (.look peek_looks ?_)
  have hstar : (charAt ctx.text s₁.pos == '*') = true := by
    rw [show charAt ctx.text s₁.pos = '*' from hface.charAt_eq 0]
    rfl
  rw [hstar]
  exact (Line.advance_reads ['*'] hface rfl).bind fun _ s₂ hface₂ =>
    (Before.skip (.inl hface₂) hfresh).bind fun _ s₃ hface₃ => (hatom s₃ hface₃).bind
      fun v s₄ hsuffixes => hsuffixes.reads.bind fun v' s₅ hP => .pure ⟨v', _, rfl, hP⟩

/-- A segment that is an atom alone. -/
theorem atomSegment {t : TypeExpr} {chars : List Char}
    (hfirst : ∃ c more, chars = c :: more ∧ opensType c = true ∧ c ≠ '*')
    (h : Before ctx.text s (chars ++ rest)) (hrest : EndsMember rest)
    (hatom : ∀ s', Facing ctx.text s' (chars ++ rest) →
      g.typeAtom.Reads ctx s' fun v s'' => v.Alike t ∧ Facing ctx.text s'' rest) :
    g.typeSegment.Reads ctx s fun v s' => v.Alike t ∧ Facing ctx.text s' rest :=
  segment hfirst h fun s' hface => (hatom s' hface).mono fun _ _ ⟨hv, hface⟩ =>
    noSuffix hrest hface ⟨hv, hface⟩

/-- A member of a union. -/
theorem enclosedSegment (hg : g.ReadsTypes ctx depth) {t : TypeExpr} (ht : t.Simple)
    (hdepth : t.enclosedNesting t.nesting < depth + 1)
    (h : Before ctx.text s ((t.enclose t.print).toList ++ rest)) (hrest : EndsMember rest) :
    g.typeSegment.Reads ctx s fun v s' => v.Alike t ∧ Facing ctx.text s' rest :=
  atomSegment ht.enclose_first h hrest fun _ hface => hg.enclosed ht hdepth (.inl hrest) hface

/-- A type in parentheses. -/
theorem parenSegment (hg : g.ReadsTypes ctx depth) {t : TypeExpr} (ht : t.Simple)
    (hdepth : t.nesting < depth) (h : Before ctx.text s (("(" ++ t.print ++ ")").toList ++ rest))
    (hrest : EndsMember rest) :
    g.typeSegment.Reads ctx s fun v s' => v.Alike t ∧ Facing ctx.text s' rest :=
  atomSegment ⟨'(', t.print.toList ++ [')'], by simp, by decide, by decide⟩ h hrest
    fun _ hface => hg.paren ht hdepth (.inl hrest) (by simpa using hface)

/-- A type that is no union. -/
theorem bareSegment (hg : g.ReadsTypes ctx depth) {t : TypeExpr} (ht : t.Simple)
    (hunion : t.isUnion = false) (hdepth : t.nesting < depth + 1)
    (h : Before ctx.text s (t.print.toList ++ rest)) (hrest : EndsParts rest) :
    g.typeSegment.Reads ctx s fun v s' => v.Alike t ∧ Facing ctx.text s' rest := by
  obtain ⟨c, more, hprint, hopens, hstar⟩ := ht.first
  have hfirst (hdefault : ∀ inner span, t ≠ .default inner span) :
      ∃ c more, t.print.toList = c :: more ∧ opensType c = true ∧ c ≠ '*' :=
    ⟨c, more, hprint, hopens, fun heq => by
      obtain ⟨inner, span, rfl⟩ := hstar heq
      exact hdefault inner span rfl⟩
  cases ht with
  | named hpath hwritten =>
    exact atomSegment (hfirst (by simp)) h (.inl hrest)
      fun _ hface => named hpath hwritten (.inl (.inl hrest)) hface
  | generic hpath hwritten hargs hparts =>
    exact atomSegment (hfirst (by simp)) h (.inl hrest)
      fun _ hface => hg.generic hpath hwritten hargs hparts (Nat.lt_of_succ_lt_succ hdepth) hface
  | @function params result span hparts hresult =>
    have hdepth : max (partsNesting params) (result.nesting + 1) < depth :=
      Nat.lt_of_succ_lt_succ hdepth
    exact atomSegment (hfirst (by simp)) h (.inl hrest) fun _ hface =>
      hg.function hparts hresult (Nat.max_lt.1 hdepth) hrest hface
  | @nullable inner span hinner =>
    have hbefore : Before ctx.text s ((inner.enclose inner.print).toList ++ '?' :: rest) := by
      simpa [TypeExpr.print] using h
    exact segment hinner.enclose_first hbefore fun _ hface =>
      (hg.enclosed hinner hdepth (.inr ⟨rest, rfl⟩) hface).mono fun v _ hv =>
        questionMark (.inl hrest) hv.2 fun _ hface => ⟨.nullable hv.1, hface⟩
  | @default inner span hinner =>
    have hbefore : Before ctx.text s ('*' :: ((inner.enclose inner.print).toList ++ rest)) := by
      simpa [TypeExpr.print] using h
    obtain ⟨c, more, henclose, hopens, -⟩ := hinner.enclose_first
    have hfresh : Fresh ((inner.enclose inner.print).toList ++ rest) := by
      rw [henclose]
      exact opensType_fresh hopens
    refine (defaultSegment hfresh hbefore fun _ hface =>
      (hg.enclosed hinner hdepth (.inl (.inl hrest)) hface).mono fun v _ hv =>
        noSuffix (.inl hrest) hv.2 (show v.Alike inner ∧ _ from hv)).mono ?_
    rintro _ s' ⟨v, span', rfl, hv, hface⟩
    exact ⟨.default hv, hface⟩
  | union => cases hunion

/-! ### Unions -/

/-- No bar stands behind a type. -/
theorem noBar (hrest : EndsParts rest) (h : Facing ctx.text s rest) :
    atUnionBar.Reads ctx s fun found s' => found = false ∧ Facing ctx.text s' rest := by
  have hno : "|".toList.isPrefixOf rest = false := by
    rcases hrest with rfl | ⟨c, more, rfl, rfl | rfl | rfl⟩ <;> rfl
  refine (Before.atToken (.inl h) hrest.fresh "|").bind fun found s₁ ⟨hfound, hface⟩ =>
    .ite_true ?_ (.pure ⟨rfl, hface⟩)
  rw [hfound, hno]
  rfl

/-- A bar with a blank on either side. -/
theorem bar (h : Facing ctx.text s (' ' :: '|' :: ' ' :: rest)) :
    atUnionBar.Reads ctx s fun found s' =>
      found = true ∧ Facing ctx.text s' ('|' :: ' ' :: rest) := by
  refine (Before.atToken (.inr ⟨h, nofun⟩) (fresh_cons (by decide) (by decide)) "|").bind
    fun found s₁ ⟨hfound, hface⟩ => .ite_false ?_ (.look (startsWith_looks "||")
      (.ite_false ?_ (.look (startsWith_looks "|>") (.pure ⟨?_, hface⟩))))
  · rw [hfound]
    rfl
  · rw [matchesAt_of_drop hface.rest]
    rfl
  · rw [matchesAt_of_drop hface.rest]
    rfl

/-- The members behind the first one of a union. -/
theorem members (hg : g.ReadsTypes ctx depth) {others : List TypeExpr} (found : Array TypeExpr)
    (hparts : ∀ t ∈ others, t.Simple) (hdepth : partsNesting others < depth + 1)
    (hrest : EndsParts rest)
    (h : Facing ctx.text s (((printParts others).flatMap fun text => " | ".toList ++ text.toList) ++
      rest)) :
    Loops (fun (members : Array TypeExpr) => do
      if ← atUnionBar then
        advance 1
        return .next (members.push (← g.typeSegment))
      else return .done members) ctx (fun all s' => ∃ vs, all.toList = found.toList ++ vs ∧
        List.Forall₂ TypeExpr.Alike vs others ∧ Facing ctx.text s' rest) found s := by
  induction others generalizing found s with
  | nil =>
    refine .done ((noBar hrest h).bind ?_)
    rintro more s₁ ⟨hmore, hface⟩
    exact .ite_false hmore (.pure ⟨found, rfl, [], by simp, .nil, hface⟩)
  | cons t others ih =>
    obtain ⟨ht, hparts⟩ := List.forall_mem_cons.1 hparts
    obtain ⟨htdepth, hdepth⟩ := Nat.max_lt.1 hdepth
    have hbar : " | ".toList = [' ', '|', ' '] := by decide
    have h : Facing ctx.text s (' ' :: '|' :: ' ' :: ((t.enclose t.print).toList ++
        (((printParts others).flatMap fun text => " | ".toList ++ text.toList) ++ rest))) := by
      simpa [printParts, hbar] using h
    have hends : EndsMember
        (((printParts others).flatMap fun text => " | ".toList ++ text.toList) ++ rest) := by
      cases others with
      | nil => exact .inl hrest
      | cons t' others => exact .inr ⟨_, by rw [printParts, List.flatMap_cons, hbar]; rfl⟩
    refine .next ((bar h).bind ?_)
    rintro more s₁ ⟨hmore, hface₁⟩
    refine .ite_true hmore ((Line.advance_reads ['|'] hface₁ rfl).bind fun _ s₂ hface₂ =>
      (hg.enclosedSegment ht htdepth (.inr ⟨hface₂, ?_⟩) hends).bind ?_)
    · obtain ⟨c, more, henclose, -⟩ := ht.enclose_first
      rw [henclose]
      simp
    rintro v s₃ ⟨hv, hface₃⟩
    refine .pure ⟨_, rfl, Before.pos_lt (.inl h) hface₃ (by simp; omega), hface₃.pos_le,
      (ih (found.push v) hparts hdepth hface₃).mono ?_⟩
    rintro all s' ⟨vs, hall, halike, hface⟩
    exact ⟨v :: vs, by rw [hall, Array.toList_push, List.append_assoc]; rfl,
      .cons hv halike, hface⟩

/-- A type of one segment. -/
theorem oneSegment {t : TypeExpr} {chars : List Char} (h : Before ctx.text s (chars ++ rest))
    (hfresh : Fresh (chars ++ rest)) (hrest : EndsParts rest)
    (hsegment : ∀ s', Before ctx.text s' (chars ++ rest) →
      g.typeSegment.Reads ctx s' fun v s'' => v.Alike t ∧ Facing ctx.text s'' rest) :
    g.typeRule.Reads ctx s fun v s' => v.Alike t ∧ Facing ctx.text s' rest := by
  refine (h.skip hfresh).bind fun _ s₁ hface₁ => .look position_looks
    ((hsegment s₁ (.inl hface₁)).bind fun v s₂ ⟨hv, hface₂⟩ => ?_)
  refine Reads.bind (P := fun all s' => all = #[v] ∧ Facing ctx.text s' rest)
    (Loops.reads (.done ((noBar hrest hface₂).bind fun more s₃ ⟨hmore, hface₃⟩ =>
      .ite_false hmore (.pure ⟨_, rfl, rfl, hface₃⟩)))) ?_
  rintro _ s₃ ⟨rfl, hface₃⟩
  exact .pure ⟨hv, hface₃⟩

/-- A union. Its members are the segments, since none of them is a union. -/
theorem unionType (hg : g.ReadsTypes ctx depth) {members : List TypeExpr} {span : Span}
    (htwo : 2 ≤ members.length) (hflat : ∀ t ∈ members, t.isUnion = false)
    (hparts : ∀ t ∈ members, t.Simple) (hdepth : partsNesting members < depth + 1)
    (h : Before ctx.text s ((TypeExpr.union members span).print.toList ++ rest))
    (hrest : EndsParts rest) :
    g.typeRule.Reads ctx s fun v s' => v.Alike (.union members span) ∧ Facing ctx.text s' rest := by
  cases members with
  | nil => simp at htwo
  | cons first others =>
    cases others with
    | nil => simp at htwo
    | cons second others =>
      obtain ⟨hfirst, hothers⟩ := List.forall_mem_cons.1 hparts
      obtain ⟨hdepth, hdepths⟩ := Nat.max_lt.1 hdepth
      have hprint (t : TypeExpr) (ts : List TypeExpr) :
          (" | ".intercalate (printParts (t :: ts))).toList = (t.enclose t.print).toList ++
            (printParts ts).flatMap fun text => " | ".toList ++ text.toList := by
        induction ts generalizing t with
        | nil => simp [printParts]
        | cons t' ts ih =>
          rw [printParts, printParts, String.intercalate_cons_cons, String.toList_append,
            String.toList_append, ← printParts, ih t']
          simp [printParts]
      rw [TypeExpr.print, hprint, List.append_assoc] at h
      obtain ⟨c, more, henclose, hopens, -⟩ := hfirst.enclose_first
      refine (h.skip ?_).bind fun _ s₁ hface₁ => .look position_looks
        ((hg.enclosedSegment hfirst hdepth (.inl hface₁) (.inr ⟨_, rfl⟩)).bind ?_)
      · rw [henclose]
        exact opensType_fresh hopens
      rintro v s₂ ⟨hv, hface₂⟩
      refine (hg.members #[v] hothers hdepths hrest hface₂).reads.bind ?_
      rintro all s₃ ⟨vs, hall, halike, hface₃⟩
      have halike : List.Forall₂ TypeExpr.Alike (v :: vs) (first :: second :: others) :=
        .cons hv halike
      have hall : all.toList = v :: vs := hall
      rw [hall]
      cases vs with
      | nil => cases halike with | cons _ hnone => cases hnone
      | cons v' vs =>
        refine .pure ⟨?_, hface₃⟩
        rw [TypeExpr.Alike.flatMap_unionMembers halike hflat]
        exact .union halike

/-- Types are read, when those inside them are. -/
theorem typeRule (hg : g.ReadsTypes ctx depth) {t : TypeExpr} {text : String} {nesting : Nat}
    (ht : t.Simple) (htext : t.WrittenAs text nesting) (hdepth : nesting < depth + 1)
    (h : Before ctx.text s (text.toList ++ rest)) (hrest : EndsParts rest) :
    g.typeRule.Reads ctx s fun v s' => v.Alike t ∧ Facing ctx.text s' rest := by
  have hfresh : Fresh (text.toList ++ rest) := by
    obtain ⟨c, more, hfirst, hopens⟩ := htext.first ht
    rw [hfirst]
    exact opensType_fresh hopens
  cases htext with
  | paren =>
    exact oneSegment h hfresh hrest fun s' hbefore =>
      hg.parenSegment ht (Nat.lt_of_succ_lt_succ hdepth) hbefore (.inl hrest)
  | bare =>
    cases hunion : t.isUnion with
    | false =>
      exact oneSegment h hfresh hrest fun s' hbefore =>
        hg.bareSegment ht hunion hdepth hbefore hrest
    | true =>
      cases ht with
      | union htwo hflat hparts => exact hg.unionType htwo hflat hparts hdepth h hrest
      | _ => cases hunion

end Grammar.ReadsTypes

/-- Types are read that lie in one another less deep than the number of levels. -/
theorem Grammar.readsTypes_nested (ctx : Context) (depth : Nat) :
    (Grammar.nested depth).ReadsTypes ctx depth := by
  induction depth with
  | zero => exact ⟨fun _ _ hdepth => absurd hdepth (Nat.not_lt_zero _)⟩
  | succ depth ih => exact ⟨fun ht htext hdepth => ih.typeRule ht htext hdepth⟩

/-! ### Texts -/

/-- A type behind a colon, and nothing else, is what a property is declared with. -/
theorem Grammar.ReadsTypes.declared {g : Grammar} {ctx : Context} {depth : Nat} {s : State}
    {t : TypeExpr} (hg : g.ReadsTypes ctx depth) (ht : t.Simple) (hdepth : t.nesting < depth)
    (name : Identifier) (h : Facing ctx.text s (':' :: ' ' :: t.print.toList)) :
    (g.propertyForm name).Reads ctx s fun form s' =>
      (∃ v span, form = .typeOnly v span ∧ v.Alike t) ∧ Near ctx.text s' [] := by
  obtain ⟨c, more, hprint, -⟩ := ht.first
  have hcolon : Fresh (':' :: ' ' :: t.print.toList) := fresh_cons (by decide) (by decide)
  refine (Before.atToken (.inl h) hcolon "\x7b").bind fun found s₁ ⟨hfound, hface₁⟩ =>
    .ite_false ?_ ?_
  · rw [hfound]
    rfl
  refine (Before.accept ":" (.inl hface₁) hcolon).bind fun typed s₂ ⟨htyped, hface₂⟩ =>
    .ite_true htyped ?_
  have hbefore : Before ctx.text s₂ (t.print.toList ++ []) := by
    rw [List.append_nil]
    exact .inr ⟨hface₂, by rw [hprint]; exact nofun⟩
  refine Reads.bind (P := fun type? s' => ∃ v, type? = some v ∧ v.Alike t ∧ Facing ctx.text s' [])
    (Reads.map ((hg.type ht .bare hdepth hbefore (.inl rfl)).mono
      fun v s' ⟨hv, hface⟩ => ⟨v, rfl, hv, hface⟩)) ?_
  rintro _ s₃ ⟨v, rfl, hv, hface₃⟩
  refine Reads.bind (P := fun found s' => found = false ∧ Facing ctx.text s' []) ?_ ?_
  · exact (Before.atToken (.inl hface₃) (.inl rfl) "=").bind fun found s₄ ⟨hfound, hface₄⟩ =>
      .ite_false hfound (.pure ⟨rfl, hface₄⟩)
  · rintro _ s₄ ⟨rfl, hface₄⟩
    exact .pure ⟨⟨v, _, rfl, hv⟩, .inl hface₄⟩

/-- A type of names, arguments, `?`, `*`, unions and functions is read from what it is printed as: a
text that declares a property of this type is read as that property, without any problem and with a
type of the same shape. -/
theorem parse_print_type {t : TypeExpr} (ht : t.Simple) (hdepth : t.nesting < nestingLimit)
    (filename : String) (options : Options) :
    (parse ("x: " ++ t.print) filename options).diagnostics = [] ∧
      ∃ (property : PropertyDecl) (type : TypeExpr) (span : Span),
        (parse ("x: " ++ t.print) filename options).module.declarations = [.property property] ∧
          property.form = .typeOnly type span ∧
          (Node.type type).sameShape (.type t) = true := by
  have htext : ("x: " ++ t.print).toList = joined ["x:", t.print] := by
    simp [joined, firstToken, spaced]
  have htokens : ∀ token ∈ ["x:", t.print], IsToken token :=
    List.forall_mem_cons.2 ⟨by decide, List.forall_mem_singleton.2 ht.isToken⟩
  have hopens : OpensWith exampleName ["x:", t.print] :=
    ⟨(by decide : String.ofList ("x:".toList.takeWhile continuesName) = "x"), 'x',
      (by decide : "x:".toList[0]? = some 'x'), by decide⟩
  have hgrammar := Grammar.readsTypes_nested ⟨("x: " ++ t.print).toList.toArray, options⟩
    nestingLimit
  have hchars : joined ["x:", t.print] =
      exampleName.name.toList ++ ':' :: ' ' :: t.print.toList := by
    simp [joined, firstToken, spaced, exampleName]
  have hname {s : State} (hat : At ("x: " ++ t.print).toList.toArray s ["x:", t.print]) :
      (expectName "a property name").Reads ⟨("x: " ++ t.print).toList.toArray, options⟩ s
        fun _ s' => Facing ("x: " ++ t.print).toList.toArray s' (':' :: ' ' :: t.print.toList) :=
    (Line.expectName hat (fun s' (hat : At _ s' _) => (by
        rw [← hchars]
        exact Line.facing hat : Facing _ s' (exampleName.name.toList ++ ':' :: ' ' :: t.print.toList)))
      exampleName_isPlain (by decide : continuesName ':' = false) _).mono
        fun _ _ hname => hname.2
  obtain ⟨hnone, property, hdecls, ⟨type, span, hform, halike⟩⟩ :=
    parse_property htext htokens hopens exampleName_isPlain filename options fun s hat =>
      (hname hat).bind fun name _ hface => hgrammar.declared ht hdepth name hface
  exact ⟨hnone, property, type, span, hdecls, hform, halike⟩

/-- A union of a default type, a nullable type with arguments and a function on a union. -/
def exampleType : TypeExpr :=
  let x : TypeExpr := .named ⟨[exampleName], ⟨0, 1⟩⟩
  .union [.default x ⟨0, 1⟩,
    .nullable (.generic ⟨[exampleName, exampleName], ⟨0, 1⟩⟩ [x, .function [] x ⟨0, 1⟩] ⟨0, 1⟩)
      ⟨0, 1⟩,
    .function [.union [x, x] ⟨0, 1⟩, x] (.nullable x ⟨0, 1⟩) ⟨0, 1⟩] ⟨0, 1⟩

theorem exampleType_simple : exampleType.Simple := by
  have hwritten : exampleName.IsWritten := ⟨'x', [], by decide, by decide, nofun, by decide⟩
  have hx : TypeExpr.Simple (.named ⟨[exampleName], ⟨0, 1⟩⟩) :=
    .named nofun (List.forall_mem_singleton.2 hwritten)
  have hxx : ∀ t ∈ [TypeExpr.named ⟨[exampleName], ⟨0, 1⟩⟩, .named ⟨[exampleName], ⟨0, 1⟩⟩],
      t.Simple := List.forall_mem_cons.2 ⟨hx, List.forall_mem_singleton.2 hx⟩
  have hpath : ∀ i ∈ [exampleName, exampleName], i.IsWritten :=
    List.forall_mem_cons.2 ⟨hwritten, List.forall_mem_singleton.2 hwritten⟩
  refine .union (by decide) (by decide) (List.forall_mem_cons.2 ⟨.default hx,
    List.forall_mem_cons.2 ⟨.nullable (.generic nofun hpath nofun (List.forall_mem_cons.2
      ⟨hx, List.forall_mem_singleton.2 (.function nofun hx)⟩)), List.forall_mem_singleton.2
        (.function (List.forall_mem_cons.2 ⟨.union (by decide) (by decide) hxx,
          List.forall_mem_singleton.2 hx⟩) (.nullable hx))⟩⟩)

example : exampleType.print =
    "(*x) | ((x.x<x, (() -> (x))>)?) | (((x | x), x) -> (x?))" := by decide +kernel

theorem parse_print_type_union :
    exampleType.Simple ∧ exampleType.nesting < nestingLimit ∧
      (parse ("x: " ++ exampleType.print) "" {}).diagnostics = [] ∧
      ∃ (property : PropertyDecl) (type : TypeExpr) (span : Span),
        (parse ("x: " ++ exampleType.print) "" {}).module.declarations = [.property property] ∧
          property.form = .typeOnly type span ∧
          (Node.type type).sameShape (.type exampleType) = true :=
  have hdepth : exampleType.nesting < nestingLimit := by decide
  ⟨exampleType_simple, hdepth, parse_print_type exampleType_simple hdepth "" {}⟩

end PklSyntax
