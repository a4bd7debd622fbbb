import PklSyntax.Proofs.Moving.Round

/-!
# Modules put together from their declarations

The declarations of a text without errors are cut out of it and put together again, with a line
break between them. What stood between them is lost, and with it the white space, the comments, and
the doc comments that belonged to none of them. Each declaration is read again as it was, because
what stands behind it is again a line break and then the next one, or the end.

Each declaration is compared with its piece on its own, and what stands behind the piece has to be
known for that. So the induction goes from the last declaration to the first one.

## Main definitions

* `Overlap.piece`: a declaration and the piece that is cut from it.
* `Repeated`: the rest of a run over declarations, in the text made of pieces.

## Main statements

* `PlainRun.repeated`: the run over the declarations is repeated piece by piece.
* `parse_pieces`: the pieces of a text, put together, are read as the text was.
-/

namespace PklSyntax

open PklSyntax.Parser

/-- A declaration that lies from `lo` up to `stop` in the left text, and its piece from `r` on in
the right one. -/
def Overlap.piece (left right : Context) (lo stop r : Nat)
    (hagree : ∀ i, lo ≤ i → i < stop → right.text[r + (i - lo)]? = left.text[i]?) (hle : lo ≤ stop)
    (hcut : stop ≤ left.text.size ∧ Ends left.text stop ∧ Ends right.text (r + (stop - lo)) ∧
      (wordAt right.text "extends" (skipEnd right.text (r + (stop - lo))) = true →
        wordAt left.text "extends" (skipEnd left.text stop) = true)) : Overlap where
  left := left
  right := right
  lo := lo
  stop := stop
  offset := (r : Int) - lo
  whole := false
  offset_le := by omega
  agree i hlo hlt := by
    rw [show ((i : Int) + (r - lo)).toNat = r + (i - lo) by omega]
    exact hagree i hlo hlt
  cut _ := by
    rw [show ((stop : Int) + (r - lo)).toNat = r + (stop - lo) by omega]
    exact hcut
  full := nofun

variable {left : Context} {text : Array Char} {s t : State} {c c' e r : Nat} {decl : Declaration}
  {decls : List Declaration} {ds : List Diagnostic}

/-- What the run over the declarations reads from `c` on in the left text is read from `e` on in the
text, each declaration at its new place and without an error. -/
structure Repeated (left : Context) (text : Array Char) (c e : Nat) (decls : List Declaration) :
    Prop where
  closed : AllClosed text e
  follows : Follows text (skipEnd text e)
  extends_of : wordAt text "extends" (skipEnd text e) = true →
    wordAt left.text "extends" (skipEnd left.text c) = true
  loops : ∀ progress t, Between text t e → ¬ t.HasError → Loops declarationRound ⟨text, {}⟩
    (fun progress' s' => (∃ moved, List.Forall₂ Declaration.IsMoved moved decls ∧
      progress'.declarations.toList = progress.declarations.toList ++ moved) ∧ ¬ s'.HasError)
      progress t

namespace Repeated

/-- At its end the text holds no more declarations. -/
theorem done (hend : e = text.size) : Repeated left text c e [] := by
  subst hend
  have hnone : triviaAt? text text.size = none := triviaAt?_size_le (Nat.le_refl _)
  have hskip : skipEnd text text.size = text.size := skipEnd_of_none hnone
  have hclosed : AllClosed text text.size := by
    rw [AllClosed, triviaFrom_of_none hnone]
    rfl
  refine ⟨hclosed, .inl (Nat.le_of_eq hskip.symm), fun hword => ?_, fun progress t ht hno => ?_⟩
  · rw [hskip, wordAt_of_not_startsName (by decide)] at hword
    · cases hword
    · rw [charAt_of_size_le (Nat.le_refl _)]
      decide
  · obtain ⟨-, hpos, -⟩ := ht.skipTrivia
    refine .stop (declarationRound_of_done rfl (.inl ?_))
      ⟨⟨[], .nil, (List.append_nil _).symm⟩, ?_⟩
    · exact Nat.le_of_eq (hskip.symm.trans hpos.symm)
    · rw [← State.errors_eq_nil] at hno ⊢
      rw [ht.errors_skipTrivia hclosed, hno]

/-- A declaration is read again in its piece, when the rest of the text repeats the rest of the
run. -/
theorem read (hs : Between left.text s c) (hclosed : AllClosed left.text c)
    (hrun : Grammar.full.declarationRule left (s.skipTrivia left.text) = .ok decl t)
    (hread : DeclarationRead left.text (s.skipTrivia left.text) c decl t c') (herror : ¬ t.HasError)
    (hends : Ends left.text c') {lead : Nat} (hlead : decl.span.start = lead)
    (hagree : ∀ i, lead ≤ i → i < c' → text[r + (i - lead)]? = left.text[i]?)
    (happart : continuesName (charAt text (r + (c' - lead))) = false)
    (hrest : Repeated left text c' (r + (c' - lead)) decls)
    (he : e = r ∨ e + 1 = r ∧ isTriviaBlank (charAt text e) = true) :
    Repeated left text c e (decl :: decls) := by
  obtain ⟨hskip, hpos, hend⟩ := hs.skipTrivia
  obtain ⟨lead', hlead', hleads, hlepos⟩ := hskip.exists_lead hend hclosed
  obtain rfl : lead = lead' := by
    rw [hread.span_eq, hlead'] at hlead
    exact Int.ofNat.inj hlead.symm
  have hlt := hread.lt
  have hsize := hread.passes.onward.stands.le_size
  have hno : ¬ s.HasError := fun he =>
    herror (hread.passes.onward.hasError ((hs.stands.skipTrivia hs.mode_eq).1.hasError he))
  have hlast : charAt text (r + (c' - lead) - 1) = charAt left.text (c' - 1) := by
    have hchar := hagree (c' - 1) (by omega) (by omega)
    rw [show r + (c' - 1 - lead) = r + (c' - lead) - 1 by omega] at hchar
    simp only [charAt, Array.getD_eq_getD_getElem?, hchar]
  have hends' : Ends text (r + (c' - lead)) :=
    ⟨⟨by omega, by rw [hlast]; exact hread.tokenEnd.endsToken, fun _ => happart⟩, hrest.closed,
      hrest.follows⟩
  let W : Overlap := .piece left ⟨text, {}⟩ lead c' r hagree (by omega)
    ⟨hsize, hends, hends', hrest.extends_of⟩
  have hplace {i : Nat} (hi : lead ≤ i) : W.place i = r + (i - lead) := by
    show ((i : Int) + (r - lead)).toNat = _
    omega
  have hlead_place : W.place lead = r := by rw [hplace (Nat.le_refl _), Nat.sub_self, Nat.add_zero]
  have hskip_lead : skipEnd left.text lead = (s.skipTrivia left.text).pos := by
    rw [hpos, hleads.skipEnd_eq]
  have hin : W.Inside (s.skipTrivia left.text).pos := .inl hlt
  have hskip_place : skipEnd text r = W.place (s.skipTrivia left.text).pos := by
    rw [← hlead_place, ← hskip_lead]
    exact W.skipEnd_place (Nat.le_refl _) (hskip_lead ▸ hin)
  have hclosed_place : AllClosed text r := by
    have hdiagnostics := W.diagnosticsFrom_place (Nat.le_refl _) (i := lead) (hskip_lead ▸ hin)
    rw [hlead_place, show (triviaFrom W.left.text lead).1.filterMap Trivia.diagnostic? = [] from
      hleads.closed_behind] at hdiagnostics
    exact hdiagnostics
  have hleads' : Leads text e r := by
    rcases he with rfl | ⟨rfl, hblank⟩
    · exact .refl hclosed_place
    · exact .of_blank hblank (.refl hclosed_place)
  have hword {word : String} (hname : isName word = true) :
      wordAt text word (skipEnd text e) = wordAt left.text word (s.skipTrivia left.text).pos := by
    rw [hleads'.skipEnd_eq, hskip_place]
    exact W.wordAt_place hname hlepos hin
  refine ⟨hleads'.closed, ?_, fun hextends => ?_, fun progress t' ht hno' => ?_⟩
  · rcases Grammar.follows_of_declaration hskip hend hrun with hsize' | ⟨hbegins, his, has⟩
    · omega
    · refine .inr ⟨?_, (hword (by decide)).trans his, (hword (by decide)).trans has⟩
      rw [hleads'.skipEnd_eq, hskip_place]
      exact (congrArg beginsDeclaration (W.charAt_place hlepos hin)).trans hbegins
  · rw [← hpos, ← hword (by decide), hextends]
  · obtain ⟨hu, hv, habreast⟩ := W.abreast_skipTrivia (c := lead) (Nat.le_refl _) hs hleads ht
      (by rw [hlead_place]; exact hleads') hno hno'
    obtain ⟨t₁, hrun', habreast', hread'⟩ := W.declaration_abreast (c := lead) (Nat.le_refl _) hu hv
      habreast hrun hread.span_eq (.inr ⟨herror, .inr ⟨rfl, rfl⟩⟩)
    rw [hplace (i := c') (by omega)] at hread'
    have hno₁ : ¬ t₁.HasError := by
      rw [← State.errors_eq_nil] at herror ⊢
      rw [habreast'.errors, herror, List.map_nil]
    refine .read ht hrun' hread' hno₁ fun ds' hds' => ?_
    refine (hrest.loops _ _ ((hv.read hread').record ds') ?_).mono ?_
    · rwa [← State.errors_eq_nil, State.errors_record hds', State.errors_eq_nil]
    · rintro progress' s' ⟨⟨moved, hmoved, hdecls⟩, hno''⟩
      refine ⟨⟨decl.placed W.shift :: moved, .cons ⟨_, rfl⟩ hmoved, ?_⟩, hno''⟩
      rw [hdecls, Array.toList_push, List.append_assoc]
      rfl

end Repeated

/-! ### Pieces -/

/-- The piece of the text that is the declaration. -/
def pieceOf (text : Array Char) (decl : Declaration) : List Char :=
  (text.extract decl.span.start.toNat decl.span.stop.toNat).toList

/-- The pieces of the declarations, each with a line break in front of it. -/
def piecesBehind (text : Array Char) (decls : List Declaration) : List Char :=
  decls.flatMap fun decl => '\n' :: pieceOf text decl

/-- What a text holds from an offset on, and where the rest begins. -/
theorem getElem?_of_drop {l rest : List Char} (h : text.toList.drop r = l ++ rest) :
    (∀ n < l.length, text[r + n]? = l[n]?) ∧ text.toList.drop (r + l.length) = rest := by
  refine ⟨fun n hn => ?_, ?_⟩
  · rw [← Array.getElem?_toList, ← List.getElem?_drop, h, List.getElem?_append_left hn]
  · rw [← List.drop_drop, h, List.drop_left]

/-- No name goes on in front of further pieces. -/
theorem apart_of_pieces (h : text.toList.drop e = piecesBehind left.text decls) :
    continuesName (charAt text e) = false := by
  cases decls with
  | nil =>
    have hsize : text.toList.length ≤ e := List.drop_eq_nil_iff.1 h
    rw [charAt_of_size_le (by simpa using hsize)]
    decide
  | cons decl decls =>
    rw [piecesBehind, List.flatMap_cons, List.cons_append] at h
    have hbreak := (getElem?_of_drop (l := ['\n']) h).1 0 (by simp)
    rw [charAt_eq_of_getElem? (by simpa using hbreak)]
    decide

namespace Repeated

/-- A declaration is read again where its piece stands with further pieces behind it. -/
theorem read_piece (hs : Between left.text s c) (hclosed : AllClosed left.text c)
    (hrun : Grammar.full.declarationRule left (s.skipTrivia left.text) = .ok decl t)
    (hread : DeclarationRead left.text (s.skipTrivia left.text) c decl t c') (herror : ¬ t.HasError)
    (hends : Ends left.text c')
    (hdrop : text.toList.drop r = pieceOf left.text decl ++ piecesBehind left.text decls)
    (hrest : ∀ e', text.toList.drop e' = piecesBehind left.text decls → e' ≤ text.size →
      Repeated left text c' e' decls)
    (he : e = r ∨ e + 1 = r ∧ isTriviaBlank (charAt text e) = true) :
    Repeated left text c e (decl :: decls) := by
  obtain ⟨hskip, hpos, hend⟩ := hs.skipTrivia
  obtain ⟨lead, hlead, -, hle⟩ := hskip.exists_lead hend hclosed
  have hlt := hread.lt
  have hsize := hread.passes.onward.stands.le_size
  have hstart : decl.span.start = lead := by rw [hread.span_eq, hlead]
  have hstop : decl.span.stop = c' := by rw [hread.span_eq]
  have hpiece : pieceOf left.text decl = (left.text.extract lead c').toList := by
    rw [pieceOf, hstart, hstop]
    rfl
  have hlen : (pieceOf left.text decl).length = c' - lead := by
    rw [hpiece, Array.length_toList, Array.size_extract]
    omega
  obtain ⟨hchars, hbehind⟩ := getElem?_of_drop hdrop
  rw [hlen] at hchars hbehind
  have hagree (i : Nat) (hi : lead ≤ i) (hi' : i < c') : text[r + (i - lead)]? = left.text[i]? := by
    rw [hchars (i - lead) (by omega), hpiece, Array.getElem?_toList, Overlap.getElem?_extract_eq,
      if_pos (by omega)]
    exact congrArg (left.text[·]?) (by omega)
  refine .read hs hclosed hrun hread herror hends hstart hagree (apart_of_pieces hbehind)
    (hrest _ hbehind ?_) he
  have hlast := hagree (c' - 1) (by omega) (by omega)
  rw [Array.getElem?_eq_getElem (show c' - 1 < left.text.size by omega)] at hlast
  have := (Array.getElem?_eq_some_iff.1 hlast).1
  omega

end Repeated

/-- A plain run is repeated where the pieces of its declarations stand. The induction is on the run:
the last declarations are read again first. -/
theorem PlainRun.repeated {last : Nat} (h : PlainRun left s c decls last)
    (hdrop : text.toList.drop e = piecesBehind left.text decls) (hle : e ≤ text.size) :
    Repeated left text c e decls := by
  induction h generalizing e with
  | done =>
    have hsize : text.toList.length ≤ e := List.drop_eq_nil_iff.1 hdrop
    rw [Array.length_toList] at hsize
    exact .done (by omega)
  | @read s t c c' last decl decls ds hs hclosed hrun hread herror hds hrest ih =>
    rw [piecesBehind, List.flatMap_cons, List.cons_append] at hdrop
    obtain ⟨hbreak, hbehind⟩ := getElem?_of_drop (l := ['\n']) hdrop
    have hchar : charAt text e = '\n' := charAt_eq_of_getElem? (by simpa using hbreak 0 (by simp))
    exact .read_piece hs hclosed hrun hread herror (hrest.ends hread.tokenEnd) hbehind
      (fun e' h' hle' => ih h' hle') (.inr ⟨rfl, by rw [hchar]; decide⟩)

/-- With a separator between them, lists stand like the first of them with the others behind it,
each with the separator in front. -/
theorem intercalate_cons_eq (l : List Char) (ls : List (List Char)) :
    ['\n'].intercalate (l :: ls) = l ++ ls.flatMap ('\n' :: ·) := by
  induction ls generalizing l with
  | nil => simp [List.intercalate]
  | cons l' ls ih =>
    rw [List.intercalate_cons_cons, ih, List.flatMap_cons, List.append_assoc]
    rfl

/-- A text that consists of the pieces, with line breaks between them. -/
theorem PlainRun.repeated_joined {last : Nat} (h : PlainRun left s c decls last)
    (htext : text.toList = ['\n'].intercalate (decls.map (pieceOf left.text))) :
    Repeated left text c 0 decls := by
  cases h with
  | done =>
    refine .done ?_
    rw [← Array.length_toList, htext]
    rfl
  | @read s t c c' last decl decls ds hs hclosed hrun hread herror hds hrest =>
    refine .read_piece hs hclosed hrun hread herror (hrest.ends hread.tokenEnd) (r := 0) ?_
      (fun e' h' hle' => hrest.repeated h' hle') (.inl rfl)
    rw [List.drop_zero, htext, List.map_cons, intercalate_cons_eq, List.flatMap_map]
    rfl

/-- The text that is made of the texts of the declarations, with line breaks between them. -/
def SourceText.joined (source : SourceText) (decls : List Declaration) : String :=
  "\n".intercalate (decls.map fun decl => source.sliceText decl.span)

/-- The declarations of a text without errors, cut out of it and joined by line breaks, are read
again as what they were. -/
theorem parse_pieces (text filename filename' : String) (options : Options)
    (h : (parse text filename options).hasErrors = false) :
    let decls := (parse text filename options).module.declarations
    let again := parse ((SourceText.ofString text filename).joined decls) filename' {}
    again.hasErrors = false ∧
      Node.sameShapes (again.module.declarations.map .ofDeclaration)
        (decls.map .ofDeclaration) = true := by
  intro decls again
  obtain ⟨progress, s, hrounds, hdecls, herrors⟩ := parse_of_rounds text filename options
  have herror : ¬ s.HasError := by
    rwa [ParseResult.hasErrors_eq_false, herrors, sortedByOffset_eq_nil, State.errors_eq_nil] at h
  obtain ⟨decls', e, heq, hplain⟩ := exists_plainRun (Between.initial _) hrounds herror
  obtain rfl : decls = decls' := hdecls.trans heq
  have htext : ((SourceText.ofString text filename).joined decls).toList.toArray.toList =
      ['\n'].intercalate (decls.map (pieceOf text.toList.toArray)) := by
    rw [SourceText.joined, String.toList_intercalate, List.map_map]
    refine congrArg ['\n'].intercalate (List.map_congr_left fun decl _ => ?_)
    exact String.toList_ofList
  obtain ⟨progress', s', ⟨⟨moved, hmoved, heq'⟩, hno⟩, hdecls', herrors'⟩ :=
    ((hplain.repeated_joined htext).loops {} {} (.initial _) (by simp [State.HasError])).parse
      filename'
  constructor
  · rwa [ParseResult.hasErrors_eq_false, herrors', sortedByOffset_eq_nil, State.errors_eq_nil]
  · rw [hdecls', heq']
    exact sameShapes_of_moved hmoved

/-- What stands between the declarations is lost, and only that. -/
theorem parse_pieces_comments :
    (parse "/// one\nx = 1 // two\n\n@A y=2" "m" {}).hasErrors = false ∧
      (SourceText.ofString "/// one\nx = 1 // two\n\n@A y=2" "m").joined
        (parse "/// one\nx = 1 // two\n\n@A y=2" "m" {}).module.declarations =
        "/// one\nx = 1\n@A y=2" ∧
      (parse "/// one\nx = 1\n@A y=2" "m" {}).hasErrors = false := by
  have hplain : (parse "/// one\nx = 1 // two\n\n@A y=2" "m" {}).hasErrors = false := by
    decide +kernel
  have hjoined : (SourceText.ofString "/// one\nx = 1 // two\n\n@A y=2" "m").joined
      (parse "/// one\nx = 1 // two\n\n@A y=2" "m" {}).module.declarations =
      "/// one\nx = 1\n@A y=2" := by decide +kernel
  refine ⟨hplain, hjoined, ?_⟩
  rw [← hjoined]
  exact (parse_pieces _ "m" "m" _ hplain).1

end PklSyntax
