import PklSyntax.Proofs.Moving.Trivia
import PklSyntax.Proofs.Reading.Steps

/-!
# Two parses side by side

Two texts agree on a stretch, and a parse goes on in each of them. The two are *abreast* when each
stands where the other does, up to the distance between the places of the stretch: the last token
ended at corresponding places, the same doc comment waits, and the same errors are on record.

Nothing is known of the right parse once the left one has left the stretch. While the left one is
*live* it can still end with the stretch: it has recorded no error, and either the next token begins
in the stretch, or the last one has ended with it and only signs are asked for that could go on with
the construct. The first of these is all that helps where other questions are asked; then the parse
is live in the strict sense. In a whole stretch every parse is live.

## Main definitions

* `State.errors`: the errors on record.
* `State.DocEndsBy`, `Passes`: what a parse has taken ends where a token has ended.
* `Overlap.Live`: the left parse can still end with the stretch.
* `Overlap.Abreast`, `Overlap.Linked`, `Overlap.Joined`: two parses side by side.
* `Overlap.Together`: two parses abreast, of which the left one is live.

## Main statements

* `Overlap.Live.back`, `Overlap.Live.inner`: a parse was live as long as it goes on to be live.
* `Overlap.Abreast.pos_eq`: where the right parse stands.
-/

namespace PklSyntax

variable {text : Array Char} {s s' s'' t : State} {c c' c'' : Nat} {b b' : Bool}

/-- The errors on record. -/
def State.errors (s : State) : List Diagnostic := s.diagnostics.toList.filter Diagnostic.isError

/-! ### What is taken -/

/-- The doc comment with the number ends at the offset, or before it. -/
def State.DocEndsBy (s : State) (i n : Nat) : Prop :=
  ∀ doc, s.docs[i]? = some doc → doc.span.stop ≤ n

/-- A parse has gone onward. What it has read is read behind the cursor, and the doc comments that
were taken on the way lie in front of the end of the last token, or at least in front of the cursor
when the construct is not at its end. -/
structure Passes (text : Array Char) (ended : Bool) (s : State) (c : Nat) (s' : State) (c' : Nat) :
    Prop where
  onward : Onward text s c s' c'
  reach : c < c' → s.pos < c'
  taken : ∀ i ∈ s'.attached,
    i ∈ s.attached ∨ s'.DocEndsBy i (if ended = true then c' else s'.pos)

/-- The cursor is at the end of the last token, and no trivia have been skipped there. -/
def Arrived (s : State) (c : Nat) : Prop := s.pos = c ∧ s.triviaEnd ≠ some s.pos

theorem State.DocEndsBy.mono {i m n : Nat} (h : s.DocEndsBy i m) (hi : i < s.docs.size)
    (hdocs : s.docs.toList <+: s'.docs.toList) (hle : m ≤ n) : s'.DocEndsBy i n := by
  intro doc hdoc
  obtain ⟨rest, hrest⟩ := hdocs
  rw [← Array.getElem?_toList, ← hrest, List.getElem?_append_left (by rwa [Array.length_toList]),
    Array.getElem?_toList] at hdoc
  have := h doc hdoc
  omega

theorem Onward.stop_lt (h : Onward text s c s' c') (hlt : c < c') (herror : ¬ s'.HasError) :
    s.front text c < c' := by
  rcases h.moved with hc | hc | ⟨-, he⟩
  · omega
  · exact hc
  · exact absurd he herror

namespace Passes

theorem refl (h : Stands text s c) : Passes text b s c s c :=
  ⟨.refl h, fun hlt => absurd hlt (Nat.lt_irrefl c), fun _ hi => .inl hi⟩

/-- A step that takes nothing and reads nothing. -/
theorem of_idle (h : Onward text s c s' c) (htaken : s'.attached = s.attached) :
    Passes text b s c s' c :=
  ⟨h, fun hlt => absurd hlt (Nat.lt_irrefl c), fun _ hi => .inl (htaken ▸ hi)⟩

/-- A step that takes nothing and moves the cursor on. -/
theorem of_onward (h : Onward text s c s' c') (hlt : s.pos < c')
    (htaken : s'.attached = s.attached) : Passes text b s c s' c' :=
  ⟨h, fun _ => hlt, fun _ hi => .inl (htaken ▸ hi)⟩

theorem trans (h : Passes text b s c s' c') (h' : Passes text b' s' c' s'' c'')
    (hlt : b = false → b' = true → c' < c'') : Passes text b' s c s'' c'' where
  onward := h.onward.trans h'.onward
  reach := fun hread => by
    have hle := h'.onward.le
    have hpos := h.onward.pos_le
    rcases Nat.eq_or_lt_of_le h.onward.le with rfl | hread'
    · exact Nat.lt_of_le_of_lt hpos (h'.reach hread)
    · exact Nat.lt_of_lt_of_le (h.reach hread') hle
  taken := by
    intro i hi
    have hle := h'.onward.le
    have hpos := h'.onward.pos_le
    have hpos' := h.onward.stands.le_pos
    have hreach := h'.reach
    rcases h'.taken i hi with hi' | hends
    · rcases h.taken i hi' with hi'' | hends
      · exact .inl hi''
      · refine .inr (hends.mono (h.onward.stands.attached_lt i hi') h'.onward.docs ?_)
        cases b with
        | true => cases b' <;> simp only [if_true, Bool.false_eq_true, if_false] <;> omega
        | false =>
          cases b' with
          | false => simpa using hpos
          | true =>
            have := hreach (hlt rfl rfl)
            simp only [if_true, Bool.false_eq_true, if_false]
            omega
    · exact .inr hends

theorem of_le (h : Passes text true s c s' c') : Passes text b s c s' c' :=
  h.trans (refl h.onward.stands) (by simp)

/-- In another mode, back in the mode around. -/
theorem of_mode {mode : Mode} (hs : Stands text s c) (hpoised : mode = .tight → Poised text s c)
    (h : Passes text b { s with mode } c s' c') : Passes text b s c { s' with mode := s.mode } c' :=
  ⟨.of_mode hs hpoised h.onward, h.reach, h.taken⟩

end Passes

theorem opensToken_of_isSign {c : Char} (h : isSign c = true) : opensToken c = true := by
  simp only [isSign, mayFollow, Bool.and_eq_true, Bool.not_eq_true', Bool.or_eq_false_iff,
    bne_iff_ne, beq_eq_false_iff_ne] at h
  simp [opensToken, h.1.1.1, h.1.1.2, h.2]

theorem Stands.of_fresh (h : Stands text s c) (hnot : s.triviaEnd ≠ some s.pos) : s.pos = c := by
  rcases h.place with ⟨hpos, -⟩ | ⟨hend, -⟩
  · exact hpos
  · exact absurd hend hnot

theorem Stands.of_skipped (h : Stands text s c) (hend : s.triviaEnd = some s.pos) :
    s.pos = skipEnd text c ∧ s.runDoc? = (docsFrom text c).getLast? := by
  rcases h.place with ⟨hpos, hfresh⟩ | ⟨-, hpos, hdoc, -⟩
  · have := hfresh _ hend
    omega
  · exact ⟨hpos, hdoc⟩

namespace Overlap

variable {W : Overlap}

/-! ### Live parses -/

theorem place_stop_le_size (hw : W.whole = false) : W.place W.stop ≤ W.right.text.size := by
  obtain ⟨-, -, hright, -⟩ := W.cut hw
  have hpos := hright.tokenEnd.pos
  have hlt : (W.stop + W.offset).toNat - 1 < W.right.text.size := by
    refine lt_size_of_charAt_ne fun hnul => ?_
    have hends := hright.tokenEnd.endsToken
    rw [hnul] at hends
    exact absurd hends (by decide)
  rw [place]
  omega

/-- The left parse can still end with the stretch, and its next token begins in it unless `b` is
true. -/
def Live (W : Overlap) (b : Bool) (s : State) (c : Nat) : Prop :=
  W.whole = true ∨ ¬ s.HasError ∧ (s.front W.left.text c < W.stop ∨ b = true ∧ c = W.stop)

namespace Live

theorem mono (h : W.Live b s c) (hb : b = true → b' = true) : W.Live b' s c :=
  h.imp_right fun h => h.imp_right fun h => h.imp_right fun h => ⟨hb h.1, h.2⟩

/-- A parse that goes on to be live was live. -/
theorem back (h : W.Live b s' c') (hon : Onward W.left.text s c s' c') : W.Live b s c := by
  refine h.imp_right fun ⟨herror, hc⟩ => ⟨fun he => herror (hon.hasError he), ?_⟩
  have hpos := hon.stands.le_pos
  have hfront := hon.stands.pos_le_front
  rcases hon.moved with rfl | hmoved | ⟨-, he⟩
  · have := hon.front_le
    rcases hc with hlt | hend
    · exact .inl (by omega)
    · exact .inr hend
  · refine .inl ?_
    rcases hc with hlt | ⟨-, rfl⟩ <;> omega
  · exact absurd he herror

/-- A parse that goes on to read a token and to be live had that token before it. -/
theorem inner (h : W.Live true s' c') (hon : Onward W.left.text s c s' c') (hlt : c < c') :
    W.Live b s c := by
  refine h.imp_right fun ⟨herror, hc⟩ => ⟨fun he => herror (hon.hasError he), .inl ?_⟩
  have hpos := hon.stands.le_pos
  have hfront := hon.stands.pos_le_front
  have := hon.stop_lt hlt herror
  rcases hc with hlt | ⟨-, rfl⟩ <;> omega

theorem inside_front (h : W.Live false s c) : W.Inside (s.front W.left.text c) := by
  rcases h with hw | ⟨-, hlt | ⟨hb, -⟩⟩
  · exact .inr hw
  · exact .inl hlt
  · cases hb

theorem inside (h : W.Live false s c) (hs : Stands W.left.text s c) : W.Inside s.pos :=
  h.inside_front.imp_left fun _ => Nat.lt_of_le_of_lt hs.pos_le_front ‹_›

theorem le_stop (h : W.Live b s c) (hs : Stands W.left.text s c) : c ≤ W.stop ∨ W.whole = true := by
  have := hs.le_pos
  have := hs.pos_le_front
  rcases h with hw | ⟨-, hlt | ⟨-, rfl⟩⟩
  · exact .inr hw
  · exact .inl (by omega)
  · exact .inl (Nat.le_refl _)

end Live

/-! ### Parses abreast -/

/-- The two parses have come to corresponding places. -/
structure Abreast (W : Overlap) (s : State) (c : Nat) (t : State) : Prop where
  stands : Stands W.right.text t (W.place c)
  mode_eq : t.mode = s.mode
  skipped : t.triviaEnd = some t.pos ↔ s.triviaEnd = some s.pos
  pending : W.Inside s.pos → t.pending = s.pending.map (DocComment.placed W.shift)
  errors : t.errors = s.errors.map (Diagnostic.placed W.shift)

/-- The left parse stands in the stretch, and both parses are in the mode. -/
structure Linked (W : Overlap) (mode : Mode) (s : State) (c : Nat) (t : State) : Prop where
  lo_le : W.lo ≤ c
  stands : Stands W.left.text s c
  mode_eq : s.mode = mode
  mode_right : t.mode = mode

/-- The right parse is abreast of the left one, if that is live. -/
def Joined (W : Overlap) (b : Bool) (s : State) (c : Nat) (t : State) : Prop :=
  W.Live b s c → W.Abreast s c t

namespace Abreast

variable (h : W.Abreast s c t) (hlo : W.lo ≤ c) (hs : Stands W.left.text s c)
include h hlo hs

/-- Inside the stretch the two cursors are at corresponding places. -/
theorem pos_eq (hi : W.Inside s.pos) : t.pos = W.place s.pos := by
  by_cases hend : s.triviaEnd = some s.pos
  · have hpos := (hs.of_skipped hend).1
    rw [hpos] at hi ⊢
    rw [(h.stands.of_skipped (h.skipped.2 hend)).1, skipEnd_place hlo hi]
  · rw [hs.of_fresh hend, h.stands.of_fresh fun hend' => hend (h.skipped.1 hend')]

omit hlo hs in
/-- Where a token has just ended the two cursors are at corresponding places. -/
theorem pos_eq_of_fresh (hfresh : Arrived s c) : t.pos = W.place c :=
  h.stands.of_fresh fun hend => hfresh.2 (h.skipped.1 hend)

/-- While the left parse is live the two cursors are at corresponding places, or both of them are
behind the stretch and the trivia that follow. -/
theorem pos_cases (hlive : W.Live true s c) :
    (s.pos ≤ W.stop ∨ W.whole = true) ∧ t.pos = W.place s.pos ∨
      W.whole = false ∧ s.pos = skipEnd W.left.text W.stop ∧
        t.pos = skipEnd W.right.text (W.place W.stop) := by
  have hfront := hs.pos_le_front
  rcases hlive with hw | ⟨-, hlt | ⟨-, rfl⟩⟩
  · exact .inl ⟨.inr hw, h.pos_eq hlo hs (.inr hw)⟩
  · exact .inl ⟨.inl (by omega), h.pos_eq hlo hs (.inl (by omega))⟩
  · by_cases hend : s.triviaEnd = some s.pos
    · rcases Bool.eq_false_or_eq_true W.whole with hw | hw
      · exact .inl ⟨.inr hw, h.pos_eq hlo hs (.inr hw)⟩
      · exact .inr ⟨hw, (hs.of_skipped hend).1,
          (h.stands.of_skipped (h.skipped.2 hend)).1⟩
    · have hpos := hs.of_fresh hend
      refine .inl ⟨.inl (Nat.le_of_eq hpos), ?_⟩
      rw [hpos, h.stands.of_fresh fun hend' => hend (h.skipped.1 hend')]

end Abreast

/-! ### What is found at the cursors -/

/-- Two parses that are abreast while the left one is live. -/
structure Together (W : Overlap) (b : Bool) (s : State) (c : Nat) (t : State) : Prop where
  lo_le : W.lo ≤ c
  stands : Stands W.left.text s c
  live : W.Live b s c
  abreast : W.Abreast s c t

/-- A character that is not the last one of a construct has another one of the stretch behind
it. -/
theorem inside_succ {i : Nat} (hi : W.Inside i) (hnot : endsToken (charAt W.left.text i) = false) :
    W.Inside (i + 1) := by
  rcases Bool.eq_false_or_eq_true W.whole with hw | hw
  · exact .inr hw
  · have hlt : i < W.stop := hi.resolve_right (by simp [hw])
    refine .inl (Nat.lt_of_le_of_ne hlt fun heq => ?_)
    have hends := (W.cut hw).2.1.tokenEnd.endsToken
    rw [← heq, Nat.add_sub_cancel, hnot] at hends
    exact Bool.false_ne_true hends

namespace Together

theorem mono (h : W.Together b s c t) (hb : b = true → b' = true) : W.Together b' s c t :=
  ⟨h.lo_le, h.stands, h.live.mono hb, h.abreast⟩

theorem lo_le_pos (h : W.Together b s c t) : W.lo ≤ s.pos := Nat.le_trans h.lo_le h.stands.le_pos

theorem pos_cases (h : W.Together b s c t) :
    (s.pos ≤ W.stop ∨ W.whole = true) ∧ t.pos = W.place s.pos ∨
      W.whole = false ∧ s.pos = skipEnd W.left.text W.stop ∧
        t.pos = skipEnd W.right.text (W.place W.stop) :=
  h.abreast.pos_cases h.lo_le h.stands (h.live.mono fun _ => rfl)

theorem pos_eq_of_fresh (h : W.Together b s c t) (hfresh : Arrived s c) : t.pos = W.place c :=
  h.abreast.pos_eq_of_fresh hfresh

theorem le_stop (h : W.Together b s c t) : c ≤ W.stop ∨ W.whole = true := h.live.le_stop h.stands

/-! #### In the stretch -/

theorem inside (h : W.Together false s c t) : W.Inside s.pos := h.live.inside h.stands

theorem pos_eq (h : W.Together false s c t) : t.pos = W.place s.pos :=
  h.abreast.pos_eq h.lo_le h.stands h.inside

theorem charAt_add (h : W.Together false s c t) {n : Nat} (hi : W.Inside (s.pos + n)) :
    charAt W.right.text (t.pos + n) = charAt W.left.text (s.pos + n) := by
  have := h.lo_le_pos
  rw [h.pos_eq, ← place_add h.lo_le_pos, charAt_place (by omega) hi]

theorem charAt_eq (h : W.Together false s c t) :
    charAt W.right.text t.pos = charAt W.left.text s.pos :=
  @charAt_add _ _ _ _ h 0 h.inside

theorem matchesAt_eq (h : W.Together false s c t) {word : String}
    (hglued : glued word.toList = true) :
    matchesAt W.right.text word t.pos = matchesAt W.left.text word s.pos := by
  rw [h.pos_eq, matchesAt_place hglued h.lo_le_pos h.inside]

theorem wordAt_eq (h : W.Together false s c t) {word : String} (hword : isName word = true) :
    wordAt W.right.text word t.pos = wordAt W.left.text word s.pos := by
  rw [h.pos_eq, wordAt_place hword h.lo_le_pos h.inside]

theorem nameEnd_eq (h : W.Together false s c t) :
    skipWhile W.right.text continuesName t.pos =
      W.place (skipWhile W.left.text continuesName s.pos) := by
  rw [h.pos_eq]
  exact (nameEnd_place h.lo_le_pos h.inside fun _ hc => hc).1

theorem decide_size_le (h : W.Together false s c t) :
    decide (W.right.text.size ≤ t.pos) = decide (W.left.text.size ≤ s.pos) := by
  have := lt_size_place h.lo_le_pos h.inside
  rw [h.pos_eq, decide_eq_decide]
  omega

/-! #### Also where it ends -/

/-- A sign at the cursor of the left parse stands in the stretch. -/
theorem strict (h : W.Together b s c t) (hsign : isSign (charAt W.left.text s.pos) = true) :
    W.Together false s c t := by
  refine ⟨h.lo_le, h.stands, ?_, h.abreast⟩
  have hpoised := (h.stands.poised_of_opens (opensToken_of_isSign hsign)).pos_eq_front h.stands
  have hlive := h.live
  rcases Bool.eq_false_or_eq_true W.whole with hw | hw
  · exact .inl hw
  · obtain ⟨-, hleft, -, -⟩ := W.cut hw
    rcases hlive with hw' | ⟨herror, hlt | ⟨hb, rfl⟩⟩
    · exact .inl hw'
    · exact .inr ⟨herror, .inl hlt⟩
    · rcases h.pos_cases with ⟨hstop, hpos⟩ | ⟨-, hpos, -⟩
      · have hle := h.stands.le_pos
        have hstop := hstop.resolve_right (by simp [hw])
        have heq : s.pos = W.stop := by omega
        exact absurd (congrArg _ heq) (hleft.charAt_ne hsign).symm
      · exact absurd (congrArg _ hpos).symm (hleft.follows.charAt_ne hsign)

/-- The two cursors are in front of the same sign, or of none. -/
theorem charAt_sign (h : W.Together b s c t) {d : Char} (hd : isSign d = true) :
    charAt W.right.text t.pos = d ↔ charAt W.left.text s.pos = d := by
  rcases h.pos_cases with ⟨hstop, hpos⟩ | ⟨hw, hpos, hpos'⟩
  · rw [hpos, charAt_place_eq hd h.lo_le_pos hstop]
  · obtain ⟨-, hleft, hright, -⟩ := W.cut hw
    rw [hpos, hpos']
    exact iff_of_false (hright.follows.charAt_ne hd) (hleft.follows.charAt_ne hd)

theorem charAt_beq (h : W.Together b s c t) {d : Char} (hd : isSign d = true) :
    (charAt W.right.text t.pos == d) = (charAt W.left.text s.pos == d) := by
  rw [Bool.eq_iff_iff, beq_iff_eq, beq_iff_eq, h.charAt_sign hd]

theorem matchesAt_mark (h : W.Together b s c t) {word : String} (hmark : isMark word = true) :
    matchesAt W.right.text word t.pos = matchesAt W.left.text word s.pos := by
  rcases h.pos_cases with ⟨hstop, hpos⟩ | ⟨hw, hpos, hpos'⟩
  · rw [hpos, Overlap.matchesAt_mark hmark h.lo_le_pos hstop]
  · obtain ⟨-, hleft, hright, -⟩ := W.cut hw
    rw [hpos, hpos', hleft.follows.matchesAt_mark hmark]
    exact hright.follows.matchesAt_mark hmark

/-- Behind trivia, where a token stands with which no declaration begins, and which does not run on
from one declaration into another. -/
theorem matchesAt_of_skipped (h : W.Together b s c t) {word : String}
    (hglued : glued word.toList = true)
    (hfirst : word.toList.head?.any (fun c => !beginsDeclaration c && c != '\x00') = true)
    (hskipped : s.triviaEnd = some s.pos) :
    matchesAt W.right.text word t.pos = matchesAt W.left.text word s.pos := by
  have hpos := (h.stands.of_skipped hskipped).1
  have hpos' := (h.abreast.stands.of_skipped (h.abreast.skipped.2 hskipped)).1
  have hinside (h : W.Together false s c t) :
      matchesAt W.right.text word t.pos = matchesAt W.left.text word s.pos := h.matchesAt_eq hglued
  have hnone {text : Array Char} {i : Nat} (hfollows : Follows text i) :
      matchesAt text word i = false := by
    obtain ⟨first, hhead, hnot⟩ := (Option.any_eq_true _ _).1 hfirst
    rw [List.head?_eq_getElem?] at hhead
    rw [Bool.and_eq_true, Bool.not_eq_true', bne_iff_ne] at hnot
    refine Bool.eq_false_iff.2 fun hmatch => ?_
    have hchar := charAt_of_matchesAt hmatch hhead
    rw [Nat.add_zero] at hchar
    rcases hfollows with hsize | ⟨hbegins, -⟩
    · exact hnot.2 (hchar.symm.trans (charAt_of_size_le hsize))
    · rw [hchar, hnot.1] at hbegins
      exact Bool.false_ne_true hbegins
  rcases h.live with hw | ⟨herror, hlt | ⟨hb, rfl⟩⟩
  · exact hinside ⟨h.lo_le, h.stands, .inl hw, h.abreast⟩
  · exact hinside ⟨h.lo_le, h.stands, .inr ⟨herror, .inl hlt⟩, h.abreast⟩
  · rcases Bool.eq_false_or_eq_true W.whole with hw | hw
    · exact hinside ⟨h.lo_le, h.stands, .inl hw, h.abreast⟩
    · obtain ⟨-, hleft, hright, -⟩ := W.cut hw
      rw [hpos, hpos', hnone hleft.follows]
      exact hnone hright.follows

/-- A word of which it is known that it does not go on with a construct where a declaration
ends. -/
theorem wordAt_of_skipped (h : W.Together b s c t) {word : String} (hword : isName word = true)
    (hskipped : s.triviaEnd = some s.pos)
    (hend : W.whole = false →
      wordAt W.right.text word (skipEnd W.right.text (W.place W.stop)) = true →
      wordAt W.left.text word (skipEnd W.left.text W.stop) = true)
    (hnot : wordAt W.left.text word s.pos = false) : wordAt W.right.text word t.pos = false := by
  have hpos := (h.stands.of_skipped hskipped).1
  have hpos' := (h.abreast.stands.of_skipped (h.abreast.skipped.2 hskipped)).1
  rcases h.live with hw | ⟨herror, hlt | ⟨hb, rfl⟩⟩
  · have h : W.Together false s c t := ⟨h.lo_le, h.stands, .inl hw, h.abreast⟩
    rw [h.wordAt_eq hword, hnot]
  · have h : W.Together false s c t := ⟨h.lo_le, h.stands, .inr ⟨herror, .inl hlt⟩, h.abreast⟩
    rw [h.wordAt_eq hword, hnot]
  · rcases Bool.eq_false_or_eq_true W.whole with hw | hw
    · have h : W.Together false s W.stop t := ⟨h.lo_le, h.stands, .inl hw, h.abreast⟩
      rw [h.wordAt_eq hword, hnot]
    · rw [hpos', ← Bool.not_eq_true]
      intro hright
      have := hend hw hright
      rw [← hpos, hnot] at this
      exact Bool.false_ne_true this

end Together

/-- While the left parse is live the two cursors are at corresponding places of the stretch. -/
def Sited (W : Overlap) (s : State) (c : Nat) : Prop :=
  ∀ t, W.Together true s c t → t.pos = W.place s.pos ∧ (s.pos ≤ W.stop ∨ W.whole = true)

theorem Sited.of_inside (h : ∀ t, W.Together true s c t → W.Inside s.pos) : W.Sited s c :=
  fun t ht => ⟨ht.abreast.pos_eq ht.lo_le ht.stands (h t ht), (h t ht).imp_left Nat.le_of_lt⟩

end Overlap

theorem Arrived.sited {W : Overlap} (h : Arrived s c) : W.Sited s c := by
  intro t ht
  rw [ht.pos_eq_of_fresh h, h.1]
  exact ⟨rfl, ht.le_stop⟩

end PklSyntax
