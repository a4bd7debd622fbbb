import PklSyntax.Grammar.Type
import PklSyntax.Proofs.Documentation.Basic
import PklSyntax.Proofs.Growth.Basic
import PklSyntax.Proofs.Layout.Token
import PklSyntax.Proofs.Reading.Leaves

/-!
# What stands directly behind what

The arguments of a generic type begin where its name ends, the predicates of a constrained type
where the type ends that they are about, and so does the mark of a nullable type, except that trivia
may stand between a function type and its mark. A literal with a unit has its point directly behind
the amount; only trivia may stand between the point and the unit. The arguments of a call begin where
the name ends, or behind the sign that follows `read`. A `[` that selects an element and a `-` between
two operands stand on the line on which ends what is in front of them, though not directly behind it.
Between the members of an object stand the doc comments that they have.

These are properties of single nodes, given the text. That all nodes of a tree have them is shown
along the productions; here are the properties, with what the smallest parsers leave behind.

## Main definitions

* `TriviaTo`: what may lie between the cursor before and behind a skip.
* `SameLine`: what may lie between two parts of an expression that line breaks keep apart.
* `TypeExpr.Joined`, `Expr.Joined`, `Node.Joined`: the parts of a node adjoin as they should.
* `Node.WellJoined`: those of all nodes of a tree do.

## Main statements

* `Node.wellJoined_iff`: a tree is well-joined when its root is joined and its children are.
* `Parser.accept?_at`, `Parser.expect_at`: where a token stands.
* `Parser.expect_leaves`, `Parser.identifier_leaves`, `Parser.qualifiedName_leaves`: tokens and
  names end at the cursor.
-/

namespace PklSyntax

variable {text : Array Char}

/-! ### Trivia up to the cursor -/

/-- Only trivia lie between the two offsets, unless the second one is the end of the text, which a
comment that is not closed may have reached. -/
structure TriviaTo (text : Array Char) (i j : Nat) : Prop where
  le : i ≤ j
  run : j < text.size → TriviaRun text i j

namespace TriviaTo

variable {i j k : Nat}

theorem refl (i : Nat) : TriviaTo text i i := ⟨Nat.le_refl i, fun _ => .nil i⟩

theorem trans (h : TriviaTo text i j) (h' : TriviaTo text j k) : TriviaTo text i k where
  le := Nat.le_trans h.le h'.le
  run hk := (h.run (Nat.lt_of_le_of_lt h'.le hk)).trans (h'.run hk)

end TriviaTo

theorem triviaTo_skipEnd (text : Array Char) (i : Nat) : TriviaTo text i (skipEnd text i) := by
  refine ⟨le_skipEnd i, ?_⟩
  induction i using trivia_induction text with
  | stop i h =>
    intro _
    rw [skipEnd_of_none h]
    exact .nil i
  | item i item h ih =>
    rw [skipEnd_of_some h]
    intro hlt
    cases hd : item.diagnostic? with
    | none => exact ((triviaAt?_spec h).2.2 hd).trans (ih hlt)
    | some d =>
      -- The comment reaches to the end of the text, and nothing comes behind that.
      rw [(triviaAt?_unclosed h hd).2, skipEnd_of_none (triviaAt?_size_le (Nat.le_refl _))] at hlt
      exact absurd hlt (Nat.lt_irrefl _)

/-- There are only trivia without a line feed from where something ends up to the offset. -/
def SameLine (text : Array Char) (stop : Int) (i : Nat) : Prop :=
  ∃ j : Nat, stop = j ∧ TriviaRun text j i ∧ ∀ k, j ≤ k → k < i → charAt text k ≠ '\n'

theorem ne_lineFeed_of_hasLineFeed {i j k : Nat} (h : hasLineFeed text i j = false) (hik : i ≤ k)
    (hkj : k < j) : charAt text k ≠ '\n' := by
  intro hfeed
  have hlt : k < text.size := lt_size_of_charAt_ne (by rw [hfeed]; decide)
  rw [charAt_of_lt hlt] at hfeed
  rw [hasLineFeed, ← Bool.not_eq_true, Array.contains_iff_mem, Array.mem_extract_iff_getElem] at h
  exact h ⟨k - i, by omega, by simpa [Nat.add_sub_cancel' hik] using hfeed⟩

/-- Up to the cursor there are only trivia behind the last token. -/
theorem Stands.triviaTo {s : State} {c : Nat} (h : Stands text s c) : TriviaTo text c s.pos := by
  rcases h.place with ⟨hpos, -⟩ | ⟨-, hpos, -⟩
  · rw [hpos]
    exact .refl c
  · rw [hpos]
    exact triviaTo_skipEnd text c

theorem Stands.sameLine {s : State} {c : Nat} {stop : Int} (h : Stands text s c) (hstop : stop = c)
    (hlt : s.pos < text.size) (hline : hasLineFeed text stop.toNat s.pos = false) :
    SameLine text stop s.pos := by
  subst hstop
  exact ⟨c, rfl, h.triviaTo.run hlt, fun k => ne_lineFeed_of_hasLineFeed hline⟩

/-! ### Nodes -/

/-- The suffixes of a type stand where it ends. Between a function type and the mark behind it there
may be trivia, for its result is read like a type of its own. -/
def TypeExpr.Joined (text : Array Char) : TypeExpr → Prop
  | generic base _ _ => ∃ i : Nat, base.span.stop = i ∧ charAt text i = '<'
  | constrained base _ _ => ∃ i : Nat, base.span.stop = i ∧ charAt text i = '('
  | nullable inner _ => ∃ i j : Nat, inner.span.stop = i ∧ charAt text j = '?' ∧
      TriviaRun text i j ∧ (Grammar.isFunctionType inner = false → i = j)
  | _ => True

/-- The symbol of a unit with a point in front of it stands behind an amount. The point begins where
the amount ends; between it and the symbol there may be trivia. -/
def UnitBehind (text : Array Char) (amount : Span) (symbol : String) (whole : Span) : Prop :=
  ∃ i j k : Nat, amount.stop = i ∧ charAt text i = '.' ∧ TriviaRun text (i + 1) j ∧ j ≤ k ∧
    sliceOf text j k = symbol ∧ whole = amount.cover (.ofNat j k)

/-- The number of characters between the callee and its arguments. -/
def CallKind.signLength : CallKind → Nat
  | identifier => 0
  | nullableRead | globbedRead => 1

/-- The arguments of a call begin where the callee ends, or behind the sign that follows it. -/
def Call.Joined (text : Array Char) (c : Call) : Prop :=
  ∃ i : Nat, c.callee.span.stop + c.kind.signLength = i ∧ charAt text i = '(' ∧
    ∀ arg ∈ c.args, (i : Int) < arg.span.start

/-- The bracket of an access stands on the line on which ends what is accessed. -/
def Access.Joined (text : Array Char) (stop : Int) : Access → Prop
  | bracket _ span => ∃ i : Nat, span.start = i ∧ charAt text i = '[' ∧ SameLine text stop i
  | _ => True

/-- A unit stands behind its amount, and what line breaks separate stands on one line. -/
def Expr.Joined (text : Array Char) : Expr → Prop
  | duration amount unit span => UnitBehind text amount.span unit.symbol span
  | dataSize amount unit span => UnitBehind text amount.span unit.symbol span
  | call c => c.Joined text
  | index target access _ => access.Joined text target.span.stop
  | binary left op right _ => op = .subtract →
      ∃ i : Nat, charAt text i = '-' ∧ SameLine text left.span.stop i ∧ i < right.span.start
  | _ => True

namespace Node

/-- The parts of the node stand in the text as its kind has it. -/
def Joined (text : Array Char) : Node → Prop
  | type t => t.Joined text
  | expr e => e.Joined text
  | call c => c.Joined text
  | objectBody body => body.Documented text
  | _ => True

/-- The parts of all nodes of the tree do. -/
def WellJoined (text : Array Char) (n : Node) : Prop := ∀ m ∈ n.walk, m.Joined text

theorem wellJoined_iff (n : Node) :
    n.WellJoined text ↔ n.Joined text ∧ ∀ child ∈ n.children, child.WellJoined text :=
  n.forall_mem_walk_iff

theorem WellJoined.of_children {n : Node} (hn : n.Joined text)
    (hchildren : ∀ child ∈ n.children, child.WellJoined text) : n.WellJoined text :=
  n.wellJoined_iff.2 ⟨hn, hchildren⟩

/-- A node with the same fields as a well-joined one is well-joined when its own parts are joined.
-/
theorem WellJoined.recast {n m : Node} (h : n.WellJoined text) (hm : m.Joined text)
    (hfields : m.fields = n.fields) : m.WellJoined text := by
  refine .of_children hm ?_
  rw [children, hfields]
  exact (n.wellJoined_iff.1 h).2

@[simp] theorem wellJoined_identifier (name : Identifier) : (identifier name).WellJoined text :=
  .of_children trivial (by simp [children, fields, Identifier.fields])

@[simp] theorem wellJoined_docComment (doc : DocComment) : (docComment doc).WellJoined text :=
  .of_children trivial (by simp [children, fields, DocComment.fields])

@[simp] theorem wellJoined_number (literal : NumberLiteral) :
    (number literal).WellJoined text := by
  refine .of_children trivial ?_
  cases literal <;> simp [children, fields, NumberLiteral.fields]

@[simp] theorem wellJoined_namedType (type : NamedType) : (namedType type).WellJoined text :=
  .of_children trivial (by simp [children, fields, NamedType.fields])

end Node

namespace Parser

variable {ctx : Context} {s : State}

/-! ### Where steps leave the cursor -/

theorem moveTo_leaves (pos : Nat) : (moveTo pos).Leaves Anywhere ctx s fun _ s' => s'.pos = pos where
  of_ok _ hrun := by
    cases hrun
    exact ⟨trivial, rfl⟩

theorem advance_leaves (n : Nat) :
    (advance n).Leaves Anywhere ctx s fun _ s' => s'.pos = min ctx.text.size (s.pos + n) :=
  .look theText_looks (.look position_looks (moveTo_leaves _))

/-- Over a character that stands there the cursor moves on by one. -/
theorem advance_one_leaves (h : charAt ctx.text s.pos ≠ '\x00') :
    (advance 1).Leaves Anywhere ctx s fun _ s' => s'.pos = s.pos + 1 := by
  apply (advance_leaves 1).mono
  intro _ s' hpos
  have := lt_size_of_charAt_ne h
  omega

theorem report_leaves (problem : Problem) (span : Span) :
    (report problem span).Leaves Anywhere ctx s fun _ s' => s'.pos = s.pos where
  of_ok _ hrun := by
    cases hrun
    exact ⟨trivial, rfl⟩

theorem rewind_leaves (c : Checkpoint) : (rewind c).Leaves Anywhere ctx s fun _ s' => s'.pos = c.pos where
  of_ok _ hrun := by
    cases hrun
    exact ⟨trivial, rfl⟩

theorem skip_leaves : skip.Leaves Anywhere ctx s fun _ s' => TriviaTo ctx.text s.pos s'.pos where
  of_ok {_ s'} _ hrun := by
    obtain rfl : s.skipTrivia ctx.text = s' := by
      cases hrun
      rfl
    refine ⟨trivial, ?_⟩
    rw [State.skipTrivia]
    split
    · exact .refl _
    · exact triviaTo_skipEnd ctx.text s.pos

/-! ### Tokens -/

theorem atToken_leaves (token : String) :
    (atToken token).Leaves Anywhere ctx s fun found s' =>
      TriviaTo ctx.text s.pos s'.pos ∧ found = matchesAt ctx.text token s'.pos :=
  skip_leaves.bind fun _ _ hskip => .value (startsWith_looks token) ⟨hskip, rfl⟩

/-- A token ends at the cursor. -/
theorem takeToken_leaves (length : Nat) :
    (takeToken length).Leaves Anywhere ctx s fun span s' => span.stop = s'.pos :=
  .look position_looks (.after fun _ _ => .value (spanFrom_looks _) rfl)

theorem accept?_leaves (token : String) :
    (accept? token).Leaves Anywhere ctx s fun span? s' => ∀ span ∈ span?, span.stop = s'.pos := by
  refine .after fun found s₁ => .ite (fun _ => ?_) fun _ => ?_
  · apply (takeToken_leaves _).bind
    intro span s₂ hspan
    apply Leaves.pure
    simpa using hspan
  · apply Leaves.pure
    simp

theorem expect_leaves (token : String) :
    (expect token).Leaves Anywhere ctx s fun span s' => span.stop = s'.pos := by
  apply (accept?_leaves token).bind
  intro span? s₁ hspan
  cases span? with
  | some span => exact .pure (hspan span rfl)
  | none => exact failExpected_leaves

/-- A token that is accepted stands behind trivia, and the cursor behind the token. Otherwise the
cursor stands behind the trivia. -/
theorem accept?_at {token : String} (hne : token ≠ "") :
    (accept? token).Leaves Anywhere ctx s fun span? s' => ∃ i, TriviaTo ctx.text s.pos i ∧
      span?.elim (s'.pos = i) fun span => matchesAt ctx.text token i = true ∧ span.start = i ∧
        s'.pos = i + token.length := by
  apply (atToken_leaves token).bind
  rintro found s₁ ⟨htrivia, rfl⟩
  apply Leaves.ite
  · intro hmatch
    have hsize := add_length_le_of_matchesAt hmatch hne
    apply Leaves.bind (P := fun (span : Span) s' =>
      span.start = s₁.pos ∧ s'.pos = s₁.pos + token.length)
    · refine .look position_looks ((advance_leaves _).bind fun _ s₂ hpos => ?_)
      exact .value (spanFrom_looks _) ⟨rfl, by omega⟩
    · rintro span s₂ ⟨hstart, hpos⟩
      exact .pure ⟨s₁.pos, htrivia, hmatch, hstart, hpos⟩
  · intro _
    exact .pure ⟨s₁.pos, htrivia, rfl⟩

theorem accept_at {token : String} (hne : token ≠ "") :
    (accept token).Leaves Anywhere ctx s fun found s' =>
      found = false → TriviaTo ctx.text s.pos s'.pos := by
  apply (accept?_at hne).bind
  rintro span? s₁ ⟨i, htrivia, hpos⟩
  apply Leaves.pure
  intro hnone
  rw [Option.isSome_eq_false_iff, Option.isNone_iff_eq_none] at hnone
  rw [hnone, Option.elim_none] at hpos
  exact hpos ▸ htrivia

theorem expect_at {token : String} (hne : token ≠ "") :
    (expect token).Leaves Anywhere ctx s fun span s' => ∃ i, TriviaTo ctx.text s.pos i ∧
      matchesAt ctx.text token i = true ∧ span.start = i ∧ s'.pos = i + token.length := by
  apply (accept?_at hne).bind
  rintro span? s₁ ⟨i, htrivia, hpos⟩
  cases span? with
  | some span => exact .pure ⟨i, htrivia, hpos⟩
  | none => exact failExpected_leaves

theorem acceptKeyword_at {word : String} :
    (acceptKeyword word).Leaves Anywhere ctx s fun found s' =>
      found = false → TriviaTo ctx.text s.pos s'.pos := by
  apply Leaves.bind (P := fun _ s' => TriviaTo ctx.text s.pos s'.pos)
  · exact skip_leaves.bind fun _ _ htrivia => .value (atWord_looks word) htrivia
  · intro found s₁ htrivia
    exact .ite (fun _ => .after fun _ _ => .pure nofun) fun _ => .pure fun _ => htrivia

/-! ### Names -/

/-- How a name that was read between two offsets lies in the text. One without backticks is the text
between them. -/
structure NameBetween (text : Array Char) (start : Nat) (name : Identifier) (stop : Nat) :
    Prop where
  start_eq : name.span.start = start
  stop_eq : name.span.stop = stop
  plain : name.kind = .plain → start < text.size ∧ start ≤ stop ∧ name.span = .ofNat start stop ∧
    name.name = sliceOf text start stop

theorem quotedIdentifier_leaves :
    quotedIdentifier.Leaves Anywhere ctx s fun name s' => NameBetween ctx.text s.pos name s'.pos := by
  refine .look theText_looks (.look position_looks (.ite (fun _ => ?_) fun _ => failWith_leaves))
  apply (moveTo_leaves _).bind
  intro _ s₁ _
  exact .look (slice_looks _ _) (.look (spanFrom_looks _) (.pure ⟨rfl, rfl, nofun⟩))

theorem identifier?_leaves :
    identifier?.Leaves Anywhere ctx s fun name? s' =>
      ∀ name ∈ name?, NameBetween ctx.text s.pos name s'.pos := by
  refine .look peek_looks (.ite (fun _ => ?_) fun _ => .ite (fun hstart => ?_) fun _ => ?_)
  · apply quotedIdentifier_leaves.bind
    intro name s₁ hname
    apply Leaves.pure
    simpa using hname
  · refine .look position_looks (.look wordEnd_looks ?_)
    apply (moveTo_leaves _).bind
    intro _ s₁ hpos
    refine .look (sliceFrom_looks _) (.look (spanFrom_looks _) (.pure ?_))
    rintro _ ⟨⟩
    refine ⟨rfl, rfl, fun _ => ⟨?_, ?_, rfl, rfl⟩⟩
    · exact lt_size_of_charAt_ne (ne_nul_of_continuesName (continuesName_of_startsName hstart))
    · rw [hpos]
      exact le_skipWhile _ _ _
  · apply Leaves.pure
    simp

theorem identifier_leaves (what : String) :
    (identifier what).Leaves Anywhere ctx s fun name s' => NameBetween ctx.text s.pos name s'.pos := by
  apply identifier?_leaves.bind
  intro name? s₁ hname
  cases name? with
  | some name => exact .pure (hname name rfl)
  | none => exact failExpected_leaves

/-- A name ends at the cursor. -/
theorem expectName_leaves {what : String} :
    (expectName what).Leaves Anywhere ctx s fun name s' => name.span.stop = s'.pos := by
  refine .after fun _ _ => (identifier_leaves what).bind fun name s₁ hname => ?_
  exact .guard failWith_leaves fun _ => .pure hname.stop_eq

/-- A name of several parts ends at the cursor. -/
theorem qualifiedName_leaves (what : String) :
    (qualifiedName what).Leaves Anywhere ctx s fun type s' => type.span.stop = s'.pos := by
  apply (identifier_leaves what).bind
  intro first s₁ hfirst
  apply Leaves.bind (P := fun path s' => (path.back?.getD first).span.stop = (s'.pos : Int))
  · apply Leaves.repeating fun path s' => (path.back?.getD first).span.stop = (s'.pos : Int)
    · exact hfirst.stop_eq
    · intro path s₂ hpath
      refine .look atPathStep_looks (.ite (fun _ => ?_) fun _ => .pure hpath)
      apply Leaves.after
      intro _ s₃
      apply (identifier_leaves what).bind
      intro name s₄ hname
      apply Leaves.pure
      rw [Round.Meets, Array.back?_push, Option.getD_some]
      exact hname.stop_eq
  · intro path s₂ hpath
    exact .pure hpath

end Parser

end PklSyntax
