import PklSyntax.Proofs.Adjacency.Basic
import PklSyntax.Proofs.Upkeep.Steady

/-!
# Suffixes of types

An atom ends at the cursor, unless it is a function type: the result of that was read like a type of
its own, and so the trivia behind it have been skipped. A suffix that is found at the cursor thus
stands where the type in front of it ends, or behind the trivia that follow a function type. No
predicates are read behind a function type, so that only a mark of a nullable type can stand there.

## Main definitions

* `TypeExpr.EndsBefore`, `TypeExpr.EndsAt`: where a type ends of which the cursor stands behind.
* `Grammar.Joins`: the grammar for what stands inside gives well-joined trees.

## Main statements

* `Parser.stringLiteral_leaves`: a string is well-joined when its interpolations are.
* `Grammar.Joins.typeSuffix`: a suffix stands where the type in front of it ends.
* `Grammar.Joins.typeRule`: a type is well-joined when what stands inside it is.
-/

namespace PklSyntax

/-! ### Strings -/

/-- The segments that have been read are well-joined. -/
def StringBody.WellJoined (text : Array Char) (body : StringBody) : Prop :=
  ∀ segment ∈ body.segments.toList, (Node.segment segment).WellJoined text

theorem Node.wellJoined_text {text : Array Char} (content : String) (span : Span) :
    (segment (.text content span)).WellJoined text :=
  .of_children trivial (by simp [children, fields, Segment.fields])

theorem Node.wellJoined_escape {text : Array Char} (value : Char) (span : Span) :
    (segment (.escape value span)).WellJoined text :=
  .of_children trivial (by simp [children, fields, Segment.fields])

namespace Parser

variable {ctx : Context} {s : State} {quotes : Quotes} {interpolate : Parser Expr}
  {body : StringBody}

/-- The cursor is moved on within the text. -/
theorem moveTo_steady {pos : Nat} (hle : s.pos ≤ pos) (hsize : pos ≤ ctx.text.size) :
    (moveTo pos).Leaves Steady ctx s fun _ s' => s'.pos = pos where
  of_ok hs hrun := by
    cases hrun
    exact ⟨hs.moveTo hle hsize, rfl⟩

theorem flush_leaves (hbody : body.WellJoined ctx.text) :
    (flush body).Leaves Steady ctx s fun body s' => body.WellJoined ctx.text ∧ s' = s := by
  refine .look position_looks (.ite (fun _ => ?_) fun _ => .pure ⟨hbody, rfl⟩)
  refine .look (sliceFrom_looks _) (.pure ⟨?_, rfl⟩)
  exact forall_mem_toList_push hbody (Node.wellJoined_text _ _)

/-- A string ends at the cursor. -/
theorem finishString_leaves (hbody : body.WellJoined ctx.text) {start stop : Nat}
    {indent : Option String} :
    (finishString quotes start stop body.segments indent).Leaves Steady ctx s fun literal s' =>
      (Node.string literal).WellJoined ctx.text ∧ literal.span.stop = s'.pos := by
  refine .look position_looks (.pure ⟨.of_children trivial ?_, rfl⟩)
  simpa [Node.children, Node.fields, StringLiteral.fields, StringBody.WellJoined] using hbody

variable (hexpr : ∀ s, interpolate.Leaves Steady ctx s fun e _ =>
  (Node.expr e).WellJoined ctx.text)

include hexpr

theorem interpolation_leaves :
    (interpolation interpolate).Leaves Steady ctx s fun e _ =>
      (Node.expr e).WellJoined ctx.text := by
  refine .inMode ?_ fun _ _ h => h
  refine .after fun _ s₁ => (hexpr s₁).bind fun e s₂ he => ?_
  refine .after fun _ s₃ => .after fun _ s₄ => .ite (fun _ => ?_) fun _ => ?_
  · apply Leaves.after
    intro pos s₅
    exact .never failWith_leaves
  · apply Leaves.after
    intro _ s₅
    exact .pure he

theorem escapeSequence_leaves :
    (escapeSequence quotes interpolate).Leaves Steady ctx s fun segment _ =>
      (Node.segment segment).WellJoined ctx.text := by
  refine .after fun start s₁ => .after fun _ s₂ => .after fun c s₃ => ?_
  split
  · exact .after fun _ _ => .after fun _ _ => .pure (Node.wellJoined_escape _ _)
  · apply Leaves.ite
    · intro _
      exact .after fun _ _ => .after fun _ _ => .after fun _ _ => .pure (Node.wellJoined_escape _ _)
    · intro _
      apply Leaves.ite
      · intro _
        refine .after fun _ s₄ => (interpolation_leaves hexpr).bind fun e s₅ he => ?_
        refine .after fun span s₆ => .pure (.of_children trivial ?_)
        simpa [Node.children, Node.fields, Segment.fields] using he
      · intro _
        exact .look position_looks (.look (slice_looks _ _) failWith_leaves)

/-- One step through a string adds a well-joined segment at most. -/
theorem stringStep_leaves (hbody : body.WellJoined ctx.text) {start : Nat} :
    (stringStep quotes start interpolate body).Leaves Steady ctx s fun round s' =>
      round.Meets (fun body => body.WellJoined ctx.text) fun literal =>
        (Node.string literal).WellJoined ctx.text ∧ literal.span.stop = s'.pos := by
  refine .look (closingLine?_looks quotes) ?_
  split
  · rename_i probe hprobe
    obtain ⟨hle, hquote, hfit⟩ := closingAt?_eq_some hprobe
    have hsize := (poundsFit.tokenEnd hquote hfit).1
    refine .look position_looks ((flush_leaves hbody).bind fun body s₁ hflush => ?_)
    obtain ⟨hbody, rfl⟩ := hflush
    refine .look (slice_looks _ _) ((moveTo_steady (by omega) hsize).bind fun _ s₂ _ => ?_)
    exact (finishString_leaves hbody).bind fun literal s₃ hliteral => .pure hliteral
  · refine .after fun pos _ => .after fun c _ => .after fun ended _ => .ite (fun _ => ?_)
      fun _ => ?_
    · exact failWith_leaves
    refine .after fun closes _ => .ite (fun _ => ?_) fun _ => ?_
    · refine (flush_leaves hbody).bind fun body _ hflush => .after fun _ _ => ?_
      apply (finishString_leaves hflush.1).bind
      intro literal _ hliteral
      exact .pure hliteral
    refine .after fun escapes _ => .ite (fun _ => ?_) fun _ => ?_
    · refine (flush_leaves hbody).bind fun body _ hflush => ?_
      refine (escapeSequence_leaves hexpr).bind fun segment _ hsegment => .after fun pos _ => ?_
      exact .pure (forall_mem_toList_push hflush.1 hsegment)
    · apply Leaves.after
      intro _ _
      exact .pure hbody

theorem stringLiteral_leaves {styleWarnings : Bool} :
    (stringLiteral interpolate styleWarnings).Leaves Steady ctx s fun literal s' =>
      (Node.string literal).WellJoined ctx.text ∧ literal.span.stop = s'.pos := by
  refine .inMode (.of_holds fun hs => ?_) fun _ _ h => h
  obtain ⟨c, hc⟩ := hs.stands
  refine .look position_looks (.look theText_looks ((moveTo_steady (le_skipWhile _ _ _)
    (skipWhile_le_size _ _ hc.pos_le_size)).bind fun _ _ _ => ?_))
  refine .after fun multiline _ => .after fun _ _ => .after fun opening _ =>
    .option () fun _ _ => .after fun contentStart _ => ?_
  apply Leaves.repeating fun body _ => body.WellJoined ctx.text
  · simp [StringBody.WellJoined]
  · intro body s hbody
    exact stringStep_leaves hexpr hbody

end Parser

/-! ### Ends of types -/

namespace TypeExpr

/-- The type ends at the cursor, or in front of trivia up to the cursor. -/
def EndsBefore (text : Array Char) (type : TypeExpr) (pos : Nat) : Prop :=
  ∃ i : Nat, type.span.stop = i ∧ TriviaTo text i pos

/-- The type ends at the cursor, or it is a function type and ends in front of trivia up to the
cursor. -/
def EndsAt (text : Array Char) (type : TypeExpr) (pos : Nat) : Prop :=
  ∃ i : Nat, type.span.stop = i ∧ TriviaTo text i pos ∧
    (Grammar.isFunctionType type = false → i = pos)

variable {text : Array Char} {type : TypeExpr} {pos pos' : Nat}

theorem EndsAt.endsBefore (h : type.EndsAt text pos) : type.EndsBefore text pos :=
  h.imp fun _ h => ⟨h.1, h.2.1⟩

theorem endsAt_of_stop (h : type.span.stop = pos) : type.EndsAt text pos :=
  ⟨pos, h, .refl pos, fun _ => rfl⟩

theorem EndsBefore.skip (h : type.EndsBefore text pos) (hskip : TriviaTo text pos pos') :
    type.EndsBefore text pos' :=
  h.imp fun _ h => ⟨h.1, h.2.trans hskip⟩

theorem wellJoined_named (type : NamedType) : (Node.type (.named type)).WellJoined text :=
  (Node.wellJoined_namedType type).recast trivial rfl

/-- The type is well-joined whatever its span is. -/
theorem wellJoined_withSpan (h : (Node.type type).WellJoined text) (span : Span) :
    (Node.type (type.withSpan span)).WellJoined text := by
  have hjoined := ((Node.wellJoined_iff _).1 h).1
  cases type <;> exact h.recast hjoined rfl

end TypeExpr

/-! ### Types -/

/-- What the grammar gives is well-joined, and behind a type there are only trivia up to the
cursor. -/
structure Grammar.Joins (g : Grammar) (ctx : Context) : Prop where
  upkept : g.Upkept
  places : g.Places ctx
  expr : ∀ s, g.expr.Leaves Steady ctx s fun e _ => (Node.expr e).WellJoined ctx.text
  typeBefore : ∀ s, g.type.Leaves Steady ctx s fun t s' =>
    (Node.type t).WellJoined ctx.text ∧ t.EndsBefore ctx.text s'.pos
  body : ∀ s, g.body.Leaves Steady ctx s fun b _ => (Node.objectBody b).WellJoined ctx.text

namespace Grammar

open PklSyntax.Parser

variable {g : Grammar} {ctx : Context} {s : State} {base : TypeExpr}

theorem wellJoined_unionMembers {text : Array Char} (h : (Node.type base).WellJoined text) :
    ∀ m ∈ unionMembers base, (Node.type m).WellJoined text := by
  cases base with
  | union members span =>
    have hmembers := ((Node.wellJoined_iff _).1 h).2
    simpa [unionMembers, Node.children, Node.fields, TypeExpr.fields] using hmembers
  | _ => simpa [unionMembers] using h

namespace Joins

theorem type (hg : g.Joins ctx) (s : State) :
    g.type.Leaves Steady ctx s fun t _ => (Node.type t).WellJoined ctx.text :=
  (hg.typeBefore s).mono fun _ _ h => h.1

theorem string (hg : g.Joins ctx) :
    g.string.Leaves Steady ctx s fun literal s' =>
      (Node.string literal).WellJoined ctx.text ∧ literal.span.stop = s'.pos := by
  apply Leaves.after
  intro options s₁
  exact stringLiteral_leaves hg.expr

/-- The arguments begin where the name ends. -/
theorem typeArguments (hg : g.Joins ctx) {base : NamedType} (hbase : base.span.stop = s.pos)
    (hopen : charAt ctx.text s.pos = '<') :
    (g.typeArguments base).Leaves Steady ctx s fun t s' =>
      (Node.type t).WellJoined ctx.text ∧ t.EndsAt ctx.text s'.pos := by
  refine .after fun opening s₁ => (commaList_leaves hg.type).bind fun args s₂ hargs => ?_
  apply (expect_leaves _).under.bind
  intro close s₃ hclose
  apply Leaves.ite
  · intro _
    apply (report_leaves _ _).under.bind
    intro _ s₄ hpos
    refine .pure ⟨TypeExpr.wellJoined_named _, TypeExpr.endsAt_of_stop ?_⟩
    rw [hpos]
    exact hclose
  · intro _
    refine .pure ⟨.of_children ⟨s.pos, hbase, hopen⟩ ?_, TypeExpr.endsAt_of_stop hclose⟩
    simpa [Node.children, Node.fields, TypeExpr.fields] using hargs

/-- Where no arrow follows, the cursor does not move. -/
theorem arrowResult? (hg : g.Joins ctx) :
    g.arrowResult?.Leaves Steady ctx s fun result? s' =>
      (∀ result ∈ result?, (Node.type result).WellJoined ctx.text ∧
        result.EndsBefore ctx.text s'.pos) ∧ (result? = none → s'.pos = s.pos) := by
  refine .of_holds fun hs => .look mark_looks (.bind (.of_run fun _ _ _ h => h) fun _ s₁ hskip =>
    .look (startsWith_looks _) (.ite (fun _ => ?_) fun _ => ?_))
  · refine .after fun _ s₃ => (hg.typeBefore s₃).bind fun result s₄ hresult => .pure ?_
    simpa using hresult
  · refine .rewind (skip_grows.of_ok hskip).1.toKept.rewind hs (.pure ⟨by simp, fun _ => rfl⟩)

theorem parenthesizedType (hg : g.Joins ctx) :
    g.parenthesizedType.Leaves Steady ctx s fun t s' =>
      (Node.type t).WellJoined ctx.text ∧ t.EndsAt ctx.text s'.pos := by
  refine .after fun start s₁ => .after fun _ s₂ => ?_
  apply (commaList_leaves hg.type).bind
  intro params s₃ hparams
  apply (expect_leaves _).under.bind
  intro close s₄ hclose
  apply hg.arrowResult?.bind
  rintro result? s₅ ⟨hresult, hpos⟩
  cases result? with
  | some result =>
    obtain ⟨hjoined, i, hstop, htrivia⟩ := hresult result rfl
    refine .pure ⟨.of_children trivial ?_, i, hstop, htrivia, nofun⟩
    simpa [Node.children, Node.fields, TypeExpr.fields, or_imp, forall_and]
      using ⟨hparams, hjoined⟩
  | none =>
    dsimp only
    split
    · refine .pure ⟨TypeExpr.wellJoined_withSpan (hparams _ (List.mem_singleton_self _)) _, ?_⟩
      apply TypeExpr.endsAt_of_stop
      rw [TypeExpr.span_withSpan, hpos rfl]
      exact hclose
    · exact failExpected_leaves

theorem stringType (hg : g.Joins ctx) :
    g.stringType.Leaves Steady ctx s fun t s' =>
      (Node.type t).WellJoined ctx.text ∧ t.EndsAt ctx.text s'.pos := by
  apply hg.string.bind
  rintro literal s₁ ⟨hliteral, hstop⟩
  apply Leaves.guard failWith_leaves
  intro _
  refine .pure ⟨.of_children trivial ?_, TypeExpr.endsAt_of_stop hstop⟩
  simpa [Node.children, Node.fields, TypeExpr.fields] using hliteral

theorem typeAtom (hg : g.Joins ctx) :
    g.typeAtom.Leaves Steady ctx s fun t s' =>
      (Node.type t).WellJoined ctx.text ∧ t.EndsAt ctx.text s'.pos := by
  refine .look peek_looks (.ite (fun _ => hg.parenthesizedType) fun _ => ?_)
  refine .after fun quoted s₁ => .ite (fun _ => hg.stringType) fun _ => ?_
  refine .after fun named s₂ => .ite (fun _ => ?_) fun _ => failExpected_leaves
  apply (qualifiedName_leaves _).under.bind
  intro name s₃ hstop
  refine .look peek_looks (.ite (fun hopen => ?_) fun _ => ?_)
  · exact hg.typeArguments hstop (by simpa using hopen)
  · exact .pure ⟨TypeExpr.wellJoined_named name, TypeExpr.endsAt_of_stop hstop⟩

/-- The predicates begin where the type ends. -/
theorem constraints (hg : g.Joins ctx) (hbase : (Node.type base).WellJoined ctx.text)
    (hstop : base.span.stop = s.pos) (hopen : charAt ctx.text s.pos = '(') :
    (g.constraints base).Leaves Steady ctx s fun t s' =>
      (Node.type t).WellJoined ctx.text ∧ t.EndsAt ctx.text s'.pos := by
  refine .after fun _ s₁ => (hg.expr s₁).bind fun first s₂ hfirst => ?_
  apply (collect_leaves hg.expr (by simpa using hfirst)).bind
  intro predicates s₃ hpredicates
  apply (expect_leaves _).under.bind
  intro close s₄ hclose
  refine .pure ⟨.of_children ⟨s.pos, hstop, hopen⟩ ?_, TypeExpr.endsAt_of_stop hclose⟩
  simpa [Node.children, Node.fields, TypeExpr.fields] using ⟨hbase, by simpa using hpredicates⟩

/-- A suffix stands where the type in front of it ends, or behind trivia when that is a function
type. -/
theorem typeSuffix (hg : g.Joins ctx) (hbase : (Node.type base).WellJoined ctx.text)
    (hend : base.EndsAt ctx.text s.pos) :
    (g.typeSuffix base).Leaves Steady ctx s fun round s' => round.Meets
      (fun t => (Node.type t).WellJoined ctx.text ∧ t.EndsAt ctx.text s'.pos)
      fun t => (Node.type t).WellJoined ctx.text ∧ t.EndsAt ctx.text s'.pos := by
  obtain ⟨i, hstop, htrivia, hfunction⟩ := hend
  refine .look peek_looks (.look (peekAt_looks 1) (.ite (fun hmark => ?_) fun _ =>
    .ite (fun hopen => ?_) fun _ => .pure ⟨hbase, i, hstop, htrivia, hfunction⟩))
  · simp only [Bool.and_eq_true, beq_iff_eq] at hmark
    have hmark := hmark.1.1
    have hlt : s.pos < ctx.text.size := lt_size_of_charAt_ne (by rw [hmark]; decide)
    refine .after fun _ s₁ => .look position_looks (.pure ⟨?_, TypeExpr.endsAt_of_stop rfl⟩)
    refine .of_children ⟨i, s.pos, hstop, hmark, htrivia.run hlt, hfunction⟩ ?_
    simpa [Node.children, Node.fields, TypeExpr.fields] using hbase
  · simp only [Bool.and_eq_true, beq_iff_eq, Bool.not_eq_true'] at hopen
    obtain rfl := hfunction hopen.2
    exact (hg.constraints hbase hstop hopen.1).bind fun t s₁ ht => .pure ht

theorem typeSegment (hg : g.Joins ctx) :
    g.typeSegment.Leaves Steady ctx s fun t s' =>
      (Node.type t).WellJoined ctx.text ∧ t.EndsBefore ctx.text s'.pos := by
  refine .after fun _ s₁ => .after fun start s₂ => .after fun c s₃ => ?_
  -- The atom with its suffixes, behind the mark of a default or without one.
  have hatom (s : State) : (do
      let base ← g.typeAtom
      let type ← repeating g.typeSuffix base
      if c == '*' then return .default type ⟨start, type.span.stop⟩
      else return type : Parser TypeExpr).Leaves Steady ctx s fun t s' =>
        (Node.type t).WellJoined ctx.text ∧ t.EndsBefore ctx.text s'.pos := by
    apply hg.typeAtom.bind
    intro base s₄ hbase
    apply (Leaves.repeating (fun t s' => (Node.type t).WellJoined ctx.text ∧
      t.EndsAt ctx.text s'.pos) hbase fun t s' ht => hg.typeSuffix ht.1 ht.2).bind
    rintro t s₅ ⟨ht, hend⟩
    apply Leaves.ite
    · intro _
      refine .pure ⟨.of_children trivial ?_, hend.endsBefore⟩
      simpa [Node.children, Node.fields, TypeExpr.fields] using ht
    · intro _
      exact .pure ⟨ht, hend.endsBefore⟩
  apply Leaves.ite
  · intro _
    exact .after fun _ _ => .after fun _ _ => hatom _
  · intro _
    exact hatom _

/-- Behind the last member of a union only trivia have been skipped when no bar was found. -/
theorem atUnionBar_leaves :
    atUnionBar.Leaves Steady ctx s fun _ s' => TriviaTo ctx.text s.pos s'.pos := by
  apply (atToken_leaves _).under.bind
  rintro bar s₁ ⟨hskip, -⟩
  apply Leaves.ite
  · intro _
    exact .pure hskip
  · intro _
    refine .look (startsWith_looks _) (.ite (fun _ => .pure hskip) fun _ => ?_)
    exact .look (startsWith_looks _) (.pure hskip)

/-- What has been read of a union: its members, of which the last one ends in front of the
cursor. -/
structure MembersRead (ctx : Context) (first : TypeExpr) (members : Array TypeExpr) (pos : Nat) :
    Prop where
  joined : ∀ t ∈ members.toList, (Node.type t).WellJoined ctx.text
  last : (members.back?.getD first).EndsBefore ctx.text pos

theorem typeRule (hg : g.Joins ctx) :
    g.typeRule.Leaves Steady ctx s fun t s' =>
      (Node.type t).WellJoined ctx.text ∧ t.EndsBefore ctx.text s'.pos := by
  refine .after fun _ s₁ => .after fun start s₂ => hg.typeSegment.bind fun first s₃ hfirst => ?_
  apply Leaves.bind (P := fun members s' => MembersRead ctx first members s'.pos)
  · apply Leaves.repeating fun members s' => MembersRead ctx first members s'.pos
    · exact ⟨by simpa using hfirst.1, hfirst.2⟩
    · rintro members s₄ ⟨hjoined, hlast⟩
      apply atUnionBar_leaves.bind
      intro bar s₅ hskip
      apply Leaves.ite
      · intro _
        refine .after fun _ s₆ => hg.typeSegment.bind fun t s₇ ht => .pure ?_
        exact ⟨forall_mem_toList_push hjoined ht.1, by simpa using ht.2⟩
      · intro _
        exact .pure ⟨hjoined, hlast.skip hskip⟩
  · rintro members s₄ ⟨hjoined, hlast⟩
    split
    · rename_i t heq
      rw [← Array.getLast?_toList, heq] at hlast
      exact .pure ⟨hjoined t (by rw [heq]; exact List.mem_singleton_self t), hlast⟩
    · refine .pure ⟨.of_children trivial ?_, hlast⟩
      simp only [Node.children, Node.fields, TypeExpr.fields, List.flatMap_cons, List.flatMap_nil,
        FieldValue.children_ofList, List.append_nil, List.forall_mem_map, List.mem_flatMap]
      rintro m ⟨t, ht, hm⟩
      exact wellJoined_unionMembers (hjoined t ht) m hm

end Joins

end Grammar

end PklSyntax
