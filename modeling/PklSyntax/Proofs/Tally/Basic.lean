import Mathlib.Algebra.Order.Group.Multiset
import PklSyntax.Grammar.Object
import PklSyntax.Proofs.Reading.Leaves
import PklSyntax.Proofs.Upkeep.Basic

/-!
# The tally of doc comments

A doc comment is taken by its number when the production begins in front of which it stands, long
before it is known what becomes of that production. The *tally* says that this comes out right: when
a run ends with a result, the doc comments that it has taken are the ones in the result, each as
often as it occurs there.

What is taken is counted along the steps of a production. A step either spares the doc comments, or
takes those of its own result, which are then owed to the result of the whole; and a production that
is given a part of a tree owes the doc comments of that part from the beginning. When a production
goes back, it owes what it owed before.

## Main definitions

* `Node.docs`: the doc comments of a tree.
* `HoldsDocs`: what is read, with the doc comments in it.
* `Took`: the doc comments that are taken in a state.
* `Parser.Spares`: a parser that takes no doc comment.
* `Parser.Tallies`: a parser that takes the doc comments of its results but for those that it was
  given.

## Main statements

* `Node.docs_eq`, `held_eq`: the doc comments of a tree are those of the trees below it.
* `Parser.Tallies.take`, `Parser.Tallies.pay`, `Parser.Tallies.loop`: the main rules.
-/

namespace PklSyntax

/-! ### The doc comments of a tree -/

namespace Node

/-- The doc comment that the node is. -/
def doc? : Node → Option DocComment
  | docComment doc => some doc
  | _ => none

/-- The doc comments of a tree, in its order. -/
def docs (n : Node) : List DocComment := n.walk.filterMap doc?

theorem docs_eq (n : Node) : n.docs = n.doc?.toList ++ n.children.flatMap docs := by
  rw [docs, walk_eq, List.filterMap_cons, List.filterMap_flatMap]
  cases n.doc? <;> rfl

end Node

/-- What is read holds doc comments. -/
class HoldsDocs (α : Type) where
  held : α → Multiset DocComment

open HoldsDocs (held)

section Held

variable {α : Type} [HoldsDocs α]

instance : HoldsDocs Node := ⟨fun n => n.docs⟩

instance : HoldsDocs (Option α) := ⟨fun a? => (a?.map held).getD 0⟩

instance : HoldsDocs (List α) := ⟨fun as => (as.map held).sum⟩

instance : HoldsDocs (Array α) := ⟨fun as => held as.toList⟩

/-- A list of parameters is read together with the offset behind it. -/
instance : HoldsDocs (α × Int) := ⟨fun p => held p.1⟩

instance {σ β : Type} [HoldsDocs σ] [HoldsDocs β] : HoldsDocs (Parser.Round σ β) :=
  ⟨fun
    | .next value => held value
    | .done result => held result⟩

instance : HoldsDocs DocComment := ⟨fun doc => {doc}⟩
instance : HoldsDocs Segment := ⟨fun segment => held (Node.segment segment)⟩
instance : HoldsDocs StringLiteral := ⟨fun literal => held (Node.string literal)⟩
instance : HoldsDocs Expr := ⟨fun e => held (Node.expr e)⟩
instance : HoldsDocs Call := ⟨fun c => held (Node.call c)⟩
instance : HoldsDocs Member := ⟨fun member => held (Node.ofMember member)⟩
instance : HoldsDocs Access := ⟨fun access => held (Node.access access)⟩
instance : HoldsDocs Param := ⟨fun param => held (Node.param param)⟩
instance : HoldsDocs TypeExpr := ⟨fun type => held (Node.type type)⟩
instance : HoldsDocs TypeParameter := ⟨fun param => held (Node.typeParameter param)⟩
instance : HoldsDocs ObjectBody := ⟨fun body => held (Node.objectBody body)⟩
instance : HoldsDocs ObjectForm := ⟨fun form => held (Node.objectForm form)⟩
instance : HoldsDocs PropertyForm := ⟨fun form => held (Node.ofPropertyForm form)⟩
instance : HoldsDocs EntryValue := ⟨fun value => held (Node.ofEntryValue value)⟩
instance : HoldsDocs ObjectMember := ⟨fun member => held (Node.ofObjectMember member)⟩
instance : HoldsDocs Annotation := ⟨fun a => held (Node.annotation a)⟩
instance : HoldsDocs PropertyDecl := ⟨fun decl => held (Node.property decl)⟩
instance : HoldsDocs FunctionDecl := ⟨fun decl => held (Node.function decl)⟩
instance : HoldsDocs ClassMember := ⟨fun member => held (Node.ofClassMember member)⟩
instance : HoldsDocs ClassDecl := ⟨fun decl => held (Node.classDecl decl)⟩
instance : HoldsDocs ModuleClause := ⟨fun clause => held (Node.moduleClause clause)⟩
instance : HoldsDocs ImportDecl := ⟨fun decl => held (Node.importDecl decl)⟩
instance : HoldsDocs ExtendsClause := ⟨fun clause => held (Node.extendsClause clause)⟩
instance : HoldsDocs AmendsClause := ⟨fun clause => held (Node.amendsClause clause)⟩
instance : HoldsDocs TypeAliasDecl := ⟨fun decl => held (Node.typeAlias decl)⟩
instance : HoldsDocs Declaration := ⟨fun decl => held (Node.ofDeclaration decl)⟩
instance : HoldsDocs InfixStep := ⟨fun step => held step.operand⟩
instance : HoldsDocs StringBody := ⟨fun body => held body.segments⟩

instance : HoldsDocs Preamble := ⟨fun before => held before.doc + held before.annotations⟩

@[simp] theorem held_none : held (none : Option α) = 0 := rfl

@[simp] theorem held_some (a : α) : held (some a) = held a := rfl

@[simp] theorem held_nil : held ([] : List α) = 0 := rfl

@[simp] theorem held_cons (a : α) (as : List α) : held (a :: as) = held a + held as := by
  simp [held]

@[simp] theorem held_append (as bs : List α) : held (as ++ bs) = held as + held bs := by
  simp [held]

theorem held_eq_zero {as : List α} (h : ∀ a ∈ as, held a = 0) : held as = 0 := by
  induction as with
  | nil => rfl
  | cons a as ih =>
    obtain ⟨ha, has⟩ := List.forall_mem_cons.1 h
    rw [held_cons, ha, ih has, add_zero]

@[simp] theorem held_emptyArray : held (#[] : Array α) = 0 := rfl

@[simp] theorem held_toList (as : Array α) : held as.toList = held as := rfl

@[simp] theorem held_push (as : Array α) (a : α) : held (as.push a) = held as + held a := by
  rw [← held_toList, Array.toList_push, held_append, held_cons, held_nil, add_zero]
  rfl

@[simp] theorem held_singleton (a : α) : held #[a] = held a :=
  (held_push #[] a).trans (zero_add _)

@[simp] theorem held_pair (a : α) (i : Int) : held (a, i) = held a := rfl

@[simp] theorem held_optionToList (a? : Option α) : held a?.toList = held a? := by
  cases a? <;> simp

/-- What a tree holds besides the doc comment that it is, is what the trees below it hold. -/
theorem held_eq {n : Node} (h : n.doc? = none) : held n = held n.children := by
  have hsum (ns : List Node) : ((ns.flatMap Node.docs : List DocComment) : Multiset DocComment) =
      held ns := by
    induction ns with
    | nil => rfl
    | cons n ns ih => rw [List.flatMap_cons, ← Multiset.coe_add, ih, held_cons]; rfl
  show (n.docs : Multiset DocComment) = _
  rw [Node.docs_eq, h, Option.toList_none, List.nil_append, hsum]

/-- Trees hold the same when they have the same trees below them. -/
theorem held_congr {n m : Node} (hn : n.doc? = none) (hm : m.doc? = none)
    (h : n.children = m.children) : held n = held m := by
  rw [held_eq hn, held_eq hm, h]

@[simp] theorem held_docComment (doc : DocComment) : held (Node.docComment doc) = held doc := by
  show ((Node.docComment doc).docs : Multiset DocComment) = {doc}
  rw [Node.docs_eq]
  rfl

@[simp] theorem held_segment (segment : Segment) : held (Node.segment segment) = held segment := rfl

@[simp] theorem held_string (literal : StringLiteral) :
    held (Node.string literal) = held literal := rfl

@[simp] theorem held_expr (e : Expr) : held (Node.expr e) = held e := rfl

@[simp] theorem held_call (c : Call) : held (Node.call c) = held c := rfl

@[simp] theorem held_ofMember (member : Member) : held (Node.ofMember member) = held member := rfl

@[simp] theorem held_access (access : Access) : held (Node.access access) = held access := rfl

@[simp] theorem held_param (param : Param) : held (Node.param param) = held param := rfl

@[simp] theorem held_type (type : TypeExpr) : held (Node.type type) = held type := rfl

@[simp] theorem held_typeParameter (param : TypeParameter) :
    held (Node.typeParameter param) = held param := rfl

@[simp] theorem held_objectBody (body : ObjectBody) : held (Node.objectBody body) = held body := rfl

@[simp] theorem held_objectForm (form : ObjectForm) : held (Node.objectForm form) = held form := rfl

@[simp] theorem held_ofPropertyForm (form : PropertyForm) :
    held (Node.ofPropertyForm form) = held form := rfl

@[simp] theorem held_ofEntryValue (value : EntryValue) :
    held (Node.ofEntryValue value) = held value := rfl

@[simp] theorem held_ofObjectMember (member : ObjectMember) :
    held (Node.ofObjectMember member) = held member := rfl

@[simp] theorem held_annotation (a : Annotation) : held (Node.annotation a) = held a := rfl

@[simp] theorem held_property (decl : PropertyDecl) : held (Node.property decl) = held decl := rfl

@[simp] theorem held_function (decl : FunctionDecl) : held (Node.function decl) = held decl := rfl

@[simp] theorem held_ofClassMember (member : ClassMember) :
    held (Node.ofClassMember member) = held member := rfl

@[simp] theorem held_ofDeclaration (decl : Declaration) :
    held (Node.ofDeclaration decl) = held decl := rfl

/-- The parts of a tree hold what their nodes hold. -/
@[simp] theorem held_map {node : α → Node} (h : ∀ a, held (node a) = held a) (as : List α) :
    held (as.map node) = held as := by
  induction as with
  | nil => rfl
  | cons a as ih => rw [List.map_cons, held_cons, held_cons, h, ih]

/-- Names hold no doc comment. -/
@[simp] theorem held_identifier (name : Identifier) : held (Node.identifier name) = 0 :=
  (held_eq rfl).trans (by simp [Node.children, Node.fields, Identifier.fields])

@[simp] theorem held_identifiers (names : List Identifier) :
    held (names.map Node.identifier) = 0 :=
  held_eq_zero (List.forall_mem_map.2 fun name _ => held_identifier name)

@[simp] theorem held_namedType (type : NamedType) : held (Node.namedType type) = 0 :=
  (held_eq rfl).trans (by simp [Node.children, Node.fields, NamedType.fields])

@[simp] theorem held_number (literal : NumberLiteral) : held (Node.number literal) = 0 := by
  refine (held_eq rfl).trans ?_
  cases literal <;> simp [Node.children, Node.fields, NumberLiteral.fields]

end Held

/-! ### The doc comments that are taken -/

/-- The doc comments that are taken. -/
def State.taken (s : State) : Multiset DocComment := s.attached.filterMap (s.docs[·]?)

/-- No doc comment is taken between the states, and those that have been found stay. -/
structure Spared (s s' : State) : Prop where
  attached_eq : s'.attached = s.attached
  docs : s.docs.toList <+: s'.docs.toList

theorem Spared.refl (s : State) : Spared s s := ⟨rfl, List.prefix_rfl⟩

theorem Spared.trans {s s' s'' : State} (h : Spared s s') (h' : Spared s' s'') : Spared s s'' :=
  ⟨h'.attached_eq.trans h.attached_eq, h.docs.trans h'.docs⟩

/-- Each doc comment that is taken is there and taken once; together they are those of `B`, which
were taken before, and those of `D`, which are owed to a tree. -/
structure Took (B D : Multiset DocComment) (s : State) : Prop where
  nodup : s.attached.Nodup
  lt : ∀ i ∈ s.attached, i < s.docs.size
  taken_eq : s.taken = B + D

namespace Took

variable {B D : Multiset DocComment} {s s' : State}

theorem recount (h : Took B D s) {D' : Multiset DocComment} (hD : D = D') : Took B D' s := hD ▸ h

/-- What is owed may be counted among what was taken before. -/
theorem regroup {E : Multiset DocComment} : Took (B + D) E s ↔ Took B (D + E) s :=
  ⟨fun h => ⟨h.nodup, h.lt, by rw [h.taken_eq, add_assoc]⟩,
    fun h => ⟨h.nodup, h.lt, by rw [h.taken_eq, add_assoc]⟩⟩

/-- Doc comments keep their numbers. -/
theorem taken_congr (hattached : s'.attached = s.attached)
    (hlt : ∀ i ∈ s.attached, i < s.docs.size) (hdocs : s.docs.toList <+: s'.docs.toList) :
    s'.taken = s.taken := by
  rw [State.taken, State.taken, hattached]
  refine congrArg _ (List.filterMap_congr fun i hi => ?_)
  have hlen : i < s.docs.toList.length := by simpa using hlt i hi
  rw [← Array.getElem?_toList, ← Array.getElem?_toList, List.getElem?_eq_getElem hlen]
  exact List.prefix_iff_getElem?.1 hdocs i hlen

theorem spared (h : Took B D s) (hs : Spared s s') : Took B D s' where
  nodup := hs.attached_eq ▸ h.nodup
  lt i hi := (h.lt i (hs.attached_eq ▸ hi)).trans_le (by simpa using hs.docs.length_le)
  taken_eq := (taken_congr hs.attached_eq h.lt hs.docs).trans h.taken_eq

/-- Taking the doc comment in front of the cursor. -/
theorem takeDoc (h : Took B D s) : Took B (D + held s.takeDoc.1) s.takeDoc.2 := by
  rw [State.takeDoc]
  split
  next hwaits =>
    dsimp only
    split
    next => exact h.recount (add_zero D).symm
    next hnew =>
      have hlt : s.docs.size - 1 < s.docs.size := by omega
      refine ⟨List.nodup_cons.2 ⟨by simpa using hnew, h.nodup⟩, fun i hi => ?_, ?_⟩
      · exact (List.mem_cons.1 hi).elim (fun h => h ▸ hlt) (h.lt i)
      · have htaken := h.taken_eq
        simp only [State.taken, List.filterMap_cons, Array.getElem?_eq_getElem hlt] at htaken ⊢
        rw [← Multiset.cons_coe, htaken, ← Multiset.singleton_add, add_comm, add_assoc]
        rfl
  next => exact h.recount (add_zero D).symm

end Took

/-! ### Runs -/

namespace Parser

variable {α β σ : Type}

/-- When the run has a result, what is taken is what the result holds, besides what was taken
before. -/
abbrev Settles [HoldsDocs α] (p : Parser α) (B : Multiset DocComment) (ctx : Context) (s : State) :
    Prop :=
  p.Leaves Anywhere ctx s fun a => Took B (held a)

/-- No run of the parser that has a result takes a doc comment. -/
class Spares (p : Parser α) : Prop where
  spared : ∀ {ctx s a s'}, p ctx s = .ok a s' → Spared s s'

/-- The parser takes the doc comments that its results hold, but for those of `D`, which are taken
already. -/
class Tallies [HoldsDocs α] (p : Parser α) (D : outParam (Multiset DocComment)) : Prop where
  settles : ∀ {B ctx s}, Took B D s → p.Settles B ctx s

namespace Spares

variable {p q : Parser α} {f : α → Parser β}

theorem of_idle (hp : Idle p) : Spares p where
  spared {ctx s a s'} h := by
    obtain ⟨b, hb⟩ := hp ctx s
    rw [hb] at h
    cases h
    exact .refl s

/-- What always stops has no result. -/
theorem of_never (hp : ∀ ctx s a s', p ctx s ≠ .ok a s') : Spares p :=
  ⟨fun h => absurd h (hp _ _ _ _)⟩

theorem sequence [hp : Spares p] (hf : ∀ a, Spares (f a)) : Spares (p >>= f) where
  spared {ctx s b s'} h := by
    rw [bind_apply] at h
    cases hrun : p ctx s with
    | ok a t =>
      rw [hrun] at h
      exact (hp.spared hrun).trans ((hf a).spared h)
    | error => rw [hrun] at h; cases h

theorem choice {c : Prop} [Decidable c] (hp : Spares p) (hq : Spares q) :
    Spares (if c then p else q) := by
  by_cases h : c
  · rwa [if_pos h]
  · rwa [if_neg h]

instance pure (a : α) : Spares (Pure.pure a : Parser α) := .of_idle (.pure a)

instance throw (stop : Stop) : Spares (throw stop : Parser α) := .of_never nofun

instance bind [Spares p] [hf : ∀ a, Spares (f a)] : Spares (p >>= f) := sequence hf

instance map {g : α → β} [Spares p] : Spares (g <$> p) :=
  inferInstanceAs (Spares (p >>= fun a => Pure.pure (g a)))

instance ite {c : Prop} [Decidable c] [hp : Spares p] [hq : Spares q] :
    Spares (if c then p else q) :=
  choice hp hq

theorem within {mode : Mode} (hp : Spares p) : Spares (inMode mode p) where
  spared {ctx s a s'} h := by
    rw [Parser.inMode] at h
    split at h
    next hrun =>
      cases h
      have hspared := hp.spared hrun
      exact ⟨hspared.attached_eq, hspared.docs⟩
    next => cases h

instance inMode {mode : Mode} [hp : Spares p] : Spares (inMode mode p) := within hp

theorem loop {step : σ → Parser (Round σ β)} (hstep : ∀ value, Spares (step value)) (value : σ) :
    Spares (repeating step value) := by
  have hrounds (n : Nat) (value : σ) : Spares (rounds step n value) := by
    induction n generalizing value with
    | zero => exact .of_never nofun
    | succ n ih =>
      have := hstep value
      refine sequence fun round => ?_
      cases round with
      | next value => exact ih value
      | done result => exact .pure result
  have := Spares.of_idle theText_looks.idle
  have := Spares.of_idle position_looks.idle
  exact sequence fun _ => sequence fun _ => hrounds _ value

instance repeating {step : σ → Parser (Round σ β)} [hstep : ∀ value, Spares (step value)]
    (value : σ) : Spares (repeating step value) :=
  loop hstep value

end Spares

/-! ### Rules for one run -/

namespace Settles

variable [HoldsDocs α] [HoldsDocs β] {f : α → Parser β} {B D : Multiset DocComment} {ctx : Context}
  {s : State}

theorem of_tallies {p : Parser β} (h : Tallies p D) (hs : Took B D s) : p.Settles B ctx s :=
  h.settles hs

/-- What goes on behind the run has the result. -/
theorem andThen {γ : Type} {p : Parser γ} {f : γ → Parser β}
    (hf : ∀ a s', p ctx s = .ok a s' → (f a).Settles B ctx s') : (p >>= f).Settles B ctx s :=
  (Leaves.of_run (P := fun a s' => p ctx s = .ok a s') fun _ _ _ hrun => hrun).bind hf

/-- Behind a step that spares the doc comments. -/
theorem keep {γ : Type} {p : Parser γ} [Spares p] {f : γ → Parser β} (hs : Took B D s)
    (hf : ∀ a s', p ctx s = .ok a s' → Took B D s' → (f a).Settles B ctx s') :
    (p >>= f).Settles B ctx s :=
  .andThen fun a s' hrun => hf a s' hrun (hs.spared (Spares.spared hrun))

end Settles

/-! ### Rules for all runs -/

namespace Tallies

variable [HoldsDocs α] [HoldsDocs β] [HoldsDocs σ] {p q : Parser α} {f : α → Parser β}
  {D E : Multiset DocComment}

theorem of_ok (hp : Tallies p D) {B : Multiset DocComment} {ctx : Context} {s s' : State} {a : α}
    (hs : Took B D s) (hrun : p ctx s = .ok a s') : Took B (held a) s' :=
  ((hp.settles hs).of_ok trivial hrun).2

/-- What is owed besides is still owed behind the run. -/
theorem of_ok_add (hp : Tallies p E) {B : Multiset DocComment} {ctx : Context} {s s' : State}
    {a : α} (hs : Took B (D + E) s) (hrun : p ctx s = .ok a s') : Took B (D + held a) s' :=
  Took.regroup.1 (hp.of_ok (Took.regroup.2 hs) hrun)

/-- What is owed may be counted otherwise. -/
theorem recount (hp : Tallies p D) (h : D = E) : Tallies p E := h ▸ hp

/-- The result holds what was taken. -/
theorem pure {a : α} (h : held a = D) : Tallies (Pure.pure a : Parser α) D :=
  ⟨fun hs => .pure (hs.recount h.symm)⟩

/-- Behind a step that spares the doc comments. -/
theorem keep {γ : Type} {p : Parser γ} [Spares p] {f : γ → Parser β}
    (hf : ∀ a, Tallies (f a) D) : Tallies (p >>= f) D :=
  ⟨fun hs => .keep hs fun a _ _ h => (hf a).settles h⟩

/-- A step that is given some of what is taken already, and of whose result something is known. -/
theorem pay_gives [h : Tallies p E] {P : α → Prop} (hp : p.Gives P)
    (hf : ∀ a, P a → Tallies (f a) (D + held a)) : Tallies (p >>= f) (D + E) :=
  ⟨fun hs => .andThen fun a _ hrun => (hf a (hp.of_ok hrun)).settles (h.of_ok_add hs hrun)⟩

/-- A step that is given some of what is taken already. -/
theorem pay [h : Tallies p E] (hf : ∀ a, Tallies (f a) (D + held a)) : Tallies (p >>= f) (D + E) :=
  pay_gives (P := fun _ => True) ⟨fun _ => trivial⟩ fun a _ => hf a

/-- A step that is given all of what is taken already. -/
theorem hand [h : Tallies p D] (hf : ∀ a, Tallies (f a) (held a)) : Tallies (p >>= f) D :=
  ⟨fun hs => .andThen fun a _ hrun => (hf a).settles (h.of_ok hs hrun)⟩

/-- A step that takes the doc comments of its own result, of which something is known. -/
theorem take_gives [Tallies p 0] {P : α → Prop} (hp : p.Gives P)
    (hf : ∀ a, P a → Tallies (f a) (D + held a)) : Tallies (p >>= f) D :=
  (pay_gives hp hf).recount (add_zero D)

/-- A step that takes the doc comments of its own result. -/
theorem take [Tallies p 0] (hf : ∀ a, Tallies (f a) (D + held a)) : Tallies (p >>= f) D :=
  (pay hf).recount (add_zero D)

theorem ite {c : Prop} [Decidable c] (hp : c → Tallies p D) (hq : ¬ c → Tallies q D) :
    Tallies (if c then p else q) D := by
  by_cases h : c
  · rw [if_pos h]
    exact hp h
  · rw [if_neg h]
    exact hq h

theorem choice {c : Prop} [Decidable c] (hp : Tallies p D) (hq : Tallies q D) :
    Tallies (if c then p else q) D :=
  ite (fun _ => hp) fun _ => hq

/-- Two ways that come together again. -/
theorem branch {c : Prop} [Decidable c] [Tallies p 0] [Tallies q 0]
    (hf : ∀ a, Tallies (f a) (D + held a)) : Tallies (if c then p >>= f else q >>= f) D :=
  choice (take hf) (take hf)

/-- A step that spares the doc comments and is taken on a condition. -/
theorem option {γ : Type} {p : Parser γ} [Spares p] {f : γ → Parser β} {c : Prop} [Decidable c]
    (a : γ) (hf : ∀ a, Tallies (f a) D) : Tallies (if c then p >>= f else f a) D :=
  choice (keep hf) (hf a)

/-- What always stops owes nothing. -/
theorem of_never (hp : ∀ ctx s a s', p ctx s ≠ .ok a s') : Tallies p D :=
  ⟨fun _ => ⟨fun _ h => absurd h (hp _ _ _ _)⟩⟩

theorem map {g : α → β} [hp : Tallies p D] (hg : ∀ a, held (g a) = held a) : Tallies (g <$> p) D :=
  ⟨fun hs => .andThen fun a _ hrun => .pure ((hp.of_ok hs hrun).recount (hg a).symm)⟩

/-- An attempt that has come to a result. -/
theorem attempted [hp : Tallies p D] {B : Multiset DocComment} {ctx : Context} {s s' : State}
    {a : α} (hs : Took B D s) (hrun : attempt p ctx s = .ok (some a) s') : Took B (held a) s' := by
  rw [attempt] at hrun
  split at hrun
  next h =>
    cases hrun
    exact hp.of_ok hs h
  next => cases hrun
  next => cases hrun

instance some [Tallies p D] : Tallies (some <$> p) D := map fun _ => rfl

instance takeDoc : Tallies takeDoc 0 where
  settles hs := .of_run fun _ _ _ hrun => by
    cases hrun
    exact hs.takeDoc.recount (zero_add _)

instance none : Tallies (Pure.pure none : Parser (Option α)) 0 := pure rfl

theorem within {mode : Mode} (hp : Tallies p D) : Tallies (inMode mode p) D where
  settles {B ctx s} hs := by
    have hmode : Took B D { s with mode } := ⟨hs.nodup, hs.lt, hs.taken_eq⟩
    exact (hp.settles hmode).inMode fun _ _ h => ⟨h.nodup, h.lt, h.taken_eq⟩

instance inMode {mode : Mode} [hp : Tallies p D] : Tallies (inMode mode p) D := within hp

/-- The rounds of a loop hand on what they hold. The induction is on the rounds. -/
theorem loop {step : σ → Parser (Round σ β)} (hstep : ∀ value, Tallies (step value) (held value))
    (value : σ) : Tallies (repeating step value) (held value) := by
  have hrounds (n : Nat) (value : σ) : Tallies (rounds step n value) (held value) := by
    induction n generalizing value with
    | zero => exact of_never nofun
    | succ n ih =>
      refine ⟨fun hs => .andThen fun round s' hrun => ?_⟩
      have hround := (hstep value).of_ok hs hrun
      cases round with
      | next value => exact (ih value).settles hround
      | done result => exact .pure hround
  have := Spares.of_idle theText_looks.idle
  have := Spares.of_idle position_looks.idle
  exact keep fun _ => keep fun _ => hrounds _ value

instance repeating {step : σ → Parser (Round σ β)}
    [hstep : ∀ value, Tallies (step value) (held value)] (value : σ) :
    Tallies (repeating step value) (held value) :=
  loop hstep value

/-- Items behind a first one, as long as there are more. -/
theorem collect {more : Parser Bool} [Spares more] {item : Parser α} [Tallies item 0] (first : α) :
    Tallies (Parser.repeating (fun (items : Array α) => do
      if ← more then return .next (items.push (← item)) else return .done items) #[first])
      (held first) :=
  (loop (fun items => keep fun _ => choice (take fun next => pure (held_push items next))
    (pure rfl)) #[first]).recount (held_singleton first)

end Tallies

end Parser

end PklSyntax
