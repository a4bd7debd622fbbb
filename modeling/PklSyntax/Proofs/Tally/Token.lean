import PklSyntax.Proofs.Layout.Declaration
import PklSyntax.Proofs.Tally.Basic

/-!
# The tally of tokens and literals

Tokens, names and numbers take no doc comment. A string takes those of the expressions that stand in
it, in object bodies; a list with commas those of its items.

## Main statements

* `Parser.Spares.expectName`, `Parser.Spares.number`: names and numbers.
* `Parser.Tallies.commaList`, `Parser.Tallies.stringLiteral`: lists and strings.
-/

namespace PklSyntax

open HoldsDocs (held)

-- The proof for a long production is a large term.
set_option synthInstance.maxSize 4000

namespace Parser

variable {α : Type}

namespace Spares

/-! ### Looking and moving -/

instance theText : Spares theText := .of_idle theText_looks.idle

instance theOptions : Spares theOptions := .of_idle theOptions_looks.idle

instance position : Spares position := .of_idle position_looks.idle

instance peekAt (offset : Nat) : Spares (peekAt offset) := .of_idle (peekAt_looks offset).idle

instance peek : Spares peek := .of_idle peek_looks.idle

instance peekWord : Spares peekWord := .of_idle peekWord_looks.idle

instance atEnd : Spares atEnd := .of_idle atEnd_looks.idle

instance startsWith (word : String) : Spares (startsWith word) :=
  .of_idle (startsWith_looks word).idle

instance atWord (word : String) : Spares (atWord word) := .of_idle (atWord_looks word).idle

instance wordEnd : Spares wordEnd := .of_idle wordEnd_looks.idle

instance slice (start stop : Nat) : Spares (slice start stop) :=
  .of_idle (slice_looks start stop).idle

instance sliceFrom (start : Nat) : Spares (sliceFrom start) :=
  .of_idle (sliceFrom_looks start).idle

instance spanFrom (start : Nat) : Spares (spanFrom start) := .of_idle (spanFrom_looks start).idle

instance newlineSince (span : Span) : Spares (newlineSince span) :=
  .of_idle (newlineSince_looks span).idle

instance limitReached : Spares limitReached := .of_idle limitReached_looks.idle

instance atIdentifier : Spares atIdentifier := .of_idle atIdentifier_looks.idle

instance atPathStep : Spares atPathStep := .of_idle atPathStep_looks.idle

instance atString : Spares atString := .of_idle atString_looks.idle

instance atNumber : Spares atNumber := .of_idle atNumber_looks.idle

instance atExponent : Spares atExponent := .of_idle atExponent_looks.idle

instance firstModifier? (ms : List Modifier) : Spares (firstModifier? ms) :=
  .of_idle (firstModifier?_looks ms).idle

instance mark : Spares mark := .of_idle mark_looks.idle

instance moveTo (pos : Nat) : Spares (moveTo pos) :=
  ⟨by rintro _ _ _ _ ⟨⟩; exact ⟨rfl, List.prefix_rfl⟩⟩

instance advance (n : Nat) : Spares (advance n) := by delta Parser.advance; infer_instance

/-- Skipping trivia only adds doc comments. -/
instance skip : Spares skip where
  spared {ctx s a s'} h := by
    cases h
    rw [State.skipTrivia]
    split
    · exact .refl s
    · exact ⟨rfl, by rw [Array.toList_appendList]; exact List.prefix_append _ _⟩

instance report (problem : Problem) (span : Span) : Spares (report problem span) :=
  ⟨by rintro _ _ _ _ ⟨⟩; exact ⟨rfl, List.prefix_rfl⟩⟩

instance failWith (problem : Problem) (span : Span) :
    Spares (failWith problem span : Parser α) := by
  delta Parser.failWith; infer_instance

/-- What stands behind a failure is not reached. -/
theorem failed {β : Type} {problem : Problem} {span : Span} {f : α → Parser β} :
    Spares (Parser.failWith problem span >>= f) :=
  .of_never nofun

/-! ### Tokens -/

instance here : Spares here := .of_idle here_idle

instance describeCurrent : Spares describeCurrent := .of_idle describeCurrent_idle

instance failExpected (what : String) : Spares (failExpected what : Parser α) := by
  delta Parser.failExpected; infer_instance

instance atToken (token : String) : Spares (atToken token) := by
  delta Parser.atToken; infer_instance

instance atKeyword (word : String) : Spares (atKeyword word) := by
  delta Parser.atKeyword; infer_instance

instance atAssign : Spares atAssign := by delta Parser.atAssign; infer_instance

instance takeToken (length : Nat) : Spares (takeToken length) := by
  delta Parser.takeToken; infer_instance

instance accept? (token : String) : Spares (accept? token) := by
  delta Parser.accept?; infer_instance

instance accept (token : String) : Spares (accept token) := by delta Parser.accept; infer_instance

instance acceptKeyword (word : String) : Spares (acceptKeyword word) := by
  delta Parser.acceptKeyword; infer_instance

instance expect (token : String) : Spares (expect token) := by
  delta Parser.expect
  refine sequence fun span? => ?_
  cases span? <;> infer_instance

instance expectKeyword (word : String) : Spares (expectKeyword word) := by
  delta Parser.expectKeyword; infer_instance

/-! ### Names -/

instance quotedIdentifier : Spares quotedIdentifier := by
  delta Parser.quotedIdentifier; infer_instance

instance identifier? : Spares identifier? := by delta Parser.identifier?; infer_instance

instance identifier (what : String) : Spares (identifier what) := by
  delta Parser.identifier
  refine sequence fun name? => ?_
  cases name? <;> infer_instance

instance expectName (what : String) : Spares (expectName what) := by
  delta Parser.expectName; infer_instance

instance qualifiedName (what : String) : Spares (qualifiedName what) := by
  delta Parser.qualifiedName; infer_instance

/-! ### Numbers -/

instance digits (base : IntBase) : Spares (digits base) := by
  delta Parser.digits
  refine sequence fun start => sequence fun text => sequence fun _ => sequence fun run => ?_
  cases misplacedUnderscore? run <;> infer_instance

instance endOfNumber (start : Nat) : Spares (endOfNumber start) := by
  delta Parser.endOfNumber; infer_instance

instance basedNumber (start : Nat) (base : IntBase) : Spares (basedNumber start base) := by
  delta Parser.basedNumber; infer_instance

instance fraction : Spares fraction := by delta Parser.fraction; infer_instance

instance exponent : Spares exponent := by delta Parser.exponent; infer_instance

instance decimalNumber (start : Nat) (styleWarnings : Bool) :
    Spares (decimalNumber start styleWarnings) := by
  delta Parser.decimalNumber; infer_instance

instance floatWord (start : Nat) (word : String) : Spares (floatWord start word) := by
  delta Parser.floatWord; infer_instance

instance number (styleWarnings : Bool) : Spares (number styleWarnings) := by
  delta Parser.number
  refine within (sequence fun start => sequence fun _ => choice inferInstance <|
    sequence fun _ => choice inferInstance <| sequence fun c => sequence fun letter => ?_)
  split <;> infer_instance

/-! ### What stands in a string -/

instance poundsAt (quotes : Quotes) (i : Nat) : Spares (poundsAt quotes i) :=
  .of_idle (poundsAt_looks quotes i).idle

instance closingLine? (quotes : Quotes) : Spares (closingLine? quotes) :=
  .of_idle (closingLine?_looks quotes).idle

instance unicodeEscape (quotes : Quotes) (start : Nat) : Spares (unicodeEscape quotes start) := by
  refine sequence fun _ => choice (sequence fun _ => failed) (sequence fun _ => sequence fun _ =>
    sequence fun _ => sequence fun _ => sequence fun _ => sequence fun _ =>
      choice (sequence fun _ => failed) (sequence fun _ => ?_))
  dsimp only
  split <;> infer_instance

instance openingLine (opening : Span) (styleWarnings : Bool) :
    Spares (openingLine opening styleWarnings) := by
  delta Parser.openingLine; infer_instance

end Spares

namespace Tallies

/-- What always stops owes nothing. -/
theorem of_leaves [HoldsDocs α] {p : Parser α} {D : Multiset DocComment}
    (hp : ∀ ctx s, p.Leaves Anywhere ctx s fun _ _ => False) : Tallies p D :=
  .of_never fun ctx s _ _ hrun => ((hp ctx s).of_ok trivial hrun).2

theorem failWith [HoldsDocs α] {problem : Problem} {span : Span} {D : Multiset DocComment} :
    Tallies (failWith problem span : Parser α) D :=
  of_leaves fun _ _ => failWith_leaves

theorem failExpected [HoldsDocs α] {what : String} {D : Multiset DocComment} :
    Tallies (failExpected what : Parser α) D :=
  of_leaves fun _ _ => failExpected_leaves

/-- What stands behind a failure is not reached. -/
theorem failed {β : Type} [HoldsDocs β] {problem : Problem} {span : Span} {f : α → Parser β}
    {D : Multiset DocComment} : Tallies (Parser.failWith problem span >>= f) D :=
  of_leaves fun _ _ => .never failWith_leaves

/-- A list holds what its items hold. -/
instance commaList [HoldsDocs α] (close : String) (item : Parser α) [Tallies item 0] :
    Tallies (commaList close item) 0 := by
  refine hand (h := loop (fun items => ?_) #[]) fun items => pure rfl
  exact keep fun _ => choice (pure rfl) <| take fun next => keep fun _ =>
    choice (pure (held_push items next)) (pure (held_push items next))

/-! ### Strings -/

theorem held_text (text : String) (span : Span) : held (Segment.text text span) = 0 :=
  (held_eq rfl).trans (by simp [Node.children, Node.fields, Segment.fields])

theorem held_escape (value : Char) (span : Span) : held (Segment.escape value span) = 0 :=
  (held_eq rfl).trans (by simp [Node.children, Node.fields, Segment.fields])

theorem held_interpolation (e : Expr) (span : Span) :
    held (Segment.interpolation e span) = held e :=
  (held_eq rfl).trans (by simp [Node.children, Node.fields, Segment.fields])

variable {quotes : Quotes} {interpolate : Parser Expr} [Tallies interpolate 0]

/-- A segment of text holds no doc comment. -/
instance flush (body : StringBody) : Tallies (flush body) (held body) := by
  refine keep fun pos => choice (keep fun text => pure ?_) (pure rfl)
  exact (held_push _ _).trans (by rw [held_text, add_zero]; rfl)

instance interpolation : Tallies (interpolation interpolate) 0 :=
  within <| keep fun _ => hand fun _ => keep fun _ => keep fun _ =>
    choice (keep fun _ => failed) (keep fun _ => pure rfl)

instance escapeSequence (quotes : Quotes) : Tallies (escapeSequence quotes interpolate) 0 := by
  refine keep fun _ => keep fun _ => keep fun c => ?_
  split
  · exact keep fun _ => keep fun _ => pure (held_escape _ _)
  exact choice (keep fun _ => keep fun _ => keep fun _ => pure (held_escape _ _)) <|
    choice (keep fun _ => hand fun e => keep fun _ => pure (held_interpolation e _))
      (keep fun _ => keep fun _ => failWith)

instance finishString (quotes : Quotes) (contentStart contentStop : Nat)
    (segments : Array Segment) (indent : Option String) :
    Tallies (finishString quotes contentStart contentStop segments indent) (held segments) :=
  keep fun _ => pure ((held_eq rfl).trans (by
    simp [Node.children, Node.fields, StringLiteral.fields]))

instance stringStep (quotes : Quotes) (contentStart : Nat) (body : StringBody) :
    Tallies (stringStep quotes contentStart interpolate body) (held body) := by
  refine keep fun probe? => ?_
  cases probe? with
  | some probe =>
    exact keep fun _ => hand fun body => keep fun _ => keep fun _ => hand fun _ => pure rfl
  | none =>
    refine keep fun _ => keep fun _ => keep fun _ => choice failWith <| keep fun _ => choice
      (hand fun body => keep fun _ => hand fun _ => pure rfl) <| keep fun _ => choice
        (hand fun body => take fun segment => keep fun _ => pure (held_push _ _))
        (keep fun _ => pure rfl)

instance stringLiteral (styleWarnings : Bool) :
    Tallies (stringLiteral interpolate styleWarnings) 0 :=
  within <| keep fun _ => keep fun _ => keep fun _ => keep fun _ => keep fun _ => keep fun _ =>
    option () fun _ => keep fun _ => loop (fun _ => inferInstance) _

end Tallies

end Parser

end PklSyntax
