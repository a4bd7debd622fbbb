import PklSyntax.Number.Decimal
import PklSyntax.Text.Quoted
import Mathlib.Data.Nat.Digits.Defs

/-!
# Reading quoted texts back

A quoted text says which text it is. The form of each character between the quotes can be told from
what stands behind it: a form that begins with a backslash says with its second character how long it
is, and any other form is one character. So the characters are read back one by one.

## Main definitions

* `readShown`: the character that is shown at the beginning of a text, and the text behind it.

## Main statements

* `readShown_escapeIn`: the form of a character is read back, whatever stands behind it.
* `quoted_injective`: different texts are quoted differently.
* `lineFeed_notMem_quoted`: a quoted text stands on one line.
-/

namespace PklSyntax

/-! ### Hexadecimal digits -/

theorem digitValue_digitChar {d : Nat} (h : d < 16) : digitValue d.digitChar = d := by
  have hall : ∀ e : Fin 16, digitValue (Nat.digitChar e) = e := by decide
  exact hall ⟨d, h⟩

theorem digitsValue_concat (radix : Nat) (digits : List Char) (c : Char) :
    digitsValue radix (digits ++ [c]) = digitsValue radix digits * radix + digitValue c := by
  rw [digitsValue, List.foldl_append]
  rfl

theorem digitsValue_toDigits (n : Nat) : digitsValue 16 (Nat.toDigits 16 n) = n := by
  induction n using Nat.strongRecOn with
  | ind n ih =>
    by_cases h : n < 16
    · rw [Nat.toDigits_of_lt_base h]
      show 0 * 16 + digitValue n.digitChar = n
      rw [digitValue_digitChar h, Nat.zero_mul, Nat.zero_add]
    · rw [Nat.toDigits_of_base_le (by decide) (Nat.not_lt.1 h), digitsValue_concat,
        ih _ (by omega), digitValue_digitChar (Nat.mod_lt n (by decide))]
      omega

theorem digitsValue_replicate (k : Nat) (digits : List Char) :
    digitsValue 16 (List.replicate k '0' ++ digits) = digitsValue 16 digits := by
  induction k with
  | zero => rfl
  | succ k ih => exact ih

theorem digitsValue_hexDigits (width n : Nat) : digitsValue 16 (hexDigits width n).toList = n := by
  rw [hexDigits, String.toList_ofList, digitsValue_replicate, digitsValue_toDigits]

theorem length_hexDigits {width n : Nat} (hwidth : 0 < width) (h : n < 16 ^ width) :
    (hexDigits width n).toList.length = width := by
  have hlength := Nat.toDigits_length 16 n width hwidth h
  rw [hexDigits, String.toList_ofList, List.length_append, List.length_replicate]
  omega

theorem lineFeed_notMem_toDigits (n : Nat) : '\n' ∉ Nat.toDigits 16 n := by
  have hdigit {d : Nat} (h : d < 16) : '\n' ≠ d.digitChar := by
    have hall : ∀ e : Fin 16, '\n' ≠ Nat.digitChar e := by decide
    exact hall ⟨d, h⟩
  induction n using Nat.strongRecOn with
  | ind n ih =>
    by_cases h : n < 16
    · rw [Nat.toDigits_of_lt_base h, List.mem_singleton]
      exact hdigit h
    · rw [Nat.toDigits_of_base_le (by decide) (Nat.not_lt.1 h), List.mem_append, List.mem_singleton]
      exact not_or.2 ⟨ih _ (by omega), hdigit (Nat.mod_lt n (by decide))⟩

theorem lineFeed_notMem_hexDigits (width n : Nat) : '\n' ∉ (hexDigits width n).toList := by
  rw [hexDigits, String.toList_ofList, List.mem_append, List.mem_replicate]
  exact not_or.2 ⟨fun h => absurd h.2 (by decide), lineFeed_notMem_toDigits n⟩

/-- The character whose code point is given in so many digits, and the text behind them. -/
def readHex (width : Nat) (cs : List Char) : Char × List Char :=
  (Char.ofNat (digitsValue 16 (cs.take width)), cs.drop width)

theorem readHex_hexDigits {width : Nat} {c : Char} (hwidth : 0 < width)
    (h : c.toNat < 16 ^ width) (rest : List Char) :
    readHex width ((hexDigits width c.toNat).toList ++ rest) = (c, rest) := by
  have hlength := length_hexDigits hwidth h
  rw [readHex, List.take_left' hlength, List.drop_left' hlength, digitsValue_hexDigits,
    Char.ofNat_toNat]

/-! ### Forms of characters -/

/-- The character that is shown at the beginning of a text between quotes, and the text behind it. -/
def readShown : List Char → Option (Char × List Char)
  | '\\' :: 'n' :: rest => some ('\n', rest)
  | '\\' :: 'r' :: rest => some ('\r', rest)
  | '\\' :: 't' :: rest => some ('\t', rest)
  | '\\' :: 'x' :: rest => some (readHex 2 rest)
  | '\\' :: 'u' :: rest => some (readHex 4 rest)
  | '\\' :: 'U' :: rest => some (readHex 8 rest)
  | '\\' :: c :: rest => some (c, rest)
  | c :: rest => some (c, rest)
  | [] => none

theorem readShown_of_ne {c : Char} (h : c ≠ '\\') (rest : List Char) :
    readShown (c :: rest) = some (c, rest) := by
  cases rest <;> simp [readShown, h]

/-- The form of a character between quotes is read back, whatever stands behind it. -/
theorem readShown_escapeIn {quote : Char} (hquote : quote = '\'' ∨ quote = '"') (c : Char)
    (rest : List Char) : readShown ((escapeIn quote c).toList ++ rest) = some (c, rest) := by
  have hhex (mark : Char) (width : Nat) :
      ("\\" ++ String.singleton mark ++ hexDigits width c.toNat).toList ++ rest =
        '\\' :: mark :: ((hexDigits width c.toNat).toList ++ rest) := by
    simp
  fun_cases escapeIn quote c with
  | case1 h =>
    rcases (by simpa using h : c = quote ∨ c = '\\') with rfl | rfl
    · rcases hquote with rfl | rfl <;> rfl
    · rfl
  | case2 _ h => rw [h]; rfl
  | case3 _ _ h => rw [h]; rfl
  | case4 _ _ _ h => rw [h]; rfl
  | case5 h =>
    have hne : c ≠ '\\' := fun heq => h (by simp [heq])
    rw [String.toList_singleton]
    exact readShown_of_ne hne rest
  | case6 =>
    rw [show "\\x" = "\\" ++ String.singleton 'x' from rfl, hhex]
    exact congrArg some (readHex_hexDigits (by decide) ‹_› rest)
  | case7 =>
    rw [show "\\u" = "\\" ++ String.singleton 'u' from rfl, hhex]
    exact congrArg some (readHex_hexDigits (by decide) ‹_› rest)
  | case8 =>
    rw [show "\\U" = "\\" ++ String.singleton 'U' from rfl, hhex]
    exact congrArg some (readHex_hexDigits (by decide) c.val.toNat_lt rest)

/-! ### Quoted texts -/

theorem quoteFor_eq (text : List Char) : quoteFor text = '\'' ∨ quoteFor text = '"' := by
  rw [quoteFor]
  split
  · exact .inr rfl
  · exact .inl rfl

/-- Characters are told by their forms, one after the other. -/
theorem escaped_injective {quote : Char} (hquote : quote = '\'' ∨ quote = '"') {cs ds : List Char}
    (h : cs.flatMap (fun c => (escapeIn quote c).toList) =
      ds.flatMap fun d => (escapeIn quote d).toList) : cs = ds := by
  induction cs generalizing ds with
  | nil =>
    cases ds with
    | nil => rfl
    | cons d ds =>
      have hread := congrArg readShown h
      rw [List.flatMap_cons, readShown_escapeIn hquote] at hread
      cases hread
  | cons c cs ih =>
    have hread := congrArg readShown h
    rw [List.flatMap_cons, readShown_escapeIn hquote] at hread
    cases ds with
    | nil => cases hread
    | cons d ds =>
      rw [List.flatMap_cons, readShown_escapeIn hquote] at hread
      obtain ⟨rfl, hrest⟩ := Prod.mk.inj (Option.some.inj hread)
      rw [ih hrest]

theorem toList_quoted (text : String) :
    (quoted text).toList = quoteFor text.toList ::
      (text.toList.flatMap (fun c => (escapeIn (quoteFor text.toList) c).toList) ++
        [quoteFor text.toList]) := by
  simp [quoted, String.toList_join, List.flatMap_def, Function.comp_def]

/-- Different texts are quoted differently. -/
theorem quoted_injective : Function.Injective quoted := by
  intro s t h
  have hlists := congrArg String.toList h
  rw [toList_quoted, toList_quoted, List.cons.injEq] at hlists
  obtain ⟨hquote, hlists⟩ := hlists
  rw [hquote] at hlists
  exact String.toList_injective
    (escaped_injective (quoteFor_eq _) (List.append_cancel_right hlists))

theorem lineFeed_notMem_escapeIn {quote : Char} (hquote : quote = '\'' ∨ quote = '"') (c : Char) :
    '\n' ∉ (escapeIn quote c).toList := by
  have hhex (width : Nat) := lineFeed_notMem_hexDigits width c.toNat
  fun_cases escapeIn quote c with
  | case1 h =>
    rcases (by simpa using h : c = quote ∨ c = '\\') with rfl | rfl
    · rcases hquote with rfl | rfl <;> decide
    · decide
  | case5 _ hfeed => simpa using Ne.symm hfeed
  | _ => simp [hhex]

/-- A quoted text stands on one line. -/
theorem lineFeed_notMem_quoted (text : String) : '\n' ∉ (quoted text).toList := by
  have hquote : '\n' ≠ quoteFor text.toList := by
    rcases quoteFor_eq text.toList with h | h <;> rw [h] <;> decide
  simp [toList_quoted, hquote, lineFeed_notMem_escapeIn (quoteFor_eq text.toList)]

end PklSyntax
