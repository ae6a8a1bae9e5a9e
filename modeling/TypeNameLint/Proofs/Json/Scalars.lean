import TypeNameLint.Json.Printer
import TypeNameLint.Json.Reader

/-!
# Scalars — strings and integers are read as they were written

The reader is a scanner: it has to stop where the writer stopped. A string ends at its closing
quote, so what follows it does not matter; the digits of a number end at the first character that
does not go on with a number. This file defines:

* `EndsNumber`: texts that do not go on with a number;
* `FitsInteger`: the integers that the reader keeps exactly.

The main results are `stringBody_escape` and `split?_integer`.
-/

namespace TypeNameLint
namespace Json

variable {rest : List Char}

/-! ## Strings -/

/-- The four digits of a control character, and what they are read as. -/
theorem fourDigits_of_control : ∀ n < 0x20,
    fourDigits n = ['0', '0', Nat.digitChar (n / 16), Nat.digitChar (n % 16)] ∧
      unitValue? '0' '0' (Nat.digitChar (n / 16)) (Nat.digitChar (n % 16)) = some n := by
  decide

/-- A control character without a letter of its own is written as its code unit. -/
theorem stringBody_unit {c : Char} (hc : c.toNat < 0x20) :
    stringBody ('\\' :: 'u' :: fourDigits c.toNat ++ rest) = push (some c) (stringBody rest) := by
  rcases fourDigits_of_control c.toNat hc with ⟨hdigits, hvalue⟩
  have hpair : ¬ (0xD800 ≤ c.toNat ∧ c.toNat < 0xDC00) := by omega
  have hsecond : ¬ (0xD800 ≤ c.toNat ∧ c.toNat < 0xE000) := by omega
  rw [hdigits]
  simp only [List.cons_append, List.nil_append, stringBody, hvalue, if_neg hpair, unitChar?,
    if_neg hsecond, Char.ofNat_toNat]

/-- Other characters are written as they are. -/
theorem stringBody_plain {c : Char} (hquote : c ≠ '"') (hbackslash : c ≠ '\\')
    (hc : ¬ c.toNat < 0x20) : stringBody (c :: rest) = push (some c) (stringBody rest) := by
  rw [stringBody, if_neg hc]
  · exact hquote
  · intro _ _ _ _ _ hc _
    exact absurd hc hbackslash
  · intro _ _ hc _
    exact absurd hc hbackslash

/-- A character is read as it was written. -/
theorem stringBody_escape (c : Char) (rest : List Char) :
    stringBody (escape c ++ rest) = push (some c) (stringBody rest) := by
  unfold escape
  split
  -- Seven characters have a letter; the other control characters are written in digits.
  iterate 7 rfl
  rename_i hquote hbackslash _ _ _ _ _
  split
  · rename_i hc
    exact stringBody_unit hc
  · rename_i hc
    exact stringBody_plain hquote hbackslash hc

/-- A string is read up to its closing quote. -/
theorem stringBody_flatMap_escape (cs rest : List Char) :
    stringBody (cs.flatMap escape ++ '"' :: rest) = some (cs, rest) := by
  induction cs with
  | nil => rfl
  | cons c cs ih =>
    rw [List.flatMap_cons, List.append_assoc, stringBody_escape, ih]
    rfl

/-! ## Digits -/

/-- A text that does not go on with a number. -/
def EndsNumber (rest : List Char) : Prop :=
  ∀ c ∈ rest.head?, c.isDigit = false ∧ c ≠ '.' ∧ c ≠ 'e' ∧ c ≠ 'E'

theorem spanDigits_append {digits : List Char} (hdigits : ∀ c ∈ digits, c.isDigit = true)
    (hrest : EndsNumber rest) : spanDigits (digits ++ rest) = (digits, rest) := by
  have htake : rest.takeWhile Char.isDigit = [] := by
    cases rest with
    | nil => rfl
    | cons c rest => exact List.takeWhile_cons_of_neg (by simp [(hrest c rfl).1])
  have hdrop : rest.dropWhile Char.isDigit = rest := by
    cases rest with
    | nil => rfl
    | cons c rest => exact List.dropWhile_cons_of_neg (by simp [(hrest c rfl).1])
  rw [spanDigits, List.takeWhile_append_of_pos hdigits, List.dropWhile_append_of_pos hdigits, htake,
    hdrop, List.append_nil]

theorem fraction?_of_endsNumber (hrest : EndsNumber rest) : fraction? rest = some ([], rest) := by
  unfold fraction?
  split
  · exact absurd rfl (hrest '.' rfl).2.1
  · rfl

theorem exponent?_of_endsNumber (hrest : EndsNumber rest) : exponent? rest = some (none, rest) := by
  cases rest with
  | nil => rfl
  | cons c rest =>
    rcases hrest c rfl with ⟨-, -, he, hE⟩
    simp [exponent?, he, hE]

theorem isDigit_of_mem_toDigits {n : Nat} : ∀ c ∈ Nat.toDigits 10 n, c.isDigit = true :=
  fun _ hc => Nat.isDigit_of_mem_toDigits (by decide) (by decide) hc

theorem digitsValue_toDigits (n : Nat) : digitsValue 0 (Nat.toDigits 10 n) = n := by
  have hfold := @Nat.ofDigitChars_ten_toDigits n
  rw [Nat.ofDigitChars_eq_foldl] at hfold
  simpa only [digitsValue, Nat.mul_comm 10] using hfold

/-- Only zero is written with a zero in front. -/
theorem head?_toDigits_ne_zero {n : Nat} (hn : 0 < n) : (Nat.toDigits 10 n).head? ≠ some '0' := by
  induction n using Nat.strongRecOn with
  | ind n ih =>
    rw [Nat.toDigits_eq_if (by decide)]
    split
    · rename_i hsmall
      have hdigit : ∀ d < 10, 0 < d → Nat.digitChar d ≠ '0' := by decide
      simpa using hdigit n hsmall hn
    -- The digits in front are those of a smaller number.
    · have hfront := ih (n / 10) (by omega) (by omega)
      rcases List.exists_cons_of_ne_nil (@Nat.toDigits_ne_nil (n / 10) 10) with ⟨c, digits, hdigits⟩
      simpa [hdigits] using hfront

/-! ## Integers -/

/-- The integers that fit 64 bits, signed or unsigned. -/
def FitsInteger (n : Int) : Prop :=
  -0x8000000000000000 ≤ n ∧ n ≤ 0xFFFFFFFFFFFFFFFF

/-- The parts of a number without a fraction and an exponent. -/
def wholeNumber (negative : Bool) (n : Nat) : NumberText :=
  ⟨negative, Nat.toDigits 10 n, [], none⟩

theorem no_leading_zero (n : Nat) :
    ((Nat.toDigits 10 n).isEmpty ||
      (decide ((Nat.toDigits 10 n).head? = some '0') &&
        decide ((Nat.toDigits 10 n).length > 1))) = false := by
  cases n with
  | zero => decide
  | succ n => simp [Nat.toDigits_ne_nil, head?_toDigits_ne_zero (Nat.succ_pos n)]

theorem split?_negative (n : Nat) (hrest : EndsNumber rest) :
    NumberText.split? ('-' :: (Nat.toDigits 10 n ++ rest)) = some (wholeNumber true n, rest) := by
  have hspan := spanDigits_append (@isDigit_of_mem_toDigits n) hrest
  have hzero := no_leading_zero n
  simp only [NumberText.split?, hspan, hzero, fraction?_of_endsNumber hrest]
  simp [exponent?_of_endsNumber hrest, wholeNumber]

theorem split?_natural (n : Nat) (hrest : EndsNumber rest) :
    NumberText.split? (Nat.toDigits 10 n ++ rest) = some (wholeNumber false n, rest) := by
  have hspan := spanDigits_append (@isDigit_of_mem_toDigits n) hrest
  have hzero := no_leading_zero n
  rcases List.exists_cons_of_ne_nil (@Nat.toDigits_ne_nil n 10) with ⟨c, digits, hdigits⟩
  -- The text starts with a digit, so there is no sign.
  have hc : c ≠ '-' := by
    rintro rfl
    exact absurd (@isDigit_of_mem_toDigits n '-' (by simp [hdigits])) (by decide)
  have hsign : ∀ cs, Nat.toDigits 10 n ++ rest = '-' :: cs → False := by
    rintro cs heq
    rw [hdigits, List.cons_append, List.cons.injEq] at heq
    exact hc heq.1
  rw [NumberText.split?]
  · simp only [hspan, hzero, fraction?_of_endsNumber hrest]
    simp [exponent?_of_endsNumber hrest, wholeNumber]
  · exact hsign

theorem value?_negative {n : Nat} (hn : 0 < n) (hle : n ≤ 0x8000000000000000) :
    (wholeNumber true n).value? = some (.integer (-n)) := by
  simp [NumberText.value?, wholeNumber, digitsValue_toDigits, hn, hle]

theorem value?_natural {n : Nat} (hle : n ≤ 0xFFFFFFFFFFFFFFFF) :
    (wholeNumber false n).value? = some (.integer n) := by
  simp [NumberText.value?, wholeNumber, digitsValue_toDigits, NumberText.maxSignificand, hle]

/-- An integer of 64 bits is read as it was written. -/
theorem split?_integer {n : Int} (hn : FitsInteger n) (hrest : EndsNumber rest) :
    ∃ number, NumberText.split? (integer n ++ rest) = some (number, rest) ∧
      number.value? = some (.integer n) := by
  rcases hn with ⟨hlow, hhigh⟩
  cases n with
  | ofNat n =>
    have hle : n ≤ 0xFFFFFFFFFFFFFFFF := Int.ofNat_le.1 hhigh
    exact ⟨_, split?_natural n hrest, value?_natural hle⟩
  | negSucc n =>
    have hle : n + 1 ≤ 0x8000000000000000 := by omega
    exact ⟨_, split?_negative (n + 1) hrest, value?_negative (Nat.succ_pos n) hle⟩

end Json
end TypeNameLint
