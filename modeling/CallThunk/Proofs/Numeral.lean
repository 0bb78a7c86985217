import CallThunk.Numeral

/-!
# Numerals read back

The decimal digits of a number have it as their value.
-/

namespace CallThunk.Numeral

theorem toList_decimal (n : Nat) : (decimal n).toList = Nat.toDigits 10 n := by
  simp [decimal]

theorem isDigit_of_mem_decimal {n : Nat} {c : Char} (h : c ∈ (decimal n).toList) : c.isDigit := by
  rw [toList_decimal] at h
  exact Nat.isDigit_of_mem_toDigits (by decide) (by decide) h

theorem digitIn?_of_isDigit {c : Char} (h : c.isDigit) :
    digitIn? 10 c = some (c.toNat - '0'.toNat) := by
  have digit : 48 ≤ c.toNat ∧ c.toNat ≤ 57 := by
    simpa [Char.isDigit, UInt32.le_iff_toNat_le] using h
  have range : '0' ≤ c ∧ c ≤ '9' := by
    simpa [Char.le_def, UInt32.le_iff_toNat_le] using digit
  rw [digitIn?, digit?, if_pos range, Option.filter_some, if_pos]
  have zero : '0'.toNat = 48 := rfl
  rw [zero]
  exact decide_eq_true (by omega)

/-- Digits have a value, which is the one that the library gives them. -/
theorem foldlM_digits {cs : List Char} (h : ∀ c ∈ cs, c.isDigit) (acc : Nat) :
    cs.foldlM (fun acc c => (digitIn? 10 c).map (10 * acc + ·)) acc =
      some (Nat.ofDigitChars 10 cs acc) := by
  induction cs generalizing acc with
  | nil => rfl
  | cons c cs ih =>
      rw [List.foldlM_cons, digitIn?_of_isDigit (h c (List.mem_cons_self ..))]
      exact ih (fun d hd => h d (List.mem_cons_of_mem _ hd)) _

theorem value?_decimal (n : Nat) : value? 10 (decimal n).toList = some n := by
  rw [value?, foldlM_digits fun c => isDigit_of_mem_decimal, toList_decimal,
    Nat.ofDigitChars_ten_toDigits]

theorem decimal_injective {n m : Nat} (h : decimal n = decimal m) : n = m := by
  have values := congrArg (fun s : String => value? 10 s.toList) h
  simpa only [value?_decimal, Option.some.injEq] using values

end CallThunk.Numeral
