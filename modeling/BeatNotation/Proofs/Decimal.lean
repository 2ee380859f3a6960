import Mathlib.Data.Nat.Digits.Defs
import BeatNotation.Proofs.Grammar

/-! Decimal numerals and their numbers. A numeral writes the sum of its digits, each times the
power of ten of its place. A number is printed as any numeral of it is without leading zeros. -/

namespace BeatNotation.Numeral

open Alphabet

/-- The digit run without leading zeros; its last digit stays. -/
def trimmed : List Char → List Char
  | [] => []
  | [d] => [d]
  | d :: e :: ds => if d = '0' then trimmed (e :: ds) else d :: e :: ds

/-! ### Digits -/

theorem digit_lt {d : Char} (h : isDigit d) : digit d < 10 := by
  have hdigits : digits.all (digit · < 10) := by decide
  have hmem : d ∈ digits := by simpa [isDigit] using h
  simpa using List.all_eq_true.1 hdigits d hmem

theorem digitChar_digit {d : Char} (h : isDigit d) : Nat.digitChar (digit d) = d := by
  have hdigits : digits.all fun d => Nat.digitChar (digit d) = d := by decide
  have hmem : d ∈ digits := by simpa [isDigit] using h
  simpa using List.all_eq_true.1 hdigits d hmem

theorem isDigit_digitChar {n : Nat} (h : n < 10) : isDigit (Nat.digitChar n) := by
  have hdigits : ∀ n < 10, isDigit (Nat.digitChar n) := by decide
  exact hdigits n h

/-- The digits that a number is printed with are a numeral. -/
theorem isNumeral_toDigits (n : Nat) : IsNumeral (Nat.toDigits 10 n) := by
  refine ⟨Nat.toDigits_ne_nil, ?_⟩
  induction n using Nat.strongRecOn with
  | ind n ih =>
    rw [Nat.toDigits_eq_if (by decide)]
    split
    · next hn => simpa using isDigit_digitChar hn
    · next hn =>
      intro d hd
      rcases List.mem_append.1 hd with hd | hd
      · exact ih (n / 10) (by omega) d hd
      · rw [List.mem_singleton.1 hd]
        exact isDigit_digitChar (Nat.mod_lt n (by decide))

theorem not_mem_toString {c : Char} (hc : ¬ isDigit c) (n : Nat) : c ∉ (toString n).toList := by
  rw [Nat.toString_eq_repr, Nat.toList_repr]
  exact fun h => hc ((isNumeral_toDigits n).2 c h)

/-! ### Values -/

theorem value_eq_ofDigitChars (ds : List Char) : value ds = Nat.ofDigitChars 10 ds 0 := rfl

/-- The number written is the sum of the digits by their places. -/
theorem value_eq_ofDigits (ds : List Char) : value ds = Nat.ofDigits 10 (ds.reverse.map digit) := by
  rw [← List.reverse_reverse ds]
  induction ds.reverse with
  | nil => rfl
  | cons d ds ih =>
    rw [List.reverse_cons, value_append_singleton, ih]
    simp [Nat.ofDigits_cons, Nat.add_comm]

/-- Digits printed after a number are printed with it. -/
theorem toDigits_append {n : Nat} (hn : 0 < n) {ds : List Char} (hd : ∀ d ∈ ds, isDigit d) :
    Nat.toDigits 10 n ++ ds = Nat.toDigits 10 (Nat.ofDigitChars 10 ds n) := by
  induction ds generalizing n with
  | nil => simp
  | cons d ds ih =>
    have hfirst : isDigit d := hd d List.mem_cons_self
    have hnext : 0 < 10 * n + digit d := by omega
    have hstep : Nat.toDigits 10 n ++ [d] = Nat.toDigits 10 (10 * n + digit d) := by
      rw [← Nat.toDigits_append_toDigits (by decide) hn (digit_lt hfirst),
        Nat.toDigits_of_lt_base (digit_lt hfirst), digitChar_digit hfirst]
    calc Nat.toDigits 10 n ++ d :: ds
        = (Nat.toDigits 10 n ++ [d]) ++ ds := by simp
      _ = Nat.toDigits 10 (Nat.ofDigitChars 10 ds (10 * n + digit d)) := by
          rw [hstep, ih hnext fun e he => hd e (List.mem_cons_of_mem _ he)]
      _ = Nat.toDigits 10 (Nat.ofDigitChars 10 (d :: ds) n) := by
          rw [Nat.ofDigitChars_cons]
          rfl

/-- A number is printed as any numeral of it without the leading zeros. -/
theorem toDigits_value {ds : List Char} (h : IsNumeral ds) :
    Nat.toDigits 10 (value ds) = trimmed ds := by
  obtain ⟨hne, hd⟩ := h
  fun_induction trimmed ds with
  | case1 => exact absurd rfl hne
  | case2 d =>
    have hdigit : isDigit d := hd d List.mem_cons_self
    have hvalue : value [d] = digit d := by simp [value]
    rw [hvalue, Nat.toDigits_of_lt_base (digit_lt hdigit), digitChar_digit hdigit]
  | case3 e ds ih =>
    exact ih (by simp) fun c hc => hd c (List.mem_cons_of_mem _ hc)
  | case4 d e ds hzero =>
    have hdigit : isDigit d := hd d List.mem_cons_self
    have hpos : 0 < digit d := by
      apply Nat.pos_of_ne_zero
      intro h
      have hd0 := digitChar_digit hdigit
      rw [h] at hd0
      exact hzero hd0.symm
    have happend := toDigits_append hpos fun c hc => hd c (List.mem_cons_of_mem _ hc)
    rw [Nat.toDigits_of_lt_base (digit_lt hdigit), digitChar_digit hdigit] at happend
    rw [value_eq_ofDigitChars, Nat.ofDigitChars_cons, Nat.mul_zero, Nat.zero_add]
    exact happend.symm

/-! ### Leading zeros -/

theorem isNumeral_trimmed {ds : List Char} (h : IsNumeral ds) : IsNumeral (trimmed ds) := by
  rw [← toDigits_value h]
  exact isNumeral_toDigits _

theorem value_trimmed {ds : List Char} (h : IsNumeral ds) : value (trimmed ds) = value ds := by
  rw [← toDigits_value h, value_eq_ofDigitChars, Nat.ofDigitChars_ten_toDigits]

/-- Only the numeral of zero still begins with one. -/
theorem eq_zero_of_trimmed {ds : List Char} (h : (trimmed ds).head? = some '0') :
    trimmed ds = ['0'] := by
  fun_induction trimmed ds with
  | case1 => cases h
  | case2 d => rw [Option.some.inj h]
  | case3 e ds ih => exact ih h
  | case4 d e ds hzero => exact absurd (Option.some.inj h) hzero

/-- Nothing but zeros is left out. -/
theorem exists_zeros (ds : List Char) : ∃ k, ds = List.replicate k '0' ++ trimmed ds := by
  fun_induction trimmed ds with
  | case1 => exact ⟨0, rfl⟩
  | case2 d => exact ⟨0, rfl⟩
  | case3 e ds ih =>
    obtain ⟨k, hk⟩ := ih
    refine ⟨k + 1, ?_⟩
    rw [List.replicate_succ, List.cons_append, ← hk]
  | case4 d e ds hzero => exact ⟨0, rfl⟩

theorem length_trimmed_le (ds : List Char) : (trimmed ds).length ≤ ds.length := by
  obtain ⟨k, hk⟩ := exists_zeros ds
  have hlength := congrArg List.length hk
  rw [List.length_append] at hlength
  omega

end BeatNotation.Numeral
