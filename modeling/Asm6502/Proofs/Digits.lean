-- Numbers as digits: what is written in decimal or in hexadecimal reads back
-- as the same number.
import Asm6502.Text
import Mathlib.Tactic.IntervalCases

namespace Asm6502

/-! ## One digit -/

theorem hexDigit?_digitByte {n : Nat} (h : n < 16) : hexDigit? (digitByte n) = some n := by
  interval_cases n <;> rfl

theorem isHexDigit_digitByte {n : Nat} (h : n < 16) : isHexDigit (digitByte n) = true := by
  rw [isHexDigit, hexDigit?_digitByte h]
  rfl

theorem isDigit_digitByte {n : Nat} (h : n < 10) : isDigit (digitByte n) = true := by
  interval_cases n <;> rfl

theorem isHexDigit_of_isDigit {b : UInt8} (h : isDigit b = true) : isHexDigit b = true := by
  simp [isHexDigit, hexDigit?, h]

theorem isWordByte_of_isDigit {b : UInt8} (h : isDigit b = true) : isWordByte b = true := by
  simp [isWordByte, h]

/-! ## Runs of digits -/

theorem numberOf_snoc (base : Nat) (digits : Text) (b : UInt8) :
    numberOf base (digits ++ [b]) = numberOf base digits * base + (hexDigit? b).getD 0 := by
  simp [numberOf]

theorem numberOf_decimal (n : Nat) : numberOf 10 (decimal n) = n := by
  fun_induction decimal n with
  | case1 n h => simp [numberOf, hexDigit?_digitByte (Nat.lt_trans h (by omega))]
  | case2 n h ih =>
    rw [numberOf_snoc, ih, hexDigit?_digitByte (by omega), Option.getD_some]
    omega

theorem isDigit_of_mem_decimal {n : Nat} {b : UInt8} (h : b ∈ decimal n) : isDigit b = true := by
  fun_induction decimal n with
  | case1 n hn =>
    rw [List.mem_singleton.1 h]
    exact isDigit_digitByte hn
  | case2 n hn ih =>
    rcases List.mem_append.1 h with h | h
    · exact ih h
    · rw [List.mem_singleton.1 h]
      exact isDigit_digitByte (by omega)

theorem decimal_ne_nil (n : Nat) : decimal n ≠ [] := by
  unfold decimal
  split
  · simp
  · simp

theorem numberOf_hexByte (b : UInt8) : numberOf 16 (hexByte b) = b.toNat := by
  have hb := b.toNat_lt
  simp only [numberOf, hexByte, List.foldl_cons, List.foldl_nil,
    hexDigit?_digitByte (show b.toNat / 16 < 16 by omega),
    hexDigit?_digitByte (show b.toNat % 16 < 16 by omega), Option.getD_some]
  omega

theorem numberOf_hexWord (w : UInt16) : numberOf 16 (hexWord w) = w.toNat := by
  have hw := w.toNat_lt
  simp only [numberOf, hexWord, List.foldl_cons, List.foldl_nil,
    hexDigit?_digitByte (show w.toNat / 4096 < 16 by omega),
    hexDigit?_digitByte (show w.toNat / 256 % 16 < 16 by omega),
    hexDigit?_digitByte (show w.toNat / 16 % 16 < 16 by omega),
    hexDigit?_digitByte (show w.toNat % 16 < 16 by omega), Option.getD_some]
  omega

theorem isHexDigit_of_mem_hexByte {b d : UInt8} (h : d ∈ hexByte b) : isHexDigit d = true := by
  have hb := b.toNat_lt
  simp only [hexByte, List.mem_cons, List.not_mem_nil, or_false] at h
  rcases h with rfl | rfl
  · exact isHexDigit_digitByte (by omega)
  · exact isHexDigit_digitByte (by omega)

theorem isHexDigit_of_mem_hexWord {w : UInt16} {d : UInt8} (h : d ∈ hexWord w) :
    isHexDigit d = true := by
  have hw := w.toNat_lt
  simp only [hexWord, List.mem_cons, List.not_mem_nil, or_false] at h
  rcases h with rfl | rfl | rfl | rfl
  all_goals exact isHexDigit_digitByte (by omega)

end Asm6502
