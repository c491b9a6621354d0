-- An expression as an address and as a word. Between two addresses of the zero
-- page there is only room for 8 bits, while a word always has 16. So the two
-- agree as long as no result leaves the zero page. Their low bytes agree even
-- then, as long as nothing asks for the bits that were lost.
import Asm6502.Expr.Value
import Asm6502.Proofs.Except

namespace Asm6502

/-! ## Halves of words -/

theorem toUInt16_toUInt8_of_le {w : UInt16} (h : w ≤ 0xFF) : w.toUInt8.toUInt16 = w := by
  have hw : w.toNat ≤ 0xFF := UInt16.le_iff_toNat_le.1 h
  apply UInt16.toNat_inj.1
  simp
  omega

theorem highHalf_le (w : UInt16) : w >>> 8 ≤ 0xFF := by
  have hw := w.toNat_lt
  have hhalf : (w >>> 8).toNat ≤ 0xFF := by
    simp [Nat.shiftRight_eq_div_pow]
    omega
  exact UInt16.le_iff_toNat_le.2 hhalf

theorem lowHalf_le (w : UInt16) : w &&& 0xFF ≤ 0xFF := by
  have hhalf : (w &&& 0xFF).toNat ≤ 0xFF := by
    rw [UInt16.toNat_and]
    exact Nat.and_le_right
  exact UInt16.le_iff_toNat_le.2 hhalf

theorem lowHalf_eq (w : UInt16) : w &&& 0xFF = w.toUInt8.toUInt16 := by
  rw [← toUInt16_toUInt8_of_le (lowHalf_le w), UInt16.toUInt8_and]
  congr 1
  exact UInt8.and_neg_one

/-! ## Operators -/

namespace Operator

/-- The word that an operator makes of two words, if it makes one. -/
def result? (op : Operator) (a b : UInt16) : Option UInt16 :=
  if op.isComparison then some (if op.holds a b then 1 else 0) else (op.apply a b).toOption

variable {op : Operator} {a b c d w : UInt16}

theorem result?_of_apply (h : op.apply a b = .ok w) : op.result? a b = some w := by
  cases op with
  | comma | greater | less | equal | notEqual | unlisted => cases h
  | add | sub | mul | div | and | or | xor =>
    rw [result?, h]
    rfl

/-- The low byte of a result comes from the low bytes alone, unless it is a
quotient. -/
theorem apply_low (hdiv : op ≠ .div) (h : op.apply a b = .ok w) (ha : c.toUInt8 = a.toUInt8)
    (hb : d.toUInt8 = b.toUInt8) : ∃ x, op.apply c d = .ok x ∧ x.toUInt8 = w.toUInt8 := by
  cases op with
  | add | sub | mul | and | or | xor =>
    cases h
    exact ⟨_, rfl, by simp [ha, hb]⟩
  | div => exact absurd rfl hdiv
  | comma | greater | less | equal | notEqual | unlisted => cases h

end Operator

namespace Address

@[simp] theorem low_zeroPage (b : UInt8) : (zeroPage b).low = b := UInt8.toUInt8_toUInt16 b

@[simp] theorem low_full (w : UInt16) : (full w).low = w.toUInt8 := rfl

/-- Addresses combine exactly if their words do. -/
theorem combine_eq_ok {op : Operator} {left right a : Address} :
    combine op left right = .ok a ↔ ∃ w, op.apply left.value right.value = .ok w ∧
      a = if left.isZeroPage && right.isZeroPage then .zeroPage w.toUInt8 else .full w := by
  unfold combine
  cases op.apply left.value right.value with
  | ok w =>
    simp only [Except.ok.injEq, exists_eq_left']
    split
    · exact ⟨fun h => (Except.ok.inj h).symm, fun h => congrArg _ h.symm⟩
    · exact ⟨fun h => (Except.ok.inj h).symm, fun h => congrArg _ h.symm⟩
  | error failure => cases failure <;> simp

end Address

namespace Expr

variable {labels : Label.View} {pc : UInt16}

/-! ## Values of operators -/

theorem value_binary_eq_ok {left right : Expr} {op : Operator} {w : UInt16} :
    (binary left op right).value labels pc = .ok w ↔ ∃ a b, left.value labels pc = .ok a ∧
      right.value labels pc = .ok b ∧ op.result? a b = some w := by
  rw [value]
  cases left.value labels pc with
  | error => simp [bind, Except.bind]
  | ok a =>
    cases right.value labels pc with
    | error => simp [bind, Except.bind]
    | ok b =>
      simp only [bind, Except.bind, Except.ok.injEq, exists_and_left, exists_eq_left',
        Operator.result?]
      split
      · simp
      · cases op.apply a b with
        | ok v => simp [Except.toOption]
        | error failure => cases failure <;> simp [Except.toOption]

/-! ## Addresses as words -/

/-- No result of two zero page addresses leaves the zero page, anywhere in the
expression. -/
def NeverWraps (labels : Label.View) : Expr → Prop
  | .binary left op right =>
    left.NeverWraps labels ∧ right.NeverWraps labels ∧
      ∀ a b w, left.address labels = .ok (.zeroPage a) → right.address labels = .ok (.zeroPage b) →
        op.apply a.toUInt16 b.toUInt16 = .ok w → w ≤ 0xFF
  | .highByte e | .lowByte e | .paren e | .bracket e => e.NeverWraps labels
  | .empty | .decimal _ | .byte _ | .word _ | .string _ | .ident _ | .system _ => True

/-- An address that was reached without leaving the zero page is the value of
the expression. -/
theorem value_of_address {e : Expr} {a : Address} (hwrap : e.NeverWraps labels)
    (h : e.address labels = .ok a) : e.value labels pc = .ok a.value := by
  induction e generalizing a with
  | decimal n =>
    cases h
    rw [value]
    split
    · rename_i hn
      rw [Address.value_zeroPage, toUInt16_toUInt8_of_le hn]
    · rfl
  | byte b | word w =>
    cases h
    rfl
  | ident name =>
    rw [value, show lookup labels name = .ok a from h]
    rfl
  | paren e ih => exact ih hwrap h
  | highByte e ih =>
    obtain ⟨x, hx, h⟩ := Except.bind_eq_ok.1 h
    cases h
    rw [value, ih hwrap hx, Address.value_zeroPage, Address.high,
      toUInt16_toUInt8_of_le (highHalf_le x.value)]
    rfl
  | lowByte e ih =>
    obtain ⟨x, hx, h⟩ := Except.bind_eq_ok.1 h
    cases h
    rw [value, ih hwrap hx, Address.value_zeroPage, Address.low, ← lowHalf_eq]
    rfl
  | binary left op right ihl ihr =>
    obtain ⟨hleft, hright, hzero⟩ := hwrap
    obtain ⟨l, hl, h⟩ := Except.bind_eq_ok.1 h
    obtain ⟨r, hr, h⟩ := Except.bind_eq_ok.1 h
    obtain ⟨w, hw, rfl⟩ := Address.combine_eq_ok.1 h
    have hvalue : (binary left op right).value labels pc = .ok w :=
      value_binary_eq_ok.2 ⟨_, _, ihl hleft hl, ihr hright hr, Operator.result?_of_apply hw⟩
    rw [hvalue]
    -- Only two addresses of the zero page are cut to a byte, and there nothing is lost.
    cases l with
    | full => rfl
    | zeroPage x =>
      cases r with
      | full => rfl
      | zeroPage y => exact congrArg _ (toUInt16_toUInt8_of_le (hzero x y w hl hr hw)).symm
  | empty | string | bracket | system => cases h

/-! ## Low bytes -/

/-- The low byte of the expression depends on low bytes alone: there is no high
byte and no quotient in it. -/
def isLowOnly : Expr → Bool
  | .highByte _ => false
  | .binary left op right => decide (op ≠ .div) && left.isLowOnly && right.isLowOnly
  | .lowByte e | .paren e | .bracket e => e.isLowOnly
  | .empty | .decimal _ | .byte _ | .word _ | .string _ | .ident _ | .system _ => true

/-- An expression without high bytes and quotients that has an address has a
value with the same low byte. -/
theorem value_low_of_address {e : Expr} {a : Address} (hlow : e.isLowOnly = true)
    (h : e.address labels = .ok a) : ∃ w, e.value labels pc = .ok w ∧ w.toUInt8 = a.low := by
  induction e generalizing a with
  | decimal n =>
    cases h
    refine ⟨n, rfl, ?_⟩
    split
    · rw [Address.low_zeroPage]
    · rw [Address.low_full]
  | byte b =>
    cases h
    exact ⟨b.toUInt16, rfl, rfl⟩
  | word w =>
    cases h
    exact ⟨w, rfl, rfl⟩
  | ident name =>
    rw [value, show lookup labels name = .ok a from h]
    exact ⟨a.value, rfl, rfl⟩
  | paren e ih => exact ih hlow h
  | lowByte e ih =>
    obtain ⟨x, hx, h⟩ := Except.bind_eq_ok.1 h
    cases h
    obtain ⟨w, hw, hwx⟩ := ih hlow hx
    refine ⟨w &&& 0xFF, ?_, ?_⟩
    · rw [value, hw]
      rfl
    · rw [lowHalf_eq, UInt8.toUInt8_toUInt16, hwx, Address.low_zeroPage]
  | binary left op right ihl ihr =>
    simp only [isLowOnly, Bool.and_eq_true, decide_eq_true_eq] at hlow
    obtain ⟨⟨hdiv, hleft⟩, hright⟩ := hlow
    obtain ⟨l, hl, h⟩ := Except.bind_eq_ok.1 h
    obtain ⟨r, hr, h⟩ := Except.bind_eq_ok.1 h
    obtain ⟨w, hw, rfl⟩ := Address.combine_eq_ok.1 h
    obtain ⟨x, hx, hxl⟩ := ihl hleft hl
    obtain ⟨y, hy, hyr⟩ := ihr hright hr
    obtain ⟨z, hz, hzw⟩ := Operator.apply_low hdiv hw hxl hyr
    refine ⟨z, value_binary_eq_ok.2 ⟨x, y, hx, hy, Operator.result?_of_apply hz⟩, ?_⟩
    rw [hzw]
    split
    · rw [Address.low_zeroPage]
    · rw [Address.low_full]
  | highByte => cases hlow
  | empty | string | bracket | system => cases h

/-- If an expression has an address and no result of two zero page addresses
leaves the zero page, then its value is that address. And where results are cut
to the zero page, the value still has the low byte of the address, if there is no
high byte and no quotient in the expression. -/
theorem address_and_value_agree (labels : Label.View) (pc : UInt16) (e : Expr) {a : Address}
    (h : e.address labels = .ok a) :
    (e.NeverWraps labels → e.value labels pc = .ok a.value) ∧
      (e.isLowOnly = true → ∃ w, e.value labels pc = .ok w ∧ w.toUInt8 = a.low) :=
  ⟨fun hwrap => value_of_address hwrap h, fun hlow => value_low_of_address hlow h⟩

/-- A pointer at the end of the zero page and the start of a screen. -/
def pageLabels : Label.View := fun name =>
  if name = ascii "ptr" then .ok (.zeroPage 0xF0)
  else if name = ascii "screen" then .ok (.full 0x0400)
  else .error (.missing name)

/-- The sum `screen+ptr+offset`, which adds the pointer and the offset first. -/
def pagedSum (offset : UInt8) : Expr :=
  .binary (.ident (ascii "screen")) .add (.binary (.ident (ascii "ptr")) .add (.byte offset))

/-- The offset `$0F` stays in the zero page. With `$20` the inner sum wraps, the
address is a page below the value, and only the low bytes are the same. -/
theorem pagedSum_agrees :
    (pagedSum 0x0F).NeverWraps pageLabels ∧
      (pagedSum 0x0F).value pageLabels 0 = .ok (Address.full 0x04FF).value ∧
      (pagedSum 0x20).value pageLabels 0 = .ok 0x0510 ∧
      ∃ w, (pagedSum 0x20).value pageLabels 0 = .ok w ∧ w.toUInt8 = (Address.full 0x0410).low := by
  have hnear : (pagedSum 0x0F).NeverWraps pageLabels := by
    refine ⟨trivial, ⟨trivial, trivial, fun a b w ha hb hw => ?_⟩, fun a b w ha _ _ => ?_⟩
    · cases ha
      cases hb
      cases hw
      decide
    · cases ha
  exact ⟨hnear, (address_and_value_agree pageLabels 0 (pagedSum 0x0F) rfl).1 hnear, rfl,
    (address_and_value_agree pageLabels 0 (pagedSum 0x20) rfl).2 rfl⟩

end Expr

end Asm6502
