-- More labels never change what was known. A view that extends another one
-- gives every expression the address and the value that it had, and a
-- statement that was decoded with the first view is decoded with the second
-- to the same mode, or to the zero page form of an absolute mode.
import Asm6502.Directive
import Asm6502.Proofs.Decoding
import Asm6502.Proofs.Except

namespace Asm6502

/-- Every label that has an address in the first view has it in the second. -/
def Label.View.Extends (v w : Label.View) : Prop := ∀ name a, v name = .ok a → w name = .ok a

/-! ## Expressions -/

namespace Expr

/-- The names in an expression, in the order of the text. -/
def names : Expr → List Text
  | .ident name => [name]
  | .highByte e | .lowByte e | .paren e | .bracket e => e.names
  | .binary left _ right => left.names ++ right.names
  | _ => []

variable {v w : Label.View}

theorem lookup_extends (hvw : v.Extends w) {name : Text} {a : Address}
    (h : lookup v name = .ok a) : lookup w name = .ok a :=
  Except.mapError_eq_ok.2 (hvw name a (Except.mapError_eq_ok.1 h))

theorem address_extends (hvw : v.Extends w) {e : Expr} {a : Address} (h : e.address v = .ok a) :
    e.address w = .ok a := by
  induction e generalizing a with
  | ident name => exact lookup_extends hvw h
  | paren e ih => exact ih h
  | highByte e ih | lowByte e ih =>
    rw [address] at h ⊢
    obtain ⟨x, hx, h⟩ := Except.bind_eq_ok.1 h
    exact Except.bind_eq_ok.2 ⟨x, ih hx, h⟩
  | binary left op right ihl ihr =>
    rw [address] at h ⊢
    obtain ⟨l, hl, h⟩ := Except.bind_eq_ok.1 h
    obtain ⟨r, hr, h⟩ := Except.bind_eq_ok.1 h
    exact Except.bind_eq_ok.2 ⟨l, ihl hl, Except.bind_eq_ok.2 ⟨r, ihr hr, h⟩⟩
  | _ => exact h

theorem value_extends (hvw : v.Extends w) {pc : UInt16} {e : Expr} {n : UInt16}
    (h : e.value v pc = .ok n) : e.value w pc = .ok n := by
  induction e generalizing n with
  | ident name =>
    rw [value] at h ⊢
    obtain ⟨x, hx, h⟩ := Except.bind_eq_ok.1 h
    exact Except.bind_eq_ok.2 ⟨x, lookup_extends hvw hx, h⟩
  | paren e ih => exact ih h
  | highByte e ih | lowByte e ih =>
    rw [value] at h ⊢
    obtain ⟨x, hx, h⟩ := Except.bind_eq_ok.1 h
    exact Except.bind_eq_ok.2 ⟨x, ih hx, h⟩
  | binary left op right ihl ihr =>
    rw [value] at h ⊢
    obtain ⟨l, hl, h⟩ := Except.bind_eq_ok.1 h
    obtain ⟨r, hr, h⟩ := Except.bind_eq_ok.1 h
    exact Except.bind_eq_ok.2 ⟨l, ihl hl, Except.bind_eq_ok.2 ⟨r, ihr hr, h⟩⟩
  | _ => exact h

end Expr

/-- A repeat count that was known stays as it is. -/
theorem Directive.fillOf_extends {v w : Label.View} (hvw : v.Extends w) {pc : UInt16} {e : Expr}
    {fill : Fill} (h : fillOf v pc e = .ok fill) : fillOf w pc e = .ok fill := by
  unfold fillOf at h ⊢
  split at h
  · obtain ⟨width, hw, h⟩ := Except.bind_eq_ok.1 h
    obtain ⟨count, hc, h⟩ := Except.bind_eq_ok.1 h
    have hcount := Expr.value_extends hvw (Except.mapError_eq_ok.1 hc)
    exact Except.bind_eq_ok.2
      ⟨width, hw, Except.bind_eq_ok.2 ⟨count, Except.mapError_eq_ok.2 hcount, h⟩⟩
  · simp at h

/-! ## Operands -/

namespace Decode

variable {v w : Label.View}

theorem address?_extends (hvw : v.Extends w) {e : Expr} {a : Address}
    (h : address? v e = some (.known a)) : address? w e = some (.known a) := by
  have hr := address?_register h
  unfold address? at h ⊢
  simp only [hr, Bool.false_eq_true, if_false] at h ⊢
  split at h
  · rename_i b hb
    simpa [Expr.address_extends hvw hb] using h
  · split at h <;> simp at h

/-- A zero page operand that may not wait stays as it is. -/
theorem zeroPage?_extends (hvw : v.Extends w) {e : Expr} {o : Operand}
    (h : zeroPage? v false e = some o) : zeroPage? w false e = some o := by
  unfold zeroPage? at h ⊢
  split at h
  · rename_i a ha
    rw [address?_extends hvw ha]
    exact h
  · simp at h
  · simp at h

/-- So does an operand in a zero page mode, if the instruction has the absolute
form: such an operand does not wait. -/
theorem operand?_extends (hvw : v.Extends w) {mnemonic : Mnemonic} {mode wide : Mode} {e : Expr}
    {o : Operand} (hw : mode.widen? = some wide) (hm : Opcode.has mnemonic wide = true)
    (h : operand? v mnemonic mode e = some o) : operand? w mnemonic mode e = some o := by
  have hwait : mayWait mnemonic mode = false := by simp [mayWait, hw, hm]
  cases mode with
  | zeroPage =>
    simp only [operand?, hwait] at h ⊢
    obtain ⟨inner, hp, hz⟩ := Option.bind_eq_some_iff.1 h
    exact Option.bind_eq_some_iff.2 ⟨inner, hp, zeroPage?_extends hvw hz⟩
  | zeroPageX | zeroPageY =>
    simp only [operand?, hwait] at h ⊢
    obtain ⟨inner, hp, h⟩ := Option.bind_eq_some_iff.1 h
    obtain ⟨base, hi, hz⟩ := Option.bind_eq_some_iff.1 h
    exact Option.bind_eq_some_iff.2
      ⟨inner, hp, Option.bind_eq_some_iff.2 ⟨base, hi, zeroPage?_extends hvw hz⟩⟩
  | _ => simp [Mode.widen?] at hw

/-! ## Statements -/

/-- What more labels do to a mode: it stays, or it becomes the zero page form
of an absolute mode that the instruction has. -/
def Narrows (i j : Instruction) : Prop :=
  j.mode = i.mode ∨ j.mode.widen? = some i.mode ∧ Opcode.has j.mnemonic i.mode = true

theorem inModes?_extends (hvw : v.Extends w) {mnemonic : Mnemonic} {e : Expr} {i j : Instruction}
    (hi : inModes? v mnemonic e = some i) (hj : inModes? w mnemonic e = some j) : Narrows i j := by
  obtain ⟨_, hmi, hoi, _⟩ := inModes?_eq_some hi
  obtain ⟨hj', hmj, _, hfirst⟩ := inModes?_eq_some hj
  have hn : j.mode.narrow = i.mode.narrow :=
    Option.some.inj ((inModes?_spelledMode hj).symm.trans (inModes?_spelledMode hi))
  rcases Mode.eq_or_widen?_of_narrow hn with he | hw | hw
  · exact Or.inl he
  · exact Or.inr ⟨hw, by rw [hj']; exact hmi⟩
  · -- The zero page form still fits, and it is tried before the absolute form.
    have hfit := operand?_extends hvw hw hmj hoi
    rw [hfirst i.mode hw hmi] at hfit
    cases hfit

theorem Form.decode?_extends (hvw : v.Extends w) {st : Statement} {form : Form}
    {i j : Instruction} (hi : form.decode? v st = some i) (hj : form.decode? w st = some j) :
    Narrows i j := by
  cases form with
  | exactly operand mnemonic mode =>
    simp only [Form.decode?] at hi hj
    by_cases ho : st.operand = operand
    · rw [if_pos ho] at hi hj
      cases hi
      cases hj
      exact Or.inl rfl
    · simp [ho] at hi
  | modes mnemonic => exact inModes?_extends hvw hi hj
  | behind register op mnemonic =>
    simp only [Form.decode?] at hi hj
    split at hi
    · rename_i left op' right ho
      by_cases hop : op' = op ∧ left = .ident register
      · simp only [ho, if_pos hop] at hi hj
        exact inModes?_extends hvw hi hj
      · simp [hop] at hi
    · simp at hi
  | stored operand mnemonic =>
    simp only [Form.decode?] at hi hj
    by_cases ho : st.operand = operand
    · rw [if_pos ho] at hi hj
      exact inModes?_extends hvw hi hj
    · simp [ho] at hi
  | jump mnemonic | vector mnemonic =>
    obtain ⟨o, _, rfl⟩ := Option.map_eq_some_iff.1 hi
    obtain ⟨o', _, rfl⟩ := Option.map_eq_some_iff.1 hj
    exact Or.inl rfl
  | branch =>
    -- The target of a branch always waits, so the labels play no part.
    exact Or.inl (congrArg Instruction.mode (Option.some.inj (hj.symm.trans hi)))

end Decode

theorem Statement.decode?_extends {v w : Label.View} (hvw : v.Extends w) {st : Statement}
    {i j : Instruction} (hst : ¬ st.isStackCopy) (hi : st.decode? v = some i)
    (hj : st.decode? w = some j) : Decode.Narrows i j := by
  obtain ⟨form, hf, hg⟩ := decode?_form hst hi hj
  exact Decode.Form.decode?_extends hvw hf hg

end Asm6502
