-- Which of two widths an instruction gets. The zero page is tried first and takes
-- an address that is known to lie in it; every other address, and every label
-- without one, goes to the absolute form.
import Asm6502.Proofs.DecodedInstruction

namespace Asm6502

namespace Mode

theorem narrow_of_widths {short long mode : Mode} (hw : short.widen? = some long)
    (h : mode = short ∨ mode = long) : mode.narrow = short := by
  have hself : short.narrow = short := by
    cases short <;> simp only [widen?, reduceCtorEq] at hw <;> rfl
  rcases h with rfl | rfl
  · exact hself
  · rw [← narrow_eq_of_widen? hw, hself]

theorem narrow_widen?_of_length_one {mode : Mode} (h : mode.length = 1) :
    mode.narrow.widen? = none := by
  revert h
  cases mode <;> decide

end Mode

namespace Decode

/-- The choice between a zero page mode and its absolute form, by the address of
an expression: short where the address lies in the zero page, and long where it
lies elsewhere or is not known yet. -/
inductive Chooses (labels : Label.View) (short long : Mode) (e : Expr) : Mode → Operand → Prop
  | short {a : Address} (ha : e.address labels = .ok a) (hz : a.isZeroPage = true) :
      Chooses labels short long e short (.byte a.low)
  | long {a : Address} (ha : e.address labels = .ok a) (hz : a.isZeroPage = false) :
      Chooses labels short long e long (.word a.value)
  | waits {error : ValueError} (he : e.address labels = .error error)
      (hu : error.isUnresolved = true) : Chooses labels short long e long (waiting e)

variable {labels : Label.View} {mnemonic : Mnemonic} {short long : Mode} {e : Expr}

namespace Chooses

variable {mode : Mode} {o : Operand}

theorem resolved (hne : long ≠ short) (h : Chooses labels short long e mode o)
    (ho : o.isDeferred = false) :
    ∃ a, e.address labels = .ok a ∧ (mode = short ↔ a.isZeroPage = true) ∧
      (mode = short ∧ o = .byte a.low ∨ mode = long ∧ o = .word a.value) := by
  cases h with
  | short ha hz => exact ⟨_, ha, by simp [hz], Or.inl ⟨rfl, rfl⟩⟩
  | long ha hz => exact ⟨_, ha, by simp [hz, hne], Or.inr ⟨rfl, rfl⟩⟩
  | waits he hu =>
    rw [isDeferred_waiting] at ho
    cases ho

theorem deferred (h : Chooses labels short long e mode o) (ho : o.isDeferred = true) :
    mode = long ∧ ∃ error, e.address labels = .error error ∧ error.isUnresolved = true := by
  cases h with
  | short ha hz => cases ho
  | long ha hz => cases ho
  | waits he hu => exact ⟨rfl, _, he, hu⟩

end Chooses

/-! ## Operands of the two widths -/

theorem operand?_short (hw : short.widen? = some long) (mnemonic : Mnemonic) (e : Expr) :
    operand? labels mnemonic short e =
      (core? short e).bind (zeroPage? labels (mayWait mnemonic short)) := by
  cases short <;> simp only [Mode.widen?, reduceCtorEq] at hw
  case zeroPage => rfl
  case zeroPageX | zeroPageY =>
    cases hp : parenthesized? e <;> simp [operand?, core?, hp]

theorem operand?_long (hw : short.widen? = some long) (mnemonic : Mnemonic) (e : Expr) :
    operand? labels mnemonic long e = (core? short e).bind (absolute? labels) := by
  cases short <;> simp only [Mode.widen?, Option.some.injEq, reduceCtorEq] at hw <;> subst hw
  case zeroPage => rfl
  case zeroPageX | zeroPageY =>
    cases hp : parenthesized? e <;> simp [operand?, core?, hp]

/-- An operand with a long form to go to does not wait for the short one. -/
theorem mayWait_eq_false (hw : short.widen? = some long)
    (hlong : Opcode.has mnemonic long = true) : mayWait mnemonic short = false := by
  simp [mayWait, hw, hlong]

theorem chooses_of_zeroPage? {o : Operand} (h : zeroPage? labels false e = some o) :
    Chooses labels short long e short o := by
  unfold zeroPage? at h
  split at h
  · rename_i a ha
    split at h
    · cases h
      exact .short (address?_known ha) (by assumption)
    · simp at h
  · simp at h
  · simp at h

/-- An operand that is refused by the zero page has its address elsewhere, or
waits. -/
theorem chooses_of_absolute? {o : Operand} (h : absolute? labels e = some o)
    (hshort : zeroPage? labels false e = none) : Chooses labels short long e long o := by
  unfold absolute? at h
  split at h
  · rename_i a ha
    cases h
    refine .long (address?_known ha) ?_
    cases hz : a.isZeroPage with
    | false => rfl
    | true => simp [zeroPage?, ha, hz] at hshort
  · rename_i deferred hd
    obtain ⟨rfl, error, he, hu⟩ := address?_deferred hd
    cases h
    exact .waits he hu
  · simp at h

/-! ## The mode that is tried first -/

/-- Among the modes of an instruction the two widths are chosen by the address. -/
theorem inModes?_chooses {i : Instruction} (h : inModes? labels mnemonic e = some i)
    (hw : short.widen? = some long) (hmode : i.mode = short ∨ i.mode = long)
    (hshort : Opcode.has mnemonic short = true) (hlong : Opcode.has mnemonic long = true) :
    ∃ core, core? i.mode e = some core ∧ Chooses labels short long core i.mode i.operand := by
  obtain ⟨_, _, ho, hnone⟩ := inModes?_eq_some h
  rcases hmode with hmode | hmode
  · rw [hmode, operand?_short hw, mayWait_eq_false hw hlong] at ho
    obtain ⟨core, hcore, ho⟩ := Option.bind_eq_some_iff.1 ho
    rw [hmode]
    exact ⟨core, hcore, chooses_of_zeroPage? ho⟩
  · have hrefused := hnone short (by rw [hmode, hw]) hshort
    rw [operand?_short hw, mayWait_eq_false hw hlong] at hrefused
    rw [hmode, operand?_long hw] at ho
    obtain ⟨core, hcore, ho⟩ := Option.bind_eq_some_iff.1 ho
    rw [hcore, Option.bind_some] at hrefused
    rw [hmode, core?_widen hw]
    exact ⟨core, hcore, chooses_of_absolute? ho hrefused⟩

namespace Form

/-- A jump has no zero page form. -/
def isWide : Form → Bool
  | .jump mnemonic => !Opcode.has mnemonic .zeroPage
  | _ => true

theorem isWide_of_mem : ∀ form ∈ allForms, form.isWide = true := by decide +kernel

/-- A form that gives an instruction of two widths tries the modes of it. -/
theorem Fits.inModes? {st : Statement} {form : Form} {i : Instruction}
    (hl : form.isLegal = true) (hj : form.isWide = true) (h : form.Fits labels st i)
    (hw : i.mode.narrow.widen? = some long)
    (hshort : Opcode.has i.mnemonic i.mode.narrow = true) :
    ∃ e, (∀ mode, form.core? st mode = Decode.core? mode e) ∧
      Decode.inModes? labels i.mnemonic e = some i := by
  cases h with
  | bare =>
    simp only [isLegal, Bool.and_eq_true, beq_iff_eq] at hl
    rw [Mode.narrow_widen?_of_length_one hl.2] at hw
    cases hw
  | inModes hcore hmodes => exact ⟨_, hcore, hmodes⟩
  | jump ha =>
    simp only [isWide, Bool.not_eq_true'] at hj
    exact absurd (hshort.symm.trans hj) Bool.noConfusion
  | vector hb ha => cases hw
  | branch hst hb ht => cases hw

end Form

end Decode

namespace Statement

open Decode

variable {labels : Label.View} {st : Statement} {i : Instruction} {short long : Mode}

theorem decode_chooses (h : st.decode labels = .ok i) (hw : short.widen? = some long)
    (hmode : i.mode = short ∨ i.mode = long) (hshort : Opcode.has i.mnemonic short = true)
    (hlong : Opcode.has i.mnemonic long = true) :
    ∃ core, st.core? labels i.mode = some core ∧
      Chooses labels short long core i.mode i.operand := by
  obtain ⟨form, hmem, hform, hfits⟩ := form?_of_decode? (decode_eq_ok.1 h)
  have hall := mem_allForms hmem
  have hnarrow := Mode.narrow_of_widths hw hmode
  obtain ⟨e, hcore, hmodes⟩ := hfits.inModes? (isLegal_of_mem form hall)
    (Form.isWide_of_mem form hall) (hnarrow.symm ▸ hw) (hnarrow.symm ▸ hshort)
  obtain ⟨core, hc, hchooses⟩ := inModes?_chooses hmodes hw hmode hshort hlong
  refine ⟨core, ?_, hchooses⟩
  rw [Statement.core?, hform, Option.bind_some, hcore, hc]

/-- An instruction that has both widths is short exactly if the address of its
operand is known to lie in the zero page. While the operand waits for a label the
instruction is long. -/
theorem short_form_is_chosen_iff_address_is_short (h : st.decode labels = .ok i)
    (hw : short.widen? = some long) (hmode : i.mode = short ∨ i.mode = long)
    (hshort : Opcode.has i.mnemonic short = true) (hlong : Opcode.has i.mnemonic long = true) :
    ∃ core, st.core? labels i.mode = some core ∧
      (i.operand.isDeferred = false → ∃ a, core.address labels = .ok a ∧
        (i.mode = short ↔ a.isZeroPage = true) ∧
        (i.mode = short ∧ i.operand = .byte a.low ∨ i.mode = long ∧ i.operand = .word a.value)) ∧
      (i.operand.isDeferred = true → i.mode = long ∧
        ∃ error, core.address labels = .error error ∧ error.isUnresolved = true) := by
  obtain ⟨core, hcore, hchooses⟩ := decode_chooses h hw hmode hshort hlong
  have hne : long ≠ short := by
    rintro rfl
    exact absurd (Mode.length_lt_of_widen? hw) (Nat.lt_irrefl _)
  exact ⟨core, hcore, hchooses.resolved hne, hchooses.deferred⟩

/-- `A=(S+X)` -/
def loadFromSX : Statement :=
  ⟨.ident regA, .paren (.binary (.ident (ascii "S")) .add (.ident regX))⟩

/-- The load is short while `S` lies in the zero page, and long before `S` is defined. -/
theorem loadFromSX_is_short_iff_S_is :
    loadFromSX.decode stackLabel = .ok ⟨.lda, .zeroPageX, .byte 0x12⟩ ∧
    loadFromSX.decode .empty = .ok ⟨.lda, .absoluteX, .label (ascii "S")⟩ ∧
    (∃ core a, loadFromSX.core? stackLabel .zeroPageX = some core ∧
      core.address stackLabel = .ok a ∧ a.isZeroPage = true) ∧
    ∃ core error, loadFromSX.core? .empty .absoluteX = some core ∧
      core.address .empty = .error error ∧ error.isUnresolved = true := by
  have hzero : loadFromSX.decode stackLabel = .ok ⟨.lda, .zeroPageX, .byte 0x12⟩ := by
    decide +kernel
  have hwide : loadFromSX.decode .empty = .ok ⟨.lda, .absoluteX, .label (ascii "S")⟩ := by
    decide +kernel
  refine ⟨hzero, hwide, ?_, ?_⟩
  · obtain ⟨core, hcore, hshort, _⟩ := short_form_is_chosen_iff_address_is_short hzero rfl
      (Or.inl rfl) (by decide +kernel) (by decide +kernel)
    obtain ⟨a, ha, hiff, _⟩ := hshort rfl
    exact ⟨core, a, hcore, ha, hiff.1 rfl⟩
  · obtain ⟨core, hcore, _, hlong⟩ := short_form_is_chosen_iff_address_is_short hwide
      (show Mode.zeroPageX.widen? = some .absoluteX from rfl) (Or.inr rfl) (by decide +kernel)
      (by decide +kernel)
    obtain ⟨_, error, he, hu⟩ := hlong rfl
    exact ⟨core, error, hcore, he, hu⟩

end Statement

end Asm6502
