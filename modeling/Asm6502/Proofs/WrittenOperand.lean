-- What is written behind an opcode. An operand that is still waiting once all
-- labels are known cannot be written. Any other one is the address of an
-- expression, and the address is written with all its bytes.
import Asm6502.Proofs.DecodedInstruction

namespace Asm6502

/-! ## Bytes as numbers -/

/-- The number that bytes stand for, the low one first. -/
def littleEndianValue (bytes : Text) : Nat := bytes.foldr (fun b n => b.toNat + 256 * n) 0

theorem littleEndianValue_littleEndian (w : UInt16) :
    littleEndianValue (littleEndian w) = w.toNat := by
  have hw := w.toNat_lt
  simp [littleEndianValue, littleEndian, Nat.shiftRight_eq_div_pow]
  omega

theorem littleEndianValue_toUInt8 {w : UInt16} (h : w ≤ 0xFF) :
    littleEndianValue [w.toUInt8] = w.toNat := by
  have hw : w.toNat ≤ 0xFF := UInt16.le_iff_toNat_le.1 h
  simp [littleEndianValue]
  omega

namespace Address

/-- An address in the zero page is its low byte. -/
theorem toUInt16_low {a : Address} (h : a.isZeroPage = true) : a.low.toUInt16 = a.value := by
  cases a with
  | zeroPage b => simp [low]
  | full w => simp [isZeroPage] at h

theorem value_le_of_isZeroPage {a : Address} (h : a.isZeroPage = true) : a.value ≤ 0xFF := by
  rw [← toUInt16_low h, UInt16.le_iff_toNat_le]
  have hb := a.low.toNat_lt
  simp
  omega

end Address

/-! ## Expressions that wait -/

namespace Expr

variable {labels : Label.View} {pc : UInt16} {error : ValueError}

theorem combine_ne_unresolved {op : Operator} {left right : Address}
    (h : Address.combine op left right = .error error) : error.isUnresolved = false := by
  unfold Address.combine at h
  split at h
  · split at h <;> cases h
  · cases h
    rfl
  · cases h
    rfl

/-- An expression that has a value does not wait for a label. It may still have
no address, for other reasons. -/
theorem not_unresolved_of_value {e : Expr} {n : UInt16} (hv : e.value labels pc = .ok n)
    (ha : e.address labels = .error error) : error.isUnresolved = false := by
  induction e generalizing n with
  | ident name =>
    obtain ⟨a, hl, _⟩ := Except.bind_eq_ok.1 hv
    rw [address, hl] at ha
    cases ha
  | paren e ih => exact ih hv ha
  | highByte e ih | lowByte e ih =>
    obtain ⟨m, hm, _⟩ := Except.bind_eq_ok.1 hv
    rcases Except.bind_eq_error.1 ha with ha | ⟨_, _, ha⟩
    · exact ih hm ha
    · cases ha
  | binary left op right ihl ihr =>
    obtain ⟨l, hl, hv⟩ := Except.bind_eq_ok.1 hv
    obtain ⟨r, hr, _⟩ := Except.bind_eq_ok.1 hv
    rcases Except.bind_eq_error.1 ha with ha | ⟨_, _, ha⟩
    · exact ihl hl ha
    · rcases Except.bind_eq_error.1 ha with ha | ⟨_, _, ha⟩
      · exact ihr hr ha
      · exact combine_ne_unresolved ha
  | decimal | byte | word => cases ha
  | empty | string | bracket | system =>
    cases ha
    rfl

end Expr

/-! ## Errors of misfits -/

/-- The error says that an operand does not belong to its instruction: it is too
large, there is none, or the instruction does not exist. -/
def Error.isMisfit : Error → Bool
  | .byteRange .. | .badData | .opcode _ => true
  | _ => false

namespace Emit

open Decode

variable {labels : Label.View} {st : Statement} {form : Form} {size : Sizing}

theorem operandValue_no_misfit {o : Operand} (pc : UInt16) (h : o ≠ .none) :
    (operandValue labels pc o).ErrorIs (Error.isMisfit · = false) := by
  cases o with
  | byte | word | target => exact Except.errorIs_ok _
  | label name | expr e => exact Except.errorIs_mapError _ fun _ => rfl
  | none => exact absurd rfl h

theorem operandValue_waiting {e : Expr} {error : ValueError} (pc : UInt16)
    (he : e.address labels = .error error) (hu : error.isUnresolved = true) :
    ∃ cause, operandValue labels pc (waiting e) = .error cause ∧ cause.isMisfit = false := by
  have hne : waiting e ≠ .none := by cases e <;> simp [waiting]
  cases hv : operandValue labels pc (waiting e) with
  | error cause => exact ⟨cause, rfl, operandValue_no_misfit pc hne cause hv⟩
  | ok n =>
    have hvalue : e.value labels pc = .ok n := by
      cases e with
      | ident name =>
        obtain ⟨a, hl, hn⟩ := Except.map_eq_ok.1 (Except.mapError_eq_ok.1 hv)
        rw [Expr.value, Expr.lookup, hl, ← hn]
        rfl
      | _ => exact (Except.mapError_eq_ok (f := Error.value)).1 hv
    rw [Expr.not_unresolved_of_value hvalue he] at hu
    cases hu

/-- An operand that stands for an expression waits in vain, or is the address of
the expression and fits the mode. -/
theorem operandValue_of_stands {mode : Mode} {e : Expr} {o : Operand} (pc : UInt16)
    (h : Stands labels mode e o) :
    (o.isDeferred = true ∧
        ∃ error, operandValue labels pc o = .error error ∧ error.isMisfit = false) ∨
      (o.isDeferred = false ∧ ∃ a, e.address labels = .ok a ∧
        operandValue labels pc o = .ok a.value ∧ (mode.length = 2 → a.value ≤ 0xFF)) := by
  cases h with
  | byte ha hz hm =>
    refine Or.inr ⟨rfl, _, ha, ?_, fun _ => Address.value_le_of_isZeroPage hz⟩
    rw [operandValue, Address.toUInt16_low hz]
  | word ha hm =>
    refine Or.inr ⟨rfl, _, ha, rfl, fun h2 => ?_⟩
    omega
  | waits he hu hm hi => exact Or.inl ⟨isDeferred_waiting e, operandValue_waiting pc he hu⟩

/-! ## The form that is written -/

/-- The operand in the absolute form of a zero page mode. -/
def widened : Operand → Operand
  | .byte b => .word b.toUInt16
  | o => o

/-- What is written is the decoded instruction, or its absolute form. -/
theorem fitted_cases {length : Nat} {decoded i : Instruction}
    (h : fitted length decoded = .ok i) :
    i = decoded ∨ ∃ wide, decoded.mode.widen? = some wide ∧
      Opcode.has decoded.mnemonic wide = true ∧
      i = ⟨decoded.mnemonic, wide, widened decoded.operand⟩ := by
  unfold fitted widen at h
  split at h
  · split at h
    · rename_i wide hw
      split at h
      · cases h
        exact Or.inr ⟨wide, hw, by assumption, rfl⟩
      · simp at h
    · simp at h
  · cases h
    exact Or.inl rfl

theorem has_of_fitted {length : Nat} {decoded i : Instruction}
    (h : fitted length decoded = .ok i) (hhas : Opcode.has decoded.mnemonic decoded.mode = true) :
    Opcode.has i.mnemonic i.mode = true := by
  obtain rfl | ⟨wide, _, hwide, rfl⟩ := fitted_cases h
  · exact hhas
  · exact hwide

theorem isDeferred_of_fitted {length : Nat} {decoded i : Instruction}
    (h : fitted length decoded = .ok i) :
    i.operand.isDeferred = decoded.operand.isDeferred := by
  obtain rfl | ⟨wide, _, _, rfl⟩ := fitted_cases h
  · rfl
  · cases decoded.operand <;> rfl

/-- In the absolute form of a mode, an operand stands for the same expression. -/
theorem stands_widened {mode wide : Mode} {e : Expr} {o : Operand}
    (hw : mode.widen? = some wide) (hs : Stands labels mode e o) :
    Stands labels wide e (widened o) := by
  obtain ⟨h2, h3⟩ := Mode.length_of_widen? hw
  cases hs with
  | byte ha hz hm =>
    rw [widened, Address.toUInt16_low hz]
    exact .word ha h3
  | word ha hm => omega
  | waits he hu hm hi =>
    have hkeep : widened (waiting e) = waiting e := by cases e <;> rfl
    rw [hkeep]
    refine .waits he hu (Or.inr h3) ?_
    rintro rfl
    cases h3

theorem core?_of_widen {mode wide : Mode} (h : mode.widen? = some wide) :
    form.core? st wide = form.core? st mode := by
  cases form with
  | behind register op mnemonic =>
    simp only [Form.core?]
    split
    · exact core?_widen h _
    · rfl
  | modes | stored => exact core?_widen h _
  | exactly | jump | vector | branch => rfl

/-- What is written is given by the form that decides the statement, too. -/
theorem gives_of_fitted {length : Nat} {decoded i : Instruction}
    (h : fitted length decoded = .ok i) (hg : form.Gives labels st decoded) :
    form.Gives labels st i := by
  obtain rfl | ⟨wide, hw, _, rfl⟩ := fitted_cases h
  · exact hg
  · obtain ⟨h2, h3⟩ := Mode.length_of_widen? hw
    cases hg with
    | bare hm => exact absurd (h2.symm.trans hm) (by decide)
    | addressed hm hc hs =>
      have hr : wide ≠ .relative := by
        rintro rfl
        cases h3
      exact .addressed hr ((core?_of_widen hw).trans hc) (stands_widened hw hs)
    | branch hst hb ht => simp [Mode.widen?] at hw

/-! ## Bytes -/

theorem lookup_of_has {mnemonic : Mnemonic} {mode : Mode} (h : Opcode.has mnemonic mode = true) :
    ∃ code, Opcode.lookup mnemonic mode = .ok code := by
  obtain ⟨code, hc⟩ := Option.isSome_iff_exists.1 h
  exact ⟨code, lookup_eq_ok.2 hc⟩

theorem encoded_bare {i : Instruction} {code : UInt8}
    (hcode : Opcode.lookup i.mnemonic i.mode = .ok code) (h1 : i.mode.length = 1) :
    encoded labels st size i = .ok [code] := by
  have hl : i.length = 1 := h1
  unfold encoded
  rw [hcode]
  simp [Except.mapError, bind, Except.bind, pure, Except.pure, hl]

/-- An instruction of more than one byte is its opcode and the bytes of its
operand. -/
theorem encoded_eq {i : Instruction} {code : UInt8}
    (hcode : Opcode.lookup i.mnemonic i.mode = .ok code) (h1 : i.mode.length ≠ 1) :
    encoded labels st size i =
      (operandValue labels size.pc i.operand >>= operandCodes st i.mode size.pc).map
        (code :: ·) := by
  have hl : ¬ i.length = 1 := h1
  unfold encoded
  rw [hcode]
  cases operandValue labels size.pc i.operand with
  | error e => simp [Except.mapError, Except.map, bind, Except.bind, hl]
  | ok value =>
    cases hc : operandCodes st i.mode size.pc value with
    | error e => simp [Except.mapError, Except.map, bind, Except.bind, hl, hc]
    | ok rest => simp [Except.mapError, Except.map, bind, Except.bind, pure, Except.pure, hl, hc]

/-- A value that fits the mode is written with all its bytes. -/
theorem operandCodes_in_full {mode : Mode} {value : UInt16} (st : Statement) (pc : UInt16)
    (hr : mode ≠ .relative) (h1 : mode.length ≠ 1) (hfits : mode.length = 2 → value ≤ 0xFF) :
    ∃ rest, operandCodes st mode pc value = .ok rest ∧ rest.length + 1 = mode.length ∧
      littleEndianValue rest = value.toNat := by
  by_cases h2 : mode.length = 2
  · have hle := hfits h2
    refine ⟨[value.toUInt8], ?_, by simp [h2], littleEndianValue_toUInt8 hle⟩
    simp [operandCodes, hr, h2, hle]
  · have hok : operandCodes st mode pc value = .ok (littleEndian value) := by
      simp [operandCodes, hr, h2]
    refine ⟨littleEndian value, hok, operandCodes_length hok h1, ?_⟩
    exact littleEndianValue_littleEndian value

/-- What becomes of an instruction whose operand stands for an expression. -/
theorem encoded_of_stands {i : Instruction} {e : Expr}
    (hhas : Opcode.has i.mnemonic i.mode = true) (hr : i.mode ≠ .relative)
    (hs : Stands labels i.mode e i.operand) :
    (i.operand.isDeferred = true ∧
        ∃ error, encoded labels st size i = .error error ∧ error.isMisfit = false) ∨
      (i.operand.isDeferred = false ∧ ∃ a code rest, e.address labels = .ok a ∧
        Opcode.lookup i.mnemonic i.mode = .ok code ∧
        encoded labels st size i = .ok (code :: rest) ∧ rest.length + 1 = i.mode.length ∧
        littleEndianValue rest = a.value.toNat) := by
  obtain ⟨code, hcode⟩ := lookup_of_has hhas
  have h1 : i.mode.length ≠ 1 := by
    have := hs.length
    omega
  have heq : encoded labels st size i = _ := encoded_eq hcode h1
  rcases operandValue_of_stands size.pc hs with ⟨hd, error, hv, hm⟩ | ⟨hd, a, ha, hv, hfits⟩
  · refine Or.inl ⟨hd, error, ?_, hm⟩
    rw [heq, hv]
    rfl
  · obtain ⟨rest, hc, hl, hn⟩ := operandCodes_in_full st size.pc hr h1 hfits
    refine Or.inr ⟨hd, a, code, rest, ha, hcode, ?_, hl, hn⟩
    rw [heq, hv]
    exact Except.map_eq_ok.2 ⟨rest, hc, rfl⟩

/-- An instruction that a form gives is never refused as a misfit. -/
theorem encoded_no_misfit {i : Instruction} (hhas : Opcode.has i.mnemonic i.mode = true)
    (hg : form.Gives labels st i) :
    (encoded labels st size i).ErrorIs (Error.isMisfit · = false) := by
  obtain ⟨code, hcode⟩ := lookup_of_has hhas
  cases hg with
  | bare hm =>
    rw [encoded_bare hcode hm]
    exact Except.errorIs_ok _
  | addressed hr hc hs =>
    rcases encoded_of_stands hhas hr hs with ⟨_, error, he, hm⟩ | ⟨_, a, code, rest, _, _, he, _⟩
    · rw [he]
      exact Except.errorIs_error hm
    · rw [he]
      exact Except.errorIs_ok _
  | @branch mnemonic condition target o hst hb ht =>
    have hne : o ≠ .none := by
      rintro rfl
      rcases branchTarget?_eq_some ht with ⟨w, hw⟩ | hd
      · cases hw
      · cases hd
    rw [encoded_eq hcode (by simp [Mode.length])]
    intro error he
    rw [Except.map_eq_error] at he
    refine (operandValue_no_misfit size.pc hne).bind ?_ error he
    intro value _
    exact operandCodes_errorIs (fun _ => rfl) fun hr => absurd rfl hr

/-! ## Statements -/

/-- What is written for a statement that is decoded: an instruction that the
form of the statement gives, and that has an opcode. -/
theorem written_gives {length : Nat} {decoded i : Instruction}
    (hd : st.decode labels = .ok decoded) (hf : fitted length decoded = .ok i) :
    Opcode.has i.mnemonic i.mode = true ∧
      ∃ form, st.form? labels = some form ∧ form.Gives labels st i := by
  obtain ⟨hhas, form, hform, hg⟩ := Statement.decode?_gives (Statement.decode_eq_ok.1 hd)
  exact ⟨has_of_fitted hf hhas, form, hform, gives_of_fitted hf hg⟩

theorem instructionCodes_no_misfit (labels : Label.View) (st : Statement) (size : Sizing) :
    (instructionCodes labels st size).ErrorIs (Error.isMisfit · = false) := by
  have hdecode : ((st.decode labels).mapError .decode).ErrorIs (Error.isMisfit · = false) :=
    Except.errorIs_mapError _ fun _ => rfl
  have hfitted (decoded : Instruction) :
      (fitted size.length decoded).ErrorIs (Error.isMisfit · = false) :=
    fitted_errorIs (by rfl) _ _
  rw [instructionCodes_eq]
  refine hdecode.bind fun decoded hd => ?_
  refine (hfitted decoded).bind fun i hf => ?_
  obtain ⟨hhas, form, _, hg⟩ := written_gives (Except.mapError_eq_ok.1 hd) hf
  exact encoded_no_misfit hhas hg

theorem instructionCodes_of_fitted {decoded i : Instruction} (hd : st.decode labels = .ok decoded)
    (hf : fitted size.length decoded = .ok i) :
    instructionCodes labels st size = encoded labels st size i := by
  have hbind : instructionCodes labels st size =
      fitted size.length decoded >>= encoded labels st size := by
    rw [instructionCodes_eq, hd]
    rfl
  rw [hbind, hf]
  rfl

/-- Apart from branches, exactly the operands that do not wait are written. -/
theorem encoded_isOk_iff {i : Instruction} (hhas : Opcode.has i.mnemonic i.mode = true)
    (hr : i.mode ≠ .relative) (hg : form.Gives labels st i) :
    (∃ codes, encoded labels st size i = .ok codes) ↔ i.operand.isDeferred = false := by
  cases hg with
  | bare hm =>
    obtain ⟨code, hcode⟩ := lookup_of_has hhas
    exact ⟨fun _ => rfl, fun _ => ⟨[code], encoded_bare hcode hm⟩⟩
  | branch hst hb ht => exact absurd rfl hr
  | addressed hm hc hs =>
    rcases encoded_of_stands hhas hr hs with ⟨hd, error, he, _⟩ | ⟨hd, _, code, rest, _, _, he, _⟩
    · rw [he, hd]
      simp
    · exact ⟨fun _ => hd, fun _ => ⟨code :: rest, he⟩⟩

/-- An instruction is written faithfully. No error is that of a misfit. Apart
from branches, an operand that waits is never written, and one that does not
wait is. The bytes behind the opcode are the address of the core of the
statement, with the low byte first and none left out. -/
structure Faithful (labels : Label.View) (st : Statement) (size : Sizing) : Prop where
  no_misfit : ∀ error, instructionCodes labels st size = .error error → error.isMisfit = false
  deferred : ∀ decoded, st.decode labels = .ok decoded → decoded.mode ≠ .relative →
    decoded.operand.isDeferred = true → ∃ error, instructionCodes labels st size = .error error
  known : ∀ decoded written, st.decode labels = .ok decoded →
    fitted size.length decoded = .ok written → written.mode ≠ .relative →
    decoded.operand.isDeferred = false → ∃ codes, instructionCodes labels st size = .ok codes
  in_full : ∀ codes, instructionCodes labels st size = .ok codes →
    ∃ decoded written, st.decode labels = .ok decoded ∧
      fitted size.length decoded = .ok written ∧
      (written.mode ≠ .relative → written.mode.length ≠ 1 →
        ∃ core a code rest, st.core? labels written.mode = some core ∧
          core.address labels = .ok a ∧
          Opcode.lookup written.mnemonic written.mode = .ok code ∧ codes = code :: rest ∧
          rest.length + 1 = written.mode.length ∧ littleEndianValue rest = a.value.toNat)

theorem instructionCodes_deferred {decoded : Instruction} (hd : st.decode labels = .ok decoded)
    (hr : decoded.mode ≠ .relative) (hwaits : decoded.operand.isDeferred = true) :
    ∃ error, instructionCodes labels st size = .error error := by
  cases h : instructionCodes labels st size with
  | error error => exact ⟨error, rfl⟩
  | ok codes =>
    obtain ⟨decoded', written, hd', hf, he⟩ := instructionCodes_eq_ok h
    cases hd.symm.trans hd'
    have hrelative : written.mode ≠ .relative := by
      obtain rfl | ⟨wide, hw, _, rfl⟩ := fitted_cases hf
      · exact hr
      · rintro rfl
        exact absurd (Mode.length_of_widen? hw).2 (by decide)
    obtain ⟨hhas, form, _, hg⟩ := written_gives hd hf
    have hknown := (encoded_isOk_iff hhas hrelative hg).1 ⟨codes, he⟩
    rw [isDeferred_of_fitted hf, hwaits] at hknown
    cases hknown

theorem instructionCodes_in_full {decoded written : Instruction} {codes : Text}
    (hd : st.decode labels = .ok decoded) (hf : fitted size.length decoded = .ok written)
    (he : encoded labels st size written = .ok codes) (hr : written.mode ≠ .relative)
    (h1 : written.mode.length ≠ 1) :
    ∃ core a code rest, st.core? labels written.mode = some core ∧ core.address labels = .ok a ∧
      Opcode.lookup written.mnemonic written.mode = .ok code ∧ codes = code :: rest ∧
      rest.length + 1 = written.mode.length ∧ littleEndianValue rest = a.value.toNat := by
  obtain ⟨hhas, form, hform, hg⟩ := written_gives hd hf
  cases hg with
  | bare hm => exact absurd hm h1
  | branch hst hb ht => exact absurd rfl hr
  | @addressed mnemonic mode core o hm hc hs =>
    have hcore : st.core? labels mode = some core := by simp [Statement.core?, hform, hc]
    rcases encoded_of_stands hhas hm hs with
      ⟨_, error, herror, _⟩ | ⟨_, a, code, rest, ha, hcode, hok, hl, hn⟩
    · cases he.symm.trans herror
    · cases he.symm.trans hok
      exact ⟨core, a, code, rest, hcore, ha, hcode, rfl, hl, hn⟩

end Emit

/-- Whatever labels a table holds, every instruction is written faithfully,
however many bytes are reserved for it. An address in the zero page is a byte,
so no table can hold one that is too large. -/
theorem operands_are_written_in_full (table : Label.Table) (st : Statement) (size : Sizing) :
    Emit.Faithful table.lookup st size := by
  refine ⟨Emit.instructionCodes_no_misfit table.lookup st size, ?_, ?_, ?_⟩
  · intro decoded hd hr hwaits
    exact Emit.instructionCodes_deferred hd hr hwaits
  · intro decoded written hd hf hr hknown
    obtain ⟨hhas, form, _, hg⟩ := Emit.written_gives hd hf
    rw [Emit.instructionCodes_of_fitted hd hf, Emit.encoded_isOk_iff hhas hr hg,
      Emit.isDeferred_of_fitted hf, hknown]
  · intro codes h
    obtain ⟨decoded, written, hd, hf, he⟩ := Emit.instructionCodes_eq_ok h
    exact ⟨decoded, written, hd, hf, Emit.instructionCodes_in_full hd hf he⟩

/-- The one label lies in the zero page. -/
def pointerTable : Label.Table :=
  { entries := [{ name := ascii "pointer", line := 1, address := .zeroPage 0x12 }] }

/-- Three bytes are reserved for `A=(pointer+X)`, which could do with two. -/
theorem pointerTable_is_written_in_full :
    Emit.instructionCodes pointerTable.lookup
        ⟨.ident Decode.regA,
          .paren (.binary (.ident (ascii "pointer")) .add (.ident Decode.regX))⟩
        ⟨0x2000, 3⟩ = .ok [0xBD, 0x12, 0x00] ∧
      Emit.Faithful pointerTable.lookup
        ⟨.ident Decode.regA,
          .paren (.binary (.ident (ascii "pointer")) .add (.ident Decode.regX))⟩
        ⟨0x2000, 3⟩ :=
  ⟨by decide +kernel, operands_are_written_in_full pointerTable _ _⟩

end Asm6502
