-- What a statement can be decoded to. Its spelling decides the instruction up
-- to the width of the mode, the instruction has an opcode, and its operand is
-- one that the mode can take.
import Asm6502.Proofs.PassAgreement

namespace Asm6502

/-! ## One statement with other labels -/

/-- The same mnemonic in the same mode, or in a zero page mode and its absolute
form. -/
def Instruction.SameUpToWidth (i j : Instruction) : Prop :=
  i.mnemonic = j.mnemonic ∧
    (i.mode = j.mode ∨ i.mode.widen? = some j.mode ∨ j.mode.widen? = some i.mode)

theorem Mode.eq_of_narrow {mode : Mode} :
    (mode.narrow = .implied → mode = .implied) ∧
      (mode.narrow = .immediate → mode = .immediate) := by
  cases mode <;> decide

namespace Statement

open Decode

/-- `X=S` is decoded whatever the labels are: at least as a copy. -/
theorem decode?_isSome_of_stackCopy {st : Statement} (hst : st.isStackCopy)
    (labels : Label.View) : ∃ i, st.decode? labels = some i := by
  obtain ⟨command, operand⟩ := st
  obtain ⟨rfl, rfl⟩ := hst
  have hmem : transfer "S" .tsx ∈ forms (.ident regX) := by decide +kernel
  apply Option.isSome_iff_exists.1
  rw [decode?, List.findSome?_isSome_iff]
  exact ⟨_, hmem, by simp [transfer, Form.decode?]⟩

/-- Labels decide no more about a statement than the width of its mode. Only
`X=S` has two readings, a copy of the stack pointer and a load of the label. -/
theorem labels_decide_the_width_only (v w : Label.View) (st : Statement) :
    (¬ st.isStackCopy → ∀ i j, st.decode v = .ok i → st.decode w = .ok j → i.SameUpToWidth j) ∧
      (st.isStackCopy → ∃ i, st.decode v = .ok i ∧
        (i.mnemonic = .tsx ∧ i.mode = .implied ∨ i.mnemonic = .ldx ∧ i.mode = .immediate)) := by
  constructor
  · intro hst i j hi hj
    rw [decode_eq_ok] at hi hj
    obtain ⟨hm, hn⟩ := decode?_narrow hst hi hj
    exact ⟨hm, Mode.eq_or_widen?_of_narrow hn⟩
  · intro hst
    obtain ⟨i, hi⟩ := decode?_isSome_of_stackCopy hst v
    refine ⟨i, decode_eq_ok.2 hi, ?_⟩
    rcases decode?_stackCopy hst hi with ⟨hm, hn⟩ | ⟨hm, hn⟩
    · exact Or.inl ⟨hm, Mode.eq_of_narrow.1 hn⟩
    · exact Or.inr ⟨hm, Mode.eq_of_narrow.2 hn⟩

/-- The one label, `S`, lies in the zero page. -/
def stackLabel : Label.View := fun name =>
  if name = ascii "S" then .ok (.zeroPage 0x12) else .error (.missing name)

/-- `A=(S)` -/
def loadFromS : Statement := ⟨.ident regA, .paren (.ident (ascii "S"))⟩

/-- `X=S` -/
def copyOfS : Statement := ⟨.ident regX, .ident (ascii "S")⟩

theorem stackLabel_decides_the_width :
    loadFromS.decode stackLabel = .ok ⟨.lda, .zeroPage, .byte 0x12⟩ ∧
      loadFromS.decode .empty = .ok ⟨.lda, .absolute, .label (ascii "S")⟩ ∧
      Instruction.SameUpToWidth ⟨.lda, .zeroPage, .byte 0x12⟩
        ⟨.lda, .absolute, .label (ascii "S")⟩ ∧
      copyOfS.decode stackLabel = .ok ⟨.ldx, .immediate, .byte 0x12⟩ ∧
      copyOfS.decode .empty = .ok ⟨.tsx, .implied, .none⟩ ∧
      ∃ i, copyOfS.decode stackLabel = .ok i ∧
        (i.mnemonic = .tsx ∧ i.mode = .implied ∨ i.mnemonic = .ldx ∧ i.mode = .immediate) := by
  have hzero : loadFromS.decode stackLabel = .ok ⟨.lda, .zeroPage, .byte 0x12⟩ := by
    decide +kernel
  have hwide : loadFromS.decode .empty = .ok ⟨.lda, .absolute, .label (ascii "S")⟩ := by
    decide +kernel
  have hwidth := (labels_decide_the_width_only stackLabel .empty loadFromS).1 (by decide +kernel)
  have hcopy := (labels_decide_the_width_only stackLabel .empty copyOfS).2 (by decide +kernel)
  exact ⟨hzero, hwide, hwidth _ _ hzero hwide, by decide +kernel, by decide +kernel, hcopy⟩

end Statement

/-! ## Operands that stand for expressions -/

namespace Expr

/-- The expression is `>e` or `<e`. -/
def isHalf : Expr → Bool
  | .highByte _ | .lowByte _ => true
  | _ => false

/-- Half a word lies in the zero page. -/
theorem isZeroPage_of_isHalf {labels : Label.View} {e : Expr} {a : Address}
    (he : e.isHalf = true) (ha : e.address labels = .ok a) : a.isZeroPage = true := by
  cases e with
  | highByte e | lowByte e =>
    obtain ⟨b, _, h⟩ := Except.bind_eq_ok.1 ha
    cases Except.pure_eq_ok.1 h
    rfl
  | _ => simp [isHalf] at he

end Expr

namespace Decode

/-- How an operand in a mode stands for an expression: it holds the address of
the expression, or waits for the labels of it. Only a half may wait to be a
value. -/
inductive Stands (labels : Label.View) (mode : Mode) (e : Expr) : Operand → Prop
  | byte {a : Address} (ha : e.address labels = .ok a) (hz : a.isZeroPage = true)
      (hm : mode.length = 2) : Stands labels mode e (.byte a.low)
  | word {a : Address} (ha : e.address labels = .ok a) (hm : mode.length = 3) :
      Stands labels mode e (.word a.value)
  | waits {error : ValueError} (he : e.address labels = .error error)
      (hu : error.isUnresolved = true) (hm : mode.length = 2 ∨ mode.length = 3)
      (hi : mode = .immediate → e.isHalf = true) : Stands labels mode e (waiting e)

theorem Stands.length {labels : Label.View} {mode : Mode} {e : Expr} {o : Operand}
    (h : Stands labels mode e o) : mode.length = 2 ∨ mode.length = 3 := by
  cases h with
  | byte ha hz hm => exact Or.inl hm
  | word ha hm => exact Or.inr hm
  | waits he hu hm hi => exact hm

section Resolvers

variable {labels : Label.View} {mode : Mode} {e : Expr} {o : Operand}

theorem address?_known {a : Address} (h : address? labels e = some (.known a)) :
    e.address labels = .ok a := by
  unfold address? at h
  split at h
  · simp at h
  · split at h
    · cases h
      assumption
    · split at h <;> simp at h

theorem address?_deferred (h : address? labels e = some (.deferred o)) :
    o = waiting e ∧ ∃ error, e.address labels = .error error ∧ error.isUnresolved = true := by
  unfold address? at h
  split at h
  · simp at h
  · split at h
    · simp at h
    · rename_i error he
      split at h
      · cases h
        exact ⟨rfl, error, he, by assumption⟩
      · simp at h

theorem zeroPage?_stands {wait : Bool} (h : zeroPage? labels wait e = some o)
    (hm : mode.length = 2) (hi : mode = .immediate → wait = true → e.isHalf = true) :
    Stands labels mode e o := by
  unfold zeroPage? at h
  split at h
  · rename_i a ha
    split at h
    · cases h
      exact .byte (address?_known ha) (by assumption) hm
    · simp at h
  · rename_i deferred hd
    obtain ⟨rfl, error, he, hu⟩ := address?_deferred hd
    split at h
    · rename_i hwait
      cases h
      exact .waits he hu (Or.inl hm) fun hmode => hi hmode hwait
    · simp at h
  · simp at h

theorem absolute?_stands (h : absolute? labels e = some o) (hm : mode.length = 3) :
    Stands labels mode e o := by
  unfold absolute? at h
  split at h
  · rename_i a ha
    cases h
    exact .word (address?_known ha) hm
  · rename_i deferred hd
    obtain ⟨rfl, error, he, hu⟩ := address?_deferred hd
    cases h
    refine .waits he hu (Or.inr hm) fun hmode => ?_
    rw [hmode] at hm
    cases hm
  · simp at h

/-- A value is taken as a zero page address is, where only half a word may wait. -/
theorem zeroPage?_of_immediate? (h : immediate? labels e = some o) :
    zeroPage? labels e.isHalf e = some o := by
  cases e with
  | paren inner | bracket inner => simp [immediate?] at h
  | highByte inner | lowByte inner =>
    simp only [immediate?] at h
    split at h
    · rename_i a ha
      have hz := Expr.isZeroPage_of_isHalf rfl (address?_known ha)
      simpa [zeroPage?, ha, hz] using h
    · rename_i deferred hd
      simpa [zeroPage?, hd, Expr.isHalf] using h
    · simp at h
  | _ =>
    simp only [immediate?] at h
    split at h
    · rename_i a ha
      simpa [zeroPage?, ha] using h
    · simp at h

theorem immediate?_stands (h : immediate? labels e = some o) : Stands labels .immediate e o :=
  zeroPage?_stands (zeroPage?_of_immediate? h) rfl fun _ he => he

end Resolvers

/-! ## Cores of operands -/

/-- The core of an operand in a mode: the expression that its address is taken
of, without the brackets and the register of the mode. -/
def core? : Mode → Expr → Option Expr
  | .immediate, e => some e
  | .zeroPage, e | .absolute, e => parenthesized? e
  | .zeroPageX, e | .absoluteX, e => (parenthesized? e).bind (indexed? regX)
  | .zeroPageY, e | .absoluteY, e => (parenthesized? e).bind (indexed? regY)
  | .indirectX, e => (bracketed? e).bind (indexed? regX)
  | .indirectY, e => (indexed? regY e).bind bracketed?
  | .indirect, e => bracketed? e
  | .implied, _ | .accumulator, _ | .relative, _ => none

theorem core?_widen {mode wide : Mode} (h : mode.widen? = some wide) (e : Expr) :
    core? wide e = core? mode e := by
  cases mode <;> simp only [Mode.widen?, Option.some.injEq, reduceCtorEq] at h <;> subst h <;> rfl

/-- An operand is a register by itself, or stands for its core. -/
theorem operand?_stands {labels : Label.View} {mnemonic : Mnemonic} {mode : Mode} {e : Expr}
    {o : Operand} (h : operand? labels mnemonic mode e = some o) :
    mode.length = 1 ∧ o = .none ∨
      mode ≠ .relative ∧ ∃ core, core? mode e = some core ∧ Stands labels mode core o := by
  cases mode with
  | accumulator =>
    simp only [operand?] at h
    split at h
    · cases h
      exact Or.inl ⟨rfl, rfl⟩
    · simp at h
  | immediate => exact Or.inr ⟨by simp, e, rfl, immediate?_stands h⟩
  | zeroPage =>
    obtain ⟨inner, hp, hz⟩ := Option.bind_eq_some_iff.1 h
    exact Or.inr ⟨by simp, inner, hp, zeroPage?_stands hz rfl (by simp)⟩
  | zeroPageX | zeroPageY | indirectX | indirectY =>
    obtain ⟨inner, hp, h⟩ := Option.bind_eq_some_iff.1 h
    obtain ⟨core, hc, hz⟩ := Option.bind_eq_some_iff.1 h
    exact Or.inr ⟨by simp, core, Option.bind_eq_some_iff.2 ⟨inner, hp, hc⟩,
      zeroPage?_stands hz rfl (by simp)⟩
  | absolute =>
    obtain ⟨inner, hp, ha⟩ := Option.bind_eq_some_iff.1 h
    exact Or.inr ⟨by simp, inner, hp, absolute?_stands ha rfl⟩
  | absoluteX | absoluteY =>
    obtain ⟨inner, hp, h⟩ := Option.bind_eq_some_iff.1 h
    obtain ⟨core, hc, ha⟩ := Option.bind_eq_some_iff.1 h
    exact Or.inr ⟨by simp, core, Option.bind_eq_some_iff.2 ⟨inner, hp, hc⟩,
      absolute?_stands ha rfl⟩
  | implied | indirect | relative => simp [operand?] at h

/-! ## What a form gives -/

namespace Form

/-- The core of a statement that has a form. -/
def core? (st : Statement) (mode : Mode) : Form → Option Expr
  | .modes _ => Decode.core? mode st.operand
  | .behind .. =>
    match st.operand with
    | .binary _ _ right => Decode.core? mode right
    | _ => none
  | .stored .. => Decode.core? mode st.command
  | .jump _ => some st.operand
  | .vector _ => bracketed? st.operand
  | .exactly .. | .branch => none

/-- The mnemonics of a form have the modes that it names. -/
def isLegal : Form → Bool
  | .exactly _ mnemonic mode => Opcode.has mnemonic mode && mode.length == 1
  | .jump mnemonic => Opcode.has mnemonic .absolute
  | .vector mnemonic => Opcode.has mnemonic .indirect
  | .modes _ | .behind .. | .stored .. | .branch => true

/-- What a form gives: an instruction without an operand, one whose operand
stands for the core of the statement, or a branch. -/
inductive Gives (labels : Label.View) (st : Statement) (form : Form) : Instruction → Prop
  | bare {mnemonic : Mnemonic} {mode : Mode} (hm : mode.length = 1) :
      Gives labels st form ⟨mnemonic, mode, .none⟩
  | addressed {mnemonic : Mnemonic} {mode : Mode} {core : Expr} {o : Operand}
      (hm : mode ≠ .relative) (hc : form.core? st mode = some core)
      (hs : Stands labels mode core o) : Gives labels st form ⟨mnemonic, mode, o⟩
  | branch {mnemonic : Mnemonic} {condition target : Expr} {o : Operand}
      (hst : st.operand = .binary condition .comma target)
      (hb : branch? condition = some mnemonic) (ht : branchTarget? target = some o) :
      Gives labels st form ⟨mnemonic, .relative, o⟩

variable {labels : Label.View} {st : Statement} {form : Form} {i : Instruction}

/-- How a form fits a statement: the instruction is the one that the form names, one in
the first mode that an expression of the statement fits, a jump or a branch. -/
inductive Fits (labels : Label.View) (st : Statement) : Form → Instruction → Prop
  | bare {operand : Expr} {mnemonic : Mnemonic} {mode : Mode} :
      Fits labels st (.exactly operand mnemonic mode) ⟨mnemonic, mode, .none⟩
  | inModes {form : Form} {e : Expr} {i : Instruction}
      (hcore : ∀ mode, form.core? st mode = Decode.core? mode e)
      (hmodes : inModes? labels i.mnemonic e = some i) : Fits labels st form i
  | jump {mnemonic : Mnemonic} {o : Operand} (ha : absolute? labels st.operand = some o) :
      Fits labels st (.jump mnemonic) ⟨mnemonic, .absolute, o⟩
  | vector {mnemonic : Mnemonic} {pointer : Expr} {o : Operand}
      (hb : bracketed? st.operand = some pointer) (ha : absolute? labels pointer = some o) :
      Fits labels st (.vector mnemonic) ⟨mnemonic, .indirect, o⟩
  | branch {mnemonic : Mnemonic} {condition target : Expr} {o : Operand}
      (hst : st.operand = .binary condition .comma target)
      (hb : branch? condition = some mnemonic) (ht : branchTarget? target = some o) :
      Fits labels st .branch ⟨mnemonic, .relative, o⟩

theorem fits_of_inModes? {mnemonic : Mnemonic} {e : Expr}
    (hcore : ∀ mode, form.core? st mode = Decode.core? mode e)
    (h : inModes? labels mnemonic e = some i) : form.Fits labels st i := by
  obtain ⟨rfl, _⟩ := inModes?_eq_some h
  exact .inModes hcore h

theorem decode?_fits (h : form.decode? labels st = some i) : form.Fits labels st i := by
  cases form with
  | exactly operand mnemonic mode =>
    simp only [Form.decode?] at h
    split at h
    · cases h
      exact .bare
    · simp at h
  | modes mnemonic => exact fits_of_inModes? (fun _ => rfl) h
  | behind register op mnemonic =>
    simp only [Form.decode?] at h
    split at h
    · rename_i left op' right ho
      split at h
      · exact fits_of_inModes? (fun mode => by simp [core?, ho]) h
      · simp at h
    · simp at h
  | stored operand mnemonic =>
    simp only [Form.decode?] at h
    split at h
    · exact fits_of_inModes? (fun _ => rfl) h
    · simp at h
  | jump mnemonic =>
    obtain ⟨o, ho, rfl⟩ := Option.map_eq_some_iff.1 h
    unfold target? at ho
    split at ho
    · simp at ho
    · simp at ho
    · exact .jump ho
  | vector mnemonic =>
    obtain ⟨o, ho, rfl⟩ := Option.map_eq_some_iff.1 h
    obtain ⟨pointer, hb, ha⟩ := Option.bind_eq_some_iff.1 ho
    exact .vector hb ha
  | branch =>
    simp only [Form.decode?] at h
    split at h
    · rename_i condition target ho
      obtain ⟨mnemonic, hb, h⟩ := Option.bind_eq_some_iff.1 h
      obtain ⟨o, ht, h⟩ := Option.bind_eq_some_iff.1 h
      cases h
      exact .branch ho hb ht
    · simp at h

theorem has_of_branch? {condition : Expr} {mnemonic : Mnemonic}
    (h : branch? condition = some mnemonic) : Opcode.has mnemonic .relative = true := by
  have hall : ∀ c ∈ conditions, Opcode.has c.2 .relative = true := by decide +kernel
  cases condition with
  | ident text | system text => exact hall _ (mem_of_lookup h)
  | _ => simp [branch?] at h

theorem Fits.gives (hl : form.isLegal = true) (h : form.Fits labels st i) :
    Opcode.has i.mnemonic i.mode = true ∧ form.Gives labels st i := by
  cases h with
  | bare =>
    simp only [isLegal, Bool.and_eq_true, beq_iff_eq] at hl
    exact ⟨hl.1, .bare hl.2⟩
  | inModes hcore hmodes =>
    obtain ⟨_, hhas, ho, _⟩ := inModes?_eq_some hmodes
    refine ⟨hhas, ?_⟩
    obtain ⟨mnemonic, mode, operand⟩ := i
    rcases operand?_stands ho with ⟨hm, hnone⟩ | ⟨hm, core, hc, hs⟩
    · cases hnone
      exact .bare hm
    · exact .addressed hm ((hcore mode).trans hc) hs
  | jump ha => exact ⟨hl, .addressed (by simp) rfl (absolute?_stands ha rfl)⟩
  | vector hb ha => exact ⟨hl, .addressed (by simp) hb (absolute?_stands ha rfl)⟩
  | branch hst hb ht => exact ⟨has_of_branch? hb, .branch hst hb ht⟩

end Form

theorem isLegal_of_mem : ∀ form ∈ allForms, Form.isLegal form = true := by decide +kernel

end Decode

namespace Statement

open Decode

/-- The form that decides a statement: the first one of its command that fits. -/
def form? (labels : Label.View) (st : Statement) : Option Form :=
  (forms st.command).find? fun form => (form.decode? labels st).isSome

/-- The core of a statement that is decoded to a mode. -/
def core? (labels : Label.View) (st : Statement) (mode : Mode) : Option Expr :=
  (st.form? labels).bind (Form.core? st mode)

/-- The form that decides a statement fits it. -/
theorem form?_of_decode? {labels : Label.View} {st : Statement} {i : Instruction}
    (h : st.decode? labels = some i) :
    ∃ form ∈ forms st.command, st.form? labels = some form ∧ form.Fits labels st i := by
  obtain ⟨front, form, back, hsplit, hform, hfront⟩ := List.findSome?_eq_some_iff.1 h
  have hmem : form ∈ forms st.command := by simp [hsplit]
  refine ⟨form, hmem, ?_, Form.decode?_fits hform⟩
  unfold form?
  rw [List.find?_eq_some_iff_append]
  refine ⟨by simp [hform], front, back, hsplit, ?_⟩
  intro f hf
  simp [hfront f hf]

/-- Every decoded instruction has an opcode, and is given by the form that
decides the statement. -/
theorem decode?_gives {labels : Label.View} {st : Statement} {i : Instruction}
    (h : st.decode? labels = some i) :
    Opcode.has i.mnemonic i.mode = true ∧
      ∃ form, st.form? labels = some form ∧ form.Gives labels st i := by
  obtain ⟨form, hmem, hfirst, hfits⟩ := form?_of_decode? h
  obtain ⟨hhas, hgives⟩ := hfits.gives (isLegal_of_mem form (mem_allForms hmem))
  exact ⟨hhas, form, hfirst, hgives⟩

end Statement

/-! ## Operands that fit their mode -/

/-- An instruction that can be encoded: there is an opcode, and the operand is
of a kind that the mode takes. -/
structure Instruction.Encodable (i : Instruction) : Prop where
  legal : Opcode.has i.mnemonic i.mode = true
  none_iff : i.operand = .none ↔ i.mode.length = 1
  word_only : ∀ w, i.operand = .word w → i.mode.length = 3
  byte_only : ∀ b, i.operand = .byte b → i.mode.length = 2 ∧ i.mode ≠ .relative
  target_only : ∀ w, i.operand = .target w → i.mode = .relative
  deferred_only : i.operand.isDeferred = true → i.mode.length = 2 ∨ i.mode.length = 3
  /-- A value that waits is half a word. -/
  immediate_only : i.operand.isDeferred = true → i.mode = .immediate →
    ∃ e, i.operand = .expr (.highByte e) ∨ i.operand = .expr (.lowByte e)

namespace Decode

theorem isDeferred_waiting (e : Expr) : (waiting e).isDeferred = true := by
  cases e <;> rfl

/-- Half a word waits as an expression. -/
theorem waiting_of_isHalf {e : Expr} (h : e.isHalf = true) :
    ∃ inner, waiting e = .expr (.highByte inner) ∨ waiting e = .expr (.lowByte inner) := by
  cases e with
  | highByte inner => exact ⟨inner, Or.inl rfl⟩
  | lowByte inner => exact ⟨inner, Or.inr rfl⟩
  | _ => simp [Expr.isHalf] at h

/-- The target of a branch is a number, or waits. -/
theorem branchTarget?_eq_some {e : Expr} {o : Operand} (h : branchTarget? e = some o) :
    (∃ w, o = .target w) ∨ o.isDeferred = true := by
  unfold branchTarget? at h
  split at h
  · cases h
    exact Or.inl ⟨_, rfl⟩
  · cases h
    exact Or.inl ⟨_, rfl⟩
  · cases h
    exact Or.inl ⟨_, rfl⟩
  · split at h
    · simp at h
    · cases h
      exact Or.inr rfl
  · split at h
    · simp at h
    · cases h
      exact Or.inr rfl

variable {labels : Label.View} {mnemonic : Mnemonic} {mode : Mode} {e : Expr} {o : Operand}

theorem encodable_of_isDeferred (hhas : Opcode.has mnemonic mode = true)
    (hd : o.isDeferred = true) (hl : mode.length = 2 ∨ mode.length = 3)
    (hi : mode = .immediate → ∃ e, o = .expr (.highByte e) ∨ o = .expr (.lowByte e)) :
    Instruction.Encodable ⟨mnemonic, mode, o⟩ := by
  have h1 : mode.length ≠ 1 := by omega
  cases o with
  | label name | expr e =>
    exact ⟨hhas, by simp [h1], by simp, by simp, by simp, fun _ => hl, fun _ => hi⟩
  | _ => simp [Operand.isDeferred] at hd

theorem Stands.encodable (hhas : Opcode.has mnemonic mode = true) (hm : mode ≠ .relative)
    (h : Stands labels mode e o) : Instruction.Encodable ⟨mnemonic, mode, o⟩ := by
  cases h with
  | byte ha hz h2 =>
    exact ⟨hhas, by simp [h2], by simp, fun _ _ => ⟨h2, hm⟩, by simp, by simp [Operand.isDeferred],
      by simp [Operand.isDeferred]⟩
  | word ha h3 =>
    exact ⟨hhas, by simp [h3], fun _ _ => h3, by simp, by simp, by simp [Operand.isDeferred],
      by simp [Operand.isDeferred]⟩
  | waits he hu hl hi =>
    exact encodable_of_isDeferred hhas (isDeferred_waiting e) hl fun hmode =>
      waiting_of_isHalf (hi hmode)

theorem Form.Gives.encodable {st : Statement} {form : Form} {i : Instruction}
    (hhas : Opcode.has i.mnemonic i.mode = true) (h : form.Gives labels st i) : i.Encodable := by
  cases h with
  | bare h1 =>
    exact ⟨hhas, by simp [h1], by simp, by simp, by simp, by simp [Operand.isDeferred],
      by simp [Operand.isDeferred]⟩
  | addressed hm hc hs => exact hs.encodable hhas hm
  | branch hst hb ht =>
    rcases branchTarget?_eq_some ht with ⟨w, rfl⟩ | hd
    · exact ⟨hhas, by simp [Mode.length], by simp, by simp, by simp, by simp [Operand.isDeferred],
        by simp⟩
    · exact encodable_of_isDeferred hhas hd (Or.inl rfl) (by simp)

end Decode

/-- Whatever a statement is decoded to can be encoded. -/
theorem Statement.decoded_instructions_are_encodable {labels : Label.View} {st : Statement}
    {i : Instruction} (h : st.decode labels = .ok i) : i.Encodable := by
  obtain ⟨hhas, form, _, hgives⟩ := decode?_gives (decode_eq_ok.1 h)
  exact hgives.encodable hhas

/-- `A=>S`, where `S` is defined later. -/
theorem Statement.half_of_S_is_encodable :
    (⟨.ident Decode.regA, .highByte (.ident (ascii "S"))⟩ : Statement).decode .empty =
        .ok ⟨.lda, .immediate, .expr (.highByte (.ident (ascii "S")))⟩ ∧
      Instruction.Encodable ⟨.lda, .immediate, .expr (.highByte (.ident (ascii "S")))⟩ := by
  have h : (⟨.ident Decode.regA, .highByte (.ident (ascii "S"))⟩ : Statement).decode .empty =
      .ok ⟨.lda, .immediate, .expr (.highByte (.ident (ascii "S")))⟩ := by
    decide +kernel
  exact ⟨h, decoded_instructions_are_encodable h⟩

end Asm6502
