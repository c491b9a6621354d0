-- Branches and their targets. A branch is written as an opcode and a signed
-- byte, which counts from the instruction behind the branch. Laws: in a program
-- that was assembled the byte leads from every branch to the address of its
-- target, without wrapping around, and a target that no byte leads to is the
-- only one that is refused as too far.
import Asm6502.Proofs.ObjectAddress
import Asm6502.Proofs.WrittenOperand

namespace Asm6502

open Decode

/-! ## Distances -/

/-- The signed number that a byte stands for. -/
theorem toInt_toInt8 (d : UInt8) :
    d.toInt8.toInt = if d.toNat < 128 then (d.toNat : Int) else d.toNat - 256 := by
  have hbits : d.toInt8.toInt = d.toBitVec.toInt := rfl
  have hnat : d.toBitVec.toNat = d.toNat := rfl
  rw [hbits, BitVec.toInt_eq_toNat_cond, hnat]
  split <;> split <;> omega

/-- A branch at `pc` counts from the instruction behind it, and its byte leads at
most 128 bytes back and 127 bytes on. -/
def InReach (pc target : UInt16) : Prop :=
  -128 ≤ (target.toNat : Int) - (pc.toNat + 2) ∧ (target.toNat : Int) - (pc.toNat + 2) ≤ 127

namespace Emit

/-- The distance is the one byte that leads to the target. -/
theorem distance_eq_ok_iff {pc target : UInt16} {d : UInt8} :
    distance pc target = .ok d ↔ (pc.toNat : Int) + 2 + d.toInt8.toInt = target.toNat := by
  have hd := d.toNat_lt
  rw [toInt_toInt8]
  unfold distance
  constructor
  · intro h
    simp only at h
    split at h
    · cases h
    · cases h
      rw [UInt8.toNat_ofNat']
      split <;> omega
  · intro h
    simp only
    rw [if_neg (by split at h <;> omega)]
    congr 1
    apply UInt8.toNat_inj.1
    rw [UInt8.toNat_ofNat']
    split at h <;> omega

theorem distance_of_inReach {pc target : UInt16} (h : InReach pc target) :
    ∃ d, distance pc target = .ok d := by
  obtain ⟨hlow, hhigh⟩ := h
  unfold distance
  simp only
  rw [if_neg (by omega)]
  exact ⟨_, rfl⟩

theorem distance_of_not_inReach {pc target : UInt16} (h : ¬ InReach pc target) :
    distance pc target = .error (.branchRange pc target) := by
  unfold InReach at h
  unfold distance
  simp only
  rw [if_pos (by omega)]

end Emit

/-! ## Branch statements -/

/-- A branch statement `;=condition,target`. -/
structure Statement.BranchesTo (st : Statement) (target : Expr) : Prop where
  command : st.command = .system (ascii ";")
  operand : ∃ condition, st.operand = .binary condition .comma target ∧
    (branch? condition).isSome = true
  no_register : hasRegister target = false

namespace Decode

theorem branchTarget?_isSome (e : Expr) : (branchTarget? e).isSome = !hasRegister e := by
  cases e with
  | decimal | byte | word => rfl
  | ident name =>
    simp only [branchTarget?, hasRegister]
    split <;> simp_all
  | _ =>
    simp only [branchTarget?]
    split <;> simp_all

/-- The operand of a branch has the value of the target. -/
theorem operandValue_branchTarget {labels : Label.View} {pc t : UInt16} {target : Expr}
    {o : Operand} (h : branchTarget? target = some o) :
    Emit.operandValue labels pc o = .ok t ↔ target.value labels pc = .ok t := by
  cases target with
  | decimal | byte | word =>
    cases h
    simp [Emit.operandValue, Expr.value]
  | ident name =>
    simp only [branchTarget?] at h
    split at h
    · cases h
    · cases h
      simp only [Emit.operandValue, Expr.value, Expr.lookup]
      cases labels name <;> simp [Except.map, Except.mapError, bind, Except.bind, pure, Except.pure]
  | _ =>
    simp only [branchTarget?] at h
    split at h
    · cases h
    · cases h
      rw [Emit.operandValue, Except.mapError_eq_ok]

/-- No other command has the form of a branch. -/
theorem command_of_branch_mem {command : Expr} (h : .branch ∈ forms command) :
    command = .system (ascii ";") := by
  have hnames : ∀ pair ∈ nameForms, .branch ∉ pair.2 := by decide +kernel
  have hsigns : ∀ pair ∈ signForms, .branch ∈ pair.2 → pair.1 = ascii ";" := by decide +kernel
  have hmemory : Form.branch ∉ memoryForms := by decide +kernel
  cases command with
  | ident name =>
    simp only [forms] at h
    cases hl : nameForms.lookup name with
    | none => simp [hl] at h
    | some found =>
      rw [hl, Option.getD_some] at h
      exact absurd h (hnames _ (mem_of_lookup hl))
  | system run =>
    simp only [forms] at h
    cases hl : signForms.lookup run with
    | none => simp [hl] at h
    | some found =>
      rw [hl, Option.getD_some] at h
      rw [show run = _ from hsigns _ (mem_of_lookup hl) h]
  | paren | bracket | binary => exact absurd h hmemory
  | _ => cases h

end Decode

namespace Statement

variable {labels : Label.View} {st : Statement} {target : Expr}

theorem BranchesTo.directive (h : st.BranchesTo target) : Directive.of? st.command = none := by
  rw [h.command]
  decide +kernel

/-- Whatever the labels are, a branch statement is decoded to its branch. -/
theorem BranchesTo.decode (h : st.BranchesTo target) (labels : Label.View) :
    ∃ mnemonic o, st.decode labels = .ok ⟨mnemonic, .relative, o⟩ ∧
      Opcode.has mnemonic .relative = true ∧ branchTarget? target = some o := by
  obtain ⟨condition, hoperand, hcondition⟩ := h.operand
  obtain ⟨mnemonic, hb⟩ := Option.isSome_iff_exists.1 hcondition
  obtain ⟨o, ho⟩ := Option.isSome_iff_exists.1
    ((branchTarget?_isSome target).trans (by rw [h.no_register]; rfl))
  have hforms : forms st.command = [.branch] := by
    rw [h.command]
    decide +kernel
  refine ⟨mnemonic, o, decode_eq_ok.2 ?_, Form.has_of_branch? hb, ho⟩
  simp [decode?, hforms, Form.decode?, hoperand, hb, ho]

/-- Branch statements are the statements that are decoded to the relative mode. -/
theorem decodes_relative_iff (labels : Label.View) (st : Statement) :
    (∃ i, st.decode labels = .ok i ∧ i.mode = .relative) ↔ ∃ target, st.BranchesTo target := by
  constructor
  · rintro ⟨i, hi, hm⟩
    obtain ⟨form, hmem, _, hfits⟩ := form?_of_decode? (decode_eq_ok.1 hi)
    cases hfits with
    | bare =>
      have hlegal := isLegal_of_mem _ (mem_allForms hmem)
      simp only [Form.isLegal, Bool.and_eq_true, beq_iff_eq] at hlegal
      cases hm
      cases hlegal.2
    | inModes hcore hmodes =>
      obtain ⟨_, _, ho, _⟩ := inModes?_eq_some hmodes
      rw [hm] at ho
      cases ho
    | jump ha => cases hm
    | vector hp ha => cases hm
    | @branch mnemonic condition target o hst hb ht =>
      refine ⟨target, command_of_branch_mem hmem, ⟨condition, hst, by simp [hb]⟩, ?_⟩
      have hsome := branchTarget?_isSome target
      rw [ht] at hsome
      simpa using hsome
  · rintro ⟨target, h⟩
    obtain ⟨mnemonic, o, hd, _⟩ := h.decode labels
    exact ⟨_, hd, rfl⟩

end Statement

/-! ## Bytes of branches -/

namespace Emit

variable {labels : Label.View} {st : Statement} {size : Sizing} {target : Expr}

/-- A branch is written as its opcode and the distance to the value of its
operand. -/
theorem instructionCodes_branch (labels : Label.View) (h : st.BranchesTo target)
    (hl : size.length ≤ 2) :
    ∃ code o, branchTarget? target = some o ∧
      instructionCodes labels st size =
        (operandValue labels size.pc o >>= distance size.pc).map fun d => [code, d] := by
  obtain ⟨mnemonic, o, hd, hhas, ho⟩ := h.decode labels
  obtain ⟨code, hcode⟩ := lookup_of_has hhas
  have hf : fitted size.length ⟨mnemonic, .relative, o⟩ = .ok ⟨mnemonic, .relative, o⟩ := by
    have : ¬ Instruction.length ⟨mnemonic, .relative, o⟩ < size.length := Nat.not_lt.2 hl
    simp [fitted, this]
  refine ⟨code, o, ho, ?_⟩
  rw [instructionCodes_of_fitted hd hf, encoded_eq hcode (by simp [Mode.length])]
  cases operandValue labels size.pc o with
  | error e => rfl
  | ok t =>
    change (operandCodes st .relative size.pc t).map _ = (distance size.pc t).map _
    rw [operandCodes, if_pos rfl]
    cases distance size.pc t <;> rfl

/-- A branch that is written leads to its target. -/
theorem instructionCodes_branch_ok {codes : Text} (h : st.BranchesTo target)
    (hl : size.length ≤ 2) (hc : instructionCodes labels st size = .ok codes) :
    ∃ t code d, target.value labels size.pc = .ok t ∧ codes = [code, d] ∧
      (size.pc.toNat : Int) + 2 + d.toInt8.toInt = t.toNat := by
  obtain ⟨code, o, ho, heq⟩ := instructionCodes_branch labels h hl
  rw [heq] at hc
  obtain ⟨d, hd, rfl⟩ := Except.map_eq_ok.1 hc
  obtain ⟨t, ht, hd⟩ := Except.bind_eq_ok.1 hd
  exact ⟨t, code, d, (operandValue_branchTarget ho).1 ht, rfl, distance_eq_ok_iff.1 hd⟩

/-- A branch whose target has an address is written if the target is in reach,
and refused as too far if not. -/
theorem instructionCodes_branch_value {t : UInt16} (h : st.BranchesTo target)
    (hl : size.length ≤ 2) (hv : target.value labels size.pc = .ok t) :
    (InReach size.pc t → ∃ codes, instructionCodes labels st size = .ok codes) ∧
      (instructionCodes labels st size = .error (.branchRange size.pc t) ↔
        ¬ InReach size.pc t) := by
  obtain ⟨code, o, ho, heq⟩ := instructionCodes_branch labels h hl
  have hdistance : instructionCodes labels st size =
      (distance size.pc t).map fun d => [code, d] := by
    rw [heq, (operandValue_branchTarget ho).2 hv]
    rfl
  rw [hdistance]
  by_cases hreach : InReach size.pc t
  · obtain ⟨d, hd⟩ := distance_of_inReach hreach
    rw [hd]
    exact ⟨fun _ => ⟨[code, d], rfl⟩, nofun, fun hnot => absurd hreach hnot⟩
  · rw [distance_of_not_inReach hreach]
    exact ⟨fun hr => absurd hr hreach, fun _ => hreach, fun _ => rfl⟩

end Emit

namespace Layout

/-- A branch takes two bytes where the program counter is, inside memory. -/
theorem statement_branch {layout next : Layout} {label : Text} {st : Statement} {size : Sizing}
    {target : Expr} (h : st.BranchesTo target)
    (hst : layout.statement label st = .ok (next, size)) :
    size.pc = layout.address ∧ size.pc.toNat = layout.pc ∧ size.length = 2 := by
  obtain ⟨hstep, hpc, hmemory⟩ := step_of_statement hst
  obtain ⟨mnemonic, o, hd, _⟩ := h.decode layout.labels.lookup
  obtain ⟨i, hi, hlength⟩ := hstep.decoded_of_none h.directive
  cases hd.symm.trans hi
  have hnext : next.pc = layout.pc + size.length := hstep.pc_of_not_origin (by simp [h.directive])
  have htwo : size.length = 2 := hlength
  have hroom : layout.pc + 2 ≤ 0x10000 := by
    rw [← htwo, ← hnext]
    exact hmemory
  refine ⟨hpc, ?_, htwo⟩
  rw [hpc, address, UInt16.toNat_ofNat']
  omega

end Layout

/-! ## Programs -/

/-- Every branch of the lines leads to its target: the layout finds statement `m`
of line `n` in the state `found`, the target has the address `t` once all labels
are known in the scope of the line, and the second of its two bytes leads there
from the program counter of `found`. -/
def BranchesReach (lines : List Line) (layout : Layout) (parts : List (List Text)) : Prop :=
  ∀ n m line st target, lines[n]? = some line → line.statements[m]? = some st →
    st.BranchesTo target →
    ∃ found label first code d t,
      Layout.reach lines n m = some (found, label) ∧
      target.value (layout.labels.leave.behind (lines.take (n + 1))).lookup found.address = .ok t ∧
      parts[n]? = some first ∧ first[m]? = some [code, d] ∧
      (found.pc : Int) + 2 + d.toInt8.toInt = t.toNat

theorem Assembled.branchesReach {lines : List Line} {program : Program} {layout : Layout}
    {sized : List SizedLine} {parts : List (List Text)}
    (h : Assembled lines program layout sized parts) : BranchesReach lines layout parts := by
  intro n m line st target hn hm hbranch
  obtain ⟨s, size, found, label, next, first, codes, _, _, hreach, hst, hfirst, hcodes, hemit⟩ :=
    h.statement_at hn hm
  obtain ⟨haddress, hpc, hlength⟩ := Layout.statement_branch hbranch hst
  obtain ⟨hwritten, _⟩ := Emit.statement_eq_ok.1 hemit
  simp only [Emit.statementCodes, hbranch.directive] at hwritten
  obtain ⟨t, code, d, ht, rfl, hd⟩ :=
    Emit.instructionCodes_branch_ok hbranch (Nat.le_of_eq hlength) hwritten
  rw [haddress] at ht
  rw [hpc] at hd
  exact ⟨found, label, first, code, d, t, hreach, ht, hfirst, hcodes, hd⟩

/-- Branches reach their targets. Branch statements are those that are decoded to
the relative mode. In every program that is assembled, each of them leads to the
address of its target. Whatever the labels are, a branch that the layout has
placed and whose target has an address is written if the target is in reach, and
otherwise refused with the error that names its place and the target. -/
theorem branches_reach_their_targets :
    (∀ labels st, (∃ i, Statement.decode labels st = .ok i ∧ i.mode = .relative) ↔
      ∃ target, st.BranchesTo target) ∧
    (∀ (assembler : Assembler) (lines : List Line) (program : Program),
      (assembler.assemble lines).program = .ok program →
      ∃ expanded layout sized parts, (Control.expand {} lines).lines = .ok expanded ∧
        Assembled expanded program layout sized parts ∧ BranchesReach expanded layout parts) ∧
    ∀ (layout next : Layout) (label : Text) (st : Statement) (size : Sizing) (target : Expr)
      (labels : Label.View) (t : UInt16),
      st.BranchesTo target → layout.statement label st = .ok (next, size) →
      target.value labels size.pc = .ok t →
      size.pc.toNat = layout.pc ∧
      (InReach size.pc t → ∃ codes, Emit.instructionCodes labels st size = .ok codes) ∧
      (Emit.instructionCodes labels st size = .error (.branchRange size.pc t) ↔
        ¬ InReach size.pc t) := by
  refine ⟨Statement.decodes_relative_iff, ?_, ?_⟩
  · intro assembler lines program h
    obtain ⟨expanded, layout, sized, parts, hx, ha⟩ := assembled_of_ok h
    exact ⟨expanded, layout, sized, parts, hx, ha, ha.branchesReach⟩
  · intro layout next label st size target labels t hbranch hst hv
    obtain ⟨_, hpc, hlength⟩ := Layout.statement_branch hbranch hst
    exact ⟨hpc, Emit.instructionCodes_branch_value hbranch (Nat.le_of_eq hlength) hv⟩

/-- `;==,target`. -/
def branchIfEqual (target : Expr) : Statement :=
  ⟨.system (ascii ";"), .binary (.system (ascii "=")) .comma target⟩

/-- The last two bytes of memory are a branch, to a label that a later line moves
as far back as the branch leads. -/
def topBranch : List Line :=
  let line (number : Int) (label : String) (st : Statement) : Line :=
    { number, file := [], text := [], label := ascii label, statements := [st] }
  [line 1 "" ⟨.system (ascii "*"), .word 0xFFFE⟩,
    line 2 "" (branchIfEqual (.ident (ascii "back"))),
    line 3 "back" ⟨.system (ascii ":"), .word 0xFF80⟩]

/-- One byte farther back is too far. -/
theorem topBranch_reaches_back :
    (∃ program, (({} : Assembler).assemble topBranch).program = .ok program ∧
      program.bytes = [0xF0, 0x80] ∧
      ∃ expanded layout sized parts, (Control.expand {} topBranch).lines = .ok expanded ∧
        Assembled expanded program layout sized parts ∧ BranchesReach expanded layout parts) ∧
    Emit.instructionCodes .empty (branchIfEqual (.word 0xFF7F)) ⟨0xFFFE, 2⟩ =
      .error (.branchRange 0xFFFE 0xFF7F) := by
  obtain ⟨_, hprogram, hcodes⟩ := branches_reach_their_targets
  constructor
  · obtain ⟨program, h, hb⟩ : ∃ program, (({} : Assembler).assemble topBranch).program =
        .ok program ∧ program.bytes = [0xF0, 0x80] := ⟨_, rfl, rfl⟩
    exact ⟨program, h, hb, hprogram _ _ _ h⟩
  · have hbranch : (branchIfEqual (.word 0xFF7F)).BranchesTo (.word 0xFF7F) :=
      ⟨rfl, ⟨_, rfl, by decide +kernel⟩, rfl⟩
    have hplaced : Layout.statement { pc := 0xFFFE, addressSet := true } []
        (branchIfEqual (.word 0xFF7F)) =
          .ok ({ pc := 0x10000, addressSet := true }, ⟨0xFFFE, 2⟩) := by
      decide +kernel
    have hfar : ¬ InReach 0xFFFE 0xFF7F := by
      unfold InReach
      decide
    exact (hcodes _ _ _ _ _ _ .empty _ hbranch hplaced rfl).2.2.2 hfar

end Asm6502
