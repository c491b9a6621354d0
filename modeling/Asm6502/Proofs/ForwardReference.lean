-- Forward references never change sizes. A statement that could be placed
-- with the labels defined so far takes as many bytes once all labels are
-- known: if it could be shorter now, it is widened.
import Asm6502.Proofs.DataSize
import Asm6502.Proofs.LabelGrowth
import Asm6502.Proofs.PassAgreement

namespace Asm6502

namespace Emit

/-! ## Instructions -/

theorem operandValue_keepsSize (labels : Label.View) (pc : UInt16) (operand : Operand) :
    KeepsSize (operandValue labels pc operand) := by
  cases operand with
  | byte | word | target => exact Except.errorIs_ok _
  | label name => exact Except.errorIs_mapError _ fun _ => rfl
  | expr e => exact keepsSize_value _
  | none => exact Except.errorIs_error rfl

theorem encoded_keepsSize (labels : Label.View) (st : Statement) (size : Sizing)
    (i : Instruction) : KeepsSize (encoded labels st size i) := by
  have hcode : KeepsSize ((Opcode.lookup i.mnemonic i.mode).mapError .opcode) :=
    Except.errorIs_mapError _ fun _ => rfl
  have hcodes (value : UInt16) : KeepsSize (operandCodes st i.mode size.pc value) :=
    operandCodes_errorIs (fun _ => rfl) fun _ => rfl
  refine hcode.bind fun code _ => ?_
  split
  · exact Except.errorIs_ok _
  · exact (operandValue_keepsSize labels size.pc i.operand).bind fun value _ =>
      (hcodes value).bind fun _ _ => Except.errorIs_ok _

/-- An instruction whose mode has become narrower can be widened to the bytes
that were reserved. -/
theorem widen_of_narrows {i j : Instruction} (h : Decode.Narrows i j)
    (hl : j.length < i.length) : ∃ wide, widen j = .ok wide ∧ wide.length = i.length := by
  rcases h with he | ⟨hw, hm⟩
  · rw [Instruction.length, Instruction.length, he] at hl
    omega
  · obtain ⟨wide, hwide⟩ : ∃ wide, widen j = .ok wide := by simp [widen, hw, hm]
    have hmode := (widen_eq_ok hwide).2
    rw [hw, Option.some.injEq] at hmode
    exact ⟨wide, hwide, by rw [Instruction.length, Instruction.length, hmode]⟩

theorem fitted_of_narrows {i j : Instruction} (h : Decode.Narrows i j) :
    ∃ written, fitted i.length j = .ok written ∧ written.length = i.length := by
  by_cases hl : j.length < i.length
  · rw [fitted, if_pos hl]
    exact widen_of_narrows h hl
  · rw [fitted, if_neg hl]
    refine ⟨j, rfl, ?_⟩
    rcases h with he | ⟨hw, _⟩
    · rw [Instruction.length, Instruction.length, he]
    · exact absurd (Mode.length_lt_of_widen? hw) hl

/-! ## Statements -/

theorem decode_narrows {v w : Label.View} (hvw : v.Extends w) {st : Statement}
    {i j : Instruction} (hst : ¬ st.isStackCopy) (hi : st.decode v = .ok i)
    (hj : st.decode w = .ok j) : Decode.Narrows i j :=
  Statement.decode?_extends hvw hst (Statement.decode_eq_ok.1 hi) (Statement.decode_eq_ok.1 hj)

/-- A statement takes exactly the bytes that are reserved for it: if it can be
encoded at all, it has that many bytes, no error says otherwise, and if it is
decoded to a shorter instruction now, that one can be widened. -/
structure TakesReserved (labels : Label.View) (st : Statement) (size : Sizing) : Prop where
  length_eq : ∀ codes, statementCodes labels st size = .ok codes → codes.length = size.length
  keepsSize : KeepsSize (statementCodes labels st size)
  widens : ∀ i, Directive.of? st.command = none → st.decode labels = .ok i →
    i.length < size.length → ∃ wide, widen i = .ok wide ∧ wide.length = size.length

theorem takesReserved_of_decode {v w : Label.View} (hvw : v.Extends w) {st : Statement}
    {i : Instruction} (hcommand : Directive.of? st.command = none) (hst : ¬ st.isStackCopy)
    (hi : st.decode v = .ok i) (pc : UInt16) : TakesReserved w st ⟨pc, i.length⟩ := by
  have hcodes : statementCodes w st ⟨pc, i.length⟩ = instructionCodes w st ⟨pc, i.length⟩ := by
    simp only [statementCodes, hcommand]
  refine ⟨?_, ?_, ?_⟩
  · intro codes h
    obtain ⟨j, written, hj, hf, he⟩ := instructionCodes_eq_ok (hcodes.symm.trans h)
    obtain ⟨written', hf', hl⟩ := fitted_of_narrows (decode_narrows hvw hst hi hj)
    cases hf.symm.trans hf'
    obtain ⟨_, _, _, _, hlen⟩ := encoded_eq_ok he
    exact hlen.trans hl
  · rw [hcodes, instructionCodes_eq]
    have hdecode : KeepsSize ((st.decode w).mapError .decode) :=
      Except.errorIs_mapError _ fun _ => rfl
    refine hdecode.bind fun j hj => ?_
    have hj := Except.mapError_eq_ok.1 hj
    obtain ⟨written, hf, _⟩ := fitted_of_narrows (decode_narrows hvw hst hi hj)
    rw [hf]
    exact encoded_keepsSize w st _ written
  · intro j _ hj hl
    exact widen_of_narrows (decode_narrows hvw hst hi hj) hl

/-- A statement that was placed takes the bytes that were reserved, with every
view that knows at least the labels of that time. -/
theorem takesReserved_of_step {layout next : Layout} {label : Text} {st : Statement}
    {length : Nat} {labels : Label.View} (h : Layout.Step layout label st next length)
    (hst : ¬ st.isStackCopy)
    (hext : Directive.of? st.command ≠ some .move →
      Label.View.Extends layout.labels.lookup labels) :
    TakesReserved labels st ⟨layout.address, length⟩ := by
  have hwidens {d : Directive} (hd : Directive.of? st.command = some d) {p : Prop} :
      Directive.of? st.command = none → p := by simp [hd]
  cases h with
  | origin command | move command =>
    refine ⟨fun codes h => ?_, ?_, fun i hn => hwidens command hn⟩
    · simp only [statementCodes, command] at h
      cases h
      rfl
    · simp only [statementCodes, command]
      exact Except.errorIs_ok _
  | data command _ size =>
    refine ⟨fun codes h => ?_, ?_, fun i hn => hwidens command hn⟩
    · simp only [statementCodes, command] at h
      exact Directive.dataCodes_length size h
    · simp only [statementCodes, command]
      exact Directive.dataCodes_keepsSize _
  | fill command _ size =>
    have hsize := Directive.fillOf_extends (hext (by simp [command])) size
    refine ⟨fun codes h => ?_, ?_, fun i hn => hwidens command hn⟩
    · simp only [statementCodes, command] at h
      exact Directive.fillCodes_length hsize h
    · simp only [statementCodes, command]
      exact Directive.fillCodes_keepsSize _
  | instruction command _ decoded =>
    exact takesReserved_of_decode (hext (by simp [command])) command hst decoded layout.address

theorem TakesReserved.statement {labels : Label.View} {st : Statement} {size : Sizing}
    (h : TakesReserved labels st size) : KeepsSize (Emit.statement labels st size) := by
  refine h.keepsSize.bind fun codes hc => ?_
  rw [if_pos (h.length_eq codes hc)]
  exact Except.errorIs_ok _

end Emit

/-! ## Whole programs -/

/-- Every statement of a program that was laid out takes the bytes reserved for
it, with the labels of the whole program. -/
theorem Layout.takesReserved {lines : List Line} {layout : Layout} {sized : List SizedLine}
    (hmoves : ∀ line ∈ lines, line.MovesInFront)
    (hcopies : ∀ line ∈ lines, ∀ st ∈ line.statements, ¬ st.isStackCopy)
    (h : Layout.lines {} lines = (layout, .ok sized)) {n m : Nat} {s : SizedLine}
    {st : Statement} {size : Sizing} (hs : sized[n]? = some s)
    (hst : s.line.statements[m]? = some st) (hsize : s.sizes[m]? = some size) :
    Emit.TakesReserved (layout.labels.leave.behind (lines.take (n + 1))).lookup st size := by
  have hn : lines[n]? = some s.line := by
    rw [← Layout.lines_line h, List.getElem?_map, hs]
    rfl
  obtain ⟨s', size', found, label, next, hs', _, hsize', hreach, hplaced⟩ :=
    Layout.reach_of_lines h hn hst
  cases hs.symm.trans hs'
  cases hsize.symm.trans hsize'
  have hmem := List.mem_of_getElem? hn
  obtain ⟨hstep, hpc, _⟩ := Layout.step_of_statement hplaced
  have hreserved := Emit.takesReserved_of_step hstep
    (hcopies _ hmem st (List.mem_of_getElem? hst))
    (fun hmove => Layout.reach_extends h hn hst (hmoves _ hmem) hmove hreach)
  rwa [← hpc] at hreserved

/-- If every `:` stands in front of the other statements of its line, and no
statement is `X=S`, then lines that are laid out never fail later because a
statement has changed its size: each one takes the bytes reserved for it. -/
theorem forward_references_never_change_sizes {lines : List Line} {layout : Layout}
    {sized : List SizedLine} (hmoves : ∀ line ∈ lines, line.MovesInFront)
    (hcopies : ∀ line ∈ lines, ∀ st ∈ line.statements, ¬ st.isStackCopy)
    (h : Layout.lines {} lines = (layout, .ok sized)) :
    (∀ e, (Emit.lines layout.labels.leave sized).lines = .error e → e.isSizeChanged = false) ∧
      ∀ (n m : Nat) (s : SizedLine) (st : Statement) (size : Sizing), sized[n]? = some s →
        s.line.statements[m]? = some st → s.sizes[m]? = some size →
        Emit.TakesReserved (layout.labels.leave.behind (lines.take (n + 1))).lookup st size := by
  constructor
  · intro e he
    obtain ⟨n, s, hs, hl⟩ := Emit.lines_eq_error he
    obtain ⟨m, st, size, cause, hst, hsize, hc, rfl⟩ := Emit.line_eq_error hl
    rw [Layout.lines_line h] at hc
    exact (Layout.takesReserved hmoves hcopies h hs hst hsize).statement cause hc
  · intro n m s st size hs hst hsize
    exact Layout.takesReserved hmoves hcopies h hs hst hsize

/-- A load from a label that a later line moves into the zero page, in front of
a word that no line defines. -/
def danglingWord : List Line :=
  let line (number : Int) (label : String) (statements : List Statement) : Line :=
    { number, file := [], text := [], label := ascii label, statements }
  [line 1 "" [⟨.system (ascii "*"), .word 0x2000⟩],
    line 2 "" [⟨.ident (ascii "A"), .paren (.ident (ascii "later"))⟩,
      ⟨.system (ascii "?"), .ident (ascii "missing")⟩],
    line 3 "later" [⟨.system (ascii ":"), .byte 0x12⟩,
      ⟨.system (ascii "$"), .binary (.byte 0) .comma (.decimal 2)⟩]]

theorem danglingWord_keeps_its_sizes :
    ∃ layout sized e, (∀ line ∈ danglingWord, line.MovesInFront) ∧
      (∀ line ∈ danglingWord, ∀ st ∈ line.statements, ¬ st.isStackCopy) ∧
      Layout.lines {} danglingWord = (layout, .ok sized) ∧
      (Emit.lines layout.labels.leave sized).lines = .error e ∧ e.isSizeChanged = false ∧
      Emit.TakesReserved (layout.labels.leave.behind (danglingWord.take 2)).lookup
        ⟨.ident (ascii "A"), .paren (.ident (ascii "later"))⟩ ⟨0x2000, 3⟩ := by
  have hmoves : ∀ line ∈ danglingWord, line.MovesInFront := by decide +kernel
  have hcopies : ∀ line ∈ danglingWord, ∀ st ∈ line.statements, ¬ st.isStackCopy := by
    decide +kernel
  obtain ⟨layout, sized, e, s, h, he, hs, hst, hsize⟩ : ∃ layout sized e s,
      Layout.lines {} danglingWord = (layout, .ok sized) ∧
      (Emit.lines layout.labels.leave sized).lines = .error e ∧ sized[1]? = some s ∧
      s.line.statements[0]? = some ⟨.ident (ascii "A"), .paren (.ident (ascii "later"))⟩ ∧
      s.sizes[0]? = some ⟨0x2000, 3⟩ := ⟨_, _, _, _, rfl, rfl, rfl, rfl, rfl⟩
  obtain ⟨hall, hstatements⟩ := forward_references_never_change_sizes hmoves hcopies h
  exact ⟨layout, sized, e, hmoves, hcopies, h, he, hall e he, hstatements 1 0 s _ _ hs hst hsize⟩

end Asm6502
