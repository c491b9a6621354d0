-- The layout and the object code agree on every instruction. A statement is
-- decoded twice, first with the labels defined so far and then with all of
-- them, but what is written is always the instruction that the layout saw.
import Asm6502.Proofs.Decoding
import Asm6502.Proofs.Emission

namespace Asm6502

theorem Statement.decode_eq_ok {labels : Label.View} {st : Statement} {i : Instruction} :
    st.decode labels = .ok i ↔ st.decode? labels = some i := by
  unfold decode
  split
  · simp [*]
  · simp [*]

namespace Emit

/-- Widening keeps the mnemonic, and the mode up to width. -/
theorem fitted_narrow {length : Nat} {decoded i : Instruction} (h : fitted length decoded = .ok i) :
    i.mnemonic = decoded.mnemonic ∧ i.mode.narrow = decoded.mode.narrow := by
  obtain ⟨hm, ⟨rfl, _⟩ | ⟨_, hw⟩⟩ := fitted_eq_ok h
  · exact ⟨rfl, rfl⟩
  · exact ⟨hm, (Mode.narrow_eq_of_widen? hw).symm⟩

/-- `X=S` may be read in two ways, but these take one byte and two bytes. -/
theorem stackCopy_eq_of_length {v w : Label.View} {st : Statement} {i j : Instruction}
    {mode : Mode} (hst : st.isStackCopy) (hi : st.decode? v = some i) (hj : st.decode? w = some j)
    (hn : mode.narrow = j.mode.narrow) (hl : mode.length = i.mode.length) :
    j.mnemonic = i.mnemonic ∧ j.mode.narrow = i.mode.narrow := by
  have hlength (k : Mode) : (k.narrow = .implied → k.length = 1) ∧
      (k.narrow = .immediate → k.length = 2) := by
    cases k <;> decide
  rcases Statement.decode?_stackCopy hst hi with ⟨him, hin⟩ | ⟨him, hin⟩
  · rcases Statement.decode?_stackCopy hst hj with ⟨hjm, hjn⟩ | ⟨hjm, hjn⟩
    · exact ⟨by rw [him, hjm], by rw [hin, hjn]⟩
    · rw [(hlength mode).2 (hn.trans hjn), (hlength i.mode).1 hin] at hl
      cases hl
  · rcases Statement.decode?_stackCopy hst hj with ⟨hjm, hjn⟩ | ⟨hjm, hjn⟩
    · rw [(hlength mode).1 (hn.trans hjn), (hlength i.mode).2 hin] at hl
      cases hl
    · exact ⟨by rw [him, hjm], by rw [hin, hjn]⟩

/-- A statement that was decoded to `i` once, and is written in as many bytes,
is written as `i` in its mnemonic and its mode, whatever the labels are now. -/
theorem fitted_as_sized {v w : Label.View} {st : Statement} {i decoded written : Instruction}
    (hi : st.decode v = .ok i) (hd : st.decode w = .ok decoded)
    (hf : fitted i.length decoded = .ok written) (hl : written.length = i.length) :
    written.mnemonic = i.mnemonic ∧ written.mode = i.mode := by
  rw [Statement.decode_eq_ok] at hi hd
  obtain ⟨hm, hn⟩ := fitted_narrow hf
  have hsame : decoded.mnemonic = i.mnemonic ∧ decoded.mode.narrow = i.mode.narrow := by
    by_cases hst : st.isStackCopy
    · exact stackCopy_eq_of_length hst hi hd hn hl
    · exact Statement.decode?_narrow hst hd hi
  exact ⟨hm.trans hsame.1, Mode.eq_of_narrow_of_length (hn.trans hsame.2) hl⟩

end Emit

/-- Every instruction of the lines is written as it was sized. The layout finds
statement `m` of line `n` in the state `found` and decodes it to `i`. It is
decoded again with the labels of the whole program and written as `written`,
which has the mnemonic and the mode of `i`. The bytes of the statement are the
opcode of `i` and as many more as its mode takes. -/
def WrittenAsSized (lines : List Line) (layout : Layout) (parts : List (List Text)) : Prop :=
  ∀ n m line st, lines[n]? = some line → line.statements[m]? = some st →
    Directive.of? st.command = none →
    ∃ found label i decoded written first code rest,
      Layout.reach lines n m = some (found, label) ∧
      st.decode found.labels.lookup = .ok i ∧
      st.decode (layout.labels.leave.behind (lines.take (n + 1))).lookup = .ok decoded ∧
      Emit.fitted i.length decoded = .ok written ∧
      written.mnemonic = i.mnemonic ∧ written.mode = i.mode ∧
      parts[n]? = some first ∧ first[m]? = some (code :: rest) ∧
      Opcode.lookup i.mnemonic i.mode = .ok code ∧ (code :: rest).length = i.mode.length

theorem Assembled.writtenAsSized {lines : List Line} {program : Program} {layout : Layout}
    {sized : List SizedLine} {parts : List (List Text)}
    (h : Assembled lines program layout sized parts) : WrittenAsSized lines layout parts := by
  intro n m line st hn hm hdir
  obtain ⟨s, size, found, label, next, first, codes, _, _, hreach, hst, hfirst, hcodes, hemit⟩ :=
    h.statement_at hn hm
  obtain ⟨i, hi, hsize⟩ := (Layout.step_of_statement hst).1.decoded_of_none hdir
  obtain ⟨hsc, hlen⟩ := Emit.statement_eq_ok.1 hemit
  simp only [Emit.statementCodes, hdir] at hsc
  obtain ⟨decoded, written, hd, hf, he⟩ := Emit.instructionCodes_eq_ok hsc
  obtain ⟨code, rest, hcode, rfl, hwl⟩ := Emit.encoded_eq_ok he
  rw [hsize] at hf hlen
  obtain ⟨hm', hk⟩ := Emit.fitted_as_sized hi hd hf (hwl.symm.trans hlen)
  rw [hm', hk] at hcode
  exact ⟨found, label, i, decoded, written, first, code, rest, hreach, hi, hd, hf, hm', hk, hfirst,
    hcodes, Emit.lookup_eq_ok.2 hcode, hlen⟩

/-- No program holds an instruction of another mnemonic or mode than the one
that the layout reserved bytes for. -/
theorem every_instruction_is_written_as_it_was_sized {assembler : Assembler} {lines : List Line}
    {program : Program} (h : (assembler.assemble lines).program = .ok program) :
    ∃ expanded layout sized parts, (Control.expand {} lines).lines = .ok expanded ∧
      Assembled expanded program layout sized parts ∧ WrittenAsSized expanded layout parts := by
  obtain ⟨expanded, layout, sized, parts, hx, ha⟩ := assembled_of_ok h
  exact ⟨expanded, layout, sized, parts, hx, ha, ha.writtenAsSized⟩

/-- A load from a label that a later line moves into the zero page. -/
def forwardLoad : List Line :=
  let line (number : Int) (label : String) (st : Statement) : Line :=
    { number, file := [], text := [], label := ascii label, statements := [st] }
  [line 1 "" ⟨.system (ascii "*"), .word 0x2000⟩,
    line 2 "" ⟨.ident (ascii "A"), .paren (.ident (ascii "later"))⟩,
    line 3 "later" ⟨.system (ascii ":"), .byte 0x12⟩]

theorem forwardLoad_is_written_as_it_was_sized :
    ∃ program, (({} : Assembler).assemble forwardLoad).program = .ok program ∧
      program.bytes = [0xAD, 0x12, 0x00] ∧
      ∃ expanded layout sized parts, (Control.expand {} forwardLoad).lines = .ok expanded ∧
        Assembled expanded program layout sized parts ∧ WrittenAsSized expanded layout parts := by
  obtain ⟨program, h, hb⟩ : ∃ program, (({} : Assembler).assemble forwardLoad).program =
      .ok program ∧ program.bytes = [0xAD, 0x12, 0x00] := ⟨_, rfl, rfl⟩
  exact ⟨program, h, hb, every_instruction_is_written_as_it_was_sized h⟩

end Asm6502
