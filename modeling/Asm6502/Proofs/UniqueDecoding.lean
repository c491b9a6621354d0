-- Object code can be read back. Every opcode belongs to one mnemonic in one mode,
-- and the mode says how many bytes follow it, so the bytes of a program without
-- data tell all its instructions.
import Asm6502.Proofs.PassAgreement
import Asm6502.Proofs.SingleOrigin

namespace Asm6502

/-! ## Reading object code -/

namespace Opcode

/-- All opcodes, with what they stand for. -/
def table : List (UInt8 × Mnemonic × Mode) :=
  Mnemonic.all.flatMap fun mnemonic =>
    (modes mnemonic).map fun pair => (pair.2, mnemonic, pair.1)

/-- The mnemonic and the mode of an opcode. -/
def ofCode? (code : UInt8) : Option (Mnemonic × Mode) :=
  (table.find? fun entry => entry.1.toNat.beq code.toNat).map Prod.snd

theorem mem_table {mnemonic : Mnemonic} {mode : Mode} {code : UInt8}
    (h : code? mnemonic mode = some code) : (code, mnemonic, mode) ∈ table := by
  have hall : mnemonic ∈ Mnemonic.all := by cases mnemonic <;> decide
  rw [table, List.mem_flatMap]
  exact ⟨mnemonic, hall, List.mem_map.2 ⟨(mode, code), Decode.mem_of_lookup h, rfl⟩⟩

/-- No two entries of the table share an opcode. -/
theorem ofCode?_of_mem : ∀ entry ∈ table, ofCode? entry.1 = some entry.2 := by decide +kernel

theorem ofCode?_of_code? {mnemonic : Mnemonic} {mode : Mode} {code : UInt8}
    (h : code? mnemonic mode = some code) : ofCode? code = some (mnemonic, mode) :=
  ofCode?_of_mem _ (mem_table h)

end Opcode

/-- An instruction as it is written, with the bytes behind its opcode. -/
structure Written where
  mnemonic : Mnemonic
  mode : Mode
  operand : Text
deriving DecidableEq, Repr

namespace Written

/-- There is an opcode, and the operand has as many bytes as the mode takes. -/
structure Legal (w : Written) : Prop where
  has : Opcode.has w.mnemonic w.mode = true
  full : w.operand.length + 1 = w.mode.length

/-- The bytes of an instruction. -/
def codes (w : Written) : Text := (Opcode.code? w.mnemonic w.mode).toList ++ w.operand

end Written

/-- Reads object code. The first byte tells the instruction and how many bytes belong
to it. -/
def disassemble : Text → Option (List Written)
  | [] => some []
  | code :: rest =>
    match Opcode.ofCode? code with
    | none => none
    | some (mnemonic, mode) =>
      let length := mode.length - 1
      if length ≤ rest.length then
        (disassemble (rest.drop length)).map (⟨mnemonic, mode, rest.take length⟩ :: ·)
      else none
termination_by bytes => bytes.length
decreasing_by
  rw [List.length_drop, List.length_cons]
  exact Nat.lt_succ_of_le (Nat.sub_le _ _)

theorem disassemble_append {w : Written} (h : w.Legal) (rest : Text) :
    disassemble (w.codes ++ rest) = (disassemble rest).map (w :: ·) := by
  obtain ⟨code, hcode⟩ := Option.isSome_iff_exists.1 h.has
  have hlength : w.mode.length - 1 = w.operand.length := by
    have := h.full
    omega
  rw [Written.codes, hcode, Option.toList_some, List.singleton_append, List.cons_append,
    disassemble, Opcode.ofCode?_of_code? hcode]
  simp [hlength]

/-- Bytes that are the code of instructions, one behind the other. -/
structure WrittenAs (stream : List Written) (bytes : Text) : Prop where
  legal : ∀ w ∈ stream, w.Legal
  bytes_eq : bytes = stream.flatMap Written.codes

namespace WrittenAs

theorem nil : WrittenAs [] [] := ⟨by simp, rfl⟩

theorem single {w : Written} (h : w.Legal) : WrittenAs [w] w.codes := ⟨by simp [h], by simp⟩

theorem append {front back : List Written} {bytes others : Text} (h : WrittenAs front bytes)
    (h' : WrittenAs back others) : WrittenAs (front ++ back) (bytes ++ others) := by
  refine ⟨?_, by rw [h.bytes_eq, h'.bytes_eq, List.flatMap_append]⟩
  intro w hw
  rcases List.mem_append.1 hw with hw | hw
  · exact h.legal w hw
  · exact h'.legal w hw

/-- Object code is read back as the instructions that were written. -/
theorem disassemble_eq {stream : List Written} {bytes : Text} (h : WrittenAs stream bytes) :
    disassemble bytes = some stream := by
  obtain ⟨hlegal, rfl⟩ := h
  induction stream with
  | nil => rw [List.flatMap_nil, disassemble]
  | cons w rest ih =>
    rw [List.forall_mem_cons] at hlegal
    rw [List.flatMap_cons, disassemble_append hlegal.1, ih hlegal.2, Option.map_some]

end WrittenAs

/-! ## The instructions of a program -/

namespace Emit

/-- What an instruction statement is written as. -/
def written (labels : Label.View) (st : Statement) (size : Sizing) : Except Error Written := do
  let decoded ← (st.decode labels).mapError .decode
  let i ← fitted size.length decoded
  return ⟨i.mnemonic, i.mode, ← operandBytes labels st size i⟩

variable {labels : Label.View} {st : Statement} {size : Sizing} {codes : Text}

theorem written_eq_ok {w : Written} :
    written labels st size = .ok w ↔
      ∃ decoded i, st.decode labels = .ok decoded ∧ fitted size.length decoded = .ok i ∧
        w.mnemonic = i.mnemonic ∧ w.mode = i.mode ∧
        operandBytes labels st size i = .ok w.operand := by
  unfold written
  simp only [Except.bind_eq_ok, Except.mapError_eq_ok, Except.pure_eq_ok]
  constructor
  · rintro ⟨decoded, hd, i, hi, operand, ho, rfl⟩
    exact ⟨decoded, i, hd, hi, rfl, rfl, ho⟩
  · rintro ⟨decoded, i, hd, hi, hmnemonic, hmode, ho⟩
    exact ⟨decoded, hd, i, hi, w.operand, ho, by rw [← hmnemonic, ← hmode]⟩

/-- The bytes of an instruction statement are those of what it is written as. -/
theorem instructionCodes_eq_ok_iff :
    instructionCodes labels st size = .ok codes ↔
      ∃ w, written labels st size = .ok w ∧ w.Legal ∧ codes = w.codes := by
  constructor
  · intro h
    obtain ⟨decoded, i, hd, hi, he⟩ := instructionCodes_eq_ok h
    obtain ⟨code, operand, hcode, ho, rfl⟩ := encoded_eq_ok_iff.1 he
    refine ⟨⟨i.mnemonic, i.mode, operand⟩, written_eq_ok.2 ⟨decoded, i, hd, hi, rfl, rfl, ho⟩,
      ⟨?_, operandBytes_length ho⟩, ?_⟩
    · simp [Opcode.has, hcode]
    · simp [Written.codes, hcode]
  · rintro ⟨w, hw, hlegal, rfl⟩
    obtain ⟨decoded, i, hd, hi, hmnemonic, hmode, ho⟩ := written_eq_ok.1 hw
    obtain ⟨code, hcode⟩ := Option.isSome_iff_exists.1 hlegal.has
    rw [instructionCodes_eq, Except.bind_eq_ok]
    refine ⟨decoded, Except.mapError_eq_ok.2 hd, Except.bind_eq_ok.2 ⟨i, hi, ?_⟩⟩
    rw [encoded_eq_ok_iff]
    refine ⟨code, w.operand, ?_, ho, ?_⟩
    · rw [← hmnemonic, ← hmode, hcode]
    · rw [Written.codes, hcode]
      rfl

/-- What the instructions among the statements of a line are written as. -/
def writtenStatements (labels : Label.View) (pairs : List (Statement × Sizing)) :
    Except Error (List Written) :=
  (pairs.filter fun pair => !pair.1.isDirective).mapM fun pair => written labels pair.1 pair.2

/-- What the instructions of lines are written as. -/
def writtenLines (labels : Label.Table) : List SizedLine → Except Error (List Written)
  | [] => .ok []
  | sized :: rest => do
    let entered := labels.enter sized.line.label
    let first ← writtenStatements entered.lookup (sized.line.statements.zip sized.sizes)
    let others ← writtenLines entered rest
    return first ++ others

end Emit

namespace Statement

/-- A statement whose bytes are data. -/
def isData (st : Statement) : Bool :=
  Directive.of? st.command == some .data || Directive.of? st.command == some .fill

theorem isDirective_eq_false_iff {st : Statement} :
    st.isDirective = false ↔ Directive.of? st.command = none := by
  simp [isDirective]

end Statement

namespace Emit

variable {labels : Label.View} {st : Statement} {size : Sizing} {codes : Text}

theorem statement_of_isDirective (hd : st.isDirective = true) (hdata : st.isData = false)
    (h : statement labels st size = .ok codes) : codes = [] := by
  have hcodes := (statement_eq_ok.1 h).1
  unfold statementCodes at hcodes
  unfold Statement.isDirective at hd
  unfold Statement.isData at hdata
  cases hof : Directive.of? st.command with
  | none => simp [hof] at hd
  | some directive =>
    cases directive with
    | origin | move =>
      rw [hof] at hcodes
      cases hcodes
      rfl
    | data | fill => simp [hof] at hdata

theorem statement_of_not_isDirective (hd : st.isDirective = false)
    (h : statement labels st size = .ok codes) :
    ∃ w, written labels st size = .ok w ∧ w.Legal ∧ codes = w.codes := by
  have hcodes := (statement_eq_ok.1 h).1
  rw [statementCodes, Statement.isDirective_eq_false_iff.1 hd] at hcodes
  exact instructionCodes_eq_ok_iff.1 hcodes

/-- Without data, the bytes of a line are those of its instructions. -/
theorem writtenStatements_of_parts {pairs : List (Statement × Sizing)} {all : List Text}
    (h : parts labels pairs = .ok all) (hdata : ∀ pair ∈ pairs, pair.1.isData = false) :
    ∃ stream, writtenStatements labels pairs = .ok stream ∧ WrittenAs stream all.flatten := by
  induction pairs generalizing all with
  | nil =>
    cases h
    exact ⟨[], rfl, .nil⟩
  | cons pair rest ih =>
    rw [List.forall_mem_cons] at hdata
    unfold parts at h
    rw [List.mapM_cons] at h
    obtain ⟨first, hfirst, h⟩ := Except.bind_eq_ok.1 h
    obtain ⟨others, hothers, h⟩ := Except.bind_eq_ok.1 h
    cases Except.pure_eq_ok.1 h
    obtain ⟨stream, hstream, hbytes⟩ := ih hothers hdata.2
    cases hd : pair.1.isDirective with
    | true =>
      rw [statement_of_isDirective hd hdata.1 hfirst]
      refine ⟨stream, ?_, hbytes⟩
      rw [writtenStatements, List.filter_cons_of_neg (by simp [hd])]
      exact hstream
    | false =>
      obtain ⟨w, hw, hlegal, rfl⟩ := statement_of_not_isDirective hd hfirst
      refine ⟨w :: stream, ?_, (WrittenAs.single hlegal).append hbytes⟩
      rw [writtenStatements, List.filter_cons_of_pos (by simp [hd]), List.mapM_cons,
        Except.bind_eq_ok]
      exact ⟨w, hw, Except.bind_eq_ok.2 ⟨stream, hstream, rfl⟩⟩

/-- Without data, the bytes of lines are those of their instructions. -/
theorem writtenLines_of_lineParts {labels : Label.Table} {sized : List SizedLine}
    {all : List (List Text)} (h : lineParts labels sized = .ok all)
    (hdata : ∀ s ∈ sized, ∀ st ∈ s.line.statements, st.isData = false) :
    ∃ stream, writtenLines labels sized = .ok stream ∧ WrittenAs stream (blockOf sized all) := by
  induction sized generalizing labels all with
  | nil =>
    cases h
    exact ⟨[], rfl, .nil⟩
  | cons s rest ih =>
    rw [List.forall_mem_cons] at hdata
    obtain ⟨first, hfirst, h⟩ := Except.bind_eq_ok.1 h
    obtain ⟨others, hothers, h⟩ := Except.bind_eq_ok.1 h
    cases Except.pure_eq_ok.1 h
    have hpairs : ∀ pair ∈ s.line.statements.zip s.sizes, pair.1.isData = false :=
      fun pair hpair => hdata.1 pair.1 (List.of_mem_zip hpair).1
    obtain ⟨stream, hstream, hbytes⟩ := writtenStatements_of_parts hfirst hpairs
    obtain ⟨stream', hstream', hbytes'⟩ := ih hothers hdata.2
    refine ⟨stream ++ stream', ?_, hbytes.append hbytes'⟩
    rw [writtenLines, Except.bind_eq_ok]
    exact ⟨stream, hstream, Except.bind_eq_ok.2 ⟨stream', hstream', rfl⟩⟩

end Emit

/-- The instructions of lines, as an assembly writes them. -/
def instructions (lines : List Line) : Except Error (List Written) := do
  let expanded ← (Control.expand {} lines).lines
  let (layout, sized) := Layout.lines {} expanded
  Emit.writtenLines layout.labels.leave (← sized)

/-- Expansion adds no data. -/
theorem Control.expand_isData {lines out : List Line}
    (h : (Control.expand {} lines).lines = .ok out)
    (hdata : ∀ st ∈ lines.flatMap Line.statements, st.isData = false) :
    ∀ st ∈ out.flatMap Line.statements, st.isData = false := by
  intro st hst
  cases hd : st.isDirective with
  | false => simp [Statement.isData, Statement.isDirective_eq_false_iff.1 hd]
  | true =>
    have hmem : st ∈ (out.flatMap Line.statements).filter Statement.isDirective :=
      List.mem_filter.2 ⟨hst, hd⟩
    rw [Control.expand_directives rfl h] at hmem
    exact hdata st (List.mem_filter.1 hmem).1

/-- The bytes of a program without data are those of its instructions. -/
theorem instructions_of_assemble {assembler : Assembler} {lines : List Line} {program : Program}
    (h : (assembler.assemble lines).program = .ok program)
    (hdata : ∀ st ∈ lines.flatMap Line.statements, st.isData = false) :
    ∃ stream, instructions lines = .ok stream ∧ WrittenAs stream program.bytes := by
  obtain ⟨expanded, layout, sized, parts, hx, ha⟩ := assembled_of_ok h
  have hsized : ∀ s ∈ sized, ∀ st ∈ s.line.statements, st.isData = false := by
    intro s hs st hst
    apply Control.expand_isData hx hdata
    rw [← ha.sized_lines]
    exact List.mem_flatMap.2 ⟨s.line, List.mem_map.2 ⟨s, hs, rfl⟩, hst⟩
  obtain ⟨stream, hstream, hbytes⟩ := Emit.writtenLines_of_lineParts ha.encoded hsized
  refine ⟨stream, ?_, ha.bytes_eq ▸ hbytes⟩
  rw [instructions, hx, Except.bind_eq_ok]
  refine ⟨expanded, rfl, ?_⟩
  simp only [ha.laid_out]
  exact hstream

/-- Programs without data that have the same bytes have the same instructions, with the
same operands. They are what the bytes are read back as. -/
theorem equal_bytes_are_equal_instructions {a b : Assembler} {lines others : List Line}
    {program other : Program} (h : (a.assemble lines).program = .ok program)
    (h' : (b.assemble others).program = .ok other)
    (hdata : ∀ st ∈ lines.flatMap Line.statements, st.isData = false)
    (hdata' : ∀ st ∈ others.flatMap Line.statements, st.isData = false)
    (hbytes : program.bytes = other.bytes) :
    ∃ stream, instructions lines = .ok stream ∧ instructions others = .ok stream ∧
      WrittenAs stream program.bytes ∧ disassemble program.bytes = some stream := by
  obtain ⟨stream, hstream, hwritten⟩ := instructions_of_assemble h hdata
  obtain ⟨stream', hstream', hwritten'⟩ := instructions_of_assemble h' hdata'
  have hsame : stream = stream' := by
    apply Option.some.inj
    rw [← hwritten.disassemble_eq, ← hwritten'.disassemble_eq, hbytes]
  exact ⟨stream, hstream, hsame ▸ hstream', hwritten, hwritten.disassemble_eq⟩

/-- The load of `forwardLoad` at another place, from an address that is written out. -/
def wordLoad : List Line :=
  let line (number : Int) (st : Statement) : Line :=
    { number, file := [], text := [], label := [], statements := [st] }
  [line 1 ⟨.system (ascii "*"), .word 0x3000⟩,
    line 2 ⟨.ident (ascii "A"), .paren (.word 0x0012)⟩]

theorem wordLoad_is_forwardLoad :
    ∃ stream, instructions forwardLoad = .ok stream ∧ instructions wordLoad = .ok stream ∧
      stream = [⟨.lda, .absolute, [0x12, 0x00]⟩] := by
  obtain ⟨program, h, hb⟩ : ∃ program, (({} : Assembler).assemble forwardLoad).program =
      .ok program ∧ program.bytes = [0xAD, 0x12, 0x00] := ⟨_, rfl, rfl⟩
  obtain ⟨other, h', hb'⟩ : ∃ program, (({} : Assembler).assemble wordLoad).program =
      .ok program ∧ program.bytes = [0xAD, 0x12, 0x00] := ⟨_, rfl, rfl⟩
  obtain ⟨stream, hstream, hstream', _, _⟩ := equal_bytes_are_equal_instructions h h'
    (by decide +kernel) (by decide +kernel) (hb.trans hb'.symm)
  refine ⟨stream, hstream, hstream', ?_⟩
  apply Except.ok.inj
  rw [← hstream]
  decide +kernel

end Asm6502
