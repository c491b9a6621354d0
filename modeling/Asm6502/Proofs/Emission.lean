-- Object code taken apart: which opcode and how many bytes an instruction
-- has, and which bytes each statement of each line adds to the program.
import Asm6502.Assembler
import Asm6502.Proofs.Placement

namespace Asm6502

namespace Emit

/-! ## Instructions -/

theorem widen_eq_ok {i wide : Instruction} (h : widen i = .ok wide) :
    wide.mnemonic = i.mnemonic ∧ i.mode.widen? = some wide.mode := by
  unfold widen at h
  split at h
  · split at h
    · cases h
      exact ⟨rfl, by assumption⟩
    · simp at h
  · simp at h

theorem operandCodes_length {st : Statement} {mode : Mode} {pc value : UInt16} {codes : Text}
    (h : operandCodes st mode pc value = .ok codes) (hm : mode.length ≠ 1) :
    codes.length + 1 = mode.length := by
  unfold operandCodes at h
  split at h
  · rename_i hr
    obtain ⟨d, _, h⟩ := Except.bind_eq_ok.1 h
    cases Except.pure_eq_ok.1 h
    rw [hr]
    rfl
  · split at h
    · rename_i h2
      split at h
      · cases h
        simp [h2]
      · simp at h
    · rename_i h2
      cases h
      have h3 : mode.length = 3 := by
        revert hm h2
        cases mode <;> decide
      simp [littleEndian, h3]

/-- The instruction that is written for a decoded one, if `length` bytes are
reserved for it. -/
def fitted (length : Nat) (decoded : Instruction) : Except Error Instruction :=
  if decoded.length < length then widen decoded else .ok decoded

theorem fitted_eq_ok {length : Nat} {decoded i : Instruction} (h : fitted length decoded = .ok i) :
    i.mnemonic = decoded.mnemonic ∧
      (i = decoded ∧ length ≤ decoded.length ∨
        decoded.length < length ∧ decoded.mode.widen? = some i.mode) := by
  unfold fitted at h
  split at h
  · rename_i hl
    obtain ⟨hm, hw⟩ := widen_eq_ok h
    exact ⟨hm, Or.inr ⟨hl, hw⟩⟩
  · rename_i hl
    cases h
    exact ⟨rfl, Or.inl ⟨rfl, Nat.le_of_not_lt hl⟩⟩

theorem lookup_eq_ok {mnemonic : Mnemonic} {mode : Mode} {code : UInt8} :
    Opcode.lookup mnemonic mode = .ok code ↔ Opcode.code? mnemonic mode = some code := by
  unfold Opcode.lookup
  split
  · simp [*]
  · simp [*]

/-- The bytes of an instruction in the form that is written. -/
def encoded (labels : Label.View) (st : Statement) (size : Sizing) (i : Instruction) :
    Except Error Text := do
  let code ← (Opcode.lookup i.mnemonic i.mode).mapError .opcode
  if i.length = 1 then return [code]
  let value ← operandValue labels size.pc i.operand
  return code :: (← operandCodes st i.mode size.pc value)

/-- An instruction statement is decoded, fitted to the bytes reserved for it,
and encoded. -/
theorem instructionCodes_eq (labels : Label.View) (st : Statement) (size : Sizing) :
    instructionCodes labels st size =
      (st.decode labels).mapError .decode >>= fun decoded =>
        fitted size.length decoded >>= encoded labels st size := by
  unfold instructionCodes
  congr 1
  funext decoded
  unfold fitted
  split
  · rfl
  · rfl

/-- The bytes behind the opcode of an instruction. -/
def operandBytes (labels : Label.View) (st : Statement) (size : Sizing) (i : Instruction) :
    Except Error Text :=
  if i.length = 1 then .ok []
  else operandValue labels size.pc i.operand >>= operandCodes st i.mode size.pc

theorem operandBytes_length {labels : Label.View} {st : Statement} {size : Sizing}
    {i : Instruction} {operand : Text}
    (h : operandBytes labels st size i = .ok operand) :
    operand.length + 1 = i.mode.length := by
  unfold operandBytes at h
  split at h
  · rename_i hone
    cases h
    exact hone.symm
  · rename_i hone
    obtain ⟨value, _, h⟩ := Except.bind_eq_ok.1 h
    exact operandCodes_length h hone

theorem encoded_eq_ok_iff {labels : Label.View} {st : Statement} {size : Sizing}
    {i : Instruction} {codes : Text} :
    encoded labels st size i = .ok codes ↔
      ∃ code operand, Opcode.code? i.mnemonic i.mode = some code ∧
        operandBytes labels st size i = .ok operand ∧ codes = code :: operand := by
  unfold encoded operandBytes
  rw [Except.bind_eq_ok]
  simp only [Except.mapError_eq_ok, lookup_eq_ok]
  split
  · constructor
    · rintro ⟨code, hcode, h⟩
      exact ⟨code, [], hcode, rfl, (Except.pure_eq_ok.1 h).symm⟩
    · rintro ⟨code, operand, hcode, ho, rfl⟩
      cases ho
      exact ⟨code, hcode, rfl⟩
  · constructor
    · rintro ⟨code, hcode, h⟩
      obtain ⟨value, hvalue, h⟩ := Except.bind_eq_ok.1 h
      obtain ⟨operand, ho, h⟩ := Except.bind_eq_ok.1 h
      exact ⟨code, operand, hcode, Except.bind_eq_ok.2 ⟨value, hvalue, ho⟩,
        (Except.pure_eq_ok.1 h).symm⟩
    · rintro ⟨code, operand, hcode, ho, rfl⟩
      obtain ⟨value, hvalue, ho⟩ := Except.bind_eq_ok.1 ho
      refine ⟨code, hcode, Except.bind_eq_ok.2 ⟨value, hvalue, ?_⟩⟩
      exact Except.bind_eq_ok.2 ⟨operand, ho, rfl⟩

/-- The bytes of an instruction are its opcode and as many bytes as its mode
takes behind it. -/
theorem encoded_eq_ok {labels : Label.View} {st : Statement} {size : Sizing} {i : Instruction}
    {codes : Text} (h : encoded labels st size i = .ok codes) :
    ∃ code rest, Opcode.code? i.mnemonic i.mode = some code ∧ codes = code :: rest ∧
      codes.length = i.mode.length := by
  obtain ⟨code, rest, hcode, hrest, rfl⟩ := encoded_eq_ok_iff.1 h
  exact ⟨code, rest, hcode, rfl, operandBytes_length hrest⟩

theorem instructionCodes_eq_ok {labels : Label.View} {st : Statement} {size : Sizing}
    {codes : Text} (h : instructionCodes labels st size = .ok codes) :
    ∃ decoded i, st.decode labels = .ok decoded ∧ fitted size.length decoded = .ok i ∧
      encoded labels st size i = .ok codes := by
  rw [instructionCodes_eq] at h
  obtain ⟨decoded, hd, h⟩ := Except.bind_eq_ok.1 h
  obtain ⟨i, hi, h⟩ := Except.bind_eq_ok.1 h
  exact ⟨decoded, i, Except.mapError_eq_ok.1 hd, hi, h⟩

/-! ## Errors of instructions -/

/-- A branch may be too far, and a value too large for a byte. -/
theorem operandCodes_errorIs {kind : Error → Prop} {st : Statement} {mode : Mode}
    {pc value : UInt16} (hbranch : mode = .relative → kind (.branchRange pc value))
    (hbyte : mode ≠ .relative → kind (.byteRange st.operand.render value)) :
    (operandCodes st mode pc value).ErrorIs kind := by
  unfold operandCodes
  split
  · rename_i hr
    refine Except.ErrorIs.bind ?_ fun _ _ => Except.errorIs_ok _
    unfold distance
    simp only
    split
    · exact Except.errorIs_error (hbranch hr)
    · exact Except.errorIs_ok _
  · rename_i hr
    split
    · split
      · exact Except.errorIs_ok _
      · exact Except.errorIs_error (hbyte hr)
    · exact Except.errorIs_ok _

/-- An instruction may have no absolute form. -/
theorem fitted_errorIs {kind : Error → Prop} (h : kind .sizeChanged) (length : Nat)
    (decoded : Instruction) : (fitted length decoded).ErrorIs kind := by
  unfold fitted widen
  split
  · split
    · split
      · exact Except.errorIs_ok _
      · exact Except.errorIs_error h
    · exact Except.errorIs_error h
  · exact Except.errorIs_ok _

/-! ## Statements and lines -/

theorem statement_eq_ok {labels : Label.View} {st : Statement} {size : Sizing} {codes : Text} :
    statement labels st size = .ok codes ↔
      statementCodes labels st size = .ok codes ∧ codes.length = size.length := by
  rw [statement, Except.bind_eq_ok]
  constructor
  · rintro ⟨codes', hc, h⟩
    split at h
    · cases Except.pure_eq_ok.1 h
      exact ⟨hc, by assumption⟩
    · simp at h
  · rintro ⟨hc, hl⟩
    exact ⟨codes, hc, by simp [hl, pure, Except.pure]⟩

/-- The bytes of each statement of a line. -/
def parts (labels : Label.View) (pairs : List (Statement × Sizing)) : Except Error (List Text) :=
  pairs.mapM fun pair => statement labels pair.1 pair.2

theorem statements_eq_parts (labels : Label.View) (pairs : List (Statement × Sizing)) :
    statements labels pairs = (parts labels pairs).map List.flatten := by
  induction pairs with
  | nil => rfl
  | cons pair rest ih =>
    rw [statements, ih]
    unfold parts
    rw [List.mapM_cons]
    cases statement labels pair.1 pair.2 with
    | error e => rfl
    | ok codes => cases rest.mapM fun pair => statement labels pair.1 pair.2 <;> rfl

/-- The bytes of each statement of each line. -/
def lineParts (labels : Label.Table) : List SizedLine → Except Error (List (List Text))
  | [] => .ok []
  | sized :: rest => do
    let entered := labels.enter sized.line.label
    let first ← parts entered.lookup (sized.line.statements.zip sized.sizes)
    let others ← lineParts entered rest
    return first :: others

/-- A line whose statements have these bytes. -/
def joined (sized : SizedLine) (parts : List Text) : PlacedLine :=
  { line := sized.line, address := sized.address, codes := parts.flatten }

theorem line_eq_ok {labels : Label.View} {sized : SizedLine} {placed : PlacedLine}
    (h : line labels sized = .ok placed) :
    ∃ first, parts labels (sized.line.statements.zip sized.sizes) = .ok first ∧
      placed = joined sized first := by
  unfold line at h
  split at h
  · rename_i codes hc
    cases h
    rw [statements_eq_parts, Except.map_eq_ok] at hc
    obtain ⟨first, hf, rfl⟩ := hc
    exact ⟨first, hf, rfl⟩
  · simp at h

/-- The lines of a program are made of the bytes of their statements. -/
theorem lines_eq_ok {labels : Label.Table} {sized : List SizedLine} {placed : List PlacedLine}
    (h : (lines labels sized).lines = .ok placed) :
    ∃ all, lineParts labels sized = .ok all ∧ placed = List.zipWith joined sized all := by
  induction sized generalizing labels placed with
  | nil =>
    cases h
    exact ⟨[], rfl, rfl⟩
  | cons s rest ih =>
    rw [lines] at h
    split at h
    · simp at h
    · rename_i first hf
      obtain ⟨others, ho, rfl⟩ := Except.map_eq_ok.1 h
      obtain ⟨codes, hc, rfl⟩ := line_eq_ok hf
      obtain ⟨all, ha, rfl⟩ := ih ho
      refine ⟨codes :: all, ?_, rfl⟩
      rw [lineParts, hc, Except.bind_eq_ok]
      exact ⟨codes, rfl, by rw [ha]; rfl⟩

end Emit

/-! ## Scopes -/

/-- The labels in the scope that lines lead to: every line with a global label
enters its scope. -/
def Label.Table.behind (table : Label.Table) (lines : List Line) : Label.Table :=
  lines.foldl (fun table line => table.enter line.label) table

namespace Emit

theorem parts_at {labels : Label.View} {pairs : List (Statement × Sizing)} {all : List Text}
    {m : Nat} {st : Statement} {size : Sizing} (h : parts labels pairs = .ok all)
    (hm : pairs[m]? = some (st, size)) :
    ∃ codes, all[m]? = some codes ∧ statement labels st size = .ok codes := by
  unfold parts at h
  obtain ⟨codes, hc, hs⟩ := Except.mapM_getElem? h hm
  exact ⟨codes, hc, hs⟩

/-- The statements of line `n` are encoded in the scope that the lines up to it
lead to. -/
theorem lineParts_at {labels : Label.Table} {sized : List SizedLine} {all : List (List Text)}
    {n : Nat} {s : SizedLine} (h : lineParts labels sized = .ok all) (hn : sized[n]? = some s) :
    ∃ first, all[n]? = some first ∧
      parts (labels.behind ((sized.map SizedLine.line).take (n + 1))).lookup
        (s.line.statements.zip s.sizes) = .ok first := by
  induction sized generalizing labels all n with
  | nil => simp at hn
  | cons s' rest ih =>
    obtain ⟨first, hf, h⟩ := Except.bind_eq_ok.1 h
    obtain ⟨others, ho, h⟩ := Except.bind_eq_ok.1 h
    cases Except.pure_eq_ok.1 h
    cases n with
    | zero =>
      simp only [List.getElem?_cons_zero, Option.some.injEq] at hn
      subst hn
      exact ⟨first, rfl, by simpa [Label.Table.behind] using hf⟩
    | succ n => simpa [Label.Table.behind] using ih ho (by simpa using hn)

/-- A line that cannot be encoded has a statement that cannot be. -/
theorem line_eq_error {labels : Label.View} {s : SizedLine} {e : Error}
    (h : line labels s = .error e) :
    ∃ (m : Nat) (st : Statement) (size : Sizing) (cause : Error),
      s.line.statements[m]? = some st ∧ s.sizes[m]? = some size ∧
      statement labels st size = .error cause ∧
      e = .located s.line.file s.line.number s.line.text cause := by
  unfold line at h
  split at h
  · simp at h
  · rename_i cause hc
    cases h
    rw [statements_eq_parts, Except.map_eq_error] at hc
    obtain ⟨⟨st, size⟩, hmem, hst⟩ := Except.mapM_eq_error hc
    obtain ⟨m, hm⟩ := List.mem_iff_getElem?.1 hmem
    rw [List.getElem?_zip_eq_some] at hm
    exact ⟨m, st, size, cause, hm.1, hm.2, hst, rfl⟩

/-- Lines that cannot be encoded have a line that cannot be, in its scope. -/
theorem lines_eq_error {labels : Label.Table} {sized : List SizedLine} {e : Error}
    (h : (lines labels sized).lines = .error e) :
    ∃ (n : Nat) (s : SizedLine), sized[n]? = some s ∧
      line (labels.behind ((sized.map SizedLine.line).take (n + 1))).lookup s = .error e := by
  induction sized generalizing labels with
  | nil => cases h
  | cons s rest ih =>
    rw [lines] at h
    split at h
    · rename_i hl
      cases h
      exact ⟨0, s, rfl, by simpa [Label.Table.behind] using hl⟩
    · obtain ⟨n, s', hn, hl⟩ := ih (Except.map_eq_error.1 h)
      exact ⟨n + 1, s', hn, by simpa [Label.Table.behind] using hl⟩

end Emit

/-! ## Whole assemblies -/

/-- Lines without control constructs, and the program that they are assembled
to: where the layout ends, the sizes of all lines, and the bytes of each
statement. -/
structure Assembled (lines : List Line) (program : Program) (layout : Layout)
    (sized : List SizedLine) (parts : List (List Text)) : Prop where
  laid_out : Layout.lines {} lines = (layout, .ok sized)
  encoded : Emit.lineParts layout.labels.leave sized = .ok parts
  joined : program.lines = List.zipWith Emit.joined sized parts
  origin_eq : program.origin = layout.origin

/-- An assembly that succeeds has expanded its lines and assembled them. -/
theorem assembled_of_ok {assembler : Assembler} {lines : List Line} {program : Program}
    (h : (assembler.assemble lines).program = .ok program) :
    ∃ expanded layout sized parts, (Control.expand {} lines).lines = .ok expanded ∧
      Assembled expanded program layout sized parts := by
  unfold Assembler.assemble at h
  simp only at h
  split at h
  · simp at h
  · rename_i expanded hx
    simp only [Assembler.assembleExpanded] at h
    split at h
    · simp at h
    · rename_i sized hs
      obtain ⟨placed, hp, rfl⟩ := Except.map_eq_ok.1 h
      obtain ⟨parts, hparts, rfl⟩ := Emit.lines_eq_ok hp
      exact ⟨expanded, _, sized, parts, hx, Prod.ext rfl hs, hparts, rfl, rfl⟩

namespace Assembled

variable {lines : List Line} {program : Program} {layout : Layout} {sized : List SizedLine}
  {parts : List (List Text)}

theorem sized_lines (h : Assembled lines program layout sized parts) :
    sized.map SizedLine.line = lines := Layout.lines_line h.laid_out

/-- Every statement of an assembly was found by the layout in some state, got a
place from it, and was encoded there. -/
theorem statement_at (h : Assembled lines program layout sized parts) {n m : Nat} {line : Line}
    {st : Statement} (hn : lines[n]? = some line) (hm : line.statements[m]? = some st) :
    ∃ s size found label next first codes, sized[n]? = some s ∧ s.sizes[m]? = some size ∧
      Layout.reach lines n m = some (found, label) ∧
      found.statement label st = .ok (next, size) ∧ parts[n]? = some first ∧
      first[m]? = some codes ∧
      Emit.statement (layout.labels.leave.behind (lines.take (n + 1))).lookup st size =
        .ok codes := by
  obtain ⟨s, size, found, label, next, hs, rfl, hsize, hr, hst⟩ :=
    Layout.reach_of_lines h.laid_out hn hm
  obtain ⟨first, hf, hparts⟩ := Emit.lineParts_at h.encoded hs
  have hpair : (s.line.statements.zip s.sizes)[m]? = some (st, size) := by
    rw [List.getElem?_zip_eq_some]
    exact ⟨hm, hsize⟩
  obtain ⟨codes, hc, he⟩ := Emit.parts_at hparts hpair
  rw [h.sized_lines] at he
  exact ⟨s, size, found, label, next, first, codes, hs, hsize, hr, hst, hf, hc, he⟩

end Assembled

end Asm6502
