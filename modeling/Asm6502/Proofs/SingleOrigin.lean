-- Programs with a single origin. Nothing is emitted in front of the one `*`,
-- and behind it every line stands behind the bytes before it. So the bytes of
-- the program are one block from the origin on, which is what object files
-- write.
import Asm6502.Proofs.Expansion
import Asm6502.Proofs.HexRecords
import Asm6502.Proofs.ObjectAddress

namespace Asm6502

/-- The statement is a `*`. -/
def Statement.isOrigin (st : Statement) : Bool := Directive.of? st.command == some .origin

/-- Expansion keeps all origins in the order of the text, and adds none. -/
theorem Control.expand_origins {state : State} {lines out : List Line}
    (hopen : state.loops.items = []) (h : (expand state lines).lines = .ok out) :
    (out.flatMap Line.statements).filter Statement.isOrigin =
      (lines.flatMap Line.statements).filter Statement.isOrigin := by
  have hof (sts : List Statement) :
      (sts.filter Statement.isDirective).filter Statement.isOrigin =
        sts.filter Statement.isOrigin := by
    rw [List.filter_filter]
    refine List.filter_congr fun st _ => ?_
    unfold Statement.isOrigin Statement.isDirective
    cases Directive.of? st.command <;> simp
  rw [← hof, expand_directives hopen h, hof]

/-! ## Addresses as numbers -/

/-- A byte at its address as a number. -/
def unwrapped (pair : UInt16 × UInt8) : Nat × UInt8 := (pair.1.toNat, pair.2)

/-- Bytes that stay in memory are in a row without wrapping. -/
theorem bytesFrom_unwrapped {start : Nat} {codes : Text}
    (h : start + codes.length ≤ Layout.memorySize) :
    (bytesFrom (UInt16.ofNat start) codes).map unwrapped = rowFrom start codes := by
  induction codes generalizing start with
  | nil => rfl
  | cons code codes ih =>
    rw [List.length_cons] at h
    have hlt : start < UInt16.size := by
      unfold Layout.memorySize at h
      exact Nat.lt_of_lt_of_le (by omega) h
    have hnext : UInt16.ofNat start + 1 = UInt16.ofNat (start + 1) :=
      (UInt16.ofNat_add start 1).symm
    rw [bytesFrom_cons, rowFrom_cons, List.map_cons, hnext, ih (by omega), unwrapped,
      UInt16.toNat_ofNat_of_lt' hlt]

/-! ## The program counter between origins -/

/-- The statements of a line have the bytes that are reserved for them. -/
def Filled (s : SizedLine) (first : List Text) : Prop :=
  first.map List.length = s.sizes.map Sizing.length

namespace Layout

variable {layout next last : Layout} {label : Text} {st : Statement} {length : Nat}
  {sts : List Statement} {sizes : List Sizing} {parts : List Text}

/-- Where the program starts: whether the program counter was set, the origin, and
whether that was set. -/
def start (layout : Layout) : Bool × UInt16 × Bool :=
  (layout.addressSet, layout.origin, layout.originSet)

theorem Step.start_eq (h : Step layout label st next length) (hno : ¬ st.isOrigin) :
    next.start = layout.start := by
  cases h with
  | origin command => exact absurd (by simp [Statement.isOrigin, command]) hno
  | move | data | fill | instruction => rfl

theorem Step.pc_eq (h : Step layout label st next length) (hno : ¬ st.isOrigin) :
    next.pc = layout.pc + length := by
  refine h.pc_of_not_origin fun ho => hno ?_
  simp [Statement.isOrigin, ho]

/-- The first `*` sets the origin and the program counter. -/
theorem Step.sets_origin (h : Step layout label st next length) (ho : st.isOrigin)
    (hfirst : layout.originSet = false) : next.pc = next.origin.toNat := by
  cases h with
  | origin => simp [setOrigin, hfirst]
  | move command | data command | fill command | instruction command =>
    simp [Statement.isOrigin, command] at ho

/-- Nothing is emitted before the program counter is set. -/
theorem Step.length_eq_zero (h : Step layout label st next length)
    (hunset : layout.addressSet = false) : length = 0 := by
  cases h with
  | origin | move => rfl
  | data _ set | fill _ set | instruction _ set =>
    rw [hunset] at set
    cases set

theorem statements_pc_le (h : layout.statements label sts = (last, .ok sizes))
    (hpc : layout.pc ≤ memorySize) : last.pc ≤ memorySize := by
  induction sts generalizing layout sizes with
  | nil =>
    rw [← (Prod.mk.inj h).1]
    exact hpc
  | cons st sts ih =>
    obtain ⟨next, size, others, hs, hr, rfl⟩ := statements_cons_ok.1 h
    exact ih hr (step_of_statement hs).2.2

/-- Statements without a `*` move the program counter over their bytes. -/
theorem statements_without_origin (h : layout.statements label sts = (last, .ok sizes))
    (hparts : parts.map List.length = sizes.map Sizing.length)
    (hno : ∀ st ∈ sts, ¬ st.isOrigin) :
    last.pc = layout.pc + parts.flatten.length ∧ last.start = layout.start := by
  induction sts generalizing layout sizes parts with
  | nil =>
    obtain ⟨rfl, hs⟩ := Prod.mk.inj h
    cases hs
    rw [List.map_nil, List.map_eq_nil_iff] at hparts
    rw [hparts]
    exact ⟨rfl, rfl⟩
  | cons st sts ih =>
    obtain ⟨next, size, others, hs, hr, rfl⟩ := statements_cons_ok.1 h
    obtain ⟨codes, rest, rfl, hcodes, hrest⟩ := List.map_eq_cons_iff.1 hparts
    obtain ⟨hst, hsts⟩ := List.forall_mem_cons.1 hno
    obtain ⟨hpc, ho⟩ := ih hr hrest hsts
    have hstep := (step_of_statement hs).1
    refine ⟨?_, ho.trans (hstep.start_eq hst)⟩
    rw [hpc, hstep.pc_eq hst, List.flatten_cons, List.length_append, hcodes, Nat.add_assoc]

/-- In front of the first `*` there are no bytes. -/
theorem statements_before_origin (h : layout.statements label sts = (last, .ok sizes))
    (hparts : parts.map List.length = sizes.map Sizing.length)
    (hunset : layout.addressSet = false) (hno : ∀ st ∈ sts, ¬ st.isOrigin) :
    parts.flatten = [] := by
  induction sts generalizing layout sizes parts with
  | nil =>
    obtain ⟨_, hs⟩ := Prod.mk.inj h
    cases hs
    rw [List.map_nil, List.map_eq_nil_iff] at hparts
    rw [hparts]
    rfl
  | cons st sts ih =>
    obtain ⟨next, size, others, hs, hr, rfl⟩ := statements_cons_ok.1 h
    obtain ⟨codes, rest, rfl, hcodes, hrest⟩ := List.map_eq_cons_iff.1 hparts
    obtain ⟨hst, hsts⟩ := List.forall_mem_cons.1 hno
    have hstep := (step_of_statement hs).1
    have hnext : next.addressSet = layout.addressSet := congrArg (·.1) (hstep.start_eq hst)
    rw [hstep.length_eq_zero hunset, List.length_eq_zero_iff] at hcodes
    rw [List.flatten_cons, hcodes, ih hr hrest (hnext.trans hunset) hsts]
    rfl

/-- A first `*` on a line without bytes leaves the program counter at the origin. -/
theorem statements_at_origin (h : layout.statements label sts = (last, .ok sizes))
    (hparts : parts.map List.length = sizes.map Sizing.length)
    (hfirst : layout.originSet = false)
    (hone : (sts.filter Statement.isOrigin).length = 1) (hquiet : parts.flatten = []) :
    last.pc = last.origin.toNat := by
  induction sts generalizing layout sizes parts with
  | nil => cases hone
  | cons st sts ih =>
    obtain ⟨next, size, others, hs, hr, rfl⟩ := statements_cons_ok.1 h
    obtain ⟨codes, rest, rfl, hcodes, hrest⟩ := List.map_eq_cons_iff.1 hparts
    obtain ⟨hnil, hbehind⟩ := List.append_eq_nil_iff.1 hquiet
    have hstep := (step_of_statement hs).1
    by_cases hst : st.isOrigin
    · rw [List.filter_cons_of_pos hst, List.length_cons, Nat.add_eq_right,
        List.length_eq_zero_iff, List.filter_eq_nil_iff] at hone
      obtain ⟨hpc, hstart⟩ := statements_without_origin hr hrest hone
      have horigin : last.origin = next.origin := congrArg (·.2.1) hstart
      rw [hbehind, List.length_nil, Nat.add_zero] at hpc
      rw [hpc, horigin, hstep.sets_origin hst hfirst]
    · rw [List.filter_cons_of_neg hst] at hone
      have hnext : next.originSet = layout.originSet := congrArg (·.2.2) (hstep.start_eq hst)
      exact ih hr hrest (hnext.trans hfirst) hone hbehind

end Layout

/-! ## Lines in a row -/

/-- The bytes of lines. -/
def blockOf (sized : List SizedLine) (parts : List (List Text)) : Text :=
  (List.zipWith (fun _ first => first.flatten) sized parts).flatten

/-- The bytes of lines where they are reported, each line from its address on. -/
def reportedAt (sized : List SizedLine) (parts : List (List Text)) : List (Nat × UInt8) :=
  (List.zipWith (fun s first => (bytesFrom s.address first.flatten).map unwrapped)
    sized parts).flatten

/-- Lines whose bytes stand in a row from an address on, up to the place that
the layout has reached, which lies in memory. -/
structure InRow (start : Nat) (last : Layout) (sized : List SizedLine)
    (parts : List (List Text)) : Prop where
  pc_eq : last.pc = start + (blockOf sized parts).length
  pc_le : last.pc ≤ Layout.memorySize
  reported_eq : reportedAt sized parts = rowFrom start (blockOf sized parts)

theorem InRow.nil {layout : Layout} (h : layout.pc ≤ Layout.memorySize) :
    InRow layout.pc layout [] [] := ⟨rfl, h, rfl⟩

/-- A line without bytes changes nothing, wherever it is. -/
theorem InRow.cons_empty {start : Nat} {last : Layout} {s : SizedLine} {sized : List SizedLine}
    {first : List Text} {parts : List (List Text)} (h : InRow start last sized parts)
    (hempty : first.flatten = []) : InRow start last (s :: sized) (first :: parts) := by
  have hblock : blockOf (s :: sized) (first :: parts) = blockOf sized parts := by
    rw [blockOf, List.zipWith_cons_cons, List.flatten_cons, hempty]
    rfl
  have hreported : reportedAt (s :: sized) (first :: parts) = reportedAt sized parts := by
    rw [reportedAt, List.zipWith_cons_cons, List.flatten_cons, hempty]
    rfl
  refine ⟨?_, h.pc_le, ?_⟩
  · rw [hblock, h.pc_eq]
  · rw [hreported, hblock, h.reported_eq]

/-- A line in front of a row, if its bytes lead to the start of the row. -/
theorem InRow.cons {start : Nat} {last : Layout} {s : SizedLine} {sized : List SizedLine}
    {first : List Text} {parts : List (List Text)}
    (h : InRow (start + first.flatten.length) last sized parts)
    (haddress : s.address = UInt16.ofNat start) :
    InRow start last (s :: sized) (first :: parts) := by
  have hblock : blockOf (s :: sized) (first :: parts) = first.flatten ++ blockOf sized parts := rfl
  obtain ⟨hpc, hle, hreported⟩ := h
  refine ⟨?_, hle, ?_⟩
  · rw [hpc, hblock, List.length_append, Nat.add_assoc]
  · rw [reportedAt, List.zipWith_cons_cons, List.flatten_cons, ← reportedAt, hreported, hblock,
      rowFrom_append, haddress, bytesFrom_unwrapped (by omega)]

namespace Layout

theorem defineLabel_start {layout entered : Layout} {l : Line} {label : Text}
    (h : layout.defineLabel l = .ok (entered, label)) : entered.start = layout.start := by
  unfold defineLabel at h
  split at h
  · cases h
    rfl
  · split at h
    · cases h
    · cases h
      rfl

variable {layout last : Layout} {ls : List Line} {sized : List SizedLine}
  {parts : List (List Text)}

/-- Lines without a `*` stand in a row from the program counter on. -/
theorem lines_without_origin (h : layout.lines ls = (last, .ok sized))
    (hf : List.Forall₂ Filled sized parts) (hpc : layout.pc ≤ memorySize)
    (hno : ∀ st ∈ ls.flatMap Line.statements, ¬ st.isOrigin) :
    last.start = layout.start ∧ InRow layout.pc last sized parts := by
  induction ls generalizing layout sized parts with
  | nil =>
    obtain ⟨rfl, hs⟩ := Prod.mk.inj h
    cases hs
    cases hf
    exact ⟨rfl, .nil hpc⟩
  | cons l ls ih =>
    obtain ⟨next, s, others, hl, hr, rfl⟩ := lines_cons_ok.1 h
    obtain ⟨entered, label, sizes, hd, hs, rfl⟩ := line_ok.1 hl
    rw [List.flatMap_cons] at hno
    obtain ⟨hline, hrest⟩ := List.forall_mem_append.1 hno
    cases hf with
    | cons hfirst hothers =>
      have hentered : entered.pc ≤ memorySize := by rwa [defineLabel_pc hd]
      obtain ⟨hnext, hset⟩ := statements_without_origin hs hfirst hline
      obtain ⟨ho, hrow⟩ := ih hr hothers (statements_pc_le hs hentered) hrest
      rw [hnext, defineLabel_pc hd] at hrow
      exact ⟨ho.trans (hset.trans (defineLabel_start hd)), hrow.cons rfl⟩

/-- Lines with a single `*`, on a line without bytes, stand in a row from the
origin on. -/
theorem lines_with_single_origin (h : layout.lines ls = (last, .ok sized))
    (hf : List.Forall₂ Filled sized parts) (hpc : layout.pc ≤ memorySize)
    (hunset : layout.addressSet = false) (hfirst : layout.originSet = false)
    (hone : ((ls.flatMap Line.statements).filter Statement.isOrigin).length = 1)
    (hquiet : ∀ pair ∈ sized.zip parts, pair.1.line.statements.any Statement.isOrigin = true →
      pair.2.flatten = []) :
    InRow last.origin.toNat last sized parts := by
  induction ls generalizing layout sized parts with
  | nil => cases hone
  | cons l ls ih =>
    obtain ⟨next, s, others, hl, hr, rfl⟩ := lines_cons_ok.1 h
    obtain ⟨entered, label, sizes, hd, hs, rfl⟩ := line_ok.1 hl
    cases hf with
    | cons hfilled hothers =>
      have hentered : entered.pc ≤ memorySize := by rwa [defineLabel_pc hd]
      have hunset' : entered.addressSet = false :=
        (congrArg (·.1) (defineLabel_start hd)).trans hunset
      have hfirst' : entered.originSet = false :=
        (congrArg (·.2.2) (defineLabel_start hd)).trans hfirst
      have hnext := statements_pc_le hs hentered
      rw [List.zip_cons_cons, List.forall_mem_cons] at hquiet
      rw [List.flatMap_cons, List.filter_append, List.length_append] at hone
      by_cases hany : l.statements.any Statement.isOrigin = true
      · -- This is the line of the `*`, so there is none behind it.
        obtain ⟨st, hst, ho⟩ := List.any_eq_true.1 hany
        have hpos : 0 < (l.statements.filter Statement.isOrigin).length :=
          List.length_pos_of_mem (List.mem_filter.2 ⟨hst, ho⟩)
        have hbehind : ((ls.flatMap Line.statements).filter Statement.isOrigin).length = 0 := by
          omega
        rw [List.length_eq_zero_iff, List.filter_eq_nil_iff] at hbehind
        have hempty := hquiet.1 hany
        have hat := statements_at_origin hs hfilled hfirst' (by omega) hempty
        obtain ⟨hstart, hrow⟩ := lines_without_origin hr hothers hnext hbehind
        have horigin : last.origin = next.origin := congrArg (·.2.1) hstart
        rw [hat, ← horigin] at hrow
        exact hrow.cons_empty hempty
      · have hline : ∀ st ∈ l.statements, ¬ st.isOrigin := by simpa using hany
        have hempty := statements_before_origin hs hfilled hunset' hline
        have hstart := (statements_without_origin hs hfilled hline).2
        have hunset'' : next.addressSet = false := (congrArg (·.1) hstart).trans hunset'
        have hfirst'' : next.originSet = false := (congrArg (·.2.2) hstart).trans hfirst'
        rw [List.filter_eq_nil_iff.2 hline, List.length_nil, Nat.zero_add] at hone
        exact (ih hr hothers hnext hunset'' hfirst'' hone hquiet.2).cons_empty hempty

end Layout

/-! ## Whole programs -/

theorem Emit.lineParts_length {labels : Label.Table} {sized : List SizedLine}
    {parts : List (List Text)} (h : lineParts labels sized = .ok parts) :
    parts.length = sized.length := by
  induction sized generalizing labels parts with
  | nil =>
    cases h
    rfl
  | cons s rest ih =>
    obtain ⟨first, _, h⟩ := Except.bind_eq_ok.1 h
    obtain ⟨others, ho, h⟩ := Except.bind_eq_ok.1 h
    cases Except.pure_eq_ok.1 h
    rw [List.length_cons, List.length_cons, ih ho]

namespace Assembled

variable {lines : List Line} {program : Program} {layout : Layout} {sized : List SizedLine}
  {parts : List (List Text)}

theorem filled (h : Assembled lines program layout sized parts) :
    List.Forall₂ Filled sized parts := by
  refine List.forall₂_iff_get.2 ⟨(Emit.lineParts_length h.encoded).symm, ?_⟩
  intro n hs hp
  exact h.lengths (List.getElem?_eq_getElem hs) (List.getElem?_eq_getElem hp)

theorem bytes_eq (h : Assembled lines program layout sized parts) :
    program.bytes = blockOf sized parts := by
  rw [Program.bytes, h.joined, List.flatMap_def, List.map_zipWith]
  rfl

/-- If lines with a `*` have no bytes, there is no byte that one could misplace. -/
theorem staysInPlace_of_quiet (h : Assembled lines program layout sized parts)
    (hquiet : ∀ pair ∈ sized.zip parts, pair.1.line.statements.any Statement.isOrigin = true →
      pair.2.flatten = []) : StaysInPlace lines sized parts := by
  intro n m k line s first codes pc hn hs hp hc hne hlast _
  cases hn.symm.trans (h.line_at hs)
  obtain ⟨_, ⟨st, hst, ho⟩, _⟩ := hlast
  have hany : s.line.statements.any Statement.isOrigin = true :=
    List.any_eq_true.2 ⟨st, List.mem_of_getElem? hst, by simp [Statement.isOrigin, ho]⟩
  have hpair : (s, first) ∈ sized.zip parts :=
    List.mem_of_getElem? (List.getElem?_zip_eq_some.2 ⟨hs, hp⟩)
  exact absurd (List.flatten_eq_nil_iff.1 (hquiet _ hpair hany) codes (List.mem_of_getElem? hc)) hne

theorem addressed_unwrapped (h : Assembled lines program layout sized parts) :
    program.addressed.map unwrapped = reportedAt sized parts := by
  rw [h.addressed_eq, List.map_flatten, List.map_zipWith]
  rfl

end Assembled

/-- The program is one block of memory from its origin on. The bytes stay in
memory, and byte `i` is reported at `i` behind the origin. This is the place
that the layout gave it, and where object files put it, whatever library writes
them. -/
structure Program.IsBlock (program : Program) (places : List (UInt16 × UInt8)) : Prop where
  fits : program.origin.toNat + program.bytes.length ≤ 0x10000
  reported : program.addressed.map unwrapped = rowFrom program.origin.toNat program.bytes
  in_place : program.addressed = places
  in_binary : ∀ library, ∃ content, program.image library .binary = .ok content ∧
    rowFrom program.origin.toNat content = places.map unwrapped
  in_hex : ∀ library : IntelHex.Library, library.Documented →
    ∃ records, program.image library .intelHex = .ok (records.flatMap IntelHex.Record.render) ∧
      IntelHex.loaded 0 records = places.map unwrapped

/-- The program of a source with exactly one `*`, on a line without bytes, is one
block of memory from its origin on. -/
theorem single_origin_gives_one_block {assembler : Assembler} {lines : List Line}
    {program : Program} (h : (assembler.assemble lines).program = .ok program)
    (hone : (lines.flatMap Line.statements).countP Statement.isOrigin = 1)
    (hquiet : ∀ placed ∈ program.lines,
      placed.line.statements.any Statement.isOrigin = true → placed.codes = []) :
    ∃ expanded layout sized parts, (Control.expand {} lines).lines = .ok expanded ∧
      Assembled expanded program layout sized parts ∧ program.IsBlock (placesOf sized parts) := by
  obtain ⟨expanded, layout, sized, parts, hx, ha⟩ := assembled_of_ok h
  refine ⟨expanded, layout, sized, parts, hx, ha, ?_⟩
  rw [List.countP_eq_length_filter, ← Control.expand_origins rfl hx] at hone
  have hquiet' : ∀ pair ∈ sized.zip parts,
      pair.1.line.statements.any Statement.isOrigin = true → pair.2.flatten = [] := by
    intro pair hpair hany
    refine hquiet (Emit.joined pair.1 pair.2) ?_ hany
    rw [ha.joined, ← List.map_uncurry_zip_eq_zipWith]
    exact List.mem_map.2 ⟨pair, hpair, rfl⟩
  obtain ⟨hpc, hle, hreported⟩ := Layout.lines_with_single_origin ha.laid_out ha.filled
    (Nat.zero_le _) rfl rfl hone hquiet'
  rw [← ha.origin_eq, ← ha.bytes_eq] at hpc hreported
  have hrow := ha.addressed_unwrapped.trans hreported
  have hplaces : program.addressed = placesOf sized parts :=
    ha.addressed_eq_placesOf_iff.2 (ha.staysInPlace_of_quiet hquiet')
  have hfits : program.origin.toNat + program.bytes.length ≤ 0x10000 := by
    rw [← hpc]
    exact hle
  refine ⟨hfits, hrow, hplaces, ?_, ?_⟩
  · intro library
    refine ⟨program.bytes, by simp [Program.image, Program.pieces, Except.map], ?_⟩
    rw [← hplaces, hrow]
  · intro library hlibrary
    obtain ⟨records, hdumps, himage⟩ :=
      Program.image_intelHex hlibrary program (Nat.le_trans hfits (by decide))
    refine ⟨_, himage, ?_⟩
    rw [← hplaces, hrow]
    exact hdumps.loaded

/-- A load in the last two bytes of memory, behind a label and the `*` that says
where it goes. -/
def topOfMemory : List Line :=
  let line (number : Int) (label : String) (statements : List Statement) : Line :=
    { number, file := [], text := [], label := ascii label, statements }
  [line 1 "top" [⟨.system (ascii ":"), .word 0xFFFE⟩],
    line 2 "" [⟨.system (ascii "*"), .ident (ascii "top")⟩],
    line 3 "load" [⟨.ident (ascii "A"), .decimal 1⟩],
    line 4 "end" []]

theorem topOfMemory_is_one_block :
    ∃ program, (({} : Assembler).assemble topOfMemory).program = .ok program ∧
      (topOfMemory.flatMap Line.statements).countP Statement.isOrigin = 1 ∧
      program.addressed = [(0xFFFE, 0xA9), (0xFFFF, 0x01)] ∧
      ∃ expanded layout sized parts, (Control.expand {} topOfMemory).lines = .ok expanded ∧
        Assembled expanded program layout sized parts ∧
        program.IsBlock (placesOf sized parts) := by
  have hone : (topOfMemory.flatMap Line.statements).countP Statement.isOrigin = 1 := by
    decide +kernel
  obtain ⟨program, h, hbytes, hquiet⟩ : ∃ program,
      (({} : Assembler).assemble topOfMemory).program = .ok program ∧
      program.addressed = [(0xFFFE, 0xA9), (0xFFFF, 0x01)] ∧
      ∀ placed ∈ program.lines,
        placed.line.statements.any Statement.isOrigin = true → placed.codes = [] :=
    ⟨_, rfl, rfl, by decide +kernel⟩
  exact ⟨program, h, hone, hbytes, single_origin_gives_one_block h hone hquiet⟩

end Asm6502
