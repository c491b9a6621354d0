-- Where the bytes of a program are reported. A program counts the bytes of a
-- line from the address of the line, but a `*` may move the program counter
-- inside a line. So the reported addresses are those of the layout exactly if
-- every `*` with bytes behind it stays where it is.
import Asm6502.Proofs.Emission

namespace Asm6502

/-! ## Bytes in a row -/

/-- Bytes in a row, the first one at an address. -/
def bytesFrom (start : UInt16) (codes : Text) : List (UInt16 × UInt8) :=
  (indexed codes).map fun (n, code) => (start + UInt16.ofNat n, code)

theorem bytesFrom_cons (start : UInt16) (code : UInt8) (codes : Text) :
    bytesFrom start (code :: codes) = (start, code) :: bytesFrom (start + 1) codes := by
  unfold bytesFrom indexed
  rw [List.zipIdx_cons, List.zipIdx_succ]
  simp [UInt16.add_assoc, UInt16.add_comm]

theorem bytesFrom_append (start : UInt16) (front back : Text) :
    bytesFrom start (front ++ back) =
      bytesFrom start front ++ bytesFrom (start + UInt16.ofNat front.length) back := by
  induction front generalizing start with
  | nil => simp [bytesFrom, indexed]
  | cons code front ih =>
    rw [List.cons_append, bytesFrom_cons, bytesFrom_cons, ih]
    simp [UInt16.add_assoc, UInt16.add_comm]

theorem bytesFrom_length (start : UInt16) (codes : Text) :
    (bytesFrom start codes).length = codes.length := by
  simp [bytesFrom, indexed]

theorem bytesFrom_values (start : UInt16) (codes : Text) :
    (bytesFrom start codes).map Prod.snd = codes := by
  induction codes generalizing start with
  | nil => rfl
  | cons code codes ih => rw [bytesFrom_cons, List.map_cons, ih]

/-- The same bytes at two addresses differ as soon as there is a byte. -/
theorem bytesFrom_eq_iff {a b : UInt16} {codes : Text} :
    bytesFrom a codes = bytesFrom b codes ↔ (codes ≠ [] → a = b) := by
  constructor
  · intro h hne
    obtain ⟨code, codes, rfl⟩ := List.exists_cons_of_ne_nil hne
    rw [bytesFrom_cons, bytesFrom_cons] at h
    exact (Prod.mk.inj (List.cons.inj h).1).1
  · intro h
    by_cases hne : codes = []
    · rw [hne]
      rfl
    · rw [h hne]

/-! ## Bytes at their places -/

/-- The bytes of the statements of a line, each at the place of its statement. -/
def bytesAt (sizes : List Sizing) (parts : List Text) : List (UInt16 × UInt8) :=
  (List.zipWith (fun size codes => bytesFrom size.pc codes) sizes parts).flatten

/-- The bytes that the first `m` statements of a line take. -/
def offset : List Sizing → Nat → Nat
  | size :: sizes, m + 1 => size.length + offset sizes m
  | _, _ => 0

theorem offset_zero (sizes : List Sizing) : offset sizes 0 = 0 := by
  cases sizes with
  | nil => rfl
  | cons => rfl

theorem offset_cons (size : Sizing) (sizes : List Sizing) (m : Nat) :
    offset (size :: sizes) (m + 1) = size.length + offset sizes m := rfl

theorem add_offset_zero (start : UInt16) (sizes : List Sizing) :
    start + UInt16.ofNat (offset sizes 0) = start := by
  rw [offset_zero]
  exact UInt16.add_zero start

theorem add_offset_cons (start : UInt16) (size : Sizing) (sizes : List Sizing) (m : Nat) :
    start + UInt16.ofNat (offset (size :: sizes) (m + 1)) =
      start + UInt16.ofNat size.length + UInt16.ofNat (offset sizes m) := by
  rw [offset_cons, UInt16.ofNat_add, UInt16.add_assoc]

theorem offset_split {sizes : List Sizing} {k m : Nat} {size : Sizing}
    (hk : sizes[k]? = some size) (hlt : k < m) :
    offset sizes m =
      offset sizes k + (size.length + offset (sizes.drop (k + 1)) (m - (k + 1))) := by
  induction sizes generalizing k m with
  | nil => simp at hk
  | cons first sizes ih =>
    obtain ⟨m, rfl⟩ : ∃ m', m = m' + 1 := ⟨m - 1, by omega⟩
    cases k with
    | zero =>
      cases hk
      simp [offset_zero, offset_cons]
    | succ k =>
      rw [offset_cons, offset_cons, ih hk (by omega), List.drop_succ_cons, Nat.add_assoc,
        Nat.add_sub_add_right]

theorem bytesAt_values {sizes : List Sizing} {parts : List Text}
    (hlen : parts.length = sizes.length) : (bytesAt sizes parts).map Prod.snd = parts.flatten := by
  induction sizes generalizing parts with
  | nil =>
    rw [List.length_eq_zero_iff.1 hlen]
    rfl
  | cons size sizes ih =>
    cases parts with
    | nil => simp at hlen
    | cons codes parts =>
      have hrest := ih (Nat.succ.inj hlen)
      unfold bytesAt at hrest ⊢
      rw [List.zipWith_cons_cons, List.flatten_cons, List.map_append, bytesFrom_values, hrest]
      rfl

theorem bytesFrom_eq_bytesAt_cons {start : UInt16} {size : Sizing} {sizes : List Sizing}
    {codes : Text} {parts : List Text} (hlen : codes.length = size.length) :
    bytesFrom start (codes :: parts).flatten = bytesAt (size :: sizes) (codes :: parts) ↔
      (codes ≠ [] → start = size.pc) ∧
        bytesFrom (start + UInt16.ofNat size.length) parts.flatten = bytesAt sizes parts := by
  rw [← bytesFrom_eq_iff, List.flatten_cons, bytesFrom_append, hlen]
  constructor
  · intro h
    exact List.append_inj h (by rw [bytesFrom_length, bytesFrom_length])
  · rintro ⟨hfirst, hothers⟩
    rw [hfirst, hothers]
    rfl

/-- The bytes of a line in a row are at the places of their statements exactly
if every statement that has bytes stands behind the bytes before it. -/
theorem bytesFrom_eq_bytesAt_iff {start : UInt16} {sizes : List Sizing} {parts : List Text}
    (hlen : parts.map List.length = sizes.map Sizing.length) :
    bytesFrom start parts.flatten = bytesAt sizes parts ↔
      ∀ (m : Nat) size codes, sizes[m]? = some size → parts[m]? = some codes → codes ≠ [] →
        size.pc = start + UInt16.ofNat (offset sizes m) := by
  -- The start moves on over each statement, so it is general in the induction.
  induction sizes generalizing start parts with
  | nil =>
    rw [List.map_nil, List.map_eq_nil_iff] at hlen
    subst hlen
    simp [bytesAt, bytesFrom, indexed]
  | cons size sizes ih =>
    cases parts with
    | nil => simp at hlen
    | cons codes parts =>
      obtain ⟨hcodes, hrest⟩ := List.cons.inj hlen
      rw [bytesFrom_eq_bytesAt_cons hcodes, ih hrest]
      constructor
      · rintro ⟨hfirst, hothers⟩ m size' codes' hs hc hne
        cases m with
        | zero =>
          cases hs
          cases hc
          rw [add_offset_zero, hfirst hne]
        | succ m => rw [add_offset_cons, hothers m size' codes' hs hc hne]
      · intro h
        refine ⟨fun hne => ?_, fun m size' codes' hs hc hne => ?_⟩
        · rw [h 0 size codes rfl rfl hne, add_offset_zero]
        · rw [h (m + 1) size' codes' hs hc hne, add_offset_cons]

/-- Chunks of the same lengths are equal one by one if they are equal in a row. -/
theorem flatten_zipWith_eq_iff {α β γ : Type} {f g : α → β → List γ} {as : List α} {bs : List β}
    (hlen : ∀ (n : Nat) a b, as[n]? = some a → bs[n]? = some b →
      (f a b).length = (g a b).length) :
    (List.zipWith f as bs).flatten = (List.zipWith g as bs).flatten ↔
      ∀ (n : Nat) a b, as[n]? = some a → bs[n]? = some b → f a b = g a b := by
  induction as generalizing bs with
  | nil => simp
  | cons a as ih =>
    cases bs with
    | nil => simp
    | cons b bs =>
      have hlen' : ∀ (n : Nat) a b, as[n]? = some a → bs[n]? = some b →
          (f a b).length = (g a b).length := fun n => hlen (n + 1)
      have hrest := ih hlen'
      rw [List.zipWith_cons_cons, List.zipWith_cons_cons, List.flatten_cons, List.flatten_cons]
      constructor
      · intro h n a' b' ha hb
        obtain ⟨hfirst, hothers⟩ := List.append_inj h (hlen 0 a b rfl rfl)
        cases n with
        | zero =>
          cases ha
          cases hb
          exact hfirst
        | succ n => exact hrest.1 hothers n a' b' ha hb
      · intro h
        rw [h 0 a b rfl rfl, hrest.2 fun n a' b' ha hb => h (n + 1) a' b' ha hb]

/-! ## The program counter inside a line -/

namespace Layout

theorem Step.pc_of_not_origin {layout next : Layout} {label : Text} {st : Statement}
    {length : Nat} (h : Step layout label st next length)
    (hno : Directive.of? st.command ≠ some .origin) : next.pc = layout.pc + length := by
  cases h with
  | origin command => exact absurd command hno
  | move | data | fill | instruction => rfl

/-- A `*` sets the program counter to its value and takes no bytes. -/
theorem Step.origin_of_some {layout next : Layout} {label : Text} {st : Statement} {length : Nat}
    (h : Step layout label st next length) (ho : Directive.of? st.command = some .origin) :
    ∃ pc, next.pc = pc.toNat ∧ length = 0 ∧
      st.operand.value layout.labels.lookup layout.address = .ok pc := by
  cases h with
  | origin _ value => exact ⟨_, rfl, rfl, value⟩
  | move command | data command | fill command | instruction command =>
    rw [ho] at command
    cases command

/-- Without a `*` in front of it, a statement stands behind the bytes of the
statements before it. -/
theorem statements_pc_at {layout last : Layout} {label : Text} {sts : List Statement}
    {sizes : List Sizing} {m : Nat} {size : Sizing}
    (h : layout.statements label sts = (last, .ok sizes)) (hm : sizes[m]? = some size)
    (hno : ∀ st ∈ sts.take m, Directive.of? st.command ≠ some .origin) :
    size.pc = layout.address + UInt16.ofNat (offset sizes m) := by
  induction sts generalizing layout sizes m with
  | nil =>
    obtain ⟨_, hs⟩ := Prod.mk.inj h
    cases hs
    simp at hm
  | cons st sts ih =>
    obtain ⟨next, first, others, hs, hr, rfl⟩ := statements_cons_ok.1 h
    obtain ⟨hstep, hpc, _⟩ := step_of_statement hs
    cases m with
    | zero =>
      cases hm
      rw [hpc, add_offset_zero]
    | succ m =>
      rw [List.take_succ_cons] at hno
      have hnext := hstep.pc_of_not_origin (hno st List.mem_cons_self)
      rw [ih hr hm fun st hst => hno st (List.mem_cons_of_mem _ hst), add_offset_cons, address,
        address, hnext, UInt16.ofNat_add]

end Layout

/-- Statement `k` of a line is a `*`. -/
def Line.OriginAt (line : Line) (k : Nat) : Prop :=
  ∃ st, line.statements[k]? = some st ∧ Directive.of? st.command = some .origin

/-- Statement `k` is the last `*` in front of statement `m`. -/
def Line.LastOrigin (line : Line) (m k : Nat) : Prop :=
  k < m ∧ line.OriginAt k ∧ ∀ j, k < j → j < m → ¬ line.OriginAt j

/-- In front of a statement there is no `*`, or a last one. -/
theorem Line.no_origin_or_last (line : Line) (m : Nat) :
    (∀ j, j < m → ¬ line.OriginAt j) ∨ ∃ k, line.LastOrigin m k := by
  induction m with
  | zero => exact Or.inl fun j hj => absurd hj (Nat.not_lt_zero j)
  | succ m ih =>
    by_cases hm : line.OriginAt m
    · exact Or.inr ⟨m, Nat.lt_succ_self m, hm, fun j hj hj' => by omega⟩
    · have hlt : ∀ j, j < m + 1 → line.OriginAt j → j < m := by
        intro j hj ho
        rcases Nat.lt_succ_iff_lt_or_eq.1 hj with hlt | rfl
        · exact hlt
        · exact absurd ho hm
      rcases ih with hno | ⟨k, hk, ho, hbetween⟩
      · exact Or.inl fun j hj hoj => hno j (hlt j hj hoj) hoj
      · refine Or.inr ⟨k, Nat.lt_succ_of_lt hk, ho, ?_⟩
        intro j hkj hj hoj
        exact hbetween j hkj (hlt j hj hoj) hoj

theorem Line.not_origin_of_mem {line : Line} {i j : Nat}
    (h : ∀ k, i ≤ k → k < j → ¬ line.OriginAt k) :
    ∀ st ∈ (line.statements.drop i).take (j - i), Directive.of? st.command ≠ some .origin := by
  intro st hst hc
  obtain ⟨k, hk⟩ := List.mem_iff_getElem?.1 hst
  rw [List.getElem?_take] at hk
  split at hk
  · rename_i hlt
    rw [List.getElem?_drop] at hk
    exact h (i + k) (Nat.le_add_right i k) (by omega) ⟨st, hk, hc⟩
  · cases hk

namespace Layout

/-- Statement `k` of line `n` is a `*` that sets the program counter to `pc`. -/
def SetsOrigin (lines : List Line) (n k : Nat) (pc : UInt16) : Prop :=
  ∃ line st found label, lines[n]? = some line ∧ line.statements[k]? = some st ∧
    Directive.of? st.command = some .origin ∧ reach lines n k = some (found, label) ∧
    st.operand.value found.labels.lookup found.address = .ok pc

variable {last : Layout} {lines : List Line} {sized : List SizedLine} {n m k : Nat} {line : Line}
  {s : SizedLine} {size : Sizing}

/-- In a layout that succeeds, every `*` sets the program counter. -/
theorem setsOrigin_of_originAt (h : Layout.lines {} lines = (last, .ok sized))
    (hn : lines[n]? = some line) (hk : line.OriginAt k) : ∃ pc, SetsOrigin lines n k pc := by
  obtain ⟨st, hst, hc⟩ := hk
  obtain ⟨_, _, found, label, next, _, _, _, hreach, hplaced⟩ := reach_of_lines h hn hst
  obtain ⟨pc, _, _, hv⟩ := (step_of_statement hplaced).1.origin_of_some hc
  exact ⟨pc, line, st, found, label, hn, hst, hc, hreach, hv⟩

theorem pc_of_no_origin (h : Layout.lines {} lines = (last, .ok sized))
    (hn : lines[n]? = some line) (hs : sized[n]? = some s) (hsize : s.sizes[m]? = some size)
    (hno : ∀ j, j < m → ¬ line.OriginAt j) :
    size.pc = s.address + UInt16.ofNat (offset s.sizes m) := by
  obtain ⟨_, entered, label, after, _, _, hsts, haddress⟩ := line_at h hn hs
  rw [haddress]
  have hplain : ∀ st ∈ (line.statements.drop 0).take (m - 0),
      Directive.of? st.command ≠ some .origin := Line.not_origin_of_mem fun k _ hk => hno k hk
  exact statements_pc_at hsts hsize hplain

/-- Behind a last `*`, a statement stands behind the bytes before it exactly if
the `*` does. -/
theorem pc_of_last_origin {pc : UInt16} (h : Layout.lines {} lines = (last, .ok sized))
    (hn : lines[n]? = some line) (hs : sized[n]? = some s) (hsize : s.sizes[m]? = some size)
    (hlast : line.LastOrigin m k) (hset : SetsOrigin lines n k pc) :
    size.pc = s.address + UInt16.ofNat (offset s.sizes m) ↔
      pc = s.address + UInt16.ofNat (offset s.sizes k) := by
  obtain ⟨start, entered, label, after, hstart, hd, hsts, _⟩ := line_at h hn hs
  obtain ⟨line', st, found, label', hn', hst, hc, hreach, hv⟩ := hset
  cases hn.symm.trans hn'
  obtain ⟨found', next, size', hfound, hplaced, hsize', hbehind⟩ := statements_at hsts hst
  cases hreach.symm.trans (reach_eq_some.2 ⟨line, start, _, entered, _, hn, hstart, hd, hfound⟩)
  obtain ⟨hlt, _, hbetween⟩ := hlast
  obtain ⟨pc', hnext, hzero, hv'⟩ := (step_of_statement hplaced).1.origin_of_some hc
  cases hv.symm.trans hv'
  -- From the `*` on, the program counter runs over the bytes up to statement `m`.
  have hpc : next.address = pc := by rw [address, hnext, UInt16.ofNat_toNat]
  have hindex : (s.sizes.drop (k + 1))[m - (k + 1)]? = some size := by
    rw [List.getElem?_drop, Nat.add_sub_cancel' hlt]
    exact hsize
  have hplace : size.pc = pc + UInt16.ofNat (offset (s.sizes.drop (k + 1)) (m - (k + 1))) := by
    rw [← hpc]
    exact statements_pc_at hbehind hindex (Line.not_origin_of_mem fun j hj => hbetween j hj)
  rw [hplace, offset_split hsize' hlt, hzero, Nat.zero_add, UInt16.ofNat_add, ← UInt16.add_assoc]
  exact UInt16.add_left_inj _

end Layout

/-! ## Whole programs -/

theorem Program.addressed_values (program : Program) :
    program.addressed.map Prod.snd = program.bytes := by
  unfold addressed bytes
  rw [List.map_flatMap]
  exact List.flatMap_congr fun placed _ => bytesFrom_values placed.address placed.codes

/-- The bytes of all statements, each at the place that the layout gave it. -/
def placesOf (sized : List SizedLine) (parts : List (List Text)) : List (UInt16 × UInt8) :=
  (List.zipWith (fun s first => bytesAt s.sizes first) sized parts).flatten

/-- Every `*` with bytes behind it sets the program counter to the place behind
the bytes that its line has so far. -/
def StaysInPlace (lines : List Line) (sized : List SizedLine) (parts : List (List Text)) : Prop :=
  ∀ (n m k : Nat) line s first codes pc, lines[n]? = some line → sized[n]? = some s →
    parts[n]? = some first → first[m]? = some codes → codes ≠ [] → line.LastOrigin m k →
    Layout.SetsOrigin lines n k pc → pc = s.address + UInt16.ofNat (offset s.sizes k)

theorem Emit.parts_length {labels : Label.View} {pairs : List (Statement × Sizing)}
    {all : List Text} (h : parts labels pairs = .ok all) :
    all.map List.length = pairs.map fun pair => pair.2.length := by
  unfold parts at h
  rw [Except.mapM_eq_ok] at h
  induction h with
  | nil => rfl
  | cons hst _ ih => rw [List.map_cons, List.map_cons, ih, (statement_eq_ok.1 hst).2]

namespace Assembled

variable {lines : List Line} {program : Program} {layout : Layout} {sized : List SizedLine}
  {parts : List (List Text)}

theorem line_at (h : Assembled lines program layout sized parts) {n : Nat} {s : SizedLine}
    (hs : sized[n]? = some s) : lines[n]? = some s.line := Layout.line_of_sized h.laid_out hs

/-- Every statement has the bytes that were reserved for it. -/
theorem lengths (h : Assembled lines program layout sized parts) {n : Nat} {s : SizedLine}
    {first : List Text} (hs : sized[n]? = some s) (hp : parts[n]? = some first) :
    first.map List.length = s.sizes.map Sizing.length := by
  obtain ⟨_, _, _, _, _, _, hsts, _⟩ := Layout.line_at h.laid_out (h.line_at hs) hs
  obtain ⟨first', hp', hparts⟩ := Emit.lineParts_at h.encoded hs
  cases hp.symm.trans hp'
  rw [Emit.parts_length hparts]
  have hsizes := List.map_snd_zip (Nat.le_of_eq (Layout.statements_length hsts))
  nth_rewrite 2 [← hsizes]
  rw [List.map_map]
  rfl

theorem addressed_eq (h : Assembled lines program layout sized parts) :
    program.addressed =
      (List.zipWith (fun s first => bytesFrom s.address first.flatten) sized parts).flatten := by
  rw [Program.addressed, h.joined, List.flatMap_def, List.map_zipWith]
  rfl

theorem parts_length (h : Assembled lines program layout sized parts) {n : Nat} {s : SizedLine}
    {first : List Text} (hs : sized[n]? = some s) (hp : parts[n]? = some first) :
    first.length = s.sizes.length := by
  simpa using congrArg List.length (h.lengths hs hp)

theorem placesOf_values (h : Assembled lines program layout sized parts) :
    (placesOf sized parts).map Prod.snd = program.bytes := by
  have hsame : ∀ (n : Nat) s first, sized[n]? = some s → parts[n]? = some first →
      (bytesAt s.sizes first).map Prod.snd = first.flatten :=
    fun n s first hs hp => bytesAt_values (h.parts_length hs hp)
  rw [placesOf, List.map_flatten, List.map_zipWith, Program.bytes, h.joined, List.flatMap_def,
    List.map_zipWith]
  refine (flatten_zipWith_eq_iff ?_).2 hsame
  intro n s first hs hp
  rw [hsame n s first hs hp]
  rfl

/-- The reported addresses are those of the layout exactly if every `*` stays in
place. -/
theorem addressed_eq_placesOf_iff (h : Assembled lines program layout sized parts) :
    program.addressed = placesOf sized parts ↔ StaysInPlace lines sized parts := by
  rw [h.addressed_eq, placesOf, flatten_zipWith_eq_iff]
  · constructor
    · intro hall n m k line s first codes pc hn hs hp hc hne hlast hset
      cases hn.symm.trans (h.line_at hs)
      have hline := (bytesFrom_eq_bytesAt_iff (h.lengths hs hp)).1 (hall n s first hs hp)
      have hm : m < s.sizes.length := by
        rw [← h.parts_length hs hp]
        exact (List.getElem?_eq_some_iff.1 hc).1
      have hsize := List.getElem?_eq_getElem hm
      rw [← Layout.pc_of_last_origin h.laid_out hn hs hsize hlast hset]
      exact hline m _ codes hsize hc hne
    · intro hstays n s first hs hp
      rw [bytesFrom_eq_bytesAt_iff (h.lengths hs hp)]
      intro m size codes hsize hc hne
      have hn := h.line_at hs
      rcases s.line.no_origin_or_last m with hno | ⟨k, hlast⟩
      · exact Layout.pc_of_no_origin h.laid_out hn hs hsize hno
      · obtain ⟨pc, hset⟩ := Layout.setsOrigin_of_originAt h.laid_out hn hlast.2.1
        rw [Layout.pc_of_last_origin h.laid_out hn hs hsize hlast hset]
        exact hstays n m k s.line s first codes pc hn hs hp hc hne hlast hset
  · intro n s first hs hp
    rw [bytesFrom_length, ← bytesAt_values (h.parts_length hs hp), List.length_map]

end Assembled

/-- Every program reports its bytes in the order in which they were assembled,
and each one at the address that it was assembled for exactly if every `*` with
bytes behind it on its line stays in place. -/
theorem bytes_are_reported_in_place_iff_origins_stay {assembler : Assembler} {lines : List Line}
    {program : Program} (h : (assembler.assemble lines).program = .ok program) :
    ∃ expanded layout sized parts, (Control.expand {} lines).lines = .ok expanded ∧
      Assembled expanded program layout sized parts ∧
      program.addressed.map Prod.snd = (placesOf sized parts).map Prod.snd ∧
      (program.addressed = placesOf sized parts ↔ StaysInPlace expanded sized parts) := by
  obtain ⟨expanded, layout, sized, parts, hx, ha⟩ := assembled_of_ok h
  refine ⟨expanded, layout, sized, parts, hx, ha, ?_, ha.addressed_eq_placesOf_iff⟩
  rw [program.addressed_values, ha.placesOf_values]

/-- A load on the same line as the `*` that says where it goes. -/
def originInLine : List Line :=
  [{ number := 1, file := [], text := [], label := [],
     statements := [⟨.system (ascii "*"), .word 0x1000⟩, ⟨.ident (ascii "A"), .decimal 1⟩] }]

theorem originInLine_is_reported_out_of_place :
    ∃ program expanded layout sized parts,
      (({} : Assembler).assemble originInLine).program = .ok program ∧
      Assembled expanded program layout sized parts ∧
      program.addressed = [(0x0000, 0xA9), (0x0001, 0x01)] ∧
      placesOf sized parts = [(0x1000, 0xA9), (0x1001, 0x01)] ∧
      ¬ StaysInPlace expanded sized parts := by
  obtain ⟨program, h, haddressed⟩ : ∃ program,
      (({} : Assembler).assemble originInLine).program = .ok program ∧
      program.addressed = [(0x0000, 0xA9), (0x0001, 0x01)] := ⟨_, rfl, rfl⟩
  obtain ⟨expanded, layout, sized, parts, hx, ha, _, hiff⟩ :=
    bytes_are_reported_in_place_iff_origins_stay h
  have hplaces : placesOf sized parts = [(0x1000, 0xA9), (0x1001, 0x01)] := by
    cases hx
    cases ha.laid_out
    cases ha.encoded
    rfl
  refine ⟨program, expanded, layout, sized, parts, h, ha, haddressed, hplaces, ?_⟩
  rw [← hiff, haddressed, hplaces]
  decide

end Asm6502
