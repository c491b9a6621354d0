-- The program counter. Wherever the layout comes, the counter is in memory or
-- just behind its end, its two flags agree, and the origin is the value of the
-- first `*` so far. So what takes bytes lies in memory, and a program that is too
-- long fails at the statement that leads over the end.
import Asm6502.Proofs.LabelGrowth
import Asm6502.Proofs.SingleOrigin

namespace Asm6502

namespace Layout

/-! ## Places in lines -/

/-- Statement `j` of line `i` stands in front of statement `m` of line `n`. -/
def InFront (i j n m : Nat) : Prop := i < n ∨ i = n ∧ j < m

/-- Statement `j` of line `i` is a `*`. -/
def OriginAt (lines : List Line) (i j : Nat) : Prop :=
  ∃ line, lines[i]? = some line ∧ line.OriginAt j

theorem OriginAt.lt {lines : List Line} {n j : Nat} {line : Line} (h : OriginAt lines n j)
    (hn : lines[n]? = some line) : j < line.statements.length := by
  obtain ⟨line', hn', st, hst, _⟩ := h
  cases hn.symm.trans hn'
  exact (List.getElem?_eq_some_iff.1 hst).1

/-! ## Along the lines -/

/-- A property of the layout in front of statement `m` of line `n` that holds at
the start, and is kept by the label of a line, by each statement that is placed,
and from the end of a line to the next one. -/
structure Kept (lines : List Line) (P : Nat → Nat → Layout → Prop) : Prop where
  first : P 0 0 {}
  label {n : Nat} {line : Line} {layout entered : Layout} {full : Text} :
    lines[n]? = some line → layout.defineLabel line = .ok (entered, full) →
    P n 0 layout → P n 0 entered
  statement {n m : Nat} {line : Line} {st : Statement} {found next : Layout} {full : Text}
      {size : Sizing} :
    lines[n]? = some line → line.statements[m]? = some st →
    reach lines n m = some (found, full) → found.statement full st = .ok (next, size) →
    P n m found → P n (m + 1) next
  newLine {n : Nat} {line : Line} {layout : Layout} {sized : List SizedLine} :
    lines[n]? = some line → Layout.lines {} (lines.take (n + 1)) = (layout, .ok sized) →
    P n line.statements.length layout → P (n + 1) 0 layout

namespace Kept

variable {lines : List Line} {P : Nat → Nat → Layout → Prop} {n m : Nat} {line : Line}

theorem at_statement (h : Kept lines P) {start entered found : Layout} {front : List SizedLine}
    {full : Text} {sizes : List Sizing} (hn : lines[n]? = some line)
    (hstart : Layout.lines {} (lines.take n) = (start, .ok front))
    (hd : start.defineLabel line = .ok (entered, full)) (hp : P n 0 entered)
    (hm : m ≤ line.statements.length)
    (hf : entered.statements full (line.statements.take m) = (found, .ok sizes)) :
    P n m found := by
  induction m generalizing found sizes with
  | zero =>
    cases hf
    exact hp
  | succ m ih =>
    have hst := List.getElem?_eq_getElem hm
    rw [List.take_add_one, hst] at hf
    obtain ⟨middle, a, b, ha, hb, _⟩ := statements_append_ok hf
    obtain ⟨next, size, others, hs, hr, _⟩ := statements_cons_ok.1 hb
    cases hr
    have hreach := reach_eq_some.2 ⟨line, start, front, entered, a, hn, hstart, hd, ha⟩
    exact h.statement hn hst hreach hs (ih (Nat.le_of_lt hm) ha)

theorem at_line (h : Kept lines P) {start : Layout} {sized : List SizedLine}
    (hn : n ≤ lines.length) (hstart : Layout.lines {} (lines.take n) = (start, .ok sized)) :
    P n 0 start := by
  induction n generalizing start sized with
  | zero =>
    cases hstart
    exact h.first
  | succ n ih =>
    have hline := List.getElem?_eq_getElem hn
    have hsplit := hstart
    rw [List.take_add_one, hline] at hsplit
    obtain ⟨before, a, b, ha, hb, _⟩ := lines_append_ok hsplit
    obtain ⟨next, first, others, hl, hr, _⟩ := lines_cons_ok.1 hb
    cases hr
    obtain ⟨entered, full, sizes, hd, hs, _⟩ := line_ok.1 hl
    have hentered := h.label hline hd (ih (Nat.le_of_lt hn) ha)
    rw [← List.take_length (l := lines[n].statements)] at hs
    exact h.newLine hline hstart (h.at_statement hline ha hd hentered (Nat.le_refl _) hs)

theorem at_reach (h : Kept lines P) {found : Layout} {full : Text} (hn : lines[n]? = some line)
    (hm : m ≤ line.statements.length) (hreach : reach lines n m = some (found, full)) :
    P n m found := by
  obtain ⟨line', start, front, entered, sizes, hn', hstart, hd, hf⟩ := reach_eq_some.1 hreach
  cases hn.symm.trans hn'
  have hle := Nat.le_of_lt (split_at hn).2
  exact h.at_statement hn hstart hd (h.label hn hd (h.at_line hle hstart)) hm hf

end Kept

/-! ## The counter and the origin -/

/-- The program counter in front of statement `m` of line `n`: it is in memory or
just behind its end. It was set, and so was the origin, exactly if a `*` stands in
front of the statement, and the origin is then the value of the first one. -/
structure CounterAt (lines : List Line) (n m : Nat) (layout : Layout) : Prop where
  pc_le : layout.pc ≤ memorySize
  flags_agree : layout.addressSet = layout.originSet
  set_iff : layout.originSet = true ↔ ∃ i j, InFront i j n m ∧ OriginAt lines i j
  first : layout.originSet = true →
    ∃ i j, InFront i j n m ∧ SetsOrigin lines i j layout.origin ∧
      ∀ i' j', InFront i' j' i j → ¬ OriginAt lines i' j'

theorem SetsOrigin.originAt {lines : List Line} {n m : Nat} {pc : UInt16}
    (h : SetsOrigin lines n m pc) : OriginAt lines n m := by
  obtain ⟨line, st, _, _, hn, hst, hc, _⟩ := h
  exact ⟨line, hn, st, hst, hc⟩

namespace CounterAt

variable {lines : List Line} {n m : Nat} {layout next : Layout}

/-- The counter at another place, if the same `*` stand in front of both. -/
theorem of_same {n' m' : Nat} (h : CounterAt lines n m layout) (hpc : next.pc ≤ memorySize)
    (hstart : next.start = layout.start)
    (hsame : ∀ i j, OriginAt lines i j → (InFront i j n' m' ↔ InFront i j n m)) :
    CounterAt lines n' m' next := by
  have haddress : next.addressSet = layout.addressSet := congrArg (·.1) hstart
  have horigin : next.origin = layout.origin := congrArg (·.2.1) hstart
  have hflag : next.originSet = layout.originSet := congrArg (·.2.2) hstart
  refine ⟨hpc, by rw [haddress, hflag, h.flags_agree], ?_, ?_⟩
  · rw [hflag, h.set_iff]
    constructor
    · rintro ⟨i, j, hlt, ho⟩
      exact ⟨i, j, (hsame i j ho).2 hlt, ho⟩
    · rintro ⟨i, j, hlt, ho⟩
      exact ⟨i, j, (hsame i j ho).1 hlt, ho⟩
  · intro ho
    obtain ⟨i, j, hlt, hset, hfirst⟩ := h.first (hflag ▸ ho)
    exact ⟨i, j, (hsame i j hset.originAt).2 hlt, horigin ▸ hset, hfirst⟩

/-- Behind a `*` that sets the program counter, the origin is set; it was set
before, or this is the first `*`. -/
theorem behind_origin (h : CounterAt lines n m layout) {pc : UInt16}
    (hset : SetsOrigin lines n m pc) : CounterAt lines n (m + 1) (layout.setOrigin pc) := by
  have hwider {i j : Nat} (hlt : InFront i j n m) : InFront i j n (m + 1) :=
    hlt.imp_right fun h => ⟨h.1, Nat.lt_succ_of_lt h.2⟩
  have hown : InFront n m n (m + 1) := .inr ⟨rfl, Nat.lt_succ_self m⟩
  refine ⟨Nat.le_of_lt pc.toNat_lt, rfl, iff_of_true rfl ⟨n, m, hown, hset.originAt⟩, ?_⟩
  intro _
  cases hbefore : layout.originSet with
  | false =>
    have horigin : (layout.setOrigin pc).origin = pc := by simp [setOrigin, hbefore]
    rw [horigin]
    refine ⟨n, m, hown, hset, fun i j hlt hat => ?_⟩
    have hset := h.set_iff.2 ⟨i, j, hlt, hat⟩
    rw [hbefore] at hset
    cases hset
  | true =>
    have horigin : (layout.setOrigin pc).origin = layout.origin := by simp [setOrigin, hbefore]
    rw [horigin]
    obtain ⟨i, j, hlt, hfound⟩ := h.first hbefore
    exact ⟨i, j, hwider hlt, hfound⟩

end CounterAt

theorem counterAt_kept (lines : List Line) : Kept lines (CounterAt lines) where
  first := by
    have hnone (i j : Nat) : ¬ InFront i j 0 0 := by simp [InFront]
    refine ⟨Nat.zero_le _, rfl, ?_, fun ho => by cases ho⟩
    exact iff_of_false Bool.false_ne_true fun ⟨i, j, hlt, _⟩ => hnone i j hlt
  label _ hd h := by
    refine h.of_same ?_ (defineLabel_start hd) fun _ _ _ => Iff.rfl
    rw [defineLabel_pc hd]
    exact h.pc_le
  statement {n m line st found next full size} hn hst hreach hplaced h := by
    obtain ⟨hstep, _, hle⟩ := step_of_statement hplaced
    generalize size.length = length at hstep
    by_cases ho : Directive.of? st.command = some .origin
    · cases hstep with
      | origin _ value => exact h.behind_origin ⟨line, st, found, full, hn, hst, ho, hreach, value⟩
      | move command | data command | fill command | instruction command =>
        rw [ho] at command
        cases command
    · have hno : ¬ st.isOrigin := by simpa [Statement.isOrigin] using ho
      refine h.of_same hle (hstep.start_eq hno) fun i j hat => ?_
      -- The statement itself is no `*`, so a `*` in front of the next one is
      -- in front of this one.
      have hne : ¬ (i = n ∧ j = m) := by
        rintro ⟨rfl, rfl⟩
        obtain ⟨line', hn', st', hst', hc⟩ := hat
        cases hn.symm.trans hn'
        cases hst.symm.trans hst'
        exact ho hc
      unfold InFront
      omega
  newLine {n line layout sized} hn _ h := by
    refine h.of_same h.pc_le rfl fun i j hat => ?_
    have hlt : i = n → j < line.statements.length := by
      rintro rfl
      exact hat.lt hn
    unfold InFront
    omega

/-! ## What takes bytes -/

section Success

variable {lines : List Line} {last start : Layout} {sized : List SizedLine} {n m : Nat}
  {line : Line} {s : SizedLine} {size : Sizing}

/-- A size of a layout that succeeds is that of a statement, which the layout
found in some state and placed there. -/
theorem sized_at (h : Layout.lines {} lines = (last, .ok sized)) (hs : sized[n]? = some s)
    (hm : s.sizes[m]? = some size) :
    ∃ st found full next, lines[n]? = some s.line ∧ s.line.statements[m]? = some st ∧
      reach lines n m = some (found, full) ∧ found.statement full st = .ok (next, size) := by
  have hn := line_of_sized h hs
  obtain ⟨_, entered, label, after, _, _, hsts, _⟩ := line_at h hn hs
  have hlt : m < s.line.statements.length := by
    rw [← statements_length hsts]
    exact (List.getElem?_eq_some_iff.1 hm).1
  have hst := List.getElem?_eq_getElem hlt
  obtain ⟨s', size', found, full, next, hs', _, hsize, hreach, hplaced⟩ := reach_of_lines h hn hst
  cases hs.symm.trans hs'
  cases hm.symm.trans hsize
  exact ⟨_, found, full, next, hn, hst, hreach, hplaced⟩

/-- Every statement that takes bytes was found behind a `*`. Its place is the
program counter as it was found, and its bytes end in memory. -/
def BytesFit (lines : List Line) (sized : List SizedLine) : Prop :=
  ∀ n m s size, sized[n]? = some s → s.sizes[m]? = some size → size.length ≠ 0 →
    ∃ found full, reach lines n m = some (found, full) ∧ found.addressSet = true ∧
      found.pc = size.pc.toNat ∧ found.pc < memorySize ∧ found.pc + size.length ≤ memorySize

theorem bytesFit (h : Layout.lines {} lines = (last, .ok sized)) : BytesFit lines sized := by
  intro n m s size hs hm hne
  obtain ⟨st, found, full, next, _, _, hreach, hplaced⟩ := sized_at h hs hm
  obtain ⟨hstep, hpc, hle⟩ := step_of_statement hplaced
  have hset : found.addressSet = true := by
    by_contra hnone
    exact hne (hstep.length_eq_zero (by simpa using hnone))
  have hplain : ¬ st.isOrigin := by
    intro ho
    obtain ⟨_, _, hzero, _⟩ := hstep.origin_of_some (by simpa [Statement.isOrigin] using ho)
    exact hne hzero
  rw [hstep.pc_eq hplain] at hle
  have hlt : found.pc < memorySize := by omega
  refine ⟨found, full, hreach, hset, ?_, hlt, hle⟩
  rw [hpc, address, UInt16.toNat_ofNat_of_lt' hlt]

/-! ## Where lines start -/

theorem defineLabel_get? {layout entered : Layout} {l : Line} {full : Text} (hl : l.label ≠ [])
    (h : layout.defineLabel l = .ok (entered, full)) :
    layout.labels.qualify l.label = .ok full ∧ entered.labels.get? full =
      some { name := full, line := l.number, address := .full layout.address } := by
  unfold defineLabel at h
  rw [if_neg (by simpa using hl)] at h
  split at h
  · cases h
  · rename_i labels hdefine
    cases h
    have hadds := Label.Table.define_adds hdefine
    exact ⟨hadds.qualified, hadds.added⟩

/-- Without a `*` behind it, the program counter never falls below the start of
line `n`. -/
theorem pc_kept (hstart : Layout.lines {} (lines.take n) = (start, .ok (sized.take n))) :
    Kept lines fun i j layout =>
      n ≤ i → (∀ a b, n ≤ a → InFront a b i j → ¬ OriginAt lines a b) → start.pc ≤ layout.pc where
  first hle _ := by
    cases Nat.le_zero.1 hle
    cases hstart
    exact Nat.le_refl _
  label _ hd h hle hno := by
    rw [defineLabel_pc hd]
    exact h hle hno
  statement {i j line st found next full size} hn hst _ hplaced h hle hno := by
    have hplain : ¬ st.isOrigin := by
      intro ho
      refine hno i j hle (.inr ⟨rfl, Nat.lt_succ_self j⟩) ⟨line, hn, st, hst, ?_⟩
      simpa [Statement.isOrigin] using ho
    have hbefore := h hle fun a b ha hlt =>
      hno a b ha (hlt.imp_right fun h => ⟨h.1, Nat.lt_succ_of_lt h.2⟩)
    rw [(step_of_statement hplaced).1.pc_eq hplain]
    exact Nat.le_add_right_of_le hbefore
  newLine {i line layout _} hn hlines h hle hno := by
    rcases Nat.lt_or_eq_of_le hle with hlt | rfl
    · refine h (Nat.le_of_lt_succ hlt) fun a b ha hin => hno a b ha ?_
      unfold InFront at hin ⊢
      omega
    · cases hstart.symm.trans hlines
      exact Nat.le_refl _

/-- What line `n` knows of the program counter in front of it: its address is the
counter, except just behind the end of memory, where nothing is emitted up to
the next `*`. A label that no `:` moves is at the address of its line. -/
structure StartsAt (lines : List Line) (last : Layout) (sized : List SizedLine) (n : Nat)
    (s : SizedLine) (start : Layout) : Prop where
  address_eq : s.address.toNat = start.pc % memorySize
  wraps_iff : s.address.toNat ≠ start.pc ↔ start.pc = memorySize
  quiet : start.pc = memorySize → ∀ i j t size, n ≤ i → sized[i]? = some t →
    t.sizes[j]? = some size → (∀ a b, n ≤ a → InFront a b i j → ¬ OriginAt lines a b) →
    size.length = 0
  label_at : s.line.label ≠ [] →
    (∀ st ∈ s.line.statements, Directive.of? st.command ≠ some .move) →
    ∃ full entry, start.labels.qualify s.line.label = .ok full ∧
      last.labels.get? full = some entry ∧ entry.address = .full s.address

/-- Just behind the end of memory nothing is emitted up to the next `*`. -/
theorem quiet_behind_memory (h : Layout.lines {} lines = (last, .ok sized))
    (hstart : Layout.lines {} (lines.take n) = (start, .ok (sized.take n)))
    (hpc : start.pc = memorySize) {i j : Nat} {t : SizedLine} (hle : n ≤ i)
    (ht : sized[i]? = some t) (hsize : t.sizes[j]? = some size)
    (hno : ∀ a b, n ≤ a → InFront a b i j → ¬ OriginAt lines a b) : size.length = 0 := by
  by_contra hne
  obtain ⟨found, full, hreach, _, _, hlt, _⟩ := bytesFit h i j t size ht hsize hne
  obtain ⟨st, _, _, _, hn, hst, _⟩ := sized_at h ht hsize
  have hj := Nat.le_of_lt (List.getElem?_eq_some_iff.1 hst).1
  have := (pc_kept hstart).at_reach hn hj hreach hle hno
  omega

/-- A label that is defined and not moved keeps the address of its line. -/
theorem label_at_line (h : Layout.lines {} lines = (last, .ok sized)) (hs : sized[n]? = some s)
    (hstart : Layout.lines {} (lines.take n) = (start, .ok (sized.take n)))
    (hlabel : s.line.label ≠ [])
    (hmove : ∀ st ∈ s.line.statements, Directive.of? st.command ≠ some .move) :
    ∃ full entry, start.labels.qualify s.line.label = .ok full ∧
      last.labels.get? full = some entry ∧ entry.address = .full s.address := by
  have hn := line_of_sized h hs
  obtain ⟨start', after, s', hstart', hline, hs', hrest⟩ := lines_at h hn
  cases hs.symm.trans hs'
  cases hstart.symm.trans hstart'
  obtain ⟨entered, full, sizes, hd, hsts, hsized⟩ := line_ok.1 hline
  obtain ⟨hq, hentry⟩ := defineLabel_get? hlabel hd
  rw [← statements_labels hsts hmove] at hentry
  refine ⟨full, _, hq, (lines_grow hrest).1 _ _ hentry, ?_⟩
  rw [hsized]

theorem startsAt (h : Layout.lines {} lines = (last, .ok sized)) (hs : sized[n]? = some s) :
    ∃ start, Layout.lines {} (lines.take n) = (start, .ok (sized.take n)) ∧
      StartsAt lines last sized n s start := by
  have hn := line_of_sized h hs
  obtain ⟨start, entered, full, after, hstart, hd, _, haddress⟩ := line_at h hn hs
  have hle := ((counterAt_kept lines).at_line (Nat.le_of_lt (split_at hn).2) hstart).pc_le
  have haddress : s.address.toNat = start.pc % memorySize := by
    rw [haddress, address, defineLabel_pc hd]
    rfl
  refine ⟨start, hstart, haddress, ?_, ?_, label_at_line h hs hstart⟩
  · unfold memorySize at haddress hle ⊢
    omega
  · intro hpc i j t size hi ht hsize hno
    exact quiet_behind_memory h hstart hpc hi ht hsize hno

end Success

/-! ## Over the end of memory -/

theorem placed_errorIs {kind : Error → Prop} {layout : Layout} {length : Except Error Nat}
    (hset : kind .addressNotSet) (h : length.ErrorIs kind) :
    (layout.placed length).ErrorIs kind := by
  unfold placed
  split
  · exact h.bind fun _ _ => Except.errorIs_ok _
  · exact Except.errorIs_error hset

theorem dataLength_ne_overflow (operand : Expr) :
    (Directive.dataLength operand).ErrorIs (· ≠ .addressOverflow) := by
  refine Except.ErrorIs.bind (Except.errorIs_mapM fun item _ => ?_) fun _ _ => Except.errorIs_ok _
  cases item with
  | decimal n =>
    simp only [Directive.dataWidth]
    split
    · exact Except.errorIs_ok _
    · exact Except.errorIs_error nofun
  | empty | paren | bracket | system => exact Except.errorIs_error nofun
  | _ => exact Except.errorIs_ok _

theorem fillOf_ne_overflow (labels : Label.View) (pc : UInt16) (operand : Expr) :
    (Directive.fillOf labels pc operand).ErrorIs (· ≠ .addressOverflow) := by
  unfold Directive.fillOf
  split
  · rename_i value _
    refine Except.ErrorIs.bind ?_ fun _ _ => ?_
    · cases value with
      | empty | string | paren | bracket | system => exact Except.errorIs_error nofun
      | _ => exact Except.errorIs_ok _
    · exact (Except.errorIs_mapError _ fun _ => nofun).bind fun _ _ => Except.errorIs_ok _
  · exact Except.errorIs_error nofun

/-- Sizing a statement never tells that memory is full. -/
theorem reserve_ne_overflow (layout : Layout) (label : Text) (st : Statement) :
    (layout.reserve label st).ErrorIs (· ≠ .addressOverflow) := by
  unfold reserve
  split
  · exact (Except.errorIs_mapError _ fun _ => nofun).bind fun _ _ => Except.errorIs_ok _
  · split
    · exact Except.errorIs_error nofun
    · refine (Except.errorIs_mapError _ fun _ => nofun).bind fun _ _ => ?_
      split
      · exact Except.errorIs_error nofun
      · exact Except.errorIs_ok _
  · exact placed_errorIs nofun (dataLength_ne_overflow st.operand)
  · refine placed_errorIs nofun fun e he => ?_
    exact fillOf_ne_overflow _ _ _ e (Except.map_eq_error.1 he)
  · exact placed_errorIs nofun (Except.errorIs_mapError _ fun _ => nofun)

theorem statement_overflow_iff {layout : Layout} {label : Text} {st : Statement} :
    layout.statement label st = .error .addressOverflow ↔
      ∃ next length, layout.reserve label st = .ok (next, length) ∧
        memorySize < next.pc + length := by
  unfold statement
  rw [Except.bind_eq_error]
  constructor
  · rintro (h | ⟨⟨next, length⟩, hr, h⟩)
    · exact absurd rfl (reserve_ne_overflow layout label st _ h)
    · refine ⟨next, length, hr, ?_⟩
      simp only at h
      split at h
      · assumption
      · cases h
  · rintro ⟨next, length, hr, hlt⟩
    exact .inr ⟨(next, length), hr, if_pos hlt⟩

/-- Statement `m` of line `n` is reached and sized, and leads over the end of
memory. -/
def Overflows (lines : List Line) (n m : Nat) : Prop :=
  ∃ line st found full next length, lines[n]? = some line ∧ line.statements[m]? = some st ∧
    reach lines n m = some (found, full) ∧ found.reserve full st = .ok (next, length) ∧
    memorySize < next.pc + length

/-- The layout fails for want of memory exactly at the line of a statement that
leads over its end. -/
theorem failsAt_overflow_iff {lines : List Line} {n : Nat} {line : Line}
    (hn : lines[n]? = some line) :
    FailsAt lines n line .addressOverflow ↔ ∃ m, Overflows lines n m := by
  constructor
  · intro h
    rcases h.reason with ⟨start, _, _, hd⟩ | ⟨m, st, found, full, hst, hreach, hplaced⟩
    · unfold defineLabel at hd
      split at hd
      · cases hd
      · split at hd <;> cases hd
    · obtain ⟨next, length, hr, hlt⟩ := statement_overflow_iff.1 hplaced
      exact ⟨m, line, st, found, full, next, length, hn, hst, hreach, hr, hlt⟩
  · rintro ⟨m, line', st, found, full, next, length, hn', hst, hreach, hr, hlt⟩
    cases hn.symm.trans hn'
    exact failsAt_of_statement hn hst hreach (statement_overflow_iff.2 ⟨next, length, hr, hlt⟩)

/-- The program counter stays in memory. Wherever the layout comes, it is in
memory or just behind the end, and the origin is the value of the first `*`, if
there was one, which is what both flags say. If
the layout succeeds, all bytes lie behind a `*` and in memory, and lines start
where the counter stands. The layout fails for want of memory exactly if it
reaches a statement whose size leads over the end, and then at its line. -/
theorem program_counter_stays_in_memory (lines : List Line) :
    (∀ n start sized, n ≤ lines.length → Layout.lines {} (lines.take n) = (start, .ok sized) →
      CounterAt lines n 0 start) ∧
    (∀ n m line st found full, lines[n]? = some line → line.statements[m]? = some st →
      reach lines n m = some (found, full) → CounterAt lines n m found) ∧
    (∀ last sized, Layout.lines {} lines = (last, .ok sized) → BytesFit lines sized ∧
      ∀ n s, sized[n]? = some s →
        ∃ start, Layout.lines {} (lines.take n) = (start, .ok (sized.take n)) ∧
          StartsAt lines last sized n s start) ∧
    ((∃ last file number text,
      Layout.lines {} lines = (last, .error (.located file number text .addressOverflow))) ↔
        ∃ n m, Overflows lines n m) ∧
    ∀ n line, lines[n]? = some line →
      (FailsAt lines n line .addressOverflow ↔ ∃ m, Overflows lines n m) := by
  refine ⟨?_, ?_, ?_, ?_, fun n line hn => failsAt_overflow_iff hn⟩
  · intro n start sized hn hstart
    exact (counterAt_kept lines).at_line hn hstart
  · intro n m line st found full hn hst hreach
    have hm := Nat.le_of_lt (List.getElem?_eq_some_iff.1 hst).1
    exact (counterAt_kept lines).at_reach hn hm hreach
  · intro last sized h
    exact ⟨bytesFit h, fun n s hs => startsAt h hs⟩
  · constructor
    · rintro ⟨last, file, number, text, h⟩
      obtain ⟨n, line, cause, hfails, he⟩ := exists_failsAt h
      cases he
      obtain ⟨m, hm⟩ := (failsAt_overflow_iff hfails.line).1 hfails
      exact ⟨n, m, hm⟩
    · rintro ⟨n, m, hm⟩
      obtain ⟨line, _, _, _, _, _, hn, _⟩ := id hm
      obtain ⟨last, h⟩ := ((failsAt_overflow_iff hn).2 ⟨m, hm⟩).whole
      exact ⟨last, _, _, _, h⟩

/-- The label behind the last byte of memory is told to be at address 0. -/
theorem topOfMemory_ends_behind_memory :
    ∃ last sized s start, Layout.lines {} topOfMemory = (last, .ok sized) ∧
      sized[3]? = some s ∧ start.pc = memorySize ∧ s.address.toNat = 0 ∧
      StartsAt topOfMemory last sized 3 s start := by
  obtain ⟨_, _, hsuccess, _⟩ := program_counter_stays_in_memory topOfMemory
  obtain ⟨last, sized, s, h, hs⟩ : ∃ last sized s,
      Layout.lines {} topOfMemory = (last, .ok sized) ∧ sized[3]? = some s := ⟨_, _, _, rfl, rfl⟩
  obtain ⟨start, hstart, hat⟩ := (hsuccess last sized h).2 3 s hs
  have hpc : (Layout.lines {} (topOfMemory.take 3)).1.pc = memorySize := by decide +kernel
  rw [hstart] at hpc
  have haddress : s.address.toNat = 0 := by rw [hat.address_eq, hpc, Nat.mod_self]
  exact ⟨last, sized, s, start, h, hs, hpc, haddress, hat⟩

end Layout

end Asm6502
