-- The layout taken apart. `Step` says once what placing a statement can do,
-- and a layout that succeeds has placed every statement of every line by one
-- step, from the state that `reach` gives.
import Asm6502.Layout
import Asm6502.Proofs.Except

namespace Asm6502

namespace Layout

/-! ## One statement -/

/-- The layout behind a statement that takes bytes. -/
def advance (layout : Layout) (length : Nat) : Layout := { layout with pc := layout.pc + length }

/-- What a statement of a line with the full label `label` does to the layout,
and the bytes that it takes. -/
inductive Step (layout : Layout) (label : Text) (st : Statement) : Layout → Nat → Prop
  | origin {pc : UInt16} (command : Directive.of? st.command = some .origin)
      (value : st.operand.value layout.labels.lookup layout.address = .ok pc) :
      Step layout label st (layout.setOrigin pc) 0
  | move {address : Address} {labels : Label.Table}
      (command : Directive.of? st.command = some .move)
      (labelled : label ≠ []) (value : st.operand.address layout.labels.lookup = .ok address)
      (fixed : layout.labels.fix label address = ⟨labels, .ok ()⟩) :
      Step layout label st { layout with labels } 0
  | data {length : Nat} (command : Directive.of? st.command = some .data)
      (set : layout.addressSet = true) (size : Directive.dataLength st.operand = .ok length) :
      Step layout label st (layout.advance length) length
  | fill {fill : Directive.Fill} (command : Directive.of? st.command = some .fill)
      (set : layout.addressSet = true)
      (size : Directive.fillOf layout.labels.lookup layout.address st.operand = .ok fill) :
      Step layout label st (layout.advance (fill.width * fill.count)) (fill.width * fill.count)
  | instruction {i : Instruction} (command : Directive.of? st.command = none)
      (set : layout.addressSet = true) (decoded : st.decode layout.labels.lookup = .ok i) :
      Step layout label st (layout.advance i.length) i.length

theorem placed_eq_ok {layout next : Layout} {length : Except Error Nat} {n : Nat}
    (h : layout.placed length = .ok (next, n)) :
    layout.addressSet = true ∧ next = layout ∧ length = .ok n := by
  unfold placed at h
  split at h
  · rename_i hset
    obtain ⟨m, hm, h⟩ := Except.bind_eq_ok.1 h
    obtain ⟨rfl, rfl⟩ := Prod.mk.inj (Except.pure_eq_ok.1 h)
    exact ⟨hset, rfl, hm⟩
  · cases h

theorem step_of_reserve {layout next : Layout} {label : Text} {st : Statement} {length : Nat}
    (h : layout.reserve label st = .ok (next, length)) :
    Step layout label st (next.advance length) length := by
  unfold reserve at h
  split at h
  · obtain ⟨pc, hv, h⟩ := Except.bind_eq_ok.1 h
    obtain ⟨rfl, rfl⟩ := Prod.mk.inj (Except.pure_eq_ok.1 h)
    exact .origin ‹_› (Except.mapError_eq_ok.1 hv)
  · split at h
    · simp at h
    · rename_i hl
      obtain ⟨address, hv, h⟩ := Except.bind_eq_ok.1 h
      split at h
      · cases h
      · rename_i labels hf
        obtain ⟨rfl, rfl⟩ := Prod.mk.inj (Except.pure_eq_ok.1 h)
        exact .move ‹_› (by simpa using hl) (Except.mapError_eq_ok.1 hv) hf
  · obtain ⟨hset, rfl, hn⟩ := placed_eq_ok h
    exact .data ‹_› hset hn
  · obtain ⟨hset, rfl, hn⟩ := placed_eq_ok h
    obtain ⟨fill, hf, rfl⟩ := Except.map_eq_ok.1 hn
    exact .fill ‹_› hset hf
  · obtain ⟨hset, rfl, hn⟩ := placed_eq_ok h
    obtain ⟨i, hi, rfl⟩ := Except.map_eq_ok.1 (Except.mapError_eq_ok.1 hn)
    exact .instruction ‹_› hset hi

/-- A statement that is placed makes one step, stays in memory, and is recorded
where the program counter was. -/
theorem step_of_statement {layout next : Layout} {label : Text} {st : Statement} {size : Sizing}
    (h : layout.statement label st = .ok (next, size)) :
    Step layout label st next size.length ∧ size.pc = layout.address ∧ next.pc ≤ memorySize := by
  unfold statement at h
  obtain ⟨⟨after, length⟩, hr, h⟩ := Except.bind_eq_ok.1 h
  simp only at h
  split at h
  · simp at h
  · rename_i hm
    obtain ⟨rfl, rfl⟩ := Prod.mk.inj (Except.pure_eq_ok.1 h)
    exact ⟨step_of_reserve hr, rfl, Nat.le_of_not_lt hm⟩

/-- A statement that is no directive takes the bytes of the instruction that it
is decoded to. -/
theorem Step.decoded_of_none {layout next : Layout} {label : Text} {st : Statement} {length : Nat}
    (h : Step layout label st next length) (hd : Directive.of? st.command = none) :
    ∃ i, st.decode layout.labels.lookup = .ok i ∧ length = i.length := by
  cases h with
  | origin command | move command | data command | fill command =>
    rw [hd] at command
    cases command
  | instruction _ _ decoded => exact ⟨_, decoded, rfl⟩

/-! ## The statements of a line -/

theorem statements_cons_ok {layout last : Layout} {label : Text} {st : Statement}
    {rest : List Statement} {sizes : List Sizing} :
    layout.statements label (st :: rest) = (last, .ok sizes) ↔
      ∃ next size others, layout.statement label st = .ok (next, size) ∧
        next.statements label rest = (last, .ok others) ∧ sizes = size :: others := by
  rw [statements]
  split
  · rename_i h
    simp [h]
  · rename_i next size h
    simp only [h, Prod.mk.injEq, Except.ok.injEq, Except.map_eq_ok]
    constructor
    · rintro ⟨hl, others, ho, rfl⟩
      exact ⟨next, size, others, ⟨rfl, rfl⟩, Prod.ext hl ho, rfl⟩
    · rintro ⟨_, _, others, ⟨rfl, rfl⟩, hr, rfl⟩
      exact ⟨by rw [hr], others, by rw [hr], rfl⟩

theorem statements_append_ok {layout last : Layout} {label : Text} {front back : List Statement}
    {sizes : List Sizing} (h : layout.statements label (front ++ back) = (last, .ok sizes)) :
    ∃ middle a b, layout.statements label front = (middle, .ok a) ∧
      middle.statements label back = (last, .ok b) ∧ sizes = a ++ b := by
  induction front generalizing layout sizes with
  | nil => exact ⟨layout, [], sizes, rfl, h, rfl⟩
  | cons st front ih =>
    obtain ⟨next, size, others, hs, hr, rfl⟩ := statements_cons_ok.1 h
    obtain ⟨middle, a, b, ha, hb, rfl⟩ := ih hr
    exact ⟨middle, size :: a, b, statements_cons_ok.2 ⟨next, size, a, hs, ha, rfl⟩, hb, rfl⟩

theorem statements_length {layout last : Layout} {label : Text} {sts : List Statement}
    {sizes : List Sizing} (h : layout.statements label sts = (last, .ok sizes)) :
    sizes.length = sts.length := by
  induction sts generalizing layout sizes with
  | nil =>
    obtain ⟨_, h⟩ := Prod.mk.inj h
    cases h
    rfl
  | cons st sts ih =>
    obtain ⟨next, size, others, _, hr, rfl⟩ := statements_cons_ok.1 h
    simp [ih hr]

/-! ## Lines -/

theorem defineLabel_pc {layout entered : Layout} {l : Line} {label : Text}
    (h : layout.defineLabel l = .ok (entered, label)) : entered.pc = layout.pc := by
  unfold defineLabel at h
  split at h
  · cases h
    rfl
  · split at h
    · cases h
    · cases h
      rfl

theorem line_ok {layout last : Layout} {l : Line} {sized : SizedLine} :
    layout.line l = (last, .ok sized) ↔
      ∃ next label sizes, layout.defineLabel l = .ok (next, label) ∧
        next.statements label l.statements = (last, .ok sizes) ∧
        sized = { line := l, address := layout.address, sizes } := by
  rw [line]
  split
  · rename_i h
    simp [h]
  · rename_i next label h
    simp only [h, Prod.mk.injEq, Except.ok.injEq, Except.map_eq_ok, Except.mapError_eq_ok]
    constructor
    · rintro ⟨hl, sizes, hs, rfl⟩
      exact ⟨next, label, sizes, ⟨rfl, rfl⟩, Prod.ext hl hs, rfl⟩
    · rintro ⟨_, _, sizes, ⟨rfl, rfl⟩, hs, rfl⟩
      exact ⟨by rw [hs], sizes, by rw [hs], rfl⟩

theorem lines_cons_ok {layout last : Layout} {l : Line} {rest : List Line}
    {sized : List SizedLine} :
    layout.lines (l :: rest) = (last, .ok sized) ↔
      ∃ next first others, layout.line l = (next, .ok first) ∧
        next.lines rest = (last, .ok others) ∧ sized = first :: others := by
  rw [lines]
  split
  · rename_i h
    simp [h]
  · rename_i next first h
    simp only [h, Prod.mk.injEq, Except.ok.injEq, Except.map_eq_ok]
    constructor
    · rintro ⟨hl, others, ho, rfl⟩
      exact ⟨next, first, others, ⟨rfl, rfl⟩, Prod.ext hl ho, rfl⟩
    · rintro ⟨_, _, others, ⟨rfl, rfl⟩, hr, rfl⟩
      exact ⟨by rw [hr], others, by rw [hr], rfl⟩

theorem lines_append_ok {layout last : Layout} {front back : List Line} {sized : List SizedLine}
    (h : layout.lines (front ++ back) = (last, .ok sized)) :
    ∃ middle a b, layout.lines front = (middle, .ok a) ∧ middle.lines back = (last, .ok b) ∧
      sized = a ++ b := by
  induction front generalizing layout sized with
  | nil => exact ⟨layout, [], sized, rfl, h, rfl⟩
  | cons l front ih =>
    obtain ⟨next, first, others, hl, hr, rfl⟩ := lines_cons_ok.1 h
    obtain ⟨middle, a, b, ha, hb, rfl⟩ := ih hr
    exact ⟨middle, first :: a, b, lines_cons_ok.2 ⟨next, first, a, hl, ha, rfl⟩, hb, rfl⟩

/-- The lines that are placed are the lines of the source. -/
theorem lines_line {layout last : Layout} {ls : List Line} {sized : List SizedLine}
    (h : layout.lines ls = (last, .ok sized)) : sized.map SizedLine.line = ls := by
  induction ls generalizing layout sized with
  | nil =>
    obtain ⟨_, h⟩ := Prod.mk.inj h
    cases h
    rfl
  | cons l ls ih =>
    obtain ⟨next, first, others, hl, hr, rfl⟩ := lines_cons_ok.1 h
    obtain ⟨_, _, _, _, _, rfl⟩ := line_ok.1 hl
    simp [ih hr]

theorem lines_length {layout last : Layout} {ls : List Line} {sized : List SizedLine}
    (h : layout.lines ls = (last, .ok sized)) : sized.length = ls.length := by
  rw [← lines_line h, List.length_map]

theorem line_of_sized {layout last : Layout} {ls : List Line} {sized : List SizedLine} {n : Nat}
    {s : SizedLine} (h : layout.lines ls = (last, .ok sized)) (hs : sized[n]? = some s) :
    ls[n]? = some s.line := by
  rw [← lines_line h, List.getElem?_map, hs]
  rfl

/-! ## How far the layout has come -/

/-- The layout as it finds statement `m` of line `n`, and the full name of the
label of that line. Nothing, if the layout does not come so far. -/
def reach (lines : List Line) (n m : Nat) : Option (Layout × Text) :=
  match lines[n]?, Layout.lines {} (lines.take n) with
  | some line, (start, .ok _) =>
    match start.defineLabel line with
    | .ok (entered, label) =>
      match entered.statements label (line.statements.take m) with
      | (found, .ok _) => some (found, label)
      | (_, .error _) => none
    | .error _ => none
  | _, _ => none

theorem split_at {α : Type} {l : List α} {n : Nat} {a : α} (h : l[n]? = some a) :
    l = l.take n ++ a :: l.drop (n + 1) ∧ n < l.length := by
  obtain ⟨hlt, rfl⟩ := List.getElem?_eq_some_iff.1 h
  exact ⟨by simp, hlt⟩

/-- A layout that succeeds has placed line `n` from where the lines before it
led, and the lines behind it from where that line led. -/
theorem lines_at {layout last : Layout} {ls : List Line} {sized : List SizedLine} {n : Nat}
    {l : Line} (h : layout.lines ls = (last, .ok sized)) (hn : ls[n]? = some l) :
    ∃ start after s, layout.lines (ls.take n) = (start, .ok (sized.take n)) ∧
      start.line l = (after, .ok s) ∧ sized[n]? = some s ∧
      after.lines (ls.drop (n + 1)) = (last, .ok (sized.drop (n + 1))) := by
  obtain ⟨hsplit, hlt⟩ := split_at hn
  rw [hsplit] at h
  obtain ⟨start, a, b, ha, hb, rfl⟩ := lines_append_ok h
  obtain ⟨after, s, others, hs, ho, rfl⟩ := lines_cons_ok.1 hb
  have hlen : a.length = n := by
    rw [lines_length ha, List.length_take]
    omega
  subst hlen
  exact ⟨start, after, s, by simpa using ha, hs, by simp, by simpa using ho⟩

/-- The same for the statements of a line. -/
theorem statements_at {layout last : Layout} {label : Text} {sts : List Statement}
    {sizes : List Sizing} {m : Nat} {st : Statement}
    (h : layout.statements label sts = (last, .ok sizes)) (hm : sts[m]? = some st) :
    ∃ found next size, layout.statements label (sts.take m) = (found, .ok (sizes.take m)) ∧
      found.statement label st = .ok (next, size) ∧ sizes[m]? = some size ∧
      next.statements label (sts.drop (m + 1)) = (last, .ok (sizes.drop (m + 1))) := by
  obtain ⟨hsplit, hlt⟩ := split_at hm
  rw [hsplit] at h
  obtain ⟨found, a, b, ha, hb, rfl⟩ := statements_append_ok h
  obtain ⟨next, size, others, hs, ho, rfl⟩ := statements_cons_ok.1 hb
  have hlen : a.length = m := by
    rw [statements_length ha, List.length_take]
    omega
  subst hlen
  exact ⟨found, next, size, by simpa using ha, hs, by simp, by simpa using ho⟩

/-- The statements of line `n` were placed from the address of the line. -/
theorem line_at {last : Layout} {ls : List Line} {sized : List SizedLine} {n : Nat} {l : Line}
    {s : SizedLine} (h : Layout.lines {} ls = (last, .ok sized)) (hn : ls[n]? = some l)
    (hs : sized[n]? = some s) :
    ∃ start entered label after, Layout.lines {} (ls.take n) = (start, .ok (sized.take n)) ∧
      start.defineLabel l = .ok (entered, label) ∧
      entered.statements label l.statements = (after, .ok s.sizes) ∧
      s.address = entered.address := by
  obtain ⟨start, after, s', hstart, hline, hs', _⟩ := lines_at h hn
  cases hs.symm.trans hs'
  obtain ⟨entered, label, sizes, hd, hsts, rfl⟩ := line_ok.1 hline
  refine ⟨start, entered, label, after, hstart, hd, hsts, ?_⟩
  simp only [address, defineLabel_pc hd]

/-- What it takes to reach a statement. -/
theorem reach_eq_some {ls : List Line} {n m : Nat} {found : Layout} {label : Text} :
    reach ls n m = some (found, label) ↔
      ∃ l start front entered sizes, ls[n]? = some l ∧
        Layout.lines {} (ls.take n) = (start, .ok front) ∧
        start.defineLabel l = .ok (entered, label) ∧
        entered.statements label (l.statements.take m) = (found, .ok sizes) := by
  constructor
  · intro h
    unfold reach at h
    split at h
    · rename_i l start front hn hstart
      split at h
      · rename_i entered label' hd
        split at h
        · rename_i found' sizes hf
          obtain ⟨rfl, rfl⟩ := Prod.mk.inj (Option.some.inj h)
          exact ⟨l, start, front, entered, sizes, hn, hstart, hd, hf⟩
        · cases h
      · cases h
    · cases h
  · rintro ⟨l, start, front, entered, sizes, hn, hstart, hd, hf⟩
    simp [reach, hn, hstart, hd, hf]

/-- A layout that succeeds reaches every statement and places it there. -/
theorem reach_of_lines {last : Layout} {ls : List Line} {sized : List SizedLine} {n m : Nat}
    {l : Line} {st : Statement} (h : Layout.lines {} ls = (last, .ok sized))
    (hn : ls[n]? = some l) (hm : l.statements[m]? = some st) :
    ∃ s size found label next, sized[n]? = some s ∧ s.line = l ∧ s.sizes[m]? = some size ∧
      reach ls n m = some (found, label) ∧ found.statement label st = .ok (next, size) := by
  obtain ⟨start, after, s, hstart, hline, hs, _⟩ := lines_at h hn
  obtain ⟨entered, label, sizes, hd, hsts, rfl⟩ := line_ok.1 hline
  obtain ⟨found, next, size, hf, hst, hsize, _⟩ := statements_at hsts hm
  refine ⟨_, size, found, label, next, hs, rfl, hsize, ?_, hst⟩
  exact reach_eq_some.2 ⟨l, start, _, entered, _, hn, hstart, hd, hf⟩

/-! ## Where the layout fails -/

/-- Statements that cannot be placed have a first one that cannot be. -/
theorem statements_eq_error {layout last : Layout} {label : Text} {sts : List Statement}
    {e : Error} (h : layout.statements label sts = (last, .error e)) :
    ∃ front st back sizes, sts = front ++ st :: back ∧
      layout.statements label front = (last, .ok sizes) ∧ last.statement label st = .error e := by
  induction sts generalizing layout with
  | nil => cases (Prod.mk.inj h).2
  | cons st sts ih =>
    rw [statements] at h
    split at h
    · rename_i hs
      obtain ⟨rfl, he⟩ := Prod.mk.inj h
      cases he
      exact ⟨[], st, sts, [], rfl, rfl, hs⟩
    · rename_i next size hs
      obtain ⟨hl, he⟩ := Prod.mk.inj h
      obtain ⟨front, st', back, sizes, rfl, hf, hst⟩ := ih (Prod.ext hl (Except.map_eq_error.1 he))
      exact ⟨st :: front, st', back, size :: sizes, rfl,
        statements_cons_ok.2 ⟨next, size, sizes, hs, hf, rfl⟩, hst⟩

/-- A line that cannot be placed has a label that cannot be defined, or a
statement that cannot be placed. -/
theorem line_eq_error {layout last : Layout} {l : Line} {e : Error}
    (h : layout.line l = (last, .error e)) :
    ∃ cause, e = .located l.file l.number l.text cause ∧
      (layout.defineLabel l = .error cause ∨
        ∃ entered label front st back sizes, layout.defineLabel l = .ok (entered, label) ∧
          l.statements = front ++ st :: back ∧
          entered.statements label front = (last, .ok sizes) ∧
          last.statement label st = .error cause) := by
  rw [line] at h
  split at h
  · rename_i cause hd
    cases (Prod.mk.inj h).2
    exact ⟨cause, rfl, .inl hd⟩
  · rename_i entered label hd
    obtain ⟨hl, he⟩ := Prod.mk.inj h
    obtain ⟨cause, hc, rfl⟩ := Except.mapError_eq_error.1 (Except.map_eq_error.1 he)
    obtain ⟨front, st, back, sizes, hsplit, hf, hst⟩ := statements_eq_error (Prod.ext hl hc)
    exact ⟨cause, rfl, .inr ⟨entered, label, front, st, back, sizes, hd, hsplit, hf, hst⟩⟩

/-- Lines that cannot be placed have a first one that cannot be. -/
theorem lines_eq_error {layout last : Layout} {ls : List Line} {e : Error}
    (h : layout.lines ls = (last, .error e)) :
    ∃ front l back start sized, ls = front ++ l :: back ∧
      layout.lines front = (start, .ok sized) ∧ start.line l = (last, .error e) := by
  induction ls generalizing layout with
  | nil => cases (Prod.mk.inj h).2
  | cons l ls ih =>
    rw [lines] at h
    split at h
    · rename_i hl
      obtain ⟨rfl, he⟩ := Prod.mk.inj h
      cases he
      exact ⟨[], l, ls, layout, [], rfl, rfl, hl⟩
    · rename_i next first hl
      obtain ⟨hlast, he⟩ := Prod.mk.inj h
      obtain ⟨front, l', back, start, sized, rfl, hf, hl'⟩ :=
        ih (Prod.ext hlast (Except.map_eq_error.1 he))
      exact ⟨l :: front, l', back, start, first :: sized, rfl,
        lines_cons_ok.2 ⟨next, first, sized, hl, hf, rfl⟩, hl'⟩

/-- What stands behind statements that are placed is placed from where they led. -/
theorem statements_append {layout middle : Layout} {label : Text} {front : List Statement}
    {sizes : List Sizing} (h : layout.statements label front = (middle, .ok sizes))
    (back : List Statement) :
    layout.statements label (front ++ back) =
      ((middle.statements label back).1, (middle.statements label back).2.map (sizes ++ ·)) := by
  induction front generalizing layout sizes with
  | nil =>
    obtain ⟨rfl, hs⟩ := Prod.mk.inj h
    cases hs
    refine Prod.ext rfl ?_
    rw [List.nil_append]
    cases (layout.statements label back).2 <;> rfl
  | cons st front ih =>
    obtain ⟨next, size, others, hs, hr, rfl⟩ := statements_cons_ok.1 h
    rw [List.cons_append, statements, hs]
    simp only [ih hr]
    cases (middle.statements label back).2 <;> rfl

/-- The same for lines. -/
theorem lines_append {layout middle : Layout} {front : List Line} {sized : List SizedLine}
    (h : layout.lines front = (middle, .ok sized)) (back : List Line) :
    layout.lines (front ++ back) =
      ((middle.lines back).1, (middle.lines back).2.map (sized ++ ·)) := by
  induction front generalizing layout sized with
  | nil =>
    obtain ⟨rfl, hs⟩ := Prod.mk.inj h
    cases hs
    refine Prod.ext rfl ?_
    rw [List.nil_append]
    cases (layout.lines back).2 <;> rfl
  | cons l front ih =>
    obtain ⟨next, first, others, hl, hr, rfl⟩ := lines_cons_ok.1 h
    rw [List.cons_append, lines, hl]
    simp only [ih hr]
    cases (middle.lines back).2 <;> rfl

theorem lines_cons_error {layout last : Layout} {l : Line} {e : Error}
    (h : layout.line l = (last, .error e)) (rest : List Line) :
    layout.lines (l :: rest) = (last, .error e) := by
  rw [lines, h]

/-- The layout fails at line `n`: the lines in front of it are placed, this line
is not, and its error is what the layout of all lines ends with. -/
structure FailsAt (ls : List Line) (n : Nat) (l : Line) (cause : Error) : Prop where
  line : ls[n]? = some l
  before : ∃ start sized, Layout.lines {} (ls.take n) = (start, .ok sized)
  upTo : ∃ last, Layout.lines {} (ls.take (n + 1)) =
    (last, .error (.located l.file l.number l.text cause))
  whole : ∃ last, Layout.lines {} ls = (last, .error (.located l.file l.number l.text cause))

theorem failsAt_of_line {ls : List Line} {n : Nat} {l : Line} {start last : Layout}
    {sized : List SizedLine} {cause : Error} (hn : ls[n]? = some l)
    (hstart : Layout.lines {} (ls.take n) = (start, .ok sized))
    (hl : start.line l = (last, .error (.located l.file l.number l.text cause))) :
    FailsAt ls n l cause := by
  refine ⟨hn, ⟨start, sized, hstart⟩, ⟨last, ?_⟩, ⟨last, ?_⟩⟩
  · rw [List.take_add_one, hn, Option.toList_some, lines_append hstart, lines_cons_error hl]
    rfl
  · rw [(split_at hn).1, lines_append hstart, lines_cons_error hl]
    rfl

/-- A label that cannot be defined makes its line fail. -/
theorem failsAt_of_defineLabel {ls : List Line} {n : Nat} {l : Line} {start : Layout}
    {sized : List SizedLine} {cause : Error} (hn : ls[n]? = some l)
    (hstart : Layout.lines {} (ls.take n) = (start, .ok sized))
    (hd : start.defineLabel l = .error cause) : FailsAt ls n l cause := by
  have hl : start.line l = (start, .error (.located l.file l.number l.text cause)) := by
    rw [Layout.line, hd]
  exact failsAt_of_line hn hstart hl

/-- A statement that is reached and cannot be placed makes its line fail. -/
theorem failsAt_of_statement {ls : List Line} {n m : Nat} {l : Line} {st : Statement}
    {found : Layout} {label : Text} {cause : Error} (hn : ls[n]? = some l)
    (hm : l.statements[m]? = some st) (hreach : reach ls n m = some (found, label))
    (hst : found.statement label st = .error cause) : FailsAt ls n l cause := by
  obtain ⟨l', start, front, entered, sizes, hn', hstart, hd, hf⟩ := reach_eq_some.1 hreach
  cases hn.symm.trans hn'
  have hsts : entered.statements label l.statements = (found, .error cause) := by
    rw [(split_at hm).1, statements_append hf, statements, hst]
    rfl
  have hl : start.line l = (found, .error (.located l.file l.number l.text cause)) := by
    rw [Layout.line, hd]
    simp only [hsts]
    rfl
  exact failsAt_of_line hn hstart hl

/-- A line that fails has a label that cannot be defined, or a statement that is
reached and cannot be placed. -/
theorem FailsAt.reason {ls : List Line} {n : Nat} {l : Line} {cause : Error}
    (h : FailsAt ls n l cause) :
    (∃ start sized, Layout.lines {} (ls.take n) = (start, .ok sized) ∧
      start.defineLabel l = .error cause) ∨
    ∃ m st found label, l.statements[m]? = some st ∧ reach ls n m = some (found, label) ∧
      found.statement label st = .error cause := by
  obtain ⟨hn, ⟨start, sized, hstart⟩, ⟨last, hupTo⟩, _⟩ := h
  have hline : ∃ last, start.line l = (last, .error (.located l.file l.number l.text cause)) := by
    rw [List.take_add_one, hn, Option.toList_some, lines_append hstart] at hupTo
    have herror := Except.map_eq_error.1 (Prod.mk.inj hupTo).2
    rw [lines] at herror
    split at herror
    · rename_i next _ hl
      cases herror
      exact ⟨next, hl⟩
    · cases herror
  obtain ⟨last, hl⟩ := hline
  obtain ⟨cause', heq, hcause⟩ := line_eq_error hl
  cases heq
  rcases hcause with hd | ⟨entered, label, front, st, back, sizes, hd, hsts, hf, hst⟩
  · exact .inl ⟨start, sized, hstart, hd⟩
  · refine .inr ⟨front.length, st, last, label, by simp [hsts], ?_, hst⟩
    have htake : l.statements.take front.length = front := by simp [hsts]
    exact reach_eq_some.2 ⟨l, start, sized, entered, sizes, hn, hstart, hd, by rwa [htake]⟩

/-- A layout that fails does so at one of its lines. -/
theorem exists_failsAt {ls : List Line} {last : Layout} {e : Error}
    (h : Layout.lines {} ls = (last, .error e)) :
    ∃ n l cause, FailsAt ls n l cause ∧ e = .located l.file l.number l.text cause := by
  obtain ⟨front, l, back, start, sized, rfl, hfront, hl⟩ := lines_eq_error h
  obtain ⟨cause, rfl, _⟩ := line_eq_error hl
  exact ⟨front.length, l, cause, failsAt_of_line (by simp) (by simpa using hfront) hl, rfl⟩

end Layout

end Asm6502
