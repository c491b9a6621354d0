-- How the labels grow while lines are placed. A line defines a label that no
-- line before it has, and a `:` in front of its other statements moves only
-- that label. So what a statement sees is what the whole program has, in the
-- scope that the line is in.
import Asm6502.Proofs.Emission
import Asm6502.Proofs.LabelHistory
import Asm6502.Proofs.LabelView

namespace Asm6502

namespace Label.Table

/-! ## One label -/

/-- Every entry of the first table is in the second. -/
def Extends (a b : Table) : Prop :=
  ∀ full entry, a.get? full = some entry → b.get? full = some entry

theorem Extends.refl (a : Table) : a.Extends a := fun _ _ h => h

theorem Extends.trans {a b c : Table} (hab : a.Extends b) (hbc : b.Extends c) : a.Extends c :=
  fun full entry h => hbc full entry (hab full entry h)

theorem enter_scope_congr {a b : Table} (h : a.scope = b.scope) (name : Text) :
    (a.enter name).scope = (b.enter name).scope := by
  rw [enter_scope, enter_scope, h]

/-- A definition adds a label under a name that was free, and enters its scope. -/
theorem define_grows {a b : Table} {name full : Text} {line : Int} {address : UInt16}
    (h : a.define name line address = ⟨b, .ok full⟩) :
    a.Extends b ∧ a.get? full = none ∧ b.scope = (a.enter name).scope := by
  have hadds := define_adds h
  refine ⟨?_, hadds.free, hadds.scope.trans (enter_scope a name).symm⟩
  intro other entry ho
  have hne : other ≠ full := by
    rintro rfl
    rw [hadds.free] at ho
    cases ho
  rw [hadds.others other hne]
  exact ho

/-- A table that lacks a label does not see it move. -/
theorem Extends.fix {a b c : Table} {full : Text} {address : Address} (hab : a.Extends b)
    (hfree : a.get? full = none) (h : b.fix full address = ⟨c, .ok ()⟩) : a.Extends c := by
  intro name entry he
  have hne : name ≠ full := by
    rintro rfl
    rw [hfree] at he
    cases he
  rw [(fix_moves h).others name hne]
  exact hab name entry he

/-- In one scope, a table with more entries gives more names an address. -/
theorem Extends.lookup {a b : Table} (h : a.Extends b) (hs : a.scope = b.scope) :
    View.Extends a.lookup b.lookup := by
  intro name address ha
  have hq : a.qualify name = b.qualify name := by simp only [qualify, hs]
  unfold Table.lookup at ha ⊢
  rw [← hq]
  obtain ⟨full, hf, ha⟩ := Except.bind_eq_ok.1 ha
  refine Except.bind_eq_ok.2 ⟨full, hf, ?_⟩
  split at ha
  · rename_i entry he
    rw [h full entry he]
    exact ha
  · simp at ha

theorem Extends.of_entries {a b c : Table} (h : a.Extends b) (he : c.entries = b.entries) :
    a.Extends c := by
  intro full entry ha
  have hb := h full entry ha
  unfold get? at hb ⊢
  rw [he]
  exact hb

theorem behind_scope_congr {a b : Table} (h : a.scope = b.scope) (ls : List Line) :
    (a.behind ls).scope = (b.behind ls).scope := by
  induction ls generalizing a b with
  | nil => exact h
  | cons l ls ih => exact ih (enter_scope_congr h l.label)

theorem behind_entries (a : Table) (ls : List Line) : (a.behind ls).entries = a.entries := by
  induction ls generalizing a with
  | nil => rfl
  | cons l ls ih => exact (ih _).trans (enter_entries a l.label)

theorem behind_snoc (a : Table) (ls : List Line) (l : Line) :
    a.behind (ls ++ [l]) = (a.behind ls).enter l.label := by
  simp [behind]

end Label.Table

/-! ## The lines of a program -/

/-- Every `:` stands in front of the other statements of its line. -/
def Line.MovesInFront (line : Line) : Prop :=
  ∀ m st, line.statements[m]? = some st → Directive.of? st.command = some .move → m = 0

theorem Line.movesInFront_iff {line : Line} :
    line.MovesInFront ↔
      ∀ st ∈ line.statements.tail, Directive.of? st.command ≠ some .move := by
  constructor
  · intro h st hst hc
    obtain ⟨k, hk⟩ := List.mem_iff_getElem?.1 hst
    rw [List.getElem?_tail] at hk
    exact absurd (h (k + 1) st hk hc) (Nat.succ_ne_zero k)
  · intro h m st hm hc
    cases m with
    | zero => rfl
    | succ k =>
      rw [← List.getElem?_tail] at hm
      exact absurd hc (h st (List.mem_of_getElem? hm))

instance (line : Line) : Decidable line.MovesInFront :=
  decidable_of_iff _ Line.movesInFront_iff.symm

namespace Layout

theorem defineLabel_grows {layout entered : Layout} {l : Line} {label : Text}
    (h : layout.defineLabel l = .ok (entered, label)) :
    layout.labels.Extends entered.labels ∧ (label ≠ [] → layout.labels.get? label = none) ∧
      entered.labels.scope = (layout.labels.enter l.label).scope := by
  unfold defineLabel at h
  split at h
  · rename_i he
    obtain ⟨rfl, rfl⟩ := Prod.mk.inj (Except.ok.inj h)
    refine ⟨.refl _, fun hne => absurd rfl hne, ?_⟩
    rw [List.isEmpty_iff.1 he]
    rfl
  · split at h
    · simp at h
    · rename_i labels full hd
      obtain ⟨rfl, rfl⟩ := Prod.mk.inj (Except.ok.inj h)
      obtain ⟨hg, hfree, hs⟩ := Label.Table.define_grows hd
      exact ⟨hg, fun _ => hfree, hs⟩

theorem Step.labels_of_not_move {layout next : Layout} {label : Text} {st : Statement}
    {length : Nat} (h : Step layout label st next length)
    (hm : Directive.of? st.command ≠ some .move) : next.labels = layout.labels := by
  cases h with
  | move command => exact absurd command hm
  | origin | data | fill | instruction => rfl

/-- Every step keeps the scope, and the labels that were there before the line. -/
theorem Step.grows {layout next : Layout} {label : Text} {st : Statement} {length : Nat}
    {before : Label.Table} (h : Step layout label st next length)
    (hb : before.Extends layout.labels) (hfree : label ≠ [] → before.get? label = none) :
    before.Extends next.labels ∧ next.labels.scope = layout.labels.scope := by
  cases h with
  | move _ labelled _ fixed =>
    exact ⟨hb.fix (hfree labelled) fixed, (Label.Table.fix_moves fixed).scope⟩
  | origin | data | fill | instruction => exact ⟨hb, rfl⟩

theorem statements_labels {layout last : Layout} {label : Text} {sts : List Statement}
    {sizes : List Sizing} (h : layout.statements label sts = (last, .ok sizes))
    (hm : ∀ st ∈ sts, Directive.of? st.command ≠ some .move) : last.labels = layout.labels := by
  induction sts generalizing layout sizes with
  | nil => rw [← (Prod.mk.inj h).1]
  | cons st sts ih =>
    obtain ⟨next, size, others, hs, hr, rfl⟩ := statements_cons_ok.1 h
    rw [ih hr fun st hst => hm st (List.mem_cons_of_mem _ hst)]
    exact (step_of_statement hs).1.labels_of_not_move (hm st List.mem_cons_self)

theorem statements_grow {layout last : Layout} {label : Text} {sts : List Statement}
    {sizes : List Sizing} {before : Label.Table}
    (h : layout.statements label sts = (last, .ok sizes)) (hb : before.Extends layout.labels)
    (hfree : label ≠ [] → before.get? label = none) :
    before.Extends last.labels ∧ last.labels.scope = layout.labels.scope := by
  induction sts generalizing layout sizes with
  | nil =>
    rw [← (Prod.mk.inj h).1]
    exact ⟨hb, rfl⟩
  | cons st sts ih =>
    obtain ⟨next, size, others, hs, hr, rfl⟩ := statements_cons_ok.1 h
    obtain ⟨hn, hscope⟩ := (step_of_statement hs).1.grows hb hfree
    obtain ⟨hl, hscope'⟩ := ih hr hn
    exact ⟨hl, hscope'.trans hscope⟩

/-- Labels only grow from line to line, whatever the statements do. -/
theorem lines_grow {layout last : Layout} {ls : List Line} {sized : List SizedLine}
    (h : layout.lines ls = (last, .ok sized)) :
    layout.labels.Extends last.labels ∧ last.labels.scope = (layout.labels.behind ls).scope := by
  induction ls generalizing layout sized with
  | nil =>
    rw [← (Prod.mk.inj h).1]
    exact ⟨.refl _, rfl⟩
  | cons l ls ih =>
    obtain ⟨next, first, others, hl, hr, rfl⟩ := lines_cons_ok.1 h
    obtain ⟨entered, label, sizes, hd, hs, _⟩ := line_ok.1 hl
    obtain ⟨hg, hfree, hscope⟩ := defineLabel_grows hd
    obtain ⟨hn, hscope'⟩ := statements_grow hs hg hfree
    obtain ⟨hlast, hlscope⟩ := ih hr
    refine ⟨hn.trans hlast, hlscope.trans ?_⟩
    exact Label.Table.behind_scope_congr (hscope'.trans hscope) ls

/-- A statement that moves no label knows no label that the whole program does
not have at the same address. -/
theorem reach_extends {last : Layout} {ls : List Line} {sized : List SizedLine} {n m : Nat}
    {l : Line} {st : Statement} {found : Layout} {label : Text}
    (h : Layout.lines {} ls = (last, .ok sized)) (hn : ls[n]? = some l)
    (hm : l.statements[m]? = some st) (hfront : l.MovesInFront)
    (hst : Directive.of? st.command ≠ some .move) (hreach : reach ls n m = some (found, label)) :
    Label.View.Extends found.labels.lookup
      (last.labels.leave.behind (ls.take (n + 1))).lookup := by
  obtain ⟨start, after, s, hstart, hline, _, hrest⟩ := lines_at h hn
  obtain ⟨entered, full, sizes, hd, hsts, _⟩ := line_ok.1 hline
  obtain ⟨found', next, size, hfound, hplaced, _, hbehind⟩ := statements_at hsts hm
  cases hreach.symm.trans (reach_eq_some.2 ⟨l, start, _, entered, _, hn, hstart, hd, hfound⟩)
  -- No statement from here to the end of the line moves a label.
  have hplain : ∀ other ∈ l.statements.drop (m + 1), Directive.of? other.command ≠ some .move := by
    intro other ho
    rw [← List.drop_tail] at ho
    exact Line.movesInFront_iff.1 hfront other (List.mem_of_mem_drop ho)
  have hlabels : after.labels = found.labels :=
    (statements_labels hbehind hplain).trans
      ((step_of_statement hplaced).1.labels_of_not_move hst)
  obtain ⟨hgrow, _⟩ := lines_grow hrest
  rw [hlabels] at hgrow
  apply Label.Table.Extends.lookup
  · exact hgrow.of_entries (Label.Table.behind_entries _ _)
  · obtain ⟨hg, hfree, hscope⟩ := defineLabel_grows hd
    have hleave : ({} : Layout).labels.scope = last.labels.leave.scope := rfl
    calc found.labels.scope
        = entered.labels.scope := (statements_grow hfound hg hfree).2
      _ = (start.labels.enter l.label).scope := hscope
      _ = ((last.labels.leave.behind (ls.take n)).enter l.label).scope :=
        Label.Table.enter_scope_congr ((lines_grow hstart).2.trans
          (Label.Table.behind_scope_congr hleave _)) _
      _ = (last.labels.leave.behind (ls.take (n + 1))).scope := by
        rw [List.take_add_one, hn, ← Label.Table.behind_snoc]
        rfl

end Layout

end Asm6502
