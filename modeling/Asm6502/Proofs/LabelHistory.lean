-- A table of labels over its whole life. Labels are defined and moved, and scopes
-- are opened and closed, in any order and with any names. Whatever was done, a label
-- is found under its own name only, and at the address that it was given last.
import Asm6502.Label
import Asm6502.Proofs.Except

namespace Asm6502

namespace Label

namespace Table

/-! ## Entries by name -/

theorem get?_eq_none_iff {table : Table} {name : Text} :
    table.get? name = none ↔ name ∉ table.entries.map Entry.name := by
  simp [get?]

/-- If no two entries share a name, each of them is found under its own. -/
theorem get?_eq_some_iff {table : Table} (h : (table.entries.map Entry.name).Nodup) {name : Text}
    {entry : Entry} : table.get? name = some entry ↔ entry ∈ table.entries ∧ entry.name = name := by
  unfold get?
  constructor
  · intro hfind
    exact ⟨List.mem_of_find?_eq_some hfind, by simpa using List.find?_some hfind⟩
  · rintro ⟨hmem, rfl⟩
    generalize table.entries = entries at h hmem
    induction entries with
    | nil => cases hmem
    | cons first rest ih =>
      rw [List.map_cons, List.nodup_cons] at h
      rw [List.find?_cons]
      rcases List.mem_cons.1 hmem with rfl | hrest
      · simp
      · have hne : first.name ≠ entry.name := by
          intro heq
          exact h.1 (heq ▸ List.mem_map_of_mem hrest)
        simp only [beq_eq_false_iff_ne.2 hne]
        exact ih h.2 hrest

/-! ## What one step does -/

theorem enter_entries (table : Table) (name : Text) :
    (table.enter name).entries = table.entries := by
  unfold enter
  split
  · rfl
  · rfl

theorem enter_scope (table : Table) (name : Text) :
    (table.enter name).scope = if isGlobal name then name else table.scope := by
  unfold enter
  split
  · rfl
  · rfl

/-- What a definition that succeeds does: one entry is added under a full name that
was free, and only a global label opens a scope. -/
structure Adds (before : Table) (name : Text) (line : Int) (pc : UInt16) (full : Text)
    (table : Table) : Prop where
  qualified : before.qualify name = .ok full
  free : before.get? full = none
  entries : table.entries = before.entries ++ [{ name := full, line, address := .full pc }]
  added : table.get? full = some { name := full, line, address := .full pc }
  others : ∀ other ≠ full, table.get? other = before.get? other
  scope : table.scope = if isGlobal name then name else before.scope

/-- What a move that succeeds does: one entry gets another address. -/
structure Moves (before : Table) (full : Text) (address : Address) (table : Table) : Prop where
  moved : ∃ entry, before.get? full = some entry ∧ table.get? full = some { entry with address }
  others : ∀ other ≠ full, table.get? other = before.get? other
  names : table.entries.map Entry.name = before.entries.map Entry.name
  scope : table.scope = before.scope

theorem define_adds {before table : Table} {name full : Text} {line : Int} {pc : UInt16}
    (h : before.define name line pc = ⟨table, .ok full⟩) :
    before.Adds name line pc full table := by
  unfold define at h
  split at h
  · cases h
  · rename_i full' hq
    split at h
    · cases h
    · rename_i hfree
      cases h
      refine ⟨hq, hfree, enter_entries _ _, ?_, ?_, enter_scope _ _⟩
      · unfold get? at hfree ⊢
        rw [enter_entries, List.find?_append, hfree]
        simp
      · intro other hne
        unfold get?
        rw [enter_entries, List.find?_append]
        simp [hne.symm]

/-- A definition that is refused leaves the table as it was. The label has no full
name, or one that is taken. -/
theorem define_refused {before table : Table} {name : Text} {line : Int} {pc : UInt16}
    {fault : Fault} (h : before.define name line pc = ⟨table, .error fault⟩) :
    table = before ∧ ∀ full, before.qualify name = .ok full → before.get? full ≠ none := by
  unfold define at h
  split at h
  · rename_i hq
    cases h
    refine ⟨rfl, fun full hfull => ?_⟩
    cases hq.symm.trans hfull
  · rename_i full' hq
    split at h
    · rename_i prior hprior
      cases h
      refine ⟨rfl, fun full hfull hfree => ?_⟩
      cases hq.symm.trans hfull
      cases hprior.symm.trans hfree
    · cases h

theorem name_of_get? {table : Table} {name : Text} {entry : Entry}
    (h : table.get? name = some entry) : entry.name = name := by
  simpa using List.find?_some h

/-- The entry at another address, if it has the name. -/
def moved (full : Text) (address : Address) (entry : Entry) : Entry :=
  if entry.name == full then { entry with address } else entry

theorem moved_name (full : Text) (address : Address) (entry : Entry) :
    (moved full address entry).name = entry.name := by
  unfold moved
  split
  · rfl
  · rfl

/-- A move that is refused leaves the table as it was. -/
theorem fix_refused {before table : Table} {full : Text} {address : Address} {fault : Fault}
    (h : before.fix full address = ⟨table, .error fault⟩) :
    table = before ∧ before.get? full = none ∧ fault = .missing full := by
  unfold fix at h
  split at h
  · rename_i hnone
    cases h
    exact ⟨rfl, hnone, rfl⟩
  · cases h

theorem fix_moves {before table : Table} {full : Text} {address : Address}
    (h : before.fix full address = ⟨table, .ok ()⟩) : before.Moves full address table := by
  obtain ⟨⟨entry, hentry⟩, rfl⟩ : (∃ entry, before.get? full = some entry) ∧
      table = { before with entries := before.entries.map (moved full address) } := by
    unfold fix at h
    split at h
    · cases h
    · rename_i entry hentry
      cases h
      exact ⟨⟨entry, hentry⟩, rfl⟩
  -- Moving an entry keeps its name, so the same entry is found as before.
  have hfind (name : Text) :
      get? { before with entries := before.entries.map (moved full address) } name =
        (before.get? name).map (moved full address) := by
    unfold get?
    rw [List.find?_map]
    congr 2
    funext e
    simp [moved_name]
  refine ⟨⟨entry, hentry, ?_⟩, ?_, ?_, rfl⟩
  · rw [hfind, hentry]
    simp [moved, name_of_get? hentry]
  · intro other hne
    rw [hfind]
    cases hother : before.get? other with
    | none => rfl
    | some e => simp [moved, name_of_get? hother, hne]
  · simp [moved_name]

end Table

/-! ## Histories -/

/-- What can be done to a table. -/
inductive Action where
  | define (name : Text) (line : Int) (pc : UInt16)
  | fix (full : Text) (address : Address)
  | enter (name : Text)
  | leave
deriving DecidableEq, Repr

/-- What became of a table: how it is now, how many definitions have succeeded, and
the addresses that were given to full names, in order. -/
structure History where
  table : Table := {}
  defined : Nat := 0
  given : List (Text × Address) := []
deriving DecidableEq, Repr

namespace History

/-- One more action. The table is the one that the action leaves. -/
def act (history : History) : Action → History
  | .define name line pc =>
    match history.table.define name line pc with
    | { table, result := .ok full } =>
      { table, defined := history.defined + 1, given := history.given ++ [(full, .full pc)] }
    | { table, result := .error _ } => { history with table }
  | .fix full address =>
    match history.table.fix full address with
    | { table, result := .ok () } =>
      { history with table, given := history.given ++ [(full, address)] }
    | { table, result := .error _ } => { history with table }
  | .enter name => { history with table := history.table.enter name }
  | .leave => { history with table := history.table.leave }

/-- The history of actions on an empty table. -/
def of (actions : List Action) : History := actions.foldl act {}

/-- The address that a full name was given last. -/
def last? (history : History) (full : Text) : Option Address := history.given.reverse.lookup full

/-- What holds of a table at any time. -/
structure Sound (history : History) : Prop where
  distinct : (history.table.entries.map Entry.name).Nodup
  scope : history.table.scope = [] ∨ isGlobal history.table.scope = true
  length : history.table.entries.length = history.defined
  addresses : ∀ full, (history.table.get? full).map Entry.address = history.last? full

theorem last?_snoc (history : History) {next : History} {full : Text} {address : Address}
    (h : next.given = history.given ++ [(full, address)]) (name : Text) :
    next.last? name = if name = full then some address else history.last? name := by
  unfold last?
  rw [h, List.reverse_append, List.reverse_singleton, List.singleton_append, List.lookup_cons]
  by_cases hn : name = full
  · simp [hn]
  · simp [hn, beq_eq_false_iff_ne.2 hn]

theorem sound_empty : ({} : History).Sound := by
  refine ⟨List.nodup_nil, Or.inl rfl, rfl, ?_⟩
  intro full
  rfl

/-- The scope stays empty or global, whatever name is entered. -/
theorem scope_or_global {table : Table} (h : table.scope = [] ∨ isGlobal table.scope = true)
    {next : Table} {name : Text}
    (hn : next.scope = if isGlobal name then name else table.scope) :
    next.scope = [] ∨ isGlobal next.scope = true := by
  rw [hn]
  split
  · right
    assumption
  · exact h

theorem Sound.define {history : History} {table : Table} {name full : Text} {line : Int}
    {pc : UInt16} (h : history.Sound) (hadds : history.table.Adds name line pc full table) :
    Sound { table, defined := history.defined + 1,
            given := history.given ++ [(full, .full pc)] } := by
  refine ⟨?_, scope_or_global h.scope hadds.scope, ?_, ?_⟩
  · have hfree := Table.get?_eq_none_iff.1 hadds.free
    simp only [hadds.entries, List.map_append, List.map_singleton]
    rw [List.nodup_append]
    refine ⟨h.distinct, by simp, ?_⟩
    intro a ha b hb heq
    rw [List.mem_singleton.1 hb] at heq
    exact hfree (heq ▸ ha)
  · simp [hadds.entries, h.length]
  · intro other
    rw [last?_snoc history rfl]
    split
    · rename_i heq
      simp [heq, hadds.added]
    · rename_i hne
      simp only [hadds.others other hne]
      exact h.addresses other

theorem Sound.fix {history : History} {table : Table} {full : Text} {address : Address}
    (h : history.Sound) (hmoves : history.table.Moves full address table) :
    Sound { history with table, given := history.given ++ [(full, address)] } := by
  refine ⟨?_, ?_, ?_, ?_⟩
  · simp only [hmoves.names]
    exact h.distinct
  · simp only [hmoves.scope]
    exact h.scope
  · have hlength := congrArg List.length hmoves.names
    rw [List.length_map, List.length_map] at hlength
    exact hlength.trans h.length
  · intro other
    rw [last?_snoc history rfl]
    split
    · rename_i heq
      obtain ⟨entry, _, hmoved⟩ := hmoves.moved
      simp [heq, hmoved]
    · rename_i hne
      simp only [hmoves.others other hne]
      exact h.addresses other

/-- No action breaks what holds of a table. -/
theorem Sound.act {history : History} (h : history.Sound) (action : Action) :
    (history.act action).Sound := by
  cases action with
  | define name line pc =>
    simp only [History.act]
    split
    · rename_i table full hdefine
      exact h.define (Table.define_adds hdefine)
    · rename_i table fault hdefine
      rwa [(Table.define_refused hdefine).1]
  | fix full address =>
    simp only [History.act]
    split
    · rename_i table hfix
      exact h.fix (Table.fix_moves hfix)
    · rename_i table fault hfix
      rwa [(Table.fix_refused hfix).1]
  | enter name =>
    have hentries := Table.enter_entries history.table name
    refine ⟨?_, scope_or_global h.scope (Table.enter_scope _ name), ?_, ?_⟩
    · simp only [History.act, hentries]
      exact h.distinct
    · simp only [History.act, hentries]
      exact h.length
    · intro full
      simp only [History.act, Table.get?, hentries]
      exact h.addresses full
  | leave => exact ⟨h.distinct, Or.inl rfl, h.length, h.addresses⟩

theorem Sound.run {history : History} (h : history.Sound) (actions : List Action) :
    (actions.foldl History.act history).Sound := by
  induction actions generalizing history with
  | nil => exact h
  | cons action rest ih => exact ih (h.act action)

theorem sound_of (actions : List Action) : (of actions).Sound := sound_empty.run actions

/-! ## References -/

/-- A reference is at the address that its full name was given last. -/
theorem Sound.lookup_eq {history : History} (h : history.Sound) (name : Text) :
    history.table.lookup name = history.table.qualify name >>= fun full =>
      (history.last? full).elim (.error (.missing full)) .ok := by
  unfold Table.lookup
  congr 1
  funext full
  rw [← h.addresses full]
  cases history.table.get? full with
  | none => rfl
  | some entry => rfl

/-! ## Definitions and moves in a history -/

/-- What comes of a definition. It is refused if the label has no full name or one that
is taken, and then nothing changes; otherwise the label is added. -/
inductive Defines (history : History) (name : Text) (line : Int) (pc : UInt16) : Prop
  | refused (fault : Fault)
      (refuses : history.table.define name line pc = ⟨history.table, .error fault⟩)
      (taken : ∀ full, history.table.qualify name = .ok full → history.table.get? full ≠ none)
      (same : history.act (.define name line pc) = history)
  | added (full : Text) (table : Table)
      (defines : history.table.define name line pc = ⟨table, .ok full⟩)
      (next : (history.act (.define name line pc)).table = table)
      (adds : history.table.Adds name line pc full table)

/-- What comes of a move. It is refused if nothing has the name, and then nothing
changes; otherwise the label is moved. -/
inductive Fixes (history : History) (full : Text) (address : Address) : Prop
  | refused
      (refuses : history.table.fix full address = ⟨history.table, .error (.missing full)⟩)
      (absent : history.table.get? full = none)
      (same : history.act (.fix full address) = history)
  | moved (table : Table) (fixes : history.table.fix full address = ⟨table, .ok ()⟩)
      (next : (history.act (.fix full address)).table = table)
      (moves : history.table.Moves full address table)

theorem defines (history : History) (name : Text) (line : Int) (pc : UInt16) :
    history.Defines name line pc := by
  obtain ⟨table, result, h⟩ : ∃ table result,
      history.table.define name line pc = ⟨table, result⟩ := ⟨_, _, rfl⟩
  cases result with
  | error fault =>
    obtain ⟨rfl, htaken⟩ := Table.define_refused h
    exact .refused fault h htaken (by simp only [act, h])
  | ok full => exact .added full table h (by simp only [act, h]) (Table.define_adds h)

theorem fixes (history : History) (full : Text) (address : Address) :
    history.Fixes full address := by
  obtain ⟨table, result, h⟩ : ∃ table result,
      history.table.fix full address = ⟨table, result⟩ := ⟨_, _, rfl⟩
  cases result with
  | error fault =>
    obtain ⟨rfl, habsent, rfl⟩ := Table.fix_refused h
    exact .refused h habsent (by simp only [act, h])
  | ok => exact .moved table h (by simp only [act, h]) (Table.fix_moves h)

end History

/-- Whatever was done to a table, no two entries share a name and each one is stored
under its own, the open scope is a global label or nothing, and there are as many
entries as definitions that succeeded. What fails changes nothing, a definition adds
one entry, and a move changes one address. So a reference is at the address that its
full name was given last. -/
theorem labels_are_where_they_were_put_last {actions : List Action} {history : History}
    (h : History.of actions = history) :
    history.Sound ∧
    (∀ full entry, history.table.get? full = some entry ↔
      entry ∈ history.table.entries ∧ entry.name = full) ∧
    (∀ name line pc, history.Defines name line pc) ∧
    (∀ full address, history.Fixes full address) ∧
    ∀ name, history.table.lookup name = history.table.qualify name >>= fun full =>
      (history.last? full).elim (.error (.missing full)) .ok := by
  subst h
  have hsound := History.sound_of actions
  refine ⟨hsound, ?_, History.defines _, History.fixes _, hsound.lookup_eq⟩
  intro full entry
  exact Table.get?_eq_some_iff hsound.distinct

/-- A routine whose local label is moved, another one with the same local label, a name
that is used twice, and a return to the first routine. -/
def twoLoops : List Action :=
  [.define (ascii "MAIN") 1 0x8000, .define (ascii ".loop") 2 0x8002,
    .define (ascii "#macro_0") 3 0x8004, .fix (ascii "MAIN.loop") (.zeroPage 0x20),
    .define (ascii "SUB") 4 0x8010, .define (ascii ".loop") 5 0x8012,
    .define (ascii "MAIN") 6 0x8014, .leave, .enter (ascii "MAIN")]

theorem twoLoops_are_where_they_were_put_last :
    (History.of twoLoops).defined = 5 ∧ (History.of twoLoops).table.entries.length = 5 ∧
    (History.of twoLoops).table.lookup (ascii ".loop") = .ok (.zeroPage 0x20) ∧
    (History.of twoLoops).table.lookup (ascii "SUB.loop") = .ok (.full 0x8012) := by
  obtain ⟨hsound, _, _, _, hlookup⟩ :=
    labels_are_where_they_were_put_last (Eq.refl (History.of twoLoops))
  have hdefined : (History.of twoLoops).defined = 5 := by decide +kernel
  refine ⟨hdefined, hsound.length.trans hdefined, ?_, ?_⟩
  · rw [hlookup]
    decide +kernel
  · rw [hlookup]
    decide +kernel

end Label

end Asm6502
