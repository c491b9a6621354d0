-- What an assembly may say about labels. A fault that it reports comes from a
-- name in an operand or from the label of a line. While lines are placed, the
-- generated labels that have an address are those of the lines so far, and
-- only `*`, `:` and `$` need the address of a name at once.
import Asm6502.Proofs.LabelGrowth

namespace Asm6502

/-- The label fault that an error tells, wherever it is located. -/
def Error.fault? : Error → Option Label.Fault
  | .located _ _ _ cause => cause.fault?
  | .value (.label fault) | .label fault => some fault
  | _ => none

theorem Error.fault?_value {cause : ValueError} {fault : Label.Fault}
    (h : (Error.value cause).fault? = some fault) : cause = .label fault := by
  cases cause with
  | label => exact congrArg _ (Option.some.inj h)
  | divideByZero | notAnAddress | notEvaluable | operator => cases h

/-! ## Names in expressions -/

namespace Expr

variable {labels : Label.View} {fault : Label.Fault}

theorem lookup_fault {name : Text} (h : lookup labels name = .error (.label fault)) :
    labels name = .error fault := by
  obtain ⟨fault', hf, heq⟩ := Except.mapError_eq_error.1 h
  cases heq
  exact hf

theorem combine_fault {op : Operator} {left right : Address} :
    Address.combine op left right ≠ .error (.label fault) := by
  unfold Address.combine
  split
  · split <;> simp
  · simp
  · simp

/-- An expression has no address because of a label only if one of its names has
none. -/
theorem address_fault {e : Expr} (h : e.address labels = .error (.label fault)) :
    ∃ name ∈ e.names, labels name = .error fault := by
  induction e with
  | ident name => exact ⟨name, List.mem_singleton.2 rfl, lookup_fault h⟩
  | paren e ih => exact ih h
  | highByte e ih | lowByte e ih =>
    rcases Except.bind_eq_error.1 h with h | ⟨_, _, h⟩
    · exact ih h
    · cases h
  | binary left op right ihl ihr =>
    rcases Except.bind_eq_error.1 h with h | ⟨l, _, h⟩
    · obtain ⟨name, hn, hf⟩ := ihl h
      exact ⟨name, List.mem_append_left _ hn, hf⟩
    · rcases Except.bind_eq_error.1 h with h | ⟨r, _, h⟩
      · obtain ⟨name, hn, hf⟩ := ihr h
        exact ⟨name, List.mem_append_right _ hn, hf⟩
      · exact absurd h combine_fault
  | decimal | byte | word | empty | string | bracket | system => cases h

theorem value_fault {pc : UInt16} {e : Expr} (h : e.value labels pc = .error (.label fault)) :
    ∃ name ∈ e.names, labels name = .error fault := by
  induction e with
  | ident name =>
    rcases Except.bind_eq_error.1 h with h | ⟨_, _, h⟩
    · exact ⟨name, List.mem_singleton.2 rfl, lookup_fault h⟩
    · cases h
  | paren e ih => exact ih h
  | highByte e ih | lowByte e ih =>
    rcases Except.bind_eq_error.1 h with h | ⟨_, _, h⟩
    · exact ih h
    · cases h
  | binary left op right ihl ihr =>
    rcases Except.bind_eq_error.1 h with h | ⟨l, _, h⟩
    · obtain ⟨name, hn, hf⟩ := ihl h
      exact ⟨name, List.mem_append_left _ hn, hf⟩
    · rcases Except.bind_eq_error.1 h with h | ⟨r, _, h⟩
      · obtain ⟨name, hn, hf⟩ := ihr h
        exact ⟨name, List.mem_append_right _ hn, hf⟩
      · split at h
        · cases h
        · split at h <;> cases h
  | system run =>
    rw [value] at h
    split at h <;> cases h
  | decimal | byte | word | empty | string | bracket => cases h

end Expr

/-! ## Faults of encoding -/

/-- A fault that the error tells is that of a name. -/
def Blames (labels : Label.View) (e : Error) : Prop :=
  ∀ fault, e.fault? = some fault → ∃ name, labels name = .error fault

section Blames

variable {labels : Label.View} {pc : UInt16}

theorem blames_of_none {e : Error} (h : e.fault? = none) : Blames labels e := by
  intro fault hf
  rw [h] at hf
  cases hf

theorem value_blames (e : Expr) :
    ((e.value labels pc).mapError Error.value).ErrorIs (Blames labels) := by
  intro error h fault hf
  obtain ⟨cause, hc, rfl⟩ := Except.mapError_eq_error.1 h
  obtain ⟨name, _, hn⟩ := Expr.value_fault (Error.fault?_value hf ▸ hc)
  exact ⟨name, hn⟩

namespace Directive

theorem valueCodes_blames (item : Expr) (width : Nat) (value : UInt16) :
    (valueCodes item width value).ErrorIs (Blames labels) := by
  unfold valueCodes
  split
  · split
    · exact Except.errorIs_ok _
    · exact Except.errorIs_error (blames_of_none rfl)
  · exact Except.errorIs_ok _

theorem dataWidth_quiet (item : Expr) : (dataWidth item).ErrorIs (Error.fault? · = none) := by
  cases item with
  | decimal n =>
    simp only [dataWidth]
    split
    · exact Except.errorIs_ok _
    · exact Except.errorIs_error rfl
  | empty | paren | bracket | system => exact Except.errorIs_error rfl
  | _ => exact Except.errorIs_ok _

/-- The size of data needs no label. -/
theorem dataLength_quiet (operand : Expr) :
    (dataLength operand).ErrorIs (Error.fault? · = none) :=
  (Except.errorIs_mapM fun item _ => dataWidth_quiet item).bind fun _ _ => Except.errorIs_ok _

theorem itemCodes_blames (item : Expr) :
    (itemCodes labels pc item).ErrorIs (Blames labels) := by
  unfold itemCodes
  split
  · exact Except.errorIs_ok _
  · refine Except.ErrorIs.bind (fun e h => blames_of_none (dataWidth_quiet item e h)) ?_
    intro width _
    exact (value_blames item).bind fun value _ => valueCodes_blames item width value

theorem dataCodes_blames (operand : Expr) :
    (dataCodes labels pc operand).ErrorIs (Blames labels) :=
  (Except.errorIs_mapM fun item _ => itemCodes_blames item).bind fun _ _ => Except.errorIs_ok _

theorem fillWidth_quiet (value : Expr) : (fillWidth value).ErrorIs (Error.fault? · = none) := by
  cases value with
  | empty | string | paren | bracket | system => exact Except.errorIs_error rfl
  | _ => exact Except.errorIs_ok _

theorem fillOf_blames (operand : Expr) : (fillOf labels pc operand).ErrorIs (Blames labels) := by
  unfold fillOf
  split
  · refine Except.ErrorIs.bind (fun e h => blames_of_none (fillWidth_quiet _ e h)) fun _ _ => ?_
    exact (value_blames _).bind fun _ _ => Except.errorIs_ok _
  · exact Except.errorIs_error (blames_of_none rfl)

theorem fillCodes_blames (operand : Expr) :
    (fillCodes labels pc operand).ErrorIs (Blames labels) := by
  unfold fillCodes
  refine (fillOf_blames operand).bind fun fill _ => (value_blames fill.value).bind fun value _ => ?_
  split
  · exact Except.errorIs_ok _
  · exact (valueCodes_blames _ _ _).bind fun _ _ => Except.errorIs_ok _

end Directive

namespace Emit

theorem operandValue_blames (operand : Operand) :
    (operandValue labels pc operand).ErrorIs (Blames labels) := by
  cases operand with
  | byte | word | target => exact Except.errorIs_ok _
  | label name =>
    intro error h fault hf
    obtain ⟨cause, hc, rfl⟩ := Except.mapError_eq_error.1 h
    cases hf
    exact ⟨name, Except.map_eq_error.1 hc⟩
  | expr e => exact value_blames e
  | none => exact Except.errorIs_error (blames_of_none rfl)

theorem encoded_blames (st : Statement) (size : Sizing) (i : Instruction) :
    (encoded labels st size i).ErrorIs (Blames labels) := by
  unfold encoded
  refine Except.ErrorIs.bind (Except.errorIs_mapError _ fun _ => blames_of_none rfl) fun _ _ => ?_
  split
  · exact Except.errorIs_ok _
  · refine (operandValue_blames i.operand).bind fun value _ => Except.ErrorIs.bind ?_ fun _ _ =>
      Except.errorIs_ok _
    exact operandCodes_errorIs (fun _ => blames_of_none rfl) fun _ => blames_of_none rfl

theorem instructionCodes_blames (st : Statement) (size : Sizing) :
    (instructionCodes labels st size).ErrorIs (Blames labels) := by
  rw [instructionCodes_eq]
  refine Except.ErrorIs.bind (Except.errorIs_mapError _ fun _ => blames_of_none rfl) fun _ _ => ?_
  exact (fitted_errorIs (blames_of_none rfl) _ _).bind fun i _ => encoded_blames st size i

/-- Encoding a statement tells no fault but that of a name. -/
theorem statement_blames (st : Statement) (size : Sizing) :
    (statement labels st size).ErrorIs (Blames labels) := by
  unfold statement
  refine Except.ErrorIs.bind ?_ fun codes _ => ?_
  · unfold statementCodes
    split
    · exact Except.errorIs_ok _
    · exact Except.errorIs_ok _
    · exact Directive.dataCodes_blames st.operand
    · exact Directive.fillCodes_blames st.operand
    · exact instructionCodes_blames st size
  · split
    · exact Except.errorIs_ok _
    · exact Except.errorIs_error (blames_of_none rfl)

end Emit

end Blames

/-! ## Generated labels in the table -/

theorem Label.isLocal_of_isGenerated {name : Text} (h : isGenerated name = true) :
    isLocal name = false := by
  obtain ⟨rest, rfl⟩ := List.isPrefixOf_iff_prefix.1 h
  have hstart : generatedStart.head? = some 0x23 := by decide +kernel
  rw [isLocal, List.head?_append, hstart, Option.some_or]
  decide

namespace Label.Table

theorem qualify_eq_error {table : Table} {name : Text} {fault : Fault}
    (h : table.qualify name = .error fault) : fault = .scopeless name := by
  unfold qualify at h
  split at h
  · split at h
    · cases h
      rfl
    · cases h
  · cases h

theorem lookup_eq_error {table : Table} {name : Text} {fault : Fault}
    (h : table.lookup name = .error fault) :
    fault = .scopeless name ∨
      ∃ full, table.qualify name = .ok full ∧ table.get? full = none ∧ fault = .missing full := by
  rcases Except.bind_eq_error.1 h with h | ⟨full, hq, h⟩
  · exact .inl (qualify_eq_error h)
  · split at h
    · cases h
    · rename_i hg
      cases h
      exact .inr ⟨full, hq, hg, rfl⟩

theorem define_eq_error {table : Table} {name : Text} {line : Int} {address : UInt16}
    {fault : Fault} (h : (table.define name line address).result = .error fault) :
    fault = .scopeless name ∨ ∃ full prior, table.qualify name = .ok full ∧
      table.get? full = some prior ∧ fault = .duplicate full line prior.line := by
  unfold define at h
  split at h
  · rename_i hq
    cases h
    exact .inl (qualify_eq_error hq)
  · rename_i full hq
    split at h
    · rename_i prior hg
      cases h
      exact .inr ⟨full, prior, hq, hg, rfl⟩
    · cases h

/-- A definition adds just one name. -/
theorem define_isSome {a b : Table} {name full : Text} {line : Int} {address : UInt16}
    (h : a.define name line address = ⟨b, .ok full⟩) :
    a.qualify name = .ok full ∧
      ∀ other, (b.get? other).isSome ↔ (a.get? other).isSome ∨ full = other := by
  have hadds := define_adds h
  refine ⟨hadds.qualified, fun other => ?_⟩
  by_cases hne : other = full
  · simp [hne, hadds.added]
  · simp [hadds.others other hne, Ne.symm hne]

theorem fix_isSome {a b : Table} {full : Text} {address : Address}
    (h : a.fix full address = ⟨b, .ok ()⟩) (other : Text) :
    (b.get? other).isSome = (a.get? other).isSome := by
  have hmoves := fix_moves h
  by_cases hne : other = full
  · obtain ⟨entry, hbefore, hafter⟩ := hmoves.moved
    rw [hne, hbefore, hafter]
    rfl
  · rw [hmoves.others other hne]

theorem isPrefixOf_scope {start scope rest : Text} {b : UInt8} (hb : b ∉ start)
    (h : start <+: scope ++ b :: rest) : start <+: scope := by
  rcases List.prefix_or_prefix_of_prefix h (List.prefix_append scope (b :: rest)) with h' | ⟨q, rfl⟩
  · exact h'
  · cases q with
    | nil => simp
    | cons c q =>
      rw [List.prefix_append_right_inj, List.cons_prefix_cons] at h
      exact absurd (by simp [h.1]) hb

/-- There is no dot in the start of generated labels, so no scope in front of a
local label makes a generated one of it. -/
theorem qualify_generated {table : Table} (hs : isGenerated table.scope = false) {name full : Text}
    (h : table.qualify name = .ok full) (hf : isGenerated full = true) : full = name := by
  unfold qualify at h
  split at h
  · rename_i hlocal
    split at h
    · cases h
    · cases h
      obtain ⟨rest, rfl⟩ : ∃ rest, name = Ascii.dot :: rest := by
        simpa [isLocal, List.head?_eq_some_iff] using hlocal
      have hdot : Ascii.dot ∉ generatedStart := by decide +kernel
      have := isPrefixOf_scope hdot (List.isPrefixOf_iff_prefix.1 hf)
      rw [isGenerated, startsWith, List.isPrefixOf_iff_prefix.2 this] at hs
      cases hs
  · cases h
    rfl

/-- Two tables in one scope with the same names. -/
def SameNames (a b : Table) : Prop :=
  a.scope = b.scope ∧ ∀ name, (a.get? name).isSome = (b.get? name).isSome

theorem SameNames.refl (a : Table) : a.SameNames a := ⟨rfl, fun _ => rfl⟩

theorem SameNames.trans {a b c : Table} (hab : a.SameNames b) (hbc : b.SameNames c) :
    a.SameNames c :=
  ⟨hab.1.trans hbc.1, fun name => (hab.2 name).trans (hbc.2 name)⟩

end Label.Table

/-! ## Lines so far -/

/-- The generated labels in the table are those of some lines, and none of them
is a scope. -/
structure Label.Table.Tracks (table : Label.Table) (lines : List Line) : Prop where
  scope : Label.isGenerated table.scope = false
  names : ∀ name, Label.isGenerated name = true →
    ((table.get? name).isSome ↔ name ∈ lines.map Line.label)

namespace Label.Table.Tracks

variable {table : Label.Table} {lines : List Line}

theorem of_sameNames {other : Label.Table} (h : table.Tracks lines) (hs : table.SameNames other) :
    other.Tracks lines :=
  ⟨hs.1 ▸ h.scope, fun name hn => hs.2 name ▸ h.names name hn⟩

theorem enter_scope (h : table.Tracks lines) (label : Text) :
    Label.isGenerated (table.enter label).scope = false := by
  unfold Label.Table.enter
  split
  · rename_i hg
    simp only [Label.isGlobal, Bool.and_eq_true, Bool.not_eq_true'] at hg
    exact hg.2
  · exact h.scope

/-- A name that is missing is no label of the lines. -/
theorem not_mem_of_missing (h : table.Tracks lines) {name full : Text}
    (hn : Label.isGenerated full = true) (hl : table.lookup name = .error (.missing full)) :
    full = name ∧ full ∉ lines.map Line.label := by
  rcases Label.Table.lookup_eq_error hl with heq | ⟨_, hq, hg, heq⟩
  · cases heq
  · cases heq
    refine ⟨Label.Table.qualify_generated h.scope hq hn, ?_⟩
    rw [← h.names full hn, hg]
    simp

end Label.Table.Tracks

namespace Layout

theorem defineLabel_tracks {layout entered : Layout} {front : List Line} {l : Line} {label : Text}
    (hf : layout.labels.Tracks front) (h : layout.defineLabel l = .ok (entered, label)) :
    entered.labels.Tracks (front ++ [l]) ∧
      (label ≠ [] → (entered.labels.get? label).isSome = true) := by
  have hscope := (defineLabel_grows h).2.2
  unfold defineLabel at h
  split at h
  · rename_i hempty
    obtain ⟨rfl, rfl⟩ := Prod.mk.inj (Except.ok.inj h)
    refine ⟨⟨hf.scope, fun name hn => ?_⟩, fun hne => absurd rfl hne⟩
    have hne : name ≠ l.label := by
      rintro rfl
      rw [List.isEmpty_iff.1 hempty] at hn
      cases hn
    rw [hf.names name hn]
    simp [hne]
  · split at h
    · cases h
    · rename_i labels full hd
      obtain ⟨rfl, rfl⟩ := Prod.mk.inj (Except.ok.inj h)
      obtain ⟨hq, hnames⟩ := Label.Table.define_isSome hd
      refine ⟨⟨hscope ▸ hf.enter_scope l.label, fun name hn => ?_⟩, fun _ => ?_⟩
      · rw [hnames, hf.names name hn, List.map_append, List.mem_append, List.map_singleton,
          List.mem_singleton]
        refine or_congr_right ⟨?_, ?_⟩
        · rintro rfl
          exact Label.Table.qualify_generated hf.scope hq hn
        · rintro rfl
          rw [Label.Table.qualify, Label.isLocal_of_isGenerated hn] at hq
          exact (Except.ok.inj hq).symm
      · exact (hnames full).2 (.inr rfl)

theorem Step.sameNames {layout next : Layout} {label : Text} {st : Statement} {length : Nat}
    (h : Step layout label st next length) : layout.labels.SameNames next.labels := by
  cases h with
  | move _ _ _ fixed =>
    exact ⟨(Label.Table.fix_moves fixed).scope.symm,
      fun name => (Label.Table.fix_isSome fixed name).symm⟩
  | origin | data | fill | instruction => exact .refl _

theorem statements_sameNames {layout last : Layout} {label : Text} {sts : List Statement}
    {sizes : List Sizing} (h : layout.statements label sts = (last, .ok sizes)) :
    layout.labels.SameNames last.labels := by
  induction sts generalizing layout sizes with
  | nil =>
    rw [← (Prod.mk.inj h).1]
    exact .refl _
  | cons st sts ih =>
    obtain ⟨next, size, others, hs, hr, rfl⟩ := statements_cons_ok.1 h
    exact (step_of_statement hs).1.sameNames.trans (ih hr)

/-- What a table says of lines is kept by lines that are placed, if only the names
in the table and its scope count and each definition keeps it. -/
theorem lines_keep {Says : Label.Table → List Line → Prop}
    (hnames : ∀ {a b ls}, Says a ls → a.SameNames b → Says b ls)
    (hdefine : ∀ {layout entered : Layout} {front l label}, Says layout.labels front →
      layout.defineLabel l = .ok (entered, label) → Says entered.labels (front ++ [l]))
    {layout last : Layout} {front ls : List Line} {sized : List SizedLine}
    (hf : Says layout.labels front) (h : layout.lines ls = (last, .ok sized)) :
    Says last.labels (front ++ ls) := by
  induction ls generalizing layout front sized with
  | nil =>
    rw [List.append_nil, ← (Prod.mk.inj h).1]
    exact hf
  | cons l ls ih =>
    obtain ⟨next, first, others, hl, hr, rfl⟩ := lines_cons_ok.1 h
    obtain ⟨entered, label, sizes, hd, hs, _⟩ := line_ok.1 hl
    have := ih (hnames (hdefine hf hd) (statements_sameNames hs)) hr
    rwa [List.append_assoc] at this

theorem lines_tracks {layout last : Layout} {front ls : List Line} {sized : List SizedLine}
    (hf : layout.labels.Tracks front) (h : layout.lines ls = (last, .ok sized)) :
    last.labels.Tracks (front ++ ls) :=
  lines_keep (fun ht hs => ht.of_sameNames hs) (fun ht hd => (defineLabel_tracks ht hd).1) hf h

/-! ## Faults of the layout -/

/-- The addresses of the names in its operand are needed where the statement is
placed: it is a `*`, a `:` or a `$`. -/
def NeedsAddresses (st : Statement) : Prop :=
  Directive.of? st.command = some .origin ∨ Directive.of? st.command = some .move ∨
    Directive.of? st.command = some .fill

/-- A computation that is made only once the program counter is set fails like that
one, or because it is not. -/
theorem placed_eq_error {layout : Layout} {length : Except Error Nat} {e : Error}
    (h : layout.placed length = .error e) : e = .addressNotSet ∨ length = .error e := by
  unfold placed at h
  split at h
  · rcases Except.bind_eq_error.1 h with h | ⟨_, _, h⟩
    · exact .inr h
    · cases h
  · cases h
    exact .inl rfl

theorem fillOf_fault {labels : Label.View} {pc : UInt16} {operand : Expr} {e : Error}
    {fault : Label.Fault} (h : Directive.fillOf labels pc operand = .error e)
    (hf : e.fault? = some fault) : ∃ name ∈ operand.names, labels name = .error fault := by
  unfold Directive.fillOf at h
  split at h
  · rcases Except.bind_eq_error.1 h with h | ⟨_, _, h⟩
    · rw [Directive.fillWidth_quiet _ e h] at hf
      cases hf
    · rcases Except.bind_eq_error.1 h with h | ⟨_, _, h⟩
      · obtain ⟨cause, hc, rfl⟩ := Except.mapError_eq_error.1 h
        obtain ⟨name, hn, hf⟩ := Expr.value_fault (Error.fault?_value hf ▸ hc)
        exact ⟨name, List.mem_append_right _ hn, hf⟩
      · cases h
  · cases h
    cases hf

theorem reserve_fault {layout : Layout} {label : Text} {st : Statement} {e : Error}
    {fault : Label.Fault} (h : layout.reserve label st = .error e) (hf : e.fault? = some fault)
    (hlabel : label ≠ [] → (layout.labels.get? label).isSome = true) :
    NeedsAddresses st ∧ ∃ name ∈ st.operand.names, layout.labels.lookup name = .error fault := by
  unfold reserve at h
  split at h
  · rename_i hc
    rcases Except.bind_eq_error.1 h with h | ⟨_, _, h⟩
    · obtain ⟨cause, he, rfl⟩ := Except.mapError_eq_error.1 h
      exact ⟨.inl hc, Expr.value_fault (Error.fault?_value hf ▸ he)⟩
    · cases h
  · rename_i hc
    split at h
    · cases h
      cases hf
    · rename_i hl
      rcases Except.bind_eq_error.1 h with h | ⟨_, _, h⟩
      · obtain ⟨cause, he, rfl⟩ := Except.mapError_eq_error.1 h
        exact ⟨.inr (.inl hc), Expr.address_fault (Error.fault?_value hf ▸ he)⟩
      · split at h
        · -- The label of the line is defined, so it can be moved.
          rename_i hfix
          have hdefined := hlabel (by simpa using hl)
          rw [(Label.Table.fix_refused hfix).2.1] at hdefined
          cases hdefined
        · cases h
  · rcases placed_eq_error h with rfl | h
    · cases hf
    · rw [Directive.dataLength_quiet _ e h] at hf
      cases hf
  · rename_i hc
    rcases placed_eq_error h with rfl | h
    · cases hf
    · exact ⟨.inr (.inr hc), fillOf_fault (Except.map_eq_error.1 h) hf⟩
  · rcases placed_eq_error h with rfl | h
    · cases hf
    · obtain ⟨_, _, rfl⟩ := Except.mapError_eq_error.1 h
      cases hf

/-- Placing a statement of a line whose label is defined tells no fault but that
of a name in its operand, and only where addresses are needed at once. -/
theorem statement_fault {layout : Layout} {label : Text} {st : Statement} {e : Error}
    {fault : Label.Fault} (h : layout.statement label st = .error e) (hf : e.fault? = some fault)
    (hlabel : label ≠ [] → (layout.labels.get? label).isSome = true) :
    NeedsAddresses st ∧ ∃ name ∈ st.operand.names, layout.labels.lookup name = .error fault := by
  rcases Except.bind_eq_error.1 h with h | ⟨⟨next, length⟩, _, h⟩
  · exact reserve_fault h hf hlabel
  · simp only at h
    split at h
    · cases h
      cases hf
    · cases h

end Layout

/-! ## Whole assemblies -/

/-- The error is located at the line. -/
def Error.IsAt (e : Error) (line : Line) : Prop :=
  ∃ cause, e = .located line.file line.number line.text cause

/-- A statement of a line before which all lines were placed, with a name that
is at fault there: its address is needed at once. -/
structure Layout.FailsEarly (front : List Line) (line : Line) (fault : Label.Fault)
    (st : Statement) (name : Text) (labels : Label.Table) : Prop where
  statement : st ∈ line.statements
  needs : NeedsAddresses st
  named : name ∈ st.operand.names
  tracks : labels.Tracks (front ++ [line])
  lookup : labels.lookup name = .error fault

theorem Label.Table.tracks_empty : ({} : Label.Table).Tracks [] := by
  refine ⟨by decide +kernel, fun name _ => ?_⟩
  simp [Label.Table.get?]

/-- The generated labels of a layout that succeeds are those of its lines. -/
theorem Layout.tracks_lines {lines : List Line} {layout : Layout} {sized : List SizedLine}
    (h : Layout.lines {} lines = (layout, .ok sized)) : layout.labels.Tracks lines := by
  have hempty : ({} : Layout).labels.Tracks [] := Label.Table.tracks_empty
  have := lines_tracks hempty h
  rwa [List.nil_append] at this

/-- A fault of the layout is that of a label that cannot be defined, or of a
name whose address is needed at once. -/
theorem Layout.lines_fault {lines : List Line} {last : Layout} {e : Error} {fault : Label.Fault}
    (h : Layout.lines {} lines = (last, .error e)) (hf : e.fault? = some fault) :
    ∃ front line back, lines = front ++ line :: back ∧ e.IsAt line ∧
      ((∃ (labels : Label.Table) (address : UInt16), labels.Tracks front ∧
        (labels.define line.label line.number address).result = .error fault) ∨
      ∃ st name labels, FailsEarly front line fault st name labels) := by
  obtain ⟨front, line, back, start, sized, rfl, hfront, hline⟩ := lines_eq_error h
  have htracks := tracks_lines hfront
  obtain ⟨cause, rfl, hcause⟩ := line_eq_error hline
  refine ⟨front, line, back, rfl, ⟨cause, rfl⟩, ?_⟩
  rcases hcause with hd | ⟨entered, label, before, st, behind, sizes, hd, hsts, hbefore, hst⟩
  · left
    unfold defineLabel at hd
    split at hd
    · cases hd
    · split at hd
      · rename_i hdefine
        cases hd
        cases hf
        exact ⟨_, _, htracks, congrArg Label.Table.Change.result hdefine⟩
      · cases hd
  · right
    obtain ⟨hentered, hlabel⟩ := defineLabel_tracks htracks hd
    have hsame := statements_sameNames hbefore
    have hdefined : label ≠ [] → (last.labels.get? label).isSome = true := by
      intro hne
      rw [← hsame.2]
      exact hlabel hne
    obtain ⟨hneeds, name, hname, hlookup⟩ := statement_fault hst hf hdefined
    exact ⟨st, name, last.labels, by rw [hsts]; simp, hneeds, hname, hentered.of_sameNames hsame,
      hlookup⟩

namespace Label.Table.Tracks

theorem of_entries {a b : Label.Table} {lines : List Line} (h : a.Tracks lines)
    (he : b.entries = a.entries) (hs : Label.isGenerated b.scope = false) : b.Tracks lines := by
  refine ⟨hs, fun name hn => ?_⟩
  rw [← h.names name hn, Label.Table.get?, he]
  rfl

theorem leave {table : Label.Table} {lines : List Line} (h : table.Tracks lines) :
    table.leave.Tracks lines := h.of_entries rfl Label.Table.tracks_empty.scope

theorem behind {table : Label.Table} {lines : List Line} (h : table.Tracks lines)
    (front : List Line) : (table.behind front).Tracks lines := by
  induction front generalizing table with
  | nil => exact h
  | cons l front ih =>
    exact ih (h.of_entries (Label.Table.enter_entries table l.label) (h.enter_scope l.label))

end Label.Table.Tracks

/-- A fault of encoding is that of a name which the labels of all lines do not
have. -/
theorem Emit.lines_fault {lines : List Line} {layout : Layout} {sized : List SizedLine}
    {e : Error} {fault : Label.Fault} (h : Layout.lines {} lines = (layout, .ok sized))
    (he : (Emit.lines layout.labels.leave sized).lines = .error e) (hf : e.fault? = some fault) :
    ∃ labels : Label.Table, labels.Tracks lines ∧ ∃ name, labels.lookup name = .error fault := by
  obtain ⟨n, s, _, hl⟩ := Emit.lines_eq_error he
  obtain ⟨m, st, size, cause, _, _, hc, rfl⟩ := Emit.line_eq_error hl
  exact ⟨_, (Layout.tracks_lines h).leave.behind _, Emit.statement_blames st size cause hc fault hf⟩

theorem assembleExpanded_eq_error {lines : List Line} {e : Error}
    (h : (Assembler.assembleExpanded lines).program = .error e) :
    (∃ last, Layout.lines {} lines = (last, .error e)) ∨
      ∃ layout sized, Layout.lines {} lines = (layout, .ok sized) ∧
        (Emit.lines layout.labels.leave sized).lines = .error e := by
  simp only [Assembler.assembleExpanded] at h
  split at h
  · rename_i hs
    cases h
    exact .inl ⟨_, Prod.ext rfl hs⟩
  · rename_i sized hs
    exact .inr ⟨_, sized, Prod.ext rfl hs, Except.map_eq_error.1 h⟩

/-- A generated label is told to be used twice only if two lines have it. -/
theorem duplicate_generated {lines : List Line} {e : Error} {name : Text} {number prior : Int}
    (h : (Assembler.assembleExpanded lines).program = .error e)
    (hf : e.fault? = some (.duplicate name number prior)) (hn : Label.isGenerated name = true) :
    ∃ front line back, lines = front ++ line :: back ∧ line.label = name ∧
      name ∈ front.map Line.label := by
  have hlookup {labels : Label.Table} {other : Text} :
      labels.lookup other ≠ .error (.duplicate name number prior) := by
    intro h
    rcases Label.Table.lookup_eq_error h with h | ⟨_, _, _, h⟩ <;> cases h
  rcases assembleExpanded_eq_error h with ⟨last, h⟩ | ⟨layout, sized, h, he⟩
  · obtain ⟨front, line, back, rfl, _, hcause⟩ := Layout.lines_fault h hf
    rcases hcause with ⟨labels, address, htracks, hdefine⟩ | ⟨st, other, labels, hfails⟩
    · rcases Label.Table.define_eq_error hdefine with h | ⟨full, entry, hq, hg, heq⟩
      · cases h
      · cases heq
        refine ⟨front, line, back, rfl,
          (Label.Table.qualify_generated htracks.scope hq hn).symm, ?_⟩
        rw [← htracks.names name hn, hg]
        rfl
    · exact absurd hfails.lookup hlookup
  · obtain ⟨labels, _, other, hl⟩ := Emit.lines_fault h he hf
    exact absurd hl hlookup

/-- A generated label that a line has is told to be missing only at a statement
in front of that line which names it and needs its address at once. -/
theorem missing_generated {lines : List Line} {e : Error} {name : Text}
    (h : (Assembler.assembleExpanded lines).program = .error e)
    (hf : e.fault? = some (.missing name)) (hn : Label.isGenerated name = true)
    (hmem : name ∈ lines.map Line.label) :
    ∃ front line back, lines = front ++ line :: back ∧ e.IsAt line ∧
      name ∈ back.map Line.label ∧
      ∃ st ∈ line.statements, Layout.NeedsAddresses st ∧ name ∈ st.operand.names := by
  rcases assembleExpanded_eq_error h with ⟨last, h⟩ | ⟨layout, sized, h, he⟩
  · obtain ⟨front, line, back, rfl, hat, hcause⟩ := Layout.lines_fault h hf
    rcases hcause with ⟨labels, address, _, hdefine⟩ | ⟨st, other, labels, hfails⟩
    · rcases Label.Table.define_eq_error hdefine with h | ⟨_, _, _, _, h⟩ <;> cases h
    · obtain ⟨rfl, hnot⟩ := hfails.tracks.not_mem_of_missing hn hfails.lookup
      have hback : name ∈ back.map Line.label := by
        simp only [List.map_append, List.map_cons, List.mem_append, List.mem_cons] at hmem hnot
        tauto
      exact ⟨front, line, back, rfl, hat, hback, st, hfails.statement, hfails.needs, hfails.named⟩
  · obtain ⟨labels, htracks, other, hl⟩ := Emit.lines_fault h he hf
    exact absurd hmem (htracks.not_mem_of_missing hn hl).2

end Asm6502
