-- Renamings of labels. A renaming gives every global name without a dot another
-- one, except for the names that have a meaning of their own. It changes the
-- first part of names with dots, and leaves local and generated labels alone.
-- So labels, expressions and tables can be renamed without a change in what
-- they stand for.
import Asm6502.Decode
import Asm6502.Line
import Asm6502.Proofs.Lexing

namespace Asm6502

namespace Label

/-! ## Parts of names -/

/-- The part of a name in front of its first dot. -/
def base (name : Text) : Text := name.takeWhile (· != Ascii.dot)

/-- The part of a name from its first dot on. -/
def members (name : Text) : Text := name.dropWhile (· != Ascii.dot)

/-- A name that may be renamed: it has no dot and does not start with `#`. -/
def isBase (name : Text) : Bool :=
  !name.isEmpty && !name.contains Ascii.dot && name.head? != some Ascii.hash

theorem base_append_members (name : Text) : base name ++ members name = name :=
  List.takeWhile_append_dropWhile

theorem ne_dot_of_isBase {name : Text} (h : isBase name = true) :
    ∀ b ∈ name, (b != Ascii.dot) = true := by
  intro b hb
  simp only [isBase, Bool.and_eq_true, Bool.not_eq_true', bne_iff_ne] at h ⊢
  rintro rfl
  have := List.contains_iff_mem.2 hb
  rw [h.1.2] at this
  cases this

/-- A name is put together from its two parts in one way only. -/
theorem parts_of_isBase {front : Text} (h : isBase front = true) (name : Text) :
    base (front ++ members name) = front ∧ members (front ++ members name) = members name :=
  ⟨Token.takeWhile_run (ne_dot_of_isBase h) (Token.headIs_dropWhile _ name),
    Token.dropWhile_run (ne_dot_of_isBase h) (Token.headIs_dropWhile _ name)⟩

/-- A member of a name adds to its second part only. -/
theorem parts_append {member : Text} (h : isLocal member = true) (name : Text) :
    base (name ++ member) = base name ∧ members (name ++ member) = members name ++ member := by
  obtain ⟨rest, rfl⟩ : ∃ rest, member = Ascii.dot :: rest := by
    simpa [isLocal, List.head?_eq_some_iff] using h
  unfold base members
  induction name with
  | nil => simp
  | cons b name ih =>
    rw [List.cons_append, List.takeWhile_cons, List.takeWhile_cons, List.dropWhile_cons,
      List.dropWhile_cons]
    split
    · rw [ih.1, ih.2]
      exact ⟨rfl, rfl⟩
    · exact ⟨rfl, rfl⟩

/-- A name whose first part may be renamed is neither empty, nor local, nor
generated. -/
theorem kind_of_isBase {name : Text} (h : isBase (base name) = true) :
    name.isEmpty = false ∧ isLocal name = false ∧ isGenerated name = false := by
  have hdot := ne_dot_of_isBase h
  cases name with
  | nil => cases h
  | cons b rest =>
    unfold base at h hdot
    rw [List.takeWhile_cons] at h hdot
    split at h
    · rename_i hb
      rw [if_pos hb] at hdot
      have hhash : b ≠ Ascii.hash := by simpa [isBase] using (Bool.and_eq_true_iff.1 h).2
      have hstart : generatedStart.head? = some Ascii.hash := by decide +kernel
      refine ⟨rfl, ?_, ?_⟩
      · simpa [isLocal] using hb
      · rw [Bool.eq_false_iff]
        intro hg
        obtain ⟨tail, ht⟩ := List.isPrefixOf_iff_prefix.1 hg
        have := congrArg List.head? ht
        rw [List.head?_append, hstart] at this
        exact hhash (Option.some.inj this).symm
    · cases h

end Label

/-! ## Renamings -/

/-- The names that the assembler gives a meaning to: registers, flags, and the
spellings of branch conditions. -/
def meaningful : List Text :=
  ["A", "X", "Y", "AC", "S", "P", "T", "C", "I", "V", "D"].map ascii ++
    Decode.conditions.map Prod.fst

/-- A renaming of labels: different labels get different names, and names with a
meaning keep it. -/
structure Renaming where
  map : Text → Text
  isBase_map : ∀ name, Label.isBase name = true → Label.isBase (map name) = true
  injective : ∀ a b, Label.isBase a = true → Label.isBase b = true → map a = map b → a = b
  fixes : ∀ name ∈ meaningful, map name = name

namespace Renaming

variable (r : Renaming)

/-- Renames the first part of a name, if it may be renamed. -/
def name (name : Text) : Text :=
  if Label.isBase (Label.base name) then r.map (Label.base name) ++ Label.members name else name

theorem name_of_isBase {name : Text} (h : Label.isBase (Label.base name) = true) :
    r.name name = r.map (Label.base name) ++ Label.members name := if_pos h

theorem name_of_not_isBase {name : Text} (h : ¬ Label.isBase (Label.base name) = true) :
    r.name name = name := if_neg h

/-- The parts of a name that is renamed. -/
theorem parts_name {name : Text} (h : Label.isBase (Label.base name) = true) :
    Label.base (r.name name) = r.map (Label.base name) ∧
      Label.members (r.name name) = Label.members name := by
  rw [r.name_of_isBase h]
  exact Label.parts_of_isBase (r.isBase_map _ h) name

theorem isBase_name (name : Text) :
    Label.isBase (Label.base (r.name name)) = Label.isBase (Label.base name) := by
  by_cases h : Label.isBase (Label.base name) = true
  · rw [(r.parts_name h).1, r.isBase_map _ h, h]
  · rw [r.name_of_not_isBase h]

theorem name_injective {a b : Text} (h : r.name a = r.name b) : a = b := by
  by_cases ha : Label.isBase (Label.base a) = true
  · have hb : Label.isBase (Label.base b) = true := by rw [← r.isBase_name, ← h, r.isBase_name, ha]
    obtain ⟨hba, hma⟩ := r.parts_name ha
    obtain ⟨hbb, hmb⟩ := r.parts_name hb
    have hbase : Label.base a = Label.base b :=
      r.injective _ _ ha hb (by rw [← hba, ← hbb, h])
    have hmembers : Label.members a = Label.members b := by rw [← hma, ← hmb, h]
    rw [← Label.base_append_members a, hbase, hmembers, Label.base_append_members]
  · have hb : ¬ Label.isBase (Label.base b) = true := by rwa [← r.isBase_name, ← h, r.isBase_name]
    rwa [r.name_of_not_isBase ha, r.name_of_not_isBase hb] at h

theorem name_eq_iff {a b : Text} : r.name a = r.name b ↔ a = b :=
  ⟨r.name_injective, congrArg r.name⟩

/-- A new name is of the kind of the old one. -/
theorem kind_name (name : Text) :
    (r.name name).isEmpty = name.isEmpty ∧ Label.isLocal (r.name name) = Label.isLocal name ∧
      Label.isGenerated (r.name name) = Label.isGenerated name := by
  by_cases h : Label.isBase (Label.base name) = true
  · obtain ⟨he, hl, hg⟩ := Label.kind_of_isBase h
    obtain ⟨he', hl', hg'⟩ := Label.kind_of_isBase ((r.isBase_name name).trans h)
    exact ⟨he'.trans he.symm, hl'.trans hl.symm, hg'.trans hg.symm⟩
  · rw [r.name_of_not_isBase h]
    exact ⟨rfl, rfl, rfl⟩

@[simp] theorem isEmpty_name (name : Text) : (r.name name).isEmpty = name.isEmpty :=
  (r.kind_name name).1

@[simp] theorem isLocal_name (name : Text) : Label.isLocal (r.name name) = Label.isLocal name :=
  (r.kind_name name).2.1

@[simp] theorem isGlobal_name (name : Text) :
    Label.isGlobal (r.name name) = Label.isGlobal name := by
  unfold Label.isGlobal
  rw [r.isEmpty_name, r.isLocal_name, (r.kind_name name).2.2]

/-- Local labels keep their names, and their full names are renamed with their
scopes. -/
theorem name_append {member : Text} (h : Label.isLocal member = true) (scope : Text) :
    r.name (scope ++ member) = r.name scope ++ member := by
  obtain ⟨hb, hm⟩ := Label.parts_append h scope
  unfold name
  rw [hb, hm]
  split
  · rw [List.append_assoc]
  · rfl

theorem name_local {name : Text} (h : Label.isLocal name = true) : r.name name = name := by
  apply r.name_of_not_isBase
  intro hb
  rw [(Label.kind_of_isBase hb).2.1] at h
  cases h

theorem name_generated {name : Text} (h : Label.isGenerated name = true) : r.name name = name := by
  apply r.name_of_not_isBase
  intro hb
  rw [(Label.kind_of_isBase hb).2.2] at h
  cases h

@[simp] theorem name_nil : r.name [] = [] := r.name_of_not_isBase (by decide)

theorem name_meaningful {name : Text} (h : name ∈ meaningful) : r.name name = name := by
  have hall : ∀ name ∈ meaningful, Label.isBase name = true ∧ Label.base name = name ∧
      Label.members name = [] := by decide +kernel
  obtain ⟨hbase, hb, hm⟩ := hall name h
  rw [Renaming.name, hb, hm, if_pos hbase, List.append_nil, r.fixes name h]

/-- No other name gets a meaning, and none loses it. -/
theorem name_eq_meaningful {name other : Text} (h : other ∈ meaningful) :
    r.name name = other ↔ name = other := by
  conv_lhs => rw [← r.name_meaningful h]
  exact r.name_eq_iff

/-! ## Renamed source -/

/-- Renames every name in an expression. -/
def expr : Expr → Expr
  | .ident name => .ident (r.name name)
  | .highByte e => .highByte (expr e)
  | .lowByte e => .lowByte (expr e)
  | .paren e => .paren (expr e)
  | .bracket e => .bracket (expr e)
  | .binary left op right => .binary (expr left) op (expr right)
  | e => e

def statement (st : Statement) : Statement :=
  { command := r.expr st.command, operand := r.expr st.operand }

def line (line : Line) : Line :=
  { line with label := r.name line.label, statements := line.statements.map r.statement }

theorem expr_injective {a b : Expr} (h : r.expr a = r.expr b) : a = b := by
  induction a generalizing b with
  | ident name =>
    cases b with
    | ident other => rw [r.name_injective (Expr.ident.inj h)]
    | _ => cases h
  | highByte e ih =>
    cases b with
    | highByte => rw [ih (Expr.highByte.inj h)]
    | _ => cases h
  | lowByte e ih =>
    cases b with
    | lowByte => rw [ih (Expr.lowByte.inj h)]
    | _ => cases h
  | paren e ih =>
    cases b with
    | paren => rw [ih (Expr.paren.inj h)]
    | _ => cases h
  | bracket e ih =>
    cases b with
    | bracket => rw [ih (Expr.bracket.inj h)]
    | _ => cases h
  | binary left op right ihl ihr =>
    cases b with
    | binary =>
      obtain ⟨hl, rfl, hr⟩ := Expr.binary.inj h
      rw [ihl hl, ihr hr]
    | _ => cases h
  | empty | decimal | byte | word | string | system =>
    cases b with
    | ident | highByte | lowByte | paren | bracket | binary => cases h
    | _ => exact h

/-- An expression becomes one that keeps its names only if it is that one. -/
theorem expr_eq_iff {fixed : Expr} (hf : r.expr fixed = fixed) {e : Expr} :
    r.expr e = fixed ↔ e = fixed := by
  constructor
  · intro h
    exact r.expr_injective (h.trans hf.symm)
  · rintro rfl
    exact hf

theorem expr_ident {name : Text} (h : name ∈ meaningful) : r.expr (.ident name) = .ident name :=
  congrArg Expr.ident (r.name_meaningful h)

theorem expr_isEmpty (e : Expr) : (r.expr e).isEmpty = e.isEmpty := by
  cases e <;> rfl

theorem expr_elements (e : Expr) : (r.expr e).elements = e.elements.map r.expr := by
  induction e with
  | binary left op right _ ihr =>
    cases op with
    | comma => exact congrArg (r.expr left :: ·) ihr
    | _ => rfl
  | _ => rfl

/-! ## Renamed labels -/

def fault : Label.Fault → Label.Fault
  | .missing name => .missing (r.name name)
  | .scopeless name => .scopeless (r.name name)
  | .duplicate name line prior => .duplicate (r.name name) line prior

def entry (entry : Label.Entry) : Label.Entry := { entry with name := r.name entry.name }

/-- Renames every label of a table. -/
def table (table : Label.Table) : Label.Table :=
  { entries := table.entries.map r.entry, scope := r.name table.scope }

/-- The second view gives every new name what the first one gives the old name. -/
def Views (v w : Label.View) : Prop := ∀ name, w (r.name name) = (v name).mapError r.fault

section Table

variable (table : Label.Table)

theorem get?_table (name : Text) :
    (r.table table).get? (r.name name) = (table.get? name).map r.entry := by
  unfold Label.Table.get? Renaming.table
  rw [List.find?_map]
  congr 2
  funext entry
  simp [Renaming.entry, r.name_eq_iff]

theorem qualify_table (name : Text) :
    (r.table table).qualify (r.name name) = ((table.qualify name).map r.name).mapError r.fault := by
  unfold Label.Table.qualify
  rw [r.isLocal_name]
  split
  · rename_i hlocal
    rw [Renaming.table, r.isEmpty_name]
    split
    · rfl
    · rw [r.name_local hlocal, Except.map, r.name_append hlocal]
      rfl
  · rfl

theorem lookup_table : r.Views table.lookup (r.table table).lookup := by
  intro name
  unfold Label.Table.lookup
  rw [qualify_table]
  cases table.qualify name with
  | error fault => rfl
  | ok full =>
    simp only [Except.map, Except.mapError, bind, Except.bind, get?_table]
    cases table.get? full with
    | none => rfl
    | some entry => rfl

theorem enter_table (name : Text) :
    (r.table table).enter (r.name name) = r.table (table.enter name) := by
  unfold Label.Table.enter
  rw [r.isGlobal_name]
  split
  · rfl
  · rfl

theorem leave_table : (r.table table).leave = r.table table.leave := by
  simp [Label.Table.leave, Renaming.table]

/-- A definition under the new name adds the new name. -/
theorem define_table (name : Text) (number : Int) (address : UInt16) :
    (r.table table).define (r.name name) number address =
      { table := r.table (table.define name number address).table
        result := ((table.define name number address).result.map r.name).mapError r.fault } := by
  unfold Label.Table.define
  rw [qualify_table]
  cases table.qualify name with
  | error fault => rfl
  | ok full =>
    simp only [Except.map, Except.mapError, get?_table]
    cases table.get? full with
    | some prior => rfl
    | none =>
      simp only [Option.map_none]
      rw [← enter_table]
      simp [Renaming.table, Renaming.entry]

theorem fix_table (full : Text) (address : Address) :
    (r.table table).fix (r.name full) address =
      { table := r.table (table.fix full address).table
        result := (table.fix full address).result.mapError r.fault } := by
  unfold Label.Table.fix
  rw [get?_table]
  cases table.get? full with
  | none => rfl
  | some entry =>
    simp only [Option.map_some, Except.mapError, Renaming.table, List.map_map]
    congr 2
    refine List.map_congr_left fun entry _ => ?_
    simp only [Function.comp_apply, Renaming.entry, beq_iff_eq, r.name_eq_iff]
    split
    · rfl
    · rfl

end Table

/-! ## Values -/

def valueError : ValueError → ValueError
  | .label fault => .label (r.fault fault)
  | error => error

theorem isUnresolved_valueError (error : ValueError) :
    (r.valueError error).isUnresolved = error.isUnresolved := by
  cases error with
  | label fault => cases fault <;> rfl
  | _ => rfl

section Values

variable {r} {v w : Label.View}

theorem lookup_expr (h : r.Views v w) (name : Text) :
    Expr.lookup w (r.name name) = (Expr.lookup v name).mapError r.valueError := by
  unfold Expr.lookup
  rw [h name]
  cases v name with
  | error fault => rfl
  | ok address => rfl

theorem combine_valueError (op : Operator) (left right : Address) :
    (Address.combine op left right).mapError r.valueError = Address.combine op left right := by
  unfold Address.combine
  split
  · split <;> rfl
  · rfl
  · rfl

/-- A renamed expression has the address of the expression. -/
theorem address_expr (h : r.Views v w) (e : Expr) :
    (r.expr e).address w = (e.address v).mapError r.valueError := by
  induction e with
  | ident name => exact lookup_expr h name
  | paren e ih => exact ih
  | highByte e ih | lowByte e ih =>
    simp only [Renaming.expr, Expr.address, ih]
    cases e.address v with
    | error error => rfl
    | ok address => rfl
  | binary left op right ihl ihr =>
    simp only [Renaming.expr, Expr.address, ihl, ihr]
    cases left.address v with
    | error error => rfl
    | ok l =>
      cases right.address v with
      | error error => rfl
      | ok r' => exact (combine_valueError op l r').symm
  | _ => rfl

/-- A renamed expression has the value of the expression. -/
theorem value_expr (h : r.Views v w) (pc : UInt16) (e : Expr) :
    (r.expr e).value w pc = (e.value v pc).mapError r.valueError := by
  induction e with
  | ident name =>
    simp only [Renaming.expr, Expr.value, lookup_expr h]
    cases Expr.lookup v name with
    | error error => rfl
    | ok address => rfl
  | system run =>
    simp only [Renaming.expr, Expr.value]
    split <;> rfl
  | paren e ih => exact ih
  | highByte e ih | lowByte e ih =>
    simp only [Renaming.expr, Expr.value, ih]
    cases e.value v pc with
    | error error => rfl
    | ok value => rfl
  | binary left op right ihl ihr =>
    simp only [Renaming.expr, Expr.value, ihl, ihr]
    cases left.value v pc with
    | error error => rfl
    | ok l =>
      cases right.value v pc with
      | error error => rfl
      | ok r' =>
        simp only [Except.mapError, bind, Except.bind]
        split
        · rfl
        · split <;> rfl
  | _ => rfl

end Values

end Renaming

end Asm6502
