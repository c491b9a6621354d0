-- Decoding does not look at the names of labels. A renamed statement is decoded
-- to the renamed instruction: the forms of commands name registers, flags and
-- conditions only, and those keep their names.
import Asm6502.Proofs.LabelView
import Asm6502.Proofs.Renaming

namespace Asm6502

namespace Renaming

variable (r : Renaming)

/-- Renames the labels that an operand waits for. -/
def operand : Operand → Operand
  | .label name => .label (r.name name)
  | .expr e => .expr (r.expr e)
  | operand => operand

def instruction (i : Instruction) : Instruction := { i with operand := r.operand i.operand }

def resolved : Decode.Resolved → Decode.Resolved
  | .known address => .known address
  | .deferred operand => .deferred (r.operand operand)

/-! ## Registers -/

theorem name_beq {name other : Text} (h : other ∈ meaningful) :
    (r.name name == other) = (name == other) := by
  rw [Bool.eq_iff_iff, beq_iff_eq, beq_iff_eq, r.name_eq_meaningful h]

theorem isRegister_name (name : Text) :
    Decode.isRegister (r.name name) = Decode.isRegister name := by
  have hregisters : ∀ register ∈ [Decode.regA, Decode.regX, Decode.regY, Decode.regAC],
      register ∈ meaningful := by decide +kernel
  simp only [List.forall_mem_cons] at hregisters
  obtain ⟨ha, hx, hy, hac, _⟩ := hregisters
  unfold Decode.isRegister
  rw [r.name_beq ha, r.name_beq hx, r.name_beq hy, r.name_beq hac]

theorem hasRegister_expr (e : Expr) : Decode.hasRegister (r.expr e) = Decode.hasRegister e := by
  induction e with
  | ident name => exact r.isRegister_name name
  | paren e ih | bracket e ih | highByte e ih | lowByte e ih => exact ih
  | binary left op right ihl ihr => simp only [Renaming.expr, Decode.hasRegister, ihl, ihr]
  | _ => rfl

theorem indexed?_expr {register : Text} (h : register ∈ meaningful) (e : Expr) :
    Decode.indexed? register (r.expr e) = (Decode.indexed? register e).map r.expr := by
  induction e with
  | binary left op right _ ihr =>
    simp only [Renaming.expr, Decode.indexed?, r.expr_eq_iff (r.expr_ident h)]
    split
    · rfl
    · rw [ihr, Option.map_map, Option.map_map]
      rfl
  | _ => rfl

theorem parenthesized?_expr (e : Expr) :
    Decode.parenthesized? (r.expr e) = (Decode.parenthesized? e).map r.expr := by
  cases e <;> rfl

theorem bracketed?_expr (e : Expr) :
    Decode.bracketed? (r.expr e) = (Decode.bracketed? e).map r.expr := by
  cases e <;> rfl

theorem waiting_expr (e : Expr) : Decode.waiting (r.expr e) = r.operand (Decode.waiting e) := by
  cases e <;> rfl

/-! ## Operands -/

/-- Steps that are renamed one by one are renamed together. -/
theorem bind_renamed {α β γ δ : Type} {o : Option α} {f : α → β} {g : α → Option γ}
    {g' : β → Option δ} {k : γ → δ} (h : ∀ a, g' (f a) = (g a).map k) :
    (o.map f >>= g') = (o >>= g).map k := by
  cases o with
  | none => rfl
  | some a => exact h a

/-- What is found in a list is renamed if all its finds are. -/
theorem findSome?_renamed {α β γ : Type} {l : List α} {f : α → Option β} {f' : α → Option γ}
    {k : β → γ} (h : ∀ a ∈ l, f' a = (f a).map k) : l.findSome? f' = (l.findSome? f).map k := by
  induction l with
  | nil => rfl
  | cons a l ih =>
    rw [List.findSome?_cons, List.findSome?_cons, h a List.mem_cons_self]
    cases f a with
    | none => exact ih fun a ha => h a (List.mem_cons_of_mem _ ha)
    | some b => rfl

section Operands

variable {r} {v w : Label.View} (h : r.Views v w)
include h

theorem address?_expr (e : Expr) :
    Decode.address? w (r.expr e) = (Decode.address? v e).map r.resolved := by
  unfold Decode.address?
  rw [r.hasRegister_expr, address_expr h]
  split
  · rfl
  · cases e.address v with
    | ok a => rfl
    | error error =>
      simp only [Except.mapError, r.isUnresolved_valueError, waiting_expr]
      split <;> rfl

theorem zeroPage?_expr (mayWait : Bool) (e : Expr) :
    Decode.zeroPage? w mayWait (r.expr e) = (Decode.zeroPage? v mayWait e).map r.operand := by
  unfold Decode.zeroPage?
  rw [address?_expr h]
  cases Decode.address? v e with
  | none => rfl
  | some resolved =>
    cases resolved with
    | known a =>
      simp only [Option.map_some, Renaming.resolved]
      split <;> rfl
    | deferred operand =>
      simp only [Option.map_some, Renaming.resolved]
      split <;> rfl

theorem absolute?_expr (e : Expr) :
    Decode.absolute? w (r.expr e) = (Decode.absolute? v e).map r.operand := by
  unfold Decode.absolute?
  rw [address?_expr h]
  cases Decode.address? v e with
  | none => rfl
  | some resolved => cases resolved <;> rfl

theorem target?_expr (e : Expr) :
    Decode.target? w (r.expr e) = (Decode.target? v e).map r.operand := by
  have habsolute := absolute?_expr h e
  cases e with
  | bracket | system => rfl
  | _ => exact habsolute

theorem immediate?_expr (e : Expr) :
    Decode.immediate? w (r.expr e) = (Decode.immediate? v e).map r.operand := by
  have haddress := address?_expr h e
  generalize hres : Decode.address? v e = res at haddress
  cases e with
  | paren | bracket => rfl
  | highByte | lowByte =>
    simp only [Renaming.expr] at haddress
    simp only [Renaming.expr, Decode.immediate?, haddress, hres]
    rcases res with _ | ⟨a | operand⟩ <;> rfl
  | _ =>
    simp only [Renaming.expr] at haddress
    simp only [Renaming.expr, Decode.immediate?, haddress, hres]
    rcases res with _ | ⟨a | operand⟩
    · rfl
    · simp only [Option.map_some, Renaming.resolved]
      split <;> rfl
    · rfl

theorem operand?_expr (mnemonic : Mnemonic) (mode : Mode) (e : Expr) :
    Decode.operand? w mnemonic mode (r.expr e) =
      (Decode.operand? v mnemonic mode e).map r.operand := by
  have hregisters : ∀ register ∈ [Decode.regA, Decode.regX, Decode.regY],
      register ∈ meaningful := by decide +kernel
  simp only [List.forall_mem_cons] at hregisters
  obtain ⟨ha, hx, hy, _⟩ := hregisters
  cases mode with
  | accumulator =>
    simp only [Decode.operand?, r.expr_eq_iff (r.expr_ident ha)]
    split <;> rfl
  | immediate => exact immediate?_expr h e
  | zeroPage =>
    simp only [Decode.operand?, r.parenthesized?_expr]
    exact bind_renamed fun inner => zeroPage?_expr h _ inner
  | absolute =>
    simp only [Decode.operand?, r.parenthesized?_expr]
    exact bind_renamed fun inner => absolute?_expr h inner
  | zeroPageX | zeroPageY =>
    simp only [Decode.operand?, r.parenthesized?_expr]
    refine bind_renamed fun inner => ?_
    rw [r.indexed?_expr (by assumption)]
    exact bind_renamed fun base => zeroPage?_expr h _ base
  | absoluteX | absoluteY =>
    simp only [Decode.operand?, r.parenthesized?_expr]
    refine bind_renamed fun inner => ?_
    rw [r.indexed?_expr (by assumption)]
    exact bind_renamed fun base => absolute?_expr h base
  | indirectX =>
    simp only [Decode.operand?, r.bracketed?_expr]
    refine bind_renamed fun inner => ?_
    rw [r.indexed?_expr hx]
    exact bind_renamed fun base => zeroPage?_expr h _ base
  | indirectY =>
    simp only [Decode.operand?, r.indexed?_expr hy]
    refine bind_renamed fun base => ?_
    rw [r.bracketed?_expr]
    exact bind_renamed fun inner => zeroPage?_expr h _ inner
  | implied | indirect | relative => rfl

theorem inModes?_expr (mnemonic : Mnemonic) (e : Expr) :
    Decode.inModes? w mnemonic (r.expr e) = (Decode.inModes? v mnemonic e).map r.instruction := by
  refine findSome?_renamed fun mode _ => ?_
  rw [operand?_expr h, Option.map_map, Option.map_map]
  rfl

end Operands

/-! ## Forms -/

theorem expr_of_names {e : Expr} (h : ∀ name ∈ e.names, name ∈ meaningful) : r.expr e = e := by
  induction e with
  | ident name => exact r.expr_ident (h name (List.mem_singleton.2 rfl))
  | highByte e ih | lowByte e ih | paren e ih | bracket e ih => exact congrArg _ (ih h)
  | binary left op right ihl ihr =>
    simp only [Expr.names, List.forall_mem_append] at h
    rw [Renaming.expr, ihl h.1, ihr h.2]
  | _ => rfl

/-- The names that a form of a command asks for. -/
def formNames : Decode.Form → List Text
  | .exactly operand .. | .stored operand _ => operand.names
  | .behind register .. => [register]
  | .modes _ | .jump _ | .vector _ | .branch => []

theorem lookup_name {β : Type} {table : List (Text × β)}
    (h : ∀ pair ∈ table, pair.1 ∈ meaningful) (name : Text) :
    table.lookup (r.name name) = table.lookup name := by
  induction table with
  | nil => rfl
  | cons pair table ih =>
    rw [List.lookup_cons, List.lookup_cons, r.name_beq (h pair List.mem_cons_self),
      ih fun pair hp => h pair (List.mem_cons_of_mem _ hp)]

theorem branch?_expr (e : Expr) : Decode.branch? (r.expr e) = Decode.branch? e := by
  cases e with
  | ident name =>
    refine r.lookup_name (fun pair hp => ?_) name
    exact List.mem_append_right _ (List.mem_map_of_mem hp)
  | _ => rfl

theorem branchTarget?_expr (e : Expr) :
    Decode.branchTarget? (r.expr e) = (Decode.branchTarget? e).map r.operand := by
  have hregister := r.hasRegister_expr e
  cases e with
  | ident name =>
    simp only [Renaming.expr, Decode.branchTarget?, r.isRegister_name]
    split <;> rfl
  | decimal | byte | word => rfl
  | _ =>
    simp only [Renaming.expr] at hregister
    simp only [Renaming.expr, Decode.branchTarget?, hregister]
    split <;> rfl

/-- A statement has a form exactly if the renamed one does. -/
theorem decode?_form {v w : Label.View} (h : r.Views v w) {form : Decode.Form}
    (hf : ∀ name ∈ formNames form, name ∈ meaningful) (st : Statement) :
    form.decode? w (r.statement st) = (form.decode? v st).map r.instruction := by
  cases form with
  | exactly operand mnemonic mode =>
    simp only [Decode.Form.decode?, Renaming.statement, r.expr_eq_iff (r.expr_of_names hf)]
    split <;> rfl
  | modes mnemonic => exact inModes?_expr h mnemonic st.operand
  | behind register op mnemonic =>
    have hregister := r.expr_ident (hf register (List.mem_singleton.2 rfl))
    obtain ⟨command, operand⟩ := st
    cases operand with
    | binary left op' right =>
      simp only [Decode.Form.decode?, Renaming.statement, Renaming.expr, r.expr_eq_iff hregister]
      split
      · exact inModes?_expr h mnemonic right
      · rfl
    | _ => rfl
  | stored operand mnemonic =>
    simp only [Decode.Form.decode?, Renaming.statement, r.expr_eq_iff (r.expr_of_names hf)]
    split
    · exact inModes?_expr h mnemonic st.command
    · rfl
  | jump mnemonic =>
    simp only [Decode.Form.decode?, Renaming.statement, target?_expr h, Option.map_map]
    rfl
  | vector mnemonic =>
    simp only [Decode.Form.decode?, Renaming.statement, r.bracketed?_expr]
    cases Decode.bracketed? st.operand with
    | none => rfl
    | some inner =>
      simp only [Option.map_some, Option.bind_some, absolute?_expr h, Option.map_map]
      rfl
  | branch =>
    obtain ⟨command, operand⟩ := st
    cases operand with
    | binary condition op target =>
      cases op with
      | comma =>
        simp only [Decode.Form.decode?, Renaming.statement, Renaming.expr, r.branch?_expr,
          r.branchTarget?_expr]
        cases Decode.branch? condition with
        | none => rfl
        | some mnemonic => exact bind_renamed fun operand => rfl
      | _ => rfl
    | _ => rfl

/-- The forms of commands ask for no labels. -/
theorem forms_names (command : Expr) :
    ∀ form ∈ Decode.forms command, ∀ name ∈ formNames form, name ∈ meaningful := by
  have hall : ∀ form ∈ Decode.allForms, ∀ name ∈ formNames form, name ∈ meaningful := by
    decide +kernel
  intro form hform
  exact hall form (Decode.mem_allForms hform)

theorem forms_expr (command : Expr) : Decode.forms (r.expr command) = Decode.forms command := by
  have hkeys : ∀ pair ∈ Decode.nameForms, pair.1 ∈ meaningful := by decide +kernel
  cases command with
  | ident name => exact congrArg (Option.getD · []) (r.lookup_name hkeys name)
  | _ => rfl

/-- A renamed statement is decoded to the renamed instruction. -/
theorem decode?_statement {v w : Label.View} (h : r.Views v w) (st : Statement) :
    (r.statement st).decode? w = (st.decode? v).map r.instruction := by
  unfold Statement.decode?
  rw [Renaming.statement, r.forms_expr]
  exact findSome?_renamed fun form hform =>
    r.decode?_form h (forms_names st.command form hform) st

end Renaming

end Asm6502
