-- The order of the constants. They are gone over in no fixed order, and the first
-- one that is no integer is told. Laws: whatever the order, an expression has the
-- same value or the same fault, but for which one of several such constants it
-- names; if there is at most one, the order makes no difference.
import Mathlib.Data.List.Nodup
import Asm6502.Error
import Asm6502.Proofs.InlineExtent

namespace Asm6502

namespace Inline

/-! ## Constants in two orders -/

/-- A constant whose value is no integer. -/
def Malformed (constant : Text × Text) : Prop := Predefine.parse? constant.2 = none

instance (constant : Text × Text) : Decidable (Malformed constant) :=
  inferInstanceAs (Decidable (_ = none))

/-- There are not two constants that are no integers. -/
def AtMostOneMalformed (constants : Predefines) : Prop :=
  ∀ c ∈ constants, ∀ d ∈ constants, Malformed c → Malformed d → c = d

/-- The name and the value of a constant that is an integer. -/
def boundTo (constant : Text × Text) : Text × Int :=
  (constant.1, (Predefine.parse? constant.2).getD 0)

variable {order order' constants : Predefines}

theorem bindings_of_wellFormed (h : ∀ c ∈ order, ¬ Malformed c) :
    bindings order = .ok (order.map boundTo) := by
  induction order with
  | nil => rfl
  | cons c rest ih =>
    obtain ⟨n, hn⟩ := Option.ne_none_iff_exists'.1 (h c (by simp))
    have hrest := ih fun d hd => h d (List.mem_cons_of_mem c hd)
    simp [bindings, boundTo, hn, hrest, Except.map]

theorem bindings_of_malformed {c : Text × Text} (hc : c ∈ order) (h : Malformed c) :
    ∃ d ∈ order, Malformed d ∧ bindings order = .error (.predefine d.1 d.2) := by
  induction order with
  | nil => cases hc
  | cons first rest ih =>
    by_cases hfirst : Malformed first
    · exact ⟨first, List.mem_cons_self, hfirst, by
        simp [bindings, show Predefine.parse? first.2 = none from hfirst]⟩
    · have hc' : c ∈ rest := by
        rcases List.mem_cons.1 hc with rfl | hc
        · exact absurd h hfirst
        · exact hc
      obtain ⟨d, hd, hmalformed, hbindings⟩ := ih hc'
      obtain ⟨n, hn⟩ := Option.ne_none_iff_exists'.1 hfirst
      exact ⟨d, List.mem_cons_of_mem first hd, hmalformed, by
        simp [bindings, hn, hbindings, Except.map]⟩

/-- In both orders all constants have values, or a malformed one is told. -/
theorem bindings_perm (h : order.Perm order') :
    (bindings order = .ok (order.map boundTo) ∧ bindings order' = .ok (order'.map boundTo)) ∨
    ∃ c ∈ order, ∃ d ∈ order, Malformed c ∧ Malformed d ∧
      bindings order = .error (.predefine c.1 c.2) ∧
      bindings order' = .error (.predefine d.1 d.2) := by
  by_cases hmalformed : ∃ c ∈ order, Malformed c
  · obtain ⟨first, hfirst, hno⟩ := hmalformed
    obtain ⟨c, hc, hcm, heq⟩ := bindings_of_malformed hfirst hno
    obtain ⟨d, hd, hdm, heq'⟩ := bindings_of_malformed (h.mem_iff.1 hfirst) hno
    exact .inr ⟨c, hc, d, h.mem_iff.2 hd, hcm, hdm, heq, heq'⟩
  · have hwell : ∀ c ∈ order, ¬ Malformed c := fun c hc hcm => hmalformed ⟨c, hc, hcm⟩
    exact .inl ⟨bindings_of_wellFormed hwell,
      bindings_of_wellFormed fun c hc => hwell c (h.mem_iff.2 hc)⟩

/-- Under different names, what is found does not depend on the order. -/
theorem lookup_perm {given given' : List (Text × Int)} (h : given.Perm given')
    (hnames : (given.map Prod.fst).Nodup) (name : Text) :
    given.lookup name = given'.lookup name := by
  induction h with
  | nil => rfl
  | cons entry _ ih =>
    obtain ⟨key, value⟩ := entry
    rw [List.lookup_cons, List.lookup_cons, ih (List.nodup_cons.1 hnames).2]
  | swap x y rest =>
    obtain ⟨key, value⟩ := x
    obtain ⟨key', value'⟩ := y
    have hne : key' ≠ key := fun heq => (List.nodup_cons.1 hnames).1 (by simp [heq])
    simp only [List.lookup_cons]
    by_cases hkey : name = key
    · have hkey' : (key == key') = false := by simpa using Ne.symm hne
      simp [hkey, hkey']
    · have hkey' : (name == key) = false := by simpa using hkey
      simp [hkey']
  | trans h _ ih ih' => exact (ih hnames).trans (ih' ((h.map Prod.fst).nodup_iff.1 hnames))

theorem environment_perm (h : order.Perm order') (hnames : (order.map Prod.fst).Nodup)
    (line : Int) :
    environment (order.map boundTo) line = environment (order'.map boundTo) line := by
  have hfst : (order.map boundTo).map Prod.fst = order.map Prod.fst := by
    rw [List.map_map]
    rfl
  funext name
  unfold environment
  rw [List.lookup_append, List.lookup_append,
    lookup_perm (h.map boundTo) (by rwa [hfst]) name]

/-! ## Alike faults -/

/-- The same fault, but for which constant that is no integer it names. -/
inductive Fault.Alike : Fault → Fault → Prop
  | same (fault : Fault) : Alike fault fault
  | predefine (name value name' value' : Text) :
    Alike (.predefine name value) (.predefine name' value')

/-- Expressions have the same values, or faults that are alike. -/
def Evaluator.Alike (one other : Evaluator) : Prop :=
  ∀ line e, Except.SameBut Fault.Alike (one line e) (other line e)

/-- An expression has one value in all orders in which the constants have values. -/
theorem evaluate_of_bindings (interpreter : Interpreter) (h : order.Perm order')
    (hnames : (order.map Prod.fst).Nodup) (hok : bindings order = .ok (order.map boundTo))
    (hok' : bindings order' = .ok (order'.map boundTo)) :
    evaluate interpreter order = evaluate interpreter order' := by
  funext line e
  unfold evaluate
  rw [hok, hok']
  dsimp only [bind, Except.bind]
  rw [environment_perm h hnames line]

/-- The order of the constants decides at most which one of them is told. -/
theorem evaluate_perm (interpreter : Interpreter) (h : order.Perm order')
    (hnames : (order.map Prod.fst).Nodup) :
    Evaluator.Alike (evaluate interpreter order) (evaluate interpreter order') := by
  intro line e
  rcases bindings_perm h with ⟨hok, hok'⟩ | ⟨c, _, d, _, _, _, heq, heq'⟩
  · rw [evaluate_of_bindings interpreter h hnames hok hok']
    exact .refl .same _
  · unfold evaluate
    rw [heq, heq']
    exact .error (.predefine ..)

/-- If at most one constant is no integer, it is told in every order. -/
theorem evaluate_perm_eq (interpreter : Interpreter) (h : order.Perm order')
    (hnames : (order.map Prod.fst).Nodup) (hone : AtMostOneMalformed order) :
    evaluate interpreter order = evaluate interpreter order' := by
  rcases bindings_perm h with ⟨hok, hok'⟩ | ⟨c, hc, d, hd, hcm, hdm, heq, heq'⟩
  · exact evaluate_of_bindings interpreter h hnames hok hok'
  · obtain rfl := hone c hc d hd hcm hdm
    unfold evaluate
    rw [heq, heq']

/-- Goes over the constants in an order of its own for every expression. -/
def Evaluator.GoesOver (evaluate : Evaluator) (interpreter : Interpreter)
    (constants : Predefines) : Prop :=
  ∀ line e, ∃ order, order.Perm constants ∧
    evaluate line e = Inline.evaluate interpreter order line e

section GoesOver

variable {interpreter : Interpreter} {one other : Evaluator}

theorem evaluate_goesOver (h : order.Perm constants) :
    Evaluator.GoesOver (evaluate interpreter order) interpreter constants :=
  fun _ _ => ⟨order, h, rfl⟩

theorem Evaluator.GoesOver.alike (h : one.GoesOver interpreter constants)
    (h' : other.GoesOver interpreter constants) (hnames : (constants.map Prod.fst).Nodup) :
    one.Alike other := by
  intro line e
  obtain ⟨order, hperm, heq⟩ := h line e
  obtain ⟨order', hperm', heq'⟩ := h' line e
  rw [heq, heq']
  exact evaluate_perm interpreter (hperm.trans hperm'.symm)
    ((hperm.map Prod.fst).nodup_iff.2 hnames) line e

theorem Evaluator.GoesOver.eq (h : one.GoesOver interpreter constants)
    (h' : other.GoesOver interpreter constants) (hnames : (constants.map Prod.fst).Nodup)
    (hone : AtMostOneMalformed constants) : one = other := by
  funext line e
  obtain ⟨order, hperm, heq⟩ := h line e
  obtain ⟨order', hperm', heq'⟩ := h' line e
  rw [heq, heq', evaluate_perm_eq interpreter (hperm'.trans hperm.symm)
    ((hperm'.map Prod.fst).nodup_iff.2 hnames)
    fun c hc d hd => hone c (hperm'.mem_iff.1 hc) d (hperm'.mem_iff.1 hd)]

end GoesOver

/-! ## Alike errors -/

/-- The same error of the same expression, but for the constant that it names. -/
structure Error.Alike (e e' : Error) : Prop where
  expression_eq : e.expression = e'.expression
  fault_alike : e.fault.Alike e'.fault

variable {one other : Evaluator}

theorem joinAll_sameBut {xs ys : List (Except Error Text)}
    (h : List.Forall₂ (Except.SameBut Error.Alike) xs ys) :
    Except.SameBut Error.Alike (joinAll xs) (joinAll ys) := by
  induction h with
  | nil => exact .ok []
  | cons hfirst _ ih =>
    rw [joinAll_cons, joinAll_cons]
    exact ih.bind fun after => hfirst.map (· ++ after)

theorem Evaluator.Alike.expand (h : one.Alike other) (line : Int) (t : Text) :
    Except.SameBut Error.Alike (expand one line t) (expand other line t) := by
  unfold Inline.expand
  apply joinAll_sameBut
  rw [List.forall₂_map_left_iff, List.forall₂_map_right_iff, List.forall₂_same]
  intro piece _
  cases piece with
  | byte b => exact .ok [b]
  | inline e =>
    rw [Piece.expand_inline, Piece.expand_inline]
    exact ((h line e).mapError fun _ _ halike => ⟨rfl, halike⟩).map literal

end Inline

/-- The same error, but for which constant that is no integer it names. -/
inductive Error.Alike : Error → Error → Prop
  | same (e : Error) : Alike e e
  | inline {e e' : Inline.Error} (h : e.Alike e') : Alike (.inline e) (.inline e')
  | located (file : Text) (line : Int) (text : Text) {e e' : Error} (h : Alike e e') :
    Alike (.located file line text e) (.located file line text e')

end Asm6502
