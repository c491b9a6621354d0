-- Computations that may fail, taken apart: each step of a computation whose
-- end succeeds has succeeded itself, and an error comes from one of the steps.
import Mathlib.Data.List.Forall2

namespace Except

variable {ε ε' α β : Type}

theorem bind_eq_ok {x : Except ε α} {f : α → Except ε β} {b : β} :
    x >>= f = .ok b ↔ ∃ a, x = .ok a ∧ f a = .ok b := by
  cases x with
  | error e => simp [bind, Except.bind]
  | ok a => simp [bind, Except.bind]

theorem bind_eq_error {x : Except ε α} {f : α → Except ε β} {e : ε} :
    x >>= f = .error e ↔ x = .error e ∨ ∃ a, x = .ok a ∧ f a = .error e := by
  cases x with
  | error e' => simp [bind, Except.bind]
  | ok a => simp [bind, Except.bind]

theorem map_eq_ok {x : Except ε α} {f : α → β} {b : β} :
    x.map f = .ok b ↔ ∃ a, x = .ok a ∧ f a = b := by
  cases x with
  | error e => simp [Except.map]
  | ok a => simp [Except.map]

theorem map_eq_error {x : Except ε α} {f : α → β} {e : ε} : x.map f = .error e ↔ x = .error e := by
  cases x with
  | error e => simp [Except.map]
  | ok a => simp [Except.map]

theorem mapError_eq_ok {x : Except ε α} {f : ε → ε'} {a : α} :
    x.mapError f = .ok a ↔ x = .ok a := by
  cases x with
  | error e => simp [Except.mapError]
  | ok a => simp [Except.mapError]

theorem mapError_eq_error {x : Except ε α} {f : ε → ε'} {e' : ε'} :
    x.mapError f = .error e' ↔ ∃ e, x = .error e ∧ f e = e' := by
  cases x with
  | error e => simp [Except.mapError]
  | ok a => simp [Except.mapError]

theorem mapError_map (x : Except ε α) (f : α → β) (g : ε → ε') :
    (x.map f).mapError g = (x.mapError g).map f := by
  cases x <;> rfl

theorem mapError_bind (x : Except ε α) (f : α → Except ε β) (g : ε → ε') :
    (x >>= f).mapError g = x.mapError g >>= fun a => (f a).mapError g := by
  cases x <;> rfl

theorem pure_eq_ok {a b : α} : (pure a : Except ε α) = .ok b ↔ a = b := by
  simp [pure, Except.pure]

/-- A list of computations succeeds exactly if every one of them does. -/
theorem mapM_eq_ok {f : α → Except ε β} {xs : List α} {ys : List β} :
    xs.mapM f = .ok ys ↔ List.Forall₂ (fun x y => f x = .ok y) xs ys := by
  induction xs generalizing ys with
  | nil => rw [List.mapM_nil, pure_eq_ok, List.forall₂_nil_left_iff, eq_comm]
  | cons x xs ih =>
    rw [List.mapM_cons, bind_eq_ok]
    simp only [bind_eq_ok, pure_eq_ok, ih]
    constructor
    · rintro ⟨y, hy, ys', hys, rfl⟩
      exact .cons hy hys
    · intro h
      cases h with
      | cons hy hys => exact ⟨_, hy, _, hys, rfl⟩

theorem mapM_getElem? {f : α → Except ε β} {xs : List α} {ys : List β} {n : Nat} {x : α}
    (h : xs.mapM f = .ok ys) (hn : xs[n]? = some x) : ∃ y, ys[n]? = some y ∧ f x = .ok y := by
  rw [mapM_eq_ok] at h
  induction h generalizing n with
  | nil => simp at hn
  | cons hy _ ih =>
    cases n with
    | zero =>
      simp only [List.getElem?_cons_zero, Option.some.injEq] at hn
      subst hn
      exact ⟨_, by simp, hy⟩
    | succ n => simpa using ih (by simpa using hn)

/-- A list of computations fails only if one of them does. -/
theorem mapM_eq_error {f : α → Except ε β} {xs : List α} {e : ε} (h : xs.mapM f = .error e) :
    ∃ x ∈ xs, f x = .error e := by
  induction xs with
  | nil => simp [pure, Except.pure] at h
  | cons x xs ih =>
    rw [List.mapM_cons, bind_eq_error] at h
    rcases h with h | ⟨y, _, h⟩
    · exact ⟨x, by simp, h⟩
    · rw [bind_eq_error] at h
      rcases h with h | ⟨ys, _, h⟩
      · obtain ⟨x', hx', he⟩ := ih h
        exact ⟨x', by simp [hx'], he⟩
      · simp [pure, Except.pure] at h

/-- Steps in a row fail exactly if one of them fails behind others that succeed. -/
theorem foldlM_eq_error {f : β → α → Except ε β} {xs : List α} {b : β} {e : ε} :
    xs.foldlM f b = .error e ↔
      ∃ front x back c, xs = front ++ x :: back ∧ front.foldlM f b = .ok c ∧ f c x = .error e := by
  constructor
  · intro h
    induction xs generalizing b with
    | nil => cases h
    | cons x xs ih =>
      rw [List.foldlM_cons, bind_eq_error] at h
      rcases h with h | ⟨c, hc, h⟩
      · exact ⟨[], x, xs, b, rfl, rfl, h⟩
      · obtain ⟨front, y, back, d, rfl, hd, hy⟩ := ih h
        refine ⟨x :: front, y, back, d, rfl, ?_, hy⟩
        rw [List.foldlM_cons, hc]
        exact hd
  · rintro ⟨front, x, back, c, rfl, hc, hx⟩
    rw [List.foldlM_append, hc]
    simp [bind, Except.bind, hx]

/-! ## Errors -/

/-- Every error that the computation may end with is of a kind. -/
def ErrorIs (kind : ε → Prop) (x : Except ε α) : Prop := ∀ e, x = .error e → kind e

variable {kind : ε → Prop}

theorem errorIs_ok (a : α) : ErrorIs kind (.ok a : Except ε α) := by
  intro e h
  cases h

theorem errorIs_error {e : ε} (h : kind e) : ErrorIs kind (.error e : Except ε α) := by
  intro e' he
  cases he
  exact h

theorem ErrorIs.bind {x : Except ε α} {f : α → Except ε β} (hx : ErrorIs kind x)
    (hf : ∀ a, x = .ok a → ErrorIs kind (f a)) : ErrorIs kind (x >>= f) := by
  intro e h
  rcases bind_eq_error.1 h with h | ⟨a, ha, h⟩
  · exact hx e h
  · exact hf a ha e h

theorem errorIs_mapError {kind : ε' → Prop} {f : ε → ε'} (x : Except ε α) (h : ∀ e, kind (f e)) :
    ErrorIs kind (x.mapError f) := by
  intro e he
  obtain ⟨e, _, rfl⟩ := mapError_eq_error.1 he
  exact h e

theorem errorIs_mapM {f : α → Except ε β} {xs : List α} (h : ∀ x ∈ xs, ErrorIs kind (f x)) :
    ErrorIs kind (xs.mapM f) := by
  intro e he
  obtain ⟨x, hx, hf⟩ := mapM_eq_error he
  exact h x hx e hf

/-! ## Two computations -/

/-- The second computation succeeds exactly if the first one does, and gives
what `k` makes of its result. The errors may differ. -/
inductive Image (k : α → β) : Except ε α → Except ε' β → Prop
  | ok (a : α) : Image k (.ok a) (.ok (k a))
  | error (e : ε) (e' : ε') : Image k (.error e) (.error e')

namespace Image

variable {γ δ : Type} {k : α → β} {x : Except ε α} {y : Except ε' β}

theorem refl (x : Except ε α) : Image (fun a => a) x x := by
  cases x with
  | error e => exact .error e e
  | ok a => exact .ok a

theorem of_mapError {f : ε → ε'} {y : Except ε' α} (h : y = x.mapError f) :
    Image (fun a => a) x y := by
  subst h
  cases x with
  | error e => exact .error e (f e)
  | ok a => exact .ok a

theorem bind {k' : γ → δ} {f : α → Except ε γ} {g : β → Except ε' δ} (h : Image k x y)
    (hf : ∀ a, Image k' (f a) (g (k a))) : Image k' (x >>= f) (y >>= g) := by
  cases h with
  | ok a => exact hf a
  | error e e' => exact .error e e'

theorem map {k' : γ → δ} {f : α → γ} {g : β → δ} (h : Image k x y)
    (hf : ∀ a, g (k a) = k' (f a)) : Image k' (x.map f) (y.map g) := by
  cases h with
  | ok a =>
    rw [Except.map, Except.map, hf]
    exact .ok (f a)
  | error e e' => exact .error e e'

theorem mapError {ε₁ ε₂ : Type} (f : ε → ε₁) (g : ε' → ε₂) (h : Image k x y) :
    Image k (x.mapError f) (y.mapError g) := by
  cases h with
  | ok a => exact .ok a
  | error e e' => exact .error (f e) (g e')

theorem mapM {ι : Type} {f : ι → Except ε α} {g : ι → Except ε' β} {xs : List ι} {i : ι → ι}
    (h : ∀ x, Image k (f x) (g (i x))) : Image (List.map k) (xs.mapM f) ((xs.map i).mapM g) := by
  induction xs with
  | nil => exact .ok []
  | cons x xs ih =>
    rw [List.map_cons, List.mapM_cons, List.mapM_cons]
    exact (h x).bind fun a => ih.bind fun as => .ok (a :: as)

/-- The second computation has a result exactly if the first one has. -/
theorem ok_iff (h : Image k x y) : (∃ b, y = .ok b) ↔ ∃ a, x = .ok a := by
  cases h with
  | ok a => exact ⟨fun _ => ⟨a, rfl⟩, fun _ => ⟨k a, rfl⟩⟩
  | error e e' => exact ⟨nofun, nofun⟩

theorem eq_of_ok {a : α} {b : β} (h : Image k x y) (hx : x = .ok a) (hy : y = .ok b) :
    b = k a := by
  cases h with
  | ok a' =>
    cases hx
    cases hy
    rfl
  | error e e' => cases hx

end Image

/-- Both computations have the same result, or both fail with errors that are
related. -/
inductive SameBut (r : ε → ε' → Prop) : Except ε α → Except ε' α → Prop
  | ok (a : α) : SameBut r (.ok a) (.ok a)
  | error {e : ε} {e' : ε'} (h : r e e') : SameBut r (.error e) (.error e')

namespace SameBut

variable {r : ε → ε' → Prop} {x : Except ε α} {y : Except ε' α}

theorem refl {r : ε → ε → Prop} (hr : ∀ e, r e e) (x : Except ε α) : SameBut r x x := by
  cases x with
  | error e => exact .error (hr e)
  | ok a => exact .ok a

theorem bind {f : α → Except ε β} {g : α → Except ε' β} (h : SameBut r x y)
    (hf : ∀ a, SameBut r (f a) (g a)) : SameBut r (x >>= f) (y >>= g) := by
  cases h with
  | ok a => exact hf a
  | error h => exact .error h

theorem map (h : SameBut r x y) (f : α → β) : SameBut r (x.map f) (y.map f) := by
  cases h with
  | ok a => exact .ok (f a)
  | error h => exact .error h

theorem mapError {ε₁ ε₂ : Type} {s : ε₁ → ε₂ → Prop} {f : ε → ε₁} {g : ε' → ε₂}
    (h : SameBut r x y) (hs : ∀ e e', r e e' → s (f e) (g e')) :
    SameBut s (x.mapError f) (y.mapError g) := by
  cases h with
  | ok a => exact .ok a
  | error h => exact .error (hs _ _ h)

theorem eq_ok {a : α} (h : SameBut r x y) (hx : x = .ok a) : y = .ok a := by
  cases h with
  | ok a' =>
    cases hx
    rfl
  | error h => cases hx

end SameBut

end Except
