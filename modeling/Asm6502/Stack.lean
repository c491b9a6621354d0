-- A stack, seen as the list of its items from the bottom up.

namespace Asm6502

/-- A stack; the top item stands first. -/
structure Stack (α : Type) where
  items : List α := []
deriving DecidableEq, Repr

namespace Stack

variable {α : Type}

def isEmpty (s : Stack α) : Bool := s.items.isEmpty

def push (s : Stack α) (a : α) : Stack α := ⟨a :: s.items⟩

def top? (s : Stack α) : Option α := s.items.head?

/-- The top item and the stack without it. -/
def pop? (s : Stack α) : Option (α × Stack α) :=
  match s.items with
  | [] => none
  | a :: rest => some (a, ⟨rest⟩)

def clear (_ : Stack α) : Stack α := ⟨[]⟩

/-- The items from the bottom up. -/
def toList (s : Stack α) : List α := s.items.reverse

@[simp] theorem toList_push (s : Stack α) (a : α) : (s.push a).toList = s.toList ++ [a] := by
  simp [push, toList]

theorem toList_pop? {s t : Stack α} {a : α} (h : s.pop? = some (a, t)) :
    s.toList = t.toList ++ [a] := by
  unfold pop? at h
  split at h
  · simp at h
  · rename_i b rest hs
    obtain ⟨rfl, rfl⟩ := Prod.mk.inj (Option.some.inj h)
    simp [toList, hs]

@[simp] theorem toList_clear (s : Stack α) : s.clear.toList = [] := rfl

end Stack

end Asm6502
