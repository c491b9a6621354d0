-- Loops that an expansion leaves open. Where a loop ends without a comparison, the
-- expansion breaks off with the loops around it still open, and the next one goes
-- on with them. Nothing else leaves loops open: the loops that are open at the end
-- of the text are forgotten. So what an expansion does depends on its own lines
-- alone exactly as long as no loop was left open so.
import Asm6502.Proofs.LoopMatching

namespace Asm6502

namespace Control

/-! ## One expansion -/

/-- The first end of a loop that is wrong has no comparison, and stands in another
loop. -/
def Strands (depth : Nat) (sites : List Site) : Prop :=
  ∃ front site back operand, sites = front ++ site :: back ∧ Sound depth front ∧
    kind site.statement = .closing operand ∧ Comparison.of? operand = none ∧
    closed front + 1 < depth + opened front

section Strands

variable {state : State} {sites : List Site} {lines : List Line}

theorem strands_iff :
    Strands state.loops.items.length sites ↔
      ∃ abort, state.passAll sites = .error abort ∧ abort.state.loops.items ≠ [] := by
  constructor
  · rintro ⟨front, site, back, operand, rfl, hsound, hk, hnone, hlt⟩
    obtain ⟨mid, hf⟩ := sound_iff.1 hsound
    have hcount := passAll_count hf
    obtain ⟨loop, outer, hl⟩ := List.exists_cons_of_length_pos
      (show 0 < mid.loops.items.length by omega)
    refine ⟨_, passAll_eq_error.2
      ⟨front, site, back, mid, operand, rfl, hf, hk, .inr ⟨loop, outer, hl, hnone, rfl⟩⟩, ?_⟩
    rintro rfl
    rw [hl, List.length_singleton] at hcount
    omega
  · rintro ⟨abort, h, hleft⟩
    obtain ⟨front, site, back, mid, operand, hsplit, hf, hk, hcause⟩ := passAll_eq_error.1 h
    have hcount := passAll_count hf
    rcases hcause with ⟨hl, rfl⟩ | ⟨loop, outer, hl, hnone, rfl⟩
    · exact absurd hl hleft
    · have hpos : 0 < outer.length := List.length_pos_of_ne_nil hleft
      rw [hl, List.length_cons] at hcount
      exact ⟨front, site, back, operand, hsplit, sound_iff.2 ⟨mid, hf⟩, hk, hnone, by omega⟩

/-- Loops are open behind an expansion only if it breaks off in one of them. -/
theorem expand_loops_eq_nil_iff :
    (expand state lines).state.loops.items = [] ↔
      ¬ Strands state.loops.items.length (sitesOf lines) := by
  rw [strands_iff]
  cases h : state.passAll (sitesOf lines) with
  | error abort =>
    rw [(Expansion.ending_eq_error.1 (expand_of_abort h)).2]
    simp
  | ok next =>
    have hnil : (expand state lines).state.loops.items = [] := by
      cases hl : next.loops.items with
      | nil =>
        rw [(Expansion.ending_eq_ok.1 (expand_of_closed h hl)).2]
        exact hl
      | cons loop outer => rw [(Expansion.ending_eq_error.1 (expand_of_open h hl)).2]
    simp [hnil]

end Strands

/-! ## Expansions that do the same -/

/-- Two expansions both succeed, or fail on the same line for the same reason, or
both find a loop open at the end. -/
structure SameOutcome (e e' : Expansion) : Prop where
  success : (∃ out, e.lines = .ok out) ↔ ∃ out, e'.lines = .ok out
  located : ∀ file number text cause, e.lines = .error (.located file number text cause) ↔
    e'.lines = .error (.located file number text cause)

theorem located_iff {state : State} {lines : List Line} {file : Text} {number : Int} {text : Text}
    {cause : Error} :
    (expand state lines).lines = .error (.located file number text cause) ↔
      ∃ line cause', BreaksAt state.loops.items.length (sitesOf lines) line cause' ∧
        Error.located file number text cause =
          .located line.file line.number line.text cause' := by
  rw [expand_eq_error_iff, abort_iff]
  constructor
  · rintro (h | ⟨_, _, _, _, _, h⟩)
    · exact h
    · cases h
  · exact Or.inl

/-- Without open loops, the lines decide. -/
theorem sameOutcome_of_closed {state state' : State} (h : state.loops.items = [])
    (h' : state'.loops.items = []) (lines : List Line) :
    SameOutcome (expand state lines) (expand state' lines) := by
  constructor
  · rw [expand_isOk_iff, expand_isOk_iff, passAll_closed_iff h, passAll_closed_iff h']
  · intro file number text cause
    rw [located_iff, located_iff, h, h']

/-- With an open loop, an expansion of no lines at all fails. -/
theorem sameOutcome_iff {state : State} :
    (∀ lines, SameOutcome (expand state lines) (expand {} lines)) ↔ state.loops.items = [] := by
  constructor
  · intro h
    have hempty : ∃ out, (expand {} []).lines = .ok out := ⟨[], rfl⟩
    obtain ⟨next, hnext, hl⟩ := expand_isOk_iff.1 ((h []).success.2 hempty)
    cases hnext
    exact hl
  · intro h lines
    exact sameOutcome_of_closed h rfl lines

/-! ## Expansions in a row -/

/-- The state behind expansions, each of which starts in the state that the last
one left. -/
def behindExpansions (state : State) (calls : List (List Line)) : State :=
  calls.foldl (fun state lines => (expand state lines).state) state

theorem never_left_open_iff {state : State} (hopen : state.loops.items = [])
    (calls : List (List Line)) :
    (∀ n, (behindExpansions state (calls.take n)).loops.items = []) ↔
      ∀ lines ∈ calls, ¬ Strands 0 (sitesOf lines) := by
  induction calls generalizing state with
  | nil => simp [behindExpansions, hopen]
  | cons lines rest ih =>
    have hfirst := @expand_loops_eq_nil_iff state lines
    rw [hopen, List.length_nil] at hfirst
    rw [List.forall_mem_cons]
    constructor
    · intro h
      have hnil : (expand state lines).state.loops.items = [] := h 1
      exact ⟨hfirst.1 hnil, (ih hnil).1 fun n => h (n + 1)⟩
    · rintro ⟨hlines, hrest⟩ n
      have hnil := hfirst.2 hlines
      cases n with
      | zero => exact hopen
      | succ n => exact (ih hnil).2 hrest n

/-- Take expansions in a row, from a state without open loops. No loop is open behind
any of them exactly if none of their texts has, as the first end of a loop that is
wrong, one without a comparison inside another loop. And a later expansion depends
on its own lines alone, as in a fresh state, exactly where no loop was left open. -/
theorem no_loop_is_left_open_iff {state : State} (hopen : state.loops.items = [])
    (calls : List (List Line)) :
    ((∀ n, (behindExpansions state (calls.take n)).loops.items = []) ↔
      ∀ lines ∈ calls, ¬ Strands 0 (sitesOf lines)) ∧
    ∀ n, (∀ lines, SameOutcome (expand (behindExpansions state (calls.take n)) lines)
        (expand {} lines)) ↔
      (behindExpansions state (calls.take n)).loops.items = [] :=
  ⟨never_left_open_iff hopen calls, fun _ => sameOutcome_iff⟩

/-- Two loops `@ @`, the inner one of which ends with `@=X`. -/
def stranded : List Line :=
  let line (number : Int) (statements : List Statement) : Line :=
    { number, file := ascii "main.s", text := [], label := [], statements }
  [line 1 [⟨.system (ascii "@"), .empty⟩, ⟨.system (ascii "@"), .empty⟩],
    line 2 [⟨.system (ascii "@"), .ident (ascii "X")⟩]]

/-- The end `@=X>1` of a loop that was never started. -/
def lateEnd : List Line :=
  [{ number := 1, file := ascii "main.s", text := [], label := [], statements :=
      [⟨.system (ascii "@"), .binary (.ident (ascii "X")) .greater (.decimal 1)⟩] }]

/-- Behind the two loops, an end of a loop is taken for the end of the outer one,
although its own text starts none. -/
theorem stranded_loop_is_ended_later :
    ¬ (∀ n, (behindExpansions {} ([stranded, lateEnd].take n)).loops.items = []) ∧
      ¬ (∀ lines, SameOutcome (expand (behindExpansions {} ([stranded, lateEnd].take 1)) lines)
        (expand {} lines)) ∧
      (∃ out, (expand (behindExpansions {} [stranded]) lateEnd).lines = .ok out) ∧
      (expand {} lateEnd).lines = .error (.located (ascii "main.s") 1 [] .unmatchedLoop) := by
  obtain ⟨hnever, hsame⟩ := @no_loop_is_left_open_iff {} rfl [stranded, lateEnd]
  have hleft : (behindExpansions {} ([stranded, lateEnd].take 1)).loops.items ≠ [] := by
    decide +kernel
  have hstrands : Strands 0 (sitesOf stranded) := by
    by_contra hnot
    exact hleft ((@expand_loops_eq_nil_iff {} stranded).2 hnot)
  refine ⟨fun h => ?_, fun h => hleft ((hsame 1).1 h), ⟨_, rfl⟩, rfl⟩
  exact hnever.1 h stranded (by simp) hstrands

end Control

end Asm6502
