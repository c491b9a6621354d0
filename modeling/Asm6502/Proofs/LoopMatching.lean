-- Loops are matched like brackets. An expansion goes through the statements in
-- the order of the text, whether they stand on one line, in the body of an if or
-- on several lines. It succeeds exactly if its loops are balanced and all of them
-- end with a comparison. Else it tells the first end of a loop that is wrong, or
-- the innermost loop that is open at the end.
import Asm6502.Proofs.SourceOrder
import Asm6502.Proofs.Structured
import Mathlib.Combinatorics.Enumerative.DyckWord

namespace Asm6502

namespace Control

/-! ## Brackets -/

/-- A statement and the line that it stands on. -/
structure Site where
  line : Line
  statement : Statement
deriving DecidableEq, Repr

/-- The statements of lines, in the order of the text. -/
def sitesOf (lines : List Line) : List Site :=
  lines.flatMap fun line => line.statements.map (Site.mk line)

/-- The bracket that a statement is, if it starts or ends a loop. -/
def Site.step? (site : Site) : Option DyckStep :=
  match kind site.statement with
  | .opening => some .U
  | .closing _ => some .D
  | .choice _ | .plain => none

/-- The brackets of statements. -/
def stepsOf (sites : List Site) : List DyckStep := sites.filterMap Site.step?

/-- The loops of statements are balanced brackets. -/
def Nested (sites : List Site) : Prop := ∃ word : DyckWord, word.toList = stepsOf sites

/-- How many loops statements start. -/
def opened (sites : List Site) : Nat := (stepsOf sites).count .U

/-- How many loops statements end. -/
def closed (sites : List Site) : Nat := (stepsOf sites).count .D

theorem stepsOf_append (front back : List Site) :
    stepsOf (front ++ back) = stepsOf front ++ stepsOf back := List.filterMap_append

theorem opened_append (front back : List Site) :
    opened (front ++ back) = opened front + opened back := by
  rw [opened, stepsOf_append, List.count_append]
  rfl

theorem closed_append (front back : List Site) :
    closed (front ++ back) = closed front + closed back := by
  rw [closed, stepsOf_append, List.count_append]
  rfl

theorem opened_opening {site : Site} (hk : kind site.statement = .opening) (back : List Site) :
    opened (site :: back) = opened back + 1 ∧ closed (site :: back) = closed back := by
  simp [opened, closed, stepsOf, Site.step?, hk]

section Nested

variable {front mid back : List Site}

theorem nested_nil : Nested [] := ⟨0, rfl⟩

theorem nested_of_step? {site : Site} (h : site.step? = none) : Nested [site] := by
  have hsteps : stepsOf [site] = [] := by simp [stepsOf, h]
  exact ⟨0, hsteps.symm⟩

theorem Nested.append (hf : Nested front) (hb : Nested back) : Nested (front ++ back) := by
  obtain ⟨v, hv⟩ := hf
  obtain ⟨w, hw⟩ := hb
  refine ⟨v + w, ?_⟩
  rw [stepsOf_append, ← hv, ← hw]
  rfl

/-- A loop around balanced loops is balanced. -/
theorem Nested.loop (h : Nested mid) {start stop : Site} {operand : Expr}
    (hs : kind start.statement = .opening) (hc : kind stop.statement = .closing operand) :
    Nested (start :: (mid ++ [stop])) := by
  obtain ⟨w, hw⟩ := h
  have hstart : start.step? = some .U := by simp [Site.step?, hs]
  have hstop : stop.step? = some .D := by simp [Site.step?, hc]
  refine ⟨w.nest, ?_⟩
  simp [stepsOf, DyckWord.nest, hstart, hstop, hw]

theorem Nested.opened_eq (h : Nested mid) : opened mid = closed mid := by
  obtain ⟨w, hw⟩ := h
  rw [opened, closed, ← hw]
  exact w.count_U_eq_count_D

/-- In balanced loops, none ends that was not started. -/
theorem Nested.closed_le (h : Nested (front ++ back)) : closed front ≤ opened front := by
  obtain ⟨w, hw⟩ := h
  have hle := w.count_D_le_count_U (stepsOf front).length
  rw [hw, stepsOf_append, List.take_left] at hle
  exact hle

/-- A loop that starts before balanced loops never ends. -/
theorem not_nested_of_opening {site : Site} (hk : kind site.statement = .opening)
    (hb : Nested back) : ¬ Nested (front ++ site :: back) := by
  intro h
  have hcount := h.opened_eq
  have hle := h.closed_le
  have heq := hb.opened_eq
  obtain ⟨hopened, hclosed⟩ := opened_opening hk back
  rw [opened_append, closed_append] at hcount
  omega

/-- Only one start of a loop can have balanced loops behind it. -/
theorem innermost_unique {front front' back back' : List Site} {site site' : Site}
    (h : front ++ site :: back = front' ++ site' :: back')
    (hk : kind site.statement = .opening) (hk' : kind site'.statement = .opening)
    (hb : Nested back) (hb' : Nested back') : front = front' ∧ site = site' := by
  rcases List.append_eq_append_iff.1 h with ⟨mid, rfl, hm⟩ | ⟨mid, rfl, hm⟩
  · cases mid with
    | nil =>
      obtain ⟨rfl, -⟩ := List.cons.inj hm
      simp
    | cons first mid =>
      obtain ⟨rfl, rfl⟩ := List.cons.inj hm
      exact absurd hb (not_nested_of_opening hk' hb')
  · cases mid with
    | nil =>
      obtain ⟨rfl, -⟩ := List.cons.inj hm
      simp
    | cons first mid =>
      obtain ⟨rfl, rfl⟩ := List.cons.inj hm
      exact absurd hb' (not_nested_of_opening hk hb)

end Nested

/-! ## Passing statements -/

/-- Where an expansion breaks off, why, and in which state. -/
structure Abort where
  line : Line
  cause : Error
  state : State

/-- What a statement does to the state of an expansion. -/
def State.pass (state : State) (site : Site) : Except Abort State :=
  match kind site.statement with
  | .plain => .ok state
  | .choice _ => .ok { state with counter := state.counter + 1 }
  | .opening =>
    .ok { counter := state.counter + 1
          loops := state.loops.push { label := labelOf state.counter, line := site.line.number } }
  | .closing operand =>
    match state.loops.items with
    | [] => .error { line := site.line, cause := .unmatchedLoop, state }
    | _ :: outer =>
      let state := { state with loops := ⟨outer⟩ }
      if (Comparison.of? operand).isSome then .ok state
      else .error { line := site.line, cause := .badCondition operand.render, state }

/-- What statements do to the state, one after another. -/
def State.passAll (state : State) (sites : List Site) : Except Abort State :=
  sites.foldlM State.pass state

section Pass

variable {state next : State} {site : Site}

/-- A statement that is passed leaves the loops as they are, starts one, or ends
the innermost one with a comparison. -/
theorem pass_cases (h : state.pass site = .ok next) :
    site.step? = none ∧ next.loops.items = state.loops.items ∨
    kind site.statement = .opening ∧
      next.loops.items = ⟨labelOf state.counter, site.line.number⟩ :: state.loops.items ∨
    ∃ operand loop, kind site.statement = .closing operand ∧
      (Comparison.of? operand).isSome ∧ state.loops.items = loop :: next.loops.items := by
  unfold State.pass at h
  cases hk : kind site.statement with
  | plain | choice =>
    simp only [hk, Except.ok.injEq] at h
    exact .inl ⟨by simp [Site.step?, hk], by rw [← h]⟩
  | opening =>
    simp only [hk, Except.ok.injEq] at h
    exact .inr (.inl ⟨rfl, by rw [← h]; rfl⟩)
  | closing operand =>
    simp only [hk] at h
    split at h
    · cases h
    · rename_i loop outer hl
      split at h
      · rename_i hc
        cases h
        exact .inr (.inr ⟨operand, loop, rfl, hc, hl⟩)
      · cases h

/-- Only the end of a loop cannot be passed: no loop is open, or it has no
comparison and its loop is ended all the same. -/
theorem pass_eq_error {abort : Abort} :
    state.pass site = .error abort ↔ ∃ operand, kind site.statement = .closing operand ∧
      (state.loops.items = [] ∧ abort = ⟨site.line, .unmatchedLoop, state⟩ ∨
        ∃ loop outer, state.loops.items = loop :: outer ∧ Comparison.of? operand = none ∧
          abort = ⟨site.line, .badCondition operand.render, { state with loops := ⟨outer⟩ }⟩) := by
  unfold State.pass
  cases hk : kind site.statement with
  | plain | choice | opening => simp
  | closing operand =>
    cases hl : state.loops.items with
    | nil => simp [eq_comm]
    | cons loop outer =>
      cases hc : Comparison.of? operand with
      | none => simp [hc, eq_comm]
      | some c => simp [hc]

theorem pass_counter (h : state.pass site = .ok next) :
    next.counter = numberBehind state.counter [site.statement] := by
  unfold State.pass at h
  cases hk : kind site.statement with
  | plain | choice | opening =>
    simp only [hk, Except.ok.injEq] at h
    simp [← h, numberBehind, startsConstruct, hk]
  | closing operand =>
    simp only [hk] at h
    split at h
    · cases h
    · split at h
      · cases h
        simp [numberBehind, startsConstruct, hk]
      · cases h

theorem pass_count (h : state.pass site = .ok next) :
    next.loops.items.length + closed [site] = state.loops.items.length + opened [site] := by
  rcases pass_cases h with ⟨hstep, hl⟩ | ⟨hk, hl⟩ | ⟨operand, loop, hk, -, hl⟩
  · simp [opened, closed, stepsOf, hstep, hl]
  · simp [opened, closed, stepsOf, Site.step?, hk, hl]
  · simp [opened, closed, stepsOf, Site.step?, hk, hl]

end Pass

section PassAll

variable {state next : State} {sites front back : List Site} {site : Site}

theorem passAll_append :
    state.passAll (front ++ back) = .ok next ↔
      ∃ mid, state.passAll front = .ok mid ∧ mid.passAll back = .ok next := by
  rw [State.passAll, List.foldlM_append, Except.bind_eq_ok]
  rfl

theorem passAll_cons :
    state.passAll (site :: back) = .ok next ↔
      ∃ mid, state.pass site = .ok mid ∧ mid.passAll back = .ok next := by
  rw [State.passAll, List.foldlM_cons, Except.bind_eq_ok]
  rfl

/-- Statements cannot be passed if one of them cannot, behind those before it. -/
theorem passAll_eq_error {abort : Abort} :
    state.passAll sites = .error abort ↔ ∃ front site back mid operand,
      sites = front ++ site :: back ∧ state.passAll front = .ok mid ∧
      kind site.statement = .closing operand ∧
      (mid.loops.items = [] ∧ abort = ⟨site.line, .unmatchedLoop, mid⟩ ∨
        ∃ loop outer, mid.loops.items = loop :: outer ∧ Comparison.of? operand = none ∧
          abort = ⟨site.line, .badCondition operand.render, { mid with loops := ⟨outer⟩ }⟩) := by
  rw [State.passAll, Except.foldlM_eq_error]
  constructor
  · rintro ⟨front, site, back, mid, hsplit, hf, hp⟩
    obtain ⟨operand, hk, hcause⟩ := pass_eq_error.1 hp
    exact ⟨front, site, back, mid, operand, hsplit, hf, hk, hcause⟩
  · rintro ⟨front, site, back, mid, operand, hsplit, hf, hk, hcause⟩
    exact ⟨front, site, back, mid, hsplit, hf, pass_eq_error.2 ⟨operand, hk, hcause⟩⟩

/-- The loops that are open and those that ended are as many as those that were
open before and those that were started. -/
theorem passAll_count (h : state.passAll sites = .ok next) :
    next.loops.items.length + closed sites = state.loops.items.length + opened sites := by
  induction sites generalizing state with
  | nil =>
    cases h
    rfl
  | cons site rest ih =>
    obtain ⟨mid, hp, hr⟩ := passAll_cons.1 h
    have hfirst := pass_count hp
    have hrest := ih hr
    have hopened := opened_append [site] rest
    have hclosed := closed_append [site] rest
    rw [List.singleton_append] at hopened hclosed
    omega

theorem passAll_counter (h : state.passAll sites = .ok next) :
    next.counter = numberBehind state.counter (sites.map Site.statement) := by
  induction sites generalizing state with
  | nil =>
    cases h
    rfl
  | cons site rest ih =>
    obtain ⟨mid, hp, hr⟩ := passAll_cons.1 h
    rw [ih hr, pass_counter hp]
    simp only [numberBehind, List.map_cons, List.countP_cons, List.countP_nil]
    omega

end PassAll

/-! ## Ends of loops that are wrong -/

/-- Every end of a loop has a loop to end and a comparison, if so many loops are
open before the statements. -/
def Sound (depth : Nat) (sites : List Site) : Prop :=
  ∀ front site back operand, sites = front ++ site :: back →
    kind site.statement = .closing operand →
      closed front < depth + opened front ∧ (Comparison.of? operand).isSome

/-- The line of the first end of a loop that is wrong, and what is wrong with it. -/
inductive BreaksAt (depth : Nat) (sites : List Site) : Line → Error → Prop
  /-- More loops end than were started. -/
  | unmatched {front back : List Site} {site : Site} {operand : Expr}
      (split : sites = front ++ site :: back) (sound : Sound depth front)
      (ends : kind site.statement = .closing operand)
      (exceeds : depth + opened front ≤ closed front) :
      BreaksAt depth sites site.line .unmatchedLoop
  /-- A loop ends without a comparison. -/
  | noComparison {front back : List Site} {site : Site} {operand : Expr}
      (split : sites = front ++ site :: back) (sound : Sound depth front)
      (ends : kind site.statement = .closing operand)
      (has_loop : closed front < depth + opened front)
      (no_comparison : Comparison.of? operand = none) :
      BreaksAt depth sites site.line (.badCondition operand.render)

section Breaks

variable {state : State} {sites : List Site}

theorem sound_iff :
    Sound state.loops.items.length sites ↔ ∃ next, state.passAll sites = .ok next := by
  constructor
  · intro hs
    cases h : state.passAll sites with
    | ok next => exact ⟨next, rfl⟩
    | error abort =>
      obtain ⟨front, site, back, mid, operand, rfl, hf, hk, hcause⟩ := passAll_eq_error.1 h
      obtain ⟨hlt, hc⟩ := hs front site back operand rfl hk
      have hcount := passAll_count hf
      rcases hcause with ⟨hl, -⟩ | ⟨loop, outer, -, hnone, -⟩
      · rw [hl, List.length_nil] at hcount
        omega
      · rw [hnone] at hc
        cases hc
  · rintro ⟨next, h⟩ front site back operand rfl hk
    obtain ⟨mid, hf, hr⟩ := passAll_append.1 h
    obtain ⟨_, hp, -⟩ := passAll_cons.1 hr
    have hcount := passAll_count hf
    rcases pass_cases hp with ⟨hstep, -⟩ | ⟨hopen, -⟩ | ⟨operand', loop, hclose, hc, hl⟩
    · simp [Site.step?, hk] at hstep
    · rw [hk] at hopen
      cases hopen
    · rw [hk] at hclose
      cases hclose
      rw [hl, List.length_cons] at hcount
      exact ⟨by omega, hc⟩

/-- Going through the statements breaks off at the first end of a loop that is
wrong. -/
theorem breaksAt_iff {line : Line} {cause : Error} :
    BreaksAt state.loops.items.length sites line cause ↔
      ∃ last, state.passAll sites = .error ⟨line, cause, last⟩ := by
  constructor
  · intro h
    cases h with
    | unmatched split sound ends exceeds =>
      subst split
      obtain ⟨mid, hf⟩ := sound_iff.1 sound
      have hcount := passAll_count hf
      have hl : mid.loops.items = [] := List.eq_nil_of_length_eq_zero (by omega)
      exact ⟨mid, passAll_eq_error.2 ⟨_, _, _, mid, _, rfl, hf, ends, .inl ⟨hl, rfl⟩⟩⟩
    | noComparison split sound ends has_loop no_comparison =>
      subst split
      obtain ⟨mid, hf⟩ := sound_iff.1 sound
      have hcount := passAll_count hf
      obtain ⟨loop, outer, hl⟩ := List.exists_cons_of_length_pos
        (show 0 < mid.loops.items.length by omega)
      exact ⟨{ mid with loops := ⟨outer⟩ }, passAll_eq_error.2
        ⟨_, _, _, mid, _, rfl, hf, ends, .inr ⟨loop, outer, hl, no_comparison, rfl⟩⟩⟩
  · rintro ⟨last, h⟩
    obtain ⟨front, site, back, mid, operand, hsplit, hf, hk, hcause⟩ := passAll_eq_error.1 h
    have hsound := sound_iff.2 ⟨mid, hf⟩
    have hcount := passAll_count hf
    rcases hcause with ⟨hl, habort⟩ | ⟨loop, outer, hl, hnone, habort⟩
    · cases habort
      rw [hl, List.length_nil] at hcount
      exact .unmatched hsplit hsound hk (by omega)
    · cases habort
      rw [hl, List.length_cons] at hcount
      exact .noComparison hsplit hsound hk (by omega) hnone

end Breaks

/-! ## Loops that stay open -/

/-- The loops that are open behind statements, the innermost one first. Each was
started somewhere, and behind that only the loops inside it are not balanced. -/
def OpenLoops (counter : Nat) : List Site → List Loop → Prop
  | sites, [] => Nested sites
  | sites, loop :: outer => ∃ front site back, sites = front ++ site :: back ∧
    kind site.statement = .opening ∧ Nested back ∧
    loop = ⟨labelOf (numberBehind counter (front.map Site.statement)), site.line.number⟩ ∧
    OpenLoops counter front outer

section OpenLoops

variable {counter : Nat} {sites : List Site} {loops : List Loop}

theorem OpenLoops.append (h : OpenLoops counter sites loops) {more : List Site}
    (hm : Nested more) : OpenLoops counter (sites ++ more) loops := by
  cases loops with
  | nil => exact Nested.append h hm
  | cons loop outer =>
    obtain ⟨front, site, back, rfl, hk, hb, hloop, houter⟩ := h
    exact ⟨front, site, back ++ more, by simp, hk, hb.append hm, hloop, houter⟩

theorem OpenLoops.pass {state next : State} {site : Site}
    (h : OpenLoops counter sites state.loops.items)
    (hn : state.counter = numberBehind counter (sites.map Site.statement))
    (hp : state.pass site = .ok next) : OpenLoops counter (sites ++ [site]) next.loops.items := by
  rcases pass_cases hp with ⟨hstep, hl⟩ | ⟨hk, hl⟩ | ⟨operand, loop, hk, -, hl⟩
  · rw [hl]
    exact h.append (nested_of_step? hstep)
  · rw [hl, hn]
    exact ⟨sites, site, [], rfl, hk, nested_nil, rfl, h⟩
  · rw [hl] at h
    obtain ⟨front, start, back, rfl, hstart, hb, -, houter⟩ := h
    rw [List.append_assoc]
    exact houter.append (hb.loop hstart hk)

theorem openLoops_passAll {state next : State} (hopen : state.loops.items = [])
    (h : state.passAll sites = .ok next) :
    OpenLoops state.counter sites next.loops.items := by
  induction sites using List.reverseRecOn generalizing next with
  | nil =>
    cases h
    rw [hopen]
    exact nested_nil
  | append_singleton sites site ih =>
    obtain ⟨mid, hf, hr⟩ := passAll_append.1 h
    obtain ⟨_, hp, hend⟩ := passAll_cons.1 hr
    cases hend
    exact (ih hf).pass (passAll_counter hf) hp

end OpenLoops

/-! ## Expansions -/

/-- How an expansion ends: in a state, and with an error if it fails. -/
def Expansion.ending (e : Expansion) : Except (Error × State) State :=
  match e.lines with
  | .ok _ => .ok e.state
  | .error error => .error (error, e.state)

namespace Expansion

variable {e : Expansion}

theorem ending_eq_ok {state : State} :
    e.ending = .ok state ↔ (∃ out, e.lines = .ok out) ∧ e.state = state := by
  unfold ending
  cases e.lines <;> simp

theorem ending_eq_error {error : Error} {state : State} :
    e.ending = .error (error, state) ↔ e.lines = .error error ∧ e.state = state := by
  unfold ending
  cases e.lines <;> simp

theorem ending_after (e : Expansion) (lines : List Line) : (e.after lines).ending = e.ending := by
  unfold ending after
  cases e.lines <;> rfl

theorem ending_before (e : Expansion) (line : Line) : (e.before line).ending = e.ending := by
  unfold ending before
  cases e.lines <;> rfl

end Expansion

/-- What is told of an error on a line. -/
def reportOn (line : Line) (error : Error × State) : Error × State :=
  (.located line.file line.number line.text error.1, error.2)

def Abort.report (abort : Abort) : Error × State := reportOn abort.line (abort.cause, abort.state)

theorem Condition.of?_isSome (operand : Expr) :
    (Condition.of? operand).isSome = (Comparison.of? operand).isSome := by
  rw [Condition.of?_eq, Option.isSome_map]

/-- The statements of a line are passed in their order, those in the body of an if
like all others. -/
theorem expandStatements_ending (line : Line) (label : Text) (pending : List Statement)
    (state : State) (sts : List Statement) :
    (expandStatements line label pending state sts).ending.mapError (reportOn line) =
      (state.passAll (sts.map (Site.mk line))).mapError Abort.report := by
  induction sts generalizing label pending state with
  | nil => rfl
  | cons st rest ih =>
    rw [State.passAll, List.map_cons, List.foldlM_cons, State.pass]
    cases hk : kind st with
    | plain =>
      simp only [expandStatements, hk]
      exact ih label _ state
    | choice condition =>
      simp only [expandStatements, hk, Expansion.ending_after, Expansion.ending_before]
      exact ih [] [] _
    | opening =>
      simp only [expandStatements, hk, Expansion.ending_after]
      exact ih [] [] _
    | closing operand =>
      simp only [expandStatements, hk, Stack.pop?]
      cases hl : state.loops.items with
      | nil => rfl
      | cons loop outer =>
        simp only [← Condition.of?_isSome]
        cases hc : Condition.of? operand with
        | none => rfl
        | some condition =>
          simp only [Expansion.ending_after]
          exact ih [] [] _

theorem expandLine_ending (state : State) (line : Line) :
    (expandLine state line).ending =
      (state.passAll (line.statements.map (Site.mk line))).mapError Abort.report := by
  rw [← expandStatements_ending line line.label [] state line.statements]
  simp only [expandLine, Expansion.ending]
  cases (expandStatements line line.label [] state line.statements).lines <;> rfl

theorem expandLines_ending (state : State) (lines : List Line) :
    (expandLines state lines).ending = (state.passAll (sitesOf lines)).mapError Abort.report := by
  induction lines generalizing state with
  | nil => rfl
  | cons line rest ih =>
    have hsites : state.passAll (sitesOf (line :: rest)) =
        state.passAll (line.statements.map (Site.mk line)) >>=
          fun next => next.passAll (sitesOf rest) := by
      rw [sitesOf, List.flatMap_cons, State.passAll, List.foldlM_append]
      rfl
    rw [hsites, Except.mapError_bind, ← expandLine_ending, expandLines]
    cases hl : (expandLine state line).lines with
    | error error =>
      rw [Expansion.ending_eq_error.2 ⟨hl, rfl⟩]
      rfl
    | ok out =>
      rw [Expansion.ending_eq_ok.2 ⟨⟨out, hl⟩, rfl⟩]
      simp only [Expansion.ending_after]
      exact ih _

section Expand

variable {state next : State} {lines : List Line}

theorem expand_of_abort {abort : Abort} (h : state.passAll (sitesOf lines) = .error abort) :
    (expand state lines).ending = .error abort.report := by
  have hlines := expandLines_ending state lines
  rw [h, Except.mapError] at hlines
  have herror := (Expansion.ending_eq_error.1 hlines).1
  rw [← hlines, expand]
  simp only [herror]

theorem expand_of_closed (h : state.passAll (sitesOf lines) = .ok next)
    (hl : next.loops.items = []) : (expand state lines).ending = .ok next := by
  have hlines := expandLines_ending state lines
  rw [h, Except.mapError] at hlines
  obtain ⟨⟨out, ho⟩, hs⟩ := Expansion.ending_eq_ok.1 hlines
  rw [← hlines, expand]
  simp only [ho, hs, Stack.top?, hl, List.head?_nil]

/-- Loops that are open at the end of the text are an error, and are forgotten. -/
theorem expand_of_open {loop : Loop} {outer : List Loop}
    (h : state.passAll (sitesOf lines) = .ok next) (hl : next.loops.items = loop :: outer) :
    (expand state lines).ending =
      .error (.unclosedLoop loop.label loop.line, { next with loops := ⟨[]⟩ }) := by
  have hlines := expandLines_ending state lines
  rw [h, Except.mapError] at hlines
  obtain ⟨⟨out, ho⟩, hs⟩ := Expansion.ending_eq_ok.1 hlines
  rw [expand]
  simp only [ho, hs, Stack.top?, hl, List.head?_cons]
  rfl

theorem expand_isOk_iff :
    (∃ out, (expand state lines).lines = .ok out) ↔
      ∃ next, state.passAll (sitesOf lines) = .ok next ∧ next.loops.items = [] := by
  constructor
  · rintro ⟨out, hout⟩
    have hok := Expansion.ending_eq_ok.2 ⟨⟨out, hout⟩, rfl⟩
    cases h : state.passAll (sitesOf lines) with
    | error abort =>
      rw [expand_of_abort h] at hok
      cases hok
    | ok next =>
      cases hl : next.loops.items with
      | nil => exact ⟨next, rfl, hl⟩
      | cons loop outer =>
        rw [expand_of_open h hl] at hok
        cases hok
  · rintro ⟨next, h, hl⟩
    exact (Expansion.ending_eq_ok.1 (expand_of_closed h hl)).1

theorem expand_eq_error_iff {e : Error} :
    (expand state lines).lines = .error e ↔
      (∃ abort, state.passAll (sitesOf lines) = .error abort ∧ e = abort.report.1) ∨
      ∃ next loop outer, state.passAll (sitesOf lines) = .ok next ∧
        next.loops.items = loop :: outer ∧ e = .unclosedLoop loop.label loop.line := by
  constructor
  · intro he
    have herror := Expansion.ending_eq_error.2 ⟨he, rfl⟩
    cases h : state.passAll (sitesOf lines) with
    | error abort =>
      rw [expand_of_abort h, Except.error.injEq] at herror
      exact .inl ⟨abort, rfl, (Prod.mk.inj herror).1.symm⟩
    | ok next =>
      cases hl : next.loops.items with
      | nil =>
        rw [expand_of_closed h hl] at herror
        cases herror
      | cons loop outer =>
        rw [expand_of_open h hl, Except.error.injEq] at herror
        exact .inr ⟨next, loop, outer, rfl, hl, (Prod.mk.inj herror).1.symm⟩
  · rintro (⟨abort, h, rfl⟩ | ⟨next, loop, outer, h, hl, rfl⟩)
    · exact (Expansion.ending_eq_error.1 (expand_of_abort h)).1
    · exact (Expansion.ending_eq_error.1 (expand_of_open h hl)).1

/-- What is told of a line is the first end of a loop that is wrong. -/
theorem abort_iff {e : Error} :
    (∃ abort, state.passAll (sitesOf lines) = .error abort ∧ e = abort.report.1) ↔
      ∃ line cause, BreaksAt state.loops.items.length (sitesOf lines) line cause ∧
        e = .located line.file line.number line.text cause := by
  constructor
  · rintro ⟨abort, h, rfl⟩
    exact ⟨abort.line, abort.cause, breaksAt_iff.2 ⟨abort.state, h⟩, rfl⟩
  · rintro ⟨line, cause, hbreaks, rfl⟩
    obtain ⟨last, h⟩ := breaksAt_iff.1 hbreaks
    exact ⟨_, h, rfl⟩

end Expand

/-! ## Matched loops -/

/-- All loops that end have a comparison. -/
def AllCompare (sites : List Site) : Prop :=
  ∀ site ∈ sites, ∀ operand, kind site.statement = .closing operand →
    (Comparison.of? operand).isSome

section Matched

variable {state : State} {sites : List Site}

theorem Sound.allCompare {depth : Nat} (h : Sound depth sites) : AllCompare sites := by
  intro site hsite operand hk
  obtain ⟨front, back, rfl⟩ := List.append_of_mem hsite
  exact (h front site back operand rfl hk).2

theorem Nested.sound (h : Nested sites) (hc : AllCompare sites) : Sound 0 sites := by
  rintro front site back operand rfl hk
  have hsplit : front ++ site :: back = (front ++ [site]) ++ back := by simp
  have hle := (hsplit ▸ h).closed_le
  have hone : opened [site] = 0 ∧ closed [site] = 1 := by
    simp [opened, closed, stepsOf, Site.step?, hk]
  rw [opened_append, closed_append, hone.1, hone.2] at hle
  exact ⟨by omega, hc site (by simp) operand hk⟩

/-- From a state without open loops, statements lead to such a state exactly if
their loops are balanced and end with comparisons. -/
theorem passAll_closed_iff (hopen : state.loops.items = []) :
    (∃ next, state.passAll sites = .ok next ∧ next.loops.items = []) ↔
      Nested sites ∧ AllCompare sites := by
  have hdepth : state.loops.items.length = 0 := by rw [hopen]; rfl
  constructor
  · rintro ⟨next, h, hl⟩
    have hnested := openLoops_passAll hopen h
    rw [hl] at hnested
    exact ⟨hnested, (sound_iff.2 ⟨next, h⟩).allCompare⟩
  · rintro ⟨hn, hc⟩
    have hsound := hn.sound hc
    rw [← hdepth] at hsound
    obtain ⟨next, h⟩ := sound_iff.1 hsound
    have hcount := passAll_count h
    have heq := hn.opened_eq
    exact ⟨next, h, List.eq_nil_of_length_eq_zero (by omega)⟩

/-- A loop that starts before balanced loops is the innermost one that stays open. -/
theorem innermost_of_passAll {next : State} (hopen : state.loops.items = [])
    (h : state.passAll sites = .ok next) {front back : List Site} {site : Site}
    (hsplit : sites = front ++ site :: back) (hk : kind site.statement = .opening)
    (hb : Nested back) :
    ∃ outer, next.loops.items =
      ⟨labelOf (numberBehind state.counter (front.map Site.statement)), site.line.number⟩ ::
        outer := by
  have hloops := openLoops_passAll hopen h
  cases hl : next.loops.items with
  | nil =>
    rw [hl, hsplit] at hloops
    exact absurd hloops (not_nested_of_opening hk hb)
  | cons loop outer =>
    rw [hl] at hloops
    obtain ⟨front', site', back', hsplit', hk', hb', rfl, -⟩ := hloops
    obtain ⟨rfl, rfl⟩ := innermost_unique (hsplit.symm.trans hsplit') hk hk' hb hb'
    exact ⟨outer, rfl⟩

end Matched

/-- From a state without open loops, an expansion succeeds exactly if the loops of
the text are balanced brackets and all of them end with a comparison. It fails at
the first end of a loop that has no loop to end or no comparison. And if there is
none, it tells the label and the line of the innermost loop that is still open: the
one that starts where only balanced loops follow. -/
theorem loops_are_matched_like_brackets {state : State} {lines : List Line}
    (hopen : state.loops.items = []) :
    ((∃ out, (expand state lines).lines = .ok out) ↔
      Nested (sitesOf lines) ∧ AllCompare (sitesOf lines)) ∧
    ∀ e, (expand state lines).lines = .error e ↔
      (∃ line cause, BreaksAt 0 (sitesOf lines) line cause ∧
        e = .located line.file line.number line.text cause) ∨
      Sound 0 (sitesOf lines) ∧ ∃ front site back, sitesOf lines = front ++ site :: back ∧
        kind site.statement = .opening ∧ Nested back ∧
        e = .unclosedLoop (labelOf (numberBehind state.counter (front.map Site.statement)))
          site.line.number := by
  have hdepth : state.loops.items.length = 0 := by rw [hopen]; rfl
  refine ⟨expand_isOk_iff.trans (passAll_closed_iff hopen), fun e => ?_⟩
  rw [expand_eq_error_iff, abort_iff, hdepth]
  apply or_congr_right
  constructor
  · rintro ⟨next, loop, outer, h, hl, rfl⟩
    have hsound := sound_iff.2 ⟨next, h⟩
    rw [hdepth] at hsound
    have hloops := openLoops_passAll hopen h
    rw [hl] at hloops
    obtain ⟨front, site, back, hsplit, hk, hb, rfl, -⟩ := hloops
    exact ⟨hsound, front, site, back, hsplit, hk, hb, rfl⟩
  · rintro ⟨hsound, front, site, back, hsplit, hk, hb, rfl⟩
    rw [← hdepth] at hsound
    obtain ⟨next, h⟩ := sound_iff.1 hsound
    obtain ⟨outer, hl⟩ := innermost_of_passAll hopen h hsplit hk hb
    exact ⟨next, _, outer, h, hl, rfl⟩

/-- A loop `@ ;=X>1 @ A=0` with another one in the body of an if, and the line
`@=X<9 @=X @=Y` that ends both, the outer one without a comparison, and then one
more. -/
def tangled : List Line :=
  let x : Expr := .ident (ascii "X")
  let line (number : Int) (text : String) (statements : List Statement) : Line :=
    { number, file := ascii "main.s", text := ascii text, label := [], statements }
  [line 1 " @ ;=X>1 @ A=0" [⟨.system (ascii "@"), .empty⟩,
      ⟨.system (ascii ";"), .binary x .greater (.decimal 1)⟩, ⟨.system (ascii "@"), .empty⟩,
      ⟨.ident (ascii "A"), .decimal 0⟩],
    line 2 " @=X<9 @=X @=Y" [⟨.system (ascii "@"), .binary x .less (.decimal 9)⟩,
      ⟨.system (ascii "@"), x⟩, ⟨.system (ascii "@"), .ident (ascii "Y")⟩]]

/-- Of the two ends that are wrong, the first one is told. -/
theorem tangled_breaks_at_its_outer_loop :
    ¬ (Nested (sitesOf tangled) ∧ AllCompare (sitesOf tangled)) ∧
      (expand { counter := 4 } tangled).lines = .error (.located (ascii "main.s") 2
        (ascii " @=X<9 @=X @=Y") (.badCondition (ascii "X"))) := by
  have hopen : ({ counter := 4 } : State).loops.items = [] := rfl
  obtain ⟨hok, herror⟩ := @loops_are_matched_like_brackets { counter := 4 } tangled hopen
  obtain ⟨line, hline, hsplit⟩ : ∃ line : Line,
      (line.file, line.number, line.text) = (ascii "main.s", 2, ascii " @=X<9 @=X @=Y") ∧
      sitesOf tangled = (sitesOf tangled).take 5 ++
        ⟨line, ⟨.system (ascii "@"), .ident (ascii "X")⟩⟩ :: (sitesOf tangled).drop 6 :=
    ⟨_, rfl, rfl⟩
  have hfront : Sound 0 ((sitesOf tangled).take 5) := (@sound_iff { counter := 4 } _).2 ⟨_, rfl⟩
  have hbreaks : BreaksAt 0 (sitesOf tangled) line (.badCondition (ascii "X")) :=
    .noComparison hsplit hfront rfl (by decide +kernel) rfl
  have he := (herror _).2 (.inl ⟨line, _, hbreaks, rfl⟩)
  simp only [Prod.mk.injEq] at hline
  rw [hline.1, hline.2.1, hline.2.2] at he
  refine ⟨fun hsound => ?_, he⟩
  obtain ⟨out, hout⟩ := hok.2 hsound
  cases he.symm.trans hout

end Control

end Asm6502
