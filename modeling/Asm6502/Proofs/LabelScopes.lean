-- Labels over the lines of a program. The table holds every label under its full
-- name, which tells the label and, for a local one, its scope. So a label is
-- told to be used twice exactly if a line before has the same label in the same
-- scope. Encoding opens the scopes again as the layout did.
import Asm6502.Proofs.GeneratedLabels
import Asm6502.Proofs.Renaming

namespace Asm6502

namespace Label

/-! ## Full names -/

/-- A label as a line spells it: a dot or a letter, then letters, digits and `_`. -/
def isSpelled : Text → Bool
  | [] => false
  | b :: rest => Line.startsLabel b && rest.all isWordByte

/-- The labels that lines have: none, one that is spelled on the line, or one that
is generated for a construct. -/
inductive Proper (name : Text) : Prop
  | none (h : name = [])
  | spelled (h : isSpelled name = true)
  | generated (mark : Control.Mark) (h : name = mark.label)

/-- No scope, or that of a global label which is spelled on a line. -/
def IsScope (scope : Text) : Prop := scope = [] ∨ isSpelled scope = true ∧ isGlobal scope = true

/-- The full name of a label in a scope. -/
def full (scope name : Text) : Text := if isLocal name then scope ++ name else name

theorem full_local {scope name : Text} (h : isLocal name = true) :
    full scope name = scope ++ name := if_pos h

theorem full_not_local {scope name : Text} (h : ¬ isLocal name = true) : full scope name = name :=
  if_neg h

theorem not_local_of_isGlobal {name : Text} (h : isGlobal name = true) :
    ¬ isLocal name = true := by
  simp only [isGlobal, Bool.and_eq_true, Bool.not_eq_true'] at h
  simp [h.1.2]

/-- A spelled label that is not local has no dot and does not start with `#`. -/
theorem isBase_of_isSpelled {name : Text} (h : isSpelled name = true)
    (hl : ¬ isLocal name = true) : isBase name = true := by
  cases name with
  | nil => cases h
  | cons b rest =>
    simp only [isSpelled, Line.startsLabel, Bool.and_eq_true, Bool.or_eq_true, beq_iff_eq,
      List.all_eq_true] at h
    have hb : b ≠ Ascii.dot := by simpa [isLocal] using hl
    have hletter : isLetter b = true := h.1.resolve_left hb
    have hhash : b ≠ Ascii.hash := by
      rintro rfl
      revert hletter
      decide
    have hdot : Ascii.dot ∉ rest := by
      intro hmem
      have := h.2 _ hmem
      revert this
      decide
    simp [isBase, hb.symm, hdot, hhash]

theorem IsScope.base_eq {scope : Text} (h : IsScope scope) : base scope = scope := by
  rcases h with rfl | ⟨hs, hg⟩
  · rfl
  · have hbase := isBase_of_isSpelled hs (not_local_of_isGlobal hg)
    simpa [members] using (parts_of_isBase hbase []).1

/-- Behind a scope, a local label is no label without one. -/
theorem scope_append_ne {scope name other : Text} (hs : IsScope scope)
    (hn : isLocal name = true) (ho : Proper other) (hl : ¬ isLocal other = true) :
    scope ++ name ≠ other := by
  rintro rfl
  have hbase : base (scope ++ name) = scope := ((parts_append hn scope).1).trans hs.base_eq
  cases ho with
  | none h =>
    rw [(List.append_eq_nil_iff.1 h).2] at hn
    cases hn
  | spelled h =>
    -- A spelled label without a scope has no dot, so there is no room for the name.
    have hwhole := (parts_of_isBase (isBase_of_isSpelled h hl) []).1
    rw [members, List.dropWhile_nil, List.append_nil, hbase, List.self_eq_append_right] at hwhole
    rw [hwhole] at hn
    cases hn
  | generated mark h =>
    obtain ⟨rest, hrest⟩ := List.isPrefixOf_iff_prefix.1 mark.isGenerated_label
    have hstart : generatedStart.head? = some Ascii.hash := by decide +kernel
    have hhead : (scope ++ name).head? = some Ascii.hash := by
      rw [h, ← hrest, List.head?_append, hstart]
      rfl
    rcases hs with rfl | ⟨hspelled, hg⟩
    · have hdot : name.head? = some Ascii.dot := by simpa [isLocal] using hn
      rw [List.nil_append, hdot] at hhead
      exact absurd hhead (by decide)
    · have hbase := isBase_of_isSpelled hspelled (not_local_of_isGlobal hg)
      cases scope with
      | nil => cases hspelled
      | cons b scope =>
        cases hhead
        simp [isBase] at hbase

/-- A full name tells the label and, if that is local, its scope. -/
theorem full_injective {s t x y : Text} (hs : IsScope s) (ht : IsScope t) (hx : Proper x)
    (hy : Proper y) (h : full s x = full t y) : x = y ∧ (isLocal x = true → s = t) := by
  by_cases hlx : isLocal x = true
  · rw [full_local hlx] at h
    by_cases hly : isLocal y = true
    · rw [full_local hly] at h
      have hscope : s = t := by
        rw [← hs.base_eq, ← ht.base_eq, ← (parts_append hlx s).1, h, (parts_append hly t).1]
      rw [hscope] at h
      exact ⟨List.append_cancel_left h, fun _ => hscope⟩
    · rw [full_not_local hly] at h
      exact absurd h (scope_append_ne hs hlx hy hly)
  · rw [full_not_local hlx] at h
    by_cases hly : isLocal y = true
    · rw [full_local hly] at h
      exact absurd h.symm (scope_append_ne ht hly hx hlx)
    · rw [full_not_local hly] at h
      exact ⟨h, fun hl => absurd hl hlx⟩

theorem Table.qualify_eq_ok {table : Table} {name key : Text} :
    table.qualify name = .ok key ↔
      key = full table.scope name ∧ (isLocal name = true → table.scope ≠ []) := by
  unfold qualify
  by_cases hl : isLocal name = true
  · rw [if_pos hl, full_local hl]
    by_cases hs : table.scope = []
    · simp [hs, hl]
    · rw [if_neg (by simpa using hs), Except.ok.injEq, eq_comm]
      exact (and_iff_left fun _ => hs).symm
  · rw [if_neg hl, full_not_local hl, Except.ok.injEq, eq_comm]
    exact (and_iff_left fun h => absurd h hl).symm

/-! ## The labels of a source -/

/-- A line that is read has a proper label. -/
theorem proper_of_parse {text : Text} {number : Int} {line : Line}
    (h : Line.parse text number = .ok line) : Proper line.label := by
  unfold Line.parse at h
  split at h
  · cases h
  · rename_i label body hsplit
    obtain ⟨statements, _, h⟩ := Except.bind_eq_ok.1 h
    cases Except.pure_eq_ok.1 h
    unfold Line.splitLabel? at hsplit
    split at hsplit
    · cases hsplit
      exact .none rfl
    · split at hsplit
      · rename_i b rest hstart
        simp only at hsplit
        split at hsplit
        · cases hsplit
          refine .spelled ?_
          rw [isSpelled, hstart, Bool.true_and, List.all_eq_true]
          exact fun c hc => List.mem_takeWhile_imp hc
        · cases hsplit
      · cases hsplit
        exact .none rfl

/-- Expansion adds generated labels only. -/
theorem proper_of_expand {state : Control.State} {lines out : List Line}
    (hopen : state.loops.items = []) (h : (Control.expand state lines).lines = .ok out)
    (hlabels : ∀ line ∈ lines, Proper line.label) : ∀ line ∈ out, Proper line.label := by
  intro line hline
  by_cases hempty : line.label = []
  · exact .none hempty
  · obtain ⟨t, ht, _, hitems⟩ := Control.trace_of_expand hopen h
    have hmem : Item.label line.label ∈ itemsOf out := by
      refine List.mem_flatMap.2 ⟨line, hline, List.mem_append_left _ ?_⟩
      simp [Item.ofLabel, hempty]
    rw [hitems] at hmem
    obtain ⟨code, hcode, hitem⟩ := List.mem_map.1 hmem
    cases code with
    | label name =>
      obtain ⟨source, hsource, heq⟩ := Control.traceLines_labels ht hcode
      cases hitem
      exact heq ▸ hlabels source hsource
    | mark mark => exact .generated mark (Item.label.inj hitem).symm
    | plain | compare | branch | jump => cases hitem

/-! ## The scopes of lines -/

/-- The scope that lines lead to: the last global label among them. -/
def scopeOf (lines : List Line) : Text := ((lines.map Line.label).filter isGlobal).getLast?.getD []

/-- The scope that line `n` is in: its own global label, or the last one before. -/
def scopeAt (lines : List Line) (n : Nat) : Text := scopeOf (lines.take (n + 1))

theorem scopeOf_snoc (lines : List Line) (l : Line) :
    scopeOf (lines ++ [l]) = if isGlobal l.label then l.label else scopeOf lines := by
  unfold scopeOf
  rw [List.map_append, List.filter_append, List.map_singleton]
  split
  · rename_i hg
    simp [hg]
  · rename_i hg
    simp [hg]

/-- A line with a local label stays in the scope before it. -/
theorem scopeOf_snoc_of_local {l : Line} (h : isLocal l.label = true) (lines : List Line) :
    scopeOf (lines ++ [l]) = scopeOf lines := by
  rw [scopeOf_snoc, if_neg (by simp [isGlobal, h])]

theorem full_snoc (lines : List Line) (l : Line) :
    full (scopeOf (lines ++ [l])) l.label = full (scopeOf lines) l.label := by
  by_cases h : isLocal l.label = true
  · rw [scopeOf_snoc_of_local h]
  · rw [full_not_local h, full_not_local h]

theorem scopeAt_eq {lines : List Line} {n : Nat} {l : Line} (hn : lines[n]? = some l) :
    scopeAt lines n = scopeOf (lines.take n ++ [l]) := by
  rw [scopeAt, List.take_add_one, hn]
  rfl

theorem scopeAt_take {lines : List Line} {k n : Nat} (h : k < n) :
    scopeAt (lines.take n) k = scopeAt lines k := by
  rw [scopeAt, List.take_take, Nat.min_eq_left h]
  rfl

theorem Table.enter_scope_snoc {table : Table} {lines : List Line}
    (h : table.scope = scopeOf lines) (l : Line) :
    (table.enter l.label).scope = scopeOf (lines ++ [l]) := by
  rw [scopeOf_snoc, enter, ← h]
  split <;> rfl

/-- Entering the labels of lines leads to their scope. -/
theorem Table.behind_scope {table : Table} {front : List Line} (h : table.scope = scopeOf front)
    (ls : List Line) : (table.behind ls).scope = scopeOf (front ++ ls) := by
  induction ls generalizing table front with
  | nil =>
    rw [List.append_nil]
    exact h
  | cons l ls ih =>
    have := ih (enter_scope_snoc h l)
    rwa [List.append_assoc] at this

theorem isScope_scopeOf {lines : List Line} (h : ∀ line ∈ lines, Proper line.label) :
    IsScope (scopeOf lines) := by
  unfold scopeOf
  cases hlast : ((lines.map Line.label).filter isGlobal).getLast? with
  | none => exact .inl rfl
  | some name =>
    obtain ⟨hmem, hg⟩ := List.mem_filter.1 (List.mem_of_getLast? hlast)
    obtain ⟨line, hline, rfl⟩ := List.mem_map.1 hmem
    refine .inr ⟨?_, hg⟩
    cases h line hline with
    | none hnone =>
      rw [hnone] at hg
      cases hg
    | spelled hs => exact hs
    | generated mark hmark =>
      rw [hmark] at hg
      simp [isGlobal, mark.isGenerated_label] at hg

/-- Some line has a property, in the scope that it is in. -/
def SomeLine (lines : List Line) (Q : Text → Line → Prop) : Prop :=
  ∃ k line, lines[k]? = some line ∧ Q (scopeAt lines k) line

theorem someLine_snoc {lines : List Line} {l : Line} {Q : Text → Line → Prop} :
    SomeLine (lines ++ [l]) Q ↔ SomeLine lines Q ∨ Q (scopeOf (lines ++ [l])) l := by
  have hbefore {k : Nat} (hk : k < lines.length) :
      (lines ++ [l])[k]? = lines[k]? ∧ scopeAt (lines ++ [l]) k = scopeAt lines k := by
    refine ⟨List.getElem?_append_left hk, ?_⟩
    rw [scopeAt, List.take_append_of_le_length hk]
    rfl
  have hlast : (lines ++ [l])[lines.length]? = some l ∧
      scopeAt (lines ++ [l]) lines.length = scopeOf (lines ++ [l]) := by
    refine ⟨by simp, ?_⟩
    rw [scopeAt, List.take_of_length_le (by simp)]
  constructor
  · rintro ⟨k, line, hk, hq⟩
    have hlt := (List.getElem?_eq_some_iff.1 hk).1
    rw [List.length_append, List.length_singleton] at hlt
    rcases Nat.lt_succ_iff_lt_or_eq.1 hlt with hlt | rfl
    · rw [(hbefore hlt).1] at hk
      rw [(hbefore hlt).2] at hq
      exact .inl ⟨k, line, hk, hq⟩
    · cases hlast.1.symm.trans hk
      rw [hlast.2] at hq
      exact .inr hq
  · rintro (⟨k, line, hk, hq⟩ | hq)
    · have hlt := (List.getElem?_eq_some_iff.1 hk).1
      exact ⟨k, line, (hbefore hlt).1.trans hk, (hbefore hlt).2 ▸ hq⟩
    · exact ⟨lines.length, l, hlast.1, hlast.2 ▸ hq⟩

/-! ## The table and the lines -/

/-- The table holds just the labels of lines, under their full names, and is in
the scope that they lead to. -/
structure Table.Mirrors (table : Table) (lines : List Line) : Prop where
  scope : table.scope = scopeOf lines
  names : ∀ name, (table.get? name).isSome ↔
    SomeLine lines fun scope line => line.label ≠ [] ∧ full scope line.label = name
  inScope : ¬ SomeLine lines fun scope line => isLocal line.label = true ∧ scope = []

theorem Table.Mirrors.of_sameNames {a b : Table} {lines : List Line} (h : a.Mirrors lines)
    (hs : a.SameNames b) : b.Mirrors lines :=
  ⟨hs.1 ▸ h.scope, fun name => hs.2 name ▸ h.names name, h.inScope⟩

theorem Table.mirrors_empty : ({} : Table).Mirrors [] := by
  have hno (Q : Text → Line → Prop) : ¬ SomeLine [] Q := by
    rintro ⟨k, line, hk, _⟩
    cases hk
  exact ⟨rfl, fun name => iff_of_false Bool.false_ne_true (hno _), hno _⟩

end Label

namespace Layout

theorem defineLabel_mirrors {layout entered : Layout} {front : List Line} {l : Line} {label : Text}
    (hf : layout.labels.Mirrors front) (h : layout.defineLabel l = .ok (entered, label)) :
    entered.labels.Mirrors (front ++ [l]) := by
  have hscope : entered.labels.scope = Label.scopeOf (front ++ [l]) :=
    (defineLabel_grows h).2.2.trans (Label.Table.enter_scope_snoc hf.scope l)
  unfold defineLabel at h
  split at h
  · rename_i hempty
    have hempty := List.isEmpty_iff.1 hempty
    cases h
    refine ⟨hscope, fun name => ?_, ?_⟩
    · rw [hf.names, Label.someLine_snoc, hempty]
      simp
    · rw [Label.someLine_snoc, hempty]
      simpa [Label.isLocal] using hf.inScope
  · rename_i hne
    have hne : l.label ≠ [] := by simpa using hne
    split at h
    · cases h
    · rename_i labels full hd
      obtain ⟨rfl, rfl⟩ := Prod.mk.inj (Except.ok.inj h)
      obtain ⟨hq, hnames⟩ := Label.Table.define_isSome hd
      obtain ⟨hfull, hlocal⟩ := Label.Table.qualify_eq_ok.1 hq
      rw [hf.scope] at hfull hlocal
      refine ⟨hscope, fun name => ?_, ?_⟩
      · rw [hnames, hf.names, Label.someLine_snoc, Label.full_snoc, hfull]
        simp [hne]
      · rw [Label.someLine_snoc]
        rintro (hsome | ⟨hl, hscope⟩)
        · exact hf.inScope hsome
        · rw [Label.scopeOf_snoc_of_local hl] at hscope
          exact hlocal hl hscope

/-- The table of a layout that succeeds mirrors its lines. -/
theorem mirrors_lines {lines : List Line} {layout : Layout} {sized : List SizedLine}
    (h : Layout.lines {} lines = (layout, .ok sized)) : layout.labels.Mirrors lines := by
  have hempty : ({} : Layout).labels.Mirrors [] := Label.Table.mirrors_empty
  have := lines_keep (fun hm hs => hm.of_sameNames hs) defineLabel_mirrors hempty h
  rwa [List.nil_append] at this

/-- Wherever the layout comes, the table mirrors the lines up to there, and holds
the label of the line. -/
theorem mirrors_reach {lines : List Line} {n m : Nat} {found : Layout} {label : Text}
    (h : reach lines n m = some (found, label)) :
    found.labels.Mirrors (lines.take (n + 1)) ∧
      (label ≠ [] → (found.labels.get? label).isSome = true) := by
  obtain ⟨l, start, front, entered, sizes, hn, hstart, hd, hf⟩ := reach_eq_some.1 h
  have hsame := statements_sameNames hf
  have hentered := defineLabel_mirrors (mirrors_lines hstart) hd
  rw [← Option.toList_some (a := l), ← hn, ← List.take_add_one] at hentered
  refine ⟨hentered.of_sameNames hsame, fun hne => ?_⟩
  rw [← hsame.2]
  exact (defineLabel_tracks (tracks_lines hstart) hd).2 hne

end Layout

/-! ## Labels that are used twice -/

/-- Lines `k` and `n` have the same label and, if it is local, are in the same
scope. -/
def Label.SameLabel (lines : List Line) (k n : Nat) : Prop :=
  ∃ earlier line, lines[k]? = some earlier ∧ lines[n]? = some line ∧ line.label ≠ [] ∧
    earlier.label = line.label ∧
    (isLocal line.label = true → scopeAt lines k = scopeAt lines n)

namespace Layout

variable {lines : List Line} {n : Nat} {line : Line} {start : Layout} {sized : List SizedLine}

theorem defineLabel_duplicate_iff (hne : line.label ≠ []) :
    (∃ name number prior, start.defineLabel line = .error (.label (.duplicate name number prior))) ↔
      ∃ key, start.labels.qualify line.label = .ok key ∧
        (start.labels.get? key).isSome = true := by
  unfold defineLabel
  rw [if_neg (by simpa using hne)]
  constructor
  · rintro ⟨name, number, prior, h⟩
    split at h
    · rename_i hdefine
      cases h
      have hresult := congrArg Label.Table.Change.result hdefine
      rcases Label.Table.define_eq_error hresult with heq | ⟨key, entry, hq, hget, _⟩
      · cases heq
      · exact ⟨key, hq, by rw [hget]; rfl⟩
    · cases h
  · rintro ⟨key, hq, hsome⟩
    obtain ⟨entry, hget⟩ := Option.isSome_iff_exists.1 hsome
    refine ⟨key, line.number, entry.line, ?_⟩
    rw [Label.Table.define, hq]
    simp [hget]

/-- The label of a line is in the table already exactly if a line before has the
same one in the same scope. -/
theorem defined_iff (hlabels : ∀ line ∈ lines, Label.Proper line.label)
    (hn : lines[n]? = some line) (hne : line.label ≠ [])
    (hstart : Layout.lines {} (lines.take n) = (start, .ok sized)) :
    (∃ key, start.labels.qualify line.label = .ok key ∧ (start.labels.get? key).isSome = true) ↔
      ∃ k < n, Label.SameLabel lines k n := by
  have hm := mirrors_lines hstart
  have hproper {k : Nat} {l : Line} (h : lines[k]? = some l) : Label.Proper l.label :=
    hlabels l (List.mem_of_getElem? h)
  have hscopes (k : Nat) : Label.IsScope (Label.scopeAt lines k) :=
    Label.isScope_scopeOf fun l hl => hlabels l (List.mem_of_mem_take hl)
  have hfull : Label.full start.labels.scope line.label =
      Label.full (Label.scopeAt lines n) line.label := by
    rw [Label.scopeAt_eq hn, Label.full_snoc, hm.scope]
  constructor
  · rintro ⟨key, hq, hsome⟩
    obtain ⟨rfl, _⟩ := Label.Table.qualify_eq_ok.1 hq
    obtain ⟨k, earlier, hk, _, hkey⟩ := (hm.names _).1 hsome
    have hlt : k < n := Nat.lt_of_lt_of_le (List.getElem?_eq_some_iff.1 hk).1 (by simp)
    rw [List.getElem?_take_of_lt hlt] at hk
    rw [Label.scopeAt_take hlt, hfull] at hkey
    obtain ⟨heq, hscope⟩ :=
      Label.full_injective (hscopes k) (hscopes n) (hproper hk) (hproper hn) hkey
    exact ⟨k, hlt, earlier, line, hk, hn, hne, heq, heq ▸ hscope⟩
  · rintro ⟨k, hlt, earlier, line', hk, hn', _, heq, hscope⟩
    cases hn.symm.trans hn'
    have htake : (lines.take n)[k]? = some earlier := by rw [List.getElem?_take_of_lt hlt, hk]
    refine ⟨_, Label.Table.qualify_eq_ok.2 ⟨rfl, fun hl hempty => ?_⟩, (hm.names _).2 ?_⟩
    · -- The earlier line was placed, so its scope was open.
      refine hm.inScope ⟨k, earlier, htake, heq ▸ hl, ?_⟩
      rw [Label.scopeAt_take hlt, hscope hl, Label.scopeAt_eq hn,
        Label.scopeOf_snoc_of_local hl, ← hm.scope, hempty]
    · refine ⟨k, earlier, htake, heq ▸ hne, ?_⟩
      rw [Label.scopeAt_take hlt, hfull, heq]
      by_cases hl : Label.isLocal line.label = true
      · rw [hscope hl]
      · rw [Label.full_not_local hl, Label.full_not_local hl]

/-- Placing a statement never tells that a label is used twice. -/
theorem statement_ne_duplicate {m : Nat} {found : Layout} {label : Text} {st : Statement}
    {name : Text} {number prior : Int} (h : reach lines n m = some (found, label)) :
    found.statement label st ≠ .error (.label (.duplicate name number prior)) := by
  intro he
  obtain ⟨_, other, _, hlookup⟩ := statement_fault he rfl (mirrors_reach h).2
  rcases Label.Table.lookup_eq_error hlookup with heq | ⟨_, _, _, heq⟩ <;> cases heq

/-- A line fails for a label that is used twice exactly if no line before fails
and one of them has the same label in the same scope. -/
theorem failsAt_duplicate_iff (hlabels : ∀ line ∈ lines, Label.Proper line.label)
    (hn : lines[n]? = some line) :
    (∃ name number prior, FailsAt lines n line (.label (.duplicate name number prior))) ↔
      (∃ start sized, Layout.lines {} (lines.take n) = (start, .ok sized)) ∧
        ∃ k < n, Label.SameLabel lines k n := by
  constructor
  · rintro ⟨name, number, prior, h⟩
    refine ⟨h.before, ?_⟩
    rcases h.reason with ⟨start, sized, hstart, hd⟩ | ⟨m, st, found, label, _, hreach, hst⟩
    · have hne : line.label ≠ [] := by
        intro hempty
        simp [defineLabel, hempty] at hd
      rw [← defined_iff hlabels hn hne hstart, ← defineLabel_duplicate_iff hne]
      exact ⟨name, number, prior, hd⟩
    · exact absurd hst (statement_ne_duplicate hreach)
  · rintro ⟨⟨start, sized, hstart⟩, hsame⟩
    have hne : line.label ≠ [] := by
      obtain ⟨_, _, _, line', _, hn', hne, _⟩ := hsame
      cases hn.symm.trans hn'
      exact hne
    rw [← defined_iff hlabels hn hne hstart, ← defineLabel_duplicate_iff hne] at hsame
    obtain ⟨name, number, prior, hd⟩ := hsame
    exact ⟨name, number, prior, failsAt_of_defineLabel hn hstart hd⟩

end Layout

/-! ## Scopes while encoding -/

namespace Emit

/-- The labels in the scope in which line `n` is encoded. Nothing, if encoding
does not come so far. -/
def reach (labels : Label.Table) (sized : List SizedLine) (n : Nat) : Option Label.Table :=
  match sized[n]?, (lines labels (sized.take n)).lines with
  | some s, .ok _ => some ((lines labels (sized.take n)).labels.enter s.line.label)
  | _, _ => none

theorem lines_labels {labels : Label.Table} {sized : List SizedLine} {placed : List PlacedLine}
    (h : (lines labels sized).lines = .ok placed) :
    (lines labels sized).labels = labels.behind (sized.map SizedLine.line) := by
  induction sized generalizing labels placed with
  | nil => rfl
  | cons s rest ih =>
    rw [lines] at h ⊢
    split at h
    · cases h
    · obtain ⟨others, ho, _⟩ := Except.map_eq_ok.1 h
      exact ih ho

/-- Line `n` is encoded in the scope that its global label opens, or the last one
before it. -/
theorem reach_scope {labels table : Label.Table} {sized : List SizedLine} {n : Nat}
    (hclosed : labels.scope = []) (h : reach labels sized n = some table) :
    table.scope = Label.scopeAt (sized.map SizedLine.line) n := by
  unfold reach at h
  split at h
  · rename_i s placed hs hplaced
    cases h
    have hn : (sized.map SizedLine.line)[n]? = some s.line := by
      rw [List.getElem?_map, hs]
      rfl
    have hfirst : labels.scope = Label.scopeOf [] := hclosed
    rw [lines_labels hplaced, Label.scopeAt_eq hn, ← List.map_take]
    exact Label.Table.enter_scope_snoc (Label.Table.behind_scope hfirst _) s.line
  · cases h

end Emit

/-- Labels are told apart by their scope and their name, and nothing else. Reading
gives proper labels, and expansion keeps them so. No two of them share a full
name. A line fails for a label that is used twice exactly if no line before fails
and one of them has the same label in the same scope. And wherever the layout and
the encoding come, they are in the scope of the last global label. -/
theorem labels_are_told_apart_by_scope_and_name {lines : List Line}
    (hlabels : ∀ line ∈ lines, Label.Proper line.label) :
    (∀ text number line, Line.parse text number = .ok line → Label.Proper line.label) ∧
    (∀ state out, state.loops.items = [] → (Control.expand state lines).lines = .ok out →
      ∀ line ∈ out, Label.Proper line.label) ∧
    (∀ (a b : Label.Table) (x y key : Text), Label.IsScope a.scope → Label.IsScope b.scope →
      Label.Proper x → Label.Proper y → a.qualify x = .ok key → b.qualify y = .ok key →
      x = y ∧ (Label.isLocal x = true → a.scope = b.scope)) ∧
    (∀ n line, lines[n]? = some line →
      ((∃ name number prior,
        Layout.FailsAt lines n line (.label (.duplicate name number prior))) ↔
        (∃ start sized, Layout.lines {} (lines.take n) = (start, .ok sized)) ∧
          ∃ k < n, Label.SameLabel lines k n)) ∧
    ∀ layout sized, Layout.lines {} lines = (layout, .ok sized) → ∀ n < lines.length,
      (∃ found label, Layout.reach lines n 0 = some (found, label)) ∧
      (∀ m found label, Layout.reach lines n m = some (found, label) →
        found.labels.scope = Label.scopeAt lines n) ∧
      ∀ table, Emit.reach layout.labels.leave sized n = some table →
        table.scope = Label.scopeAt lines n := by
  refine ⟨fun _ _ _ h => Label.proper_of_parse h,
    fun _ _ hopen h => Label.proper_of_expand hopen h hlabels, ?_,
    fun n line hn => Layout.failsAt_duplicate_iff hlabels hn, ?_⟩
  · intro a b x y key ha hb hx hy hqa hqb
    obtain ⟨hx', _⟩ := Label.Table.qualify_eq_ok.1 hqa
    obtain ⟨hy', _⟩ := Label.Table.qualify_eq_ok.1 hqb
    exact Label.full_injective ha hb hx hy (hx'.symm.trans hy')
  · intro layout sized h n hn
    have hline := List.getElem?_eq_getElem hn
    refine ⟨?_, fun m found label hreach => (Layout.mirrors_reach hreach).1.scope, ?_⟩
    · obtain ⟨start, _, _, hstart, hl, _, _⟩ := Layout.lines_at h hline
      obtain ⟨entered, label, _, hd, _, _⟩ := Layout.line_ok.1 hl
      exact ⟨entered, label, Layout.reach_eq_some.2 ⟨_, _, _, _, _, hline, hstart, hd, rfl⟩⟩
    · intro table htable
      rw [← Layout.lines_line h]
      exact Emit.reach_scope rfl htable

/-- Two routines with a local label of the same name, and a construct between. -/
def twoRoutines : List Line :=
  let line (number : Int) (label : String) : Line :=
    { number, file := [], text := [], label := ascii label, statements := [] }
  [line 1 "first", line 2 ".loop", line 3 "#macro_0", line 4 "second", line 5 ".loop"]

/-- The routines, with the local label of the second one once more. -/
def repeatedLoop : List Line :=
  twoRoutines ++ [{ number := 6, file := [], text := [], label := ascii ".loop", statements := [] }]

theorem twoRoutines_have_a_loop_each :
    (∀ line ∈ repeatedLoop, Label.Proper line.label) ∧
    (∃ line name number prior,
      Layout.FailsAt repeatedLoop 5 line (.label (.duplicate name number prior))) ∧
    ∃ layout sized found label table, Layout.lines {} twoRoutines = (layout, .ok sized) ∧
      Layout.reach twoRoutines 4 0 = some (found, label) ∧
      Emit.reach layout.labels.leave sized 4 = some table ∧
      found.labels.scope = ascii "second" ∧ table.scope = ascii "second" := by
  have hlabels : ∀ line ∈ repeatedLoop, Label.Proper line.label := by
    intro line hline
    by_cases hspelled : Label.isSpelled line.label = true
    · exact .spelled hspelled
    · refine .generated (.header 0) ?_
      revert line
      decide +kernel
  have hroutines : ∀ line ∈ twoRoutines, Label.Proper line.label :=
    fun line hline => hlabels line (List.mem_append_left _ hline)
  refine ⟨hlabels, ?_, ?_⟩
  · obtain ⟨_, _, _, htwice, _⟩ := labels_are_told_apart_by_scope_and_name hlabels
    refine ⟨_, (htwice 5 _ rfl).2 ⟨⟨_, _, rfl⟩, 4, by decide, _, _, rfl, rfl, ?_, rfl, ?_⟩⟩
    · decide +kernel
    · exact fun _ => by decide +kernel
  · obtain ⟨layout, sized, h⟩ : ∃ layout sized,
        Layout.lines {} twoRoutines = (layout, .ok sized) := ⟨_, _, rfl⟩
    obtain ⟨_, _, _, _, hscopes⟩ := labels_are_told_apart_by_scope_and_name hroutines
    obtain ⟨⟨found, label, hreach⟩, hplaced, hencoded⟩ := hscopes layout sized h 4 (by decide)
    obtain ⟨table, htable⟩ : ∃ table, Emit.reach layout.labels.leave sized 4 = some table := by
      cases h
      exact ⟨_, rfl⟩
    have hsecond : Label.scopeAt twoRoutines 4 = ascii "second" := by decide +kernel
    exact ⟨layout, sized, found, label, table, h, hreach, htable,
      (hplaced 0 found label hreach).trans hsecond, (hencoded table htable).trans hsecond⟩

end Asm6502
