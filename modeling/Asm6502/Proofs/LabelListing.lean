-- The listing of labels. The entries of a table have one order, by address and then
-- by name, however they came into the table. The listing has a line for each label
-- that it should show, but it takes the first byte of a name for its first letter.
import Asm6502.Label.Listing
import Asm6502.Proofs.Digits
import Asm6502.Proofs.LabelHistory
import Asm6502.Text.Utf8
import Mathlib.Data.List.Nodup

namespace Asm6502

namespace Label

/-! ## The order of entries -/

/-- By address, and byte by byte by name where the addresses are equal. -/
def Entry.Before (a b : Entry) : Prop :=
  a.address.value < b.address.value ∨ a.address.value = b.address.value ∧ a.name < b.name

namespace Entry

theorem Before.trans {a b c : Entry} (hab : a.Before b) (hbc : b.Before c) : a.Before c := by
  unfold Before at *
  rcases hab with hlt | ⟨heq, hname⟩
  · rcases hbc with hlt' | ⟨heq', _⟩
    · exact Or.inl (UInt16.lt_trans hlt hlt')
    · exact Or.inl (heq' ▸ hlt)
  · rcases hbc with hlt' | ⟨heq', hname'⟩
    · exact Or.inl (heq ▸ hlt')
    · exact Or.inr ⟨heq.trans heq', List.lt_trans hname hname'⟩

theorem Before.irrefl (a : Entry) : ¬ a.Before a := by
  rintro (hlt | ⟨_, hlt⟩)
  · exact UInt16.lt_irrefl _ hlt
  · exact List.lt_irrefl _ hlt

/-- Of two entries one stands before the other, unless they share address and name. -/
theorem before_or (a b : Entry) :
    a.Before b ∨ b.Before a ∨ a.address.value = b.address.value ∧ a.name = b.name := by
  unfold Before
  rcases Std.lt_trichotomy a.address.value b.address.value with hlt | heq | hlt
  · exact Or.inl (Or.inl hlt)
  · rcases List.le_total a.name b.name with hle | hle
    · rcases List.le_iff_lt_or_eq.1 hle with hlt | hname
      · exact Or.inl (Or.inr ⟨heq, hlt⟩)
      · exact Or.inr (Or.inr ⟨heq, hname⟩)
    · rcases List.le_iff_lt_or_eq.1 hle with hlt | hname
      · exact Or.inr (Or.inl (Or.inr ⟨heq.symm, hlt⟩))
      · exact Or.inr (Or.inr ⟨heq, hname.symm⟩)
  · exact Or.inr (Or.inl (Or.inl hlt))

end Entry

namespace Table

/-- The order that entries are sorted by is `Before`, up to entries that are equal. -/
theorem precedes_iff {a b : Entry} : precedes a b = true ↔ ¬ b.Before a := by
  unfold precedes Entry.Before
  simp only [Bool.or_eq_true, Bool.and_eq_true, decide_eq_true_eq, beq_iff_eq, not_or, not_and,
    List.not_lt]
  constructor
  · rintro (hlt | ⟨heq, hle⟩)
    · exact ⟨UInt16.not_lt.2 (UInt16.le_of_lt hlt), fun h => absurd (h ▸ hlt) (UInt16.lt_irrefl _)⟩
    · exact ⟨heq ▸ UInt16.lt_irrefl _, fun _ => hle⟩
  · rintro ⟨hnot, hle⟩
    rcases UInt16.lt_or_eq_of_le (UInt16.not_lt.1 hnot) with hlt | heq
    · exact Or.inl hlt
    · exact Or.inr ⟨heq, hle heq.symm⟩

theorem precedes_trans (a b c : Entry) (hab : precedes a b = true) (hbc : precedes b c = true) :
    precedes a c = true := by
  rw [precedes_iff] at *
  intro hca
  rcases Entry.before_or a b with h | h | ⟨hvalue, hname⟩
  · exact hbc (hca.trans h)
  · exact hab h
  · refine hbc ?_
    unfold Entry.Before at *
    rwa [← hvalue, ← hname]

theorem precedes_total (a b : Entry) : (precedes a b || precedes b a) = true := by
  rw [Bool.or_eq_true, precedes_iff, precedes_iff]
  by_cases h : b.Before a
  · exact Or.inr fun h' => Entry.Before.irrefl a (h'.trans h)
  · exact Or.inl h

/-- All entries of a table, each of them once, in an order that always rises. -/
structure InOrder (table : Table) (out : List Entry) : Prop where
  perm : out.Perm table.entries
  rising : out.Pairwise Entry.Before

theorem sorted_perm (table : Table) : table.sorted.Perm table.entries :=
  List.mergeSort_perm _ _

variable {table : Table}

/-- Entries with names of their own that never fall always rise. -/
theorem rising_of_not_falling {out : List Entry} (h : (out.map Entry.name).Nodup)
    (hout : out.Pairwise fun a b => ¬ b.Before a) : out.Pairwise Entry.Before := by
  have hnames : out.Pairwise fun a b => a.name ≠ b.name := List.pairwise_map.1 h
  refine (hout.and hnames).imp ?_
  rintro a b ⟨hnot, hne⟩
  rcases Entry.before_or a b with h | h | ⟨_, h⟩
  · exact h
  · exact absurd h hnot
  · exact absurd h hne

theorem sorted_inOrder (h : (table.entries.map Entry.name).Nodup) :
    table.InOrder table.sorted := by
  have hsorted := List.pairwise_mergeSort precedes_trans precedes_total table.entries
  refine ⟨table.sorted_perm, rising_of_not_falling ?_ (hsorted.imp precedes_iff.1)⟩
  exact (table.sorted_perm.map Entry.name).nodup_iff.2 h

/-- There is one order only. -/
theorem InOrder.eq {out out' : List Entry} (h : table.InOrder out) (h' : table.InOrder out') :
    out = out' := by
  apply List.Perm.eq_of_pairwise _ h.rising h'.rising (h.perm.trans h'.perm.symm)
  intro a b _ _ hab hba
  exact absurd (hab.trans hba) (Entry.Before.irrefl a)

/-- However the entries are sorted, the result is the same. -/
theorem eq_sorted_of_not_falling (h : (table.entries.map Entry.name).Nodup) {out : List Entry}
    (hperm : out.Perm table.entries) (hout : out.Pairwise fun a b => ¬ b.Before a) :
    out = table.sorted := by
  have hnames : (out.map Entry.name).Nodup := (hperm.map Entry.name).nodup_iff.2 h
  exact InOrder.eq ⟨hperm, rising_of_not_falling hnames hout⟩ (sorted_inOrder h)

/-- Tables with the same entries have them in the same order. -/
theorem sorted_congr {other : Table} (h : (table.entries.map Entry.name).Nodup)
    (h' : (other.entries.map Entry.name).Nodup)
    (hsame : ∀ entry, entry ∈ other.entries ↔ entry ∈ table.entries) :
    other.sorted = table.sorted := by
  have hperm : other.entries.Perm table.entries :=
    (List.perm_ext_iff_of_nodup (List.Nodup.of_map _ h') (List.Nodup.of_map _ h)).2 hsame
  have hother := sorted_inOrder h'
  exact InOrder.eq ⟨hother.perm.trans hperm, hother.rising⟩ (sorted_inOrder h)

end Table

/-! ## Lines of the listing -/

/-- A label that is listed unless its name starts with a letter of upper case. -/
structure Entry.Listable (entry : Entry) : Prop where
  opensScope : isGlobal entry.name = true
  dotless : Ascii.dot ∉ entry.name
  high : 0x8000 ≤ entry.address.value.toNat

instance (entry : Entry) : Decidable entry.Listable :=
  decidable_of_iff (isGlobal entry.name = true ∧ Ascii.dot ∉ entry.name ∧
      0x8000 ≤ entry.address.value.toNat)
    ⟨fun h => ⟨h.1, h.2.1, h.2.2⟩, fun h => ⟨h.opensScope, h.dotless, h.high⟩⟩

/-- The line of an entry: `P:`, the offset from $8000 in four hexadecimal digits, `:` and
the name. -/
def Entry.Shows (entry : Entry) (line : Text) : Prop :=
  ∃ digits : Text, digits.length = 4 ∧ (∀ d ∈ digits, isHexDigit d = true) ∧
    numberOf 16 digits + 0x8000 = entry.address.value.toNat ∧
    line = ascii "P:" ++ digits ++ ascii ":" ++ entry.name ++ [Ascii.newline]

theorem Entry.shows_listingLine {entry : Entry} (h : entry.Listable) :
    entry.Shows entry.listingLine := by
  refine ⟨_, rfl, fun d hd => isHexDigit_of_mem_hexWord hd, ?_, rfl⟩
  have hle : listingBase ≤ entry.address.value := UInt16.le_iff_toNat_le.2 h.high
  rw [numberOf_hexWord, UInt16.toNat_sub_of_le _ _ hle]
  exact Nat.sub_add_cancel h.high

/-- The lines of those listable entries whose names are not hidden. -/
def shown (hidden : Text → Bool) (out : List Entry) : Text :=
  (out.filter fun entry => decide entry.Listable && !hidden entry.name).flatMap Entry.listingLine

theorem shown_cons_of_shown {hidden : Text → Bool} {entry : Entry} (h : entry.Listable)
    (hname : hidden entry.name = false) (rest : List Entry) :
    shown hidden (entry :: rest) = entry.listingLine ++ shown hidden rest := by
  simp [shown, h, hname]

theorem shown_cons_of_not_shown {hidden : Text → Bool} {entry : Entry}
    (h : ¬ entry.Listable ∨ hidden entry.name = true) (rest : List Entry) :
    shown hidden (entry :: rest) = shown hidden rest := by
  have hno : (decide entry.Listable && !hidden entry.name) = false := by
    rcases h with h | h
    · simp [h]
    · simp [h]
  rw [shown, List.filter_cons, hno]
  rfl

/-- A name is hidden or not by its first line. -/
def Steady (hidden : Text → Bool) : Prop :=
  ∀ name more, name ≠ [] → hidden (name ++ Ascii.newline :: more) = hidden name

/-- If the lines of two entries start the same text, the second name starts with the
first one and a newline. -/
theorem name_of_lines_eq {a b : Entry} {tail tail' : Text} (hab : a.Before b)
    (h : a.listingLine ++ tail = b.listingLine ++ tail') :
    ∃ more, b.name = a.name ++ Ascii.newline :: more := by
  simp only [Entry.listingLine, List.append_assoc, List.append_cancel_left_eq] at h
  obtain ⟨hword, h⟩ := List.append_inj h (by simp [hexWord])
  rw [List.append_cancel_left_eq] at h
  have hvalue : a.address.value = b.address.value := by
    have hnumber := congrArg (numberOf 16) hword
    rw [numberOf_hexWord, numberOf_hexWord, UInt16.toNat_inj] at hnumber
    exact UInt16.sub_left_inj _ |>.1 hnumber
  have hlt : a.name < b.name := by
    rcases hab with hlt | ⟨_, hlt⟩
    · exact absurd (hvalue ▸ hlt) (UInt16.lt_irrefl _)
    · exact hlt
  rcases List.append_eq_append_iff.1 h with ⟨more, hname, hmore⟩ | ⟨more, hname, _⟩
  · cases more with
    | nil =>
      rw [List.append_nil] at hname
      exact absurd (hname ▸ hlt) (List.lt_irrefl _)
    | cons c more =>
      rw [List.cons_append, List.cons_append] at hmore
      exact ⟨more, hname.trans (by rw [(List.cons.inj hmore).1])⟩
  · rw [hname] at hlt
    exact absurd hlt (List.not_lt.2 List.le_append_left)

/-- Where one choice starts with an entry that the other one hides, the texts differ. -/
theorem listingLine_append_ne_shown {hidden : Text → Bool} (hs : Steady hidden) {entry : Entry}
    {rest : List Entry} (h : entry.Listable) (hname : hidden entry.name = true)
    (hrest : ∀ other ∈ rest, entry.Before other) (tail : Text) :
    entry.listingLine ++ tail ≠ shown hidden rest := by
  intro heq
  induction rest with
  | nil =>
    have hempty := (List.append_eq_nil_iff.1 heq).1
    simp [Entry.listingLine] at hempty
  | cons other rest ih =>
    rw [List.forall_mem_cons] at hrest
    by_cases hother : other.Listable ∧ hidden other.name = false
    · rw [shown_cons_of_shown hother.1 hother.2] at heq
      obtain ⟨more, hmore⟩ := name_of_lines_eq hrest.1 heq
      have hne : entry.name ≠ [] := by
        intro hempty
        have := h.opensScope
        simp [isGlobal, hempty] at this
      rw [hmore, hs _ _ hne, hname] at hother
      exact Bool.noConfusion hother.2
    · rw [shown_cons_of_not_shown] at heq
      · exact ih hrest.2 heq
      · by_cases hl : other.Listable
        · right
          simpa [hl] using hother
        · exact Or.inl hl

/-- The text tells which names are hidden. -/
theorem shown_injective {f g : Text → Bool} (hf : Steady f) (hg : Steady g) {out : List Entry}
    (hout : out.Pairwise Entry.Before) (h : shown f out = shown g out) :
    ∀ entry ∈ out, entry.Listable → f entry.name = g entry.name := by
  induction out with
  | nil => simp
  | cons entry rest ih =>
    obtain ⟨hbefore, hrest⟩ := List.pairwise_cons.1 hout
    rw [List.forall_mem_cons]
    by_cases hl : entry.Listable
    · cases hfe : f entry.name with
      | false =>
        rw [shown_cons_of_shown hl hfe] at h
        cases hge : g entry.name with
        | false =>
          rw [shown_cons_of_shown hl hge, List.append_cancel_left_eq] at h
          exact ⟨fun _ => rfl, ih hrest h⟩
        | true =>
          rw [shown_cons_of_not_shown (Or.inr hge)] at h
          exact absurd h (listingLine_append_ne_shown hg hl hge hbefore _)
      | true =>
        rw [shown_cons_of_not_shown (Or.inr hfe)] at h
        cases hge : g entry.name with
        | false =>
          rw [shown_cons_of_shown hl hge] at h
          exact absurd h.symm (listingLine_append_ne_shown hf hl hfe hbefore _)
        | true =>
          rw [shown_cons_of_not_shown (Or.inr hge)] at h
          exact ⟨fun _ => rfl, ih hrest h⟩
    · rw [shown_cons_of_not_shown (Or.inl hl), shown_cons_of_not_shown (Or.inl hl)] at h
      exact ⟨fun h => absurd h hl, ih hrest h⟩

/-! ## First letters -/

/-- Whether the first byte of a name, taken for a letter, is of upper case. -/
def startsUpperByte (name : Text) : Bool := name.head?.any isUpperLatin

/-- Whether the first letter of a name is of upper case, where `upper` tells which code
points are letters of upper case. -/
def startsUpper (upper : Nat → Bool) (name : Text) : Bool :=
  (Utf8.next name).any fun first => upper first.1

theorem steady_startsUpperByte : Steady startsUpperByte := by
  intro name more hne
  cases name with
  | nil => exact absurd rfl hne
  | cons b rest => rfl

theorem not_continues_newline {low : UInt8} (h : Ascii.newline < low) (high : UInt8) :
    Utf8.continues low high Ascii.newline = false := by
  simp [Utf8.continues, UInt8.not_le.2 h]

/-- A newline goes on with no letter, so it does not change the letter before it. -/
theorem next_append_newline {name : Text} (more : Text) (h : name ≠ []) :
    (Utf8.next (name ++ Ascii.newline :: more)).map Prod.fst = (Utf8.next name).map Prod.fst := by
  have hlow : Utf8.continues 0x80 0xBF Ascii.newline = false :=
    not_continues_newline (by decide) _
  have hthree (p : Bool) (high : UInt8) :
      Utf8.continues (if p then 0xA0 else 0x80) high Ascii.newline = false :=
    not_continues_newline (by cases p <;> decide) _
  have hfour (p : Bool) (high : UInt8) :
      Utf8.continues (if p then 0x90 else 0x80) high Ascii.newline = false :=
    not_continues_newline (by cases p <;> decide) _
  obtain ⟨a, rest, rfl⟩ := List.exists_cons_of_ne_nil h
  simp only [Utf8.next, List.cons_append]
  -- the first byte says how many bytes follow it; the newline is none of them
  by_cases hone : a < 0x80
  · simp only [if_pos hone, Option.map_some]
  by_cases htwo : (0xC2 ≤ a && a ≤ 0xDF) = true
  · simp only [if_neg hone, if_pos htwo]
    rcases rest with _ | ⟨b, rest⟩
    · simp [hlow]
    · simp only [List.cons_append, apply_ite (Option.map Prod.fst), Option.map_some]
  by_cases hthird : (0xE0 ≤ a && a ≤ 0xEF) = true
  · simp only [if_neg hone, if_neg htwo, if_pos hthird]
    rcases rest with _ | ⟨b, _ | ⟨c, rest⟩⟩
    · cases more <;> simp only [List.nil_append, hthree, Bool.false_and] <;> rfl
    · simp only [List.cons_append, List.nil_append, hlow, Bool.and_false]
      rfl
    · simp only [List.cons_append, apply_ite (Option.map Prod.fst), Option.map_some]
  by_cases hfourth : (0xF0 ≤ a && a ≤ 0xF4) = true
  · simp only [if_neg hone, if_neg htwo, if_neg hthird, if_pos hfourth]
    rcases rest with _ | ⟨b, _ | ⟨c, _ | ⟨d, rest⟩⟩⟩
    · rcases more with _ | ⟨_, _ | _⟩ <;>
        simp only [List.nil_append, hfour, Bool.false_and] <;> rfl
    · cases more <;>
        simp only [List.cons_append, List.nil_append, hlow, Bool.and_false, Bool.false_and] <;> rfl
    · simp only [List.cons_append, List.nil_append, hlow, Bool.and_false]
      rfl
    · simp only [List.cons_append, apply_ite (Option.map Prod.fst), Option.map_some]
  · simp only [if_neg hone, if_neg htwo, if_neg hthird, if_neg hfourth, Option.map_some]

theorem steady_startsUpper (upper : Nat → Bool) : Steady (startsUpper upper) := by
  intro name more hne
  have h := next_append_newline more hne
  unfold startsUpper
  have hany (o : Option (Nat × Text)) :
      (o.any fun first => upper first.1) = (o.map Prod.fst).any upper := by
    cases o <;> rfl
  rw [hany, hany, h]

theorem startsUpper_of_ascii (upper : Nat → Bool) {b : UInt8} (h : b < 0x80) (rest : Text) :
    startsUpper upper (b :: rest) = upper b.toNat := by
  simp [startsUpper, Utf8.next, h]

/-! ## The whole listing -/

theorem Entry.isListed_eq (entry : Entry) :
    entry.isListed = (decide entry.Listable && !startsUpperByte entry.name) := by
  have hbase : listingBase ≤ entry.address.value ↔ 0x8000 ≤ entry.address.value.toNat := by
    rw [UInt16.le_iff_toNat_le]
    rfl
  rw [Bool.eq_iff_iff]
  simp only [Entry.isListed, startsUpperByte, Bool.and_eq_true, Bool.not_eq_true',
    decide_eq_true_eq, List.contains_eq_mem, decide_eq_false_iff_not, hbase]
  constructor
  · rintro ⟨⟨⟨hglobal, hdot⟩, hupper⟩, hhigh⟩
    exact ⟨⟨hglobal, hdot, hhigh⟩, hupper⟩
  · rintro ⟨hl, hupper⟩
    exact ⟨⟨⟨hl.opensScope, hl.dotless⟩, hupper⟩, hl.high⟩

theorem Entry.isListed_iff {upper : Nat → Bool}
    (hupper : ∀ b : UInt8, upper b.toNat = isUpperLatin b) (entry : Entry) :
    entry.isListed = true ↔ entry.Listable ∧ ∀ b ∈ entry.name.head?, upper b.toNat = false := by
  rw [Entry.isListed_eq, Bool.and_eq_true, decide_eq_true_eq, startsUpperByte]
  cases entry.name.head? <;> simp [hupper]

theorem Table.listing_eq (table : Table) : table.listing = shown startsUpperByte table.sorted := by
  rw [Table.listing, shown, funext Entry.isListed_eq]

/-- The listing by the rule: listable labels whose names do not start with a letter of
upper case. -/
def Table.ruledListing (upper : Nat → Bool) (table : Table) : Text :=
  shown (startsUpper upper) table.sorted

variable {table : Table}

theorem Table.lines_of_listing (table : Table) :
    ∃ lines, List.Forall₂ Entry.Shows (table.sorted.filter Entry.isListed) lines ∧
      table.listing = lines.flatten := by
  refine ⟨(table.sorted.filter Entry.isListed).map Entry.listingLine, ?_, List.flatMap_def⟩
  rw [List.forall₂_map_right_iff, List.forall₂_same]
  intro entry hentry
  have hlisted := (List.mem_filter.1 hentry).2
  rw [Entry.isListed_eq, Bool.and_eq_true, decide_eq_true_eq] at hlisted
  exact Entry.shows_listingLine hlisted.1

/-- The listing follows the rule when the first byte of each listable name tells as much
as its first letter, and only then. -/
theorem Table.listing_eq_ruledListing_iff (h : (table.entries.map Entry.name).Nodup)
    (upper : Nat → Bool) :
    table.listing = table.ruledListing upper ↔
      ∀ entry ∈ table.entries, entry.Listable →
        startsUpperByte entry.name = startsUpper upper entry.name := by
  have hmem (entry : Entry) : entry ∈ table.sorted ↔ entry ∈ table.entries :=
    table.sorted_perm.mem_iff
  simp only [← hmem]
  rw [Table.listing_eq, Table.ruledListing]
  constructor
  · exact shown_injective steady_startsUpperByte (steady_startsUpper upper)
      (Table.sorted_inOrder h).rising
  · intro hsame
    unfold shown
    congr 1
    apply List.filter_congr
    intro entry hentry
    by_cases hl : entry.Listable
    · rw [hsame entry hentry hl]
    · simp [hl]

theorem Table.listing_of_ascii {upper : Nat → Bool}
    (hupper : ∀ b : UInt8, upper b.toNat = isUpperLatin b)
    (h : (table.entries.map Entry.name).Nodup)
    (hascii : ∀ entry ∈ table.entries, ∀ b ∈ entry.name.head?, b < 0x80) :
    table.listing = table.ruledListing upper := by
  rw [Table.listing_eq_ruledListing_iff h]
  intro entry hentry _
  have hfirst := hascii entry hentry
  cases hname : entry.name with
  | nil => rfl
  | cons b rest =>
    rw [hname] at hfirst
    rw [startsUpper_of_ascii upper (hfirst b rfl), hupper]
    rfl

/-- The entries of a table that was built up in any way come out in one order, each of
them once. The listing has a line for each listable entry whose first byte, taken for a
letter, is not of upper case. This is what the rule says where names start in ASCII. In
general it is not: the first byte of a small letter may be the code of a large one. -/
theorem listing_is_ruled_iff_first_bytes_tell {upper : Nat → Bool}
    (hupper : ∀ b : UInt8, upper b.toNat = isUpperLatin b) {actions : List Action}
    {history : History} (h : History.of actions = history) :
    history.table.InOrder history.table.sorted ∧
    (∀ out : List Entry, out.Perm history.table.entries →
      (out.Pairwise fun a b => ¬ b.Before a) → out = history.table.sorted) ∧
    (∀ others, (∀ entry, entry ∈ (History.of others).table.entries ↔
        entry ∈ history.table.entries) →
      (History.of others).table.sorted = history.table.sorted ∧
      (History.of others).table.listing = history.table.listing) ∧
    (∃ lines, List.Forall₂ Entry.Shows (history.table.sorted.filter Entry.isListed) lines ∧
      history.table.listing = lines.flatten) ∧
    (∀ entry : Entry, entry.isListed = true ↔
      entry.Listable ∧ ∀ b ∈ entry.name.head?, upper b.toNat = false) ∧
    (history.table.listing = history.table.ruledListing upper ↔
      ∀ entry ∈ history.table.entries, entry.Listable →
        startsUpperByte entry.name = startsUpper upper entry.name) ∧
    ((∀ entry ∈ history.table.entries, ∀ b ∈ entry.name.head?, b < 0x80) →
      history.table.listing = history.table.ruledListing upper) := by
  have hdistinct : (history.table.entries.map Entry.name).Nodup :=
    h ▸ (History.sound_of actions).distinct
  refine ⟨Table.sorted_inOrder hdistinct, fun out => Table.eq_sorted_of_not_falling hdistinct,
    fun others hsame => ?_, history.table.lines_of_listing, Entry.isListed_iff hupper,
    Table.listing_eq_ruledListing_iff hdistinct upper, Table.listing_of_ascii hupper hdistinct⟩
  have hsorted := Table.sorted_congr hdistinct (History.sound_of others).distinct hsame
  refine ⟨hsorted, ?_⟩
  rw [Table.listing, Table.listing, hsorted]

/-- The letters of upper case among the first 256 code points. -/
def upperLatin (code : Nat) : Bool := decide (code < 256) && isUpperLatin (UInt8.ofNat code)

/-- A label whose name is the small letter e with an acute accent, at $8000. -/
def accented : List Action := [.define [0xC3, 0xA9] 1 0x8000]

/-- The label is to be listed, and the listing is empty. -/
theorem accented_is_not_listed :
    (History.of accented).table.InOrder (History.of accented).table.sorted ∧
    (History.of accented).table.ruledListing upperLatin =
      ascii "P:0000:" ++ [0xC3, 0xA9, Ascii.newline] ∧
    (History.of accented).table.listing = [] ∧
    (History.of accented).table.listing ≠ (History.of accented).table.ruledListing upperLatin := by
  have hupper : ∀ b : UInt8, upperLatin b.toNat = isUpperLatin b := by
    intro b
    simp [upperLatin, b.toNat_lt]
  obtain ⟨hsorted, _, _, _, _, hruled, _⟩ :=
    listing_is_ruled_iff_first_bytes_tell hupper (Eq.refl (History.of accented))
  refine ⟨hsorted, by decide +kernel, by decide +kernel, ?_⟩
  rw [Ne, hruled]
  decide +kernel

end Label

end Asm6502
