-- The words of a text by place. Quotes are paired from the left. Law: words are what is
-- left of a text between the blanks that no pair of quotes encloses. No other byte
-- is lost, and no two words are split anywhere else.
import Asm6502.Proofs.LineScanning
import Mathlib.Data.List.Pairwise

namespace Asm6502

namespace Line

/-! ## Pairs of quotes -/

/-- The number of quotes in front of a place. -/
def quotesBefore (text : Text) (i : Nat) : Nat := (text.take i).count Ascii.quote

/-- Two quotes that make a pair. The quotes before the first one are all paired, and
the second is the next one. -/
structure QuotePair (text : Text) (first second : Nat) : Prop where
  opens : text[first]? = some Ascii.quote
  even : quotesBefore text first % 2 = 0
  closes : text[second]? = some Ascii.quote
  rising : first < second
  next : ∀ i, first < i → i < second → text[i]? ≠ some Ascii.quote

/-- A place inside a pair of quotes. -/
def Enclosed (text : Text) (i : Nat) : Prop :=
  ∃ first second, QuotePair text first second ∧ first < i ∧ i < second

/-- A place that separates words: a blank that no pair of quotes encloses. -/
def Gap (text : Text) (i : Nat) : Prop :=
  (∃ b, text[i]? = some b ∧ isBlank b = true) ∧ ¬ Enclosed text i

/-! ## Reading from the left -/

theorem quotesBefore_succ (text : Text) (i : Nat) :
    quotesBefore text (i + 1) =
      quotesBefore text i + if text[i]? = some Ascii.quote then 1 else 0 := by
  rw [quotesBefore, List.take_add_one, List.count_append, ← quotesBefore]
  cases text[i]? with
  | none => simp
  | some b => simp [List.count_singleton]

/-- Whether a pair of quotes is open at a place: an odd number of quotes is behind,
and another one is ahead. -/
def isOpen (text : Text) (i : Nat) : Bool :=
  quotesBefore text i % 2 == 1 && (text.drop i).contains Ascii.quote

theorem quotesBefore_between {text : Text} {first second : Nat} (h : QuotePair text first second)
    {i : Nat} (hfirst : first < i) (hsecond : i ≤ second) :
    quotesBefore text i = quotesBefore text first + 1 := by
  induction hfirst with
  | refl => rw [quotesBefore_succ, if_pos h.opens]
  | step hle ih => rw [quotesBefore_succ, if_neg (h.next _ hle hsecond), ih (by omega)]

/-- The last of an odd number of quotes has an even number of them in front. -/
theorem exists_last_quote {text : Text} {i : Nat} (h : quotesBefore text i % 2 = 1) :
    ∃ first < i, text[first]? = some Ascii.quote ∧ quotesBefore text first % 2 = 0 ∧
      ∀ k, first < k → k < i → text[k]? ≠ some Ascii.quote := by
  induction i with
  | zero => cases h
  | succ i ih =>
    rw [quotesBefore_succ] at h
    by_cases hquote : text[i]? = some Ascii.quote
    · rw [if_pos hquote] at h
      exact ⟨i, by omega, hquote, by omega, by omega⟩
    · rw [if_neg hquote] at h
      obtain ⟨first, hlt, hfirst, heven, hnext⟩ := ih h
      refine ⟨first, by omega, hfirst, heven, fun k hk hki => ?_⟩
      rcases Nat.lt_succ_iff_lt_or_eq.1 hki with hki | rfl
      · exact hnext k hk hki
      · exact hquote

theorem enclosed_iff {text : Text} {i : Nat} (h : text[i]? ≠ some Ascii.quote) :
    Enclosed text i ↔ isOpen text i = true := by
  rw [isOpen, Bool.and_eq_true, beq_iff_eq, List.contains_iff_mem]
  constructor
  · rintro ⟨first, second, hpair, hfirst, hsecond⟩
    refine ⟨?_, ?_⟩
    · have := quotesBefore_between hpair hfirst (by omega)
      have := hpair.even
      omega
    · refine List.mem_of_getElem? (i := second - i) ?_
      rw [List.getElem?_drop, Nat.add_sub_cancel' (by omega)]
      exact hpair.closes
  · rintro ⟨hodd, hmem⟩
    obtain ⟨first, hfirst, hopens, heven, hnext⟩ := exists_last_quote hodd
    obtain ⟨body, after, hdrop, hbody⟩ := List.eq_append_cons_of_mem hmem
    have hahead (k : Nat) : text[i + k]? = (body ++ Ascii.quote :: after)[k]? := by
      rw [← hdrop, List.getElem?_drop]
    have hplain (k : Nat) (hk : k < body.length) : text[i + k]? ≠ some Ascii.quote := by
      rw [hahead, List.getElem?_append_left hk]
      exact fun hq => hbody (List.mem_of_getElem? hq)
    have hcloses : text[i + body.length]? = some Ascii.quote := by
      rw [hahead]
      simp
    have hpos : 0 < body.length := by
      rcases Nat.eq_zero_or_pos body.length with hzero | hpos
      · rw [hzero] at hcloses
        exact absurd hcloses h
      · exact hpos
    refine ⟨first, i + body.length, ⟨hopens, heven, hcloses, by omega, fun k hk hk' => ?_⟩,
      hfirst, by omega⟩
    rcases Nat.lt_or_ge k i with hki | hik
    · exact hnext k hk hki
    · obtain ⟨m, rfl⟩ := Nat.exists_eq_add_of_le hik
      exact hplain m (by omega)

theorem ne_quote_of_isBlank {b : UInt8} (h : isBlank b = true) : b ≠ Ascii.quote := by
  rintro rfl
  revert h
  decide

theorem gap_iff {text : Text} {i : Nat} {b : UInt8} (h : text[i]? = some b) :
    Gap text i ↔ isBlank b = true ∧ isOpen text i = false := by
  have hblank : (∃ c, text[i]? = some c ∧ isBlank c = true) ↔ isBlank b = true := by simp [h]
  rw [Gap, hblank]
  refine and_congr_right fun hb => ?_
  rw [enclosed_iff (by simpa [h] using ne_quote_of_isBlank hb), Bool.not_eq_true]

theorem getElem?_of_drop {text rest : Text} {i : Nat} {b : UInt8} (h : text.drop i = b :: rest) :
    text[i]? = some b := by
  rw [← List.head?_drop, h]
  rfl

theorem drop_succ {text rest : Text} {i : Nat} {b : UInt8} (h : text.drop i = b :: rest) :
    text.drop (i + 1) = rest := by
  rw [← List.tail_drop, h]
  rfl

/-- A quote opens a pair or closes one; any other byte does neither. -/
theorem isOpen_succ {text rest : Text} {i : Nat} {b : UInt8} (h : text.drop i = b :: rest) :
    isOpen text (i + 1) =
      if b == Ascii.quote then !isOpen text i && rest.contains Ascii.quote else isOpen text i := by
  have hget := getElem?_of_drop h
  have hrest := drop_succ h
  rw [isOpen, isOpen, quotesBefore_succ, hrest, h, hget]
  by_cases hb : b = Ascii.quote
  · subst hb
    rcases Nat.mod_two_eq_zero_or_one (quotesBefore text i) with hpar | hpar
    · simp [hpar, Nat.add_mod]
    · simp [hpar, Nat.add_mod]
  · simp [hb, Ne.symm hb]

/-! ## Spans -/

/-- The places of a text from `start` on that are before `stop`. -/
@[ext]
structure Span where
  start : Nat
  stop : Nat
  rising : start < stop

namespace Span

def Covers (s : Span) (i : Nat) : Prop := s.start ≤ i ∧ i < s.stop

theorem covers_start (s : Span) : s.Covers s.start := ⟨Nat.le_refl _, s.rising⟩

theorem covers_last (s : Span) : s.Covers (s.stop - 1) := by
  have := s.rising
  exact ⟨by omega, by omega⟩

theorem eq_of_covers {s t : Span} (h : ∀ i, s.Covers i ↔ t.Covers i) : s = t := by
  have hsfirst := ((h s.start).1 s.covers_start).1
  have htfirst := ((h t.start).2 t.covers_start).1
  have hslast := ((h (s.stop - 1)).1 s.covers_last).2
  have htlast := ((h (t.stop - 1)).2 t.covers_last).2
  have := s.rising
  have := t.rising
  exact Span.ext (by omega) (by omega)

/-- The bytes at the places. -/
def bytes (text : Text) (s : Span) : Text := text.extract s.start s.stop

end Span

/-- Spans that cut the words out of a text. -/
structure Splits (text : Text) (spans : List Span) : Prop where
  within : ∀ s ∈ spans, s.stop ≤ text.length
  /-- The spans are in order and do not overlap. -/
  ordered : spans.Pairwise fun s t => s.stop ≤ t.start
  /-- What no span covers is blank. -/
  blank : ∀ i b, text[i]? = some b → (∀ s ∈ spans, ¬ s.Covers i) → isBlank b = true
  /-- A blank is covered if and only if a pair of quotes encloses it. -/
  covered : ∀ i b, text[i]? = some b → isBlank b = true →
    ((∃ s ∈ spans, s.Covers i) ↔ Enclosed text i)
  /-- Two places are in different spans if and only if there is a gap between them. -/
  parted : ∀ s ∈ spans, ∀ t ∈ spans, ∀ i j, s.Covers i → t.Covers j → i ≤ j →
    (s ≠ t ↔ ∃ k, i < k ∧ k < j ∧ Gap text k)

namespace Splits

variable {text : Text} {spans others : List Span}

/-- The spans cover all but the gaps. -/
theorem covers_iff (h : Splits text spans) {k : Nat} (hk : k < text.length) :
    (∃ s ∈ spans, s.Covers k) ↔ ¬ Gap text k := by
  have hget : text[k]? = some text[k] := List.getElem?_eq_getElem hk
  constructor
  · rintro hcov ⟨⟨b, hb, hblank⟩, houtside⟩
    exact houtside ((h.covered k b hb hblank).1 hcov)
  · intro hgap
    by_contra hcov
    have hblank : isBlank text[k] = true :=
      h.blank k _ hget fun s hs hk => hcov ⟨s, hs, hk⟩
    exact hgap ⟨⟨_, hget, hblank⟩, mt (h.covered k _ hget hblank).2 hcov⟩

/-- A span covers no less than any span of another splitting that it meets: a place
that only one of them covers would be behind a gap, and neither has one. -/
theorem covers_of_meet (h : Splits text spans) (hother : Splits text others) {s t : Span}
    (hs : s ∈ spans) (ht : t ∈ others) {a : Nat} (hsa : s.Covers a) (hta : t.Covers a) {k : Nat}
    (hk : s.Covers k) : t.Covers k := by
  have hlt : k < text.length := Nat.lt_of_lt_of_le hk.2 (h.within s hs)
  obtain ⟨u, hu, huk⟩ := (hother.covers_iff hlt).2 ((h.covers_iff hlt).1 ⟨s, hs, hk⟩)
  by_cases hut : u = t
  · exact hut ▸ huk
  · rcases Nat.le_total a k with hle | hle
    · have hgap := (hother.parted t ht u hu a k hta huk hle).1 (Ne.symm hut)
      exact absurd rfl ((h.parted s hs s hs a k hsa hk hle).2 hgap)
    · have hgap := (hother.parted u hu t ht k a huk hta hle).1 hut
      exact absurd rfl ((h.parted s hs s hs k a hk hsa hle).2 hgap)

theorem subset (h : Splits text spans) (hother : Splits text others) : spans ⊆ others := by
  intro s hs
  have hlt : s.start < text.length := Nat.lt_of_lt_of_le s.rising (h.within s hs)
  obtain ⟨t, ht, hmeet⟩ :=
    (hother.covers_iff hlt).2 ((h.covers_iff hlt).1 ⟨s, hs, s.covers_start⟩)
  have hst : s = t := Span.eq_of_covers fun i =>
    ⟨h.covers_of_meet hother hs ht s.covers_start hmeet,
      hother.covers_of_meet h ht hs hmeet s.covers_start⟩
  exact hst ▸ ht

theorem nodup (h : Splits text spans) : spans.Nodup := by
  apply h.ordered.imp
  rintro s t hle rfl
  exact absurd s.rising (Nat.not_lt.2 hle)

/-- There is one way only to split a text. -/
theorem unique (h : Splits text spans) (hother : Splits text others) : others = spans := by
  have hperm : others.Perm spans :=
    (List.perm_ext_iff_of_nodup hother.nodup h.nodup).2 fun s =>
      ⟨fun hs => hother.subset h hs, fun hs => h.subset hother hs⟩
  apply hperm.eq_of_pairwise _ hother.ordered h.ordered
  intro s t _ _ hst hts
  have := s.rising
  have := t.rising
  omega

end Splits

/-- Spans as they are found from a place on: the places in front of a span are gaps,
those that it covers are none, and a gap or the end of the text follows. -/
inductive Scans (text : Text) : Nat → List Span → Prop
  | done {i : Nat} (gaps : ∀ k, i ≤ k → k < text.length → Gap text k) : Scans text i []
  | span {i : Nat} {spans : List Span} (s : Span) (behind : i ≤ s.start)
      (within : s.stop ≤ text.length) (gaps : ∀ k, i ≤ k → k < s.start → Gap text k)
      (solid : ∀ k, s.Covers k → ¬ Gap text k)
      (ends : s.stop = text.length ∨ Gap text s.stop) (rest : Scans text s.stop spans) :
      Scans text i (s :: spans)

namespace Scans

variable {text : Text} {i : Nat} {spans : List Span}

theorem bounds (h : Scans text i spans) : ∀ s ∈ spans, i ≤ s.start ∧ s.stop ≤ text.length := by
  induction h with
  | done => simp
  | span s behind within _ _ _ _ ih =>
    intro t ht
    rcases List.mem_cons.1 ht with rfl | ht
    · exact ⟨behind, within⟩
    · obtain ⟨hstart, hstop⟩ := ih t ht
      have := s.rising
      exact ⟨by omega, hstop⟩

theorem ordered (h : Scans text i spans) : spans.Pairwise fun s t => s.stop ≤ t.start := by
  induction h with
  | done => exact .nil
  | span s _ _ _ _ _ rest ih => exact .cons (fun t ht => (rest.bounds t ht).1) ih

theorem ends (h : Scans text i spans) : ∀ s ∈ spans, s.stop = text.length ∨ Gap text s.stop := by
  induction h with
  | done => simp
  | span s _ _ _ _ ends _ ih => exact List.forall_mem_cons.2 ⟨ends, ih⟩

theorem disjoint (h : Scans text i spans) {s t : Span} (hs : s ∈ spans) (ht : t ∈ spans)
    (hne : s ≠ t) : s.stop ≤ t.start ∨ t.stop ≤ s.start := by
  have hboth : spans.Pairwise fun s t => s.stop ≤ t.start ∨ t.stop ≤ s.start := h.ordered.imp .inl
  have : Std.Symm fun s t : Span => s.stop ≤ t.start ∨ t.stop ≤ s.start := ⟨fun _ _ => Or.symm⟩
  exact hboth.forall hs ht hne

/-- The spans cover all but the gaps. -/
theorem covers_iff (h : Scans text i spans) {k : Nat} (hik : i ≤ k) (hk : k < text.length) :
    (∃ s ∈ spans, s.Covers k) ↔ ¬ Gap text k := by
  induction h with
  | done gaps => simp [gaps k hik hk]
  | @span i spans s _ _ gaps solid _ rest ih =>
    rcases Nat.lt_or_ge k s.stop with hstop | hstop
    · -- A later span starts behind this one, so only this one can cover the place.
      have hlater : ¬ ∃ t ∈ spans, t.Covers k := by
        rintro ⟨t, ht, hcov⟩
        have := (rest.bounds t ht).1
        have := hcov.1
        omega
      rcases Nat.lt_or_ge k s.start with hstart | hstart
      · have hno : ¬ s.Covers k := fun hcov => by have := hcov.1; omega
        simpa [hno, gaps k hik hstart] using hlater
      · have hcov : s.Covers k := ⟨hstart, hstop⟩
        simp [hcov, solid k hcov]
    · have hno : ¬ s.Covers k := fun hcov => by have := hcov.2; omega
      simpa [hno] using ih hstop

theorem not_gap (h : Scans text i spans) {s : Span} (hs : s ∈ spans) {k : Nat} (hk : s.Covers k) :
    ¬ Gap text k := by
  obtain ⟨hstart, hstop⟩ := h.bounds s hs
  exact (h.covers_iff (Nat.le_trans hstart hk.1) (Nat.lt_of_lt_of_le hk.2 hstop)).1 ⟨s, hs, hk⟩

/-- The gap that ends a span is in front of all that later spans cover. -/
theorem gap_between (h : Scans text i spans) {s t : Span} (hs : s ∈ spans) (ht : t ∈ spans)
    (hne : s ≠ t) {a b : Nat} (ha : s.Covers a) (hb : t.Covers b) (hab : a ≤ b) :
    ∃ k, a < k ∧ k < b ∧ Gap text k := by
  have hle : s.stop ≤ b := by
    rcases h.disjoint hs ht hne with hlt | hlt
    · exact Nat.le_trans hlt hb.1
    · -- The other way round, the second place would be in front of the first.
      have := ha.1
      have := hb.2
      omega
  have hgap : Gap text s.stop := by
    refine (h.ends s hs).resolve_left fun hend => ?_
    have := (h.bounds t ht).2
    have := hb.2
    omega
  refine ⟨s.stop, ha.2, Nat.lt_of_le_of_ne hle ?_, hgap⟩
  rintro rfl
  exact h.not_gap ht hb hgap

theorem splits (h : Scans text 0 spans) : Splits text spans where
  within s hs := (h.bounds s hs).2
  ordered := h.ordered
  blank k b hk hout := by
    have hcovers := h.covers_iff (Nat.zero_le k) (List.getElem?_eq_some_iff.1 hk).1
    obtain ⟨⟨c, hc, hblank⟩, -⟩ : Gap text k := by
      by_contra hgap
      obtain ⟨s, hs, hcov⟩ := hcovers.2 hgap
      exact hout s hs hcov
    exact Option.some.inj (hk.symm.trans hc) ▸ hblank
  covered k b hk hblank := by
    rw [h.covers_iff (Nat.zero_le k) (List.getElem?_eq_some_iff.1 hk).1, Gap, not_and_not_right]
    exact forall_prop_of_true ⟨b, hk, hblank⟩
  parted s hs t ht a b ha hb hab := by
    constructor
    · intro hne
      exact h.gap_between hs ht hne ha hb hab
    · rintro ⟨k, hak, hkb, hgap⟩ rfl
      exact h.not_gap hs ⟨Nat.le_trans ha.1 (Nat.le_of_lt hak), Nat.lt_trans hkb hb.2⟩ hgap

end Scans

/-! ## Words -/

/-- A word goes on to the next gap, or to the end of the text. -/
theorem word_solid {text t : Text} {i : Nat} (ht : text.drop i = t) (hi : i ≤ text.length) :
    let stop := i + (word (isOpen text i) t).1.length
    (∀ k, i ≤ k → k < stop → ¬ Gap text k) ∧ (stop = text.length ∨ Gap text stop) := by
  induction t generalizing i with
  | nil =>
    have := List.drop_eq_nil_iff.1 ht
    simp only [word, List.length_nil, Nat.add_zero]
    exact ⟨by omega, .inl (by omega)⟩
  | cons b rest ih =>
    have hget := getElem?_of_drop ht
    by_cases hgap : Gap text i
    · have hb := (gap_iff hget).1 hgap
      simp only [word, hb.1, hb.2, Bool.not_false, Bool.and_self, if_true, List.length_nil,
        Nat.add_zero]
      exact ⟨by omega, .inr hgap⟩
    · have hword : isBlank b = false ∨ isOpen text i = true := by
        simpa [gap_iff hget, ← Bool.not_eq_true, or_iff_not_imp_left] using hgap
      have hlt : i < text.length := (List.getElem?_eq_some_iff.1 hget).1
      obtain ⟨hsolid, hends⟩ := ih (drop_succ ht) hlt
      rw [isOpen_succ ht] at hsolid hends
      rw [word_step hword]
      simp only [List.length_cons, ← Nat.add_assoc, Nat.add_right_comm _ _ 1]
      refine ⟨fun k hk hstop => ?_, hends⟩
      rcases Nat.eq_or_lt_of_le hk with rfl | hk
      · exact hgap
      · exact hsolid k hk hstop

/-- Blanks in front of a word are gaps. -/
theorem blanks_gaps {text t : Text} {i : Nat} (ht : text.drop i = t)
    (hopen : isOpen text i = false) :
    let start := i + (t.takeWhile isBlank).length
    text.drop start = t.dropWhile isBlank ∧ isOpen text start = false ∧
      ∀ k, i ≤ k → k < start → Gap text k := by
  induction t generalizing i with
  | nil => exact ⟨ht, hopen, fun k hk hlt => absurd hlt (Nat.not_lt.2 hk)⟩
  | cons b rest ih =>
    by_cases hb : isBlank b = true
    · have hgap : Gap text i := (gap_iff (getElem?_of_drop ht)).2 ⟨hb, hopen⟩
      have hnext : isOpen text (i + 1) = false := by
        rw [isOpen_succ ht, if_neg (by simpa using ne_quote_of_isBlank hb), hopen]
      obtain ⟨hdrop, hstart, hgaps⟩ := ih (drop_succ ht) hnext
      simp only [List.takeWhile_cons_of_pos hb, List.dropWhile_cons_of_pos hb, List.length_cons,
        ← Nat.add_assoc, Nat.add_right_comm _ _ 1]
      refine ⟨hdrop, hstart, fun k hk hlt => ?_⟩
      rcases Nat.eq_or_lt_of_le hk with rfl | hk
      · exact hgap
      · exact hgaps k hk hlt
    · simp only [List.takeWhile_cons_of_neg hb, List.dropWhile_cons_of_neg hb]
      exact ⟨ht, hopen, fun k hk hlt => absurd hlt (Nat.not_lt.2 hk)⟩

/-- No pair of quotes is open where a word ends. -/
theorem isOpen_of_ends {text : Text} {i : Nat} (h : i = text.length ∨ Gap text i) :
    isOpen text i = false := by
  rcases h with rfl | hgap
  · simp [isOpen]
  · obtain ⟨b, hb, -⟩ := hgap.1
    exact ((gap_iff hb).1 hgap).2

theorem words_scan {text t : Text} {i : Nat} (ht : text.drop i = t) (hi : i ≤ text.length)
    (hopen : isOpen text i = false) :
    ∃ spans, words t = spans.map (Span.bytes text) ∧ Scans text i spans := by
  fun_induction words t generalizing i with
  | case1 t h =>
    obtain ⟨hdrop, -, hgaps⟩ := blanks_gaps ht hopen
    have hend := List.drop_eq_nil_iff.1 (hdrop.trans h)
    exact ⟨[], rfl, .done fun k hk hlt => hgaps k hk (by omega)⟩
  | case2 t b rest h _ first =>
    rename_i ih
    obtain ⟨hdrop, hstart, hgaps⟩ := blanks_gaps ht hopen
    have hbehind : i ≤ i + (t.takeWhile isBlank).length := Nat.le_add_right ..
    generalize i + (t.takeWhile isBlank).length = start at *
    rw [h] at hdrop
    have hlt : start < text.length := (List.getElem?_eq_some_iff.1 (getElem?_of_drop hdrop)).1
    obtain ⟨hsolid, hends⟩ := word_solid hdrop (Nat.le_of_lt hlt)
    rw [hstart] at hsolid hends
    have hcut : text.drop start = first.1 ++ first.2 := hdrop.trans (word_append false _).symm
    have hfirst : start < start + first.1.length := by
      have hb : isBlank b = false := by simpa [h] using List.head?_dropWhile_not isBlank t
      exact Nat.lt_add_of_pos_right (by simp [first, word, hb])
    have hwithin : start + first.1.length ≤ text.length := by
      have := congrArg List.length hcut
      rw [List.length_drop, List.length_append] at this
      omega
    have hafter : text.drop (start + first.1.length) = first.2 := by
      rw [← List.drop_drop, hcut, List.drop_left]
    obtain ⟨spans, hwords, hscans⟩ := ih hafter hwithin (isOpen_of_ends hends)
    refine ⟨⟨start, start + first.1.length, hfirst⟩ :: spans, ?_,
      .span _ hbehind hwithin hgaps (fun k hk => hsolid k hk.1 hk.2) hends hscans⟩
    simp [Span.bytes, hcut, hwords]

/-- Words lose nothing. They are what spans of the text hold, and none of them is
empty. The spans leave out the blanks that no pair of quotes encloses and no more, and
no other spans do so. -/
theorem words_lose_nothing (text : Text) :
    (∀ w ∈ words text, w ≠ []) ∧
      ∃ spans : List Span, words text = spans.map (Span.bytes text) ∧ Splits text spans ∧
        ∀ others, Splits text others → others = spans := by
  have hopen : isOpen text 0 = false := by simp [isOpen, quotesBefore]
  obtain ⟨spans, hwords, hscans⟩ := words_scan List.drop_zero (Nat.zero_le _) hopen
  refine ⟨fun w hw => ?_, spans, hwords, hscans.splits, fun _ => hscans.splits.unique⟩
  rw [hwords] at hw
  obtain ⟨s, hs, rfl⟩ := List.mem_map.1 hw
  have := s.rising
  have := (hscans.bounds s hs).2
  apply List.ne_nil_of_length_pos
  rw [Span.bytes, List.length_take, List.length_drop]
  omega

-- The last quote has no partner, so the blank behind it separates words.
example : words (ascii " A=\"x y\"z  \"u v") = ["A=\"x y\"z", "\"u", "v"].map ascii := by
  decide +kernel

end Line

end Asm6502
