-- Locating bytes. If the lines of a program share no address and none runs
-- over the end of memory, the line of an address is the one whose byte is
-- there. So every byte is found where it came from, and the listing has a row
-- for each line with object code.
import Asm6502.Program.Listing
import Mathlib.Data.List.Forall2

namespace Asm6502

/-! ## The addresses of a line -/

namespace PlacedLine

/-- A place in memory lies in the bytes of a line. -/
def Holds (placed : PlacedLine) (place : Nat) : Prop :=
  placed.address.toNat ≤ place ∧ place < placed.address.toNat + placed.codes.length

/-- The lines share no place. -/
def Disjoint (first second : PlacedLine) : Prop :=
  ∀ place, first.Holds place → ¬ second.Holds place

/-- Where the bytes of a line come from: the line, and the places in its bytes. -/
def sources (placed : PlacedLine) : List (PlacedLine × Nat) :=
  (indexed placed.codes).map fun (n, _) => (placed, n)

theorem covers_iff {placed : PlacedLine} {address : UInt16} :
    placed.covers address = true ↔ placed.Holds address.toNat := by
  simp [covers, Holds, UInt16.le_iff_toNat_le]

end PlacedLine

theorem mem_indexed {α : Type} {items : List α} {n : Nat} {item : α} :
    (n, item) ∈ indexed items ↔ items[n]? = some item := by
  simp [indexed, List.mem_zipIdx_iff_getElem?]

namespace Program

/-- No line runs over the end of memory, and no two share an address. -/
structure Apart (program : Program) : Prop where
  inMemory : ∀ placed ∈ program.lines, placed.codes ≠ [] →
    placed.address.toNat + placed.codes.length ≤ 0x10000
  disjoint : program.lines.Pairwise PlacedLine.Disjoint

/-- Where the bytes of a program come from, in their order. -/
def sources (program : Program) : List (PlacedLine × Nat) :=
  program.lines.flatMap PlacedLine.sources

/-! ## The line of an address -/

theorem find?_covers {lines : List PlacedLine} {placed : PlacedLine} {address : UInt16}
    (hlines : lines.Pairwise PlacedLine.Disjoint) (hmem : placed ∈ lines)
    (hholds : placed.Holds address.toNat) :
    lines.find? (·.covers address) = some placed := by
  induction lines with
  | nil => cases hmem
  | cons first rest ih =>
    obtain ⟨hfirst, hrest⟩ := List.pairwise_cons.1 hlines
    rcases List.mem_cons.1 hmem with rfl | hmem
    · simp [PlacedLine.covers_iff.2 hholds]
    · have hnot : ¬ first.covers address = true := by
        rw [PlacedLine.covers_iff]
        intro hcovers
        exact hfirst placed hmem _ hcovers hholds
      rw [List.find?_cons_of_neg (by simpa using hnot)]
      exact ih hrest hmem

theorem locate?_eq_none {program : Program} {address : UInt16}
    (h : ∀ placed ∈ program.lines, ¬ placed.Holds address.toNat) :
    program.locate? address = none := by
  have hfind : program.lines.find? (·.covers address) = none := by
    rw [List.find?_eq_none]
    intro placed hmem hcovers
    exact h placed hmem (PlacedLine.covers_iff.1 hcovers)
  simp [locate?, hfind]

variable {program : Program} {placed : PlacedLine} {n : Nat}

/-- The address of a byte does not wrap around. -/
theorem Apart.address_toNat (h : program.Apart) (hmem : placed ∈ program.lines)
    (hn : n < placed.codes.length) :
    (placed.address + UInt16.ofNat n).toNat = placed.address.toNat + n := by
  have hne : placed.codes ≠ [] := List.ne_nil_of_length_pos (by omega)
  have hfits := h.inMemory placed hmem hne
  rw [UInt16.toNat_add, UInt16.toNat_ofNat']
  omega

theorem Apart.locate? (h : program.Apart) (hmem : placed ∈ program.lines)
    (hn : n < placed.codes.length) :
    program.locate? (placed.address + UInt16.ofNat n) = some (placed, n) := by
  have haddress := h.address_toNat hmem hn
  have hholds : placed.Holds (placed.address + UInt16.ofNat n).toNat := by
    unfold PlacedLine.Holds
    omega
  have hindex : (placed.address + UInt16.ofNat n - placed.address).toNat = n := by
    rw [UInt16.toNat_sub_of_le _ _ (by rw [UInt16.le_iff_toNat_le]; omega)]
    omega
  rw [Program.locate?, find?_covers h.disjoint hmem hholds, Option.map_some, hindex]

/-! ## Every byte -/

/-- A byte and where it comes from: there its address leads, and there it stands. -/
def Finds (program : Program) (byte : UInt16 × UInt8) (source : PlacedLine × Nat) : Prop :=
  byte.1.toNat = source.1.address.toNat + source.2 ∧ source.1.codes[source.2]? = some byte.2 ∧
    program.locate? byte.1 = some source

theorem forall₂_flatMap {α β γ : Type} {R : β → γ → Prop} {items : List α} {f : α → List β}
    {g : α → List γ} (h : ∀ item ∈ items, List.Forall₂ R (f item) (g item)) :
    List.Forall₂ R (items.flatMap f) (items.flatMap g) := by
  induction items with
  | nil => exact .nil
  | cons item items ih =>
    rw [List.flatMap_cons, List.flatMap_cons]
    exact List.rel_append (h item List.mem_cons_self)
      (ih fun other hmem => h other (List.mem_cons_of_mem item hmem))

theorem Apart.finds_line (h : program.Apart) (hmem : placed ∈ program.lines) :
    List.Forall₂ program.Finds placed.addressed placed.sources := by
  unfold PlacedLine.addressed PlacedLine.sources
  rw [List.forall₂_map_left_iff, List.forall₂_map_right_iff, List.forall₂_same]
  rintro ⟨n, code⟩ hbyte
  have hcode : placed.codes[n]? = some code := mem_indexed.1 hbyte
  have hn : n < placed.codes.length := (List.getElem?_eq_some_iff.1 hcode).1
  exact ⟨h.address_toNat hmem hn, hcode, h.locate? hmem hn⟩

/-! ## The listing -/

/-- Of the bytes of a line, the first one gives a row. -/
theorem Apart.lineAt? (h : program.Apart) (hmem : placed ∈ program.lines)
    (hn : n < placed.codes.length) :
    program.lineAt? (placed.address + UInt16.ofNat n) =
      if n = 0 then some (placed.address, placed) else none := by
  unfold Program.lineAt?
  rw [h.locate? hmem hn]
  cases n with
  | zero => simp
  | succ n => simp

theorem filterMap_indexed_first {α β : Type} (items : List α) (b : β) :
    (indexed items).filterMap (fun item => if item.1 = 0 then some b else none) =
      if items.isEmpty then [] else [b] := by
  cases items with
  | nil => rfl
  | cons item items =>
    have hrest : (items.zipIdx 1).filterMap (fun item => if item.2 = 0 then some b else none) =
        [] := by
      rw [List.filterMap_eq_nil_iff]
      rintro ⟨item, n⟩ hmem
      have hn : 1 ≤ n := List.le_snd_of_mem_zipIdx hmem
      exact if_neg (by dsimp only; omega)
    simpa [indexed, List.zipIdx_cons, List.filterMap_map] using hrest

theorem Apart.listed_line (h : program.Apart) (hmem : placed ∈ program.lines) :
    placed.addressed.filterMap (fun byte => program.lineAt? byte.1) =
      if placed.codes.isEmpty then [] else [(placed.address, placed)] := by
  have hrow : ∀ byte ∈ indexed placed.codes,
      program.lineAt? (placed.address + UInt16.ofNat byte.1) =
        if byte.1 = 0 then some (placed.address, placed) else none := by
    rintro ⟨n, code⟩ hbyte
    exact h.lineAt? hmem (List.getElem?_eq_some_iff.1 (mem_indexed.1 hbyte)).1
  rw [PlacedLine.addressed, List.filterMap_map,
    ← filterMap_indexed_first placed.codes (placed.address, placed)]
  exact List.filterMap_congr hrow

theorem Apart.listed_eq (h : program.Apart) :
    program.listed =
      (program.lines.filter fun placed => !placed.codes.isEmpty).map fun placed =>
        (placed.address, placed) := by
  have hlines : ∀ lines : List PlacedLine, (∀ placed ∈ lines, placed ∈ program.lines) →
      (lines.flatMap PlacedLine.addressed).filterMap (fun byte => program.lineAt? byte.1) =
        (lines.filter fun placed => !placed.codes.isEmpty).map fun placed =>
          (placed.address, placed) := by
    intro lines hsub
    induction lines with
    | nil => rfl
    | cons placed lines ih =>
      have hfirst := h.listed_line (hsub placed List.mem_cons_self)
      have hrest := ih fun other hmem => hsub other (List.mem_cons_of_mem placed hmem)
      rw [List.flatMap_cons, List.filterMap_append, hfirst, hrest]
      cases hcodes : placed.codes.isEmpty with
      | true => simp [hcodes]
      | false => simp [hcodes]
  exact hlines program.lines fun _ hmem => hmem

/-- Locating inverts the addresses of the bytes: each byte is found on the line
and at the place that it comes from, and nothing is found at an address that no
line holds. The listing has one row for each line with object code, in the
order of the lines and at the address of the line. -/
theorem locating_inverts_addressing (h : program.Apart) :
    List.Forall₂ program.Finds program.addressed program.sources ∧
      (∀ address, (∀ placed ∈ program.lines, ¬ placed.Holds address.toNat) →
        program.locate? address = none) ∧
      program.listing = (program.lines.filter fun placed => !placed.codes.isEmpty).flatMap
        fun placed => listingRow placed.address placed := by
  refine ⟨?_, ?_, ?_⟩
  · exact forall₂_flatMap fun placed hmem => h.finds_line hmem
  · intro address hfree
    exact locate?_eq_none hfree
  · rw [listing, h.listed_eq, List.flatMap_map]

/-- Bytes up to the end of memory, a line without bytes, and bytes below. -/
def scattered : Program :=
  { origin := 0xFFFE
    lines :=
      [⟨⟨1, ascii "main.s", ascii " X=1", [], []⟩, 0xFFFE, [0xA2, 0x01]⟩,
        ⟨⟨2, ascii "main.s", ascii " *=$200", [], []⟩, 0x0200, []⟩,
        ⟨⟨3, ascii "main.s", ascii " ;", [], []⟩, 0x0200, [0x60]⟩]
    labels := {} }

theorem scattered_is_located_and_listed :
    scattered.Apart ∧ List.Forall₂ scattered.Finds scattered.addressed scattered.sources ∧
      scattered.listing =
        ascii "$FFFE  A2 01     main.s:1  X=1\n$0200  60        main.s:3  ;\n" := by
  have h : scattered.Apart := by
    constructor
    · simp [scattered]
    · simp [scattered, PlacedLine.Disjoint, PlacedLine.Holds]
      grind
  obtain ⟨hfinds, _, hlisting⟩ := locating_inverts_addressing h
  refine ⟨h, hfinds, ?_⟩
  rw [hlisting]
  decide +kernel

end Program

end Asm6502
