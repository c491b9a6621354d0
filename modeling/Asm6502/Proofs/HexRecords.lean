-- What the records of an Intel HEX file put into memory, and what is assumed of
-- the library that writes them: the bytes of a memory go into data records in the
-- order of their addresses, each of them in the bank that was announced last. Such
-- records put each byte at its place, whatever banks they cross. The library of
-- the program does what is assumed.
import Asm6502.Image
import Asm6502.Image.HexMemory

namespace Asm6502

/-- Bytes in a row, the first one at an address; addresses never wrap. -/
def rowFrom (start : Nat) (codes : Text) : List (Nat × UInt8) :=
  (indexed codes).map fun (n, code) => (start + n, code)

theorem rowFrom_nil (start : Nat) : rowFrom start [] = [] := rfl

theorem rowFrom_cons (start : Nat) (code : UInt8) (codes : Text) :
    rowFrom start (code :: codes) = (start, code) :: rowFrom (start + 1) codes := by
  unfold rowFrom indexed
  rw [List.zipIdx_cons, List.zipIdx_succ]
  simp [Nat.add_right_comm, ← Nat.add_assoc]

theorem rowFrom_append (start : Nat) (front back : Text) :
    rowFrom start (front ++ back) = rowFrom start front ++ rowFrom (start + front.length) back := by
  induction front generalizing start with
  | nil => rfl
  | cons code front ih =>
    rw [List.cons_append, rowFrom_cons, rowFrom_cons, ih, List.length_cons, List.cons_append,
      Nat.add_assoc, Nat.add_comm 1]

theorem rowFrom_split (start n : Nat) (codes : Text) :
    rowFrom start (codes.take n) ++ rowFrom (start + n) (codes.drop n) = rowFrom start codes := by
  rcases Nat.le_total n codes.length with h | h
  · have hsplit := rowFrom_append start (codes.take n) (codes.drop n)
    rw [List.take_append_drop, List.length_take_of_le h] at hsplit
    exact hsplit.symm
  · rw [List.take_of_length_le h, List.drop_of_length_le h, rowFrom_nil, List.append_nil]

namespace IntelHex

/-- The bytes that records put into memory, with their addresses. A file starts
in bank 0, and ends at its end record. -/
def loaded (bank : Nat) : List Record → List (Nat × UInt8)
  | [] => []
  | .data address bytes :: rest =>
    rowFrom (bank * bankSize + address.toNat) bytes ++ loaded bank rest
  | .bank number :: rest => loaded number.toNat rest
  | .endOfFile :: _ => []

/-! ## What is assumed of a library -/

/-- Records that write bytes at their places, where `bank` is the current bank. A
bank may be announced before a byte that is in it. A data record takes the next
bytes, at most so many, and all of them are in the current bank. -/
inductive Dumps (lineLength : Nat) : (bank : Nat) → List (Nat × UInt8) → List Record → Prop
  | done (bank : Nat) : Dumps lineLength bank [] []
  | bank {bank : Nat} {number : UInt16} {place : Nat × UInt8} {places : List (Nat × UInt8)}
      {records : List Record} (hplace : place.1 / bankSize = number.toNat)
      (h : Dumps lineLength number.toNat (place :: places) records) :
      Dumps lineLength bank (place :: places) (.bank number :: records)
  | data {bank : Nat} {address : UInt16} {bytes : Text} {places : List (Nat × UInt8)}
      {records : List Record} (hne : bytes ≠ []) (hlength : bytes.length ≤ lineLength)
      (hbank : ∀ place ∈ rowFrom (bank * bankSize + address.toNat) bytes,
        place.1 / bankSize = bank)
      (h : Dumps lineLength bank places records) :
      Dumps lineLength bank (rowFrom (bank * bankSize + address.toNat) bytes ++ places)
        (.data address bytes :: records)

/-- The bytes of a segment at their addresses. -/
def Segment.places (segment : Segment) : List (Nat × UInt8) :=
  rowFrom segment.address.toNat segment.bytes

/-- What is assumed of a library. -/
structure Library.Documented (library : Library) : Prop where
  empty_segments : library.segments library.empty = []
  /-- Bytes that 32 bit addresses reach can be added to a memory that is empty. -/
  adds : ∀ memory, library.segments memory = [] → ∀ segment : Segment, segment.bytes ≠ [] →
    ∃ next, library.addBinary memory segment.address segment.bytes = .ok next ∧
      library.segments next = [segment]
  /-- A memory is written in records, and an end record closes the file. -/
  dumps : ∀ memory lineLength, 0 < lineLength.toNat →
    ∃ records, Dumps lineLength.toNat 0 ((library.segments memory).flatMap Segment.places) records ∧
      (library.dump memory lineLength).flatten =
        (records ++ [Record.endOfFile]).flatMap Record.render

variable {lineLength bank : Nat} {places : List (Nat × UInt8)} {records : List Record}

/-- Records put the bytes that they write at their places. -/
theorem Dumps.loaded (h : Dumps lineLength bank places records) :
    IntelHex.loaded bank (records ++ [.endOfFile]) = places := by
  induction h with
  | done bank => rfl
  | bank _ _ ih => exact ih
  | data _ _ _ _ ih => rw [List.cons_append, IntelHex.loaded, ih]

/-- A record that a file may hold: some bytes of data, not too many, and all in one
bank. -/
def Record.Fits (lineLength : Nat) : Record → Prop
  | .data address bytes =>
    1 ≤ bytes.length ∧ bytes.length ≤ lineLength ∧ address.toNat + bytes.length ≤ bankSize
  | .bank _ | .endOfFile => True

/-- The records of bytes fit, and no end record is among them. -/
theorem Dumps.fits (h : Dumps lineLength bank places records) :
    ∀ record ∈ records, record.Fits lineLength ∧ record ≠ .endOfFile := by
  induction h with
  | done bank => simp
  | bank _ _ ih => exact List.forall_mem_cons.2 ⟨⟨trivial, by simp⟩, ih⟩
  | @data bank address bytes places records hne hlength hbank _ ih =>
    refine List.forall_mem_cons.2 ⟨⟨⟨List.length_pos_iff.2 hne, hlength, ?_⟩, by simp⟩, ih⟩
    -- The last byte is in the bank too.
    obtain ⟨front, last, rfl⟩ : ∃ front last, bytes = front ++ [last] :=
      ⟨_, _, (List.dropLast_concat_getLast hne).symm⟩
    have hmem : (bank * bankSize + address.toNat + front.length, last) ∈
        rowFrom (bank * bankSize + address.toNat) (front ++ [last]) := by
      rw [rowFrom_append, rowFrom_cons]
      simp
    have hlast : (bank * bankSize + address.toNat + front.length) / bankSize < bank + 1 := by
      rw [hbank _ hmem]
      omega
    rw [Nat.div_lt_iff_lt_mul (by decide), Nat.add_mul, Nat.one_mul] at hlast
    rw [List.length_append, List.length_singleton]
    omega

/-! ## The library of the program -/

theorem mem_rowFrom {start : Nat} {codes : Text} {place : Nat × UInt8}
    (h : place ∈ rowFrom start codes) : start ≤ place.1 ∧ place.1 < start + codes.length := by
  induction codes generalizing start with
  | nil => cases h
  | cons code codes ih =>
    rw [rowFrom_cons] at h
    rw [List.length_cons]
    rcases List.mem_cons.1 h with rfl | h
    · dsimp only
      omega
    · have := ih h
      omega

/-- Bytes that are next to be written and in a bank can be announced. -/
theorem Dumps.announced {number : UInt16} {start : Nat} {bytes : Text} (hne : bytes ≠ [])
    (hbank : start / bankSize = number.toNat)
    (h : Dumps lineLength number.toNat (rowFrom start bytes) records) :
    Dumps lineLength bank (rowFrom start bytes) (.bank number :: records) := by
  obtain ⟨code, rest, rfl⟩ := List.exists_cons_of_ne_nil hne
  rw [rowFrom_cons] at h ⊢
  exact .bank hbank h

/-- A data record takes bytes whose first and last one are in the current bank. -/
theorem Dumps.row {start : Nat} {address : UInt16} {bytes : Text}
    (hstart : bank * bankSize + address.toNat = start) (hne : bytes ≠ [])
    (hlength : bytes.length ≤ lineLength) (hlast : start + bytes.length ≤ (bank + 1) * bankSize)
    (h : Dumps lineLength bank places records) :
    Dumps lineLength bank (rowFrom start bytes ++ places) (.data address bytes :: records) := by
  subst hstart
  refine .data hne hlength ?_ h
  intro place hmem
  obtain ⟨hfrom, hto⟩ := mem_rowFrom hmem
  exact Nat.div_eq_of_lt_le (by omega) (by omega)

theorem Dumps.append {more : List (Nat × UInt8)} {others : List Record}
    (h : Dumps lineLength bank places records)
    (hmore : Dumps lineLength (bankBehind bank records) more others) :
    Dumps lineLength bank (places ++ more) (records ++ others) := by
  induction h with
  | done bank => exact hmore
  | bank hplace _ ih => exact .bank hplace (ih hmore)
  | data hne hlength hbank _ ih =>
    rw [List.append_assoc, List.cons_append]
    exact .data hne hlength hbank (ih hmore)

/-- A data record stays in its bank. -/
theorem room_le (lineLength address : Nat) :
    address % bankSize + room lineLength address ≤ bankSize := by
  have hmod : address % bankSize < bankSize := Nat.mod_lt _ (by decide)
  unfold room
  omega

/-- The data records of bytes write them in a row. -/
theorem dumps_dataRecords {address : Nat} {bytes : Text} (hline : 0 < lineLength)
    (h : address + bytes.length ≤ 0x100000000) :
    Dumps lineLength bank (rowFrom address bytes) (dataRecords lineLength bank address bytes) := by
  fun_induction dataRecords lineLength bank address bytes with
  | case1 => exact .done _
  | case2 bank address bytes hne hpos next announced size ih =>
    have hsize : 0 < size := room_pos lineLength address
    have hroom : address % bankSize + size ≤ bankSize := room_le lineLength address
    have hmod : address % bankSize < bankSize := Nat.mod_lt _ (by decide)
    have hnext : next < bankSize := Nat.div_lt_of_lt_mul (show address < bankSize * bankSize by
      unfold bankSize
      omega)
    have hplace : next * bankSize + (UInt16.ofNat (address % bankSize)).toNat = address := by
      rw [UInt16.toNat_ofNat_of_lt' hmod, Nat.mul_comm]
      exact Nat.div_add_mod address bankSize
    have hbehind : address + size ≤ (next + 1) * bankSize := by
      rw [Nat.add_mul, Nat.one_mul]
      rw [UInt16.toNat_ofNat_of_lt' hmod] at hplace
      omega
    have hreach : (next + 1) * bankSize ≤ 0x100000000 := Nat.mul_le_mul_right bankSize hnext
    have hrest := ih (by
      rw [List.length_drop]
      omega)
    have hdata : Dumps lineLength next (rowFrom address bytes)
        (.data (UInt16.ofNat (address % bankSize)) (bytes.take size) ::
          dataRecords lineLength next (address + size) (bytes.drop size)) := by
      rw [← rowFrom_split address size bytes]
      have hle : size ≤ max 1 lineLength := Nat.min_le_left _ _
      refine .row hplace ?_ ?_ ?_ hrest
      · rw [← List.length_pos_iff, List.length_take]
        omega
      · rw [List.length_take]
        omega
      · rw [List.length_take]
        omega
    unfold announced
    split
    · rename_i heq
      rw [List.nil_append, ← heq]
      exact hdata
    · exact Dumps.announced hne (by rw [UInt16.toNat_ofNat_of_lt' hnext])
        (by rwa [UInt16.toNat_ofNat_of_lt' hnext])

theorem dumps_segmentRecords (hline : 0 < lineLength) (segments : List Segment) :
    Dumps lineLength bank (segments.flatMap Segment.places)
      (segmentRecords lineLength bank segments) := by
  induction segments generalizing bank with
  | nil => exact .done bank
  | cons segment rest ih =>
    rw [List.flatMap_cons, segmentRecords]
    exact (dumps_dataRecords hline segment.fits).append ih

/-- The library of the program does what is assumed. -/
theorem Library.builtIn_documented : Library.builtIn.Documented where
  empty_segments := rfl
  adds := by
    intro memory hempty segment _
    have hnil : memory = [] := hempty
    refine ⟨[segment], ?_, rfl⟩
    subst hnil
    exact dif_pos segment.fits
  dumps := by
    intro memory lineLength hline
    refine ⟨_, dumps_segmentRecords hline memory, ?_⟩
    rw [List.flatMap_def]
    rfl

end IntelHex

/-- The Intel HEX file of a program that 32 bit addresses reach can be made, and
its records write the bytes in a row from the origin on. -/
theorem Program.image_intelHex {library : IntelHex.Library} (hlibrary : library.Documented)
    (program : Program) (h : program.origin.toNat + program.bytes.length ≤ 0x100000000) :
    ∃ records,
      IntelHex.Dumps 40 0 (rowFrom program.origin.toNat program.bytes) records ∧
      program.image library .intelHex =
        .ok ((records ++ [IntelHex.Record.endOfFile]).flatMap IntelHex.Record.render) := by
  have horigin : program.origin.toUInt32.toNat = program.origin.toNat :=
    UInt16.toNat_toUInt32 program.origin
  obtain ⟨memory, hmemory, hplaces⟩ : ∃ memory, program.hexMemory library = .ok memory ∧
      (library.segments memory).flatMap IntelHex.Segment.places =
        rowFrom program.origin.toNat program.bytes := by
    unfold hexMemory
    by_cases hempty : program.bytes = []
    · refine ⟨library.empty, by simp [hempty], ?_⟩
      rw [hlibrary.empty_segments, hempty]
      rfl
    · obtain ⟨memory, hadd, hsegments⟩ := hlibrary.adds library.empty hlibrary.empty_segments
        ⟨program.origin.toUInt32, program.bytes, by rwa [horigin]⟩ hempty
      refine ⟨memory, by simpa [hempty] using hadd, ?_⟩
      rw [hsegments, List.flatMap_singleton]
      exact congrArg (rowFrom · program.bytes) horigin
  obtain ⟨records, hdumps, htext⟩ := hlibrary.dumps memory hexRecordSize (by decide)
  rw [hplaces] at hdumps
  refine ⟨records, hdumps, ?_⟩
  unfold image pieces
  rw [hmemory]
  exact congrArg Except.ok htext

end Asm6502
