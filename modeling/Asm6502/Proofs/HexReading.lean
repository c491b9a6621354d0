-- Intel HEX files are read back. A reader takes a file apart line by line and
-- checks every record that it finds. What a library that does what is assumed of
-- it writes for a program passes all checks and gives the bytes of the program
-- back, each at its place.
import Asm6502.Proofs.Digits
import Asm6502.Proofs.HexRecords

namespace Asm6502

namespace IntelHex

/-! ## A reader -/

/-- The bytes that pairs of hexadecimal digits spell. -/
def hexBytes? : Text → Option Text
  | [] => some []
  | [_] => none
  | high :: low :: rest => do
    let h ← hexDigit? high
    let l ← hexDigit? low
    let bytes ← hexBytes? rest
    return UInt8.ofNat (h * 16 + l) :: bytes

/-- The lines of a file, every one of which ends in a newline. -/
def lines? (text : Text) : Option (List Text) :=
  let all := text.splitOn Ascii.newline
  if all.getLast? = some [] then some all.dropLast else none

/-- The bytes of a line, which is a colon and pairs of digits. -/
def lineBytes? : Text → Option Text
  | [] => none
  | b :: digits => if b = Ascii.colon then hexBytes? digits else none

/-- The sum of bytes. -/
def total (bytes : Text) : Nat := bytes.foldr (fun b n => b.toNat + n) 0

/-- The word of two bytes, the high one first. -/
def wordOf (high low : UInt8) : UInt16 := UInt16.ofNat (high.toNat * 256 + low.toNat)

namespace Record

/-- The record of a type with a content at an address. -/
def ofContent? (kind : UInt8) (address : UInt16) (content : Text) : Option Record :=
  if kind = 0x00 then some (.data address content)
  else if kind = 0x04 then
    match content with
    | [high, low] => some (.bank (wordOf high low))
    | _ => none
  else if kind = 0x01 then if content = [] then some .endOfFile else none
  else none

/-- The record that bytes stand for: length, address, type, content, checksum.
The length must be that of the content, and the sum of all bytes a multiple
of 256. -/
def ofBytes? : Text → Option Record
  | bytes@(length :: high :: low :: kind :: rest) =>
    if rest.length = length.toNat + 1 ∧ total bytes % 256 = 0 then
      ofContent? kind (wordOf high low) rest.dropLast
    else none
  | _ => none

/-- The record on a line. -/
def ofLine? (line : Text) : Option Record := (lineBytes? line).bind ofBytes?

end Record

/-! ## Lines -/

theorem hexBytes?_flatMap (bytes : Text) : hexBytes? (bytes.flatMap hexByte) = some bytes := by
  induction bytes with
  | nil => rfl
  | cons b bytes ih =>
    have hb := b.toNat_lt
    have hhigh := hexDigit?_digitByte (show b.toNat / 16 < 16 by omega)
    have hlow := hexDigit?_digitByte (show b.toNat % 16 < 16 by omega)
    have hjoin : UInt8.ofNat (b.toNat / 16 * 16 + b.toNat % 16) = b := by
      rw [show b.toNat / 16 * 16 + b.toNat % 16 = b.toNat by omega, UInt8.ofNat_toNat]
    rw [List.flatMap_cons, hexByte, List.cons_append, List.cons_append, List.nil_append, hexBytes?,
      hhigh, hlow, ih]
    simp only [Option.bind_eq_bind, Option.bind_some, Option.pure_def, hjoin]

namespace Record

/-- The bytes of a record with its checksum. -/
def bytes (record : Record) : Text := record.content ++ [checksum record.content]

/-- The line of a record without its newline. -/
def line (record : Record) : Text := Ascii.colon :: record.bytes.flatMap hexByte

theorem render_eq (record : Record) : record.render = record.line ++ [Ascii.newline] := rfl

theorem lineBytes?_line (record : Record) : lineBytes? record.line = some record.bytes := by
  rw [line, lineBytes?, if_pos rfl, hexBytes?_flatMap]

theorem newline_not_mem_line (record : Record) : Ascii.newline ∉ record.line := by
  intro h
  rw [line, List.mem_cons, List.mem_flatMap] at h
  rcases h with h | ⟨b, _, h⟩
  · exact absurd h (by decide)
  · exact absurd (isHexDigit_of_mem_hexByte h) (by decide)

end Record

theorem splitOn_render (records : List Record) :
    (records.flatMap Record.render).splitOn Ascii.newline = records.map Record.line ++ [[]] := by
  induction records with
  | nil => rfl
  | cons record records ih =>
    rw [List.flatMap_cons, Record.render_eq, List.append_assoc, List.singleton_append,
      List.splitOn, List.splitOnP_append_cons_of_forall_mem _ _ (by simp)]
    · rw [List.map_cons, List.cons_append, ← ih]
      rfl
    · intro b hb
      have hne : b ≠ Ascii.newline := by
        rintro rfl
        exact record.newline_not_mem_line hb
      simpa using hne

/-- A file falls into the lines of its records. -/
theorem lines?_render (records : List Record) :
    lines? (records.flatMap Record.render) = some (records.map Record.line) := by
  simp [lines?, splitOn_render]

/-! ## Checksums -/

theorem foldl_add_toNat (bytes : Text) (b : UInt8) :
    (bytes.foldl (· + ·) b).toNat = (b.toNat + total bytes) % 256 := by
  induction bytes generalizing b with
  | nil =>
    have hb := b.toNat_lt
    simp only [List.foldl_nil, total, List.foldr_nil]
    omega
  | cons c bytes ih =>
    rw [List.foldl_cons, ih, UInt8.toNat_add]
    simp only [total, List.foldr_cons]
    omega

theorem total_append (front back : Text) : total (front ++ back) = total front + total back := by
  induction front with
  | nil => simp [total]
  | cons b front ih =>
    simp only [total, List.cons_append, List.foldr_cons] at ih ⊢
    omega

/-- The checksum makes the sum of a record a multiple of 256. -/
theorem Record.total_bytes (record : Record) : total record.bytes % 256 = 0 := by
  have hsum := foldl_add_toNat record.content 0
  have hcheck : (checksum record.content).toNat = (256 - total record.content % 256) % 256 := by
    rw [checksum, UInt8.toNat_sub, hsum]
    simp
  rw [bytes, total_append, total, total, List.foldr_cons, List.foldr_nil, hcheck]
  simp only [total]
  omega

/-! ## Records -/

variable {lineLength : Nat}

theorem wordOf_bigEndian (w : UInt16) : wordOf (w >>> 8).toUInt8 w.toUInt8 = w := by
  have hw := w.toNat_lt
  have hhigh : (w >>> 8).toUInt8.toNat = w.toNat / 256 := by
    simp [Nat.shiftRight_eq_div_pow]
    omega
  have hlow : w.toUInt8.toNat = w.toNat % 256 := by simp
  have hjoin : w.toNat / 256 * 256 + w.toNat % 256 = w.toNat := by omega
  rw [wordOf, hhigh, hlow, hjoin, UInt16.ofNat_toNat]

/-- A record is read back from its bytes. -/
theorem Record.ofBytes?_bytes {record : Record} (hline : lineLength < 256)
    (h : record.Fits lineLength) : ofBytes? record.bytes = some record := by
  have htotal := record.total_bytes
  cases record with
  | data address codes =>
    obtain ⟨_, hle, _⟩ := h
    have hlength : (UInt8.ofNat codes.length).toNat = codes.length := by
      exact UInt8.toNat_ofNat_of_lt' (by simp [UInt8.size]; omega)
    simp only [bytes, content, bigEndian, List.cons_append, List.nil_append] at htotal ⊢
    rw [ofBytes?, if_pos ⟨by simp [hlength], htotal⟩, List.dropLast_concat, wordOf_bigEndian]
    rfl
  | bank number =>
    simp only [bytes, content, bigEndian, List.cons_append, List.nil_append] at htotal ⊢
    rw [ofBytes?, if_pos ⟨rfl, htotal⟩]
    simp [ofContent?, wordOf_bigEndian]
  | endOfFile => rfl

theorem Record.ofLine?_line {record : Record} (hline : lineLength < 256)
    (h : record.Fits lineLength) : ofLine? record.line = some record := by
  rw [ofLine?, lineBytes?_line, Option.bind_some, ofBytes?_bytes hline h]

/-- Records that fit are read back from their lines. -/
theorem mapM_ofLine? {records : List Record} (hline : lineLength < 256)
    (h : ∀ record ∈ records, record.Fits lineLength) :
    (records.map Record.line).mapM Record.ofLine? = some records := by
  induction records with
  | nil => rfl
  | cons record records ih =>
    have hhead := Record.ofLine?_line hline (h record (by simp))
    have htail := ih fun r hr => h r (by simp [hr])
    rw [List.map_cons, List.mapM_cons, hhead, htail]
    rfl

/-! ## Files -/

theorem rowFrom_addresses (start : Nat) (codes : Text) :
    (rowFrom start codes).map Prod.fst = List.range' start codes.length := by
  induction codes generalizing start with
  | nil => rfl
  | cons code codes ih => rw [rowFrom_cons, List.map_cons, ih, List.length_cons, List.range'_succ]

/-- A file that is read back as bytes in a row from an address on: `lines` are
its lines and `records` what stands on them. -/
structure ReadBack (text : Text) (start : Nat) (bytes : Text) (lines : List Text)
    (records : List Record) : Prop where
  lines_eq : lines? text = some lines
  records_eq : lines.mapM Record.ofLine? = some records
  memory : loaded 0 records = rowFrom start bytes
  once : ((loaded 0 records).map Prod.fst).Nodup
  /-- The bytes on every line, checksum included, sum to a multiple of 256. -/
  balanced : ∀ line ∈ lines, ∃ bytes, lineBytes? line = some bytes ∧ total bytes % 256 = 0
  fitting : ∀ address bytes, .data address bytes ∈ records →
    1 ≤ bytes.length ∧ bytes.length ≤ 40 ∧ address.toNat + bytes.length ≤ 0x10000
  /-- There is one end record, and it is the last one. -/
  ended : ∃ front, records = front ++ [.endOfFile] ∧ .endOfFile ∉ front

/-- Records that write bytes in a row are read back from their lines. -/
theorem Dumps.readBack {start : Nat} {bytes : Text} {records : List Record}
    (h : Dumps 40 0 (rowFrom start bytes) records) :
    ReadBack ((records ++ [Record.endOfFile]).flatMap Record.render) start bytes
      ((records ++ [Record.endOfFile]).map Record.line) (records ++ [Record.endOfFile]) := by
  have hfits : ∀ record ∈ records ++ [Record.endOfFile], record.Fits 40 :=
    List.forall_mem_append.2 ⟨fun record hr => (h.fits record hr).1,
      List.forall_mem_singleton.2 trivial⟩
  have hmemory := h.loaded
  refine ⟨lines?_render _, mapM_ofLine? (by decide) hfits, hmemory, ?_, ?_, ?_, ?_⟩
  · rw [hmemory, rowFrom_addresses]
    exact List.nodup_range'
  · intro line hline
    obtain ⟨record, _, rfl⟩ := List.mem_map.1 hline
    exact ⟨record.bytes, record.lineBytes?_line, record.total_bytes⟩
  · intro address content hdata
    exact hfits _ hdata
  · exact ⟨records, rfl, fun hr => (h.fits _ hr).2 rfl⟩

end IntelHex

namespace Program

theorem size_eq_length (program : Program) : program.size = program.bytes.length := by
  unfold size bytes
  induction program.lines with
  | nil => rfl
  | cons placed lines ih => rw [List.foldr_cons, List.flatMap_cons, List.length_append, ih]

/-- Whatever library writes the Intel HEX file of a program that 32 bit addresses
reach, the file can be made, and is read back as the bytes of the program, one
behind the other from its origin on. -/
theorem intelHex_is_read_back {library : IntelHex.Library} (hlibrary : library.Documented)
    (program : Program) (h : program.origin.toNat + program.size ≤ 0x100000000) :
    ∃ text lines records, program.image library .intelHex = .ok text ∧
      IntelHex.ReadBack text program.origin.toNat program.bytes lines records := by
  rw [size_eq_length] at h
  obtain ⟨records, hdumps, himage⟩ := image_intelHex hlibrary program h
  exact ⟨_, _, _, himage, hdumps.readBack⟩

/-- Two lines with object code, from the last four bytes of the first bank on. -/
def overTheTop : Program :=
  let placed (address : UInt16) (codes : Text) : PlacedLine :=
    { line := { number := 1, file := [], text := [], label := [], statements := [] }, address,
      codes }
  { origin := 0xFFFC, lines := [placed 0xFFFC [1, 2, 3, 4, 5, 6], placed 0x2000 [7]], labels := {} }

theorem overTheTop_is_read_back :
    overTheTop.image .builtIn .intelHex = .ok
        (ascii ":04FFFC0001020304F7\n:020000040001F9\n:03000000050607EB\n:00000001FF\n") ∧
      IntelHex.Library.builtIn.Documented ∧
      overTheTop.origin.toNat + overTheTop.size ≤ 0x100000000 ∧
      ∃ text lines records, overTheTop.image .builtIn .intelHex = .ok text ∧
        IntelHex.ReadBack text 0xFFFC [1, 2, 3, 4, 5, 6, 7] lines records :=
  ⟨by decide +kernel, IntelHex.Library.builtIn_documented, by decide +kernel,
    intelHex_is_read_back IntelHex.Library.builtIn_documented overTheTop (by decide +kernel)⟩

end Program

end Asm6502
