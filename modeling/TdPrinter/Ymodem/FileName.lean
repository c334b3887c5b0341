import Mathlib.Data.List.TakeWhile
import TdPrinter.Foundation.Memory
import TdPrinter.Ymodem.Receive

/-!
# Reading a filename packet

The name and the size of a file are copied out of `packet_data` into two arrays on the
stack.  Both loops stop in front of the character that ends the field, or when the array is
full, and then a terminator is stored at the next index.  If the array is full this is the
index behind it.  A packet with an empty name, which ends the session, is not parsed: nothing
is copied, and the arrays stay as they are.

The two arrays are functions here, so that there is something behind them, and the indices that
are read and written are recorded.  `copyField_eq` is all that is used of the loop.
-/

namespace TdPrinter

/-- A copy under way: the array, `i`, the offset of `file_ptr` in `packet_data`, and the indices
that have been written to the array and read from the packet. -/
structure FieldCopy where
  array : ℕ → UInt8
  i : ℕ
  filePtr : ℕ
  writes : List ℕ
  reads : List ℕ

/-- The condition of the loop reads `*file_ptr`. -/
def FieldCopy.test (c : FieldCopy) : FieldCopy := { c with reads := c.reads ++ [c.filePtr] }

/-- `array[i++]=c`. -/
def FieldCopy.store (c : FieldCopy) (b : UInt8) : FieldCopy :=
  { c with array := Function.update c.array c.i b, writes := c.writes ++ [c.i], i := c.i + 1 }

/-- `file_ptr++`. -/
def FieldCopy.advance (c : FieldCopy) : FieldCopy := { c with filePtr := c.filePtr + 1 }

/-- `for(; (*file_ptr != stop) && (i < length);) array[i++] = *file_ptr++;` with room for `room`
characters. -/
def copyLoop (packetData : List UInt8) (stop : UInt8) : ℕ → FieldCopy → FieldCopy
  | 0, c => c.test
  | room + 1, c =>
      let b := packetData.getD c.filePtr 0
      if b = stop then c.test else copyLoop packetData stop room (c.test.store b).advance

/-- A field copied from `file_ptr` on, and terminated. -/
def copyField (packetData : List UInt8) (stop : UInt8) (length : ℕ) (array : ℕ → UInt8)
    (filePtr : ℕ) : FieldCopy :=
  (copyLoop packetData stop length ⟨array, 0, filePtr, [], []⟩).store 0

/-- `packet_data[PACKET_HEADER] != 0`. -/
def hasValidData (packetData : List UInt8) : Prop := packetData.getD packetHeader 0 ≠ 0

instance (packetData : List UInt8) : Decidable (hasValidData packetData) :=
  inferInstanceAs (Decidable (_ ≠ _))

/-- An array that nothing is copied to. -/
def untouched (array : ℕ → UInt8) : FieldCopy := ⟨array, 0, packetHeader, [], []⟩

def copyFileName (packetData : List UInt8) (fileName : ℕ → UInt8) : FieldCopy :=
  if hasValidData packetData then copyField packetData 0 fileNameLength fileName packetHeader
  else untouched fileName

/-- The size, if there is a name; `file_ptr ++` has skipped the character behind it. -/
def copyFileSize (packetData : List UInt8) (fileName fileSize : ℕ → UInt8) : FieldCopy :=
  if hasValidData packetData then
    copyField packetData 32 fileSizeLength fileSize
      ((copyFileName packetData fileName).filePtr + 1)
  else untouched fileSize

/-! ## One field -/

def field (packetData : List UInt8) (stop : UInt8) (room filePtr : ℕ) : List UInt8 :=
  ((packetData.drop filePtr).take room).takeWhile (· ≠ stop)

theorem field_succ {packetData : List UInt8} {filePtr : ℕ} (hptr : filePtr < packetData.length)
    (stop : UInt8) (room : ℕ) :
    field packetData stop (room + 1) filePtr =
      if packetData.getD filePtr 0 = stop then []
      else packetData.getD filePtr 0 :: field packetData stop room (filePtr + 1) := by
  have hget : packetData.getD filePtr 0 = packetData[filePtr] :=
    (List.getElem_eq_getD 0).symm
  rw [field, field, List.drop_eq_getElem_cons hptr, List.take_succ_cons, List.takeWhile_cons, hget]
  simp

/-- The loop has led from `c` to `c'` and copied `copied`. -/
structure FieldCopy.Copied (c : FieldCopy) (copied : List UInt8) (c' : FieldCopy) : Prop where
  i : c'.i = c.i + copied.length
  filePtr : c'.filePtr = c.filePtr + copied.length
  writes : c'.writes = c.writes ++ List.range' c.i copied.length
  reads : c'.reads = c.reads ++ List.range' c.filePtr (copied.length + 1)
  array : (List.range c'.i).map c'.array = (List.range c.i).map c.array ++ copied

theorem copied_nil (c : FieldCopy) : c.Copied [] c.test := by
  constructor <;> simp [FieldCopy.test]

theorem FieldCopy.Copied.cons {c c' : FieldCopy} {b : UInt8} {copied : List UInt8}
    (h : (c.test.store b).advance.Copied copied c') : c.Copied (b :: copied) c' where
  i := by
    rw [h.i, List.length_cons]
    show c.i + 1 + copied.length = _
    omega
  filePtr := by
    rw [h.filePtr, List.length_cons]
    show c.filePtr + 1 + copied.length = _
    omega
  writes := by
    rw [h.writes, List.length_cons, List.range'_succ]
    show c.writes ++ [c.i] ++ _ = _
    rw [List.append_assoc]
    rfl
  reads := by
    rw [h.reads, List.length_cons, List.range'_succ (n := copied.length + 1)]
    show c.reads ++ [c.filePtr] ++ _ = _
    rw [List.append_assoc]
    rfl
  array := by
    rw [h.array]
    show (List.range (c.i + 1)).map (Function.update c.array c.i b) ++ copied = _
    rw [map_range_store, List.append_assoc]
    rfl

theorem copyLoop_copied {packetData : List UInt8} (stop : UInt8) {room : ℕ} {c : FieldCopy}
    (hptr : c.filePtr + room < packetData.length) :
    c.Copied (field packetData stop room c.filePtr) (copyLoop packetData stop room c) := by
  induction room generalizing c with
  | zero => exact copied_nil c
  | succ room ih =>
      rw [field_succ (by omega), copyLoop]
      split
      · exact copied_nil c
      · refine FieldCopy.Copied.cons (ih ?_)
        show c.filePtr + 1 + room < packetData.length
        omega

theorem copyField_eq {packetData : List UInt8} (stop : UInt8) {length filePtr : ℕ}
    (hptr : filePtr + length < packetData.length) (array : ℕ → UInt8) :
    let copied := field packetData stop length filePtr
    let c := copyField packetData stop length array filePtr
    c.filePtr = filePtr + copied.length ∧ c.writes = List.range (copied.length + 1) ∧
      c.reads = List.range' filePtr (copied.length + 1) ∧
      (List.range (copied.length + 1)).map c.array = copied ++ [0] := by
  have hloop := copyLoop_copied stop (c := ⟨array, 0, filePtr, [], []⟩) hptr
  have hi := hloop.i
  have hwrites := hloop.writes
  have harray := hloop.array
  rw [Nat.zero_add] at hi
  refine ⟨hloop.filePtr, ?_, hloop.reads, ?_⟩
  · show _ ++ [_] = _
    rw [hwrites, hi, List.range_succ, List.range_eq_range']
    rfl
  · rw [hi] at harray
    show (List.range (_ + 1)).map (Function.update _ _ 0) = _
    rw [hi, map_range_store, harray]
    rfl

/-- A field that is copied whole, with its terminator, ends inside of what is copied from. -/
theorem length_takeWhile_lt_iff (l : List UInt8) (stop : UInt8) :
    (l.takeWhile (· ≠ stop)).length < l.length ↔ stop ∈ l := by
  rw [← not_iff_not, Nat.not_lt]
  constructor
  · intro hle hstop
    have hall := List.takeWhile_eq_self_iff.mp
      ((List.takeWhile_prefix _).eq_of_length_le hle) stop hstop
    simp at hall
  · intro hstop
    have hall : l.takeWhile (· ≠ stop) = l := by
      rw [List.takeWhile_eq_self_iff]
      intro c hc
      have hne : c ≠ stop := fun h => hstop (h ▸ hc)
      simpa using hne
    rw [hall]

/-! ## Both fields -/

/-- All accesses of a filename packet are inside of what they are meant for, and both arrays hold
strings behind it; `fileName` and `fileSize` are their contents before. -/
structure ParsesInside (packetData : List UInt8) (fileName fileSize : ℕ → UInt8) : Prop where
  nameWrites : ∀ i ∈ (copyFileName packetData fileName).writes, i < fileNameLength
  sizeWrites : ∀ i ∈ (copyFileSize packetData fileName fileSize).writes, i < fileSizeLength
  nameEnds : ∃ i < fileNameLength, (copyFileName packetData fileName).array i = 0
  sizeEnds : ∃ i < fileSizeLength, (copyFileSize packetData fileName fileSize).array i = 0
  /-- the test of the first character, and the two loops -/
  reads : ∀ i ∈ packetHeader :: (copyFileName packetData fileName).reads ++
    (copyFileSize packetData fileName fileSize).reads, i < packetData.length

/-- The terminator is where the array ends being written. -/
theorem array_terminated {array : ℕ → UInt8} {copied : List UInt8}
    (h : (List.range (copied.length + 1)).map array = copied ++ [0]) :
    array copied.length = 0 := by
  have hlast := congrArg (fun l => l[copied.length]?) h
  simpa using hlast

theorem Packet.payload_length (p : Packet) : packetSize ≤ p.payload.length := by
  rcases p.size with ⟨-, hlen⟩ | ⟨-, hlen⟩
  · exact hlen.ge
  · rw [hlen]
    decide

/-- A name that is not empty begins with a character. -/
theorem Packet.hasValidData_iff (p : Packet) :
    hasValidData p.bytes ↔ p.payload.head? ≠ some 0 := by
  have hlen := p.payload_length
  cases hpayload : p.payload with
  | nil =>
      rw [hpayload] at hlen
      exact absurd hlen (by decide)
  | cons b rest => simp [hasValidData, Packet.bytes, packetHeader, hpayload]

/-- What is copied out of the front of a packet is in its data. -/
theorem Packet.take_drop_bytes (p : Packet) {offset length : ℕ}
    (hinside : offset + length ≤ packetSize) :
    (p.bytes.drop (packetHeader + offset)).take length = (p.payload.drop offset).take length := by
  have hlen := p.payload_length
  have hdata : p.bytes.drop packetHeader = p.payload ++ p.trailer := rfl
  rw [← List.drop_drop, hdata, List.drop_append_of_le_length (by omega),
    List.take_append_of_le_length (by rw [List.length_drop]; omega)]

theorem Packet.field_name (p : Packet) :
    field p.bytes 0 fileNameLength packetHeader = packetFileName p.payload := by
  have hfront : (p.bytes.drop (packetHeader + 0)).take fileNameLength = _ :=
    p.take_drop_bytes (by decide)
  rw [field, packetFileName]
  exact congrArg (List.takeWhile _) hfront

theorem packetFileName_length_le (body : List UInt8) :
    (packetFileName body).length ≤ fileNameLength :=
  (List.takeWhile_prefix _).length_le.trans (List.length_take_le _ _)

theorem Packet.field_size (p : Packet) :
    field p.bytes 32 fileSizeLength (packetHeader + ((packetFileName p.payload).length + 1)) =
      packetFileSize p.payload := by
  have hname := packetFileName_length_le p.payload
  have hinside : (packetFileName p.payload).length + 1 + fileSizeLength ≤ packetSize := by
    unfold fileNameLength at hname
    unfold fileSizeLength packetSize
    omega
  rw [field, packetFileSize, p.take_drop_bytes hinside]

theorem Packet.copyFileName_eq (p : Packet) (hvalid : hasValidData p.bytes)
    (fileName : ℕ → UInt8) :
    let name := packetFileName p.payload
    let c := copyFileName p.bytes fileName
    c.filePtr = packetHeader + name.length ∧ c.writes = List.range (name.length + 1) ∧
      c.reads = List.range' packetHeader (name.length + 1) ∧
      (List.range (name.length + 1)).map c.array = name ++ [0] := by
  have hlen := p.payload_length
  have hptr : packetHeader + fileNameLength < p.bytes.length := by
    simp only [Packet.bytes, List.length_cons, List.length_append]
    unfold packetSize at hlen
    unfold packetHeader fileNameLength
    omega
  have hcopy := copyField_eq 0 hptr fileName
  rw [p.field_name] at hcopy
  rw [copyFileName, if_pos hvalid]
  exact hcopy

theorem Packet.copyFileSize_eq (p : Packet) (hvalid : hasValidData p.bytes)
    (fileName fileSize : ℕ → UInt8) :
    let filePtr := packetHeader + ((packetFileName p.payload).length + 1)
    let size := packetFileSize p.payload
    let c := copyFileSize p.bytes fileName fileSize
    c.writes = List.range (size.length + 1) ∧ c.reads = List.range' filePtr (size.length + 1) ∧
      (List.range (size.length + 1)).map c.array = size ++ [0] := by
  have hlen := p.payload_length
  have hname := packetFileName_length_le p.payload
  have hptr : packetHeader + ((packetFileName p.payload).length + 1) + fileSizeLength <
      p.bytes.length := by
    simp only [Packet.bytes, List.length_cons, List.length_append]
    unfold fileNameLength at hname
    unfold packetSize at hlen
    unfold packetHeader fileSizeLength
    omega
  have hcopy := copyField_eq 32 hptr fileSize
  rw [p.field_size] at hcopy
  dsimp only
  rw [copyFileSize, if_pos hvalid, (p.copyFileName_eq hvalid fileName).1]
  exact hcopy.2

/-- A packet with a name is parsed inside of the packet and both arrays exactly if the name ends
within 64 characters and the size within 16. -/
theorem Packet.parsesInside_of_valid (p : Packet) (hvalid : hasValidData p.bytes)
    (fileName fileSize : ℕ → UInt8) :
    ParsesInside p.bytes fileName fileSize ↔
      0 ∈ p.payload.take fileNameLength ∧
        32 ∈ (p.payload.drop ((packetFileName p.payload).length + 1)).take fileSizeLength := by
  obtain ⟨-, hnameWrites, hnameReads, hnameArray⟩ := p.copyFileName_eq hvalid fileName
  obtain ⟨hsizeWrites, hsizeReads, hsizeArray⟩ := p.copyFileSize_eq hvalid fileName fileSize
  have hlen := p.payload_length
  have hname := packetFileName_length_le p.payload
  have hsize : (packetFileSize p.payload).length ≤ fileSizeLength :=
    (List.takeWhile_prefix _).length_le.trans (List.length_take_le _ _)
  have hnameFull : (p.payload.take fileNameLength).length = fileNameLength := by
    rw [List.length_take]
    unfold packetSize at hlen
    unfold fileNameLength
    omega
  have hsizeFull : ((p.payload.drop ((packetFileName p.payload).length + 1)).take
      fileSizeLength).length = fileSizeLength := by
    rw [List.length_take, List.length_drop]
    unfold fileNameLength at hname
    unfold packetSize at hlen
    unfold fileSizeLength
    omega
  rw [← length_takeWhile_lt_iff, ← length_takeWhile_lt_iff, hnameFull, hsizeFull]
  show _ ↔ (packetFileName p.payload).length < _ ∧ (packetFileSize p.payload).length < _
  constructor
  · intro h
    refine ⟨h.nameWrites _ ?_, h.sizeWrites _ ?_⟩
    · rw [hnameWrites]
      exact List.self_mem_range_succ
    · rw [hsizeWrites]
      exact List.self_mem_range_succ
  · rintro ⟨hnameEnds, hsizeEnds⟩
    refine ⟨?_, ?_, ⟨_, hnameEnds, array_terminated hnameArray⟩,
      ⟨_, hsizeEnds, array_terminated hsizeArray⟩, ?_⟩
    · intro i hi
      rw [hnameWrites, List.mem_range] at hi
      omega
    · intro i hi
      rw [hsizeWrites, List.mem_range] at hi
      omega
    · intro i hi
      rw [hnameReads, hsizeReads, List.mem_append, List.mem_cons, List.mem_range'_1,
        List.mem_range'_1] at hi
      simp only [Packet.bytes, List.length_cons, List.length_append]
      unfold fileNameLength at hnameEnds
      unfold fileSizeLength at hsizeEnds
      unfold packetSize at hlen
      unfold packetHeader at hi
      omega

/-- Without a name nothing is written, and the first character is all that is read. -/
theorem parsesInside_of_empty {packetData : List UInt8} (hempty : ¬hasValidData packetData)
    (hlen : packetHeader < packetData.length) (fileName fileSize : ℕ → UInt8) :
    ParsesInside packetData fileName fileSize ↔
      (∃ i < fileNameLength, fileName i = 0) ∧ ∃ i < fileSizeLength, fileSize i = 0 := by
  have hname : copyFileName packetData fileName = untouched fileName := if_neg hempty
  have hsize : copyFileSize packetData fileName fileSize = untouched fileSize := if_neg hempty
  constructor
  · intro h
    have hnameEnds := h.nameEnds
    have hsizeEnds := h.sizeEnds
    rw [hname] at hnameEnds
    rw [hsize] at hsizeEnds
    exact ⟨hnameEnds, hsizeEnds⟩
  · rintro ⟨hnameEnds, hsizeEnds⟩
    refine ⟨?_, ?_, ?_, ?_, ?_⟩
    · rw [hname]
      exact fun i hi => absurd hi List.not_mem_nil
    · rw [hsize]
      exact fun i hi => absurd hi List.not_mem_nil
    · rw [hname]
      exact hnameEnds
    · rw [hsize]
      exact hsizeEnds
    · rw [hname, hsize]
      intro i hi
      obtain rfl : i = packetHeader := List.mem_singleton.mp hi
      exact hlen

/-- A filename packet is parsed inside of the packet and both arrays exactly if the name ends
within 64 characters and the size within 16; an empty name leaves the arrays as they are. -/
theorem parsesInside_iff (p : Packet) (fileName fileSize : ℕ → UInt8) :
    ParsesInside p.bytes fileName fileSize ↔
      if p.payload.head? = some 0 then
        (∃ i < fileNameLength, fileName i = 0) ∧ ∃ i < fileSizeLength, fileSize i = 0
      else
        0 ∈ p.payload.take fileNameLength ∧
          32 ∈ (p.payload.drop ((packetFileName p.payload).length + 1)).take fileSizeLength := by
  have hvalid := p.hasValidData_iff
  split
  · rename_i hempty
    refine parsesInside_of_empty (fun h => hvalid.mp h hempty) ?_ fileName fileSize
    simp only [Packet.bytes, List.length_cons, List.length_append, p.trailer_length]
    unfold packetHeader
    omega
  · rename_i hname
    exact p.parsesInside_of_valid (hvalid.mpr hname) fileName fileSize

/-- The name `a` and the size `3`, and nothing behind, as `Ymodem_PrepareIntialPacket` has it. -/
def initialPacket : Packet where
  header := soh
  seq := 0
  payload := [97, 0, 51] ++ List.replicate 125 0
  trailer := List.replicate 2 0
  size := .inl ⟨rfl, rfl⟩
  trailer_length := rfl

/-- The terminator of the size is stored behind `file_size`. -/
theorem initialPacket_beyond : ¬ParsesInside initialPacket.bytes (fun _ => 0) fun _ => 0 := by
  intro h
  have hwrite : 16 ∈ (copyFileSize initialPacket.bytes (fun _ => 0) fun _ => 0).writes := by
    decide +kernel
  exact absurd (h.sizeWrites 16 hwrite) (by decide)

end TdPrinter
