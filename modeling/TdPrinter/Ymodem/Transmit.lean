import Mathlib.Data.List.TakeWhile
import TdPrinter.Foundation.Printing
import TdPrinter.Ymodem.Crc
import TdPrinter.Ymodem.FileName
import TdPrinter.Ymodem.Reassembly

/-!
# Sending a file

The packets that `Ymodem_PrepareIntialPacket` and `Ymodem_PreparePacket` make of a file, and what
the receiver makes of them: `Ymodem.After` says where it is after so many messages, and there is a
lemma for each kind of message that takes it one further.  A block of 129 to 1023 bytes is sent in
packets of 128.
-/

namespace TdPrinter

/-! ## The packets -/

/-- `Ymodem_PrepareIntialPacket`: what it puts into `data`.  The size is printed into `file_ptr`,
which has room for nine characters and the terminator. -/
def prepareIntialPacket (fileName : List UInt8) (length : UInt32) : Option (List UInt8) :=
  let name := (fileName.take fileNameLength).takeWhile (· ≠ 0)
  let filePtr := printInt (wrap32 length.toNat)
  if filePtr.length < 10 then
    let data := soh :: 0x00 :: 0xff :: (name ++ 0x00 :: filePtr)
    some (data ++ List.replicate (packetSize + packetHeader - data.length) 0)
  else none

/-- `packetSize` in `Ymodem_PreparePacket`. -/
def blkPacketSize (sizeBlk : ℕ) : ℕ := if sizeBlk ≥ packet1kSize then packet1kSize else packetSize

/-- `Ymodem_PreparePacket`: what it puts into `data`. -/
def preparePacket (sourceBuf : List UInt8) (pktNo : UInt8) (sizeBlk : ℕ) : List UInt8 :=
  let size := if sizeBlk < blkPacketSize sizeBlk then sizeBlk else blkPacketSize sizeBlk
  (if blkPacketSize sizeBlk = packet1kSize then stx else soh) :: pktNo :: (pktNo ^^^ 0xff) ::
    (sourceBuf.take size ++ List.replicate (blkPacketSize sizeBlk - size) 0x1a)

/-- A packet with the checksum that `Cal_CRC16` computes for its data. -/
def withCrc (data : List UInt8) : List UInt8 :=
  data ++ (crcTrailer (data.drop packetHeader)).getD []

/-- The packets of what is left of a file, at most `fuel` ones. -/
def dataPackets : ℕ → UInt8 → List UInt8 → List (List UInt8)
  | 0, _, _ => []
  | fuel + 1, pktNo, sourceBuf =>
      if sourceBuf = [] then []
      else withCrc (preparePacket sourceBuf pktNo sourceBuf.length) ::
        dataPackets fuel (pktNo + 1) (sourceBuf.drop (blkPacketSize sourceBuf.length))

/-- A file that can be sent: its name has at most 64 characters, and its size nine digits. -/
structure FileTransfer where
  name : List UInt8
  content : List UInt8
  name_ne : name ≠ []
  name_plain : 0 ∉ name
  name_fits : name.length ≤ fileNameLength
  content_fits : content.length < 10 ^ 9

/-- The packets with the data, each for the bytes that are left. -/
def FileTransfer.dataMessages (T : FileTransfer) : List (List UInt8) :=
  dataPackets T.content.length 1 T.content

/-- What is sent one after the other: the filename packet, the data, `EOT`, and the packet without
a name. -/
def FileTransfer.messages (T : FileTransfer) : List (List UInt8) :=
  withCrc ((prepareIntialPacket T.name (UInt32.ofNat T.content.length)).getD []) ::
    (T.dataMessages ++ [[eot], withCrc ((prepareIntialPacket [] 0).getD [])])

/-! ## What a packet says -/

theorem length_crcTrailer (payload : List UInt8) :
    ((crcTrailer payload).getD []).length = 2 := by
  obtain ⟨crc, hcrc⟩ := Option.isSome_iff_exists.mp (calCrc16_isSome payload)
  rw [crcTrailer, hcrc]
  rfl

def Packet.of (header seq : UInt8) (payload : List UInt8)
    (size : header = soh ∧ payload.length = packetSize ∨
      header = stx ∧ payload.length = packet1kSize) : Packet where
  header := header
  seq := seq
  payload := payload
  trailer := (crcTrailer payload).getD []
  size := size
  trailer_length := length_crcTrailer payload

/-- The data of a packet of `sizeBlk` bytes. -/
def blockPayload (sourceBuf : List UInt8) : List UInt8 :=
  sourceBuf.take (blkPacketSize sourceBuf.length) ++
    List.replicate (blkPacketSize sourceBuf.length - sourceBuf.length) 0x1a

theorem length_blockPayload (sourceBuf : List UInt8) :
    (blockPayload sourceBuf).length = blkPacketSize sourceBuf.length := by
  rw [blockPayload, List.length_append, List.length_take, List.length_replicate]
  omega

theorem blkPacketSize_cases (sizeBlk : ℕ) :
    (if blkPacketSize sizeBlk = packet1kSize then stx else soh) = soh ∧
        blkPacketSize sizeBlk = packetSize ∨
      (if blkPacketSize sizeBlk = packet1kSize then stx else soh) = stx ∧
        blkPacketSize sizeBlk = packet1kSize := by
  rw [blkPacketSize]
  split
  · exact Or.inr ⟨rfl, rfl⟩
  · exact Or.inl ⟨rfl, rfl⟩

/-- The packet of what is left of a file. -/
def blockPacket (pktNo : UInt8) (sourceBuf : List UInt8) : Packet :=
  Packet.of (if blkPacketSize sourceBuf.length = packet1kSize then stx else soh) pktNo
    (blockPayload sourceBuf) (by
      rw [length_blockPayload]
      exact blkPacketSize_cases _)

def namePayload (name digits : List UInt8) : List UInt8 :=
  name ++ 0 :: digits ++ List.replicate (packetSize - (name.length + 1 + digits.length)) 0

theorem length_namePayload {name digits : List UInt8} (hname : name.length ≤ fileNameLength)
    (hdigits : digits.length < 10) : (namePayload name digits).length = packetSize := by
  rw [fileNameLength] at hname
  rw [namePayload]
  simp only [List.length_append, List.length_cons, List.length_replicate, packetSize]
  omega

/-- The receiver reads the name, whether or not it fills the array. -/
theorem packetFileName_namePayload {name : List UInt8} (hplain : 0 ∉ name)
    (hname : name.length ≤ fileNameLength) (digits trailer : List UInt8) :
    packetFileName (namePayload name digits ++ trailer) = name := by
  have hpos : ∀ c ∈ name, decide (c ≠ 0) = true := by
    intro c hc
    have hne : c ≠ 0 := fun h => hplain (h ▸ hc)
    simpa using hne
  rw [packetFileName, namePayload, List.append_assoc, List.append_assoc, List.take_append,
    List.take_of_length_le hname, List.takeWhile_append_of_pos hpos]
  cases fileNameLength - name.length with
  | zero => rw [List.take_zero, List.takeWhile_nil, List.append_nil]
  | succ k =>
      rw [List.cons_append, List.take_succ_cons, List.takeWhile_cons_of_neg (by decide),
        List.append_nil]

theorem atoi_packetFileSize {name : List UInt8} (hplain : 0 ∉ name)
    (hname : name.length ≤ fileNameLength) {n : ℕ} (hn : n < 10 ^ 9) (trailer : List UInt8) :
    atoi (packetFileSize (namePayload name (decimal n) ++ trailer)) = n := by
  have hdigits : (decimal n).length ≤ 9 := (length_decimal_le_iff (by decide)).mpr hn
  have hdrop : (namePayload name (decimal n) ++ trailer).drop (name.length + 1) =
      decimal n ++ (List.replicate (packetSize - (name.length + 1 + (decimal n).length)) 0 ++
        trailer) := by
    rw [namePayload, List.append_assoc, List.append_assoc, ← List.drop_drop, List.drop_left]
    rfl
  have hshort : fileSizeLength - (decimal n).length ≠ 0 := by
    rw [fileSizeLength]
    omega
  obtain ⟨k, hk⟩ := Nat.exists_eq_succ_of_ne_zero hshort
  have hroom : k + 1 ≤ packetSize - (name.length + 1 + (decimal n).length) := by
    rw [fileNameLength] at hname
    rw [fileSizeLength] at hk
    rw [packetSize]
    omega
  have htake : ((namePayload name (decimal n) ++ trailer).drop (name.length + 1)).take
      fileSizeLength = decimal n ++ 0 :: List.replicate k 0 := by
    rw [hdrop, List.take_append, List.take_of_length_le (by rw [fileSizeLength]; omega), hk,
      List.take_append_of_le_length (by rwa [List.length_replicate]), List.take_replicate,
      Nat.min_eq_left hroom]
    rfl
  have hspace : ∀ c ∈ decimal n ++ 0 :: List.replicate k 0, decide (c ≠ 32) = true := by
    intro c hc
    rw [decide_eq_true_iff]
    rintro rfl
    rcases List.mem_append.mp hc with hdigit | hzero
    · exact absurd (decimal_isDigit n 32 hdigit) (by decide)
    · rcases List.mem_cons.mp hzero with hhead | htail
      · exact absurd hhead (by decide)
      · exact absurd (List.eq_of_mem_replicate htail) (by decide)
  rw [packetFileSize, packetFileName_namePayload hplain hname, htake,
    List.takeWhile_eq_self_iff.mpr hspace]
  exact atoi_decimal (by omega) rfl _

/-! ## The messages of a file -/

/-- The packets that `dataPackets` sends. -/
def dataBlocks : ℕ → UInt8 → List UInt8 → List Packet
  | 0, _, _ => []
  | fuel + 1, pktNo, sourceBuf =>
      if sourceBuf = [] then []
      else blockPacket pktNo sourceBuf ::
        dataBlocks fuel (pktNo + 1) (sourceBuf.drop (blkPacketSize sourceBuf.length))

theorem dataBlocks_seq {fuel : ℕ} {pktNo : UInt8} {sourceBuf : List UInt8} {i : ℕ} {p : Packet}
    (h : (dataBlocks fuel pktNo sourceBuf)[i]? = some p) : p.seq = pktNo + UInt8.ofNat i := by
  induction fuel generalizing pktNo sourceBuf i with
  | zero => exact absurd h (by simp [dataBlocks])
  | succ fuel ih =>
      rw [dataBlocks] at h
      split at h
      · exact absurd h (by simp)
      · cases i with
        | zero =>
            obtain rfl := Option.some.inj h
            exact (UInt8.add_zero pktNo).symm
        | succ i =>
            rw [ih h, UInt8.add_assoc]
            congr 1
            rw [UInt8.ofNat_add, UInt8.add_comm]
            rfl

theorem blkPacketSize_pos (sizeBlk : ℕ) : 0 < blkPacketSize sizeBlk := by
  rw [blkPacketSize]
  split <;> decide

/-- Together they carry the file, and something behind it. -/
theorem dataBlocks_flatten {fuel : ℕ} {pktNo : UInt8} {sourceBuf : List UInt8}
    (hfuel : sourceBuf.length ≤ fuel) :
    ((dataBlocks fuel pktNo sourceBuf).map Packet.payload).flatten.take sourceBuf.length =
      sourceBuf := by
  induction fuel generalizing pktNo sourceBuf with
  | zero =>
      obtain rfl : sourceBuf = [] := List.eq_nil_of_length_eq_zero (Nat.le_zero.mp hfuel)
      rfl
  | succ fuel ih =>
      rw [dataBlocks]
      split
      · next hnil => rw [hnil]; rfl
      · next hne =>
          have hblk := blkPacketSize_pos sourceBuf.length
          have hpos := List.length_pos_of_ne_nil hne
          have hrest := @ih (pktNo + 1) (sourceBuf.drop (blkPacketSize sourceBuf.length)) (by
            rw [List.length_drop]
            omega)
          rw [List.length_drop] at hrest
          rw [List.map_cons, List.flatten_cons]
          show (blockPayload sourceBuf ++ _).take _ = _
          rw [List.take_append, length_blockPayload, hrest, blockPayload]
          rcases Nat.le_total sourceBuf.length (blkPacketSize sourceBuf.length) with hlast | hmore
          · rw [List.take_of_length_le hlast, List.drop_eq_nil_of_le hlast, List.take_left',
              List.append_nil]
            rfl
          · rw [Nat.sub_eq_zero_of_le hmore, List.replicate_zero, List.append_nil, List.take_take,
              Nat.min_eq_right hmore, List.take_append_drop]

namespace FileTransfer

variable (T : FileTransfer)

def namePacket : Packet :=
  Packet.of soh 0 (namePayload T.name (decimal T.content.length))
    (Or.inl ⟨rfl, length_namePayload T.name_fits
      (Nat.lt_succ_of_le ((length_decimal_le_iff (by decide)).mpr T.content_fits))⟩)

def emptyPacket : Packet :=
  Packet.of soh 0 (namePayload [] (decimal 0))
    (Or.inl ⟨rfl, length_namePayload (Nat.zero_le _) (by decide)⟩)

def blocks : List Packet := dataBlocks T.content.length 1 T.content

def payloads : List (List UInt8) := T.blocks.map Packet.payload

theorem payloads_flatten : T.payloads.flatten.take T.content.length = T.content :=
  dataBlocks_flatten le_rfl

end FileTransfer

/-! ## The receiver -/

theorem receivePacket_bytes (p : Packet) (rest : List (Option UInt8)) :
    receivePacket (p.bytes.map some ++ rest) = ⟨0, p.payload.length, p.bytes⟩ := by
  rw [Packet.bytes, List.map_cons, List.cons_append, receivePacket]
  rcases p.size with ⟨hheader, hlen⟩ | ⟨hheader, hlen⟩
  · rw [if_pos hheader, receiveBody_packet _ p.seq hlen p.trailer_length rest, hlen]
  · rw [if_neg (by rw [hheader]; decide), if_pos hheader,
      receiveBody_packet _ p.seq hlen p.trailer_length rest, hlen]

/-- What comes in is a message, and the file system does what it is asked to. -/
def messageTurn (m : List UInt8) : Turn := ⟨m.map some, true, .full⟩

theorem Packet.comesIn (p : Packet) : p.ComesIn (messageTurn p.bytes).rx :=
  ⟨[], (List.append_nil _).symm⟩

theorem Ymodem.turn_packet (s : Ymodem) (p : Packet) :
    s.turn (messageTurn p.bytes) =
      { s with errors := 0 }.normalPacket ⟨0, p.payload.length, p.bytes⟩ (messageTurn p.bytes) := by
  have hreceive : receivePacket (messageTurn p.bytes).rx = ⟨0, p.payload.length, p.bytes⟩ := by
    rw [messageTurn, ← receivePacket_bytes p [], List.append_nil]
  have hlen := p.payload_length
  have hpos : (0 : ℤ) < p.payload.length := by
    rw [packetSize] at hlen
    omega
  rw [Ymodem.turn, hreceive]
  dsimp only
  rw [if_pos rfl, if_neg (by omega), if_neg (by omega)]

/-- A pass that does not set the flag of the inner loop. -/
theorem Ymodem.Running.step_eq {s s' r : Ymodem} {t : Turn} (hrun : s.Running)
    (hturn : s.turn t = r) (hr : r.fileDone = s.fileDone) (hstep : ymodem.step s t = some s') :
    s' = r := by
  have hloop : (s.turn t).loopEnd = s' := by simpa [ymodem, hrun.returned] using hstep
  rw [← hloop, hturn, hrun.loopEnd hr]

/-- The receiver has taken the first `k` messages. -/
structure Ymodem.After (T : FileTransfer) (k : ℕ) (s : Ymodem) : Prop where
  file : s.file = (T.payloads.take (k - 1)).flatten.take T.content.length
  named : 0 < k → s.fileName = T.name ∧ s.size = T.content.length
  unnamed : k = 0 → s.size = 0
  running : s.returned = none → s.Running ∧ k ≤ T.blocks.length + 2 ∧
    s.packetsReceived = (if k ≤ T.blocks.length + 1 then k else 0) ∧ (0 < k → s.fp = true)
  ended : ∀ x, s.returned = some x → x = s.size ∧
    (k = T.blocks.length + 3 ∧ s.ending = some .emptyName ∨ s.ending = some .errorLimit)

variable {T : FileTransfer} {k : ℕ} {s s' : Ymodem}

theorem Ymodem.After.noise (h : s.After T k) {t : Turn}
    (hzero : (receivePacket t.rx).result ≠ 0) (hone : (receivePacket t.rx).result ≠ 1)
    (hstep : ymodem.step s t = some s') : s'.After T k := by
  have hreturned : s.returned = none := (Option.ite_none_right_eq_some.mp hstep).1
  obtain ⟨hrun, hk, hcount, hfp⟩ := h.running hreturned
  have hnone := not_isPacket (Or.inl hzero)
  cases step_pass hrun hstep with
  | outOfSequence hp _ => exact absurd hp (hnone _ _)
  | fileName body hp _ _ _ => exact absurd hp (hnone _ _)
  | emptyName hp _ _ _ => exact absurd hp (hnone _ _)
  | data hp _ _ => exact absurd hp (hnone _ _)
  | endOfTransmission _ hresult => exact absurd hresult hzero
  | abortBySender _ hresult => exact absurd hresult hzero
  | abortByUser huser => exact absurd huser hone
  | error _ _ _ =>
      exact ⟨h.file, h.named, h.unnamed,
        fun _ => ⟨⟨hrun.returned, hrun.fileDone, hrun.sessionDone⟩, hk, hcount, hfp⟩,
        fun x hx => absurd (hreturned.symm.trans hx) (by simp)⟩
  | errorLimit _ _ _ =>
      refine ⟨h.file, h.named, h.unnamed, fun hx => absurd hx (by simp [Ymodem.exit]), ?_⟩
      intro x hx
      exact ⟨(Option.some.inj hx).symm, Or.inr rfl⟩

theorem Ymodem.After.name (h : s.After T 0)
    (hstep : ymodem.step s (messageTurn T.namePacket.bytes) = some s') :
    s'.After T 1 ∧ s'.sent = s.sent ++ [ack, crc16] ∧
      s'.packetsReceived = s.packetsReceived + 1 ∧ s'.returned = none := by
  have hreturned : s.returned = none := (Option.ite_none_right_eq_some.mp hstep).1
  obtain ⟨hrun, -, hcount, -⟩ := h.running hreturned
  have hzero : s.packetsReceived = 0 := hcount.trans (if_pos (Nat.zero_le _))
  have hbody : T.namePacket.bytes.drop packetHeader =
      namePayload T.name (decimal T.content.length) ++ T.namePacket.trailer := rfl
  have hname : packetFileName (T.namePacket.bytes.drop packetHeader) = T.name := by
    rw [hbody, packetFileName_namePayload T.name_plain T.name_fits]
  have hsize : atoi (packetFileSize (T.namePacket.bytes.drop packetHeader)) = T.content.length := by
    rw [hbody, atoi_packetFileSize T.name_plain T.name_fits T.content_fits]
  have hhead : (T.namePacket.bytes.drop packetHeader).getD 0 0 ≠ 0 := by
    obtain ⟨c, rest, hc⟩ := List.exists_cons_of_ne_nil T.name_ne
    rw [hbody, namePayload, hc]
    show c ≠ 0
    rintro rfl
    exact T.name_plain (hc ▸ List.mem_cons_self)
  have hturn : s.turn (messageTurn T.namePacket.bytes) =
      { s with errors := 0 }.fileNamePacket (T.namePacket.bytes.drop packetHeader) true := by
    rw [Ymodem.turn_packet, Ymodem.normalPacket]
    dsimp only
    rw [if_neg (by rw [hzero]; exact fun hne => hne rfl), if_pos hzero, if_pos hhead]
    rfl
  obtain rfl := hrun.step_eq hturn rfl hstep
  refine ⟨⟨?_, fun _ => ⟨hname, hsize⟩, fun h => absurd h one_ne_zero, fun _ => ?_, fun x hx => ?_⟩,
    rfl, rfl, hreturned⟩
  · show [] = _
    simp
  · refine ⟨⟨hrun.returned, hrun.fileDone, hrun.sessionDone⟩, by omega, ?_, fun _ => rfl⟩
    rw [if_pos (by omega)]
    show s.packetsReceived + 1 = 1
    rw [hzero]
  · exact absurd (hreturned.symm.trans hx) (by simp)

/-- The next data packet is taken, and what it carries of the file is written. -/
theorem Ymodem.After.data (h : s.After T k) (hk : 0 < k) {p : Packet}
    (hp : T.blocks[k - 1]? = some p) (hstep : ymodem.step s (messageTurn p.bytes) = some s') :
    s'.After T (k + 1) ∧ s'.sent = s.sent ++ [ack] ∧
      s'.packetsReceived = s.packetsReceived + 1 ∧ s'.returned = none := by
  have hreturned : s.returned = none := (Option.ite_none_right_eq_some.mp hstep).1
  obtain ⟨hrun, -, hcount, hfp⟩ := h.running hreturned
  have hlast : k ≤ T.blocks.length := by
    have hlt := (List.getElem?_eq_some_iff.mp hp).1
    omega
  rw [if_pos (by omega)] at hcount
  have hseq : p.seq.toNat = s.packetsReceived % 256 := by
    have hone : (1 : UInt8) = UInt8.ofNat 1 := rfl
    rw [dataBlocks_seq hp, hcount, hone, ← UInt8.ofNat_add, UInt8.toNat_ofNat',
      Nat.add_sub_cancel' hk]
  have hindex : p.bytes.getD packetSeqnoIndex 0 = p.seq := rfl
  have hpayload : (p.bytes.drop packetHeader).take p.payload.length = p.payload :=
    List.take_left
  obtain ⟨hname, hsize⟩ := h.named hk
  have hturn : s.turn (messageTurn p.bytes) =
      ({ s with
        errors := 0
        file := s.file ++ p.payload.take (lengthCalc s.file.length s.size p.payload.length)
        payloads := s.payloads ++ [p.payload] }.send [ack]).accept := by
    rw [Ymodem.turn_packet, Ymodem.normalPacket]
    dsimp only
    rw [hindex, if_neg (not_not.mpr hseq), if_neg (by omega), Int.toNat_natCast, hpayload]
    exact dataPacket_full (s := { s with errors := 0 }) (hfp hk) p.payload
  obtain rfl := hrun.step_eq hturn rfl hstep
  have hfile : s.file ++ p.payload.take (lengthCalc s.file.length s.size p.payload.length) =
      (T.payloads.take (k + 1 - 1)).flatten.take T.content.length := by
    have hblock : T.payloads[k - 1]? = some p.payload := by
      rw [FileTransfer.payloads, List.getElem?_map, hp]
      rfl
    have hgrow : T.payloads.take (k + 1 - 1) = T.payloads.take (k - 1) ++ [p.payload] := by
      rw [show k + 1 - 1 = k - 1 + 1 by omega, List.take_add_one, hblock]
      rfl
    have hfits := T.content_fits
    rw [hsize, take_append_lengthCalc (Int.natCast_nonneg _) (by omega) h.file
      p.comesIn.isPacket.length_le, hgrow, List.flatten_append, Int.toNat_natCast]
    simp
  refine ⟨⟨hfile, fun _ => ⟨hname, hsize⟩, fun h => absurd h k.succ_ne_zero, fun _ => ?_,
    fun x hx => absurd (hreturned.symm.trans hx) (by simp)⟩, rfl, rfl, hreturned⟩
  refine ⟨⟨hrun.returned, hrun.fileDone, hrun.sessionDone⟩, by omega, ?_, fun _ => hfp hk⟩
  rw [if_pos (by omega)]
  exact congrArg (· + 1) hcount

/-- Everything has been written once all data packets are taken. -/
theorem Ymodem.After.file_eq (h : s.After T k) (hk : T.blocks.length + 1 ≤ k) :
    s.file = T.content := by
  have hall : T.payloads.take (k - 1) = T.payloads :=
    List.take_of_length_le (by rw [FileTransfer.payloads, List.length_map]; omega)
  rw [h.file, hall, T.payloads_flatten]

/-- `EOT` is acknowledged, also when it is repeated. -/
theorem Ymodem.After.endOfTransmission (h : s.After T k) (hk : T.blocks.length + 1 ≤ k)
    (hstep : ymodem.step s (messageTurn [eot]) = some s') :
    s'.After T (T.blocks.length + 2) ∧ s'.sent = s.sent ++ [ack] ∧ s'.packetsReceived = 0 ∧
      s'.returned = none := by
  have hreturned : s.returned = none := (Option.ite_none_right_eq_some.mp hstep).1
  obtain ⟨hrun, -, -, hfp⟩ := h.running hreturned
  have hresult : (receivePacket (messageTurn [eot]).rx).result = 0 := by decide
  have hlength : (receivePacket (messageTurn [eot]).rx).length = 0 := by decide
  have hnone := not_isPacket (Or.inr hlength.le)
  cases step_pass hrun hstep with
  | outOfSequence hp _ => exact absurd hp (hnone _ _)
  | fileName body hp _ _ _ => exact absurd hp (hnone _ _)
  | emptyName hp _ _ _ => exact absurd hp (hnone _ _)
  | data hp _ _ => exact absurd hp (hnone _ _)
  | endOfTransmission _ _ =>
      refine ⟨⟨?_, fun _ => h.named (by omega), fun h => absurd h (by omega), fun _ => ?_,
        fun x hx => absurd (hreturned.symm.trans hx) (by simp)⟩, rfl, rfl, hreturned⟩
      · have hall : T.payloads.take (T.blocks.length + 2 - 1) = T.payloads :=
          List.take_of_length_le (by rw [FileTransfer.payloads, List.length_map]; omega)
        rw [hall, T.payloads_flatten]
        exact h.file_eq hk
      · refine ⟨⟨hrun.returned, hrun.fileDone, hrun.sessionDone⟩, le_rfl, ?_,
          fun _ => hfp (by omega)⟩
        rw [if_neg (by omega)]
        rfl
  | abortBySender hlen _ => exact absurd (hlength.symm.trans hlen) (by decide)
  | abortByUser huser => exact absurd (hresult.symm.trans huser) (by decide)
  | error hne _ _ => exact absurd hresult hne
  | errorLimit hne _ _ => exact absurd hresult hne

theorem Ymodem.After.empty (h : s.After T (T.blocks.length + 2))
    (hstep : ymodem.step s (messageTurn FileTransfer.emptyPacket.bytes) = some s') :
    s'.After T (T.blocks.length + 3) ∧ s'.sent = s.sent ++ [ack] ∧
      s'.packetsReceived = s.packetsReceived ∧ s'.returned = some s'.size ∧
      s'.ending = some .emptyName := by
  have hreturned : s.returned = none := (Option.ite_none_right_eq_some.mp hstep).1
  obtain ⟨hrun, -, hcount, -⟩ := h.running hreturned
  rw [if_neg (by omega)] at hcount
  have hpacket := FileTransfer.emptyPacket.comesIn.isPacket
  obtain ⟨hresult, hlength, hpos, -⟩ := receivePacket_of_isPacket hpacket
  cases step_pass hrun hstep with
  | outOfSequence hp hseq =>
      obtain ⟨rfl, rfl⟩ := hpacket.unique hp
      rw [hcount] at hseq
      exact absurd rfl hseq
  | fileName body hp _ _ hname =>
      obtain ⟨rfl, rfl⟩ := hpacket.unique hp
      exact absurd rfl hname
  | emptyName _ _ _ _ =>
      refine ⟨⟨?_, fun _ => h.named (by omega), fun h => absurd h (by omega),
        fun hx => absurd hx (by simp [Ymodem.exit]), fun x hx => ?_⟩, rfl, rfl, rfl, rfl⟩
      · have hall : T.payloads.take (T.blocks.length + 3 - 1) = T.payloads :=
          List.take_of_length_le (by rw [FileTransfer.payloads, List.length_map]; omega)
        rw [hall, T.payloads_flatten]
        exact h.file_eq (by omega)
      · exact ⟨(Option.some.inj hx).symm, Or.inl ⟨rfl, rfl⟩⟩
  | data _ _ hnonzero => exact absurd hcount hnonzero
  | endOfTransmission hlen _ => omega
  | abortBySender hlen _ => omega
  | abortByUser huser => exact absurd (hresult.symm.trans huser) (by decide)
  | error hne _ _ => exact absurd hresult hne
  | errorLimit hne _ _ => exact absurd hresult hne

end TdPrinter
