import Mathlib.Data.Int.Notation
import Mathlib.Data.List.Basic

/-!
# Ymodem packets

A packet is a header that tells its size, a sequence number and its complement, 128 or
1024 bytes of data, and two bytes of a checksum that the receiver does not look at.
`Receive_Packet` reads one; instead of it the sender may also send the end of the
transmission or an abort, or nothing.

What comes in is given as the list of the results of `Receive_Byte`, one for each call:
`none` is a timeout, as is every call beyond the end of the list.  `IsPacket` says what a
well-formed packet is; `receivePacket_of_isPacket` and `isPacket_of_receivePacket` say
that `Receive_Packet` accepts these and no others.
-/

namespace TdPrinter

/-! ## Constants -/

/-- `SOH`. -/
def soh : UInt8 := 0x01
/-- `STX`. -/
def stx : UInt8 := 0x02
/-- `EOT`. -/
def eot : UInt8 := 0x04
/-- `ACK`. -/
def ack : UInt8 := 0x06
/-- `NAK`. -/
def nak : UInt8 := 0x15
/-- `CA`. -/
def ca : UInt8 := 0x18
/-- `CRC16`. -/
def crc16 : UInt8 := 0x43
/-- `ABORT1`. -/
def abort1 : UInt8 := 0x41
/-- `ABORT2`. -/
def abort2 : UInt8 := 0x61

/-- `PACKET_SIZE`. -/
def packetSize : ℕ := 128
/-- `PACKET_1K_SIZE`. -/
def packet1kSize : ℕ := 1024
/-- `PACKET_HEADER`. -/
def packetHeader : ℕ := 3
/-- `PACKET_OVERHEAD`. -/
def packetOverhead : ℕ := 5
/-- `PACKET_SEQNO_INDEX`. -/
def packetSeqnoIndex : ℕ := 1
/-- `PACKET_SEQNO_COMP_INDEX`. -/
def packetSeqnoCompIndex : ℕ := 2

/-! ## Receiving -/

/-- The result of `Receive_Packet`, `*length`, and `packet_data`. -/
structure PacketResult where
  result : ℤ
  length : ℤ
  data : List UInt8
  deriving DecidableEq

/-- `n` calls of `Receive_Byte`, up to a timeout. -/
def receiveBytes : ℕ → List (Option UInt8) → Option (List UInt8)
  | 0, _ => some []
  | n + 1, some c :: rx => (receiveBytes n rx).map (c :: ·)
  | _ + 1, _ => none

/-- The part of `Receive_Packet` behind its `switch`. -/
def receiveBody (size : ℕ) (c : UInt8) (rx : List (Option UInt8)) : PacketResult :=
  match receiveBytes (size + packetOverhead - 1) rx with
  | none => ⟨-1, 0, []⟩
  | some rest =>
      let data := c :: rest
      if data.getD packetSeqnoIndex 0 ≠ data.getD packetSeqnoCompIndex 0 ^^^ 0xff then ⟨-1, 0, []⟩
      else ⟨0, size, data⟩

/-- `Receive_Packet`. -/
def receivePacket : List (Option UInt8) → PacketResult
  | some c :: rx =>
      if c = soh then receiveBody packetSize c rx
      else if c = stx then receiveBody packet1kSize c rx
      else if c = eot then ⟨0, 0, []⟩
      else if c = ca then
        if rx.head? = some (some ca) then ⟨0, -1, []⟩ else ⟨-1, 0, []⟩
      else if c = abort1 ∨ c = abort2 then ⟨1, 0, []⟩
      else ⟨-1, 0, []⟩
  | _ => ⟨-1, 0, []⟩

/-! ## Well-formed packets -/

/-- A packet with the sequence number `seq` and the data `payload` comes in. -/
def IsPacket (rx : List (Option UInt8)) (seq : UInt8) (payload : List UInt8) : Prop :=
  ∃ header trailer rest, (header = soh ∧ payload.length = packetSize ∨
      header = stx ∧ payload.length = packet1kSize) ∧
    trailer.length = 2 ∧
    rx = (header :: seq :: (seq ^^^ 0xff) :: (payload ++ trailer)).map some ++ rest

structure Packet where
  header : UInt8
  seq : UInt8
  payload : List UInt8
  trailer : List UInt8
  size : header = soh ∧ payload.length = packetSize ∨ header = stx ∧ payload.length = packet1kSize
  trailer_length : trailer.length = 2

def Packet.bytes (p : Packet) : List UInt8 :=
  p.header :: p.seq :: (p.seq ^^^ 0xff) :: (p.payload ++ p.trailer)

/-- What comes in begins with this packet. -/
def Packet.ComesIn (p : Packet) (rx : List (Option UInt8)) : Prop :=
  ∃ rest, rx = p.bytes.map some ++ rest

theorem Packet.ComesIn.isPacket {p : Packet} {rx : List (Option UInt8)} (h : p.ComesIn rx) :
    IsPacket rx p.seq p.payload := by
  obtain ⟨rest, hrest⟩ := h
  exact ⟨p.header, p.trailer, rest, p.size, p.trailer_length, hrest⟩

theorem receiveBytes_append (bytes : List UInt8) (rest : List (Option UInt8)) :
    receiveBytes bytes.length (bytes.map some ++ rest) = some bytes := by
  induction bytes with
  | nil => rfl
  | cons c bytes ih =>
      rw [List.length_cons, List.map_cons, List.cons_append, receiveBytes, ih]
      rfl

theorem receiveBytes_eq_some {n : ℕ} {rx : List (Option UInt8)} {bytes : List UInt8}
    (h : receiveBytes n rx = some bytes) :
    bytes.length = n ∧ ∃ rest, rx = bytes.map some ++ rest := by
  induction n generalizing rx bytes with
  | zero =>
      obtain rfl : [] = bytes := by simpa [receiveBytes] using h
      exact ⟨rfl, rx, rfl⟩
  | succ n ih =>
      cases rx with
      | nil => simp [receiveBytes] at h
      | cons x rx =>
          cases x with
          | none => simp [receiveBytes] at h
          | some c =>
              rw [receiveBytes, Option.map_eq_some_iff] at h
              obtain ⟨bytes', hbytes, rfl⟩ := h
              obtain ⟨hlen, rest, hrx⟩ := ih hbytes
              exact ⟨by rw [List.length_cons, hlen], rest, by rw [hrx]; rfl⟩

theorem xor_ff_xor_ff (x : UInt8) : x ^^^ 0xff ^^^ 0xff = x := by
  rw [UInt8.xor_assoc, UInt8.xor_self, UInt8.xor_zero]

/-- What a packet of `size` bytes makes of the part behind the `switch`. -/
theorem receiveBody_packet {size : ℕ} (c seq : UInt8) {payload trailer : List UInt8}
    (hpayload : payload.length = size) (htrailer : trailer.length = 2)
    (rest : List (Option UInt8)) :
    receiveBody size c ((seq :: (seq ^^^ 0xff) :: (payload ++ trailer)).map some ++ rest) =
      ⟨0, size, c :: seq :: (seq ^^^ 0xff) :: (payload ++ trailer)⟩ := by
  have hlen : size + packetOverhead - 1 =
      (seq :: (seq ^^^ 0xff) :: (payload ++ trailer)).length := by
    simp [packetOverhead, hpayload, htrailer]
  rw [receiveBody, hlen, receiveBytes_append]
  exact if_neg (not_not.mpr (xor_ff_xor_ff seq).symm)

theorem receiveBody_cases {size : ℕ} {c : UInt8} {rx : List (Option UInt8)}
    (h : (receiveBody size c rx).result = 0) :
    ∃ seq payload trailer rest, payload.length = size ∧ trailer.length = 2 ∧
      rx = (seq :: (seq ^^^ 0xff) :: (payload ++ trailer)).map some ++ rest := by
  unfold receiveBody at h
  cases hbytes : receiveBytes (size + packetOverhead - 1) rx with
  | none => simp [hbytes] at h
  | some bytes =>
      obtain ⟨hlen, rest, hrx⟩ := receiveBytes_eq_some hbytes
      rw [hbytes] at h
      cases bytes with
      | nil => simp [packetOverhead] at hlen
      | cons seq bytes =>
          cases bytes with
          | nil => simp [packetOverhead] at hlen
          | cons comp body =>
              have hcomp : comp = seq ^^^ 0xff := by
                by_contra hne
                have hseq : seq ≠ comp ^^^ 0xff := by
                  intro hseq
                  apply hne
                  rw [hseq, xor_ff_xor_ff]
                simp [packetSeqnoIndex, packetSeqnoCompIndex, hseq] at h
              have hbody : body.length = size + 2 := by
                simp only [List.length_cons, packetOverhead] at hlen
                omega
              refine ⟨seq, body.take size, body.drop size, rest, ?_, ?_, ?_⟩
              · rw [List.length_take]
                omega
              · rw [List.length_drop]
                omega
              · rw [List.take_append_drop, ← hcomp, hrx]

/-- A packet is accepted, with its sequence number and its data. -/
theorem receivePacket_of_isPacket {rx : List (Option UInt8)} {seq : UInt8} {payload : List UInt8}
    (h : IsPacket rx seq payload) :
    (receivePacket rx).result = 0 ∧ (receivePacket rx).length = payload.length ∧
      0 < payload.length ∧ (receivePacket rx).data.getD packetSeqnoIndex 0 = seq ∧
      ((receivePacket rx).data.drop packetHeader).take payload.length = payload := by
  obtain ⟨header, trailer, rest, hsize, htrailer, rfl⟩ := h
  have hreceive : receivePacket
      ((header :: seq :: (seq ^^^ 0xff) :: (payload ++ trailer)).map some ++ rest) =
      ⟨0, payload.length, header :: seq :: (seq ^^^ 0xff) :: (payload ++ trailer)⟩ := by
    rw [List.map_cons, List.cons_append, receivePacket]
    rcases hsize with ⟨rfl, hlen⟩ | ⟨rfl, hlen⟩
    · rw [if_pos rfl, receiveBody_packet soh seq hlen htrailer rest, hlen]
    · rw [if_neg (by decide), if_pos rfl, receiveBody_packet stx seq hlen htrailer rest, hlen]
  have hpos : 0 < payload.length := by
    rcases hsize with ⟨_, hlen⟩ | ⟨_, hlen⟩
    · rw [hlen]
      decide
    · rw [hlen]
      decide
  rw [hreceive]
  refine ⟨rfl, rfl, hpos, rfl, ?_⟩
  simp [packetHeader]

theorem body_head {rx : List (Option UInt8)} {seq : UInt8} {payload : List UInt8}
    (hp : IsPacket rx seq payload) :
    ((receivePacket rx).data.drop packetHeader).getD 0 0 = payload.head?.getD 0 := by
  obtain ⟨-, -, hpos, -, hpayload⟩ := receivePacket_of_isPacket hp
  rw [← hpayload, List.head?_take, if_neg (Nat.ne_of_gt hpos), List.getD_eq_getElem?_getD,
    List.head?_eq_getElem?]

theorem isPacket_of_receivePacket {rx : List (Option UInt8)}
    (hresult : (receivePacket rx).result = 0) (habort : (receivePacket rx).length ≠ -1)
    (hlength : (receivePacket rx).length ≠ 0) :
    ∃ seq payload, IsPacket rx seq payload := by
  cases rx with
  | nil => simp [receivePacket] at hresult
  | cons x rx =>
      cases x with
      | none => simp [receivePacket] at hresult
      | some c =>
          rw [receivePacket] at hresult habort hlength
          by_cases hsoh : c = soh
          · rw [if_pos hsoh] at hresult
            obtain ⟨seq, payload, trailer, rest, hlen, htrailer, rfl⟩ := receiveBody_cases hresult
            exact ⟨seq, payload, c, trailer, rest, Or.inl ⟨hsoh, hlen⟩, htrailer, rfl⟩
          · rw [if_neg hsoh] at hresult habort hlength
            by_cases hstx : c = stx
            · rw [if_pos hstx] at hresult
              obtain ⟨seq, payload, trailer, rest, hlen, htrailer, rfl⟩ :=
                receiveBody_cases hresult
              exact ⟨seq, payload, c, trailer, rest, Or.inr ⟨hstx, hlen⟩, htrailer, rfl⟩
            · rw [if_neg hstx] at habort hlength
              exfalso
              revert habort hlength
              split
              · simp
              · split
                · split <;> simp
                · split <;> simp

/-- What does not return 0 and a length is no packet. -/
theorem not_isPacket {rx : List (Option UInt8)}
    (h : (receivePacket rx).result ≠ 0 ∨ (receivePacket rx).length ≤ 0) (seq : UInt8)
    (payload : List UInt8) : ¬ IsPacket rx seq payload := by
  intro hp
  obtain ⟨hresult, hlen, hpos, _⟩ := receivePacket_of_isPacket hp
  rcases h with hne | hle
  · exact hne hresult
  · omega

/-- What comes in with a packet of 128 bytes, of which `data` are the first ones. -/
def shortPacket (seq : UInt8) (data : List UInt8) : List (Option UInt8) :=
  (soh :: seq :: (seq ^^^ 0xff) :: (data ++ List.replicate (130 - data.length) 0)).map some

end TdPrinter
