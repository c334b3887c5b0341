import TdPrinter.Ymodem.Receive

/-!
# Damaged packets

The receiver asks for packets with a 16-bit CRC, and `Cal_CRC16` computes one.  It reads
the two bytes behind the data, but nothing compares them with it: a packet is taken as it
comes.  So a damaged packet is turned away only where it would have been without the
damage, and `checksCrc_iff` says where that is.
-/

namespace TdPrinter

/-! ## The checksum -/

/-- The loop body of `UpdateCRC16`: `crc` and `in`. -/
def crcTurn (crc bits : UInt32) : UInt32 × UInt32 :=
  let crc := crc <<< 1
  let bits := bits <<< 1
  let crc := if bits &&& 0x100 ≠ 0 then crc + 1 else crc
  let crc := if crc &&& 0x10000 ≠ 0 then crc ^^^ 0x1021 else crc
  (crc, bits)

/-- At most `turns` turns of `do ... while(!(in & 0x10000))`. -/
def crcLoop : ℕ → UInt32 → UInt32 → Option UInt32
  | 0, _, _ => none
  | turns + 1, crc, bits =>
      let r := crcTurn crc bits
      if r.2 &&& 0x10000 = 0 then crcLoop turns r.1 r.2 else some r.1

/-- `UpdateCRC16`. -/
def updateCRC16 (crcIn : UInt16) (byte : UInt8) : Option UInt16 :=
  (crcLoop 8 crcIn.toUInt32 (byte.toUInt32 ||| 0x100)).map fun crc => (crc &&& 0xffff).toUInt16

/-- `Cal_CRC16`. -/
def calCrc16 (data : List UInt8) : Option UInt16 := (data ++ [0, 0]).foldlM updateCRC16 0

theorem crcLoop_isSome (turns : ℕ) (crc crc' bits : UInt32) :
    (crcLoop turns crc bits).isSome = (crcLoop turns crc' bits).isSome := by
  induction turns generalizing crc crc' bits with
  | zero => rfl
  | succ turns ih =>
      have hbits : (crcTurn crc bits).2 = (crcTurn crc' bits).2 := rfl
      rw [crcLoop, crcLoop, ← hbits]
      split
      · exact ih _ _ _
      · rfl

/-- The mark in front of a byte reaches bit 16 in the eighth turn. -/
theorem updateCRC16_isSome (crcIn : UInt16) (byte : UInt8) : (updateCRC16 crcIn byte).isSome := by
  have hall : ∀ n < 256, (crcLoop 8 0 ((UInt8.ofNat n).toUInt32 ||| 0x100)).isSome := by
    decide +kernel
  have hbyte := hall byte.toNat byte.toNat_lt
  rw [UInt8.ofNat_toNat] at hbyte
  rw [updateCRC16, Option.isSome_map, crcLoop_isSome 8 _ 0]
  exact hbyte

theorem calCrc16_isSome (data : List UInt8) : (calCrc16 data).isSome := by
  have hall : ∀ (l : List UInt8) (crc : UInt16), (l.foldlM updateCRC16 crc).isSome := by
    intro l
    induction l with
    | nil => exact fun crc => rfl
    | cons c l ih =>
        intro crc
        obtain ⟨crc', hcrc⟩ := Option.isSome_iff_exists.mp (updateCRC16_isSome crc c)
        simpa [List.foldlM_cons, hcrc] using ih crc'
  exact hall _ _

/-- The two bytes of a checksum, the high one first. -/
def crcTrailer (payload : List UInt8) : Option (List UInt8) :=
  (calCrc16 payload).map fun (crc : UInt16) => [(crc >>> 8).toUInt8, crc.toUInt8]

/-- The trailer is the checksum of the data. -/
def Packet.Intact (p : Packet) : Prop := crcTrailer p.payload = some p.trailer

/-! ## Passes -/

def Ymodem.answer (s s' : Ymodem) : List UInt8 := s'.sent.drop s.sent.length

/-- What the receiver acknowledges is intact, and a packet that is not is not acknowledged and
changes no file. -/
structure Ymodem.ChecksCrc (s : Ymodem) (t : Turn) (s' : Ymodem) : Prop where
  acknowledged : ∀ p : Packet, p.ComesIn t.rx → ack ∈ s.answer s' → p.Intact
  damaged : ∀ p : Packet, p.ComesIn t.rx → ¬p.Intact →
    ack ∉ s.answer s' ∧ (s'.fp = true → s'.file = s.file)

/-- The condition on a pass: if a damaged packet has the number that is expected, it names a file
that cannot be opened, or there is no open file, or `write` fails. -/
def Ymodem.MeetsIntact (s : Ymodem) (t : Turn) : Prop :=
  ∀ p : Packet, p.ComesIn t.rx → ¬p.Intact → p.seq.toNat = s.packetsReceived % 256 →
    if s.packetsReceived = 0 then p.payload.head? ≠ some 0 ∧ t.opened = false
    else s.fp = false ∨ t.write = .failed

theorem answer_eq {s s' : Ymodem} (bytes : List UInt8) (hsent : s'.sent = s.sent ++ bytes) :
    s.answer s' = bytes := by
  rw [Ymodem.answer, hsent]
  exact List.drop_left

theorem mem_answer {s s' : Ymodem} (bytes : List UInt8) (hsent : s'.sent = s.sent ++ bytes)
    (hack : ack ∈ bytes) : ack ∈ s.answer s' := by
  rwa [answer_eq bytes hsent]

theorem notMem_answer {s s' : Ymodem} (bytes : List UInt8) (hsent : s'.sent = s.sent ++ bytes)
    (hack : ack ∉ bytes) : ack ∉ s.answer s' := by
  rwa [answer_eq bytes hsent]

/-- A pass that answers without `ACK` and leaves the file alone, whatever comes in. -/
theorem checksCrc_of_rejects {s s' : Ymodem} {t : Turn} (hack : ack ∉ s.answer s')
    (hfile : s'.fp = true → s'.file = s.file) : s.ChecksCrc t s' :=
  ⟨fun _ _ h => absurd h hack, fun _ _ _ => ⟨hack, hfile⟩⟩

theorem checksCrc_iff_of_none {s s' : Ymodem} {t : Turn}
    (hnone : ∀ seq payload, ¬IsPacket t.rx seq payload) : s.ChecksCrc t s' ↔ s.MeetsIntact t :=
  iff_of_true
    ⟨fun _ hp => absurd hp.isPacket (hnone _ _), fun _ hp => absurd hp.isPacket (hnone _ _)⟩
    fun _ hp => absurd hp.isPacket (hnone _ _)

/-- A pass that acknowledges a packet with the expected number. -/
theorem checksCrc_iff_of_ack {s s' : Ymodem} {t : Turn} {seq : UInt8} {payload : List UInt8}
    (hp : IsPacket t.rx seq payload) (hseq : seq.toNat = s.packetsReceived % 256)
    (hack : ack ∈ s.answer s')
    (htaken : ¬if s.packetsReceived = 0 then payload.head? ≠ some 0 ∧ t.opened = false
      else s.fp = false ∨ t.write = .failed) : s.ChecksCrc t s' ↔ s.MeetsIntact t := by
  constructor
  · intro h p hin hbad
    exact absurd hack (h.damaged p hin hbad).1
  · intro h
    have hintact : ∀ p : Packet, p.ComesIn t.rx → p.Intact := by
      intro p hin
      by_contra hbad
      obtain ⟨hsame, hpayload⟩ := hin.isPacket.unique hp
      have hrefused := h p hin hbad (by rw [hsame, hseq])
      rw [hpayload] at hrefused
      exact htaken hrefused
    exact ⟨fun p hin _ => hintact p hin, fun p hin hbad => absurd (hintact p hin) hbad⟩

/-- A pass that turns away a packet with the expected number, damaged or not. -/
theorem checksCrc_iff_of_refused {s s' : Ymodem} {t : Turn} {seq : UInt8} {payload : List UInt8}
    (hp : IsPacket t.rx seq payload) (hack : ack ∉ s.answer s')
    (hfile : s'.fp = true → s'.file = s.file)
    (hrefused : if s.packetsReceived = 0 then payload.head? ≠ some 0 ∧ t.opened = false
      else s.fp = false ∨ t.write = .failed) : s.ChecksCrc t s' ↔ s.MeetsIntact t := by
  refine iff_of_true (checksCrc_of_rejects hack hfile) fun p hin _ _ => ?_
  obtain ⟨-, hpayload⟩ := hin.isPacket.unique hp
  rwa [hpayload]

/-- A data packet is turned away where it cannot be written. -/
theorem data_checksCrc_iff {s : Ymodem} {t : Turn} {seq : UInt8} {payload : List UInt8}
    (hp : IsPacket t.rx seq payload) (hseq : seq.toNat = s.packetsReceived % 256)
    (hnonzero : s.packetsReceived ≠ 0) :
    s.ChecksCrc t ({ s with errors := 0 }.dataPacket payload t.write) ↔ s.MeetsIntact t := by
  by_cases hrefused : s.fp = false ∨ t.write = .failed
  · have hnone : (if s.fp then
        t.write.count (lengthCalc s.file.length s.size payload.length) else none) = none := by
      rcases hrefused with h | h <;> simp [h, DfsWrite.count]
    have hnext : { s with errors := 0 }.dataPacket payload t.write =
        ({ s with errors := 0, size := -2 }.send [ca, ca]).exit .writeFailure := by
      simp only [Ymodem.dataPacket, hnone]
    rw [hnext]
    exact checksCrc_iff_of_refused hp (notMem_answer [ca, ca] rfl (by decide)) (fun _ => rfl)
      (by rwa [if_neg hnonzero])
  · rw [not_or] at hrefused
    obtain ⟨n, hn⟩ : ∃ n,
        t.write.count (lengthCalc s.file.length s.size payload.length) = some n := by
      cases hwrite : t.write with
      | failed => exact absurd hwrite hrefused.2
      | partly k => exact ⟨_, rfl⟩
      | full => exact ⟨_, rfl⟩
    have hfp : s.fp = true := by simpa using hrefused.1
    have hnext : { s with errors := 0 }.dataPacket payload t.write =
        ({ s with
          errors := 0
          file := s.file ++ payload.take n
          payloads := s.payloads ++ [payload] }.send [ack]).accept := by
      simp only [Ymodem.dataPacket, hfp, if_true, hn]
    rw [hnext]
    exact checksCrc_iff_of_ack hp hseq (mem_answer [ack] rfl List.mem_cons_self)
      (by rwa [if_neg hnonzero, not_or])

/-- A pass checks what it reads if and only if it meets the condition. -/
theorem pass_checksCrc_iff {s s' : Ymodem} {t : Turn} (hpass : s.Pass t s') :
    s.ChecksCrc t s' ↔ s.MeetsIntact t := by
  cases hpass with
  | @outOfSequence seq payload hp hseq =>
      have hnak : ack ∉ s.answer ({ s with errors := 0 }.send [nak]) :=
        notMem_answer [nak] rfl (by decide)
      refine iff_of_true (checksCrc_of_rejects hnak fun _ => rfl) fun p hin _ heq => ?_
      rw [(hin.isPacket.unique hp).1] at heq
      exact absurd heq hseq
  | fileName body hp hseq hzero hname =>
      have hanswer : s.answer ({ s with errors := 0 }.fileNamePacket body t.opened) =
          if t.opened then [ack, crc16] else [ca, ca] := answer_eq _ rfl
      cases hopened : t.opened with
      | true =>
          refine checksCrc_iff_of_ack hp hseq ?_ (by simp [hzero, hopened])
          rw [← hopened, hanswer, hopened]
          decide
      | false =>
          refine checksCrc_iff_of_refused hp ?_ ?_ (by simp [hzero, hname, hopened])
          · rw [← hopened, hanswer, hopened]
            decide
          · intro hfp
            exact absurd hfp (by simp [Ymodem.fileNamePacket, Ymodem.accept, Ymodem.send])
  | emptyName hp hseq hzero hname =>
      exact checksCrc_iff_of_ack hp hseq (mem_answer [ack] rfl List.mem_cons_self)
        (by simp [hzero, hname])
  | data hp hseq hnonzero => exact data_checksCrc_iff hp hseq hnonzero
  | endOfTransmission hlength _ => exact checksCrc_iff_of_none (not_isPacket (.inr hlength.le))
  | abortBySender hlength _ =>
      exact checksCrc_iff_of_none (not_isPacket (.inr (by rw [hlength]; decide)))
  | abortByUser huser => exact checksCrc_iff_of_none (not_isPacket (.inl (by rw [huser]; decide)))
  | error hne _ _ => exact checksCrc_iff_of_none (not_isPacket (.inl hne))
  | errorLimit hne _ _ => exact checksCrc_iff_of_none (not_isPacket (.inl hne))

/-! ## Sessions -/

/-- In a session all packets are checked if and only if every pass meets the condition. -/
theorem checksCrc_iff (uart packetData : Bool) (turns : List Turn) :
    ymodem.AllTransitions Ymodem.ChecksCrc (.start uart packetData) turns ↔
      ymodem.AllSteps Ymodem.MeetsIntact (.start uart packetData) turns := by
  have hpass : ∀ s t s', (s.returned = none → s.Running ∧ s.announced = s.size) →
      ymodem.step s t = some s' → s.Pass t s' ∧ s.Running ∧ s.announced = s.size := by
    intro s t s' hrun hstep
    obtain ⟨hrunning, hannounced⟩ := hrun (Option.ite_none_right_eq_some.mp hstep).1
    exact ⟨step_pass hrunning hstep, hrunning, hannounced⟩
  refine Machine.allTransitions_iff_allSteps
    (J := fun s : Ymodem => s.returned = none → s.Running ∧ s.announced = s.size) ?_ ?_
    (start_running uart packetData) turns
  · intro s t s' hrun hstep hreturned
    obtain ⟨h, hrunning, hannounced⟩ := hpass s t s' hrun hstep
    exact pass_running hrunning hannounced h hreturned
  · intro s t s' hrun hstep
    exact pass_checksCrc_iff (hpass s t s' hrun hstep).1

/-- A packet of zeros with the checksum of zeros, and the last byte altered. -/
def alteredPacket : Packet where
  header := soh
  seq := 1
  payload := List.replicate 127 0 ++ [1]
  trailer := [0, 0]
  size := .inl ⟨rfl, rfl⟩
  trailer_length := rfl

theorem alteredPacket_not_intact : ¬alteredPacket.Intact := by
  have hzeros : ∀ n, (List.replicate n 0).foldlM updateCRC16 0 = some 0 := by
    intro n
    induction n with
    | zero => rfl
    | succ n ih =>
        have hzero : updateCRC16 0 0 = some 0 := by decide +kernel
        rw [List.replicate_succ, List.foldlM_cons, hzero]
        exact ih
  have hcrc : calCrc16 alteredPacket.payload = some 0x1021 := by
    have hlast : [1, 0, 0].foldlM updateCRC16 0 = some 0x1021 := by decide +kernel
    rw [calCrc16, alteredPacket, List.append_assoc, List.foldlM_append, hzeros,
      List.cons_append, List.nil_append, Option.bind_eq_bind, Option.bind_some, hlast]
  have htrailer : crcTrailer alteredPacket.payload = some [16, 33] := by
    rw [crcTrailer, hcrc]
    decide
  rw [Packet.Intact, htrailer, alteredPacket]
  simp

/-- The name of a file `a` of 128 bytes comes in. -/
def nameTurn : Turn where
  rx := shortPacket 0 ([97, 0, 49, 50, 56, 32] ++ List.replicate 122 0 ++ [57, 241])
  opened := true
  write := .full

def alteredTurn : Turn where
  rx := shortPacket 1 (alteredPacket.payload ++ alteredPacket.trailer)
  opened := true
  write := .full

/-- The altered packet is acknowledged, as the first one of the file. -/
theorem alteredPacket_acknowledged :
    ¬ymodem.AllTransitions Ymodem.ChecksCrc (.start true true) [nameTurn, alteredTurn] := by
  intro h
  have hname : (ymodem.exec (.start true true) [nameTurn]).map Ymodem.sent =
      some [ack, crc16] := by
    decide +kernel
  have hdata : (ymodem.exec (.start true true) ([nameTurn] ++ [alteredTurn])).map Ymodem.sent =
      some [ack, crc16, ack] := by
    decide +kernel
  obtain ⟨s, hs, hsent⟩ := Option.map_eq_some_iff.mp hname
  rw [Machine.exec_concat hs, Option.map_eq_some_iff] at hdata
  obtain ⟨s', hstep, hsent'⟩ := hdata
  have hlast : s.ChecksCrc alteredTurn s' := Machine.AllTransitions.last h hs hstep
  have hin : alteredPacket.ComesIn alteredTurn.rx := ⟨[], by decide +kernel⟩
  refine (hlast.damaged alteredPacket hin alteredPacket_not_intact).1 ?_
  rw [Ymodem.answer, hsent', hsent]
  decide

end TdPrinter
