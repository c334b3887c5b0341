import TdPrinter.Ymodem.Receive

/-!
# Putting a file together

As long as `write` writes what it is given, the receiver loses no packet and takes none
twice: it accepts the packets whose number continues the sequence, and what is in the file
is what these packets carry, up to the announced size.  The number of accepted packets is
not bounded, while the number in a packet has eight bits.

An announced size is a length here, so it is not negative.  The receiver takes a negative
one for a very large number.
-/

namespace TdPrinter

/-- The file named last is open, and its transfer has not ended. -/
def Ymodem.InFile (s : Ymodem) : Prop :=
  s.returned = none ∧ s.fp = true ∧ s.packetsReceived ≠ 0

/-- The file is what the accepted packets carry; and these are the packets whose number
is that of the packets accepted before, the filename packet included. -/
structure Ymodem.Reassembles (s : Ymodem) : Prop where
  file : 0 ≤ s.announced → s.file = s.payloads.flatten.take s.announced.toNat
  count : s.InFile → s.packetsReceived = s.payloads.length + 1
  packets : s.InFile → ∀ t seq payload, t.write = .full → IsPacket t.rx seq payload →
    ∃ s', ymodem.step s t = some s' ∧ s'.InFile ∧
      if seq.toNat = (s.payloads.length + 1) % 256 then
        s'.payloads = s.payloads ++ [payload] ∧
          s'.packetsReceived = s.packetsReceived + 1 ∧ s'.sent = s.sent ++ [ack]
      else s'.payloads = s.payloads ∧ s'.packetsReceived = s.packetsReceived ∧
        s'.file = s.file ∧ s'.sent = s.sent ++ [nak]
  others : s.InFile → ∀ t, (∀ seq payload, ¬ IsPacket t.rx seq payload) →
    ∀ s', ymodem.step s t = some s' → s'.payloads = s.payloads ∧ s'.file = s.file

/-! ## The last packet -/

theorem lengthCalc_eq {fdSize packetLength : ℕ} {size : ℤ} (hsize : size < 2 ^ 31)
    (hfd : (fdSize : ℤ) ≤ size) (hlen : packetLength ≤ packet1kSize) :
    lengthCalc fdSize size packetLength = min packetLength (size.toNat - fdSize) := by
  have hwrap : wrap32 (size - fdSize) = size - fdSize := wrap32_of_bounds (by omega) (by omega)
  unfold packet1kSize at hlen
  have hleft : u32 (fdSize + packetLength) = fdSize + packetLength :=
    Int.emod_eq_of_lt (by omega) (by omega)
  have hright : u32 size = size := Int.emod_eq_of_lt (by omega) (by omega)
  rw [lengthCalc, hwrap, hleft, hright]
  split <;> omega

/-- What is in the file grows by what the packet carries of the rest. -/
theorem take_append_lengthCalc {flat payload file : List UInt8} {size : ℤ} (hpos : 0 ≤ size)
    (hsize : size < 2 ^ 31) (hfile : file = flat.take size.toNat)
    (hlen : payload.length ≤ packet1kSize) :
    file ++ payload.take (lengthCalc file.length size payload.length) =
      (flat ++ payload).take size.toNat := by
  have hfd : file.length = min size.toNat flat.length := by rw [hfile, List.length_take]
  rw [lengthCalc_eq hsize (by omega) hlen, List.take_append, ← hfile]
  congr 1
  by_cases hfull : flat.length ≤ size.toNat
  · rw [hfd, Nat.min_eq_right hfull, Nat.min_comm, ← List.take_take, List.take_length]
  · have hleft : size.toNat - flat.length = 0 := by omega
    have hrest : size.toNat - file.length = 0 := by omega
    rw [hleft, hrest, Nat.min_zero]

/-! ## The invariant -/

/-- What holds of a session in which every write succeeds. -/
structure Ymodem.Assembled (s : Ymodem) : Prop where
  running : s.returned = none → s.Running
  announced_eq : s.returned = none → s.announced = s.size
  announced_lt : s.announced < 2 ^ 31
  count : s.returned = none → s.packetsReceived ≠ 0 → s.packetsReceived = s.payloads.length + 1
  file : 0 ≤ s.announced → s.file = s.payloads.flatten.take s.announced.toNat

theorem IsPacket.length_le {rx : List (Option UInt8)} {seq : UInt8} {payload : List UInt8}
    (h : IsPacket rx seq payload) : payload.length ≤ packet1kSize := by
  obtain ⟨header, trailer, rest, ⟨_, hlen⟩ | ⟨_, hlen⟩, _⟩ := h
  · rw [hlen]
    decide
  · exact hlen.le

theorem atoi_lt (s : List UInt8) : atoi s < 2 ^ 31 :=
  max_lt (by decide) (min_lt_of_left_lt (by decide))

theorem start_assembled (uart packetData : Bool) : (Ymodem.start uart packetData).Assembled := by
  have hexit : ∀ s : Ymodem, s.announced = 0 → s.file = [] → s.payloads = [] →
      (s.exit .notStarted).Assembled := by
    intro s hannounced hfile hpayloads
    refine ⟨fun h => ?_, fun h => ?_, ?_, fun h => ?_, fun _ => ?_⟩
    · simp [Ymodem.exit] at h
    · simp [Ymodem.exit] at h
    · simp [Ymodem.exit, hannounced]
    · simp [Ymodem.exit] at h
    · simp [Ymodem.exit, hfile, hpayloads]
  unfold Ymodem.start
  cases uart with
  | false => exact hexit _ rfl rfl rfl
  | true =>
      cases packetData with
      | false => exact hexit _ rfl rfl rfl
      | true => exact ⟨fun _ => ⟨rfl, rfl, rfl⟩, fun _ => rfl, by simp, by simp, fun _ => rfl⟩

theorem dataPacket_full {s : Ymodem} (hfp : s.fp = true) (payload : List UInt8) :
    s.dataPacket payload .full =
      ({ s with
        file := s.file ++ payload.take (lengthCalc s.file.length s.size payload.length)
        payloads := s.payloads ++ [payload] }.send [ack]).accept := by
  simp [Ymodem.dataPacket, hfp, DfsWrite.count]

/-- A data packet for a file that could not be opened. -/
theorem dataPacket_closed {s : Ymodem} (hfp : s.fp = false) (payload : List UInt8)
    (write : DfsWrite) : s.dataPacket payload write =
      ({ s with size := -2 }.send [ca, ca]).exit .writeFailure := by
  simp [Ymodem.dataPacket, hfp]

/-- The end of a session changes nothing of what is in the file. -/
theorem Ymodem.Assembled.exit {s : Ymodem} (h : s.Assembled) {r : Ymodem} (ending : Ending)
    (hannounced : r.announced = s.announced) (hfile : r.file = s.file)
    (hpayloads : r.payloads = s.payloads) : (r.exit ending).Assembled := by
  refine ⟨fun hr => ?_, fun hr => ?_, ?_, fun hr => ?_, fun hpos => ?_⟩
  · simp [Ymodem.exit] at hr
  · simp [Ymodem.exit] at hr
  · exact hannounced ▸ h.announced_lt
  · simp [Ymodem.exit] at hr
  · change r.file = r.payloads.flatten.take r.announced.toNat
    rw [hfile, hpayloads, hannounced]
    exact h.file (hannounced ▸ hpos)

/-- A pass in which `write` writes everything keeps the invariant. -/
theorem Ymodem.Assembled.pass {s s' : Ymodem} {t : Turn} (h : s.Assembled)
    (hrun : s.Running) (hfull : t.write = .full) (hpass : s.Pass t s') : s'.Assembled := by
  cases hpass with
  | outOfSequence _ _ =>
      exact ⟨fun _ => ⟨hrun.returned, hrun.fileDone, hrun.sessionDone⟩, h.announced_eq,
        h.announced_lt, h.count, h.file⟩
  | fileName body _ _ hzero _ =>
      refine ⟨fun _ => ⟨hrun.returned, hrun.fileDone, hrun.sessionDone⟩, fun _ => rfl,
        atoi_lt _, fun _ _ => ?_, fun _ => ?_⟩
      · change s.packetsReceived + 1 = 0 + 1
        rw [hzero]
      · exact (List.take_nil).symm
  | emptyName _ _ _ _ => exact h.exit _ rfl rfl rfl
  | @data seq payload hp _ hnonzero =>
      by_cases hfp : s.fp = true
      · rw [hfull, dataPacket_full (s := { s with errors := 0 }) hfp]
        have hannounced := h.announced_eq hrun.returned
        refine ⟨fun _ => ⟨hrun.returned, hrun.fileDone, hrun.sessionDone⟩, h.announced_eq,
          h.announced_lt, fun _ _ => ?_, fun hpos => ?_⟩
        · change s.packetsReceived + 1 = (s.payloads ++ [payload]).length + 1
          rw [h.count hrun.returned hnonzero, List.length_append, List.length_singleton]
        · change s.file ++ payload.take (lengthCalc s.file.length s.size payload.length) =
            (s.payloads ++ [payload]).flatten.take s.announced.toNat
          have hpos : 0 ≤ s.announced := hpos
          rw [← hannounced,
            take_append_lengthCalc hpos h.announced_lt (h.file hpos) hp.length_le]
          simp
      · rw [dataPacket_closed (s := { s with errors := 0 }) (Bool.eq_false_iff.mpr hfp)]
        exact h.exit _ rfl rfl rfl
  | endOfTransmission _ _ =>
      refine ⟨fun _ => ⟨hrun.returned, hrun.fileDone, hrun.sessionDone⟩, h.announced_eq,
        h.announced_lt, fun _ hne => ?_, h.file⟩
      exact absurd rfl hne
  | abortBySender _ _ => exact h.exit _ rfl rfl rfl
  | abortByUser _ => exact h.exit _ rfl rfl rfl
  | error _ _ _ =>
      exact ⟨fun _ => ⟨hrun.returned, hrun.fileDone, hrun.sessionDone⟩, h.announced_eq,
        h.announced_lt, h.count, h.file⟩
  | errorLimit _ _ _ => exact h.exit _ rfl rfl rfl

/-! ## Sessions -/

theorem Ymodem.Assembled.packet {s : Ymodem} (h : s.Assembled) (hfile : s.InFile) {t : Turn}
    {seq : UInt8} {payload : List UInt8} (hfull : t.write = .full)
    (hp : IsPacket t.rx seq payload) :
    ∃ s', ymodem.step s t = some s' ∧ s'.InFile ∧
      if seq.toNat = (s.payloads.length + 1) % 256 then
        s'.payloads = s.payloads ++ [payload] ∧
          s'.packetsReceived = s.packetsReceived + 1 ∧ s'.sent = s.sent ++ [ack]
      else s'.payloads = s.payloads ∧ s'.packetsReceived = s.packetsReceived ∧
        s'.file = s.file ∧ s'.sent = s.sent ++ [nak] := by
  obtain ⟨hreturned, hfp, hnonzero⟩ := hfile
  obtain ⟨hresult, hlen, hpos, _⟩ := receivePacket_of_isPacket hp
  have hcount := h.count hreturned hnonzero
  have hstep : ymodem.step s t = some (s.turn t).loopEnd := if_pos hreturned
  refine ⟨_, hstep, ?_⟩
  rw [← hcount]
  generalize (s.turn t).loopEnd = s' at hstep
  cases step_pass (h.running hreturned) hstep with
  | outOfSequence hp' hseq =>
      obtain ⟨rfl, rfl⟩ := hp.unique hp'
      rw [if_neg hseq]
      exact ⟨⟨hreturned, hfp, hnonzero⟩, rfl, rfl, rfl, rfl⟩
  | fileName body _ _ hzero _ => exact absurd hzero hnonzero
  | emptyName _ _ hzero _ => exact absurd hzero hnonzero
  | data hp' hseq _ =>
      obtain ⟨rfl, rfl⟩ := hp.unique hp'
      rw [if_pos hseq, hfull, dataPacket_full (s := { s with errors := 0 }) hfp]
      exact ⟨⟨hreturned, hfp, Nat.succ_ne_zero _⟩, rfl, rfl, rfl⟩
  | endOfTransmission hlength _ => omega
  | abortBySender hlength _ => omega
  | abortByUser huser => omega
  | error hne _ _ => exact absurd hresult hne
  | errorLimit hne _ _ => exact absurd hresult hne

theorem Ymodem.Assembled.other {s s' : Ymodem} (h : s.Assembled) (hreturned : s.returned = none)
    {t : Turn} (hnone : ∀ seq payload, ¬ IsPacket t.rx seq payload)
    (hstep : ymodem.step s t = some s') : s'.payloads = s.payloads ∧ s'.file = s.file := by
  cases step_pass (h.running hreturned) hstep with
  | outOfSequence hp _ => exact absurd hp (hnone _ _)
  | fileName body hp _ _ _ => exact absurd hp (hnone _ _)
  | emptyName hp _ _ _ => exact absurd hp (hnone _ _)
  | data hp _ _ => exact absurd hp (hnone _ _)
  | endOfTransmission _ _ => exact ⟨rfl, rfl⟩
  | abortBySender _ _ => exact ⟨rfl, rfl⟩
  | abortByUser _ => exact ⟨rfl, rfl⟩
  | error _ _ _ => exact ⟨rfl, rfl⟩
  | errorLimit _ _ _ => exact ⟨rfl, rfl⟩

theorem Ymodem.Assembled.reassembles {s : Ymodem} (h : s.Assembled) : s.Reassembles where
  file := h.file
  count hfile := h.count hfile.1 hfile.2.2
  packets hfile _ _ _ hfull hp := h.packet hfile hfull hp
  others hfile _ hnone _ hstep := h.other hfile.1 hnone hstep

/-- In a session in which every write succeeds, the file is at every moment what the
accepted packets carry, up to the announced size, and these are the packets that continue
the sequence. -/
theorem packets_reassembled (uart packetData : Bool) {turns : List Turn}
    (hfull : ∀ t ∈ turns, t.write = .full) :
    ymodem.Always Ymodem.Reassembles (.start uart packetData) turns := by
  have hkeep : ∀ s t s', Ymodem.Assembled s → ymodem.step s t = some s' → t.write = .full →
      Ymodem.Assembled s' := by
    intro s t s' h hstep hwrite
    have hreturned : s.returned = none := (Option.ite_none_right_eq_some.mp hstep).1
    have hrun := h.running hreturned
    exact h.pass hrun hwrite (step_pass hrun hstep)
  exact Machine.always_of_allSteps (fun _ h => h.reassembles) hkeep
    (start_assembled uart packetData)
    (Machine.allSteps_of_forall (fun t ht _ => hfull t ht) _)

/-- A file `a` of 100 bytes, its first packet twice, and `EOT`. -/
theorem packets_reassembled_twice :
    ymodem.Always Ymodem.Reassembles (.start true true)
      [⟨shortPacket 0 [97, 0, 49, 48, 48, 32], true, .full⟩, ⟨shortPacket 1 [1, 2, 3], true, .full⟩,
        ⟨shortPacket 1 [1, 2, 3], true, .full⟩, ⟨[some eot], true, .full⟩] :=
  packets_reassembled true true (by simp)

end TdPrinter
