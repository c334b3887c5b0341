import TdPrinter.Foundation.Arithmetic
import TdPrinter.Foundation.CString
import TdPrinter.Foundation.Machine
import TdPrinter.Ymodem.ReceivePacket

/-!
# The Ymodem receiver

A session transfers files one after the other.  A packet with the sequence number 0
names a file and announces its size; data packets follow, numbered modulo 256, and
`EOT` ends the file.  A packet 0 without a name ends the session.

`Ymodem_Receive` is a loop around `Receive_Packet`, and a `Turn` is what one pass meets:
the bytes that come in and how the calls of the file system end.  Files are opened by
truncating them, so the size of a file is the number of bytes written since.

`Ymodem.Pass` lists what a pass can do; the invariants of the sessions are derived from
it and not from the code.
-/

namespace TdPrinter

/-! ## The receiver -/

/-- `FILE_NAME_LENGTH`. -/
def fileNameLength : ℕ := 64
/-- `FILE_SIZE_LENGTH`. -/
def fileSizeLength : ℕ := 16
/-- `MAX_ERRORS`. -/
def maxErrors : ℕ := 500

/-- How a call of `write` ends. -/
inductive DfsWrite
  | failed
  | partly (n : ℕ)
  | full
  deriving DecidableEq

/-- The number of bytes written of `n`, if the call does not return a negative number. -/
def DfsWrite.count (n : ℕ) : DfsWrite → Option ℕ
  | .failed => none
  | .partly k => some (min k n)
  | .full => some n

/-- What one pass of the loop meets: the results of `Receive_Byte`, and those of `open` and
`write` if they are called. -/
structure Turn where
  rx : List (Option UInt8)
  opened : Bool
  write : DfsWrite

/-- Why `Ymodem_Receive` returns. -/
inductive Ending
  /-- there is no console or no memory -/
  | notStarted
  /-- the packet without a name -/
  | emptyName
  | abortBySender
  | abortByUser
  | writeFailure
  | errorLimit
  deriving DecidableEq

/-- The variables of `Ymodem_Receive`, and what has happened. -/
structure Ymodem where
  /-- `fp >= 0` -/
  fp : Bool
  fileName : List UInt8
  size : ℤ
  packetsReceived : ℕ
  fileDone : Bool
  sessionDone : Bool
  errors : ℕ
  sessionBegin : Bool
  /-- the bytes sent -/
  sent : List UInt8
  /-- the bytes written to the last file -/
  file : List UInt8
  /-- the data of the packets accepted for it -/
  payloads : List (List UInt8)
  /-- its announced size -/
  announced : ℤ
  returned : Option ℤ
  ending : Option Ending

/-- The name in the data of a filename packet. -/
def packetFileName (body : List UInt8) : List UInt8 :=
  (body.take fileNameLength).takeWhile (· ≠ 0)

/-- The size that follows the name, up to a space. -/
def packetFileSize (body : List UInt8) : List UInt8 :=
  ((body.drop ((packetFileName body).length + 1)).take fileSizeLength).takeWhile (· ≠ 32)

/-- The value of an integer as `rt_size_t`. -/
def u32 (x : ℤ) : ℤ := x % 4294967296

/-- `length_calc`.  The size of the file is an `rt_size_t`, so the comparison is one of
unsigned numbers. -/
def lengthCalc (fdSize : ℕ) (size : ℤ) (packetLength : ℕ) : ℕ :=
  if u32 (fdSize + packetLength) > u32 size then (wrap32 (size - fdSize)).toNat
  else packetLength

def Ymodem.send (s : Ymodem) (bytes : List UInt8) : Ymodem :=
  { s with sent := s.sent ++ bytes }

/-- `goto Ymodem_Receive_exit`. -/
def Ymodem.exit (s : Ymodem) (ending : Ending) : Ymodem :=
  { s with fp := false, returned := some s.size, ending := some ending }

def Ymodem.accept (s : Ymodem) : Ymodem :=
  { s with packetsReceived := s.packetsReceived + 1, sessionBegin := true }

def Ymodem.fileNamePacket (s : Ymodem) (body : List UInt8) (opened : Bool) : Ymodem :=
  ({ s with
    fileName := packetFileName body
    size := atoi (packetFileSize body)
    fp := opened
    file := []
    payloads := []
    announced := atoi (packetFileSize body) }.send
      (if opened then [ack, crc16] else [ca, ca])).accept

/-- A data packet.  Without an open file `write` fails. -/
def Ymodem.dataPacket (s : Ymodem) (payload : List UInt8) (write : DfsWrite) : Ymodem :=
  match (if s.fp then write.count (lengthCalc s.file.length s.size payload.length) else none) with
  | none => ({ s with size := -2 }.send [ca, ca]).exit .writeFailure
  | some n =>
      ({ s with
        file := s.file ++ payload.take n
        payloads := s.payloads ++ [payload] }.send [ack]).accept

def Ymodem.normalPacket (s : Ymodem) (p : PacketResult) (t : Turn) : Ymodem :=
  let body := p.data.drop packetHeader
  if (p.data.getD packetSeqnoIndex 0).toNat ≠ s.packetsReceived % 256 then s.send [nak]
  else if s.packetsReceived = 0 then
    if body.getD 0 0 ≠ 0 then s.fileNamePacket body t.opened
    else { s with fileDone := true, sessionDone := true, errors := 0, fp := false }.send [ack]
  else s.dataPacket (body.take p.length.toNat) t.write

/-- The `switch` in the loop. -/
def Ymodem.turn (s : Ymodem) (t : Turn) : Ymodem :=
  let p := receivePacket t.rx
  if p.result = 0 then
    let s := { s with errors := 0 }
    if p.length = -1 then ({ s with size := 0 }.send [ack]).exit .abortBySender
    else if p.length = 0 then { s with fileDone := true }.send [ack]
    else s.normalPacket p t
  else if p.result = 1 then ({ s with size := -3 }.send [ca, ca]).exit .abortByUser
  else
    let s := { s with errors := if s.sessionBegin then s.errors + 1 else s.errors }
    if s.errors > maxErrors then (s.send [ca, ca]).exit .errorLimit else s.send [crc16]

def Ymodem.loopEnd (s : Ymodem) : Ymodem :=
  if s.returned.isSome then s
  else if s.fileDone then
    if s.sessionDone then s.exit .emptyName
    else { s with packetsReceived := 0, fileDone := false }
  else s

/-- `Ymodem_Receive` as a machine. -/
def ymodem : Machine Ymodem Turn :=
  ⟨fun s t => if s.returned = none then some (s.turn t).loopEnd else none⟩

/-- The beginning of `Ymodem_Receive`, with a console and memory for the packets or
without. -/
def Ymodem.start (uart packetData : Bool) : Ymodem :=
  let s : Ymodem :=
    { fp := false
      fileName := []
      size := 0
      packetsReceived := 0
      fileDone := false
      sessionDone := false
      errors := 0
      sessionBegin := false
      sent := []
      file := []
      payloads := []
      announced := 0
      returned := none
      ending := none }
  if !uart then { s with size := -10 }.exit .notStarted
  else if !packetData then s.exit .notStarted
  else s

/-! ## What a pass can do -/

theorem IsPacket.unique {rx : List (Option UInt8)} {seq seq' : UInt8}
    {payload payload' : List UInt8} (h : IsPacket rx seq payload) (h' : IsPacket rx seq' payload') :
    seq = seq' ∧ payload = payload' := by
  obtain ⟨_, hlen, _, hseq, hpayload⟩ := receivePacket_of_isPacket h
  obtain ⟨_, hlen', _, hseq', hpayload'⟩ := receivePacket_of_isPacket h'
  have hsame : payload.length = payload'.length := by
    rw [hlen] at hlen'
    exact_mod_cast hlen'
  refine ⟨hseq.symm.trans hseq', ?_⟩
  rw [← hpayload, ← hpayload', hsame]

/-- `Pass s t s'`: a pass of the loop leads from `s` to `s'`. -/
inductive Ymodem.Pass (s : Ymodem) (t : Turn) : Ymodem → Prop
  /-- a packet out of sequence -/
  | outOfSequence {seq : UInt8} {payload : List UInt8} : IsPacket t.rx seq payload →
      seq.toNat ≠ s.packetsReceived % 256 → Pass s t ({ s with errors := 0 }.send [nak])
  | fileName {seq : UInt8} {payload : List UInt8} (body : List UInt8) : IsPacket t.rx seq payload →
      seq.toNat = s.packetsReceived % 256 → s.packetsReceived = 0 → payload.head? ≠ some 0 →
      Pass s t ({ s with errors := 0 }.fileNamePacket body t.opened)
  | emptyName {seq : UInt8} {payload : List UInt8} : IsPacket t.rx seq payload →
      seq.toNat = s.packetsReceived % 256 → s.packetsReceived = 0 → payload.head? = some 0 →
      Pass s t (({ s with fileDone := true, sessionDone := true, errors := 0 }.send [ack]).exit
        .emptyName)
  | data {seq : UInt8} {payload : List UInt8} : IsPacket t.rx seq payload →
      seq.toNat = s.packetsReceived % 256 → s.packetsReceived ≠ 0 →
      Pass s t ({ s with errors := 0 }.dataPacket payload t.write)
  | endOfTransmission : (receivePacket t.rx).length = 0 → (receivePacket t.rx).result = 0 →
      Pass s t ({ s with errors := 0, packetsReceived := 0 }.send [ack])
  | abortBySender : (receivePacket t.rx).length = -1 → (receivePacket t.rx).result = 0 →
      Pass s t (({ s with errors := 0, size := 0 }.send [ack]).exit .abortBySender)
  | abortByUser : (receivePacket t.rx).result = 1 →
      Pass s t (({ s with size := -3 }.send [ca, ca]).exit .abortByUser)
  | error : (receivePacket t.rx).result ≠ 0 → (receivePacket t.rx).result ≠ 1 →
      (if s.sessionBegin then s.errors + 1 else s.errors) ≤ maxErrors →
      Pass s t
        ({ s with errors := if s.sessionBegin then s.errors + 1 else s.errors }.send [crc16])
  | errorLimit : (receivePacket t.rx).result ≠ 0 → (receivePacket t.rx).result ≠ 1 →
      (if s.sessionBegin then s.errors + 1 else s.errors) > maxErrors →
      Pass s t (({ s with errors := if s.sessionBegin then s.errors + 1 else s.errors }.send
        [ca, ca]).exit .errorLimit)

/-- The receiver is in its loop: the flags that end it are not set. -/
structure Ymodem.Running (s : Ymodem) : Prop where
  returned : s.returned = none
  fileDone : s.fileDone = false
  sessionDone : s.sessionDone = false

theorem Ymodem.Running.loopEnd {s : Ymodem} (h : s.Running) {r : Ymodem}
    (hr : r.fileDone = s.fileDone) : r.loopEnd = r := by
  unfold Ymodem.loopEnd
  split
  · rfl
  · rw [hr, h.fileDone]
    rfl

theorem normalPacket_pass {s : Ymodem} {t : Turn} (hrun : s.Running) {seq : UInt8}
    {payload : List UInt8} (hp : IsPacket t.rx seq payload) :
    s.Pass t ({ s with errors := 0 }.normalPacket (receivePacket t.rx) t).loopEnd := by
  obtain ⟨_, hlen, hpos, hseq, hpayload⟩ := receivePacket_of_isPacket hp
  have hname := body_head hp
  obtain ⟨b, rest, rfl⟩ := List.exists_cons_of_length_pos hpos
  unfold Ymodem.normalPacket
  simp only [hseq, hname, hlen, Int.toNat_natCast, hpayload]
  by_cases hseqno : seq.toNat = s.packetsReceived % 256
  · rw [if_neg (not_not.mpr hseqno)]
    by_cases hzero : s.packetsReceived = 0
    · rw [if_pos hzero]
      by_cases hb : b = 0
      · rw [if_neg (by simpa using hb)]
        have hend : (Ymodem.send { s with
              fileDone := true, sessionDone := true, errors := 0, fp := false } [ack]).loopEnd =
            (Ymodem.send { s with fileDone := true, sessionDone := true, errors := 0 }
              [ack]).exit .emptyName := by
          simp [Ymodem.loopEnd, Ymodem.send, Ymodem.exit, hrun.returned]
        rw [hend]
        exact .emptyName hp hseqno hzero (by simp [hb])
      · rw [if_pos (by simpa using hb), hrun.loopEnd]
        · exact .fileName _ hp hseqno hzero (by simp [hb])
        · rfl
    · rw [if_neg hzero]
      have hloop : ({ s with errors := 0 }.dataPacket (b :: rest) t.write).loopEnd =
          { s with errors := 0 }.dataPacket (b :: rest) t.write := by
        unfold Ymodem.dataPacket
        split
        · rfl
        · exact hrun.loopEnd rfl
      rw [hloop]
      exact .data hp hseqno hzero
  · rw [if_pos hseqno, hrun.loopEnd]
    · exact .outOfSequence hp hseqno
    · rfl

theorem step_pass {s s' : Ymodem} {t : Turn} (hrun : s.Running)
    (hstep : ymodem.step s t = some s') : s.Pass t s' := by
  obtain rfl : (s.turn t).loopEnd = s' := by simpa [ymodem, hrun.returned] using hstep
  unfold Ymodem.turn
  by_cases hresult : (receivePacket t.rx).result = 0
  · simp only [hresult, if_true]
    by_cases habort : (receivePacket t.rx).length = -1
    · simp only [habort, if_true]
      exact .abortBySender habort hresult
    · simp only [habort, if_false]
      by_cases hlength : (receivePacket t.rx).length = 0
      · simp only [hlength, if_true]
        have hend : (Ymodem.send { s with errors := 0, fileDone := true } [ack]).loopEnd =
            Ymodem.send { s with errors := 0, packetsReceived := 0 } [ack] := by
          simp [Ymodem.loopEnd, Ymodem.send, hrun.returned, hrun.sessionDone, hrun.fileDone]
        rw [hend]
        exact .endOfTransmission hlength hresult
      · simp only [hlength, if_false]
        obtain ⟨seq, payload, hp⟩ := isPacket_of_receivePacket hresult habort hlength
        exact normalPacket_pass hrun hp
  · simp only [hresult, if_false]
    by_cases huser : (receivePacket t.rx).result = 1
    · simp only [huser, if_true]
      exact .abortByUser huser
    · simp only [huser, if_false]
      by_cases hlimit : (if s.sessionBegin then s.errors + 1 else s.errors) > maxErrors
      · rw [if_pos hlimit]
        exact .errorLimit hresult huser hlimit
      · rw [if_neg hlimit, hrun.loopEnd]
        · exact .error hresult huser (Nat.not_lt.mp hlimit)
        · rfl

theorem pass_running {s s' : Ymodem} {t : Turn} (hrun : s.Running)
    (hannounced : s.announced = s.size) (hpass : s.Pass t s') (hreturned : s'.returned = none) :
    s'.Running ∧ s'.announced = s'.size := by
  cases hpass with
  | outOfSequence _ _ =>
      exact ⟨⟨hreturned, hrun.fileDone, hrun.sessionDone⟩, hannounced⟩
  | fileName _ _ _ _ _ => exact ⟨⟨hreturned, hrun.fileDone, hrun.sessionDone⟩, rfl⟩
  | emptyName _ _ _ _ => simp [Ymodem.exit] at hreturned
  | @data seq payload _ _ _ =>
      revert hreturned
      unfold Ymodem.dataPacket
      split
      · intro hreturned
        simp [Ymodem.exit] at hreturned
      · exact fun hreturned => ⟨⟨hreturned, hrun.fileDone, hrun.sessionDone⟩, hannounced⟩
  | endOfTransmission _ _ =>
      exact ⟨⟨hreturned, hrun.fileDone, hrun.sessionDone⟩, hannounced⟩
  | abortBySender _ _ => simp [Ymodem.exit] at hreturned
  | abortByUser _ => simp [Ymodem.exit] at hreturned
  | error _ _ _ => exact ⟨⟨hreturned, hrun.fileDone, hrun.sessionDone⟩, hannounced⟩
  | errorLimit _ _ _ => simp [Ymodem.exit] at hreturned

theorem start_running (uart packetData : Bool)
    (h : (Ymodem.start uart packetData).returned = none) :
    (Ymodem.start uart packetData).Running ∧
      (Ymodem.start uart packetData).announced = (Ymodem.start uart packetData).size := by
  cases uart with
  | false => simp [Ymodem.start, Ymodem.exit] at h
  | true =>
      cases packetData with
      | false => simp [Ymodem.start, Ymodem.exit] at h
      | true => exact ⟨⟨rfl, rfl, rfl⟩, rfl⟩

end TdPrinter
