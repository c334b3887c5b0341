import TdPrinter.Foundation.Arithmetic
import TdPrinter.Foundation.CString
import TdPrinter.Foundation.Machine
import TdPrinter.GCode.Processor
import TdPrinter.Heater.SubBoard

/-!
# Frames for the sub-board

`sendData` tells the sub-board in turn the duty of the model fan, the duty of the extruder fan
and the target temperature.  Byte 2 of a frame is 0 or 1 for the fans; for the temperature
it is the high byte of the target, which is raised by 512 to stay clear of 0 and 1.

The sum is 16 bits wide and no setter looks at its argument: a target of 65024 or more
comes around and goes out as the frame of a fan.  A duty is scaled by `fanrate`, which goes up
to 3, and loses what does not fit the byte.  `unambiguous_iff` says that nothing else
goes wrong.
-/

namespace TdPrinter

/-! ## The driver -/

/-- The static variables of `app_subboard.c` and those of the fan page in
`screen_config_sub.c`. -/
structure FrameDriver (R : Type*) where
  board : SubBoard
  counter : ℕ
  txBuf : Fin 5 → UInt8
  fanrate : R
  fanLocker : Bool
  bkfan1 : UInt8
  bkfan2 : UInt8

def FrameDriver.boot {R : Type*} [One R] : FrameDriver R :=
  ⟨.boot, 0, ![0x55, 0xAA, 0, 0, 0], 1, false, 0, 0⟩

def fillFrame (txBuf : Fin 5 → UInt8) (b₂ b₃ : UInt8) : Fin 5 → UInt8 :=
  Function.update (Function.update txBuf 2 b₂) 3 b₃

section

variable {R : Type*} [Field R] [LinearOrder R] [FloorRing R]

omit [LinearOrder R] [FloorRing R] in
def scaledDuty (fan : UInt8) (fanrate : R) : R := fan.toNat * fanrate

/-- The `switch` of `sendData`. -/
def sendDataFill (s : FrameDriver R) : Fin 5 → UInt8 :=
  match s.counter with
  | 0 => fillFrame s.txBuf 0 (UInt8.ofInt ⌊scaledDuty s.board.fan1 s.fanrate⌋)
  | 1 => fillFrame s.txBuf 1 (UInt8.ofInt ⌊scaledDuty s.board.fan2 s.fanrate⌋)
  | 2 =>
      let temp := s.board.temperDst + 512
      fillFrame s.txBuf (temp >>> 8).toUInt8 (temp &&& 0x00FF).toUInt8
  | _ => s.txBuf

/-- `sendData`; the frame is what it leaves in `txBuf`. -/
def sendData (s : FrameDriver R) : FrameDriver R :=
  let txBuf := sendDataFill s
  let txBuf := Function.update txBuf 4 (txBuf 2 + txBuf 3)
  let txBuf := Function.update txBuf 4 (~~~(txBuf 4) + 1)
  { s with txBuf := txBuf, counter := if s.counter + 1 > 2 then 0 else s.counter + 1 }

/-- `processLine` of `app_subboard.c`; a `p` line only sets the pressure. -/
def sboardProcessLine (s : FrameDriver R) (line : List UInt8) : FrameDriver R :=
  -- 't'
  if line.head? = some 116 then
    let temper := atoi line.tail
    let s := sendData { s with board := { s.board with temper := temper } }
    { s with
      board :=
        sboardSetFan2 s.board
          (if temper > 200 then 220 else if temper > 70 then UInt8.ofInt temper else 60) }
  else s

/-! ## The fan page -/

omit [LinearOrder R] [FloorRing R] in
/-- `fanLock`. -/
def fanLock (s : FrameDriver R) : FrameDriver R :=
  if s.fanLocker then
    { s with
      fanLocker := false
      board := sboardSetFan2 (sboardSetFan1 s.board s.bkfan1) s.bkfan2
      fanrate := 1 }
  else { s with fanLocker := true, bkfan1 := s.board.fan1, bkfan2 := s.board.fan2 }

omit [Field R] [LinearOrder R] [FloorRing R] in
/-- `enableFan1`. -/
def enableFan1 (s : FrameDriver R) : FrameDriver R :=
  if s.fanLocker then
    { s with board := sboardSetFan1 s.board (if s.board.fan1 = 0 then 120 else 0) }
  else s

omit [FloorRing R] in
/-- `fanrateinc`. -/
def fanrateinc (s : FrameDriver R) : FrameDriver R :=
  if s.fanLocker then { s with fanrate := min (s.fanrate + 1 / 10) 3 } else s

omit [FloorRing R] in
/-- `fanratedec`. -/
def fanratedec (s : FrameDriver R) : FrameDriver R :=
  if s.fanLocker then { s with fanrate := max (s.fanrate - 1 / 10) (1 / 5) } else s

/-! ## All orders of settings and frames -/

/-- What can happen: the commands of a print with their `S` words, the setters for the rest of
the firmware, the fan page, and the two places that send. -/
inductive FrameAction
  | m104 (s : Option ℤ)
  | m106 (s : Option ℤ)
  | m107
  | m109 (s : Option ℤ)
  | setTemper (temper : UInt16)
  | setLock (lock : UInt8)
  | setFan (fan : UInt8)
  | setFan1 (fan : UInt8)
  | setFan2 (fan : UInt8)
  | fanLock
  | enableFan1
  | fanrateinc
  | fanratedec
  | idleSend
  | line (line : List UInt8)

def FrameDriver.step (s : FrameDriver R) : FrameAction → FrameDriver R
  | .m104 t => { s with board := sboardSetTemper s.board (t.elim 0 UInt16.ofInt) }
  | .m106 fan => { s with board := sboardSetFan1 s.board (fan.elim 80 UInt8.ofInt) }
  | .m107 => { s with board := sboardSetFan1 s.board 0 }
  | .m109 t =>
      { s with board := t.elim s.board fun t => sboardSetTemper s.board (UInt16.ofInt t) }
  | .setTemper t => { s with board := sboardSetTemper s.board t }
  | .setLock lock => { s with board := sboardSetLock s.board lock }
  | .setFan fan => { s with board := sboardSetFan s.board fan }
  | .setFan1 fan => { s with board := sboardSetFan1 s.board fan }
  | .setFan2 fan => { s with board := sboardSetFan2 s.board fan }
  | .fanLock => TdPrinter.fanLock s
  | .enableFan1 => TdPrinter.enableFan1 s
  | .fanrateinc => TdPrinter.fanrateinc s
  | .fanratedec => TdPrinter.fanratedec s
  | .idleSend => sendData s
  | .line l => sboardProcessLine s l

variable (R) in
def frameMachine : Machine (FrameDriver R) FrameAction := ⟨fun s a => some (s.step a)⟩

/-! ## The commands of a print -/

omit [Field R] [LinearOrder R] [FloorRing R] in
/-- What a call of the command processor does to the driver. -/
def FrameDriver.call (s : FrameDriver R) : GCodeCall R → FrameDriver R
  | .setTemper t => { s with board := sboardSetTemper s.board t }
  | .setFan1 fan => { s with board := sboardSetFan1 s.board fan }
  | _ => s

omit [Field R] [LinearOrder R] [FloorRing R] in
/-- The action that an M command is to the driver. -/
def MCase.frameAction (g : StepGCode R) : MCase → Option FrameAction
  | .m104 => some (.m104 (readS g).2)
  | .m106 => some (.m106 (readS g).2)
  | .m107 => some .m107
  | .m109 => some (.m109 (readS g).2)
  | _ => none

theorem MCase.run_frameAction (s : FrameDriver R) {env : Surroundings R} {param : Param R}
    {g : StepGCode R} {c : MCase} {o : Outcome R} (h : c.run env param g = some o) :
    o.calls.foldl FrameDriver.call s = ((c.frameAction g).map s.step).getD s := by
  cases c with
  | m109 =>
      obtain rfl := Option.some.inj h
      dsimp only [MCase.frameAction]
      cases (readS g).2 <;> rfl
  | m10 | m11 | m12 | m591 | m801 | m802 | m803 | m804 | m805 | m806 | m807 | m808 | m809 | m810 =>
      obtain ⟨_, -, rfl⟩ := Option.map_eq_some_iff.mp h
      rfl
  | _ =>
      obtain rfl := Option.some.inj h
      rfl

omit [LinearOrder R] [FloorRing R] in
theorem GCase.run_frameAction (s : FrameDriver R) {param : Param R} {g : StepGCode R} {c : GCase}
    {o : Outcome R} (h : c.run param g = some o) : o.calls.foldl FrameDriver.call s = s := by
  cases c with
  | g0 | g1 | g28 | g92 =>
      obtain ⟨_, -, rfl⟩ := Option.map_eq_some_iff.mp h
      rfl
  | _ =>
      obtain rfl := Option.some.inj h
      rfl

/-- A command line is one action of the driver, or none. -/
theorem processor_frameAction (s : FrameDriver R) {env : Surroundings R} {param : Param R}
    {g : StepGCode R} {o : Outcome R} (h : stepGCodeProcessorRun env param g = some o) :
    o.calls.foldl FrameDriver.call s = s ∨
      ∃ a : FrameAction, o.calls.foldl FrameDriver.call s = s.step a := by
  unfold stepGCodeProcessorRun at h
  split at h
  · exact .inl (GCase.run_frameAction s h)
  · rename_i g' c _
    rw [MCase.run_frameAction s h]
    cases c.frameAction g' with
    | none => exact .inl rfl
    | some a => exact .inr ⟨a, rfl⟩
  · obtain rfl := Option.some.inj h
    exact .inl rfl

def FrameAction.Sends : FrameAction → Prop
  | .idleSend => True
  | .line l => l.head? = some 116
  | _ => False

/-! ## The receiver -/

inductive SubMessage
  | fan1 (duty : ℤ)
  | fan2 (duty : ℤ)
  | temper (target : ℤ)

def readFrame (frame : Fin 5 → UInt8) : SubMessage :=
  if frame 2 = 0 then .fan1 (frame 3).toNat
  else if frame 2 = 1 then .fan2 (frame 3).toNat
  else .temper (256 * (frame 2).toNat + (frame 3).toNat - 512)

def FrameDriver.message (s : FrameDriver R) : SubMessage :=
  match s.counter with
  | 0 => .fan1 ⌊scaledDuty s.board.fan1 s.fanrate⌋
  | 1 => .fan2 ⌊scaledDuty s.board.fan2 s.fanrate⌋
  | _ => .temper s.board.temperDst.toNat

def ChecksumZero (frame : Fin 5 → UInt8) : Prop :=
  ((frame 2).toNat + (frame 3).toNat + (frame 4).toNat) % 256 = 0

/-- The frame of a step that sends one is sound and says what was to be sent. -/
def FrameDriver.Recovered (s : FrameDriver R) (a : FrameAction) (t : FrameDriver R) : Prop :=
  a.Sends → ChecksumZero t.txBuf ∧ readFrame t.txBuf = s.message

omit [FloorRing R] in
/-- What is to be sent next fits its frame. -/
def FrameDriver.MessageFits (s : FrameDriver R) : Prop :=
  match s.counter with
  | 0 => scaledDuty s.board.fan1 s.fanrate < 256
  | 1 => scaledDuty s.board.fan2 s.fanrate < 256
  | _ => s.board.temperDst < 65024

omit [FloorRing R] in
def FrameDriver.Fits (s : FrameDriver R) (a : FrameAction) : Prop :=
  a.Sends → s.MessageFits

instance : DecidablePred FrameAction.Sends := fun a =>
  match a with
  | .idleSend => isTrue trivial
  | .line l => inferInstanceAs (Decidable (l.head? = some 116))
  | .m104 _ | .m106 _ | .m107 | .m109 _ | .setTemper _ | .setLock _ | .setFan _ | .setFan1 _
  | .setFan2 _ | .fanLock | .enableFan1 | .fanrateinc | .fanratedec => isFalse id

omit [FloorRing R] in
instance (s : FrameDriver R) : Decidable s.MessageFits :=
  match hs : s.counter with
  | 0 => decidable_of_iff (scaledDuty s.board.fan1 s.fanrate < 256) (by
      simp [FrameDriver.MessageFits, hs])
  | 1 => decidable_of_iff (scaledDuty s.board.fan2 s.fanrate < 256) (by
      simp [FrameDriver.MessageFits, hs])
  | _ + 2 => decidable_of_iff (s.board.temperDst < 65024) (by
      simp [FrameDriver.MessageFits, hs])

omit [FloorRing R] in
instance (s : FrameDriver R) (a : FrameAction) : Decidable (s.Fits a) :=
  inferInstanceAs (Decidable (a.Sends → s.MessageFits))

/-! ## One frame -/

@[simp] theorem fillFrame_two (txBuf : Fin 5 → UInt8) (b₂ b₃ : UInt8) :
    fillFrame txBuf b₂ b₃ 2 = b₂ := by
  simp [fillFrame]

@[simp] theorem fillFrame_three (txBuf : Fin 5 → UInt8) (b₂ b₃ : UInt8) :
    fillFrame txBuf b₂ b₃ 3 = b₃ := by
  simp [fillFrame]

theorem sendData_two (s : FrameDriver R) : (sendData s).txBuf 2 = sendDataFill s 2 := by
  simp [sendData]

theorem sendData_three (s : FrameDriver R) : (sendData s).txBuf 3 = sendDataFill s 3 := by
  simp [sendData]

theorem sendData_checksumZero (s : FrameDriver R) : ChecksumZero (sendData s).txBuf := by
  have hfour : (sendData s).txBuf 4 = ~~~(sendDataFill s 2 + sendDataFill s 3) + 1 := by
    simp [sendData]
  have hsum : sendDataFill s 2 + sendDataFill s 3 +
      (~~~(sendDataFill s 2 + sendDataFill s 3) + 1) = 0 := by
    rw [← UInt8.neg_eq_not_add, UInt8.add_right_neg]
  have hnat := congrArg UInt8.toNat hsum
  rw [UInt8.toNat_add, UInt8.toNat_add] at hnat
  rw [ChecksumZero, sendData_two, sendData_three, hfour]
  change _ = 0 at hnat
  omega

theorem toNat_ofInt_eq_iff {n : ℤ} (hn : 0 ≤ n) :
    ((UInt8.ofInt n).toNat : ℤ) = n ↔ n < 256 := by
  have hbyte : (UInt8.ofInt n).toNat = (n % 256).toNat % 256 := rfl
  rw [hbyte]
  omega

/-- The two bytes of a target hold its sum with 512 modulo 65536. -/
theorem temp_bytes (t : UInt16) :
    256 * ((t + 512) >>> 8).toUInt8.toNat + ((t + 512) &&& 0x00FF).toUInt8.toNat =
      (t.toNat + 512) % 65536 := by
  have hsum : (t + 512).toNat = (t.toNat + 512) % 65536 := UInt16.toNat_add t 512
  have hhigh : ((t + 512) >>> 8).toUInt8.toNat = (t + 512).toNat / 256 % 256 := by
    rw [UInt16.toNat_toUInt8, UInt16.toNat_shiftRight]
    simp [Nat.shiftRight_eq_div_pow]
  have hlow : ((t + 512) &&& 0x00FF).toUInt8.toNat = (t + 512).toNat % 256 := by
    rw [UInt16.toNat_toUInt8, UInt16.toNat_and]
    have hmask : (t + 512).toNat &&& (0x00FF : UInt16).toNat = (t + 512).toNat % 256 :=
      Nat.and_two_pow_sub_one_eq_mod _ 8
    rw [hmask]
    simp
  omega

/-- The high byte of a target that does not come around is none of the tags. -/
theorem readFrame_target_iff {frame : Fin 5 → UInt8} {t : UInt16}
    (h₂ : frame 2 = ((t + 512) >>> 8).toUInt8) (h₃ : frame 3 = ((t + 512) &&& 0x00FF).toUInt8) :
    readFrame frame = .temper t.toNat ↔ t < 65024 := by
  have hbytes := temp_bytes t
  rw [← h₂, ← h₃] at hbytes
  have ht : t.toNat < 65536 := t.toNat_lt
  have hlow : (frame 3).toNat < 256 := (frame 3).toNat_lt
  have hzero : frame 2 = 0 ↔ (frame 2).toNat = 0 := UInt8.toNat_inj.symm
  have hone : frame 2 = 1 ↔ (frame 2).toNat = 1 := UInt8.toNat_inj.symm
  rw [UInt16.lt_iff_toNat_lt, readFrame]
  change _ ↔ t.toNat < 65024
  split
  · rename_i htag
    have htag := hzero.mp htag
    simp only [reduceCtorEq, false_iff]
    omega
  · rename_i hne
    have hne := mt hzero.mpr hne
    split
    · rename_i htag
      have htag := hone.mp htag
      simp only [reduceCtorEq, false_iff]
      omega
    · rename_i hne'
      have hne' := mt hone.mpr hne'
      rw [SubMessage.temper.injEq]
      omega

section

variable [IsStrictOrderedRing R]

/-- The rotation is at one of its three frames, and no duty is negative. -/
structure FrameDriver.Ready (s : FrameDriver R) : Prop where
  counter_le : s.counter ≤ 2
  fanrate_nonneg : 0 ≤ s.fanrate

omit [FloorRing R] in
theorem FrameDriver.Ready.scaledDuty_nonneg {s : FrameDriver R} (h : s.Ready) (fan : UInt8) :
    0 ≤ scaledDuty fan s.fanrate :=
  mul_nonneg (Nat.cast_nonneg _) h.fanrate_nonneg

omit [IsStrictOrderedRing R] in
theorem duty_iff {x : R} (hx : 0 ≤ x) : ((UInt8.ofInt ⌊x⌋).toNat : ℤ) = ⌊x⌋ ↔ x < 256 := by
  rw [toNat_ofInt_eq_iff (Int.floor_nonneg.mpr hx), Int.floor_lt]
  norm_num

/-- A frame says what was to be sent exactly if that fits. -/
theorem readFrame_sendData_iff {s : FrameDriver R} (h : s.Ready) :
    readFrame (sendData s).txBuf = s.message ↔ s.MessageFits := by
  have h₂ := sendData_two s
  have h₃ := sendData_three s
  have hcounter : s.counter = 0 ∨ s.counter = 1 ∨ s.counter = 2 := by
    have hle := h.counter_le
    omega
  rcases hcounter with hzero | hone | htwo
  · simp only [sendDataFill, hzero, fillFrame_two, fillFrame_three] at h₂ h₃
    simp only [FrameDriver.message, FrameDriver.MessageFits, hzero]
    rw [readFrame, if_pos h₂, h₃, SubMessage.fan1.injEq]
    exact duty_iff (h.scaledDuty_nonneg _)
  · simp only [sendDataFill, hone, fillFrame_two, fillFrame_three] at h₂ h₃
    simp only [FrameDriver.message, FrameDriver.MessageFits, hone]
    rw [readFrame, if_neg (by rw [h₂]; decide), if_pos h₂, h₃, SubMessage.fan2.injEq]
    exact duty_iff (h.scaledDuty_nonneg _)
  · simp only [sendDataFill, htwo, fillFrame_two, fillFrame_three] at h₂ h₃
    simp only [FrameDriver.message, FrameDriver.MessageFits, htwo]
    exact readFrame_target_iff h₂ h₃

/-! ## Runs -/

omit [IsStrictOrderedRing R] in
theorem sendData_ready {s : FrameDriver R} (h : s.Ready) : (sendData s).Ready where
  counter_le := by
    show (if s.counter + 1 > 2 then 0 else s.counter + 1) ≤ 2
    split <;> omega
  fanrate_nonneg := h.fanrate_nonneg

omit [IsStrictOrderedRing R] in
theorem boot_ready : (FrameDriver.boot : FrameDriver R).Ready := ⟨Nat.zero_le _, zero_le_one⟩

/-- Every action leaves the rotation and the rate in order. -/
theorem FrameDriver.Ready.step {s : FrameDriver R} (h : s.Ready) (a : FrameAction) :
    (s.step a).Ready := by
  cases a with
  | idleSend => exact sendData_ready h
  | line l =>
      unfold FrameDriver.step sboardProcessLine
      dsimp only
      split
      · have hsent : (sendData { s with board := { s.board with temper := atoi l.tail } }).Ready :=
          sendData_ready ⟨h.counter_le, h.fanrate_nonneg⟩
        exact ⟨hsent.counter_le, hsent.fanrate_nonneg⟩
      · exact h
  | fanLock =>
      unfold FrameDriver.step TdPrinter.fanLock
      dsimp only
      split
      · exact ⟨h.counter_le, zero_le_one⟩
      · exact ⟨h.counter_le, h.fanrate_nonneg⟩
  | enableFan1 =>
      unfold FrameDriver.step TdPrinter.enableFan1
      dsimp only
      split
      · exact ⟨h.counter_le, h.fanrate_nonneg⟩
      · exact h
  | fanrateinc =>
      unfold FrameDriver.step TdPrinter.fanrateinc
      dsimp only
      split
      · have hrate : 0 ≤ s.fanrate + 1 / 10 := add_nonneg h.fanrate_nonneg (by norm_num)
        exact ⟨h.counter_le, le_min hrate (by norm_num)⟩
      · exact h
  | fanratedec =>
      unfold FrameDriver.step TdPrinter.fanratedec
      dsimp only
      split
      · exact ⟨h.counter_le, le_max_of_le_right (by norm_num)⟩
      · exact h
  | _ => exact ⟨h.counter_le, h.fanrate_nonneg⟩

omit [IsStrictOrderedRing R] in
/-- What a step sends is what `sendData` makes of the state before it. -/
theorem step_txBuf {s : FrameDriver R} {a : FrameAction} (ha : a.Sends) :
    (s.step a).txBuf = (sendData s).txBuf := by
  cases a with
  | idleSend => rfl
  | line l =>
      unfold FrameDriver.step sboardProcessLine
      dsimp only
      rw [if_pos (show l.head? = some 116 from ha)]
      rfl
  | _ => exact absurd ha id

/-- All frames are sound and read as they were meant exactly if at every sending the target is
below 65024 or the scaled duty below 256. -/
theorem unambiguous_iff (as : List FrameAction) :
    (frameMachine R).AllTransitions FrameDriver.Recovered .boot as ↔
      (frameMachine R).AllSteps FrameDriver.Fits .boot as := by
  refine Machine.allTransitions_iff_allSteps (J := FrameDriver.Ready) ?_ ?_ boot_ready as
  · intro s a t h hstep
    obtain rfl := Option.some.inj hstep
    exact h.step a
  · intro s a t h hstep
    obtain rfl := Option.some.inj hstep
    refine forall_congr' fun ha => ?_
    rw [step_txBuf ha, and_iff_right (sendData_checksumZero s)]
    exact readFrame_sendData_iff h

end

/-- A print at 200 degrees with the model fan at 80. -/
theorem unambiguous_iff_print :
    (frameMachine ℚ).AllTransitions FrameDriver.Recovered .boot
      [.m104 (some 200), .m106 none, .idleSend, .idleSend, .idleSend] :=
  (unambiguous_iff _).mpr (by decide +kernel)

/-- `M104 S-1` goes out as full speed for the extruder fan. -/
theorem target_asFan :
    ¬ (frameMachine ℚ).AllTransitions FrameDriver.Recovered .boot
      [.m104 (some (-1)), .idleSend, .idleSend, .idleSend] := by
  intro hall
  have hframe := ((((hall _ rfl).2 _ rfl).2 _ rfl).2 _ rfl).1 trivial
  -- the third frame is that of the target
  have hready := (((boot_ready (R := ℚ)).step (.m104 (some (-1)))).step .idleSend).step .idleSend
  have hfits : (65535 : UInt16) < 65024 := (readFrame_sendData_iff hready).mp hframe.2
  exact absurd hfits (by decide)

end

end TdPrinter
