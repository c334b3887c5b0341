import TdPrinter.Foundation.CString
import TdPrinter.GCode.GetLine
import TdPrinter.GCode.Strtod
import TdPrinter.Motion.MotionBuffer
import TdPrinter.Planning.StepPlanner

/-!
# The command processor

`libStepGCodeProcessor.c`.  A command line is searched for letters: the first `G` in it
makes it a G command, otherwise the first `M` an M command, and the number behind the
letter selects a branch of a `switch`.  Words of a command are found in the same way, and
read with `my_atof`.

A pointer into `lineBuffer` is the list of what lies from it to the end of the buffer; a
command has no outcome if a scan leaves the buffer.  What a branch does outside the
processor is the list of its calls; what it learns from outside is given with it.
-/

namespace TdPrinter

/-! ## The state -/

/-- `stepGCode_t`, as far as the processor uses it. -/
structure StepGCode (R : Type*) where
  lineBuffer : List UInt8
  codeLp : List UInt8
  speed : R
  seen : Axis → Bool
  relative : Axis → Bool
  value : Axis → R
  g1UseAccel : Bool
  g0SpeedFactor : R
  g1SpeedFactor : R

/-- `stepGCodeProcessor_init`. -/
def stepGCodeProcessorInit {R : Type*} [Field R] (g : StepGCode R) : StepGCode R :=
  { g with
    speed := 10
    g1UseAccel := true
    g0SpeedFactor := 1
    g1SpeedFactor := 1
    seen := fun _ => false
    relative := fun _ => false
    value := fun _ => 0 }

/-- The processor after its initialisation, with a line read. -/
def startedWith {R : Type*} [Field R] (line : List UInt8) : StepGCode R :=
  stepGCodeProcessorInit
    { lineBuffer := line
      codeLp := line
      speed := 0
      seen := fun _ => false
      relative := fun _ => false
      value := fun _ => 0
      g1UseAccel := false
      g0SpeedFactor := 0
      g1SpeedFactor := 0 }

/-- `axisCode`. -/
def axisCode : Axis → UInt8 := ![88, 89, 69, 65]

/-! ## Words -/

/-- `lp = strchr(str, code); if(lp) lp[0] = '\0';`. -/
def cutAt (code : UInt8) : List UInt8 → List UInt8
  | [] => []
  | c :: s => if c = code then 0 :: s else if c = 0 then c :: s else c :: cutAt code s

/-- `Trim`: the line ends in front of the first `;` and the first `(`. -/
def trim (str : List UInt8) : List UInt8 := cutAt 40 (cutAt 59 str)

section

variable {R : Type*}

/-- `CodeSeek`; no result stands for `false`. -/
def codeSeek (code : UInt8) (g : StepGCode R) : Option (StepGCode R) :=
  (strchr code g.lineBuffer).map fun lp => { g with codeLp := lp.tail }

/-- `CodeLong`. -/
def codeLong (g : StepGCode R) : ℤ := atoi g.codeLp

/-- `CodeFP`. -/
def codeFP [Field R] (g : StepGCode R) : Option R := myAtof g.codeLp

section

variable [Field R]

/-- The word `F`. -/
def readSpeed (g : StepGCode R) : Option (StepGCode R) :=
  match codeSeek 70 g with
  | some g => (codeFP g).map fun x => { g with speed := x / 60 }
  | none => some g

/-- A word has been found for axis `i`. -/
def setAxis (g : StepGCode R) (i : Axis) : Option (StepGCode R) :=
  (codeFP g).map fun x =>
    { g with seen := Function.update g.seen i true, value := Function.update g.value i x }

/-- The word of axis `i`. -/
def readAxisWord (g : StepGCode R) (i : Axis) : Option (StepGCode R) :=
  match codeSeek (axisCode i) g with
  | some g => setAxis g i
  | none =>
      some { g with seen := Function.update g.seen i false, value := Function.update g.value i 0 }

/-- The word `Z`, which stands for all axes from 3 on. -/
def readZ (g : StepGCode R) : Option (StepGCode R) :=
  match codeSeek 90 g with
  | some g => (axes.filter fun i => 3 ≤ i.val).foldlM setAxis g
  | none => some g

/-- `ReadAxis`. -/
def readAxis (g : StepGCode R) : Option (StepGCode R) :=
  (readSpeed g).bind fun g => (axes.foldlM readAxisWord g).bind readZ

end

/-! ## Dispatch -/

/-- The cases of `switch(code)` for a G command. -/
inductive GCase
  | g0 | g1 | g21 | g28 | g90 | g91 | g92
  | unhandled
  deriving DecidableEq

/-- The cases of `switch(code)` for an M command; one that is shared by several numbers has
the name of the first. -/
inductive MCase
  | m0 | m17 | m1 | m2 | m10 | m11 | m12 | m82 | m83 | m92 | m93 | m110 | m104 | m105 | m106
  | m107 | m109 | m114 | m140 | m420 | m443 | m444 | m591 | m592 | m801 | m802 | m803 | m804
  | m805 | m806 | m807 | m808 | m809 | m810 | m995 | m996 | m997 | m998 | m999
  | unhandled
  deriving DecidableEq

def gCase (code : ℤ) : GCase :=
  match code with
  | 0 => .g0
  | 1 => .g1
  | 21 => .g21
  | 28 => .g28
  | 90 => .g90
  | 91 => .g91
  | 92 => .g92
  | _ => .unhandled

def mCase (code : ℤ) : MCase :=
  match code with
  | 0 => .m0
  | 84 => .m0
  | 17 => .m17
  | 1 => .m1
  | 18 => .m1
  | 2 => .m2
  | 10 => .m10
  | 11 => .m11
  | 12 => .m12
  | 82 => .m82
  | 83 => .m83
  | 92 => .m92
  | 93 => .m93
  | 110 => .m110
  | 104 => .m104
  | 105 => .m105
  | 106 => .m106
  | 245 => .m106
  | 107 => .m107
  | 246 => .m107
  | 109 => .m109
  | 114 => .m114
  | 140 => .m140
  | 420 => .m420
  | 443 => .m443
  | 444 => .m444
  | 591 => .m591
  | 592 => .m592
  | 801 => .m801
  | 802 => .m802
  | 803 => .m803
  | 804 => .m804
  | 805 => .m805
  | 806 => .m806
  | 807 => .m807
  | 808 => .m808
  | 809 => .m809
  | 810 => .m810
  | 995 => .m995
  | 996 => .m996
  | 997 => .m997
  | 998 => .m998
  | 999 => .m999
  | _ => .unhandled

/-- The branch of `stepGCodeProcessor_run` that is executed. -/
inductive Branch
  | g (case : GCase)
  | m (case : MCase)
  /-- neither letter is in the line -/
  | neither
  deriving DecidableEq

/-- `stepGCodeProcessor_run` up to the `switch` that it takes. -/
def dispatch (g : StepGCode R) : StepGCode R × Branch :=
  let g := { g with lineBuffer := trim g.lineBuffer }
  match codeSeek 71 g with
  | some g => (g, .g (gCase (codeLong g)))
  | none =>
      match codeSeek 77 g with
      | some g => (g, .m (mCase (codeLong g)))
      | none => (g, .neither)

/-! ## The branches -/

inductive GCodeCall (R : Type*)
  | enableTrigger (on : Bool)
  | inputNextPosition (mm : Axis → R) (relative mask : Axis → Bool) (speed : R) (useAccel : Bool)
  | setMm (mm : Axis → R) (relative mask : Axis → Bool)
  | positionStop
  | waitForIdle
  | setEnableAll (en : Bool)
  | setEnable (seen : Axis → Bool)
  | setDisable (seen : Axis → Bool)
  | setTemper (temper : UInt16)
  /-- until the target is nearly reached -/
  | waitForTemper
  | setFan1 (fan : UInt8)
  | systemReset
  | finshMode (on : Bool)

/-- What is sent back.  (A reply with a text is put together in `lineBuffer`; that is left
out.) -/
inductive Reply (R : Type*)
  | ok
  | temper (t : ℤ)
  | position (mm : Axis → R)
  | paramFailed
  | unhandledG
  | unhandledM
  /-- the board restarts -/
  | nothing

/-- What a command learns from outside: the measured temperature, the position, and
whether `param_reset`, `param_load` or `param_save` succeeds. -/
structure Surroundings (R : Type*) where
  temper : ℤ
  mm : Axis → R
  paramOk : Bool

/-- A command has been executed.  `param_reset`, `param_load` and `param_save` have a model
of their own; here `param` is what the command itself writes. -/
structure Outcome (R : Type*) where
  g : StepGCode R
  param : Param R
  calls : List (GCodeCall R)
  reply : Reply R

/-- A parameter of the axes, with the values of those in the line. -/
def overwrite (g : StepGCode R) (old : Axis → R) : Axis → R :=
  fun i => if g.seen i then g.value i else old i

/-- The word `S` as an integer. -/
def readS (g : StepGCode R) : StepGCode R × Option ℤ :=
  match codeSeek 83 g with
  | some g => (g, some (codeLong g))
  | none => (g, none)

section

variable [Field R]

def GCase.run (param : Param R) (g : StepGCode R) : GCase → Option (Outcome R)
  | .g0 => (readAxis g).map fun g =>
      ⟨g, param,
        [.inputNextPosition g.value g.relative g.seen (g.speed * g.g0SpeedFactor) true], .ok⟩
  | .g1 => (readAxis g).map fun g =>
      ⟨g, param,
        [.inputNextPosition g.value g.relative g.seen (g.speed * g.g1SpeedFactor) g.g1UseAccel],
        .ok⟩
  | .g21 => some ⟨g, param, [], .ok⟩
  | .g28 => (readAxis g).map fun g =>
      ⟨g, param,
        [.enableTrigger true, .inputNextPosition g.value g.relative g.seen g.speed true,
          .waitForIdle, .enableTrigger false], .ok⟩
  | .g90 => some ⟨{ g with relative := fun _ => false }, param, [], .ok⟩
  | .g91 => some ⟨{ g with relative := fun _ => true }, param, [], .ok⟩
  | .g92 => (readAxis g).map fun g =>
      ⟨g, param, [.setMm g.value (fun _ => false) g.seen], .ok⟩
  | .unhandled => some ⟨g, param, [], .unhandledG⟩

def MCase.run (env : Surroundings R) (param : Param R) (g : StepGCode R) :
    MCase → Option (Outcome R)
  | .m0 => some ⟨g, param, [.positionStop], .ok⟩
  | .m17 => some ⟨g, param, [.setEnableAll true], .ok⟩
  | .m1 => some ⟨g, param, [.waitForIdle, .setEnableAll false], .ok⟩
  | .m2 => some ⟨g, param, [.waitForIdle], .ok⟩
  | .m10 => (readAxis g).map fun g => ⟨g, param, [.setDisable g.seen], .ok⟩
  | .m11 => (readAxis g).map fun g => ⟨g, param, [.setEnable g.seen], .ok⟩
  | .m12 => (readAxis g).map fun g => ⟨g, param, [], .ok⟩
  | .m82 => some ⟨{ g with relative := Function.update g.relative 2 false }, param, [], .ok⟩
  | .m83 => some ⟨{ g with relative := Function.update g.relative 2 true }, param, [], .ok⟩
  | .m92 => some ⟨g, param, [], .ok⟩
  | .m93 => some ⟨g, param, [], .ok⟩
  | .m110 => some ⟨g, param, [], .ok⟩
  | .m104 =>
      some ⟨(readS g).1, param, [.setTemper ((readS g).2.elim 0 UInt16.ofInt)], .ok⟩
  | .m105 => some ⟨g, param, [], .temper env.temper⟩
  | .m106 => some ⟨(readS g).1, param, [.setFan1 ((readS g).2.elim 80 UInt8.ofInt)], .ok⟩
  | .m107 => some ⟨g, param, [.setFan1 0], .ok⟩
  | .m109 =>
      some ⟨(readS g).1, param,
        ((readS g).2.toList.map fun s => .setTemper (UInt16.ofInt s)) ++ [.waitForTemper], .ok⟩
  | .m114 => some ⟨g, param, [], .position env.mm⟩
  | .m140 => some ⟨g, param, [], .ok⟩
  | .m420 => some ⟨g, param, [], .ok⟩
  | .m443 => some ⟨{ g with g1UseAccel := true }, param, [], .ok⟩
  | .m444 => some ⟨{ g with g1UseAccel := false }, param, [], .ok⟩
  | .m591 => (readAxis g).map fun g =>
      ⟨g, { param with positionOffset := overwrite g param.positionOffset }, [], .ok⟩
  | .m592 => some ⟨g, param, [.setMm param.positionOffset (fun _ => true) (fun _ => true)], .ok⟩
  | .m801 => (readAxis g).map fun g =>
      ⟨g, { param with defaultAccelSpeed := overwrite g param.defaultAccelSpeed }, [], .ok⟩
  | .m802 => (readAxis g).map fun g =>
      ⟨g, { param with maxSpeed := overwrite g param.maxSpeed }, [], .ok⟩
  | .m803 => (readAxis g).map fun g =>
      ⟨g, { param with maxAccelSpeed := overwrite g param.maxAccelSpeed }, [], .ok⟩
  | .m804 => (readAxis g).map fun g =>
      ⟨g, { param with maxSpeedDelta := overwrite g param.maxSpeedDelta }, [], .ok⟩
  | .m805 => (readAxis g).map fun g =>
      ⟨g, { param with defaultEntrySpeed := overwrite g param.defaultEntrySpeed }, [], .ok⟩
  | .m806 => (readAxis g).map fun g =>
      ⟨{ g with g0SpeedFactor := if g.seen 0 then g.value 0 else g.g0SpeedFactor }, param, [], .ok⟩
  | .m807 => (readAxis g).map fun g =>
      ⟨{ g with g1SpeedFactor := if g.seen 0 then g.value 0 else g.g1SpeedFactor }, param, [], .ok⟩
  | .m808 => (readAxis g).map fun g =>
      ⟨g, { param with mm2step := overwrite g param.mm2step }, [], .ok⟩
  | .m809 => (readAxis g).map fun g =>
      ⟨g, { param with advanceK := if g.seen 0 then g.value 0 else param.advanceK }, [], .ok⟩
  | .m810 => (readAxis g).map fun g =>
      ⟨g, { param with advanceDeprime := if g.seen 0 then g.value 0 else param.advanceDeprime },
        [], .ok⟩
  | .m995 | .m996 | .m997 => some ⟨g, param, [], if env.paramOk then .ok else .paramFailed⟩
  | .m998 => some ⟨g, param, [.systemReset], .nothing⟩
  | .m999 => some ⟨g, param, [.finshMode true], .ok⟩
  | .unhandled => some ⟨g, param, [], .unhandledM⟩

/-- `stepGCodeProcessor_run`. -/
def stepGCodeProcessorRun (env : Surroundings R) (param : Param R) (g : StepGCode R) :
    Option (Outcome R) :=
  match dispatch g with
  | (g, .g c) => c.run param g
  | (g, .m c) => c.run env param g
  | (g, .neither) => some ⟨g, param, [], .ok⟩

end

end

end TdPrinter
