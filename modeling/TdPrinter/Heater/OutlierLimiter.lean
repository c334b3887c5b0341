import Mathlib.Algebra.Order.Ring.Abs
import Mathlib.Algebra.Order.Ring.Rat
import Mathlib.Data.Rat.Floor
import Mathlib.Tactic.Linarith
import Mathlib.Tactic.NormNum
import TdPrinter.Foundation.Machine

/-!
# The temperature of the heater

The board that heats the extruder reads a thermocouple and puts the readings through a low-pass
filter, which a controller takes its error from.  In front of the filter `HeaterControler` works
out a reading that is at most 5 degrees off the state of the filter.  It puts the result into
`value` and passes on `temper`, so that an outlier goes through unchanged: `limited_iff`.

The source computes with `float`; here the numbers are rational, which is exact.
-/

namespace TdPrinter

/-! ## The filter -/

/-- `lowpass_t`. -/
structure Lowpass where
  f : ℚ
  fPI : ℚ
  a : ℚ
  result : ℚ

/-- `lowpass_init`. -/
def lowpassInit (hz : ℚ) : Lowpass := ⟨hz, hz * 6.18, 0, 0⟩

/-- `lowpass_input`. -/
def lowpassInput (f : Lowpass) (value dt : ℚ) : Lowpass :=
  let a := f.fPI * dt
  let a := if a > 1 then 1 else a
  { f with a := a, result := f.result + a * (value - f.result) }

/-- `lowpass_reset`. -/
def lowpassReset (f : Lowpass) (value : ℚ) : Lowpass := { f with result := value }

/-- `lowpass_output`, where the result is not copied. -/
def lowpassOutput (f : Lowpass) : ℚ := f.result

@[simp] theorem lowpassInput_fPI (f : Lowpass) (value dt : ℚ) :
    (lowpassInput f value dt).fPI = f.fPI := rfl

@[simp] theorem lowpassReset_fPI (f : Lowpass) (value : ℚ) :
    (lowpassReset f value).fPI = f.fPI := rfl

theorem lowpassInput_a (f : Lowpass) (value dt : ℚ) :
    (lowpassInput f value dt).a = min (f.fPI * dt) 1 := by
  simp only [lowpassInput]
  split
  · rw [min_eq_right (by linarith)]
  · rw [min_eq_left (by linarith)]

/-- An input moves the filter towards it by the factor `a`. -/
theorem lowpassInput_sub (f : Lowpass) (value dt : ℚ) :
    (lowpassInput f value dt).result - f.result =
      (lowpassInput f value dt).a * (value - f.result) := by
  simp [lowpassInput]

/-! ## The controller -/

/-- `pid_t`. -/
structure Pid where
  kp : ℚ
  ki : ℚ
  kd : ℚ
  imax : ℚ
  omax : ℚ
  result : ℚ
  sum : ℚ
  derivative : ℚ
  error0 : ℚ
  dfilter : Lowpass

/-- `pid_init`. -/
def pidInit (kp ki kd imax omax hz : ℚ) : Pid :=
  ⟨kp, ki, kd, imax, omax, 0, 0, 0, 0, lowpassInit hz⟩

/-- `pid_reset`. -/
def pidReset (pid : Pid) (error : ℚ) : Pid := { pid with dfilter := lowpassReset pid.dfilter error }

/-- `pid_input`. -/
def pidInput (pid : Pid) (error dt : ℚ) : Pid :=
  let dfilter := lowpassInput pid.dfilter (error - pid.error0) dt
  let derivative := lowpassOutput dfilter * pid.kd
  let result := if derivative < 0 then pid.kp * error + derivative else pid.kp * error
  let sum := pid.sum + result * pid.ki * dt
  let sum := if sum > pid.imax then pid.imax else if sum < -pid.imax then -pid.imax else sum
  let result := result + sum
  let result := if result > pid.omax then pid.omax else result
  let result := if result < -pid.omax then -pid.omax else result
  { pid with
    dfilter := dfilter
    error0 := error
    derivative := derivative
    sum := sum
    result := result }

/-- `pid_output`, where the result is not copied. -/
def pidOutput (pid : Pid) : ℚ := pid.result

/-! ## The heater -/

/-- The static variables of `app_subSystem.c`, the last argument of `pwm_set`, and the reading
that the filter was last given. -/
structure Heater where
  temperFl : ℚ
  temperDst : ℚ
  temper : ℚ
  temperCtl : ℚ
  value : ℚ
  initFlag : ℤ
  pid : Pid
  tempf : Lowpass
  slock : UInt8
  heater : ℚ
  fed : ℚ

/-- After `HeaterManagerInit`. -/
def Heater.boot : Heater where
  temperFl := 0
  temperDst := 0
  temper := 0
  temperCtl := 0
  value := 0
  initFlag := 10
  pid := pidInit 0.04 0.05 2 0.75 1 0.15
  tempf := lowpassInit 0.1
  slock := 0
  heater := 0
  fed := 0

/-- `HeaterControler`. -/
def heaterControler (s : Heater) : Heater :=
  if s.initFlag > 0 then
    let temperFl := s.temperFl * 0.5 + s.temper * 0.5
    { s with
      initFlag := s.initFlag - 1
      temperFl := temperFl
      tempf := lowpassReset s.tempf temperFl
      pid := pidReset s.pid temperFl
      heater := 0 }
  else
    let value :=
      if s.temper + 5 > s.tempf.result then s.tempf.result + 5
      else if s.value - 5 < s.tempf.result then s.tempf.result - 5
      else s.value
    let tempf := lowpassInput s.tempf s.temper 0.25
    let temperFl := lowpassOutput tempf
    let pid := pidInput s.pid (s.temperDst - temperFl) 0.25
    let pid := if pid.sum < 0 then { pid with sum := 0 } else pid
    let temperCtl := pidOutput pid
    { s with
      value := value
      tempf := tempf
      temperFl := temperFl
      pid := pid
      temperCtl := temperCtl
      heater := if s.temperDst < 0 then 0 else temperCtl
      fed := s.temper }

/-- The temperature in a word from the sensor. -/
def readingOf (rxBuffer : UInt16) : ℚ := (rxBuffer >>> 3).toNat / 4

/-- A word has been read, or one of the setters is called. -/
inductive ThermoAction
  | manage (rxBuffer : UInt16)
  | setTemper (temper : UInt8)
  | setLock (lock : UInt8)

/-- `HeaterManage`, `sboard_setTemper` and `sboard_setLock`. -/
def Heater.step (s : Heater) : ThermoAction → Heater
  | .manage rxBuffer => heaterControler { s with temper := readingOf rxBuffer }
  | .setTemper temper => if s.slock = 0 then { s with temperDst := temper.toNat } else s
  | .setLock lock => { s with slock := lock }

def thermoMachine : Machine Heater ThermoAction := ⟨fun s a => some (s.step a)⟩

/-! ## The limit -/

/-- The value of `x` in the band of 5 degrees around `centre`. -/
def inBand (centre x : ℚ) : ℚ := max (centre - 5) (min (centre + 5) x)

/-- After the initialisation, the filter is given a reading from the band around its state, and
does not move by more than 5 degrees times its coefficient. -/
def Heater.Limited (s : Heater) (a : ThermoAction) (t : Heater) : Prop :=
  match a with
  | .manage rxBuffer =>
      s.initFlag ≤ 0 →
        t.fed = inBand s.tempf.result (readingOf rxBuffer) ∧
          |t.tempf.result - s.tempf.result| ≤ min (s.tempf.fPI * 0.25) 1 * 5
  | _ => True

/-- After the initialisation, the reading is at most 5 degrees off the state of the filter. -/
def Heater.NoOutlier (s : Heater) : ThermoAction → Prop
  | .manage rxBuffer => s.initFlag ≤ 0 → |readingOf rxBuffer - s.tempf.result| ≤ 5
  | _ => True

theorem inBand_eq_self_iff (centre x : ℚ) : x = inBand centre x ↔ |x - centre| ≤ 5 := by
  rw [inBand, abs_le]
  constructor
  · intro h
    have hlow := le_max_left (centre - 5) (min (centre + 5) x)
    rw [← h] at hlow
    refine ⟨by linarith, ?_⟩
    by_contra! hhigh
    have hmin : min (centre + 5) x = centre + 5 := min_eq_left (by linarith)
    rw [hmin, max_eq_right (by linarith)] at h
    linarith
  · rintro ⟨hlow, hhigh⟩
    rw [min_eq_right (by linarith), max_eq_right (by linarith)]

/-! ## Steps -/

theorem heaterControler_init {s : Heater} (hinit : 0 < s.initFlag) :
    (heaterControler s).initFlag = s.initFlag - 1 ∧
      (heaterControler s).temperFl = s.temperFl * 0.5 + s.temper * 0.5 ∧
      (heaterControler s).tempf = lowpassReset s.tempf (heaterControler s).temperFl := by
  rw [heaterControler, if_pos hinit]
  exact ⟨rfl, rfl, rfl⟩

theorem heaterControler_run {s : Heater} (hrun : s.initFlag ≤ 0) :
    (heaterControler s).tempf = lowpassInput s.tempf s.temper 0.25 ∧
      (heaterControler s).fed = s.temper := by
  rw [heaterControler, if_neg hrun.not_gt]
  exact ⟨rfl, rfl⟩

theorem Heater.step_fPI (s : Heater) (a : ThermoAction) : (s.step a).tempf.fPI = s.tempf.fPI := by
  cases a with
  | manage rxBuffer =>
      let s' : Heater := { s with temper := readingOf rxBuffer }
      show (heaterControler s').tempf.fPI = s'.tempf.fPI
      rcases lt_or_ge 0 s'.initFlag with hinit | hrun
      · rw [(heaterControler_init hinit).2.2, lowpassReset_fPI]
      · rw [(heaterControler_run hrun).1, lowpassInput_fPI]
  | setTemper temper =>
      rw [Heater.step]
      split <;> rfl
  | setLock lock => rfl

/-- A step is limited if there is nothing to limit, and not otherwise. -/
theorem Heater.limited_step_iff {s : Heater} (hfPI : 0 ≤ s.tempf.fPI) (a : ThermoAction) :
    s.Limited a (s.step a) ↔ s.NoOutlier a := by
  cases a with
  | manage rxBuffer =>
      refine forall_congr' fun hrun => ?_
      obtain ⟨htempf, hfed⟩ :=
        heaterControler_run (s := { s with temper := readingOf rxBuffer }) hrun
      change (s.step (.manage rxBuffer)).tempf = _ at htempf
      change (s.step (.manage rxBuffer)).fed = readingOf rxBuffer at hfed
      rw [htempf, hfed, inBand_eq_self_iff, and_iff_left_iff_imp]
      intro hnear
      have hcoeff : 0 ≤ min (s.tempf.fPI * 0.25) 1 :=
        le_min (mul_nonneg hfPI (by norm_num)) zero_le_one
      rw [lowpassInput_sub, lowpassInput_a, abs_mul, abs_of_nonneg hcoeff]
      exact mul_le_mul_of_nonneg_left hnear hcoeff
  | setTemper temper => exact Iff.rfl
  | setLock lock => exact Iff.rfl

/-! ## Runs -/

/-- In a run every reading is limited to the band around the filter exactly if none leaves it. -/
theorem limited_iff (as : List ThermoAction) :
    thermoMachine.AllTransitions Heater.Limited .boot as ↔
      thermoMachine.AllSteps Heater.NoOutlier .boot as := by
  refine Machine.allTransitions_iff_allSteps (J := fun s : Heater => 0 ≤ s.tempf.fPI) ?_ ?_ ?_ as
  · intro s a t h hstep
    obtain rfl := Option.some.inj hstep
    rwa [Heater.step_fPI]
  · intro s a t h hstep
    obtain rfl := Option.some.inj hstep
    exact Heater.limited_step_iff h a
  · show (0 : ℚ) ≤ 0.1 * 6.18
    norm_num

/-- Readings of 0 degrees during the initialisation. -/
theorem exec_zero_readings {n : ℕ} (hn : n ≤ 10) :
    ∃ t, thermoMachine.exec .boot (List.replicate n (.manage 0)) = some t ∧
      t.initFlag = 10 - n ∧ t.temperFl = 0 ∧ t.tempf.result = 0 ∧ 0 ≤ t.tempf.fPI := by
  induction n with
  | zero =>
      refine ⟨.boot, rfl, rfl, rfl, rfl, ?_⟩
      show (0 : ℚ) ≤ 0.1 * 6.18
      norm_num
  | succ n ih =>
      obtain ⟨s, hexec, hflag, htemperFl, hresult, hfPI⟩ := ih (by omega)
      have hinit : 0 < s.initFlag := by omega
      obtain ⟨hflag', htemperFl', htempf'⟩ :=
        heaterControler_init (s := { s with temper := readingOf 0 }) hinit
      have hzero : (heaterControler { s with temper := readingOf 0 }).temperFl = 0 := by
        rw [htemperFl', htemperFl, show readingOf 0 = 0 by simp [readingOf]]
        norm_num
      refine ⟨s.step (.manage 0), ?_, ?_, hzero, ?_, ?_⟩
      · rw [List.replicate_succ', Machine.exec_concat hexec]
        rfl
      · show (heaterControler { s with temper := readingOf 0 }).initFlag = _
        rw [hflag']
        push_cast
        omega
      · show (heaterControler { s with temper := readingOf 0 }).tempf.result = 0
        rw [htempf', hzero]
        rfl
      · rwa [Heater.step_fPI]

/-- Ten readings of 0 degrees, and then one of 1023.75. -/
theorem spike_not_limited :
    ¬ thermoMachine.AllTransitions Heater.Limited .boot
      (List.replicate 10 (.manage 0) ++ [.manage 32760]) := by
  intro h
  obtain ⟨t, hexec, hflag, -, hresult, hfPI⟩ := exec_zero_readings (le_refl 10)
  have hnear := (Heater.limited_step_iff hfPI (.manage 32760)).mp (h.last hexec rfl) (by omega)
  have hreading : readingOf 32760 = 4095 / 4 := by
    have hword : ((32760 : UInt16) >>> 3).toNat = 4095 := by decide
    rw [readingOf, hword]
    norm_num
  rw [hreading, hresult] at hnear
  norm_num [abs_le] at hnear

end TdPrinter
