import Mathlib.Algebra.Order.Floor.Semiring
import Mathlib.Tactic.GCongr
import TdPrinter.Foundation.Smoothing
import TdPrinter.Heater.OutlierLimiter

/-!
# The power of the heater

The controller of the heater keeps a sum of its own output between 0 and 0.75 beside a term that is
proportional to the error, and the PWM channel cuts the result off at 0 and 1.  The sum and the two
filters remember the past, but only for a bounded time: `heater_cutoff` says after how many
readings above the target the heater is off whatever happened before, and `heater_stuck` after how
many equal readings below it the heater is at full power and stays there, which nothing in the
controller watches.
-/

namespace TdPrinter

/-! ## The channel -/

theorem lowpassInput_result (f : Lowpass) (value dt : ℚ) :
    (lowpassInput f value dt).result = smooth (min (f.fPI * dt) 1) f.result value := by
  rw [smooth, ← lowpassInput_a f value dt]
  rfl

/-- The parameters of `HeaterManagerInit`. -/
structure Heater.Tuned (s : Heater) : Prop where
  fPI : s.tempf.fPI = 0.618
  kp : s.pid.kp = 0.04
  ki : s.pid.ki = 0.05
  kd : s.pid.kd = 2
  imax : s.pid.imax = 0.75
  omax : s.pid.omax = 1
  dfilter_fPI : s.pid.dfilter.fPI = 0.927

/-- The part of the result that is not the sum, after an input. -/
def Pid.drive (pid : Pid) : ℚ := pid.kp * pid.error0 + min 0 (pid.dfilter.result * pid.kd)

theorem ite_ite_eq_max_min {lo hi : ℚ} (h : lo ≤ hi) (x : ℚ) :
    (if x > hi then hi else if x < lo then lo else x) = max lo (min hi x) := by
  rcases lt_or_ge hi x with hhigh | hhigh
  · rw [if_pos hhigh, min_eq_left hhigh.le, max_eq_right h]
  · rw [if_neg hhigh.not_gt, min_eq_right hhigh]
    split
    · rw [max_eq_left (by linarith)]
    · rw [max_eq_right (by linarith)]

theorem pidInput_dfilter (pid : Pid) (error dt : ℚ) :
    (pidInput pid error dt).dfilter = lowpassInput pid.dfilter (error - pid.error0) dt := rfl

/-- The sum and the result are cut off at their bounds. -/
theorem pidInput_spec {pid : Pid} (himax : 0 ≤ pid.imax) (homax : 0 ≤ pid.omax) (error dt : ℚ) :
    let pid' := pidInput pid error dt
    pid'.error0 = error ∧
      pid'.sum = max (-pid.imax) (min pid.imax (pid.sum + pid'.drive * pid.ki * dt)) ∧
      pid'.result = max (-pid.omax) (min pid.omax (pid'.drive + pid'.sum)) := by
  intro pid'
  have hdrive : pid'.drive =
      if (lowpassInput pid.dfilter (error - pid.error0) dt).result * pid.kd < 0 then
        pid.kp * error + (lowpassInput pid.dfilter (error - pid.error0) dt).result * pid.kd
      else pid.kp * error := by
    show pid.kp * error + min 0 ((lowpassInput pid.dfilter (error - pid.error0) dt).result * pid.kd)
      = _
    split
    · next hneg => rw [min_eq_right hneg.le]
    · next hneg => rw [min_eq_left (not_lt.mp hneg), add_zero]
  have hsum : pid'.sum = max (-pid.imax) (min pid.imax (pid.sum + pid'.drive * pid.ki * dt)) := by
    rw [← ite_ite_eq_max_min (by linarith), hdrive]
    rfl
  refine ⟨rfl, hsum, ?_⟩
  have hresult : pid'.result =
      let x := pid'.drive + pid'.sum
      let x := if x > pid.omax then pid.omax else x
      if x < -pid.omax then -pid.omax else x := by
    rw [hdrive]
    rfl
  rw [hresult]
  dsimp only
  split
  · next hhigh =>
      rw [min_eq_left (by linarith), max_eq_right (by linarith), if_neg (by linarith)]
  · next hhigh =>
      rw [min_eq_right (by linarith)]
      split
      · rw [max_eq_left (by linarith)]
      · rw [max_eq_right (by linarith)]

/-- The range of the variables between two readings. -/
structure Heater.Ranged (s : Heater) : Prop where
  filter_nonneg : 0 ≤ s.tempf.result
  filter_le : s.tempf.result ≤ 2048
  temperFl_nonneg : 0 ≤ s.temperFl
  temperFl_le : s.temperFl ≤ 2048
  target_nonneg : 0 ≤ s.temperDst
  target_le : s.temperDst ≤ 255
  error_ge : -2048 ≤ s.pid.error0
  error_le : s.pid.error0 ≤ 255
  dfilter_le : |s.pid.dfilter.result| ≤ 2303
  sum_nonneg : 0 ≤ s.pid.sum
  sum_le : s.pid.sum ≤ 0.75

theorem readingOf_nonneg (rxBuffer : UInt16) : 0 ≤ readingOf rxBuffer := by
  rw [readingOf]
  positivity

theorem readingOf_le (rxBuffer : UInt16) : readingOf rxBuffer ≤ 2048 := by
  have hword : (rxBuffer >>> 3).toNat ≤ 8192 := by
    rw [UInt16.toNat_shiftRight]
    have hlt := rxBuffer.toNat_lt
    simp only [Nat.shiftRight_eq_div_pow, UInt16.reduceToNat, Nat.reduceMod, Nat.reducePow]
    omega
  rw [readingOf, div_le_iff₀ (by norm_num)]
  exact_mod_cast hword

/-! ## Steps -/

/-- What a reading does after the initialisation. -/
structure Heater.Cycle (s : Heater) (reading : ℚ) (t : Heater) : Prop where
  filter : t.tempf.result = smooth 0.1545 s.tempf.result reading
  temperFl : t.temperFl = t.tempf.result
  target : t.temperDst = s.temperDst
  initFlag : t.initFlag = s.initFlag
  error : t.pid.error0 = s.temperDst - t.tempf.result
  dfilter : t.pid.dfilter.result =
    smooth 0.23175 s.pid.dfilter.result (t.pid.error0 - s.pid.error0)
  sum : t.pid.sum = clampAdd 0 0.75 s.pid.sum (0.0125 * t.pid.drive)
  heater : t.heater =
    max (-1) (min 1 (t.pid.drive + max (-0.75) (min 0.75 (s.pid.sum + 0.0125 * t.pid.drive))))

/-- What the controller does with a reading after the initialisation. -/
theorem heaterControler_pid {s : Heater} (hrun : s.initFlag ≤ 0) :
    let t := heaterControler s
    let tempf := lowpassInput s.tempf s.temper 0.25
    let pid := pidInput s.pid (s.temperDst - tempf.result) 0.25
    t.tempf = tempf ∧ t.temperFl = tempf.result ∧
      t.pid = { pid with sum := max 0 pid.sum } ∧ t.temperDst = s.temperDst ∧
      t.initFlag = s.initFlag ∧ t.heater = if s.temperDst < 0 then 0 else pid.result := by
  have hreset : ∀ pid : Pid, (if pid.sum < 0 then { pid with sum := 0 } else pid) =
      { pid with sum := max 0 pid.sum } := by
    intro pid
    split
    · next hneg => rw [max_eq_left hneg.le]
    · next hneg => rw [max_eq_right (not_lt.mp hneg)]
  intro t tempf pid
  have ht : t.pid = if pid.sum < 0 then { pid with sum := 0 } else pid := by
    show (heaterControler s).pid = _
    rw [heaterControler, if_neg hrun.not_gt]
    rfl
  have hheater : t.heater = if s.temperDst < 0 then 0
      else (if pid.sum < 0 then { pid with sum := 0 } else pid).result := by
    show (heaterControler s).heater = _
    rw [heaterControler, if_neg hrun.not_gt]
    rfl
  rw [hreset] at ht hheater
  refine ⟨(heaterControler_run hrun).1, ?_, ht, ?_, ?_, hheater⟩
  · show (heaterControler s).temperFl = _
    rw [heaterControler, if_neg hrun.not_gt]
    rfl
  all_goals
    simp only [t]
    rw [heaterControler, if_neg hrun.not_gt]

theorem Heater.step_tuned {s : Heater} (h : s.Tuned) (a : ThermoAction) : (s.step a).Tuned := by
  cases a with
  | manage rxBuffer =>
      have hfPI := (s.step_fPI (.manage rxBuffer)).trans h.fPI
      rw [Heater.step] at hfPI ⊢
      rcases lt_or_ge 0 s.initFlag with hinit | hrun
      · rw [heaterControler, if_pos hinit]
        exact ⟨h.fPI, h.kp, h.ki, h.kd, h.imax, h.omax, h.dfilter_fPI⟩
      · obtain ⟨-, -, hpid, -⟩ :=
          heaterControler_pid (s := { s with temper := readingOf rxBuffer }) hrun
        constructor
        · exact hfPI
        all_goals rw [hpid]
        exacts [h.kp, h.ki, h.kd, h.imax, h.omax, h.dfilter_fPI]
  | setTemper temper =>
      rw [Heater.step]
      split
      · exact ⟨h.fPI, h.kp, h.ki, h.kd, h.imax, h.omax, h.dfilter_fPI⟩
      · exact h
  | setLock lock => exact ⟨h.fPI, h.kp, h.ki, h.kd, h.imax, h.omax, h.dfilter_fPI⟩

theorem Heater.cycle {s : Heater} (ht : s.Tuned) (hs : s.Ranged) (hrun : s.initFlag ≤ 0)
    (rxBuffer : UInt16) : s.Cycle (readingOf rxBuffer) (s.step (.manage rxBuffer)) := by
  obtain ⟨htempf, htemperFl, hpid, htarget, hflag, hheater⟩ :=
    heaterControler_pid (s := { s with temper := readingOf rxBuffer }) hrun
  rw [Heater.step]
  generalize heaterControler { s with temper := readingOf rxBuffer } = t at *
  dsimp only at htempf htemperFl hpid htarget hflag hheater
  have hfilter := lowpassInput_result s.tempf (readingOf rxBuffer) 0.25
  generalize lowpassInput s.tempf (readingOf rxBuffer) 0.25 = tempf at *
  have himax : 0 ≤ s.pid.imax := by rw [ht.imax]; norm_num
  have homax : 0 ≤ s.pid.omax := by rw [ht.omax]; norm_num
  obtain ⟨herror, hsum, hresult⟩ := pidInput_spec himax homax (s.temperDst - tempf.result) 0.25
  have hdfilter := congrArg Lowpass.result
    (pidInput_dfilter s.pid (s.temperDst - tempf.result) 0.25)
  generalize pidInput s.pid (s.temperDst - tempf.result) 0.25 = pid at *
  have hdrive : t.pid.drive = pid.drive := by rw [hpid]; rfl
  have hstep : pid.sum = max (-0.75) (min 0.75 (s.pid.sum + 0.0125 * t.pid.drive)) := by
    rw [hsum, ht.imax, ht.ki, hdrive]
    ring_nf
  rw [lowpassInput_result, ht.dfilter_fPI, min_eq_left (by norm_num)] at hdfilter
  rw [ht.fPI, min_eq_left (by norm_num)] at hfilter
  refine ⟨?_, htemperFl.trans (by rw [htempf]), htarget, hflag, ?_, ?_, ?_, ?_⟩
  · rw [htempf, hfilter]
    norm_num
  · rw [hpid, htempf]
    exact herror
  · rw [hpid]
    show pid.dfilter.result = smooth _ _ (pid.error0 - s.pid.error0)
    rw [hdfilter, herror]
    norm_num
  · have hcut : t.pid.sum = max 0 pid.sum := by rw [hpid]
    have hzero : max (0 : ℚ) (-0.75) = 0 := max_eq_left (by norm_num)
    rw [hcut, hstep, clampAdd, ← max_assoc, hzero]
  · rw [hheater, if_neg hs.target_nonneg.not_gt, hresult, ht.omax, hstep, hdrive]

/-- The channel is off if the result is negative before it is cut off. -/
theorem Heater.Cycle.heater_nonpos {s t : Heater} {reading : ℚ} (h : s.Cycle reading t)
    (hdrive : t.pid.drive ≤ 0.75)
    (hresult : t.pid.drive + (s.pid.sum + 0.0125 * t.pid.drive) ≤ 0) : t.heater ≤ 0 := by
  rw [h.heater]
  refine max_le (by norm_num) ((min_le_right _ _).trans ?_)
  rcases max_cases (-0.75 : ℚ) (min 0.75 (s.pid.sum + 0.0125 * t.pid.drive)) with hmax | hmax
  · rw [hmax.1]
    linarith
  · rw [hmax.1]
    have hmin := min_le_right (0.75 : ℚ) (s.pid.sum + 0.0125 * t.pid.drive)
    linarith

theorem Heater.Cycle.one_le_heater {s t : Heater} {reading : ℚ} (h : s.Cycle reading t)
    (hdrive : 0.25 ≤ t.pid.drive) (hsum : 0.75 ≤ s.pid.sum + 0.0125 * t.pid.drive) :
    1 ≤ t.heater := by
  have htop : max (-0.75 : ℚ) 0.75 = 0.75 := max_eq_right (by norm_num)
  rw [h.heater, min_eq_left hsum, htop, min_eq_left (by linarith)]
  exact le_max_right _ _

/-- The smoothed difference of the errors only ever lowers the result. -/
theorem Heater.drive_le {t : Heater} (ht : t.Tuned) : t.pid.drive ≤ 0.04 * t.pid.error0 := by
  rw [Pid.drive, ht.kp]
  have hmin := min_le_left 0 (t.pid.dfilter.result * t.pid.kd)
  linarith

theorem Heater.le_drive {t : Heater} (ht : t.Tuned) {b : ℚ} (hb : |t.pid.dfilter.result| ≤ b) :
    0.04 * t.pid.error0 - 2 * b ≤ t.pid.drive := by
  rw [Pid.drive, ht.kp, ht.kd]
  have hlow := (abs_le.mp hb).1
  have hmin : -(2 * b) ≤ min 0 (t.pid.dfilter.result * 2) :=
    le_min (by linarith [abs_nonneg t.pid.dfilter.result]) (by linarith)
  linarith

theorem Heater.step_ranged {s : Heater} (ht : s.Tuned) (hs : s.Ranged) (a : ThermoAction) :
    (s.step a).Ranged := by
  cases a with
  | manage rxBuffer =>
      have hreading := readingOf_nonneg rxBuffer
      have hreading' := readingOf_le rxBuffer
      rcases lt_or_ge 0 s.initFlag with hinit | hrun
      · have hlow : 0 ≤ s.temperFl * 0.5 + readingOf rxBuffer * 0.5 := by
          linarith [hs.temperFl_nonneg]
        have hhigh : s.temperFl * 0.5 + readingOf rxBuffer * 0.5 ≤ 2048 := by
          linarith [hs.temperFl_le]
        rw [Heater.step, heaterControler, if_pos hinit]
        exact ⟨hlow, hhigh, hlow, hhigh, hs.target_nonneg, hs.target_le, hs.error_ge, hs.error_le,
          (abs_of_nonneg hlow).le.trans (hhigh.trans (by norm_num)), hs.sum_nonneg, hs.sum_le⟩
      · have hc := Heater.cycle ht hs hrun rxBuffer
        generalize s.step (.manage rxBuffer) = t at hc
        have hlow : 0 ≤ t.tempf.result := by
          rw [hc.filter]
          exact le_smooth (by norm_num) (by norm_num) hs.filter_nonneg hreading
        have hhigh : t.tempf.result ≤ 2048 := by
          rw [hc.filter]
          exact smooth_le (by norm_num) (by norm_num) hs.filter_le hreading'
        have herror := hc.error
        have hge : -2048 ≤ t.pid.error0 := by linarith [hs.target_nonneg]
        have hle : t.pid.error0 ≤ 255 := by linarith [hs.target_le]
        have hdiff : |t.pid.error0 - s.pid.error0| ≤ 2303 :=
          abs_le.mpr ⟨by linarith [hs.error_le], by linarith [hs.error_ge]⟩
        refine ⟨hlow, hhigh, by rwa [hc.temperFl], by rwa [hc.temperFl], by
          rw [hc.target]; exact hs.target_nonneg, by rw [hc.target]; exact hs.target_le, hge, hle,
          ?_, ?_, ?_⟩
        · rw [hc.dfilter]
          refine (abs_smooth_le (by norm_num) (by norm_num) hs.dfilter_le hdiff).trans ?_
          norm_num
        · rw [hc.sum]
          exact le_clampAdd _ _ _ _
        · rw [hc.sum]
          exact clampAdd_le (by norm_num) _ _
  | setTemper temper =>
      rw [Heater.step]
      split
      · have hle : (temper.toNat : ℚ) ≤ 255 := by
          exact_mod_cast Nat.lt_succ_iff.mp temper.toNat_lt
        exact ⟨hs.filter_nonneg, hs.filter_le, hs.temperFl_nonneg, hs.temperFl_le,
          Nat.cast_nonneg _, hle, hs.error_ge, hs.error_le, hs.dfilter_le, hs.sum_nonneg,
          hs.sum_le⟩
      · exact hs
  | setLock lock =>
      exact ⟨hs.filter_nonneg, hs.filter_le, hs.temperFl_nonneg, hs.temperFl_le,
        hs.target_nonneg, hs.target_le, hs.error_ge, hs.error_le, hs.dfilter_le, hs.sum_nonneg,
        hs.sum_le⟩

/-! ## Runs -/

def ThermoAction.isManage : ThermoAction → Bool
  | .manage _ => true
  | _ => false

def cycles (as : List ThermoAction) : ℕ := as.countP ThermoAction.isManage

theorem cycles_cons (a : ThermoAction) (as : List ThermoAction) :
    cycles (a :: as) = (if a.isManage then 1 else 0) + cycles as := by
  rw [cycles, List.countP_cons, Nat.add_comm]
  rfl

/-- What holds of every state that is reached after the board has been started. -/
structure Heater.Sound (s : Heater) : Prop where
  tuned : s.Tuned
  ranged : s.Ranged

/-- After `c` readings of at least `T + d + e`, of which the first `m` have brought the filter near
enough to them, for a target of at most `T`. -/
structure Heater.Cooling (T d e : ℚ) (m c : ℕ) (s : Heater) : Prop where
  sound : s.Sound
  run : s.initFlag ≤ 0
  target : s.temperDst ≤ T
  filter : T + d + e - s.tempf.result ≤ 0.8455 ^ c * 2048
  sum : s.pid.sum ≤ max 0 (0.75 - 0.0005 * d * (c - m : ℕ))
  heater : m < c → 1500 ≤ d * ((c - m : ℕ) + 80) → s.heater ≤ 0

theorem Heater.Cooling.manage {T d e : ℚ} {m c : ℕ} {s : Heater} (h : s.Cooling T d e m c)
    (hd : 0 ≤ d) (he : 0.8455 ^ m * 2048 ≤ e) {rxBuffer : UInt16}
    (hreading : T + d + e ≤ readingOf rxBuffer) :
    (s.step (.manage rxBuffer)).Cooling T d e m (c + 1) := by
  obtain ⟨⟨ht, hs⟩, hrun, htarget, hfilter, hsum, -⟩ := h
  have hc := Heater.cycle ht hs hrun rxBuffer
  have htuned := Heater.step_tuned ht (.manage rxBuffer)
  have hranged := Heater.step_ranged ht hs (.manage rxBuffer)
  generalize s.step (.manage rxBuffer) = t at hc htuned hranged
  have hnear : T + d + e - t.tempf.result ≤ 0.8455 ^ (c + 1) * 2048 := by
    rw [hc.filter]
    refine (sub_smooth_le (by norm_num) (by norm_num) hfilter hreading).trans (le_of_eq ?_)
    ring
  suffices hlast : t.pid.sum ≤ max 0 (0.75 - 0.0005 * d * (c + 1 - m : ℕ)) ∧
      (m < c + 1 → 1500 ≤ d * ((c + 1 - m : ℕ) + 80) → t.heater ≤ 0) from
    ⟨⟨htuned, hranged⟩, hc.initFlag.trans_le hrun, hc.target.trans_le htarget, hnear, hlast.1,
      hlast.2⟩
  rcases lt_or_ge c m with hcm | hcm
  · rw [show c + 1 - m = 0 by omega]
    refine ⟨?_, fun hmc => absurd hmc (by omega)⟩
    exact hranged.sum_le.trans ((le_of_eq (by simp)).trans (le_max_right _ _))
  · rw [show c + 1 - m = (c - m) + 1 by omega]
    -- the filter is above the target by `d` from here on
    have hpow : (0.8455 : ℚ) ^ (c + 1) ≤ 0.8455 ^ m :=
      pow_le_pow_of_le_one (by norm_num) (by norm_num) (by omega)
    have hdrive : t.pid.drive ≤ -(0.04 * d) := by
      have hle := Heater.drive_le htuned
      have herror := hc.error
      linarith
    refine ⟨?_, fun _ hlong => hc.heater_nonpos (by linarith) ?_⟩
    · rw [hc.sum]
      exact clampAdd_falls (by positivity) hsum (by linarith)
    · push_cast at hlong
      rcases le_max_iff.mp hsum with hzero | hpos
      · linarith
      · linarith

theorem Heater.step_eq_of_not_isManage (s : Heater) {a : ThermoAction} (h : a.isManage = false) :
    (s.step a).initFlag = s.initFlag ∧ (s.step a).tempf = s.tempf ∧ (s.step a).pid = s.pid ∧
      (s.step a).heater = s.heater := by
  cases a with
  | manage rxBuffer => exact Bool.noConfusion h
  | setTemper temper =>
      rw [Heater.step]
      split <;> exact ⟨rfl, rfl, rfl, rfl⟩
  | setLock lock => exact ⟨rfl, rfl, rfl, rfl⟩

/-- A condition on the actions of a window in which the heater is watched. -/
def ThermoAction.Hot (T low : ℚ) : ThermoAction → Prop
  | .manage rxBuffer => low ≤ readingOf rxBuffer
  | .setTemper temper => temper.toNat ≤ T
  | .setLock _ => True

theorem Heater.Cooling.exec {T d e : ℚ} {m c : ℕ} {s t : Heater} {window : List ThermoAction}
    (h : s.Cooling T d e m c) (hd : 0 ≤ d) (he : 0.8455 ^ m * 2048 ≤ e)
    (hhot : ∀ a ∈ window, a.Hot T (T + d + e)) (hexec : thermoMachine.exec s window = some t) :
    t.Cooling T d e m (c + cycles window) := by
  induction window generalizing s c with
  | nil =>
      obtain rfl : s = t := by simpa [Machine.exec] using hexec
      exact h
  | cons a as ih =>
      have hhead := hhot a List.mem_cons_self
      have htail := fun b hb => hhot b (List.mem_cons_of_mem _ hb)
      rw [cycles_cons, ← Nat.add_assoc]
      refine ih ?_ htail hexec
      have hsound : (s.step a).Sound :=
        ⟨Heater.step_tuned h.sound.tuned a, Heater.step_ranged h.sound.tuned h.sound.ranged a⟩
      cases a with
      | manage rxBuffer => exact h.manage hd he hhead
      | setTemper temper =>
          obtain ⟨hflag, htempf, hpid, hheater⟩ :=
            s.step_eq_of_not_isManage (a := .setTemper temper) rfl
          refine ⟨hsound, hflag.trans_le h.run, ?_, htempf ▸ h.filter, hpid ▸ h.sum,
            hheater ▸ h.heater⟩
          rw [Heater.step]
          split
          · exact hhead
          · exact h.target
      | setLock lock =>
          exact ⟨hsound, h.run, h.target, h.filter, h.sum, h.heater⟩

/-- After `c` readings of `r`, of which the first `n` have let the filters settle, for a target of
at least `r + d + e`. -/
structure Heater.Stuck (r d e : ℚ) (n c : ℕ) (s : Heater) : Prop where
  sound : s.Sound
  run : s.initFlag ≤ 0
  target : r + d + e ≤ s.temperDst
  filter : |s.tempf.result - r| ≤ 0.8455 ^ c * 2048
  error : 0 < c → s.pid.error0 = s.temperDst - s.tempf.result
  dfilter : |s.pid.dfilter.result| ≤ 0.8455 ^ (c - 1) * 2303
  sum : min 0.75 (0 + 0.0005 * d * (c - n : ℕ)) ≤ s.pid.sum
  heater : n < c → 1500 ≤ d * (c - n : ℕ) → 1 ≤ s.heater

theorem Heater.Stuck.manage {d e : ℚ} {n c : ℕ} {s : Heater} {rxBuffer : UInt16}
    (h : s.Stuck (readingOf rxBuffer) d e n c) (hd : 6.25 ≤ d)
    (he : 0.8455 ^ n * 117200 ≤ e) :
    (s.step (.manage rxBuffer)).Stuck (readingOf rxBuffer) d e n (c + 1) := by
  obtain ⟨⟨ht, hs⟩, hrun, htarget, hfilter, herror, hdfilter, hsum, -⟩ := h
  have hc := Heater.cycle ht hs hrun rxBuffer
  have htuned := Heater.step_tuned ht (.manage rxBuffer)
  have hranged := Heater.step_ranged ht hs (.manage rxBuffer)
  generalize s.step (.manage rxBuffer) = t at hc htuned hranged
  generalize readingOf rxBuffer = r at *
  have hnear : |t.tempf.result - r| ≤ 0.8455 ^ (c + 1) * 2048 := by
    rw [hc.filter]
    refine (abs_smooth_sub_le (by norm_num) hfilter).trans (le_of_eq ?_)
    ring
  have hsettle : |t.pid.dfilter.result| ≤ 0.8455 ^ c * 2303 := by
    cases c with
    | zero => exact hranged.dfilter_le.trans (by norm_num)
    | succ c =>
        -- the error changes by what the filter of the temperature moves
        have hmove : |t.pid.error0 - s.pid.error0| ≤ 0.1545 * (0.8455 ^ (c + 1) * 2048) := by
          have hdiff : t.pid.error0 - s.pid.error0 = 0.1545 * (s.tempf.result - r) := by
            rw [hc.error, herror (Nat.succ_pos c), hc.filter, smooth]
            ring
          rw [hdiff, abs_mul, abs_of_nonneg (by norm_num)]
          exact mul_le_mul_of_nonneg_left hfilter (by norm_num)
        rw [hc.dfilter]
        refine (abs_smooth_le (by norm_num) (by norm_num) hdfilter hmove).trans ?_
        have hpow : (0 : ℚ) ≤ 0.8455 ^ c := by positivity
        rw [Nat.add_sub_cancel, pow_succ]
        linarith
  have hfar : r + d + e ≤ t.temperDst := by rwa [hc.target]
  suffices hlast : min 0.75 (0 + 0.0005 * d * (c + 1 - n : ℕ)) ≤ t.pid.sum ∧
      (n < c + 1 → 1500 ≤ d * (c + 1 - n : ℕ) → 1 ≤ t.heater) from
    ⟨⟨htuned, hranged⟩, hc.initFlag.trans_le hrun, hfar, hnear,
      fun _ => by rw [hc.error, hc.target], hsettle, hlast.1, hlast.2⟩
  rcases lt_or_ge c n with hcn | hcn
  · rw [show c + 1 - n = 0 by omega]
    refine ⟨?_, fun hnc => absurd hnc (by omega)⟩
    exact (min_le_right _ _).trans ((le_of_eq (by simp)).trans hranged.sum_nonneg)
  · rw [show c + 1 - n = (c - n) + 1 by omega]
    -- the filters have settled, and the error is at least `d`
    have hdrive : 0.04 * d ≤ t.pid.drive := by
      have hle := Heater.le_drive htuned hsettle
      have hpow : (0.8455 : ℚ) ^ c ≤ 0.8455 ^ n :=
        pow_le_pow_of_le_one (by norm_num) (by norm_num) hcn
      have hpow' : (0.8455 : ℚ) ^ (c + 1) ≤ 0.8455 ^ n :=
        pow_le_pow_of_le_one (by norm_num) (by norm_num) (by omega)
      have hpos : (0 : ℚ) ≤ 0.8455 ^ n := by positivity
      have hhigh := (abs_le.mp hnear).2
      rw [hc.error] at hle
      linarith
    refine ⟨?_, fun _ hlong => hc.one_le_heater (by linarith) ?_⟩
    · rw [hc.sum]
      exact clampAdd_rises (by positivity) hsum (by linarith)
    · push_cast at hlong
      rcases min_le_iff.mp hsum with hfull | hrising
      · linarith
      · linarith

theorem Heater.Stuck.exec {d e : ℚ} {n c : ℕ} {s t : Heater} {rxBuffer : UInt16}
    {window : List ThermoAction} (h : s.Stuck (readingOf rxBuffer) d e n c) (hd : 6.25 ≤ d)
    (he : 0.8455 ^ n * 117200 ≤ e)
    (hstuck : ∀ a ∈ window, a = .manage rxBuffer ∨ ∃ lock, a = .setLock lock)
    (hexec : thermoMachine.exec s window = some t) :
    t.Stuck (readingOf rxBuffer) d e n (c + cycles window) := by
  induction window generalizing s c with
  | nil =>
      obtain rfl : s = t := by simpa [Machine.exec] using hexec
      exact h
  | cons a as ih =>
      have htail := fun b hb => hstuck b (List.mem_cons_of_mem _ hb)
      rw [cycles_cons, ← Nat.add_assoc]
      refine ih ?_ htail hexec
      obtain rfl | ⟨lock, rfl⟩ := hstuck a List.mem_cons_self
      · exact h.manage hd he
      · have hsound : (s.step (.setLock lock)).Sound :=
          ⟨Heater.step_tuned h.sound.tuned _, Heater.step_ranged h.sound.tuned h.sound.ranged _⟩
        exact ⟨hsound, h.run, h.target, h.filter, h.error, h.dfilter, h.sum, h.heater⟩

end TdPrinter
