import Mathlib.Algebra.Group.Nat.Defs
import TdPrinter.Foundation.Machine
import Mathlib.Data.List.Perm.Basic
import Mathlib.Data.List.Sort

/-!
# RT-Thread timers

`timer.c` and `rt_tick_increase` of `clock.c`.  The tick is a counter of 32 bits; the running timers
are in `rt_timer_list` in the order of their timeouts, which are compared by the sign of their
difference, so that the counter may wrap.  `rtTickIncrease` is the clock interrupt: it counts, and
`rt_timer_check` takes the timers that have run out from the front of the list.

The timers of the firmware are those of its threads, whose timeout function `rt_thread_timeout`
does not touch any timer, and all of them are started with interrupts disabled.  Timeout functions
are therefore left out, and a call is one step.  A function is without result when an `RT_ASSERT`
fails or its loop does not end.
-/

namespace TdPrinter

/-! ## The model -/

/-- `RT_TICK_MAX / 2`. -/
def tickHalf : ℕ := 2 ^ 31 - 1

/-- The difference of two `rt_tick_t`. -/
def subTick (a b : ℕ) : ℕ := (a + 2 ^ 32 - b) % 2 ^ 32

/-- `struct rt_timer`. -/
structure RtTimer where
  timeoutTick : ℕ
  initTick : ℕ
  activated : Bool
  periodic : Bool

/-- `rt_tick`, the timer objects and `rt_timer_list`. -/
structure TimerList (Name : Type*) where
  tick : ℕ
  timer : Name → RtTimer
  list : List Name

section

variable {Name : Type*}

def TimerList.modify [DecidableEq Name] (s : TimerList Name) (x : Name)
    (f : RtTimer → RtTimer) : TimerList Name :=
  { s with timer := Function.update s.timer x (f (s.timer x)) }

/-- The `for` loop of `rt_timer_start`: the list with the timer `x` in its place. -/
def insertTimer (timer : Name → RtTimer) (x : Name) : List Name → List Name
  | [] => [x]
  | n :: rest =>
      if subTick (timer n).timeoutTick (timer x).timeoutTick = 0 then n :: x :: rest
      else if subTick (timer n).timeoutTick (timer x).timeoutTick < tickHalf then x :: n :: rest
      else n :: insertTimer timer x rest

variable [DecidableEq Name]

/-- `rt_timer_start`; the result is `false` for `-RT_ERROR`. -/
def rtTimerStart (s : TimerList Name) (x : Name) : Option (Bool × TimerList Name) :=
  if (s.timer x).activated then some (false, s)
  else if (s.timer x).initTick < tickHalf then
    let s := s.modify x fun t => { t with timeoutTick := (s.tick + t.initTick) % 2 ^ 32 }
    let s := { s with list := insertTimer s.timer x s.list }
    some (true, s.modify x fun t => { t with activated := true })
  else none

/-- `rt_timer_stop`. -/
def rtTimerStop (s : TimerList Name) (x : Name) : Bool × TimerList Name :=
  if (s.timer x).activated then
    (true, { s with list := s.list.erase x }.modify x fun t => { t with activated := false })
  else (false, s)

/-- `rt_timer_control` with `RT_TIMER_CTRL_SET_TIME`. -/
def rtTimerSetTime (s : TimerList Name) (x : Name) (time : ℕ) : TimerList Name :=
  s.modify x fun t => { t with initTick := time }

/-- `rt_timer_control` with `RT_TIMER_CTRL_SET_PERIODIC` or `RT_TIMER_CTRL_SET_ONESHOT`. -/
def rtTimerSetPeriodic (s : TimerList Name) (x : Name) (periodic : Bool) : TimerList Name :=
  s.modify x fun t => { t with periodic := periodic }

/-- What `rt_timer_check` does with a timer that has run out. -/
def expireTimer (s : TimerList Name) (x : Name) : Option (TimerList Name) :=
  let s := { s with list := s.list.erase x }
  if (s.timer x).periodic ∧ (s.timer x).activated then
    (rtTimerStart (s.modify x fun t => { t with activated := false }) x).map Prod.snd
  else some (s.modify x fun t => { t with activated := false })

/-- `rt_timer_check`: the timers whose timeout function is called, and the state afterwards. -/
def rtTimerCheck : ℕ → TimerList Name → Option (List Name × TimerList Name)
  | 0, _ => none
  | fuel + 1, s =>
      match s.list with
      | [] => some ([], s)
      | x :: _ =>
          if subTick s.tick (s.timer x).timeoutTick < tickHalf then
            (expireTimer s x).bind fun s' =>
              (rtTimerCheck fuel s').map fun r => (x :: r.1, r.2)
          else some ([], s)

/-- `rt_tick_increase`, without the time slices of the threads. -/
def rtTickIncrease (s : TimerList Name) : Option (List Name × TimerList Name) :=
  rtTimerCheck (s.list.length + 1) { s with tick := (s.tick + 1) % 2 ^ 32 }

end

/-! ## Comparing ticks -/

/-- Deadlines less than half the range apart are compared right. -/
theorem subTick_mod {a b : ℕ} (hab : a ≤ b + (2 ^ 31 - 2)) (hba : b ≤ a + (2 ^ 31 + 1)) :
    (subTick (a % 2 ^ 32) (b % 2 ^ 32) = 0 ↔ a = b) ∧
      (subTick (a % 2 ^ 32) (b % 2 ^ 32) < tickHalf ↔ b ≤ a) := by
  simp only [subTick, tickHalf]
  omega

section

variable {Name : Type*}

/-- `insertTimer` with deadlines on a clock that does not wrap. -/
def insertDue (due : Name → ℕ) (x : Name) : List Name → List Name
  | [] => [x]
  | n :: rest =>
      if due n = due x then n :: x :: rest
      else if due x < due n then x :: n :: rest
      else n :: insertDue due x rest

theorem insertTimer_eq {timer : Name → RtTimer} {due : Name → ℕ} {x : Name} {l : List Name}
    (hx : (timer x).timeoutTick = due x % 2 ^ 32)
    (hl : ∀ n ∈ l, (timer n).timeoutTick = due n % 2 ^ 32)
    (hnear : ∀ n ∈ l, due n ≤ due x + (2 ^ 31 - 2) ∧ due x ≤ due n + (2 ^ 31 + 1)) :
    insertTimer timer x l = insertDue due x l := by
  induction l with
  | nil => rfl
  | cons n rest ih =>
      obtain ⟨hab, hba⟩ := hnear n List.mem_cons_self
      obtain ⟨hzero, hhalf⟩ := subTick_mod hab hba
      rw [insertTimer, insertDue, hx, hl n List.mem_cons_self, if_congr hzero rfl rfl]
      split
      · rfl
      · rename_i hne
        have hlt : due x ≤ due n ↔ due x < due n := by omega
        rw [if_congr (hhalf.trans hlt) rfl rfl,
          ih (fun m hm => hl m (List.mem_cons_of_mem _ hm))
            fun m hm => hnear m (List.mem_cons_of_mem _ hm)]

theorem perm_insertDue (due : Name → ℕ) (x : Name) (l : List Name) :
    (insertDue due x l).Perm (x :: l) := by
  induction l with
  | nil => exact List.Perm.refl _
  | cons n rest ih =>
      rw [insertDue]
      split
      · exact List.Perm.swap x n rest
      · split
        · exact List.Perm.refl _
        · exact (ih.cons n).trans (List.Perm.swap x n rest)

theorem mem_insertDue {due : Name → ℕ} {x y : Name} {l : List Name} :
    y ∈ insertDue due x l ↔ y = x ∨ y ∈ l := by
  rw [(perm_insertDue due x l).mem_iff, List.mem_cons]

theorem sorted_insertDue {due : Name → ℕ} {x : Name} {l : List Name}
    (hl : l.Pairwise fun a b => due a ≤ due b) :
    (insertDue due x l).Pairwise fun a b => due a ≤ due b := by
  induction l with
  | nil => exact List.pairwise_singleton _ _
  | cons n rest ih =>
      obtain ⟨hn, hrest⟩ := List.pairwise_cons.mp hl
      rw [insertDue]
      split
      · rename_i heq
        have hx : ∀ b ∈ rest, due x ≤ due b := fun b hb => heq ▸ hn b hb
        refine List.pairwise_cons.mpr ⟨?_, List.pairwise_cons.mpr ⟨hx, hrest⟩⟩
        intro b hb
        rcases List.mem_cons.mp hb with rfl | hb
        · exact heq.le
        · exact hn b hb
      · split
        · rename_i hlt
          refine List.pairwise_cons.mpr ⟨?_, hl⟩
          intro b hb
          rcases List.mem_cons.mp hb with rfl | hb
          · exact hlt.le
          · exact hlt.le.trans (hn b hb)
        · rename_i hne hge
          refine List.pairwise_cons.mpr ⟨?_, ih hrest⟩
          intro b hb
          rcases mem_insertDue.mp hb with rfl | hb
          · omega
          · exact hn b hb

theorem filter_insertDue {due : Name → ℕ} {x : Name} {l : List Name} {p : Name → Bool}
    (hx : p x = false) : (insertDue due x l).filter p = l.filter p := by
  induction l with
  | nil => simp [insertDue, hx]
  | cons n rest ih =>
      rw [insertDue]
      split
      · simp [List.filter_cons, hx]
      · split
        · simp [List.filter_cons, hx]
        · rw [List.filter_cons, List.filter_cons, ih]

/-! ## The invariant -/

/-- `rt_timer_list` holds the running timers in the order of their deadlines `due` on the clock
`now`, which does not wrap. -/
structure Timely (s : TimerList Name) (now : ℕ) (due : Name → ℕ) : Prop where
  tick_eq : s.tick = now % 2 ^ 32
  nodup : s.list.Nodup
  mem_iff : ∀ x, x ∈ s.list ↔ (s.timer x).activated = true
  timeout_eq : ∀ x ∈ s.list, (s.timer x).timeoutTick = due x % 2 ^ 32
  sorted : s.list.Pairwise fun x y => due x ≤ due y
  window : ∀ x ∈ s.list, now ≤ due x + 1 ∧ due x ≤ now + (2 ^ 31 - 2)
  initTick_lt : ∀ x, (s.timer x).initTick < tickHalf
  periodic_pos : ∀ x ∈ s.list, (s.timer x).periodic = true → 1 ≤ (s.timer x).initTick

variable [DecidableEq Name] {s s' : TimerList Name} {now : ℕ} {due : Name → ℕ} {x : Name}

theorem Timely.start (hs : Timely s now due) (hx : (s.timer x).activated = false)
    (hpos : (s.timer x).periodic = true → 1 ≤ (s.timer x).initTick) :
    ∃ s', rtTimerStart s x = some (true, s') ∧
      Timely s' now (Function.update due x (now + (s.timer x).initTick)) ∧
      s'.list = insertDue (Function.update due x (now + (s.timer x).initTick)) x s.list ∧
      (∀ y, y ≠ x → s'.timer y = s.timer y) ∧
      s'.timer x = { s.timer x with
        timeoutTick := (s.tick + (s.timer x).initTick) % 2 ^ 32, activated := true } := by
  have hinit := hs.initTick_lt x
  rw [tickHalf] at hinit
  have hfresh : x ∉ s.list := by
    rw [hs.mem_iff, hx]
    exact Bool.false_ne_true
  have hother : ∀ y ∈ s.list, y ≠ x := fun y hy heq => hfresh (heq ▸ hy)
  have hdue : ∀ y ∈ s.list,
      Function.update due x (now + (s.timer x).initTick) y = due y :=
    fun y hy => Function.update_of_ne (hother y hy) ..
  have hself : Function.update due x (now + (s.timer x).initTick) x =
      now + (s.timer x).initTick := Function.update_self ..
  have hplace : insertTimer (Function.update s.timer x { s.timer x with
        timeoutTick := (s.tick + (s.timer x).initTick) % 2 ^ 32 }) x s.list =
      insertDue (Function.update due x (now + (s.timer x).initTick)) x s.list := by
    apply insertTimer_eq
    · rw [Function.update_self, hself, hs.tick_eq]
      show (now % 2 ^ 32 + (s.timer x).initTick) % 2 ^ 32 = _
      omega
    · intro n hn
      rw [Function.update_of_ne (hother n hn), hdue n hn]
      exact hs.timeout_eq n hn
    · intro n hn
      obtain ⟨hlow, hhigh⟩ := hs.window n hn
      rw [hself, hdue n hn]
      omega
  obtain ⟨timer', htimer⟩ : ∃ timer', timer' = Function.update s.timer x { s.timer x with
      timeoutTick := (s.tick + (s.timer x).initTick) % 2 ^ 32, activated := true } := ⟨_, rfl⟩
  have hkept : ∀ y, y ≠ x → timer' y = s.timer y := by
    intro y hy
    rw [htimer, Function.update_of_ne hy]
  have hstarted : timer' x = { s.timer x with
      timeoutTick := (s.tick + (s.timer x).initTick) % 2 ^ 32, activated := true } := by
    rw [htimer, Function.update_self]
  refine ⟨⟨s.tick, timer', insertDue (Function.update due x (now + (s.timer x).initTick)) x s.list⟩,
    ?_, ?_, rfl, hkept, hstarted⟩
  · rw [rtTimerStart, hx, if_neg Bool.false_ne_true, if_pos (hs.initTick_lt x), ← hplace, htimer]
    simp only [TimerList.modify, Function.update_self, Function.update_idem]
  · constructor
    · exact hs.tick_eq
    · exact (perm_insertDue ..).nodup_iff.mpr (List.nodup_cons.mpr ⟨hfresh, hs.nodup⟩)
    · intro y
      rw [mem_insertDue]
      rcases eq_or_ne y x with rfl | hne
      · simp [hstarted]
      · show y = x ∨ y ∈ s.list ↔ (timer' y).activated = true
        rw [hkept y hne, ← hs.mem_iff y, or_iff_right hne]
    · intro y hy
      show (timer' y).timeoutTick = _
      rcases eq_or_ne y x with rfl | hne
      · rw [hstarted, hself, hs.tick_eq]
        show (now % 2 ^ 32 + (s.timer y).initTick) % 2 ^ 32 = _
        omega
      · have hmem := (mem_insertDue.mp hy).resolve_left hne
        rw [hkept y hne, hdue y hmem]
        exact hs.timeout_eq y hmem
    · apply sorted_insertDue
      exact hs.sorted.imp_of_mem fun ha hb hab => by rwa [hdue _ ha, hdue _ hb]
    · intro y hy
      rcases eq_or_ne y x with rfl | hne
      · rw [hself]
        omega
      · have hmem := (mem_insertDue.mp hy).resolve_left hne
        rw [hdue y hmem]
        exact hs.window y hmem
    · intro y
      show (timer' y).initTick < tickHalf
      rcases eq_or_ne y x with rfl | hne
      · rw [hstarted]
        exact hs.initTick_lt y
      · rw [hkept y hne]
        exact hs.initTick_lt y
    · intro y hy
      show (timer' y).periodic = true → 1 ≤ (timer' y).initTick
      rcases eq_or_ne y x with rfl | hne
      · rw [hstarted]
        exact hpos
      · rw [hkept y hne]
        exact hs.periodic_pos y ((mem_insertDue.mp hy).resolve_left hne)

theorem Timely.remove (hs : Timely s now due) (x : Name) :
    Timely ({ s with list := s.list.erase x }.modify x fun t => { t with activated := false })
      now due := by
  obtain ⟨timer', htimer⟩ : ∃ timer', timer' = Function.update s.timer x
      { s.timer x with activated := false } := ⟨_, rfl⟩
  have hkept : ∀ y, y ≠ x → timer' y = s.timer y := by
    intro y hy
    rw [htimer, Function.update_of_ne hy]
  have hself : timer' x = { s.timer x with activated := false } := by
    rw [htimer, Function.update_self]
  have hmem : ∀ y, y ∈ s.list.erase x ↔ y ≠ x ∧ y ∈ s.list :=
    fun y => hs.nodup.mem_erase_iff
  simp only [TimerList.modify, ← htimer]
  refine ⟨hs.tick_eq, hs.nodup.erase x, ?_, ?_, hs.sorted.sublist List.erase_sublist, ?_, ?_, ?_⟩
  · intro y
    dsimp only
    rw [hmem]
    rcases eq_or_ne y x with rfl | hne
    · simp [hself]
    · rw [hkept y hne, ← hs.mem_iff y, and_iff_right hne]
  · intro y hy
    obtain ⟨hne, hy⟩ := (hmem y).mp hy
    dsimp only
    rw [hkept y hne]
    exact hs.timeout_eq y hy
  · exact fun y hy => hs.window y ((hmem y).mp hy).2
  · intro y
    dsimp only
    rcases eq_or_ne y x with rfl | hne
    · rw [hself]
      exact hs.initTick_lt y
    · rw [hkept y hne]
      exact hs.initTick_lt y
  · intro y hy
    obtain ⟨hne, hy⟩ := (hmem y).mp hy
    dsimp only
    rw [hkept y hne]
    exact hs.periodic_pos y hy

theorem Timely.control (hs : Timely s now due) (x : Name) {f : RtTimer → RtTimer}
    (hactivated : ∀ t, (f t).activated = t.activated)
    (htimeout : ∀ t, (f t).timeoutTick = t.timeoutTick)
    (hinit : (f (s.timer x)).initTick < tickHalf)
    (hpos : (f (s.timer x)).periodic = true → 1 ≤ (f (s.timer x)).initTick) :
    Timely (s.modify x f) now due := by
  obtain ⟨timer', htimer⟩ : ∃ timer', timer' = Function.update s.timer x (f (s.timer x)) :=
    ⟨_, rfl⟩
  have hkept : ∀ y, y ≠ x → timer' y = s.timer y := by
    intro y hy
    rw [htimer, Function.update_of_ne hy]
  have hself : timer' x = f (s.timer x) := by
    rw [htimer, Function.update_self]
  simp only [TimerList.modify, ← htimer]
  refine ⟨hs.tick_eq, hs.nodup, ?_, ?_, hs.sorted, hs.window, ?_, ?_⟩
  all_goals
    intro y
    dsimp only
  · rcases eq_or_ne y x with rfl | hne
    · rw [hself, hactivated, hs.mem_iff]
    · rw [hkept y hne, hs.mem_iff]
  · intro hy
    rcases eq_or_ne y x with rfl | hne
    · rw [hself, htimeout]
      exact hs.timeout_eq y hy
    · rw [hkept y hne]
      exact hs.timeout_eq y hy
  · rcases eq_or_ne y x with rfl | hne
    · rw [hself]
      exact hinit
    · rw [hkept y hne]
      exact hs.initTick_lt y
  · intro hy
    rcases eq_or_ne y x with rfl | hne
    · rw [hself]
      exact hpos
    · rw [hkept y hne]
      exact hs.periodic_pos y hy

/-! ## The clock interrupt -/

/-- The deadlines after the timers `fired` have run out at `now`: the periodic ones go on. -/
def rearmed (s : TimerList Name) (now : ℕ) (due : Name → ℕ) (fired : List Name) (x : Name) : ℕ :=
  if x ∈ fired ∧ (s.timer x).periodic = true then now + (s.timer x).initTick else due x

theorem Timely.expire {rest : List Name} (hs : Timely s now due) (hlist : s.list = x :: rest) :
    ∃ s', expireTimer s x = some s' ∧ Timely s' now (rearmed s now due [x]) ∧
      s'.list = (if (s.timer x).periodic = true then insertDue (rearmed s now due [x]) x rest
        else rest) ∧
      ∀ y, y ≠ x → s'.timer y = s.timer y := by
  have hmem : x ∈ s.list := hlist ▸ List.mem_cons_self
  have hactive := (hs.mem_iff x).mp hmem
  have herase : s.list.erase x = rest := by rw [hlist, List.erase_cons_head]
  have hremoved := hs.remove x
  have hpos := hs.periodic_pos x hmem
  unfold expireTimer
  dsimp only
  rw [herase] at hremoved ⊢
  by_cases hper : (s.timer x).periodic = true
  · rw [if_pos ⟨hper, hactive⟩, if_pos hper]
    have hdue : rearmed s now due [x] = Function.update due x (now + (s.timer x).initTick) := by
      funext y
      rw [rearmed, Function.update_apply]
      rcases eq_or_ne y x with rfl | hne
      · rw [if_pos ⟨List.mem_singleton_self y, hper⟩, if_pos rfl]
      · rw [if_neg (fun h => hne (List.mem_singleton.mp h.1)), if_neg hne]
    have hself : ({ s with list := rest }.modify x fun t =>
        { t with activated := false }).timer x = { s.timer x with activated := false } :=
      Function.update_self ..
    have hinit : (({ s with list := rest }.modify x fun t =>
        { t with activated := false }).timer x).initTick = (s.timer x).initTick := by rw [hself]
    obtain ⟨s', hstart, htimely, hlist', hkept, -⟩ := hremoved.start (by rw [hself])
      (by rw [hself]; exact hpos)
    rw [hinit, ← hdue] at htimely hlist'
    refine ⟨s', by rw [hstart]; rfl, htimely, hlist', fun y hy => ?_⟩
    rw [hkept y hy]
    exact Function.update_of_ne hy ..
  · rw [if_neg (fun h => hper h.1), if_neg hper]
    have hdue : rearmed s now due [x] = due := by
      funext y
      refine if_neg ?_
      rintro ⟨hy, h⟩
      exact hper (List.mem_singleton.mp hy ▸ h)
    rw [hdue]
    exact ⟨_, rfl, hremoved, rfl, fun y hy => Function.update_of_ne hy ..⟩

/-- `rt_timer_check`: just the timers that are due run out, in the order of the list. -/
theorem Timely.check {fuel : ℕ} (hs : Timely s now due)
    (hfuel : (s.list.filter fun x => due x ≤ now).length < fuel) :
    ∃ s', rtTimerCheck fuel s = some (s.list.filter fun x => due x ≤ now, s') ∧
      Timely s' now (rearmed s now due (s.list.filter fun x => due x ≤ now)) ∧
      (∀ x ∈ s'.list, now < rearmed s now due (s.list.filter fun x => due x ≤ now) x) ∧
      ∀ x, (x ∈ s'.list ↔ x ∈ s.list ∧
        (x ∈ s.list.filter (fun x => due x ≤ now) → (s.timer x).periodic = true)) := by
  induction fuel generalizing s due with
  | zero => exact absurd hfuel (Nat.not_lt_zero _)
  | succ fuel ih =>
      cases hlist : s.list with
      | nil =>
          have hdue : rearmed s now due [] = due := by
            funext y
            simp [rearmed]
          rw [rtTimerCheck, hlist]
          simp only [List.filter_nil, hdue]
          exact ⟨s, rfl, hs, by simp [hlist], fun x => by simp [hlist]⟩
      | cons x rest =>
          have hmem : x ∈ s.list := hlist ▸ List.mem_cons_self
          have hsorted := hlist ▸ hs.sorted
          obtain ⟨hlow, hhigh⟩ := hs.window x hmem
          have hcond : subTick s.tick (s.timer x).timeoutTick < tickHalf ↔ due x ≤ now := by
            rw [hs.tick_eq, hs.timeout_eq x hmem]
            exact (subTick_mod (by omega) (by omega)).2
          rw [rtTimerCheck, hlist]
          dsimp only
          rw [if_congr hcond rfl rfl]
          by_cases hx : due x ≤ now
          · obtain ⟨s₁, hexp, hs₁, hlist₁, hkept⟩ := hs.expire hlist
            -- the timer `x` is not due again
            have hlater : (s.timer x).periodic = true → now < rearmed s now due [x] x := by
              intro hp
              have hpos := hs.periodic_pos x hmem hp
              rw [rearmed, if_pos ⟨List.mem_singleton_self x, hp⟩]
              omega
            have hxrest : x ∉ rest := (List.nodup_cons.mp (hlist ▸ hs.nodup)).1
            have hsame : ∀ y ∈ rest, rearmed s now due [x] y = due y := by
              intro y hy
              refine if_neg ?_
              rintro ⟨heq, _⟩
              exact hxrest (List.mem_singleton.mp heq ▸ hy)
            have hfilter : (s₁.list.filter fun y => rearmed s now due [x] y ≤ now) =
                rest.filter fun y => due y ≤ now := by
              have hrest : (rest.filter fun y => rearmed s now due [x] y ≤ now) =
                  rest.filter fun y => due y ≤ now :=
                List.filter_congr fun y hy => by rw [hsame y hy]
              rw [hlist₁]
              split
              · rename_i hp
                rw [← hrest]
                apply filter_insertDue
                exact decide_eq_false (not_le.mpr (hlater hp))
              · exact hrest
            have hsplit : ((x :: rest).filter fun y => due y ≤ now) =
                x :: rest.filter fun y => due y ≤ now := by
              rw [List.filter_cons, if_pos (decide_eq_true hx)]
            rw [hlist, hsplit, List.length_cons] at hfuel
            obtain ⟨s', hcheck, hs', hafter, hstay⟩ := ih hs₁ (by rw [hfilter]; omega)
            rw [hfilter] at hcheck hs' hafter hstay
            have hdue : rearmed s₁ now (rearmed s now due [x]) (rest.filter fun y => due y ≤ now) =
                rearmed s now due (x :: rest.filter fun y => due y ≤ now) := by
              funext y
              rcases eq_or_ne y x with rfl | hne
              · rw [rearmed, if_neg (fun h => hxrest (List.mem_of_mem_filter h.1)), rearmed,
                  rearmed]
                simp
              · simp only [rearmed, hkept y hne, List.mem_cons, List.not_mem_nil, hne, false_or,
                  false_and, if_false]
            rw [hdue] at hs' hafter
            rw [if_pos hx, hexp, hsplit, Option.bind_some, hcheck]
            refine ⟨s', rfl, hs', hafter, fun y => ?_⟩
            rw [hstay, hlist₁]
            rcases eq_or_ne y x with rfl | hne
            · have hold : y ∉ rest.filter fun z => due z ≤ now :=
                fun h => hxrest (List.mem_of_mem_filter h)
              by_cases hp : (s.timer y).periodic = true
              · simp [hp, mem_insertDue, hold]
              · simp [hp, hxrest]
            · rw [hkept y hne]
              by_cases hp : (s.timer x).periodic = true <;> simp [hp, mem_insertDue, hne]
          · have hall : ∀ y ∈ x :: rest, now < due y := by
              intro y hy
              rcases List.mem_cons.mp hy with rfl | hy
              · omega
              · have := (List.pairwise_cons.mp hsorted).1 y hy
                omega
            have hnone : ((x :: rest).filter fun y => due y ≤ now) = [] := by
              refine List.filter_eq_nil_iff.mpr fun y hy => ?_
              have := hall y hy
              simpa using this
            have hdue : rearmed s now due [] = due := by
              funext y
              simp [rearmed]
            rw [if_neg hx, hnone, hdue]
            exact ⟨s, rfl, hs, fun y hy => hall y (hlist ▸ hy), fun y => by simp [hlist]⟩

end

/-! ## Runs -/

/-- A call of a timeout function: the time of the call, when the timer had been started and with
which time. -/
structure Expiry (Name : Type*) where
  timer : Name
  called : ℕ
  since : ℕ
  span : ℕ
deriving DecidableEq

/-- The timers, the number of ticks so far, what each timer was started with last and the calls
of timeout functions so far. -/
structure TimerRun (Name : Type*) where
  sys : TimerList Name
  now : ℕ
  since : Name → ℕ
  span : Name → ℕ
  log : List (Expiry Name)

inductive TimerAction (Name : Type*)
  | tick
  | start (x : Name)
  | stop (x : Name)
  | setTime (x : Name) (time : ℕ)
  | setPeriodic (x : Name) (periodic : Bool)

section

variable {Name : Type*} [DecidableEq Name]

namespace TimerRun

def due (s : TimerRun Name) (x : Name) : ℕ := s.since x + s.span x

/-- A clock interrupt in which the timers `r.1` have run out. -/
def ticked (s : TimerRun Name) (r : List Name × TimerList Name) : TimerRun Name where
  sys := r.2
  now := s.now + 1
  since x := if x ∈ r.1 then s.now + 1 else s.since x
  span x := if x ∈ r.1 then (s.sys.timer x).initTick else s.span x
  log := s.log ++ r.1.map fun x => ⟨x, s.now + 1, s.since x, s.span x⟩

/-- A call of `rt_timer_start`. -/
def started (s : TimerRun Name) (x : Name) (r : Bool × TimerList Name) : TimerRun Name :=
  if r.1 then
    { s with
      sys := r.2
      since := Function.update s.since x s.now
      span := Function.update s.span x (s.sys.timer x).initTick }
  else { s with sys := r.2 }

def Fresh (s : TimerRun Name) : Prop :=
  s.sys.tick = s.now % 2 ^ 32 ∧ s.sys.list = [] ∧ s.log = [] ∧
    ∀ x, (s.sys.timer x).activated = false ∧ (s.sys.timer x).initTick < tickHalf

/-- No timer is given a time that `rt_timer_start` refuses, and no periodic timer the time 0, with
which `rt_timer_check` would call it for ever. -/
def Proper (s : TimerRun Name) : TimerAction Name → Prop
  | .setTime x time => time < tickHalf ∧ ((s.sys.timer x).periodic = true → 1 ≤ time)
  | .setPeriodic x periodic => periodic = true → 1 ≤ (s.sys.timer x).initTick
  | .start x => (s.sys.timer x).periodic = true → 1 ≤ (s.sys.timer x).initTick
  | _ => True

end TimerRun

/-- The timers with the clock and any callers. -/
def timerMachine : Machine (TimerRun Name) (TimerAction Name) where
  step s
    | .tick => (rtTickIncrease s.sys).map s.ticked
    | .start x => (rtTimerStart s.sys x).map (s.started x)
    | .stop x => some { s with sys := (rtTimerStop s.sys x).2 }
    | .setTime x time => some { s with sys := rtTimerSetTime s.sys x time }
    | .setPeriodic x periodic => some { s with sys := rtTimerSetPeriodic s.sys x periodic }

/-- Between two interrupts nothing is overdue but what has just been started. -/
structure TimerRun.Inv (s : TimerRun Name) : Prop where
  timely : Timely s.sys s.now s.due
  since_le : ∀ x ∈ s.sys.list, s.since x ≤ s.now
  ahead : ∀ x ∈ s.sys.list, s.now < s.due x ∨ s.since x = s.now
  log : ∀ e ∈ s.log, e.called = e.since + max e.span 1

variable {s t : TimerRun Name}

namespace TimerRun

/-- The clock interrupt calls just the timers that have run out. -/
theorem Inv.tick (hs : s.Inv) :
    ∃ (t : TimerRun Name) (fired : List Name), timerMachine.step s .tick = some t ∧ t.Inv ∧
      t.log = s.log ++ fired.map (fun x => ⟨x, s.now + 1, s.since x, s.span x⟩) ∧
      (∀ x, x ∈ fired ↔
        (s.sys.timer x).activated = true ∧ s.now + 1 = s.since x + max (s.span x) 1) ∧
      ∀ x, (t.sys.timer x).activated = true ↔ (s.sys.timer x).activated = true ∧
        (x ∈ fired → (s.sys.timer x).periodic = true) := by
  have hdue : ∀ x ∈ s.sys.list, s.now ≤ s.due x := by
    intro x hx
    rcases hs.ahead x hx with hlt | heq
    · exact hlt.le
    · rw [due]
      omega
  have hnext : Timely { s.sys with tick := (s.sys.tick + 1) % 2 ^ 32 } (s.now + 1) s.due := by
    have ht := hs.timely
    refine ⟨?_, ht.nodup, ht.mem_iff, ht.timeout_eq, ht.sorted, ?_, ht.initTick_lt,
      ht.periodic_pos⟩
    · show (s.sys.tick + 1) % 2 ^ 32 = _
      rw [ht.tick_eq]
      omega
    · intro x hx
      obtain ⟨_, hhigh⟩ := ht.window x hx
      have := hdue x hx
      omega
  obtain ⟨sys', hcheck, htimely, hafter, hstay⟩ := hnext.check
    (Nat.lt_succ_of_le (List.length_filter_le (fun x => s.due x ≤ s.now + 1) s.sys.list))
  generalize hfired : (s.sys.list.filter fun x => decide (s.due x ≤ s.now + 1)) = fired at *
  have hmem : ∀ x, x ∈ fired ↔ x ∈ s.sys.list ∧ s.due x ≤ s.now + 1 := by
    intro x
    rw [← hfired, List.mem_filter, decide_eq_true_iff]
  have hdue' : ∀ x ∈ sys'.list,
      rearmed { s.sys with tick := (s.sys.tick + 1) % 2 ^ 32 } (s.now + 1) s.due fired x =
        (s.ticked (fired, sys')).due x := by
    intro x hx
    simp only [rearmed, due, ticked]
    by_cases hf : x ∈ fired
    · rw [if_pos ⟨hf, ((hstay x).mp hx).2 hf⟩, if_pos hf, if_pos hf]
    · rw [if_neg (fun h => hf h.1), if_neg hf, if_neg hf]
  refine ⟨s.ticked (fired, sys'), fired, congrArg (Option.map _) hcheck, ⟨?_, ?_, ?_, ?_⟩, rfl,
    ?_, ?_⟩
  · have ht := htimely
    refine ⟨ht.tick_eq, ht.nodup, ht.mem_iff, ?_, ?_, ?_, ht.initTick_lt, ht.periodic_pos⟩
    · intro x hx
      rw [← hdue' x hx]
      exact ht.timeout_eq x hx
    · exact ht.sorted.imp_of_mem fun ha hb hab => by rwa [← hdue' _ ha, ← hdue' _ hb]
    · intro x hx
      rw [← hdue' x hx]
      exact ht.window x hx
  · intro x hx
    show (if x ∈ fired then s.now + 1 else s.since x) ≤ s.now + 1
    split
    · exact le_rfl
    · exact (hs.since_le x ((hstay x).mp hx).1).trans (Nat.le_succ _)
  · intro x hx
    left
    rw [← hdue' x hx]
    exact hafter x hx
  · intro e he
    rcases List.mem_append.mp he with he | he
    · exact hs.log e he
    · obtain ⟨x, hx, rfl⟩ := List.mem_map.mp he
      obtain ⟨hlist, hle⟩ := (hmem x).mp hx
      have hsince := hs.since_le x hlist
      have hahead := hs.ahead x hlist
      rw [due] at hle hahead
      dsimp only
      omega
  · intro x
    rw [hmem, ← hs.timely.mem_iff]
    refine and_congr_right fun hx => ?_
    have hsince := hs.since_le x hx
    have hahead := hs.ahead x hx
    rw [due] at hahead ⊢
    omega
  · intro x
    rw [← hs.timely.mem_iff]
    exact (htimely.mem_iff x).symm.trans (hstay x)

omit [DecidableEq Name] in
theorem Fresh.inv (hs : s.Fresh) : s.Inv := by
  obtain ⟨htick, hlist, hlog, htimers⟩ := hs
  refine ⟨⟨htick, ?_, ?_, ?_, ?_, ?_, fun x => (htimers x).2, ?_⟩, ?_, ?_, ?_⟩
  · rw [hlist]
    exact List.nodup_nil
  · intro x
    rw [hlist, (htimers x).1]
    simp
  all_goals simp [hlist, hlog]

theorem Inv.start_idle (hs : s.Inv) {x : Name} (hx : (s.sys.timer x).activated = false)
    (hpos : (s.sys.timer x).periodic = true → 1 ≤ (s.sys.timer x).initTick) :
    ∃ t, timerMachine.step s (.start x) = some t ∧ t.Inv ∧ t.now = s.now ∧
      t.due = Function.update s.due x (s.now + (s.sys.timer x).initTick) ∧
      t.sys.list = insertDue t.due x s.sys.list ∧
      ∀ y, y ≠ x → t.sys.timer y = s.sys.timer y := by
  obtain ⟨sys', hstart, htimely, hlist, hkept, -⟩ := hs.timely.start hx hpos
  have hdue : (s.started x (true, sys')).due =
      Function.update s.due x (s.now + (s.sys.timer x).initTick) := by
    funext y
    show Function.update s.since x s.now y +
      Function.update s.span x (s.sys.timer x).initTick y = _
    simp only [Function.update_apply]
    split <;> rfl
  have hstep : timerMachine.step s (.start x) = some (s.started x (true, sys')) :=
    congrArg (Option.map _) hstart
  rw [← hdue] at htimely hlist
  have hold : ∀ y ∈ sys'.list, y ≠ x → y ∈ s.sys.list := by
    intro y hy hne
    rw [hlist] at hy
    exact (mem_insertDue.mp hy).resolve_left hne
  refine ⟨_, hstep, ⟨htimely, ?_, ?_, hs.log⟩, rfl, hdue, hlist, hkept⟩
  · intro y hy
    show Function.update s.since x s.now y ≤ s.now
    rcases eq_or_ne y x with rfl | hne
    · rw [Function.update_self]
    · rw [Function.update_of_ne hne]
      exact hs.since_le y (hold y hy hne)
  · intro y hy
    show s.now < (s.started x (true, sys')).due y ∨ Function.update s.since x s.now y = s.now
    rcases eq_or_ne y x with rfl | hne
    · right
      rw [Function.update_self]
    · rw [hdue, Function.update_of_ne hne, Function.update_of_ne hne]
      exact hs.ahead y (hold y hy hne)

theorem Inv.step {a : TimerAction Name} (hs : s.Inv) (hproper : s.Proper a)
    (hstep : timerMachine.step s a = some t) : t.Inv := by
  cases a with
  | tick =>
      obtain ⟨t', -, hstep', hinv, -⟩ := hs.tick
      exact Option.some.inj (hstep'.symm.trans hstep) ▸ hinv
  | start x =>
      cases hx : (s.sys.timer x).activated with
      | false =>
          obtain ⟨t', hstep', hinv, -⟩ := hs.start_idle hx hproper
          exact Option.some.inj (hstep'.symm.trans hstep) ▸ hinv
      | true =>
          have hsame : rtTimerStart s.sys x = some (false, s.sys) := if_pos hx
          have hstep' : timerMachine.step s (.start x) = some s :=
            congrArg (Option.map (s.started x)) hsame
          exact Option.some.inj (hstep'.symm.trans hstep) ▸ hs
  | stop x =>
      obtain rfl := Option.some.inj hstep
      cases hx : (s.sys.timer x).activated with
      | false =>
          have hsame : (rtTimerStop s.sys x).2 = s.sys :=
            congrArg Prod.snd (if_neg (by rw [hx]; exact Bool.false_ne_true))
          rw [hsame]
          exact hs
      | true =>
          have hstop : (rtTimerStop s.sys x).2 =
              { s.sys with list := s.sys.list.erase x }.modify x
                fun t => { t with activated := false } := congrArg Prod.snd (if_pos hx)
          have hsub : ∀ y ∈ s.sys.list.erase x, y ∈ s.sys.list :=
            fun y hy => List.mem_of_mem_erase hy
          rw [hstop]
          exact ⟨hs.timely.remove x, fun y hy => hs.since_le y (hsub y hy),
            fun y hy => hs.ahead y (hsub y hy), hs.log⟩
  | setTime x time =>
      obtain rfl := Option.some.inj hstep
      exact ⟨hs.timely.control (f := fun t => { t with initTick := time }) x (fun _ => rfl)
        (fun _ => rfl) hproper.1 hproper.2, hs.since_le, hs.ahead, hs.log⟩
  | setPeriodic x periodic =>
      obtain rfl := Option.some.inj hstep
      exact ⟨hs.timely.control (f := fun t => { t with periodic := periodic }) x (fun _ => rfl)
        (fun _ => rfl) (hs.timely.initTick_lt x) hproper, hs.since_le, hs.ahead, hs.log⟩

end TimerRun

/-- Three timers shortly before the counter wraps; the last one is periodic. -/
def TimerRun.small : TimerRun (Fin 3) where
  sys := ⟨2 ^ 32 - 2, fun x => ⟨0, 3, false, x == 2⟩, []⟩
  now := 2 ^ 32 - 2
  since _ := 0
  span _ := 0
  log := []

def TimerRun.smallRun : List (TimerAction (Fin 3)) :=
  [.start 2, .tick, .start 1, .setTime 1 0, .start 0, .stop 0, .tick]

instance decidableProper (s : TimerRun Name) : ∀ a, Decidable (s.Proper a)
  | .tick | .stop _ => isTrue trivial
  | .start _ | .setTime _ _ | .setPeriodic _ _ => by unfold TimerRun.Proper; infer_instance

end

end TdPrinter
