import Mathlib.Logic.Function.Basic
import TdPrinter.Foundation.Machine

/-!
# The USB block device

The file system reads and writes a USB stick through `rt_usb_read` and `rt_usb_write`.
While the stick is not mounted, and in particular while it is being mounted, they
transfer the sectors themselves.  Afterwards they leave the request in `reqStatus` and
`ioParam` and wait until `USBH_USR_MSC_Application` has served it; this runs in the
thread of the USB host, as does `USBH_USR_DeviceDisconnected`.

The result is the number of sectors transferred.  The direct path takes a stick that is
not connected for one that has nothing to transfer, and returns the error code 1, which
is a number of sectors too, when it is unplugged.  On the other path the number in
`ioParam` is set to zero after an error, but the caller returns its own.
`results_truthful_iff` is the exact condition for all results to be true.
-/

namespace TdPrinter

/-- `USBH_MSC_Status_TypeDef`. -/
inductive MscStatus
  | ok
  | fail
  | phaseError
  | busy
  deriving DecidableEq

/-- `USB_APP_STATUS`. -/
inductive UsbAppStatus
  | notPlugin
  | mountFailed
  | mountSucc
  deriving DecidableEq

/-- `USB_APP_REQUEST`. -/
inductive UsbAppRequest
  | none
  | reading
  | writing
  deriving DecidableEq

/-- `USB_APP_PARAM`, as far as the results are concerned. -/
structure UsbAppParam where
  status : MscStatus
  size : ℕ

/-- What has become of the sectors of a request. -/
inductive Transfer
  | unserved
  /-- all of them were transferred, with status `USBH_MSC_OK` -/
  | transferred
  /-- an error or a disconnect has ended the transfer -/
  | cutOff
  deriving DecidableEq

/-- A call of `rt_usb_read` or `rt_usb_write`. -/
inductive UsbCall
  | fresh
  /-- in the loop of the direct path -/
  | direct (size : ℕ)
  /-- waiting for the request to be served -/
  | waiting (size : ℕ) (transfer : Transfer)
  | returned (size result : ℕ) (transfer : Transfer)
  deriving DecidableEq

/-- The device, and all calls of its two functions. -/
structure MassStorage where
  appStatus : UsbAppStatus
  reqStatus : UsbAppRequest
  ioParam : UsbAppParam
  /-- the call whose request is in `ioParam` -/
  owner : ℕ
  /-- `USBH_USR_MSC_Application` is in its loop -/
  serving : Bool
  calls : ℕ → UsbCall

/-- What can happen.  `connected` is the result of `HCD_IsDeviceConnected`, `status` that of
`USBH_MSC_Read10` or `USBH_MSC_Write10`. -/
inductive UsbAction
  /-- the call `i` begins -/
  | read (i size : ℕ) (connected : Bool)
  | write (i size : ℕ) (connected : Bool)
  /-- a turn of the loop of the direct path -/
  | transfer (i : ℕ) (status : MscStatus) (connected : Bool)
  /-- a turn of the loop that waits for the request to be served -/
  | wait (i : ℕ)
  /-- `USBH_USR_MSC_Application` mounts the file system -/
  | mount (succ : Bool)
  /-- it looks for a request -/
  | serve (connected : Bool)
  /-- a turn of its loop -/
  | serveTransfer (status : MscStatus) (connected : Bool)
  /-- `USBH_USR_DeviceDisconnected` -/
  | disconnected

/-! ## The functions -/

/-- `RES_ERROR`. -/
def resError : ℕ := 1

def MassStorage.setCall (s : MassStorage) (i : ℕ) (c : UsbCall) : MassStorage :=
  { s with calls := Function.update s.calls i c }

/-- The result of the direct path behind its loop. -/
def directResult (size : ℕ) (status : MscStatus) : ℕ := if status = .ok then size else 0

/-- The beginning of `rt_usb_read` and `rt_usb_write`, which differ in the request `req`. -/
def rtUsbRequest (req : UsbAppRequest) (s : MassStorage) (i size : ℕ) (connected : Bool) :
    MassStorage :=
  if s.appStatus ≠ .mountSucc then
    -- without a device the loop is left out, and `status` is still `USBH_MSC_OK`
    if connected then s.setCall i (.direct size)
    else s.setCall i (.returned size (directResult size .ok) .unserved)
  else if s.reqStatus ≠ .none then s.setCall i (.returned size 0 .unserved)
  else
    { s.setCall i (.waiting size .unserved) with
      reqStatus := req, ioParam := { s.ioParam with size }, owner := i }

/-- `rt_usb_read`. -/
def rtUsbRead : MassStorage → ℕ → ℕ → Bool → MassStorage := rtUsbRequest .reading

/-- `rt_usb_write`. -/
def rtUsbWrite : MassStorage → ℕ → ℕ → Bool → MassStorage := rtUsbRequest .writing

/-- A turn of the loop of the direct path. -/
def directTurn (size : ℕ) (status : MscStatus) (connected : Bool) : UsbCall :=
  if !connected then .returned size resError .cutOff
  else if status = .busy then .direct size
  else .returned size (directResult size status)
    (if status = .ok then .transferred else .cutOff)

/-- What has become of the request in `ioParam`. -/
def MassStorage.settle (s : MassStorage) (transfer : Transfer) : ℕ → UsbCall :=
  match s.calls s.owner with
  | .waiting size _ => Function.update s.calls s.owner (.waiting size transfer)
  | _ => s.calls

/-- The end of `USBH_USR_MSC_Application` behind its loop. -/
def MassStorage.served (s : MassStorage) (status : MscStatus) (transfer : Transfer) : MassStorage :=
  { s with
    ioParam := { status, size := if status ≠ .ok then 0 else s.ioParam.size }
    reqStatus := .none
    serving := false
    calls := s.settle transfer }

/-- `USBH_USR_MSC_Application` with the file system mounted, up to its loop. -/
def usbhUsrMscApplication (s : MassStorage) (connected : Bool) : MassStorage :=
  if s.reqStatus = .none then s
  else if connected then { s with serving := true, ioParam := { s.ioParam with status := .ok } }
  else s.served .ok .unserved

/-- A turn of its loop.  `RES_ERROR` is the same number as `USBH_MSC_FAIL`. -/
def serveTurn (s : MassStorage) (status : MscStatus) (connected : Bool) : MassStorage :=
  if !connected then s.served .fail .cutOff
  else if status = .busy then { s with ioParam := { s.ioParam with status } }
  else s.served status (if status = .ok then .transferred else .cutOff)

/-- `USBH_USR_DeviceDisconnected`. -/
def usbhUsrDeviceDisconnected (s : MassStorage) : MassStorage :=
  if s.appStatus ≠ .notPlugin then
    { s with
      appStatus := .notPlugin
      reqStatus := .none
      calls := if s.reqStatus = .none then s.calls else s.settle .cutOff }
  else s

def MassStorage.step (s : MassStorage) : UsbAction → Option MassStorage
  | .read i size connected =>
      if s.calls i = .fresh then some (rtUsbRead s i size connected) else none
  | .write i size connected =>
      if s.calls i = .fresh then some (rtUsbWrite s i size connected) else none
  | .transfer i status connected =>
      match s.calls i with
      | .direct size => some (s.setCall i (directTurn size status connected))
      | _ => none
  | .wait i =>
      match s.calls i with
      | .waiting size transfer =>
          if s.reqStatus = .none then some (s.setCall i (.returned size size transfer)) else some s
      | _ => none
  | .mount succ =>
      if s.appStatus = .notPlugin then
        some { s with appStatus := if succ then .mountSucc else .mountFailed }
      else none
  | .serve connected =>
      if s.appStatus = .mountSucc ∧ s.serving = false then
        some (usbhUsrMscApplication s connected)
      else none
  | .serveTransfer status connected =>
      if s.serving = true then some (serveTurn s status connected) else none
  | .disconnected =>
      -- called by the thread that serves, so not from within its loop
      if s.serving = false then some (usbhUsrDeviceDisconnected s) else none

def massStorage : Machine MassStorage UsbAction := ⟨MassStorage.step⟩

def MassStorage.boot : MassStorage where
  appStatus := .notPlugin
  reqStatus := .none
  ioParam := ⟨.ok, 0⟩
  owner := 0
  serving := false
  calls := fun _ => .fresh

/-! ## True results -/

/-- A number of sectors is the number asked for, and all of them were transferred; a
transfer that was cut off has the result 0. -/
def UsbCall.Truthful : UsbCall → Prop
  | .returned size result transfer =>
      (0 < result → transfer = .transferred ∧ result = size) ∧ (transfer = .cutOff → result = 0)
  | _ => True

def MassStorage.Truthful (s : MassStorage) : Prop := ∀ i, (s.calls i).Truthful

/-- The condition on a step: a call that begins while the stick is not mounted finds it
connected, it is still connected after each turn of the direct path, and a request that was
left to the other thread has been transferred when its call finds it served.  Calls for no
sectors at all are safe. -/
def MassStorage.Honest (s : MassStorage) : UsbAction → Prop
  | .read _ size connected => s.appStatus ≠ .mountSucc → connected = true ∨ size = 0
  | .write _ size connected => s.appStatus ≠ .mountSucc → connected = true ∨ size = 0
  | .transfer _ _ connected => connected = true
  | .wait i => s.reqStatus = .none → ∀ size transfer,
      s.calls i = .waiting size transfer → transfer = .transferred ∨ size = 0
  | _ => True

@[simp]
theorem setCall_calls (s : MassStorage) (i : ℕ) (c : UsbCall) :
    (s.setCall i c).calls = Function.update s.calls i c := rfl

theorem truthful_setCall {s : MassStorage} (h : s.Truthful) (i : ℕ) (c : UsbCall) :
    (s.setCall i c).Truthful ↔ c.Truthful := by
  constructor
  · intro hset
    have := hset i
    rwa [setCall_calls, Function.update_self] at this
  · intro hc j
    by_cases hj : j = i
    · subst hj
      rwa [setCall_calls, Function.update_self]
    · rw [setCall_calls, Function.update_of_ne hj]
      exact h j

/-- A call that still waits has no result to be true. -/
theorem settle_truthful {s : MassStorage} (h : s.Truthful) (transfer : Transfer) (i : ℕ) :
    (s.settle transfer i).Truthful := by
  unfold MassStorage.settle
  cases s.calls s.owner with
  | waiting size old => exact (truthful_setCall h s.owner (.waiting size transfer)).mpr trivial i
  | fresh => exact h i
  | direct size => exact h i
  | returned size result old => exact h i

theorem returned_truthful_iff (size : ℕ) (transfer : Transfer) :
    (UsbCall.returned size size transfer).Truthful ↔ transfer = .transferred ∨ size = 0 := by
  constructor
  · intro h
    rcases Nat.eq_zero_or_pos size with hzero | hpos
    · exact Or.inr hzero
    · exact Or.inl (h.1 hpos).1
  · rintro (htransferred | hzero)
    · exact ⟨fun _ => ⟨htransferred, rfl⟩, fun hcut => by simp [htransferred] at hcut⟩
    · exact ⟨fun hpos => absurd hzero (Nat.ne_of_gt hpos), fun _ => hzero⟩

theorem request_truthful_iff {s : MassStorage} (h : s.Truthful) (req : UsbAppRequest) (i size : ℕ)
    (connected : Bool) : (rtUsbRequest req s i size connected).Truthful ↔
      (s.appStatus ≠ .mountSucc → connected = true ∨ size = 0) := by
  unfold rtUsbRequest
  by_cases happ : s.appStatus = .mountSucc
  · rw [if_neg (by simp [happ])]
    refine iff_of_true ?_ fun hne => absurd happ hne
    split
    · exact (truthful_setCall h _ _).mpr ⟨by simp, fun _ => rfl⟩
    · exact (truthful_setCall h i (.waiting size .unserved)).mpr trivial
  · rw [if_pos happ]
    cases connected with
    | true => exact iff_of_true ((truthful_setCall h _ _).mpr trivial) (by simp)
    | false =>
        refine (truthful_setCall h _ _).trans ?_
        refine (returned_truthful_iff size .unserved).trans ?_
        simp [happ]

theorem directTurn_truthful_iff (size : ℕ) (status : MscStatus) (connected : Bool) :
    (directTurn size status connected).Truthful ↔ connected = true := by
  unfold directTurn
  cases connected with
  | false => simp [UsbCall.Truthful, resError]
  | true =>
      refine iff_of_true ?_ rfl
      cases status <;> simp [UsbCall.Truthful, directResult]

theorem transfer_truthful_iff {s t : MassStorage} (h : s.Truthful) {i : ℕ} {status : MscStatus}
    {connected : Bool} (hstep : s.step (.transfer i status connected) = some t) :
    t.Truthful ↔ connected = true := by
  rw [MassStorage.step] at hstep
  cases hcall : s.calls i with
  | direct size =>
      rw [hcall] at hstep
      obtain rfl := Option.some.inj hstep
      exact (truthful_setCall h _ _).trans (directTurn_truthful_iff size status connected)
  | fresh => simp [hcall] at hstep
  | waiting size transfer => simp [hcall] at hstep
  | returned size result transfer => simp [hcall] at hstep

/-- The result of a call that waits, when it finds its request served. -/
theorem wait_truthful_iff {s t : MassStorage} (h : s.Truthful) {i : ℕ}
    (hstep : s.step (.wait i) = some t) : t.Truthful ↔ s.Honest (.wait i) := by
  rw [MassStorage.step] at hstep
  cases hcall : s.calls i with
  | waiting size transfer =>
      rw [hcall] at hstep
      by_cases hserved : s.reqStatus = .none
      · simp only [hserved, if_true] at hstep
        obtain rfl := Option.some.inj hstep
        refine (truthful_setCall h _ _).trans ((returned_truthful_iff size transfer).trans ?_)
        simp [MassStorage.Honest, hserved, hcall]
      · simp only [hserved, if_false] at hstep
        obtain rfl := Option.some.inj hstep
        exact iff_of_true h fun hnone => absurd hnone hserved
  | direct size => simp [hcall] at hstep
  | fresh => simp [hcall] at hstep
  | returned size result transfer => simp [hcall] at hstep

/-- The thread of the USB host returns no results. -/
theorem application_truthful {s : MassStorage} (h : s.Truthful) (connected : Bool) :
    (usbhUsrMscApplication s connected).Truthful := by
  unfold usbhUsrMscApplication
  split
  · exact h
  · split
    · exact h
    · exact settle_truthful h .unserved

theorem serveTurn_truthful {s : MassStorage} (h : s.Truthful) (status : MscStatus)
    (connected : Bool) : (serveTurn s status connected).Truthful := by
  unfold serveTurn
  split
  · exact settle_truthful h .cutOff
  · split
    · exact h
    · exact settle_truthful h _

theorem disconnected_truthful {s : MassStorage} (h : s.Truthful) :
    (usbhUsrDeviceDisconnected s).Truthful := by
  unfold usbhUsrDeviceDisconnected
  split
  · intro i
    simp only
    split
    · exact h i
    · exact settle_truthful h .cutOff i
  · exact h

/-- A step leaves all results true if and only if it meets the condition. -/
theorem step_truthful_iff {s t : MassStorage} {a : UsbAction} (h : s.Truthful)
    (hstep : massStorage.step s a = some t) : t.Truthful ↔ s.Honest a := by
  cases a with
  | read i size connected =>
      obtain ⟨_, hstep⟩ := Option.ite_none_right_eq_some.mp hstep
      obtain rfl := Option.some.inj hstep
      exact request_truthful_iff h .reading i size connected
  | write i size connected =>
      obtain ⟨_, hstep⟩ := Option.ite_none_right_eq_some.mp hstep
      obtain rfl := Option.some.inj hstep
      exact request_truthful_iff h .writing i size connected
  | transfer i status connected => exact transfer_truthful_iff h hstep
  | wait i => exact wait_truthful_iff h hstep
  | mount succ =>
      obtain ⟨_, hstep⟩ := Option.ite_none_right_eq_some.mp hstep
      obtain rfl := Option.some.inj hstep
      exact iff_of_true h trivial
  | serve connected =>
      obtain ⟨_, hstep⟩ := Option.ite_none_right_eq_some.mp hstep
      obtain rfl := Option.some.inj hstep
      exact iff_of_true (application_truthful h connected) trivial
  | serveTransfer status connected =>
      obtain ⟨_, hstep⟩ := Option.ite_none_right_eq_some.mp hstep
      obtain rfl := Option.some.inj hstep
      exact iff_of_true (serveTurn_truthful h status connected) trivial
  | disconnected =>
      obtain ⟨_, hstep⟩ := Option.ite_none_right_eq_some.mp hstep
      obtain rfl := Option.some.inj hstep
      exact iff_of_true (disconnected_truthful h) trivial

/-! ## Runs -/

/-- All results of a run are true if and only if all of its steps meet the condition. -/
theorem results_truthful_iff (as : List UsbAction) :
    massStorage.Always MassStorage.Truthful .boot as ↔
      massStorage.AllSteps MassStorage.Honest .boot as :=
  Machine.always_iff_allSteps (J := MassStorage.Truthful) (fun _ h => h)
    (fun _ _ _ h hstep hC => (step_truthful_iff h hstep).mpr hC)
    (fun _ _ _ h hstep hC htrue => hC ((step_truthful_iff h hstep).mp htrue))
    (fun i => by simp [MassStorage.boot, UsbCall.Truthful]) as

/-- Reading eight sectors from a mounted stick fails, and eight is the result. -/
theorem failed_read_returns_eight :
    ¬ massStorage.Always MassStorage.Truthful .boot
      [.mount true, .read 0 8 true, .serve true, .serveTransfer .fail true, .wait 0] := by
  intro halways
  have hexec : (massStorage.exec .boot
      [.mount true, .read 0 8 true, .serve true, .serveTransfer .fail true, .wait 0]).map
        (fun s => s.calls 0) = some (.returned 8 8 .cutOff) := by
    decide
  obtain ⟨s, hs, hcall⟩ := Option.map_eq_some_iff.mp hexec
  have htrue := halways.exec hs 0
  rw [hcall, returned_truthful_iff] at htrue
  exact absurd htrue (by decide)

end TdPrinter
