import TdPrinter.Heater.SubBoard
import TdPrinter.Foundation.Machine

/-!
# The heater lock and the filament dialog

Three places write the lock of the sub-board driver: the manual temperature mode
of the config screen (`temperLocker`, remembered in `gTemperLocker`), its target
buttons (`temperModify`), and the filament dialog, which heats to 220 degrees
under a lock of its own.  Closing the dialog should turn the heater down and give
the lock back.  The closing path, however, never lifts the lock it took: both
`corePrinter_stop` and the final `sboard_setTemper(20)` are ignored.

`heater_lock_iff` says exactly which histories keep the law: those in which every
dialog is closed in a state where somebody else has already put the lock right.
`modal_close_breaks` adds that with the config buttons out of reach behind the
open dialog, which is how the screens are built, no closing ever is.
-/

namespace TdPrinter

/-- `DEFAULT_TEMP` of `TDPRINTER_B`. -/
def defaultTemp : UInt16 := 220

/-- What the heater controls share: the driver, the manual-mode flag of the
config screen, the device that feeds the G-code thread (0 is the console, 1 a
printed file), and the filament dialog.

`filament` is the lock found when the open filament dialog was opened.  `closed`
is the lock found by the dialog that the last event closed. -/
structure HeaterPanel where
  board : SubBoard
  gTemperLocker : UInt8
  currentDevice : UInt8
  filament : Option UInt8
  closed : Option UInt8

/-- After `corePrinter_init`. -/
def HeaterPanel.boot : HeaterPanel := ⟨.boot, 0, 0, none, none⟩

/-- `temperLocker`, the button that switches between automatic and manual mode. -/
def temperLocker (p : HeaterPanel) : HeaterPanel :=
  if p.gTemperLocker = 0 then
    let board := if p.currentDevice = 0 then sboardSetTemper p.board defaultTemp else p.board
    { p with gTemperLocker := 1, board := sboardSetLock board 1 }
  else
    let board := sboardSetLock p.board 0
    { p with
      gTemperLocker := 0
      board := if p.currentDevice = 0 then sboardSetTemper board 0 else board }

/-- `temperModify`. -/
def temperModify (p : HeaterPanel) (temper : UInt16) : HeaterPanel :=
  if p.gTemperLocker = 1 then
    { p with board := sboardSetLock (sboardSetTemper (sboardSetLock p.board 0) temper) 1 }
  else p

/-- The buttons that call `temperModify`: raise or lower the target by `n`, or
set the default. -/
inductive ModifyButton
  | raise (n : UInt16)
  | lower (n : UInt16)
  | reset

/-- `temperP1`, `temperP10`, `temperM1`, `temperM10` and `temperE0`. -/
def modifyPressed (p : HeaterPanel) : ModifyButton → HeaterPanel
  | .raise n =>
      if p.board.temperDst > defaultTemp + 50 then p else temperModify p (p.board.temperDst + n)
  | .lower n =>
      if p.board.temperDst < defaultTemp - 50 then p else temperModify p (p.board.temperDst - n)
  | .reset => temperModify p defaultTemp

/-- The heater side of `corePrinter_start`: the file becomes the current device. -/
def panelPrinterStart (p : HeaterPanel) : HeaterPanel := { p with currentDevice := 1 }

/-- The heater side of `corePrinter_stop`: target and fans off, and the console
is the current device again. -/
def panelPrinterStop (p : HeaterPanel) : HeaterPanel :=
  { p with board := sboardSetFan (sboardSetTemper p.board 0) 0, currentDevice := 0 }

/-- `switch_dialog` with flag 2 or 3. -/
def switchFilamentDialog (p : HeaterPanel) : HeaterPanel :=
  { p with
    board := sboardSetLock (sboardSetTemper (sboardSetLock p.board 0) 220) 1
    filament := some p.board.slock }

/-- `button_filamentCancel`. -/
def filamentCancel (p : HeaterPanel) : HeaterPanel :=
  let stopped := panelPrinterStop p
  -- the lock is not touched on this path
  { stopped with
    board := sboardSetTemper stopped.board 20
    filament := none
    closed := p.filament }

/-- The events of a history.  `m104` and `m109` carry the `S` word if there is
one. -/
inductive HeaterAction
  | m104 (s : Option ℤ)
  | m109 (s : Option ℤ)
  | locker
  | modify (b : ModifyButton)
  | openFilament
  | closeFilament
  | printerStart
  | printerStop

/-- One event.  A filament dialog is opened when none is open, and closed when
one is. -/
def HeaterPanel.step (p : HeaterPanel) : HeaterAction → Option HeaterPanel
  | .m104 s => some { p with
      board := sboardSetTemper p.board (s.elim 0 UInt16.ofInt), closed := none }
  | .m109 s => some { p with
      board := s.elim p.board fun t => sboardSetTemper p.board (UInt16.ofInt t), closed := none }
  | .locker => some { temperLocker p with closed := none }
  | .modify b => some { modifyPressed p b with closed := none }
  | .openFilament =>
      if p.filament.isNone then some { switchFilamentDialog p with closed := none } else none
  | .closeFilament => if p.filament.isSome then some (filamentCancel p) else none
  | .printerStart => some { panelPrinterStart p with closed := none }
  | .printerStop => some { panelPrinterStop p with closed := none }

def heaterMachine : Machine HeaterPanel HeaterAction := ⟨HeaterPanel.step⟩

/-- The law: a dialog that has just been closed has left the target at 20 degrees
or less and the lock as it found it, and while no filament dialog is open the
lock is that of the manual mode, so that in automatic mode every `M104` takes
effect. -/
structure HeaterPanel.LockLaw (p : HeaterPanel) : Prop where
  turnedDown : ∀ before, p.closed = some before →
    p.board.temperDst ≤ 20 ∧ p.board.slock = before
  manual : p.filament = none → p.board.slock = p.gTemperLocker
  automatic : p.filament = none → p.gTemperLocker = 0 →
    ∀ t, (sboardSetTemper p.board t).temperDst = t

/-- What a closing needs of the state before it: the lock is back at the value
found by the dialog, that is the one of the current mode, and either it is off or
the target has already been brought down. -/
def ClosedInOrder (p : HeaterPanel) : HeaterAction → Prop
  | .closeFilament => ∀ before, p.filament = some before →
      p.board.slock = before ∧ p.board.slock = p.gTemperLocker ∧
        (p.board.slock = 0 ∨ p.board.temperDst ≤ 20)
  | _ => True

/-! ## What one event does to the lock -/

/-- The law without its first clause, which only speaks about closings. -/
theorem lockLaw_of_manual {p : HeaterPanel} (hclosed : p.closed = none)
    (hmanual : p.filament = none → p.board.slock = p.gTemperLocker) : p.LockLaw where
  turnedDown := by simp [hclosed]
  manual := hmanual
  automatic hnone hauto t := by
    rw [sboardSetTemper_temperDst, if_pos ((hmanual hnone).trans hauto)]

theorem temperLocker_lock (p : HeaterPanel) :
    (temperLocker p).board.slock = (temperLocker p).gTemperLocker := by
  unfold temperLocker
  split
  · rfl
  · dsimp only
    split <;> simp

@[simp] theorem temperLocker_filament (p : HeaterPanel) :
    (temperLocker p).filament = p.filament := by
  unfold temperLocker
  split <;> rfl

theorem temperModify_lock {p : HeaterPanel} (temper : UInt16)
    (h : p.board.slock = p.gTemperLocker) :
    (temperModify p temper).board.slock = (temperModify p temper).gTemperLocker := by
  unfold temperModify
  split
  · rename_i hmanual
    exact hmanual.symm
  · exact h

@[simp] theorem temperModify_filament (p : HeaterPanel) (temper : UInt16) :
    (temperModify p temper).filament = p.filament := by
  unfold temperModify
  split <;> rfl

theorem modifyPressed_lock {p : HeaterPanel} (b : ModifyButton)
    (h : p.board.slock = p.gTemperLocker) :
    (modifyPressed p b).board.slock = (modifyPressed p b).gTemperLocker := by
  cases b with
  | raise n =>
      simp only [modifyPressed]
      split
      · exact h
      · exact temperModify_lock _ h
  | lower n =>
      simp only [modifyPressed]
      split
      · exact h
      · exact temperModify_lock _ h
  | reset => exact temperModify_lock _ h

@[simp] theorem modifyPressed_filament (p : HeaterPanel) (b : ModifyButton) :
    (modifyPressed p b).filament = p.filament := by
  cases b <;> simp only [modifyPressed] <;> (try split) <;> simp

/-- The target after a closing: nothing happens to it while the lock is on. -/
theorem filamentCancel_temperDst (p : HeaterPanel) :
    (filamentCancel p).board.temperDst =
      if p.board.slock = 0 then 20 else p.board.temperDst := by
  simp only [filamentCancel, panelPrinterStop, sboardSetTemper_temperDst, sboardSetFan_slock,
    sboardSetTemper_slock, sboardSetFan_temperDst]
  split <;> rfl

@[simp] theorem filamentCancel_slock (p : HeaterPanel) :
    (filamentCancel p).board.slock = p.board.slock := by
  simp [filamentCancel, panelPrinterStop]

/-- A closing keeps the law exactly when it happens in order. -/
theorem filamentCancel_lockLaw_iff {p : HeaterPanel} {before : UInt8}
    (hopen : p.filament = some before) :
    (filamentCancel p).LockLaw ↔ ClosedInOrder p .closeFilament := by
  have hlock : (filamentCancel p).gTemperLocker = p.gTemperLocker := rfl
  constructor
  · intro law b hb
    obtain ⟨htemper, hslock⟩ := law.turnedDown b hb
    rw [filamentCancel_slock] at hslock
    have hmanual := law.manual rfl
    rw [filamentCancel_slock, hlock] at hmanual
    refine ⟨hslock, hmanual, ?_⟩
    rw [filamentCancel_temperDst] at htemper
    split at htemper
    · rename_i hzero
      exact Or.inl hzero
    · exact Or.inr htemper
  · intro hclose
    obtain ⟨hslock, hmanual, htemper⟩ := hclose before hopen
    refine ⟨?_, fun _ => ?_, fun _ hauto t => ?_⟩
    · intro b hb
      obtain rfl : before = b := Option.some_inj.mp (hopen.symm.trans hb)
      refine ⟨?_, by rw [filamentCancel_slock, hslock]⟩
      rw [filamentCancel_temperDst]
      split
      · exact UInt16.le_refl 20
      · rename_i hne
        exact htemper.resolve_left hne
    · rw [filamentCancel_slock, hlock, hmanual]
    · rw [sboardSetTemper_temperDst, filamentCancel_slock, hmanual]
      exact if_pos hauto

theorem step_lockLaw {p q : HeaterPanel} {a : HeaterAction} (law : p.LockLaw)
    (ha : a ≠ .closeFilament) (hstep : p.step a = some q) : q.LockLaw := by
  cases a with
  | m104 s =>
      obtain rfl := Option.some_inj.mp hstep
      exact lockLaw_of_manual rfl fun hnone => by simpa using law.manual hnone
  | m109 s =>
      obtain rfl := Option.some_inj.mp hstep
      refine lockLaw_of_manual rfl ?_
      intro hnone
      cases s with
      | none => exact law.manual hnone
      | some t => simpa using law.manual hnone
  | locker =>
      obtain rfl := Option.some_inj.mp hstep
      exact lockLaw_of_manual rfl fun _ => temperLocker_lock p
  | modify b =>
      obtain rfl := Option.some_inj.mp hstep
      refine lockLaw_of_manual rfl fun hnone => modifyPressed_lock b (law.manual ?_)
      simpa using hnone
  | openFilament =>
      simp only [HeaterPanel.step] at hstep
      split at hstep
      · obtain rfl := Option.some_inj.mp hstep
        exact lockLaw_of_manual rfl fun hnone => by simp [switchFilamentDialog] at hnone
      · simp at hstep
  | closeFilament => exact absurd rfl ha
  | printerStart =>
      obtain rfl := Option.some_inj.mp hstep
      exact lockLaw_of_manual rfl law.manual
  | printerStop =>
      obtain rfl := Option.some_inj.mp hstep
      exact lockLaw_of_manual rfl fun hnone => by
        simpa [panelPrinterStop] using law.manual hnone

/-! ## Histories -/

/-- A history keeps the heater-lock law throughout exactly when each of its
filament dialogs is closed in order. -/
theorem heater_lock_iff (history : List HeaterAction) :
    heaterMachine.Always HeaterPanel.LockLaw .boot history ↔
      heaterMachine.AllSteps ClosedInOrder .boot history := by
  refine Machine.always_iff_allSteps (J := HeaterPanel.LockLaw) (fun _ h => h) ?_ ?_
    (lockLaw_of_manual rfl fun _ => rfl) history
  · intro p a q law hstep horder
    by_cases ha : a = .closeFilament
    · subst ha
      simp only [heaterMachine, HeaterPanel.step] at hstep
      split at hstep
      · rename_i hopen
        obtain ⟨before, hbefore⟩ := Option.isSome_iff_exists.mp hopen
        obtain rfl := Option.some_inj.mp hstep
        exact (filamentCancel_lockLaw_iff hbefore).mpr horder
      · simp at hstep
    · exact step_lockLaw law ha hstep
  · intro p a q law hstep hdisorder hlaw
    cases a with
    | closeFilament =>
        simp only [heaterMachine, HeaterPanel.step] at hstep
        split at hstep
        · rename_i hopen
          obtain ⟨before, hbefore⟩ := Option.isSome_iff_exists.mp hopen
          obtain rfl := Option.some_inj.mp hstep
          exact hdisorder ((filamentCancel_lockLaw_iff hbefore).mp hlaw)
        · simp at hstep
    | m104 s => exact hdisorder trivial
    | m109 s => exact hdisorder trivial
    | locker => exact hdisorder trivial
    | modify b => exact hdisorder trivial
    | openFilament => exact hdisorder trivial
    | printerStart => exact hdisorder trivial
    | printerStop => exact hdisorder trivial

/-- The shortest failing history: open the dialog after power-on and close it. -/
theorem filament_dialog_leaves_heater_on :
    ¬ heaterMachine.Always HeaterPanel.LockLaw .boot [.openFilament, .closeFilament] := by
  rw [heater_lock_iff]
  intro hall
  obtain ⟨-, hrest⟩ := hall _ rfl
  obtain ⟨hclose, -⟩ := hrest _ rfl
  obtain ⟨hslock, -⟩ := hclose 0 rfl
  exact absurd hslock (by decide)

/-! ## The screens as they are built -/

/-- The config buttons cannot be pressed behind an open filament dialog. -/
def Modal (p : HeaterPanel) : HeaterAction → Prop
  | .locker => p.filament = none
  | .modify _ => p.filament = none
  | _ => True

/-- Behind an open dialog the heater stays at 220 degrees under a lock. -/
def HeaterPanel.HeldAt220 (p : HeaterPanel) : Prop :=
  p.filament ≠ none → p.board.slock = 1 ∧ p.board.temperDst = 220

theorem step_heldAt220 {p q : HeaterPanel} {a : HeaterAction} (held : p.HeldAt220)
    (hmodal : Modal p a) (hstep : p.step a = some q) : q.HeldAt220 := by
  intro hopen
  cases a with
  | m104 s =>
      obtain rfl := Option.some_inj.mp hstep
      obtain ⟨hlock, htemper⟩ := held hopen
      simp [sboardSetTemper_temperDst, hlock, htemper]
  | m109 s =>
      obtain rfl := Option.some_inj.mp hstep
      obtain ⟨hlock, htemper⟩ := held hopen
      cases s with
      | none => exact ⟨hlock, htemper⟩
      | some t => simp [sboardSetTemper_temperDst, hlock, htemper]
  | locker =>
      obtain rfl := Option.some_inj.mp hstep
      exact absurd ((temperLocker_filament p).trans hmodal) hopen
  | modify b =>
      obtain rfl := Option.some_inj.mp hstep
      exact absurd ((modifyPressed_filament p b).trans hmodal) hopen
  | openFilament =>
      simp only [HeaterPanel.step] at hstep
      split at hstep
      · obtain rfl := Option.some_inj.mp hstep
        exact ⟨rfl, locked_write_temperDst p.board 220 1⟩
      · simp at hstep
  | closeFilament =>
      simp only [HeaterPanel.step] at hstep
      split at hstep
      · obtain rfl := Option.some_inj.mp hstep
        exact absurd rfl hopen
      · simp at hstep
  | printerStart =>
      obtain rfl := Option.some_inj.mp hstep
      exact held hopen
  | printerStop =>
      obtain rfl := Option.some_inj.mp hstep
      obtain ⟨hlock, htemper⟩ := held hopen
      simp [panelPrinterStop, sboardSetTemper_temperDst, hlock, htemper]

/-- In modal histories every closing of a filament dialog breaks the law: the
heater is left at 220 degrees with the lock on. -/
theorem modal_close_breaks {p q : HeaterPanel}
    (h : heaterMachine.Reachable (· = .boot) Modal p) (hstep : p.step .closeFilament = some q) :
    q.board.temperDst = 220 ∧ q.board.slock = 1 ∧ ¬ q.LockLaw := by
  have held : p.HeldAt220 := h.invariant (I := HeaterPanel.HeldAt220)
    (by rintro _ rfl hopen; exact absurd rfl hopen)
    (fun _ _ _ held hmodal hstep => step_heldAt220 held hmodal hstep)
  simp only [HeaterPanel.step] at hstep
  split at hstep
  · rename_i hopen
    obtain ⟨before, hbefore⟩ := Option.isSome_iff_exists.mp hopen
    obtain rfl := Option.some_inj.mp hstep
    obtain ⟨hlock, htemper⟩ := held (by simp [hbefore])
    have hhot : (filamentCancel p).board.temperDst = 220 := by
      rw [filamentCancel_temperDst, hlock, htemper]
      rfl
    refine ⟨hhot, by rw [filamentCancel_slock, hlock], ?_⟩
    intro law
    have hdown := (law.turnedDown before hbefore).1
    rw [hhot] at hdown
    exact absurd hdown (by decide)
  · simp at hstep

end TdPrinter
