import Mathlib.Data.Int.Notation
import Mathlib.Logic.Basic

/-!
# The sub-board driver

`app_subboard.c` talks to the board that heats the extruder.  What the rest of
the firmware sees of it are a few static variables and their setters: the
measured temperature, the target `temperDst` that goes out with the next frame,
the two fan duties, and the lock `slock` that makes `sboard_setTemper` do
nothing.
-/

namespace TdPrinter

/-- The static variables of `app_subboard.c` behind the setters. -/
structure SubBoard where
  temper : ℤ
  temperDst : UInt16
  fan1 : UInt8
  fan2 : UInt8
  slock : UInt8

def SubBoard.boot : SubBoard := ⟨0, 0, 0, 0, 0⟩

/-- `sboard_setTemper`: ignored while the lock is set. -/
def sboardSetTemper (b : SubBoard) (temper : UInt16) : SubBoard :=
  if b.slock = 0 then { b with temperDst := temper } else b

/-- `sboard_setLock`. -/
def sboardSetLock (b : SubBoard) (lock : UInt8) : SubBoard := { b with slock := lock }

/-- `sboard_setFan`. -/
def sboardSetFan (b : SubBoard) (fan : UInt8) : SubBoard := { b with fan1 := fan, fan2 := fan }

/-- `sboard_setFan1`, the model fan. -/
def sboardSetFan1 (b : SubBoard) (fan : UInt8) : SubBoard := { b with fan1 := fan }

/-- `sboard_setFan2`, the extruder fan. -/
def sboardSetFan2 (b : SubBoard) (fan : UInt8) : SubBoard := { b with fan2 := fan }

@[simp] theorem sboardSetTemper_slock (b : SubBoard) (temper : UInt16) :
    (sboardSetTemper b temper).slock = b.slock := by
  unfold sboardSetTemper
  split <;> rfl

theorem sboardSetTemper_temperDst (b : SubBoard) (temper : UInt16) :
    (sboardSetTemper b temper).temperDst = if b.slock = 0 then temper else b.temperDst := by
  unfold sboardSetTemper
  split <;> rfl

@[simp] theorem sboardSetLock_slock (b : SubBoard) (lock : UInt8) :
    (sboardSetLock b lock).slock = lock := rfl

@[simp] theorem sboardSetLock_temperDst (b : SubBoard) (lock : UInt8) :
    (sboardSetLock b lock).temperDst = b.temperDst := rfl

@[simp] theorem sboardSetFan_slock (b : SubBoard) (fan : UInt8) :
    (sboardSetFan b fan).slock = b.slock := rfl

@[simp] theorem sboardSetFan_temperDst (b : SubBoard) (fan : UInt8) :
    (sboardSetFan b fan).temperDst = b.temperDst := rfl

/-- Writing a target under a lifted lock: what the dialogs and the manual mode
do. -/
theorem locked_write_temperDst (b : SubBoard) (temper : UInt16) (lock : UInt8) :
    (sboardSetLock (sboardSetTemper (sboardSetLock b 0) temper) lock).temperDst = temper := by
  simp [sboardSetTemper_temperDst]

end TdPrinter
