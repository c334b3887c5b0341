import TdPrinter.GCode.GetLine
import TdPrinter.Print.CorePrinter

/-!
# The end of the file

`corePrinter_thread` takes a print for finished when `fd.pos` has reached `fd.size`.
The G-code thread may then still have a line to execute: `getLine` returns a line after
its last byte was read, and a last line without an end it never returns.

Here the commands are the lines of the file, byte by byte; what they do to the motion
queue is left out, and the wait for it ends at any time.  `all_executed_iff` is the exact
condition for every line to be executed: at the call of `corePrinter_stop` the G-code
thread is back in `getLine`, and nothing that could be a command follows the last line
end of the file.
-/

namespace TdPrinter

inductive ReadingStage
  /-- in `getLine`, with these bytes in `lineBuffer` -/
  | reading (lineBuffer : List UInt8)
  /-- in front of `stepGCodeProcessor_run` -/
  | ready (lineBuffer : List UInt8)
  | deleted
  deriving DecidableEq

/-- A print in progress, as far as its lines are concerned. -/
structure FilePrint where
  file : List UInt8
  /-- `fd.pos` -/
  pos : ℕ
  gcode : ReadingStage
  printer : PrinterStage
  /-- the texts of the lines given to `stepGCodeProcessor_run` -/
  executed : List (List UInt8)
  deriving DecidableEq

inductive FilePrintAction
  /-- a turn of the loop of `getLine` -/
  | readByte
  /-- `stepGCodeProcessor_run` -/
  | run
  /-- `corePrinter_thread` computes `printFileComplete` -/
  | poll
  /-- `stepBlock_waitForIdle` returns to it -/
  | waited
  /-- and it calls `corePrinter_stop` -/
  | stop
  deriving DecidableEq

/-- What `getLine` makes of a byte. -/
def GetLine.stage : GetLine → ReadingStage
  | .reading lineBuffer => .reading lineBuffer
  | .dropped => .reading []
  | .line lineBuffer => .ready lineBuffer

def FilePrint.step (s : FilePrint) : FilePrintAction → Option FilePrint
  | .readByte =>
      match s.gcode with
      | .reading lineBuffer =>
          match s.file[s.pos]? with
          | none => some s
          | some c =>
              some { s with pos := s.pos + 1, gcode := (getLineByte lineBuffer c).stage }
      | _ => none
  | .run =>
      match s.gcode with
      | .ready lineBuffer =>
          some { s with gcode := .reading [], executed := s.executed ++ [lineText lineBuffer] }
      | _ => none
  | .poll =>
      if s.printer = .polling then
        if printFileComplete s.pos s.file.length = 100 then some { s with printer := .atWait }
        else some s
      else none
  | .waited => if s.printer = .atWait then some { s with printer := .atStop } else none
  | .stop =>
      if s.printer = .atStop then some { s with printer := .stopped, gcode := .deleted } else none

def filePrint : Machine FilePrint FilePrintAction := ⟨FilePrint.step⟩

/-- After `corePrinter_start`. -/
def FilePrint.start (file : List UInt8) : FilePrint where
  file := file
  pos := 0
  gcode := .reading []
  printer := .polling
  executed := []

/-- The commands of a file: its pieces of at least two bytes, the last one included. -/
def fileCommands (file : List UInt8) : List (List UInt8) := commands (file.splitOnP isLineEnd)

/-- What is behind the last line end of a file. -/
def lastPiece (file : List UInt8) : List UInt8 :=
  (file.splitOnP isLineEnd).getLast (List.splitOnP_ne_nil _ _)

/-- Once the print is stopped, all commands of the file have been executed. -/
def FilePrint.Complete (s : FilePrint) : Prop :=
  s.printer = .stopped → s.executed = fileCommands s.file

instance (s : FilePrint) : Decidable s.Complete :=
  inferInstanceAs (Decidable (_ → _))

/-- The G-code thread is in `getLine`. -/
def ReadingStage.isReading : ReadingStage → Bool
  | .reading _ => true
  | _ => false

/-- The condition on a step: `corePrinter_stop` finds the G-code thread in `getLine`, and
the file ends with a line end, up to a single byte. -/
def FilePrint.StopsInTime (s : FilePrint) (a : FilePrintAction) : Prop :=
  a = .stop → s.gcode.isReading = true ∧ (lastPiece s.file).length < 2

instance (s : FilePrint) (a : FilePrintAction) : Decidable (s.StopsInTime a) :=
  inferInstanceAs (Decidable (_ → _))

/-! ## The invariant -/

/-- What the G-code thread has executed and read. -/
def ReadingStage.reader (executed : List (List UInt8)) : ReadingStage → Reader
  | .reading lineBuffer => ⟨executed, lineBuffer⟩
  | .ready lineBuffer => ⟨executed ++ [lineText lineBuffer], []⟩
  | .deleted => ⟨executed, []⟩

theorem stage_reader (executed : List (List UInt8)) (lineBuffer : List UInt8) (c : UInt8) :
    (getLineByte lineBuffer c).stage.reader executed = Reader.byte ⟨executed, lineBuffer⟩ c := by
  unfold Reader.byte
  cases getLineByte lineBuffer c <;> rfl

/-- Up to the end of the print, what was executed and read is what was read of the
file. -/
structure FilePrint.Inv (s : FilePrint) : Prop where
  pos_le : s.pos ≤ s.file.length
  complete : s.Complete
  reads : s.printer ≠ .stopped →
    s.gcode.reader s.executed = (s.file.take s.pos).foldl Reader.byte ⟨[], []⟩
  deleted_iff : s.gcode = .deleted ↔ s.printer = .stopped
  finished : s.printer ≠ .polling → s.pos = s.file.length

theorem start_filePrintInv (file : List UInt8) : (FilePrint.start file).Inv :=
  ⟨Nat.zero_le _, fun h => by simp [FilePrint.start] at h, fun _ => rfl,
    by simp [FilePrint.start], fun h => absurd rfl h⟩

/-- The file has been read when `printFileComplete` is 100. -/
theorem pos_eq_of_printFileComplete {pos size : ℕ} (hle : pos ≤ size)
    (h : printFileComplete pos size = 100) : pos = size := by
  unfold printFileComplete at h
  split at h
  · omega
  · by_contra hne
    rw [Nat.div_eq_of_lt (by omega)] at h
    omega

theorem splitOnP_lastPiece (file : List UInt8) :
    file.splitOnP isLineEnd = textLines file ++ [lastPiece file] :=
  (List.dropLast_append_getLast _).symm

/-- The whole file has been read: what was executed, what waits to be executed, and what
follows the last line end. -/
theorem FilePrint.Inv.at_end {s : FilePrint} (h : s.Inv) (hprinter : s.printer ≠ .stopped)
    (hpos : s.pos = s.file.length) :
    s.gcode.reader s.executed =
      ⟨commands (textLines s.file), (lastPiece s.file).take gcodeBufferSize⟩ := by
  obtain ⟨last, hsplit, _, hfold⟩ := foldl_byte s.file
  have hlast : last = lastPiece s.file := by
    have := (splitOnP_lastPiece s.file).symm.trans hsplit
    exact (List.singleton_inj.mp (List.append_cancel_left this)).symm
  rw [h.reads hprinter, hpos, List.take_length, hfold, hlast]

/-- At the call of `corePrinter_stop`, everything has been executed if and only if the
G-code thread has nothing left. -/
theorem executed_iff {s : FilePrint} (h : s.Inv) (hstop : s.printer = .atStop) :
    s.executed = fileCommands s.file ↔
      s.gcode.isReading = true ∧ (lastPiece s.file).length < 2 := by
  have hprinter : s.printer ≠ .stopped := by simp [hstop]
  have hend := h.at_end hprinter (h.finished (by simp [hstop]))
  rw [fileCommands, splitOnP_lastPiece, commands_append, commands_singleton]
  cases hgcode : s.gcode with
  | reading lineBuffer =>
      rw [hgcode] at hend
      have hlines : s.executed = commands (textLines s.file) := congrArg Reader.lines hend
      by_cases hlast : 2 ≤ (lastPiece s.file).length
      · simp [hlines, hlast, ReadingStage.isReading]
        omega
      · simp [hlines, hlast, ReadingStage.isReading, Nat.lt_of_not_le hlast]
  | ready lineBuffer =>
      rw [hgcode] at hend
      have hlines : s.executed ++ [lineText lineBuffer] = commands (textLines s.file) :=
        congrArg Reader.lines hend
      simp [← hlines, ReadingStage.isReading]
  | deleted => exact absurd (h.deleted_iff.mp hgcode) hprinter

/-! ## Steps -/

theorem readByte_keepsInv {s t : FilePrint} (h : s.Inv) (hstep : s.step .readByte = some t) :
    t.Inv := by
  rw [FilePrint.step] at hstep
  cases hgcode : s.gcode with
  | ready lineBuffer => simp [hgcode] at hstep
  | deleted => simp [hgcode] at hstep
  | reading lineBuffer =>
      have hprinter : s.printer ≠ .stopped := by
        rw [← h.deleted_iff.ne, hgcode]
        simp
      cases hbyte : s.file[s.pos]? with
      | none =>
          obtain rfl : s = t := by simpa [hgcode, hbyte] using hstep
          exact h
      | some c =>
          obtain rfl : { s with pos := s.pos + 1, gcode := (getLineByte lineBuffer c).stage } = t :=
            by simpa [hgcode, hbyte] using hstep
          have hlt : s.pos < s.file.length := (List.getElem?_eq_some_iff.mp hbyte).1
          refine ⟨hlt, h.complete, fun _ => ?_, ?_, fun hpolling => ?_⟩
          · have hread := h.reads hprinter
            rw [hgcode] at hread
            rw [stage_reader, List.take_add_one, hbyte, Option.toList_some, List.foldl_concat,
              ← hread]
            rfl
          · have hdeleted : (getLineByte lineBuffer c).stage ≠ .deleted := by
              cases getLineByte lineBuffer c <;> simp [GetLine.stage]
            exact iff_of_false hdeleted hprinter
          · have := h.finished hpolling
            omega

theorem run_keepsInv {s t : FilePrint} (h : s.Inv) (hstep : s.step .run = some t) : t.Inv := by
  rw [FilePrint.step] at hstep
  cases hgcode : s.gcode with
  | reading lineBuffer => simp [hgcode] at hstep
  | deleted => simp [hgcode] at hstep
  | ready lineBuffer =>
      have hprinter : s.printer ≠ .stopped := by
        rw [← h.deleted_iff.ne, hgcode]
        simp
      obtain rfl : { s with
          gcode := .reading [], executed := s.executed ++ [lineText lineBuffer] } = t := by
        simpa [hgcode] using hstep
      refine ⟨h.pos_le, fun hstopped => absurd hstopped hprinter, fun _ => ?_,
        iff_of_false (by simp) hprinter, h.finished⟩
      rw [← h.reads hprinter, hgcode]
      rfl

theorem poll_keepsInv {s t : FilePrint} (h : s.Inv) (hstep : s.step .poll = some t) :
    t.Inv := by
  rw [FilePrint.step, Option.ite_none_right_eq_some] at hstep
  obtain ⟨hpolling, hstep⟩ := hstep
  split at hstep
  · rename_i hcomplete
    obtain rfl := Option.some.inj hstep
    refine ⟨h.pos_le, fun hstopped => by simp at hstopped, fun _ => h.reads (by simp [hpolling]),
      ?_, fun _ => pos_eq_of_printFileComplete h.pos_le hcomplete⟩
    have hdeleted := h.deleted_iff
    rw [hpolling] at hdeleted
    simpa using hdeleted
  · obtain rfl := Option.some.inj hstep
    exact h

theorem waited_keepsInv {s t : FilePrint} (h : s.Inv) (hstep : s.step .waited = some t) :
    t.Inv := by
  rw [FilePrint.step, Option.ite_none_right_eq_some] at hstep
  obtain ⟨hwait, hstep⟩ := hstep
  obtain rfl := Option.some.inj hstep
  refine ⟨h.pos_le, fun hstopped => by simp at hstopped, fun _ => h.reads (by simp [hwait]),
    ?_, fun _ => h.finished (by simp [hwait])⟩
  have hdeleted := h.deleted_iff
  rw [hwait] at hdeleted
  simpa using hdeleted

/-- The call of `corePrinter_stop`: whether all commands have been executed is decided
here. -/
theorem stop_spec {s t : FilePrint} (h : s.Inv) (hstep : s.step .stop = some t) :
    (t.Complete ↔ s.StopsInTime .stop) ∧ (t.Complete → t.Inv) := by
  rw [FilePrint.step, Option.ite_none_right_eq_some] at hstep
  obtain ⟨hstop, hstep⟩ := hstep
  obtain rfl := Option.some.inj hstep
  have hexecuted := executed_iff h hstop
  refine ⟨?_, fun hcomplete => ?_⟩
  · simpa [FilePrint.Complete, FilePrint.StopsInTime] using hexecuted
  · exact ⟨h.pos_le, hcomplete, fun hprinter => absurd rfl hprinter, by simp,
      fun _ => h.finished (by simp [hstop])⟩

/-! ## Runs -/

theorem filePrint_keeps {s t : FilePrint} {a : FilePrintAction} (h : s.Inv)
    (hstep : filePrint.step s a = some t) (hC : s.StopsInTime a) : t.Inv := by
  cases a with
  | readByte => exact readByte_keepsInv h hstep
  | run => exact run_keepsInv h hstep
  | poll => exact poll_keepsInv h hstep
  | waited => exact waited_keepsInv h hstep
  | stop =>
      obtain ⟨hiff, hinv⟩ := stop_spec h hstep
      exact hinv (hiff.mpr hC)

theorem filePrint_breaks {s t : FilePrint} {a : FilePrintAction} (h : s.Inv)
    (hstep : filePrint.step s a = some t) (hC : ¬ s.StopsInTime a) : ¬ t.Complete := by
  cases a with
  | stop => exact fun hcomplete => hC ((stop_spec h hstep).1.mp hcomplete)
  | readByte => exact absurd (fun ha => by simp at ha) hC
  | run => exact absurd (fun ha => by simp at ha) hC
  | poll => exact absurd (fun ha => by simp at ha) hC
  | waited => exact absurd (fun ha => by simp at ha) hC

/-- All commands of a file are executed before the end of its print if and only if
`corePrinter_stop` is called in time, and the file ends with a line end. -/
theorem all_executed_iff (file : List UInt8) (as : List FilePrintAction) :
    filePrint.Always FilePrint.Complete (FilePrint.start file) as ↔
      filePrint.AllSteps FilePrint.StopsInTime (FilePrint.start file) as :=
  Machine.always_iff_allSteps (fun _ h => FilePrint.Inv.complete h)
    (fun _ _ _ h hstep hC => filePrint_keeps h hstep hC)
    (fun _ _ _ h hstep hC => filePrint_breaks h hstep hC) (start_filePrintInv file) as

/-- `G92 X0` and a line feed: the line has been read, but not executed. -/
theorem last_line_lost :
    ¬ filePrint.Always FilePrint.Complete (FilePrint.start [71, 57, 50, 32, 88, 48, 10])
      (List.replicate 7 .readByte ++ [.poll, .waited, .stop]) := by
  intro h
  have hlast : ((filePrint.exec (FilePrint.start [71, 57, 50, 32, 88, 48, 10])
      (List.replicate 7 .readByte ++ [.poll, .waited, .stop])).map fun s =>
        decide s.Complete) = some false := by decide
  obtain ⟨s, hexec, hs⟩ := Option.map_eq_some_iff.mp hlast
  exact of_decide_eq_false hs (h.exec hexec)

end TdPrinter
