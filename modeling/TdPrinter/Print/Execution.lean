import TdPrinter.GCode.Interpreter
import TdPrinter.Motion.Pipeline
import TdPrinter.Position.Travel

/-!
# From the text of a program to the steps of the motors

The G-code thread with the interrupt of the step timer: it reads a line of its device
(`getLine`), executes it (`stepGCodeProcessor_run`) and makes its calls, and in between the
interrupt makes the steps.  `driven` counts the steps that the motors have really made, whatever
`stepPosition_setMm` writes into the counters of the hardware.

`program_exact` compares this with the meaning of the program, in every order of the steps.
-/

namespace TdPrinter

/-! ## A line of the device -/

/-- `getLine`, from the bytes that the device has; without a line end it does not return. -/
def readLine (r : LineReader) : List UInt8 → Option (LineReader × List UInt8)
  | [] => none
  | c :: rest => if isLineEnd c then some (r.byte c, rest) else readLine (r.byte c) rest

/-- The buffer begins with `text`, and nothing else has been read of the line. -/
structure LineReader.Holds (r : LineReader) (text : List UInt8) : Prop where
  length_eq : r.lineLength = text.length
  mem_eq : (List.range text.length).map r.mem = text
  lines_eq : r.lines = []

theorem LineReader.Holds.put {r : LineReader} {text : List UInt8} (h : r.Holds text)
    (hroom : text.length < gcodeBufferSize) (c : UInt8) : (r.put c).Holds (text ++ [c]) where
  length_eq := by
    rw [LineReader.put, h.length_eq, if_pos hroom, List.length_append, List.length_singleton]
  mem_eq := by
    rw [List.length_append, List.length_singleton]
    show (List.range (text.length + 1)).map (Function.update r.mem r.lineLength c) = _
    rw [h.length_eq, map_range_store, h.mem_eq]
  lines_eq := h.lines_eq

/-- A line that fits is in the buffer, with its end and the terminator. -/
theorem readLine_text {text pre : List UInt8} {r : LineReader} (hr : r.Holds pre)
    (htext : ∀ c ∈ text, isLineEnd c = false) (hlong : 2 ≤ pre.length + text.length)
    (hroom : pre.length + text.length + 2 ≤ gcodeBufferSize) (rest : List UInt8) :
    ∃ r' stale, readLine r (text ++ 10 :: rest) = some (r', rest) ∧
      r'.lines = [pre ++ text ++ 10 :: 0 :: stale] := by
  induction text generalizing pre r with
  | nil =>
      rw [List.length_nil, Nat.add_zero] at hlong hroom
      have hend := hr.put (by omega) 10
      have hlength := hend.length_eq
      rw [List.length_append, List.length_singleton] at hlength
      have hline : r.byte 10 = { (r.put 10).store (r.put 10).lineLength 0 with
          lines := (r.put 10).lines ++ [((r.put 10).store (r.put 10).lineLength 0).buffer]
          lineLength := 0 } := by
        have hshort : ¬(r.put 10).lineLength < 3 := by omega
        simp [LineReader.byte, isLineEnd, hshort, LineReader.store]
      obtain ⟨stale, hstale⟩ := map_range_split
        (Function.update (r.put 10).mem (r.put 10).lineLength 0)
        (show (r.put 10).lineLength < gcodeBufferSize by omega)
      rw [map_range_update _ le_rfl, Function.update_self, hlength] at hstale
      refine ⟨r.byte 10, stale, rfl, ?_⟩
      have hmem := hend.mem_eq
      rw [List.length_append, List.length_singleton] at hmem
      rw [hline]
      show (r.put 10).lines ++ [(List.range gcodeBufferSize).map
        (Function.update (r.put 10).mem (r.put 10).lineLength 0)] = _
      rw [hend.lines_eq, hlength, hstale, hmem]
      simp
  | cons c text ih =>
      have hc := htext c List.mem_cons_self
      have hnext : r.byte c = r.put c := by simp [LineReader.byte, hc]
      rw [List.length_cons] at hlong hroom
      obtain ⟨r', stale, hread, hlines⟩ := ih (hr.put (by omega) c)
        (fun b hb => htext b (List.mem_cons_of_mem _ hb))
        (by rw [List.length_append, List.length_singleton]; omega)
        (by rw [List.length_append, List.length_singleton]; omega)
      refine ⟨r', stale, ?_, by rw [hlines]; simp⟩
      rw [List.cons_append, readLine, hc, if_neg Bool.false_ne_true, hnext, hread]

/-! ## The machine -/

/-- The G-code thread and the interrupt. -/
structure Interpreter (R : Type*) where
  /-- what the device has not given yet -/
  rest : List UInt8
  /-- `lineBuffer`, with what lies behind it -/
  mem : ℕ → UInt8
  g : StepGCode R
  param : Param R
  /-- the calls that the current command has still to make -/
  calls : List (GCodeCall R)
  mover : Positioner R
  /-- the steps that each motor has made -/
  driven : Axis → ℤ

inductive InterpreterAction (R : Type*)
  /-- a line is read and executed up to its calls; afterwards there is `mem` in `lineBuffer`, where
  replies are put together -/
  | getLine (env : Surroundings R) (mem : ℕ → UInt8)
  | call
  | input (m : InputMove R)
  | updateSrc
  | tick (pins : TriggerPins)

section

variable {R : Type*} [Field R] [LinearOrder R] [FloorRing R] [Sqrtf R]

/-- A step of a move or of the interrupt; what it adds to the counters has been driven. -/
def Interpreter.move (s : Interpreter R) (a : MoveAction R) : Option (Interpreter R) :=
  (s.mover.step s.param.microStep a).map fun mover =>
    { s with
      mover
      driven := fun i =>
        s.driven i + (mover.pos.sb.stepAxis.hardPos i - s.mover.pos.sb.stepAxis.hardPos i) }

/-- `getLine` and `stepGCodeProcessor_run`, up to its calls. -/
def Interpreter.getLine (s : Interpreter R) (env : Surroundings R) (mem : ℕ → UInt8) :
    Option (Interpreter R) :=
  (readLine ⟨s.mem, 0, [], []⟩ s.rest).bind fun r =>
    match r.1.lines with
    | [] => some { s with rest := r.2, mem := r.1.mem }
    | line :: _ =>
        (stepGCodeProcessorRun env s.param { s.g with lineBuffer := line }).map fun o =>
          { s with rest := r.2, mem := mem, g := o.g, param := o.param, calls := o.calls }

/-- The next call.  Calls that wait are taken when they return. -/
def Interpreter.call (s : Interpreter R) : Option (Interpreter R) :=
  match s.calls with
  | [] => none
  | c :: calls =>
      let s := { s with calls }
      match c with
      | .inputNextPosition mm relative mask speed useAccel =>
          s.move (.move s.param mm relative mask speed useAccel)
      | .setMm mm relative mask =>
          some { s with
            mover := { s.mover with pos := stepPositionSetMm s.mover.pos mm relative mask } }
      | .enableTrigger on =>
          let sb := s.mover.pos.sb
          let sb := { sb with stepAxis := { sb.stepAxis with enableTrigger := on } }
          some { s with mover := { s.mover with pos := s.mover.pos.withSb sb } }
      | .positionStop =>
          some { s with mover := { s.mover with pos := stepPositionStop s.mover.pos } }
      | .waitForIdle =>
          if .blockIdle ∈ s.mover.pos.sb.event.set then some s else none
      | .systemReset | .finshMode _ => none
      | .setEnableAll _ | .setEnable _ | .setDisable _ | .setTemper _ | .waitForTemper
      | .setFan1 _ => some s

def Interpreter.step (s : Interpreter R) : InterpreterAction R → Option (Interpreter R)
  | .getLine env mem =>
      if s.calls.isEmpty ∧ s.mover.free = true then s.getLine env mem else none
  | .call => if s.mover.free = true then s.call else none
  | .input m => s.move (.input m)
  | .updateSrc => s.move .updateSrc
  | .tick pins => s.move (.tick s.param pins)

variable (R) in
/-- The execution of a file as a machine. -/
def interpreter : Machine (Interpreter R) (InterpreterAction R) := ⟨Interpreter.step⟩

omit [Sqrtf R] in
/-- `stepGCode_init` has been called, and the device has a program. -/
def Interpreter.Boot (param : Param R) (program : List Statement) (s : Interpreter R) : Prop :=
  s.rest = programText program ∧ s.param = param ∧ s.calls = [] ∧
    (∃ g, s.g = stepGCodeProcessorInit g) ∧ s.mover = Positioner.boot param ∧ s.driven = 0

end

/-! ## What a state means -/

section

variable {R : Type*} [Field R] [LinearOrder R] [FloorRing R]

/-- The axes are, or are on their way to, where `m` says. -/
structure Interpreter.At (scale : Axis → R) (s : Interpreter R) (m : Meaning R) : Prop where
  sound : s.mover.Sound s.param.microStep
  scale_eq : s.mover.pos.mm2step = scale
  mmDst_eq : s.mover.pos.mmDst = m.mm
  dest_eq : ∀ i, s.mover.dest i = lround (scale i * m.mm i)
  mm_tied : s.mover.free = true →
    ∀ i, lround (scale i * s.mover.pos.mm i) = s.mover.pos.step i
  driven_eq : ∀ i, s.driven i + s.mover.ahead s.param.microStep i -
    s.mover.pos.sb.stepAxis.hardPos i = s.param.microStep i * m.motor i

/-- The statements `done` have been read, and `todo` have not; `begun` is the meaning of those
whose calls have been made. -/
structure Interpreter.Represents (param : Param R) (done todo : List Statement)
    (begun : Meaning R) (s : Interpreter R) : Prop where
  rest_eq : s.rest = programText todo
  param_eq : s.param = param
  relative_eq : s.g.relative = (meaning param.mm2step done).relative
  at_begun : s.At param.mm2step begun
  pending : (s.calls = [] ∧ begun = meaning param.mm2step done) ∨
    ∃ front st, done = front ++ [st] ∧ begun = meaning param.mm2step front ∧
      s.calls ≠ [] ∧ st.Calls begun.relative s.calls

variable [Sqrtf R]

omit [Sqrtf R] in
theorem Interpreter.Boot.represents [IsStrictOrderedRing R] {param : Param R}
    {program : List Statement} {s : Interpreter R} (h : s.Boot param program) :
    s.Represents param [] program (meaning param.mm2step []) := by
  obtain ⟨hrest, hparam, hcalls, ⟨g, hg⟩, hmover, hdriven⟩ := h
  have hzero : lround (0 : R) = 0 := by simpa using lround_intCast (R := R) 0
  have hinv := Positioner.boot_inv param.microStep param
  have hfree : (Positioner.boot param).free = true := rfl
  refine ⟨hrest, hparam, by rw [hg]; rfl, ⟨?_, ?_, ?_, ?_, ?_, ?_⟩, Or.inl ⟨hcalls, rfl⟩⟩
  · rw [hparam, hmover]
    exact ⟨hinv.phase_inv, hinv.tallied, hinv.undisturbed, hinv.nonneg, hinv.returning_idle,
      hinv.offered⟩
  · rw [hmover]
    rfl
  · rw [hmover]
    rfl
  · intro i
    rw [hmover, Positioner.dest_of_free hfree]
    simp [meaning, hzero, Positioner.boot, stepPositionInit]
  · intro _ i
    rw [hmover]
    simp [hzero, Positioner.boot, stepPositionInit]
  · intro i
    rw [hmover, hdriven, Positioner.ahead_of_free hfree,
      projected_of_idle hinv.undisturbed rfl rfl]
    simp [meaning]

/-- A step of the thread or of the interrupt leads to where its call says, if it is one. -/
theorem Interpreter.At.move {scale : Axis → R} {s t : Interpreter R} {m m' : Meaning R}
    (h : s.At scale m) {a : MoveAction R} (hstep : s.move a = some t)
    (hmm : t.mover.pos.mmDst = m'.mm)
    (hhanded : ∀ i, a.handed s.param.microStep s.mover.pos i =
      lround (scale i * m'.mm i) - lround (scale i * m.mm i))
    (hmotor : ∀ i, m'.motor i = m.motor i + a.handed s.param.microStep s.mover.pos i) :
    t.At scale m' := by
  obtain ⟨mover, hmove, rfl⟩ := Option.map_eq_some_iff.mp hstep
  have hdest : ∀ i, mover.dest i = lround (scale i * m'.mm i) := by
    intro i
    rw [Positioner.dest_of_step hmove, hhanded, h.dest_eq]
    ring
  refine ⟨(h.sound.step hmove).1, ?_, hmm, hdest, fun hfree i => ?_, fun i => ?_⟩
  · rcases step_position hmove with ⟨-, -, -, hscale, -⟩ | ⟨-, -, -, hscale, -⟩ |
      ⟨-, -, -, hscale, -⟩ <;> exact hscale.trans h.scale_eq
  · have hfree : mover.free = true := hfree
    show lround (scale i * mover.pos.mm i) = mover.pos.step i
    rcases step_position hmove with ⟨hsame, hpstep, hpmm, -⟩ | ⟨hsame, hpstep, hpmm, -⟩ |
      ⟨hbusy, hpstep, hpmm, -⟩
    · rw [hpstep, hpmm]
      exact h.mm_tied (hsame ▸ hfree) i
    · rw [hpstep, hpmm]
      exact h.mm_tied hsame i
    · rw [hpstep, hpmm, h.mmDst_eq, ← h.dest_eq, Positioner.dest_of_busy hbusy]
  · have hahead := h.sound.ahead hmove i
    have hdriven := h.driven_eq i
    rw [hmotor]
    dsimp only
    linear_combination hdriven + hahead

/-- Inside a move nothing is handed to the planner. -/
theorem Interpreter.At.inside {scale : Axis → R} {s t : Interpreter R} {m : Meaning R}
    (h : s.At scale m) {a : MoveAction R} (hcall : a.isCall = false) (hstep : s.move a = some t) :
    t.At scale m := by
  have hzero : ∀ i, a.handed s.param.microStep s.mover.pos i = 0 := by
    intro i
    cases a with
    | move param mm relative mask speed useAccel =>
        exact absurd hcall (by simp [MoveAction.isCall])
    | input m => rfl
    | updateSrc => rfl
    | tick param pins => rfl
  refine h.move hstep ?_ (fun i => ?_) fun i => ?_
  · obtain ⟨mover, hmove, rfl⟩ := Option.map_eq_some_iff.mp hstep
    exact (Positioner.mmDst_of_step hmove hcall).trans h.mmDst_eq
  · rw [hzero, sub_self]
  · rw [hzero, add_zero]

theorem Interpreter.At.call {scale : Axis → R} {s t : Interpreter R} {m m' : Meaning R}
    (h : s.At scale m) {mm : Axis → R} {relative mask : Axis → Bool} {speed : R} {useAccel : Bool}
    (hfree : s.mover.free = true)
    (hstep : s.move (.move s.param mm relative mask speed useAccel) = some t)
    (hmm : moveTo m.mm mm relative mask = m'.mm)
    (hmotor : ∀ i, m'.motor i =
      m.motor i + (lround (scale i * m'.mm i) - lround (scale i * m.mm i))) :
    t.At scale m' := by
  have hgoal : t.mover.pos.mmDst = m'.mm := by
    obtain ⟨mover, hmove, rfl⟩ := Option.map_eq_some_iff.mp hstep
    rw [Positioner.mmDst_of_call hmove, h.mmDst_eq, hmm]
  have hhanded : ∀ i, MoveAction.handed s.param.microStep s.mover.pos
      (.move s.param mm relative mask speed useAccel) i =
        lround (scale i * m'.mm i) - lround (scale i * m.mm i) := by
    intro i
    obtain ⟨mover, hmove, rfl⟩ := Option.map_eq_some_iff.mp hstep
    have hgoal : mover.pos.mmDst = m'.mm := hgoal
    have hdest := h.dest_eq i
    rw [Positioner.dest_of_free hfree] at hdest
    rcases step_position hmove with ⟨-, -, -, -, -, -, -, hcall⟩ |
      ⟨-, hpstep, -, hscale, hrounds, -, hhanded⟩ | ⟨hbusy, -⟩
    · exact Bool.noConfusion hcall
    · rw [hhanded, hrounds, hscale, h.scale_eq, hgoal, hpstep, hdest]
    · exact absurd (hfree.symm.trans hbusy) (by decide)
  exact h.move hstep hgoal hhanded fun i => by rw [hmotor, hhanded]

omit [Sqrtf R] in
/-- A call of `stepPosition_setMm`: the nearest steps are the position, and what is on its way
still is. -/
theorem Interpreter.At.setMm [IsStrictOrderedRing R] {scale : Axis → R} {s : Interpreter R}
    {m m' : Meaning R} (h : s.At scale m) (hscale : ∀ i, scale i ≠ 0) {mm : Axis → R}
    {mask : Axis → Bool} {number : Axis → Option R} (hfree : s.mover.free = true)
    (hmoveTo : ∀ mm', moveTo mm' mm (fun _ => false) mask = fun i => (number i).getD (mm' i))
    (hmm : m'.mm = fun i => (lround (scale i * (number i).getD (m.mm i)) : R) / scale i)
    (hmotor : m'.motor = m.motor) :
    Interpreter.At scale { s with
      mover := { s.mover with
        pos := stepPositionSetMm s.mover.pos mm (fun _ => false) mask } } m' := by
  have hsound := h.sound
  have hstep : ∀ i, (stepPositionSetMm s.mover.pos mm (fun _ => false) mask).step i =
      lround (scale i * (number i).getD (m.mm i)) := by
    intro i
    show lround (s.mover.pos.mm2step i * moveTo s.mover.pos.mm mm (fun _ => false) mask i) = _
    rw [hmoveTo, h.scale_eq]
    dsimp only
    cases number i with
    | some x => rfl
    | none =>
        -- an axis without a number is where the last move has led to
        have hdest := h.dest_eq i
        rw [Positioner.dest_of_free hfree] at hdest
        rw [Option.getD_none, Option.getD_none, h.mm_tied hfree, hdest]
  have hphase : s.mover.phase = .idle := by
    simp only [Positioner.free, Bool.and_eq_true] at hfree
    exact InputPhase.eq_idle_of_isIdle hfree.1
  have hnearest : ∀ i, lround (scale i * m'.mm i) =
      lround (scale i * (number i).getD (m.mm i)) := by
    intro i
    rw [hmm]
    dsimp only
    rw [mul_div_cancel₀ _ (hscale i), lround_intCast]
  obtain ⟨mover', hmover'⟩ : ∃ mover', mover' = { s.mover with
      pos := stepPositionSetMm s.mover.pos mm (fun _ => false) mask } := ⟨_, rfl⟩
  have hfree' : mover'.free = true := by rw [hmover']; exact hfree
  have hplace : mover'.pos.mm = m'.mm ∧ mover'.pos.mmDst = m'.mm := by
    have hstep2mm : step2mm s.mover.pos
        (stepPositionSetMm s.mover.pos mm (fun _ => false) mask).step = m'.mm := by
      funext i
      rw [step2mm, hstep, h.scale_eq, hmm]
    rw [hmover']
    exact ⟨hstep2mm, hstep2mm⟩
  have hstep' : ∀ i, mover'.pos.step i = lround (scale i * m'.mm i) := by
    intro i
    rw [hnearest, ← hstep, hmover']
  rw [← hmover']
  refine ⟨?_, ?_, hplace.2, fun i => ?_, fun _ i => ?_, fun i => ?_⟩
  · rw [hmover']
    refine ⟨⟨hsound.phase_inv.sound.withStepAxis _, fun block hready => by simp [hphase] at hready⟩,
      ⟨⟨hsound.tallied.counted.busy_need, hsound.tallied.counted.step_le⟩,
        hsound.tallied.queued_nonneg⟩,
      ⟨hsound.undisturbed.complete, hsound.undisturbed.trigger_off, hsound.undisturbed.settled⟩,
      hsound.nonneg, hsound.returning_idle,
      fun block hblock => by simp [hphase, InputPhase.waiting] at hblock⟩
  · rw [hmover']
    exact h.scale_eq
  · rw [Positioner.dest_of_free hfree', hstep']
  · dsimp only
    rw [hplace.1, hstep']
  · have hdriven := h.driven_eq i
    rw [Positioner.ahead_of_free hfree] at hdriven
    rw [hmotor, ← hdriven, Positioner.ahead_of_free hfree']
    simp only [StepBlock.projected, hmover']
    show s.driven i + ((stepPositionSetMm s.mover.pos mm (fun _ => false) mask).step i +
      s.mover.pos.sb.stepAxis.remaining i + signedSteps s.mover.pos.sb.pending i) -
        (stepPositionSetMm s.mover.pos mm (fun _ => false) mask).step i = _
    ring

/-! ## The steps of a run -/

omit [Sqrtf R] in
theorem Interpreter.At.congr {scale : Axis → R} {s t : Interpreter R} {m m' : Meaning R}
    (h : s.At scale m) (hparam : t.param = s.param) (hmover : t.mover = s.mover)
    (hdriven : t.driven = s.driven) (hmm : m'.mm = m.mm) (hmotor : m'.motor = m.motor) :
    t.At scale m' := by
  obtain ⟨hsound, hscale, hmmDst, hdest, htied, hd⟩ := h
  refine ⟨?_, ?_, ?_, ?_, ?_, ?_⟩
  all_goals simpa only [hparam, hmover, hdriven, hmm, hmotor]

omit [Sqrtf R] in
/-- Most commands change neither the position nor the motors. -/
theorem Meaning.next_other (scale : Axis → R) (m : Meaning R) {st : Statement}
    (hrapid : st.op ≠ .rapid) (hlinear : st.op ≠ .linear) (hset : st.op ≠ .setPosition) :
    (m.next scale st).mm = m.mm ∧ (m.next scale st).motor = m.motor := by
  simp only [Meaning.next]
  cases hop : st.op <;> simp_all

omit [Sqrtf R] in
theorem Interpreter.Represents.getLine_eq [CharZero R] {param : Param R}
    {done todo : List Statement} {begun : Meaning R} {s : Interpreter R} {st : Statement}
    (h : s.Represents param done (st :: todo) begun) (env : Surroundings R) (mem : ℕ → UInt8) :
    ∃ o : Outcome R, s.getLine env mem = some { s with
        rest := programText todo, mem := mem, g := o.g, param := o.param, calls := o.calls } ∧
      o.param = param ∧ o.g.relative = st.op.modes s.g.relative ∧
      st.Calls s.g.relative o.calls := by
  have hlong : 2 ≤ st.text.length := by
    have hdigits : 1 ≤ st.op.digits.length := by cases st.op <;> decide
    simp only [Statement.text, statementText, List.length_cons, List.length_append]
    omega
  have hempty : LineReader.Holds ⟨s.mem, 0, [], []⟩ [] := ⟨rfl, rfl, rfl⟩
  obtain ⟨r, stale, hread, hlines⟩ := readLine_text hempty st.text_lineEnd
    (by simpa using hlong) (by simpa [Statement.text] using st.fits) (programText todo)
  have hrest : s.rest = st.text ++ 10 :: programText todo := by
    rw [h.rest_eq, programText, List.flatMap_cons, List.append_assoc]
    rfl
  obtain ⟨o, hrun, hparam, hmodes, hcalls⟩ := st.run_eq
    (g := { s.g with lineBuffer := st.text ++ 10 :: 0 :: stale }) rfl env s.param
  refine ⟨o, ?_, hparam.trans h.param_eq, hmodes, hcalls⟩
  rw [Interpreter.getLine, hrest, hread, Option.bind_some, hlines]
  simp only [List.nil_append, hrun, Option.map_some]

omit [Sqrtf R] in
/-- A line has been read: a command without calls is done. -/
theorem Interpreter.Represents.getLine [CharZero R] {param : Param R} {done todo : List Statement}
    {begun : Meaning R} {s t : Interpreter R} {st : Statement}
    (h : s.Represents param done (st :: todo) begun) (hcalls : s.calls = [])
    {env : Surroundings R} {mem : ℕ → UInt8} (hstep : s.getLine env mem = some t) :
    ∃ begun', t.Represents param (done ++ [st]) todo begun' := by
  obtain ⟨o, heq, hparam, hmodes, hstcalls⟩ := h.getLine_eq env mem
  obtain rfl := Option.some.inj (heq.symm.trans hstep)
  have hbegun : begun = meaning param.mm2step done := by
    rcases h.pending with ⟨-, hbegun⟩ | ⟨_, _, _, _, hne, _⟩
    · exact hbegun
    · exact absurd hcalls hne
  have hsame : ∀ m : Meaning R, m.mm = begun.mm → m.motor = begun.motor →
      Interpreter.At param.mm2step { s with
        rest := programText todo, mem := mem, g := o.g, param := o.param, calls := o.calls } m :=
    fun m hmm hmotor => h.at_begun.congr (hparam.trans h.param_eq.symm) rfl rfl hmm hmotor
  have hrelative : o.g.relative = (meaning param.mm2step (done ++ [st])).relative := by
    rw [meaning_concat, hmodes, h.relative_eq]
    rfl
  by_cases hnone : o.calls = []
  · refine ⟨meaning param.mm2step (done ++ [st]), rfl, hparam, hrelative, ?_, Or.inl ⟨hnone, rfl⟩⟩
    have hother : st.op ≠ .rapid ∧ st.op ≠ .linear ∧ st.op ≠ .setPosition := by
      refine ⟨fun hop => ?_, fun hop => ?_, fun hop => ?_⟩
      · obtain ⟨_, _, _, _, hmoves, -⟩ := hstcalls.moves (Or.inl hop)
        rw [hmoves] at hnone
        exact List.cons_ne_nil _ _ hnone
      · obtain ⟨_, _, _, _, hmoves, -⟩ := hstcalls.moves (Or.inr hop)
        rw [hmoves] at hnone
        exact List.cons_ne_nil _ _ hnone
      · obtain ⟨_, _, hsets, -⟩ := hstcalls.sets hop
        rw [hsets] at hnone
        exact List.cons_ne_nil _ _ hnone
    obtain ⟨hmm, hmotor⟩ := (meaning param.mm2step done).next_other param.mm2step hother.1
      hother.2.1 hother.2.2
    rw [meaning_concat]
    exact hsame _ (hmm.trans (congrArg _ hbegun.symm)) (hmotor.trans (congrArg _ hbegun.symm))
  · refine ⟨begun, rfl, hparam, hrelative, hsame begun rfl rfl,
      Or.inr ⟨done, st, rfl, hbegun, hnone, ?_⟩⟩
    rw [hbegun, ← h.relative_eq]
    exact hstcalls

theorem Interpreter.Represents.call [IsStrictOrderedRing R] {param : Param R}
    (hscale : ∀ i, param.mm2step i ≠ 0) {done todo : List Statement}
    {begun : Meaning R} {s t : Interpreter R}
    (h : s.Represents param done todo begun) (hfree : s.mover.free = true)
    (hstep : s.call = some t) : t.Represents param done todo (meaning param.mm2step done) := by
  rcases h.pending with ⟨hcalls, -⟩ | ⟨front, st, rfl, rfl, hne, hstcalls⟩
  · rw [Interpreter.call, hcalls] at hstep
    exact absurd hstep (by simp)
  have hat : Interpreter.At param.mm2step { s with calls := [] } (meaning param.mm2step front) :=
    h.at_begun.congr rfl rfl rfl rfl rfl
  by_cases hmove : st.op = .rapid ∨ st.op = .linear
  · obtain ⟨value, seen, speed, useAccel, hcalls, hgoal⟩ := hstcalls.moves hmove
    rw [Interpreter.call, hcalls] at hstep
    have hnext : (meaning param.mm2step (front ++ [st])).mm =
        st.goal (meaning param.mm2step front) ∧
        ∀ i, (meaning param.mm2step (front ++ [st])).motor i =
          (meaning param.mm2step front).motor i +
            (lround (param.mm2step i * (meaning param.mm2step (front ++ [st])).mm i) -
              lround (param.mm2step i * (meaning param.mm2step front).mm i)) := by
      rw [meaning_concat]
      rcases hmove with hop | hop <;> simp [Meaning.next, hop]
    have hat' := hat.call hfree hstep ((hgoal _ (meaning param.mm2step front).motor).trans
      hnext.1.symm) hnext.2
    obtain ⟨mover, -, rfl⟩ := Option.map_eq_some_iff.mp hstep
    exact ⟨h.rest_eq, h.param_eq, h.relative_eq, hat', Or.inl ⟨rfl, rfl⟩⟩
  · by_cases hset : st.op = .setPosition
    · obtain ⟨value, seen, hcalls, hnumber⟩ := hstcalls.sets hset
      rw [Interpreter.call, hcalls] at hstep
      obtain rfl := Option.some.inj hstep
      refine ⟨h.rest_eq, h.param_eq, h.relative_eq, ?_, Or.inl ⟨rfl, rfl⟩⟩
      rw [meaning_concat]
      exact hat.setMm hscale hfree hnumber (by simp [Meaning.next, hset])
        (by simp [Meaning.next, hset])
    · rw [not_or] at hmove
      exact absurd (hstcalls.others hmove.1 hmove.2 hset) hne

theorem Interpreter.Represents.inside {param : Param R} {done todo : List Statement}
    {begun : Meaning R} {s t : Interpreter R} (h : s.Represents param done todo begun)
    {a : MoveAction R} (hcall : a.isCall = false) (hstep : s.move a = some t) :
    t.Represents param done todo begun := by
  have hat := h.at_begun.inside hcall hstep
  obtain ⟨mover, -, rfl⟩ := Option.map_eq_some_iff.mp hstep
  exact ⟨h.rest_eq, h.param_eq, h.relative_eq, hat, h.pending⟩

/-- Every step keeps a state the representation of some place in the program. -/
theorem Interpreter.Represents.step [IsStrictOrderedRing R] {param : Param R}
    (hscale : ∀ i, param.mm2step i ≠ 0) {done todo : List Statement} {begun : Meaning R}
    {s t : Interpreter R} (h : s.Represents param done todo begun) {a : InterpreterAction R}
    (hstep : s.step a = some t) :
    ∃ done' todo' begun', done' ++ todo' = done ++ todo ∧
      t.Represents param done' todo' begun' := by
  cases a with
  | getLine env mem =>
      obtain ⟨⟨hcalls, -⟩, hline⟩ := Option.ite_none_right_eq_some.mp hstep
      rw [List.isEmpty_iff] at hcalls
      cases todo with
      | nil =>
          rw [Interpreter.getLine, h.rest_eq] at hline
          exact absurd hline (by simp [programText, readLine])
      | cons st todo =>
          obtain ⟨begun', h'⟩ := h.getLine hcalls hline
          exact ⟨done ++ [st], todo, begun', by simp, h'⟩
  | call =>
      obtain ⟨hfree, hcall⟩ := Option.ite_none_right_eq_some.mp hstep
      exact ⟨done, todo, _, rfl, h.call hscale hfree hcall⟩
  | input m => exact ⟨done, todo, begun, rfl, h.inside rfl hstep⟩
  | updateSrc => exact ⟨done, todo, begun, rfl, h.inside rfl hstep⟩
  | tick pins => exact ⟨done, todo, begun, rfl, h.inside rfl hstep⟩

/-- Whenever a program has come to rest, in whatever order the thread and the interrupt have run,
the motors have made the steps that the statements read so far mean, however often the position
has been redefined meanwhile; and the next statement can be read. -/
theorem program_exact [IsStrictOrderedRing R] {param : Param R}
    (hscale : ∀ i, param.mm2step i ≠ 0) {program : List Statement} {s : Interpreter R}
    (hs : (interpreter R).Reachable (Interpreter.Boot param program) (fun _ _ => True) s) :
    ∃ done todo, program = done ++ todo ∧ s.rest = programText todo ∧
      (s.calls = [] → s.mover.Idle →
        s.mover.pos.mmDst = (meaning param.mm2step done).mm ∧
        ∀ i, s.driven i = param.microStep i * (meaning param.mm2step done).motor i) ∧
      (s.calls = [] → s.mover.free = true → todo ≠ [] →
        ∀ env mem, ((interpreter R).step s (.getLine env mem)).isSome) := by
  have hrep : ∃ done todo begun, program = done ++ todo ∧ s.Represents param done todo begun := by
    refine hs.invariant (I := fun s => ∃ done todo begun, program = done ++ todo ∧
      s.Represents param done todo begun) ?_ ?_
    · exact fun s hboot => ⟨[], program, _, rfl, hboot.represents⟩
    · rintro s a t ⟨done, todo, begun, hsplit, hrep⟩ - hstep
      obtain ⟨done', todo', begun', hsplit', hrep'⟩ := hrep.step hscale hstep
      exact ⟨done', todo', begun', hsplit.trans hsplit'.symm, hrep'⟩
  obtain ⟨done, todo, begun, hsplit, hrep⟩ := hrep
  refine ⟨done, todo, hsplit, hrep.rest_eq, fun hcalls hidle => ?_,
    fun hcalls hfree hmore env mem => ?_⟩
  · obtain ⟨-, rfl⟩ | ⟨_, _, _, _, hne, _⟩ := hrep.pending
    · refine ⟨hrep.at_begun.mmDst_eq, fun i => ?_⟩
      have hdriven := hrep.at_begun.driven_eq i
      rw [Positioner.ahead_of_free hidle.free, projected_of_idle
        hrep.at_begun.sound.undisturbed hidle.timer_off hidle.empty, hrep.param_eq] at hdriven
      linear_combination hdriven
    · exact absurd hcalls hne
  · obtain ⟨st, rest, rfl⟩ := List.exists_cons_of_ne_nil hmore
    obtain ⟨o, hline, -⟩ := hrep.getLine_eq env mem
    have hstep : (interpreter R).step s (.getLine env mem) = s.getLine env mem :=
      if_pos ⟨List.isEmpty_iff.mpr hcalls, hfree⟩
    rw [hstep, hline]
    rfl

end

/-! ### A position redefined too early -/

theorem x_mem_axisLetters : (88 : UInt8) ∈ axisLetters := by decide

/-- A word for the X axis, with one digit. -/
def xWord (d : UInt8) (hd : isDigit d = true) : GCodeWord :=
  ⟨1, 88, digitLiteral [d] (List.forall_mem_singleton.mpr hd) (List.cons_ne_nil d []),
    x_mem_axisLetters⟩

theorem xWord_spaced (d : UInt8) (hd : isDigit d = true) : ∀ w ∈ [xWord d hd], 1 ≤ w.spaces :=
  List.forall_mem_singleton.mpr le_rfl

theorem xWord_fits (op : Op) (d : UInt8) (hd : isDigit d = true) :
    (statementText op [xWord d hd] none).length + 2 ≤ gcodeBufferSize := by
  cases op <;> simp [statementText, xWord, Op.letter, Op.digits, GCodeWord.text, digitLiteral,
    Literal.text, gcodeBufferSize]

/-- A command for the X axis, with one digit. -/
def xStatement (op : Op) (d : UInt8) (hd : isDigit d = true) : Statement where
  op := op
  words := [xWord d hd]
  comment := none
  spaced := xWord_spaced d hd
  nodup := List.nodup_singleton _
  comment_text := fun _ hc => absurd hc List.not_mem_nil
  fits := xWord_fits op d hd

/-- `G91`, `G1 X2`, `G92 X0` and `G1 X1`. -/
def smallProgram : List Statement :=
  [{ op := .relative, words := [], comment := some [59], spaced := by simp, nodup := by simp,
     comment_text := by simp [isLineEnd], fits := by decide },
    xStatement .linear 50 rfl, xStatement .setPosition 48 rfl, xStatement .linear 49 rfl]

def unitParam : Param ℚ := { sampleParam with mm2step := fun _ => 1 }

def Interpreter.small : Interpreter ℚ where
  rest := programText smallProgram
  mem := fun _ => 0
  g := startedWith []
  param := unitParam
  calls := []
  mover := Positioner.boot unitParam
  driven := 0

/-- The first motor step is made before the G92, the second one after it. -/
def Interpreter.smallRun : List (InterpreterAction ℚ) :=
  let line := .getLine ⟨0, fun _ => 0, true⟩ fun _ => 255
  let move := [.call, .input .insert, .input .replan, .input (.idleTest unitParam), .updateSrc]
  let tick := .tick releasedPins
  [line, line] ++ move ++ [tick, line, .call, line] ++ move ++ [tick, tick, tick, tick]

/-- The counter is at 2 and the program believes in 1; the motor has made its three steps. -/
theorem program_exact_small : ∃ s,
    (interpreter ℚ).exec Interpreter.small Interpreter.smallRun = some s ∧ s.rest = [] ∧
    s.mover.pos.sb.stepAxis.hardPos 0 = 2 ∧ s.mover.pos.step 0 = 1 ∧
    s.driven 0 = unitParam.microStep 0 * (meaning unitParam.mm2step smallProgram).motor 0 ∧
    (meaning unitParam.mm2step smallProgram).motor 0 = 3 := by
  have hfacts : ((interpreter ℚ).exec Interpreter.small Interpreter.smallRun).map (fun s =>
      ((s.rest, s.calls.isEmpty, s.mover.free), (s.mover.pos.sb.timer.enabled, s.mover.pos.sb.len),
        s.mover.pos.sb.stepAxis.hardPos 0, s.mover.pos.step 0)) =
      some (([], true, true), (false, 0), 2, 1) := by
    decide +kernel
  obtain ⟨s, hexec, hs⟩ := Option.map_eq_some_iff.mp hfacts
  simp only [Prod.mk.injEq] at hs
  obtain ⟨⟨hrest, hcalls, hfree⟩, ⟨htimer, hlen⟩, hhard, hstep⟩ := hs
  have hboot : Interpreter.small.Boot unitParam smallProgram :=
    ⟨rfl, rfl, rfl, ⟨_, rfl⟩, rfl, rfl⟩
  have hscale : ∀ i, unitParam.mm2step i ≠ 0 := fun _ => one_ne_zero
  obtain ⟨done, todo, hsplit, htext, hexact, -⟩ := program_exact hscale
    ((Machine.Reachable.initial hboot).exec (fun _ _ => trivial) hexec)
  have htodo : todo = [] := by
    rw [hrest] at htext
    cases todo with
    | nil => rfl
    | cons st todo => exact absurd htext.symm (by simp [programText])
  rw [htodo, List.append_nil] at hsplit
  have hdriven := (hexact (List.isEmpty_iff.mp hcalls) ⟨hfree, htimer, hlen⟩).2 0
  rw [← hsplit] at hdriven
  exact ⟨s, hexec, hrest, hhard, hstep, hdriven, by decide +kernel⟩

end TdPrinter
