import TdPrinter.Foundation.Rounding
import TdPrinter.GCode.LineBuffer
import TdPrinter.GCode.Words

/-!
# The language of G-code

A program is a list of statements: a command, the numbers behind its letters, and perhaps a
comment.  `Meaning` is what a program says, without regard to how it is executed: where each axis
is to be, and how many steps this takes its motor.  Millimetres are rounded to steps only once, at
the end of each move; G92 makes the nearest step the position.
-/

namespace TdPrinter

/-! ## Statements -/

inductive Op
  | rapid | linear | absolute | relative | setPosition | extruderAbsolute | extruderRelative
  | accelOn | accelOff
  deriving DecidableEq

/-- `G` or `M`. -/
def Op.letter : Op → UInt8
  | .rapid | .linear | .absolute | .relative | .setPosition => 71
  | .extruderAbsolute | .extruderRelative | .accelOn | .accelOff => 77

def Op.digits : Op → List UInt8
  | .rapid => [48]
  | .linear => [49]
  | .absolute => [57, 48]
  | .relative => [57, 49]
  | .setPosition => [57, 50]
  | .extruderAbsolute => [56, 50]
  | .extruderRelative => [56, 51]
  | .accelOn => [52, 52, 51]
  | .accelOff => [52, 52, 52]

/-- The modes of the axes behind a command. -/
def Op.modes (relative : Axis → Bool) : Op → Axis → Bool
  | .absolute => fun _ => false
  | .relative => fun _ => true
  | .extruderAbsolute => Function.update relative 2 false
  | .extruderRelative => Function.update relative 2 true
  | .rapid | .linear | .setPosition | .accelOn | .accelOff => relative

def statementText (op : Op) (words : List GCodeWord) (comment : Option (List UInt8)) :
    List UInt8 :=
  op.letter :: (op.digits ++ (words.flatMap GCodeWord.text ++ (comment.map (59 :: ·)).getD []))

/-- A line of a program that fits into the buffer. -/
structure Statement where
  op : Op
  words : List GCodeWord
  /-- what stands behind a semicolon, if there is one -/
  comment : Option (List UInt8)
  /-- there is a space in front of every letter -/
  spaced : ∀ w ∈ words, 1 ≤ w.spaces
  /-- no letter occurs twice -/
  nodup : (words.map GCodeWord.letter).Nodup
  comment_text : ∀ c ∈ comment.getD [], isLineEnd c = false
  fits : (statementText op words comment).length + 2 ≤ gcodeBufferSize

def Statement.text (s : Statement) : List UInt8 := statementText s.op s.words s.comment

def programText (program : List Statement) : List UInt8 :=
  program.flatMap fun s => s.text ++ [10]

/-! ## What they mean -/

@[ext]
structure Meaning (R : Type*) where
  /-- the axes whose numbers are distances -/
  relative : Axis → Bool
  mm : Axis → R
  /-- the steps that the motors have made -/
  motor : Axis → ℤ

section

variable {R : Type*} [Field R]

/-- The number of an axis; the last one has the word `Z`, or else the word `A`. -/
def Statement.number (s : Statement) : Axis → Option R :=
  ![numberWritten 88 s.words, numberWritten 89 s.words, numberWritten 69 s.words,
    (numberWritten 90 s.words).or (numberWritten 65 s.words)]

def Statement.goal (s : Statement) (m : Meaning R) (i : Axis) : R :=
  match s.number i with
  | none => m.mm i
  | some x => if m.relative i then m.mm i + x else x

variable [LinearOrder R] [FloorRing R]

/-- The statements one by one, with `scale` steps to the millimetre. -/
def Meaning.next (scale : Axis → R) (m : Meaning R) (s : Statement) : Meaning R where
  relative := s.op.modes m.relative
  mm :=
    match s.op with
    | .rapid | .linear => s.goal m
    | .setPosition => fun i => (lround (scale i * (s.number i).getD (m.mm i)) : R) / scale i
    | _ => m.mm
  motor :=
    match s.op with
    | .rapid | .linear => fun i =>
        m.motor i + (lround (scale i * s.goal m i) - lround (scale i * m.mm i))
    | _ => m.motor

def meaning (scale : Axis → R) (program : List Statement) : Meaning R :=
  program.foldl (Meaning.next scale) ⟨fun _ => false, fun _ => 0, fun _ => 0⟩

theorem meaning_concat (scale : Axis → R) (program : List Statement) (s : Statement) :
    meaning scale (program ++ [s]) = (meaning scale program).next scale s :=
  List.foldl_concat ..

/-- Without a G92 the motors are at the steps nearest to the position, however many moves there
have been. -/
theorem meaning_motor [IsStrictOrderedRing R] (scale : Axis → R) {program : List Statement}
    (h : ∀ s ∈ program, s.op ≠ .setPosition) (i : Axis) :
    (meaning scale program).motor i = lround (scale i * (meaning scale program).mm i) := by
  induction program using List.reverseRecOn with
  | nil =>
      have hzero : lround ((0 : ℤ) : R) = 0 := lround_intCast 0
      simpa [meaning] using hzero.symm
  | append_singleton program s ih =>
      have ih := ih fun r hr => h r (List.mem_append_left _ hr)
      have hop : s.op ≠ .setPosition := h s (by simp)
      rw [meaning_concat, Meaning.next]
      cases hs : s.op with
      | setPosition => exact absurd hs hop
      | rapid | linear =>
          dsimp only
          rw [ih]
          ring
      | absolute | relative | extruderAbsolute | extruderRelative | accelOn | accelOff =>
          exact ih

end

end TdPrinter
