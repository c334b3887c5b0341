import TdPrinter.Buffer.Ringbuffer
import TdPrinter.Foundation.Machine
import TdPrinter.GCode.GetLine

/-!
# Commands from the screens

The screens give their commands to `retarget_uartCode`.  It pushes them, byte by byte,
into the ring buffer of a fake device, and `getLine` reads them from there in its own
thread.  The ring buffer has 64 slots, and `fakeDevice_fill` does not look at the result
of `ringbuffer_push`: a byte that finds the buffer full is gone.

Lines stay whole as long as this happens to whole lines only.  `FakeDevice.KeepsWhole`
says so of the byte that is pushed next: where there is room, the text of its line has
found room so far and begins behind a line end that found room too; where there is none,
nothing of its line's text has found room.
-/

namespace TdPrinter

/-! ## The device -/

/-- `RB_SIZE`. -/
abbrev rbSize : ℕ := 64

/-- What `retarget_uartCode` pushes: the string up to its null byte, and CR LF. -/
def retargetUartCode (c : List UInt8) : List UInt8 :=
  c.takeWhile (· ≠ 0) ++ [13, 10]

/-- `fakeDevice_read`: the byte read, if it returns 1. -/
def fakeDeviceRead (rb : Ringbuffer 1 rbSize) : Option (Option UInt8 × Ringbuffer 1 rbSize) :=
  (ringbufferPop rb true).map fun r =>
    (if r.1.code = 1 then r.1.item.bind List.head? else none, r.2)

/-- One turn of the loop of `fakeDevice_fill`: the result of the push, which it ignores. -/
def fakeDeviceFillByte (rb : Ringbuffer 1 rbSize) (c : UInt8) :
    Option (ℤ × Ringbuffer 1 rbSize) := ringbufferPush rb ⟨[c], rfl⟩

/-- The device between a screen and `getLine`. -/
structure FakeDevice where
  rb : Ringbuffer 1 rbSize
  /-- the bytes that the call of `retarget_uartCode` in progress has still to push -/
  pending : List UInt8
  reader : Reader
  /-- the lines of all calls so far -/
  submitted : List (List UInt8)
  /-- the text pushed of the line in progress, kept or not -/
  current : List UInt8
  /-- some of it has found room -/
  begun : Bool
  /-- the last byte that found room was a line end -/
  ended : Bool

inductive FakeDeviceAction
  /-- a screen calls `retarget_uartCode`, with lines shorter than `lineBuffer` -/
  | submit (c : List UInt8)
  /-- the call pushes its next byte -/
  | fill
  /-- `getLine` asks for a byte -/
  | read
  deriving DecidableEq

/-- The byte `b` of the call in progress was pushed with this result. -/
def FakeDevice.filled (s : FakeDevice) (b : UInt8) (rest : List UInt8) (code : ℤ)
    (rb : Ringbuffer 1 rbSize) : FakeDevice :=
  { s with
    rb
    pending := rest
    current := if isLineEnd b then [] else s.current ++ [b]
    begun := !isLineEnd b && (s.begun || code = 1)
    ended := if code = 1 then isLineEnd b else s.ended }

def FakeDevice.step (s : FakeDevice) : FakeDeviceAction → Option FakeDevice
  | .submit c =>
      if s.pending = [] ∧ ∀ l ∈ textLines (retargetUartCode c), l.length < gcodeBufferSize then
        some { s with
          pending := retargetUartCode c
          submitted := s.submitted ++ textLines (retargetUartCode c)
          current := []
          begun := false }
      else none
  | .fill =>
      match s.pending with
      | [] => none
      | b :: rest => (fakeDeviceFillByte s.rb b).map fun r => s.filled b rest r.1 r.2
  | .read =>
      (fakeDeviceRead s.rb).map fun r =>
        { s with rb := r.2, reader := r.1.elim s.reader s.reader.byte }

def fakeDevice : Machine FakeDevice FakeDeviceAction := ⟨FakeDevice.step⟩

/-- After `fakeDevice_init`. -/
def FakeDevice.start (rb : Ringbuffer 1 rbSize) : FakeDevice where
  rb := rb
  pending := []
  reader := ⟨[], []⟩
  submitted := []
  current := []
  begun := false
  ended := true

/-- `getLine` has returned some of the lines submitted, in order, each of them whole. -/
def FakeDevice.Whole (s : FakeDevice) : Prop := s.reader.lines.Sublist s.submitted

instance (s : FakeDevice) : Decidable s.Whole :=
  inferInstanceAs (Decidable (List.Sublist _ _))

/-- The condition on a step: the text of each line finds room altogether or not at all,
and where it does, it does not follow a line whose end found none. -/
def FakeDevice.KeepsWhole (s : FakeDevice) (a : FakeDeviceAction) : Prop :=
  a = .fill → ∀ b ∈ s.pending.head?, isLineEnd b = false →
    if s.rb.len < rbSize then s.begun = true ∨ (s.current = [] ∧ s.ended = true)
    else s.begun = false

instance (s : FakeDevice) (a : FakeDeviceAction) : Decidable (s.KeepsWhole a) :=
  @forall_prop_decidable (a = .fill) _ _ fun _ => Option.decidableForallMem _

/-! ## The lines once the ring buffer has been read -/

/-- `k` is what `getLine` has, or will have, made of the bytes that found room when the
lines `past` were pushed, and then `current`. -/
structure Reader.Follows (k : Reader) (past : List (List UInt8)) (current : List UInt8)
    (begun ended : Bool) : Prop where
  lines : k.lines.Sublist past
  text : ∀ c ∈ k.lineBuffer, isLineEnd c = false
  open_line : if begun then k.lineBuffer = current
    else k.lineBuffer = [] ∨ (k.lines ++ [k.lineBuffer]).Sublist past
  closed : ended = true → k.lineBuffer = []

section

variable {k : Reader} {past : List (List UInt8)} {current : List UInt8} {begun ended : Bool}
  {b : UInt8}

theorem byte_text (hb : isLineEnd b = false) (hroom : k.lineBuffer.length < gcodeBufferSize) :
    k.byte b = { k with lineBuffer := k.lineBuffer ++ [b] } := by
  rw [Reader.byte, getLineByte_text hb hroom]

theorem byte_end (hb : isLineEnd b = true) (hroom : k.lineBuffer.length < gcodeBufferSize)
    (htext : ∀ c ∈ k.lineBuffer, isLineEnd c = false) :
    (k.byte b).lineBuffer = [] ∧
      ((k.byte b).lines = k.lines ∨
        k.lineBuffer ≠ [] ∧ (k.byte b).lines = k.lines ++ [k.lineBuffer]) := by
  rw [Reader.byte, getLineByte_end hb hroom]
  by_cases hshort : k.lineBuffer.length < 2
  · rw [if_pos hshort]
    exact ⟨rfl, Or.inl rfl⟩
  · rw [if_neg hshort]
    refine ⟨rfl, Or.inr ⟨?_, ?_⟩⟩
    · intro hnil
      simp [hnil] at hshort
    · change k.lines ++ [lineText (k.lineBuffer ++ [b])] = _
      rw [lineText_append_end hb htext]

theorem Reader.Follows.text_kept (h : k.Follows past current begun ended)
    (hb : isLineEnd b = false) (hroom : current.length < gcodeBufferSize)
    (hwhole : begun = true ∨ (current = [] ∧ ended = true)) :
    (k.byte b).Follows past (current ++ [b]) true false := by
  have hbuffer : k.lineBuffer = current := by
    rcases hwhole with hbegun | ⟨hcurrent, hended⟩
    · simpa [hbegun] using h.open_line
    · rw [hcurrent, h.closed hended]
  rw [byte_text hb (by rwa [hbuffer])]
  refine ⟨h.lines, ?_, by simp [hbuffer], by simp⟩
  intro c hc
  rcases List.mem_append.mp hc with hold | hnew
  · exact h.text c hold
  · rwa [List.mem_singleton.mp hnew]

/-- A byte of the text is lost, after all others of its line. -/
theorem Reader.Follows.text_lost (h : k.Follows past current false ended) :
    k.Follows past (current ++ [b]) false ended := ⟨h.lines, h.text, h.open_line, h.closed⟩

/-- What `getLine` has of an unfinished line is one of those pushed. -/
theorem Reader.Follows.unfinished (h : k.Follows past current begun ended) :
    k.lineBuffer = [] ∨ (k.lines ++ [k.lineBuffer]).Sublist (past ++ [current]) := by
  have hopen := h.open_line
  cases begun with
  | true =>
      right
      rw [if_pos rfl] at hopen
      rw [hopen]
      exact h.lines.append (List.Sublist.refl _)
  | false =>
      rcases hopen with hnil | hpast
      · exact Or.inl hnil
      · exact Or.inr (hpast.trans (List.sublist_append_left _ _))

theorem Reader.Follows.end_lost (h : k.Follows past current begun ended) :
    k.Follows (past ++ [current]) [] false ended :=
  ⟨h.lines.trans (List.sublist_append_left _ _), h.text, h.unfinished, h.closed⟩

theorem Reader.Follows.end_kept (h : k.Follows past current begun ended)
    (hb : isLineEnd b = true) (hroom : k.lineBuffer.length < gcodeBufferSize) :
    (k.byte b).Follows (past ++ [current]) [] false true := by
  obtain ⟨hbuffer, hlines⟩ := byte_end hb hroom h.text
  refine ⟨?_, by simp [hbuffer], Or.inl hbuffer, fun _ => hbuffer⟩
  rcases hlines with hdropped | ⟨hne, hline⟩
  · rw [hdropped]
    exact h.lines.trans (List.sublist_append_left _ _)
  · rw [hline]
    exact h.unfinished.resolve_left hne

end

/-! ## Runs -/

/-- What `getLine` will have when it has read the ring buffer. -/
def FakeDevice.drained (s : FakeDevice) : Reader := s.rb.items.flatten.foldl Reader.byte s.reader

/-- The lines of the calls are those that are past, and those of what has been and is
still to be pushed. -/
structure FakeDevice.Inv (s : FakeDevice) : Prop where
  rb : s.rb.Inv
  text : ∀ c ∈ s.current, isLineEnd c = false
  last : ∀ b ∈ s.pending.getLast?, isLineEnd b = true
  idle : s.pending = [] → s.current = []
  short : ∀ l ∈ s.submitted, l.length < gcodeBufferSize
  room : ∀ l ∈ (s.current ++ s.pending).splitOnP isLineEnd, l.length < gcodeBufferSize
  follows : ∃ past, s.submitted = past ++ textLines (s.current ++ s.pending) ∧
    s.drained.Follows past s.current s.begun s.ended

theorem lines_isPrefix_foldl (r : Reader) (bytes : List UInt8) :
    r.lines <+: (bytes.foldl Reader.byte r).lines := by
  induction bytes generalizing r with
  | nil => exact List.prefix_rfl
  | cons b bytes ih =>
      refine List.IsPrefix.trans ?_ (ih (r.byte b))
      unfold Reader.byte
      cases getLineByte r.lineBuffer b with
      | reading lineBuffer => exact List.prefix_rfl
      | dropped => exact List.prefix_rfl
      | line lineBuffer => exact List.prefix_append _ _

theorem FakeDevice.Inv.whole {s : FakeDevice} (h : s.Inv) : s.Whole := by
  obtain ⟨past, hsubmitted, hfollows⟩ := h.follows
  have hlines : s.reader.lines.Sublist s.drained.lines := (lines_isPrefix_foldl _ _).sublist
  refine (hlines.trans hfollows.lines).trans ?_
  rw [hsubmitted]
  exact List.sublist_append_left _ _

theorem start_fakeDeviceInv {block : List UInt8} (hblock : block.length = rbSize * 1)
    {rb : Ringbuffer 1 rbSize} (hinit : ringbufferInit block = some rb) :
    (FakeDevice.start rb).Inv := by
  obtain ⟨rb', hinit', hinv, hitems⟩ := init_spec hblock
  obtain rfl : rb' = rb := Option.some.inj (hinit'.symm.trans hinit)
  have hdrained : (FakeDevice.start rb').drained = ⟨[], []⟩ := by
    simp [FakeDevice.drained, FakeDevice.start, hitems, Fifo.empty]
  refine ⟨hinv, by simp [FakeDevice.start], by simp [FakeDevice.start], fun _ => rfl,
    by simp [FakeDevice.start], by simp [FakeDevice.start, gcodeBufferSize], [], rfl, ?_⟩
  rw [hdrained]
  exact ⟨List.Sublist.refl _, by simp, Or.inl rfl, fun _ => rfl⟩

theorem submit_keeps {s t : FakeDevice} (h : s.Inv) {c : List UInt8}
    (hstep : s.step (.submit c) = some t) : t.Inv := by
  rw [FakeDevice.step, Option.ite_none_right_eq_some] at hstep
  obtain ⟨⟨hidle, hshort⟩, hstep⟩ := hstep
  obtain rfl := Option.some.inj hstep
  obtain ⟨past, hsubmitted, hfollows⟩ := h.follows
  have hcurrent := h.idle hidle
  rw [hcurrent, hidle, List.append_nil, textLines_nil, List.append_nil] at hsubmitted
  refine ⟨h.rb, by simp, by simp [retargetUartCode, isLineEnd], fun _ => rfl, ?_, ?_,
    s.submitted, rfl, ?_⟩
  · intro l hl
    rcases List.mem_append.mp hl with hold | hnew
    · exact h.short l hold
    · exact hshort l hnew
  · have hend : isLineEnd 10 = true := rfl
    have hsplit : (retargetUartCode c).splitOnP isLineEnd =
        textLines (retargetUartCode c) ++ [[]] := by
      have := splitOnP_append_end (t := c.takeWhile (· ≠ 0) ++ [13]) hend
      simpa [retargetUartCode] using this
    intro l hl
    rw [List.nil_append, hsplit] at hl
    rcases List.mem_append.mp hl with hold | hnew
    · exact hshort l hold
    · rw [List.mem_singleton.mp hnew]
      simp [gcodeBufferSize]
  · rw [hsubmitted]
    have hopen := hfollows.open_line
    refine ⟨hfollows.lines, hfollows.text, ?_, hfollows.closed⟩
    cases hbegun : s.begun with
    | true =>
        rw [hbegun, if_pos rfl, hcurrent] at hopen
        exact Or.inl hopen
    | false =>
        rw [hbegun] at hopen
        exact hopen

/-- What was pushed of an unfinished line is shorter than `lineBuffer`. -/
theorem FakeDevice.Inv.current_lt {s : FakeDevice} (h : s.Inv) :
    s.current.length < gcodeBufferSize := by
  obtain ⟨l, ls, _, hsplit⟩ := @splitOnP_append s.current s.pending h.text
  have hfirst := h.room (s.current ++ l) (by rw [hsplit]; exact List.mem_cons_self)
  rw [List.length_append] at hfirst
  omega

/-- What `getLine` has of an unfinished line fits into its buffer. -/
theorem FakeDevice.Inv.lineBuffer_lt {s : FakeDevice} (h : s.Inv) :
    s.drained.lineBuffer.length < gcodeBufferSize := by
  obtain ⟨past, hsubmitted, hfollows⟩ := h.follows
  have hopen := hfollows.open_line
  cases hbegun : s.begun with
  | true =>
      rw [hbegun, if_pos rfl] at hopen
      rw [hopen]
      exact h.current_lt
  | false =>
      rw [hbegun] at hopen
      rcases hopen with hnil | hpast
      · rw [hnil]
        simp [gcodeBufferSize]
      · apply h.short
        rw [hsubmitted]
        exact List.mem_append_left _ (hpast.subset (by simp))

/-- The byte that was pushed is lost, or is the last one that `getLine` will read. -/
theorem drained_filled {s : FakeDevice} (h : s.Inv) (b : UInt8) :
    ∃ code rb, fakeDeviceFillByte s.rb b = some (code, rb) ∧ rb.Inv ∧
      (code = 1 ↔ s.rb.len < rbSize) ∧
      ∀ rest, (s.filled b rest code rb).drained =
        if code = 1 then s.drained.byte b else s.drained := by
  by_cases hroom : s.rb.len < rbSize
  · obtain ⟨rb, hpush, hinv, _, _, hitems⟩ := push_spec h.rb ⟨[b], rfl⟩ hroom
    refine ⟨1, rb, hpush, hinv, by simp [hroom], fun rest => ?_⟩
    simp [FakeDevice.drained, FakeDevice.filled, hitems]
  · refine ⟨0, s.rb, push_full _ (Nat.not_lt.mp hroom), h.rb, by simp [hroom], fun rest => ?_⟩
    rfl

/-- What is still to be pushed ends with a line end. -/
theorem FakeDevice.Inv.last_tail {s : FakeDevice} (h : s.Inv) {b : UInt8} {rest : List UInt8}
    (hpending : s.pending = b :: rest) : ∀ c ∈ rest.getLast?, isLineEnd c = true := by
  intro c hc
  apply h.last
  rw [hpending]
  cases rest with
  | nil => simp at hc
  | cons d rest => simpa using hc

theorem fill_end_keeps {s : FakeDevice} (h : s.Inv) {b : UInt8} {rest : List UInt8}
    (hpending : s.pending = b :: rest) (hb : isLineEnd b = true) {code : ℤ}
    {rb : Ringbuffer 1 rbSize} (hrb : rb.Inv)
    (hdrained : (s.filled b rest code rb).drained =
      if code = 1 then s.drained.byte b else s.drained) : (s.filled b rest code rb).Inv := by
  obtain ⟨past, hsubmitted, hfollows⟩ := h.follows
  have hpieces := h.room
  have hsplit := List.splitOnP_append_cons_of_forall_mem h.text b hb rest
  rw [hpending] at hsubmitted hpieces
  refine ⟨hrb, ?_, h.last_tail hpending, ?_, h.short, ?_, past ++ [s.current], ?_, ?_⟩
  · simp [FakeDevice.filled, hb]
  · simp [FakeDevice.filled, hb]
  · intro l hl
    rw [FakeDevice.filled, hb] at hl
    apply hpieces
    rw [hsplit]
    exact List.mem_cons_of_mem _ hl
  · rw [textLines_append_cons h.text hb] at hsubmitted
    simpa [FakeDevice.filled, hb] using hsubmitted
  · rw [hdrained]
    by_cases hkept : code = 1
    · simpa [FakeDevice.filled, hb, hkept] using hfollows.end_kept hb h.lineBuffer_lt
    · simpa [FakeDevice.filled, hb, hkept] using hfollows.end_lost

/-- A byte of the text is pushed where the condition allows it. -/
theorem fill_text_keeps {s : FakeDevice} (h : s.Inv) (hwhole : s.KeepsWhole .fill) {b : UInt8}
    {rest : List UInt8} (hpending : s.pending = b :: rest) (hb : isLineEnd b = false) {code : ℤ}
    {rb : Ringbuffer 1 rbSize} (hrb : rb.Inv) (hcode : code = 1 ↔ s.rb.len < rbSize)
    (hdrained : (s.filled b rest code rb).drained =
      if code = 1 then s.drained.byte b else s.drained) : (s.filled b rest code rb).Inv := by
  obtain ⟨past, hsubmitted, hfollows⟩ := h.follows
  have hpieces := h.room
  have hlast := h.last
  have happend : s.current ++ b :: rest = (s.current ++ [b]) ++ rest := by simp
  have hnext := hwhole rfl b (by simp [hpending]) hb
  rw [hpending] at hsubmitted hpieces hlast
  have hrest : rest ≠ [] := by
    intro hnil
    rw [hnil] at hlast
    have := hlast b rfl
    simp [hb] at this
  refine ⟨hrb, ?_, h.last_tail hpending, ?_, h.short, ?_, past, ?_, ?_⟩
  · intro c hc
    rw [FakeDevice.filled, hb] at hc
    rcases List.mem_append.mp hc with hold | hnew
    · exact h.text c hold
    · rwa [List.mem_singleton.mp hnew]
  · exact fun hnil => absurd hnil hrest
  · rw [happend] at hpieces
    simpa [FakeDevice.filled, hb] using hpieces
  · rw [happend] at hsubmitted
    simpa [FakeDevice.filled, hb] using hsubmitted
  · rw [hdrained]
    by_cases hkept : code = 1
    · rw [if_pos (hcode.mp hkept)] at hnext
      simpa [FakeDevice.filled, hb, hkept] using hfollows.text_kept hb h.current_lt hnext
    · rw [if_neg (fun hroom => hkept (hcode.mpr hroom))] at hnext
      rw [hnext] at hfollows
      simpa [FakeDevice.filled, hb, hkept, hnext] using hfollows.text_lost

theorem fill_keeps {s t : FakeDevice} (h : s.Inv) (hwhole : s.KeepsWhole .fill)
    (hstep : s.step .fill = some t) : t.Inv := by
  cases hpending : s.pending with
  | nil => simp [FakeDevice.step, hpending] at hstep
  | cons b rest =>
      obtain ⟨code, rb, hpush, hrb, hcode, hdrained⟩ := drained_filled h b
      obtain rfl : s.filled b rest code rb = t := by
        simpa [FakeDevice.step, hpending, hpush] using hstep
      cases hb : isLineEnd b with
      | true => exact fill_end_keeps h hpending hb hrb (hdrained rest)
      | false => exact fill_text_keeps h hwhole hpending hb hrb hcode (hdrained rest)

/-- Reading a byte changes nothing of what `getLine` will have. -/
theorem read_keeps {s t : FakeDevice} (h : s.Inv) (hstep : s.step .read = some t) : t.Inv := by
  by_cases hne : 0 < s.rb.len
  · obtain ⟨rb, hpop, hrb, _, _, hitems⟩ := pop_spec h.rb true hne
    obtain ⟨b, hb⟩ : ∃ b, s.rb.cells s.rb.tail = [b] := by
      apply List.length_eq_one_iff.mp
      exact length_cell (item_in_block h.rb.size s.rb.tail)
    rw [hb] at hitems hpop
    obtain rfl : { s with rb, reader := s.reader.byte b } = t := by
      simpa [FakeDevice.step, fakeDeviceRead, hpop] using hstep
    have hdrained : FakeDevice.drained { s with rb, reader := s.reader.byte b } = s.drained := by
      simp [FakeDevice.drained, hitems]
    obtain ⟨past, hsubmitted, hfollows⟩ := h.follows
    exact ⟨hrb, h.text, h.last, h.idle, h.short, h.room, past, hsubmitted, hdrained ▸ hfollows⟩
  · have hpop := pop_empty true (Nat.eq_zero_of_not_pos hne)
    obtain rfl : s = t := by simpa [FakeDevice.step, fakeDeviceRead, hpop] using hstep
    exact h

/-- As long as every line finds room altogether or not at all, the lines returned by
`getLine` are lines submitted, in order, and whole. -/
theorem lines_whole {block : List UInt8} (hblock : block.length = rbSize * 1)
    {rb : Ringbuffer 1 rbSize} (hinit : ringbufferInit block = some rb)
    {as : List FakeDeviceAction}
    (h : fakeDevice.AllSteps FakeDevice.KeepsWhole (FakeDevice.start rb) as) :
    fakeDevice.Always FakeDevice.Whole (FakeDevice.start rb) as := by
  have hkeep : ∀ s a t, FakeDevice.Inv s → fakeDevice.step s a = some t → s.KeepsWhole a →
      FakeDevice.Inv t := by
    intro s a t hs hstep hwhole
    cases a with
    | submit c => exact submit_keeps hs hstep
    | fill => exact fill_keeps hs hwhole hstep
    | read => exact read_keeps hs hstep
  exact Machine.always_of_allSteps (fun s hs => hs.whole) hkeep
    (start_fakeDeviceInv hblock hinit) h

/-! ## Calls of the screens -/

def asciiBytes (c : String) : List UInt8 := c.toList.map fun x => UInt8.ofNat x.toNat

/-- A whole call of `retarget_uartCode`, before `getLine` reads again. -/
def screenCall (c : String) : List FakeDeviceAction :=
  .submit (asciiBytes c) :: List.replicate (retargetUartCode (asciiBytes c)).length .fill

/-- Three calls; `getLine` reads in the middle of each of them. -/
def interleavedCalls : List FakeDeviceAction :=
  screenCall "G91\r\nM11 XYZ\r\n" ++ List.replicate 9 .read ++
    (screenCall "G28 Z-300 F600\r\n").flatMap (fun a => [a, .read]) ++
    screenCall "G28 X400 Y-400 F3000\r\n" ++ List.replicate 40 .read

theorem lines_whole_interleaved :
    fakeDevice.Always FakeDevice.Whole (FakeDevice.start ⟨0, 0, 0, List.replicate rbSize 0⟩)
      interleavedCalls := by
  have hblock : (List.replicate rbSize (0 : UInt8)).length = rbSize * 1 := by decide
  exact lines_whole hblock (by decide) (by decide +kernel)

/-- The calls that a dialog makes one after the other.  The first four fill the ring
buffer; `getLine` reads three bytes before the fifth, and everything before the last. -/
def dialogCalls : List FakeDeviceAction :=
  screenCall "G91\r\nM11 XYZ\r\n" ++ screenCall "G28 Z-300 F600\r\n" ++
    screenCall "G0 Z2 F400\r\n" ++ screenCall "G28 Z-4 F400\r\n" ++ List.replicate 3 .read ++
    screenCall "G28 X400 Y-400 F3000\r\n" ++ List.replicate 64 .read ++
    screenCall "M0 XYZ\r\n" ++ List.replicate 10 .read

/-- Of the fifth call only `G28` finds room, and `getLine` returns `G28M0 XYZ`. -/
theorem lines_torn : ∃ rb, ringbufferInit (List.replicate rbSize 0) = some rb ∧
    ¬ fakeDevice.Always FakeDevice.Whole (FakeDevice.start rb) dialogCalls := by
  refine ⟨⟨0, 0, 0, List.replicate rbSize 0⟩, by decide, fun h => ?_⟩
  have hlast : ((fakeDevice.exec (FakeDevice.start ⟨0, 0, 0, List.replicate rbSize 0⟩)
      dialogCalls).map fun s => decide s.Whole) = some false := by decide +kernel
  obtain ⟨s, hexec, hs⟩ := Option.map_eq_some_iff.mp hlast
  exact of_decide_eq_false hs (h.exec hexec)

end TdPrinter
