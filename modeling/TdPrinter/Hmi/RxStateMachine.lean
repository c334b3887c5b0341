import Mathlib.Data.Int.Notation
import TdPrinter.Foundation.Stream

/-!
# Frames from the touch screen

`RxStateMachine` looks for `EE` and takes the two bytes behind it for a header.  If they are
`B1 11`, it collects five more and dispatches a button; otherwise it starts over, and has
swallowed two bytes.  It knows nothing of the end of a frame.  What keeps it in step is that the
four bytes `FF FC FF FF` at the end of every frame complete whatever header it has begun.
-/

namespace TdPrinter

/-! ## The receiver -/

/-- What lies behind `s->curScreen`: the handler of the current screen, if it has one, and
`reboot`. -/
structure HmiHandlers (σ : Type*) where
  onButton : σ → Option (UInt16 → σ)
  reboot : σ → ℤ → σ

/-- The static variables of `RxStateMachine`, what the handlers work on, and the screen and
control ids that have been dispatched. -/
structure RxState (σ : Type*) where
  state : ℕ
  len : ℕ
  lp : UInt8
  payload : Fin 32 → UInt8
  hmi : σ
  dispatched : List (UInt16 × UInt16)

variable {σ : Type*}

/-- The button `cid` of the current screen. -/
def HmiHandlers.press (handlers : HmiHandlers σ) (hmi : σ) (cid : UInt16) : σ :=
  match handlers.onButton hmi with
  | some onButton => onButton cid
  | none => hmi

def HmiHandlers.dispatch (handlers : HmiHandlers σ) (hmi : σ) (sid cid : UInt16) : σ :=
  if sid = 0 then handlers.press hmi cid
  else if sid = 2 then handlers.press hmi cid
  else if sid = 3 then handlers.press hmi cid
  else if sid = 4 then if cid = 3 then handlers.reboot hmi 1 else hmi
  else hmi

/-- `payload[i]=data`. -/
def RxState.put (s : RxState σ) (i : ℕ) (data : UInt8) : Option (RxState σ) :=
  if h : i < 32 then some { s with payload := Function.update s.payload ⟨i, h⟩ data } else none

/-- The payload begins with `CONTROL_CMD` and `CONTROL_READ`. -/
def RxState.IsControl (s : RxState σ) : Prop := s.payload 0 = 0xB1 ∧ s.payload 1 = 0x11

instance (s : RxState σ) : Decidable s.IsControl :=
  inferInstanceAs (Decidable (s.payload 0 = 0xB1 ∧ s.payload 1 = 0x11))

/-- `case 4`. -/
def RxState.complete (handlers : HmiHandlers σ) (s : RxState σ) : RxState σ :=
  let s :=
    if s.IsControl then
      let sid := (s.payload 3).toUInt16
      let cid := (s.payload 5).toUInt16
      { s with
        hmi := handlers.dispatch s.hmi sid cid
        dispatched := s.dispatched ++ [(sid, cid)] }
    else s
  { s with state := 0 }

/-- `RxStateMachine`. -/
def rxStateMachine (handlers : HmiHandlers σ) (s : RxState σ) (data : UInt8) :
    Option (RxState σ) :=
  match s.state with
  | 0 => some (if data = 0xEE then { s with state := s.state + 1 } else s)
  | 1 => (s.put 0 data).map fun s => { s with state := s.state + 1 }
  | 2 =>
      (s.put 1 data).map fun s =>
        let s := { s with lp := 0 }
        if s.IsControl then { s with len := 5, state := s.state + 1 } else { s with state := 0 }
  | 3 =>
      (s.put (2 + s.lp.toNat) data).map fun s =>
        let s := { s with lp := s.lp + 1 }
        if s.lp.toNat < s.len then s
        -- no break: falls through to `case 4`
        else ({ s with state := s.state + 1 } : RxState σ).complete handlers
  | 4 => some (s.complete handlers)
  | _ => some { s with state := 0 }

def rxMachine (handlers : HmiHandlers σ) : Machine (RxState σ) UInt8 :=
  ⟨rxStateMachine handlers⟩

/-! ## Frames -/

/-- The bytes of a frame between `EE` and the end: they contain no header, and a control frame
is long enough. -/
structure HmiBody where
  bytes : List UInt8
  noHeader : ¬ [0xEE, 0xB1, 0x11] <:+: bytes
  long : bytes.take 2 = [0xB1, 0x11] → 2 + 5 ≤ bytes.length

def hmiTail : List UInt8 := [0xFF, 0xFC, 0xFF, 0xFF]

def HmiBody.frame (body : HmiBody) : List UInt8 := 0xEE :: body.bytes ++ hmiTail

/-- The screen and control ids of a frame whose body begins with `B1 11`: the second and the
fourth byte behind that. -/
def HmiBody.request (body : HmiBody) : Option (UInt16 × UInt16) :=
  if body.bytes.take 2 = [0xB1, 0x11] then
    let rest := body.bytes.drop 2
    some ((rest.getD 1 0).toUInt16, (rest.getD 3 0).toUInt16)
  else none

/-! ## Bytes that dispatch nothing -/

variable {handlers : HmiHandlers σ}

/-- Reading `l` leads back to state 0 without a dispatch. -/
def RxState.Skips (handlers : HmiHandlers σ) (s : RxState σ) (l : List UInt8) : Prop :=
  ∃ t, (rxMachine handlers).exec s l = some t ∧ t.state = 0 ∧ t.hmi = s.hmi ∧
    t.dispatched = s.dispatched

theorem RxState.Skips.append {s : RxState σ} {l₁ l₂ : List UInt8} (h₁ : s.Skips handlers l₁)
    (h₂ : ∀ t : RxState σ, t.state = 0 → t.Skips handlers l₂) :
    s.Skips handlers (l₁ ++ l₂) := by
  obtain ⟨t, hexec, hzero, hhmi, hdispatched⟩ := h₁
  obtain ⟨u, hrest, hu, hhmi', hdispatched'⟩ := h₂ t hzero
  refine ⟨u, ?_, hu, hhmi'.trans hhmi, hdispatched'.trans hdispatched⟩
  rw [Machine.exec_append hexec, hrest]

theorem skips_of_forall_ne {l : List UInt8} (hl : ∀ c ∈ l, c ≠ 0xEE) {s : RxState σ}
    (hs : s.state = 0) : s.Skips handlers l := by
  refine ⟨s, ?_, hs, rfl, rfl⟩
  induction l with
  | nil => rfl
  | cons c l ih =>
      have hstay : (rxMachine handlers).step s c = some s := by
        simp [rxMachine, rxStateMachine, hs, hl c List.mem_cons_self]
      rw [Machine.exec, hstay]
      exact ih fun b hb => hl b (List.mem_cons_of_mem c hb)

/-- Any other two bytes behind `EE` lead back to the start. -/
theorem skips_of_ne_header {s : RxState σ} (hs : s.state = 0) {x y : UInt8}
    (hxy : ¬ (x = 0xB1 ∧ y = 0x11)) : s.Skips handlers [0xEE, x, y] := by
  let payload := Function.update (Function.update s.payload 0 x) 1 y
  refine ⟨{ s with payload := payload, lp := 0, state := 0 }, ?_, rfl, rfl, rfl⟩
  simp [Machine.exec, rxMachine, rxStateMachine, hs, RxState.put, RxState.IsControl, hxy, payload]

/-- Where no header is, nothing is dispatched, and the end of the frame leads back to state 0
from wherever it finds the receiver. -/
theorem skips_append_tail : ∀ {l : List UInt8}, ¬ [0xEE, 0xB1, 0x11] <:+: l →
    ∀ {s : RxState σ}, s.state = 0 → s.Skips handlers (l ++ hmiTail)
  | [], _, _, hs => skips_of_forall_ne (by simp [hmiTail]) hs
  | c :: l, hno, s, hs => by
      by_cases hc : c = 0xEE
      · subst hc
        match l, hno with
        | [], _ =>
            -- `EE FF FC`
            exact (skips_of_ne_header hs (x := 0xFF) (y := 0xFC) (by decide)).append
              fun t ht => skips_of_forall_ne (l := [0xFF, 0xFF]) (by simp) ht
        | [x], _ =>
            -- `EE x FF`
            exact (skips_of_ne_header hs (x := x) (y := 0xFF) (by simp)).append
              fun t ht => skips_of_forall_ne (l := [0xFC, 0xFF, 0xFF]) (by simp) ht
        | x :: y :: l, hno =>
            have hxy : ¬ (x = 0xB1 ∧ y = 0x11) := by
              rintro ⟨rfl, rfl⟩
              exact hno (List.prefix_append [0xEE, 0xB1, 0x11] l).isInfix
            have hrest : ¬ [0xEE, 0xB1, 0x11] <:+: l := fun h =>
              hno (h.trans (List.suffix_append [0xEE, x, y] l).isInfix)
            exact (skips_of_ne_header hs hxy).append fun t ht => skips_append_tail hrest ht
      · have hrest : ¬ [0xEE, 0xB1, 0x11] <:+: l := fun h => hno (List.infix_cons h)
        have hfirst : s.Skips handlers [c] := skips_of_forall_ne (by simpa using hc) hs
        exact hfirst.append fun t ht => skips_append_tail hrest ht

/-! ## Control frames -/

theorem exec_header {s : RxState σ} (hs : s.state = 0) :
    (rxMachine handlers).exec s [0xEE, 0xB1, 0x11] = some { s with
      payload := Function.update (Function.update s.payload 0 0xB1) 1 0x11
      lp := 0, len := 5, state := 3 } := by
  simp [Machine.exec, rxMachine, rxStateMachine, hs, RxState.put, RxState.IsControl]

theorem exec_payload {s : RxState σ} (hs : s.state = 3) (hlp : s.lp = 0) (hlen : s.len = 5)
    (b₀ b₁ b₂ b₃ b₄ : UInt8) :
    (rxMachine handlers).exec s [b₀, b₁, b₂, b₃, b₄] = some (({ s with
      payload := Function.update (Function.update (Function.update (Function.update
        (Function.update s.payload 2 b₀) 3 b₁) 4 b₂) 5 b₃) 6 b₄
      lp := 5, state := 4 } : RxState σ).complete handlers) := by
  simp [Machine.exec, rxMachine, rxStateMachine, hs, hlp, hlen, RxState.put]

/-- `EE B1 11` and five bytes dispatch the second and the fourth of these. -/
theorem exec_control (handlers : HmiHandlers σ) {s : RxState σ} (hs : s.state = 0)
    (b₀ b₁ b₂ b₃ b₄ : UInt8) :
    ∃ t, (rxMachine handlers).exec s ([0xEE, 0xB1, 0x11] ++ [b₀, b₁, b₂, b₃, b₄]) = some t ∧
      t.state = 0 ∧ t.hmi = handlers.dispatch s.hmi b₁.toUInt16 b₃.toUInt16 ∧
      t.dispatched = s.dispatched ++ [(b₁.toUInt16, b₃.toUInt16)] := by
  rw [Machine.exec_append (exec_header hs), exec_payload rfl rfl rfl]
  refine ⟨_, rfl, rfl, ?_, ?_⟩
  all_goals simp [RxState.complete, RxState.IsControl]

/-! ## The stream -/

/-- What a frame does to the handlers' data and to the record. -/
def HmiBody.effect (handlers : HmiHandlers σ) (view : σ × List (UInt16 × UInt16))
    (body : HmiBody) : σ × List (UInt16 × UInt16) :=
  match body.request with
  | some (sid, cid) => (handlers.dispatch view.1 sid cid, view.2 ++ [(sid, cid)])
  | none => view

theorem HmiBody.exec_frame (body : HmiBody) {s : RxState σ} (hs : s.state = 0) :
    ∃ t, (rxMachine handlers).exec s body.frame = some t ∧ t.state = 0 ∧
      (t.hmi, t.dispatched) = body.effect handlers (s.hmi, s.dispatched) := by
  unfold HmiBody.frame HmiBody.effect HmiBody.request
  by_cases hcontrol : body.bytes.take 2 = [0xB1, 0x11]
  · have hlong := body.long hcontrol
    obtain ⟨rest, hbytes⟩ : ∃ rest, body.bytes = 0xB1 :: 0x11 :: rest :=
      ⟨body.bytes.drop 2, by rw [← List.take_append_drop 2 body.bytes, hcontrol]; rfl⟩
    rw [hbytes] at hlong
    match rest, hbytes with
    | b₀ :: b₁ :: b₂ :: b₃ :: b₄ :: rest, hbytes =>
        have hno : ¬ [0xEE, 0xB1, 0x11] <:+: rest := fun h => body.noHeader <| by
          rw [hbytes]
          exact h.trans (List.suffix_append [0xB1, 0x11, b₀, b₁, b₂, b₃, b₄] rest).isInfix
        obtain ⟨t, hexec, ht, hhmi, hdispatched⟩ := exec_control handlers hs b₀ b₁ b₂ b₃ b₄
        have hskip : t.Skips handlers (rest ++ hmiTail) := skips_append_tail hno ht
        obtain ⟨u, htail, hu, hhmi', hdispatched'⟩ := hskip
        refine ⟨u, ?_, hu, ?_⟩
        · rw [hbytes]
          exact (Machine.exec_append hexec _).trans htail
        · rw [if_pos hcontrol, hhmi', hhmi, hdispatched', hdispatched, hbytes]
          rfl
  · have hno : ¬ [0xEE, 0xB1, 0x11] <:+: 0xEE :: body.bytes := by
      rw [List.infix_cons_iff]
      rintro (hhead | hinside)
      · obtain ⟨rest, hrest⟩ := hhead
        have hbytes := (List.cons.inj hrest).2
        exact hcontrol (by rw [← hbytes]; rfl)
      · exact body.noHeader hinside
    have hskip : s.Skips handlers (0xEE :: body.bytes ++ hmiTail) := skips_append_tail hno hs
    obtain ⟨t, hexec, ht, hhmi, hdispatched⟩ := hskip
    refine ⟨t, hexec, ht, ?_⟩
    rw [if_neg hcontrol, hhmi, hdispatched]

theorem foldl_effect (bodies : List HmiBody) (view : σ × List (UInt16 × UInt16)) :
    bodies.foldl (HmiBody.effect handlers) view =
      ((bodies.filterMap HmiBody.request).foldl (fun h r => handlers.dispatch h r.1 r.2) view.1,
        view.2 ++ bodies.filterMap HmiBody.request) := by
  induction bodies generalizing view with
  | nil => simp
  | cons body bodies ih =>
      rw [List.foldl_cons, ih, HmiBody.effect]
      cases hrequest : body.request with
      | none => simp [hrequest]
      | some r => simp [hrequest]

/-- Of any frames in a row exactly the control frames are dispatched, in order and with their
screen and control ids; after each frame the receiver is back in state 0, and no byte is stored
outside of `payload`. -/
theorem rxStateMachine_frames (handlers : HmiHandlers σ) (len : ℕ) (lp : UInt8)
    (payload : Fin 32 → UInt8) (hmi : σ) (bodies : List HmiBody) (k : ℕ) :
    ∃ t, (rxMachine handlers).exec ⟨0, len, lp, payload, hmi, []⟩
        ((bodies.take k).flatMap HmiBody.frame) = some t ∧
      t.state = 0 ∧
      t.dispatched = (bodies.take k).filterMap HmiBody.request ∧
      t.hmi = t.dispatched.foldl (fun h r => handlers.dispatch h r.1 r.2) hmi := by
  obtain ⟨t, hexec, ht, hview⟩ := Machine.exec_chunks (M := rxMachine handlers) HmiBody.frame
    (fun s => s.state = 0) (fun s => (s.hmi, s.dispatched)) (HmiBody.effect handlers)
    (fun s body hs => body.exec_frame hs) (s := ⟨0, len, lp, payload, hmi, []⟩) rfl
    (bodies.take k)
  rw [foldl_effect, Prod.mk.injEq] at hview
  refine ⟨t, hexec, ht, hview.2, ?_⟩
  rw [hview.1, hview.2, List.nil_append]

def noiseBytes : List UInt8 := [0xEE, 0xB1, 0xEE, 0x11]

def buttonBytes : List UInt8 := [0xB1, 0x11, 0x00, 0x02, 0x00, 0x07, 0xEE]

theorem noiseBytes_noHeader : ¬ [0xEE, 0xB1, 0x11] <:+: noiseBytes := by decide

theorem noiseBytes_long : noiseBytes.take 2 = [0xB1, 0x11] → 2 + 5 ≤ noiseBytes.length := by decide

theorem buttonBytes_noHeader : ¬ [0xEE, 0xB1, 0x11] <:+: buttonBytes := by decide

theorem buttonBytes_long : buttonBytes.take 2 = [0xB1, 0x11] → 2 + 5 ≤ buttonBytes.length := by
  decide

/-- A body with `EE` in it, and no control frame. -/
def noiseBody : HmiBody := ⟨noiseBytes, noiseBytes_noHeader, noiseBytes_long⟩

/-- Button 7 of screen 2, and an `EE` behind it. -/
def buttonBody : HmiBody := ⟨buttonBytes, buttonBytes_noHeader, buttonBytes_long⟩

/-- A screen that writes down its buttons. -/
def recordingHandlers : HmiHandlers (List UInt16) where
  onButton hmi := some fun cid => hmi ++ [cid]
  reboot hmi _ := hmi

theorem rxStateMachine_frames_button :
    ∃ t, (rxMachine recordingHandlers).exec ⟨0, 0, 0, fun _ => 0, [], []⟩
        ([noiseBody, buttonBody, noiseBody, buttonBody].flatMap HmiBody.frame) = some t ∧
      t.state = 0 ∧ t.dispatched = [(2, 7), (2, 7)] ∧ t.hmi = [7, 7] := by
  obtain ⟨t, hexec, ht, hdispatched, hhmi⟩ := rxStateMachine_frames recordingHandlers 0 0
    (fun _ => 0) [] [noiseBody, buttonBody, noiseBody, buttonBody] 4
  have hrecord : t.dispatched = [(2, 7), (2, 7)] := hdispatched.trans (by decide)
  rw [hrecord] at hhmi
  exact ⟨t, hexec, ht, hrecord, hhmi⟩

end TdPrinter
