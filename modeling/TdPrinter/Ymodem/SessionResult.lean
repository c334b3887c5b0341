import TdPrinter.Ymodem.Receive

/-!
# The result of a session

`Ymodem_Receive` returns `size`.  This is the announced size of the last file, unless an
abort or a failed write has put another number in its place; too many errors in a row leave
it as it is.  Nor is the announced size compared with the size of the file, neither at
`EOT` nor at the end of the session.

`result_truthful_iff` is the exact condition for a positive result to mean a complete file.
-/

namespace TdPrinter

/-- A positive result means that the session was ended by the sender, with a packet without
a name, and that the last file has its announced size. -/
def Ymodem.Truthful (s : Ymodem) : Prop :=
  ∀ r ∈ s.returned,
    (0 < r → s.ending = some .emptyName ∧ (s.file.length : ℤ) = s.announced) ∧
      (s.ending ≠ some .emptyName → r ≤ 0)

/-- The condition on a pass: too many errors do not come after a file of positive size was
announced, and the session is not ended while the last file has another size. -/
def Ymodem.EndsComplete (s : Ymodem) (t : Turn) : Prop :=
  ((receivePacket t.rx).result ≠ 0 → (receivePacket t.rx).result ≠ 1 →
      (if s.sessionBegin then s.errors + 1 else s.errors) > maxErrors → s.size ≤ 0) ∧
    ∀ payload, IsPacket t.rx 0 payload → payload.head? = some 0 → s.packetsReceived = 0 →
      s.size ≤ 0 ∨ (s.file.length : ℤ) = s.size

/-- What holds as long as every end of a session meets the condition. -/
structure Ymodem.Session (s : Ymodem) : Prop where
  running : s.returned = none → s.Running
  announced_eq : s.returned = none → s.announced = s.size
  truthful : s.Truthful

theorem truthful_of_running {s : Ymodem} (h : s.returned = none) : s.Truthful := by
  intro r hr
  simp [h] at hr

/-- The result at an end that is not the regular one. -/
theorem exit_truthful_iff (s : Ymodem) {ending : Ending} (h : ending ≠ .emptyName) :
    (s.exit ending).Truthful ↔ s.size ≤ 0 := by
  constructor
  · intro htrue
    exact (htrue s.size rfl).2 (by simpa [Ymodem.exit] using h)
  · intro hsize r hr
    obtain rfl : s.size = r := by simpa [Ymodem.exit] using hr
    exact ⟨fun hpos => absurd hsize (by omega), fun _ => hsize⟩

theorem emptyName_truthful_iff {s : Ymodem} (hannounced : s.announced = s.size) :
    (s.exit .emptyName).Truthful ↔ s.size ≤ 0 ∨ (s.file.length : ℤ) = s.size := by
  constructor
  · intro htrue
    rcases lt_or_ge 0 s.size with hpos | hneg
    · exact Or.inr (((htrue s.size rfl).1 hpos).2.trans hannounced)
    · exact Or.inl hneg
  · intro h r hr
    obtain rfl : s.size = r := by simpa [Ymodem.exit] using hr
    refine ⟨fun hpos => ⟨rfl, ?_⟩, fun hne => absurd rfl hne⟩
    change (s.file.length : ℤ) = s.announced
    rw [hannounced]
    exact h.resolve_left (by omega)

/-- The condition on a pass that reads a packet concerns the packet without a name only. -/
theorem endsComplete_packet {s : Ymodem} {t : Turn} {seq : UInt8} {payload : List UInt8}
    (hp : IsPacket t.rx seq payload) : s.EndsComplete t ↔
      (seq = 0 → payload.head? = some 0 → s.packetsReceived = 0 →
        s.size ≤ 0 ∨ (s.file.length : ℤ) = s.size) := by
  constructor
  · rintro ⟨_, hname⟩ rfl
    exact hname payload hp
  · intro h
    refine ⟨fun hne => absurd (receivePacket_of_isPacket hp).1 hne, fun payload' hp' => ?_⟩
    obtain ⟨rfl, rfl⟩ := hp.unique hp'
    exact h rfl

/-- A pass that reads no packet and does not reach the error limit meets the condition. -/
theorem endsComplete_other {s : Ymodem} {t : Turn}
    (hnone : ∀ seq payload, ¬ IsPacket t.rx seq payload)
    (hlimit : (receivePacket t.rx).result = 0 ∨ (receivePacket t.rx).result = 1 ∨
      (if s.sessionBegin then s.errors + 1 else s.errors) ≤ maxErrors) : s.EndsComplete t := by
  refine ⟨fun hne hne' hlt => ?_, fun payload hp => absurd hp (hnone 0 payload)⟩
  rcases hlimit with hzero | hone | hle
  · exact absurd hzero hne
  · exact absurd hone hne'
  · omega

/-- After a pass the result is true if and only if the pass meets the condition. -/
theorem pass_truthful_iff {s s' : Ymodem} {t : Turn} (hrun : s.Running)
    (hannounced : s.announced = s.size) (hpass : s.Pass t s') :
    s'.Truthful ↔ s.EndsComplete t := by
  cases hpass with
  | @outOfSequence seq payload hp hseq =>
      refine iff_of_true (truthful_of_running hrun.returned) ((endsComplete_packet hp).mpr ?_)
      rintro rfl _ hzero
      exact absurd (by rw [hzero]; rfl) hseq
  | fileName body hp _ _ hname =>
      refine iff_of_true (truthful_of_running hrun.returned) ((endsComplete_packet hp).mpr ?_)
      exact fun _ hhead => absurd hhead hname
  | @emptyName seq payload hp hseq hzero hname =>
      have hseq : seq = 0 := by
        apply UInt8.toNat_inj.mp
        rw [hseq, hzero]
        rfl
      refine (emptyName_truthful_iff hannounced).trans ?_
      rw [endsComplete_packet hp]
      exact ⟨fun h _ _ _ => h, fun h => h hseq hname hzero⟩
  | @data seq payload hp _ hnonzero =>
      refine iff_of_true ?_ ((endsComplete_packet hp).mpr ?_)
      · unfold Ymodem.dataPacket
        split
        · exact (exit_truthful_iff _ (by simp)).mpr (by simp [Ymodem.send])
        · exact truthful_of_running hrun.returned
      · exact fun _ _ hzero => absurd hzero hnonzero
  | endOfTransmission hlength hresult =>
      exact iff_of_true (truthful_of_running hrun.returned)
        (endsComplete_other (not_isPacket (Or.inr hlength.le)) (Or.inl hresult))
  | abortBySender hlength hresult =>
      refine iff_of_true ((exit_truthful_iff _ (by simp)).mpr (by simp [Ymodem.send])) ?_
      exact endsComplete_other (not_isPacket (Or.inr (by omega))) (Or.inl hresult)
  | abortByUser huser =>
      refine iff_of_true ((exit_truthful_iff _ (by simp)).mpr (by simp [Ymodem.send])) ?_
      exact endsComplete_other (not_isPacket (Or.inl (by omega))) (Or.inr (Or.inl huser))
  | error hne _ hle =>
      exact iff_of_true (truthful_of_running hrun.returned)
        (endsComplete_other (not_isPacket (Or.inl hne)) (Or.inr (Or.inr hle)))
  | errorLimit hne hne' hlimit =>
      refine (exit_truthful_iff _ (by simp)).trans ?_
      constructor
      · exact fun hsize => ⟨fun _ _ _ => hsize,
          fun payload hp => absurd hp (not_isPacket (Or.inl hne) 0 payload)⟩
      · exact fun h => h.1 hne hne' hlimit

theorem start_session (uart packetData : Bool) : (Ymodem.start uart packetData).Session := by
  unfold Ymodem.start
  cases uart with
  | false =>
      refine ⟨fun h => by simp [Ymodem.exit] at h, fun h => by simp [Ymodem.exit] at h, ?_⟩
      exact (exit_truthful_iff _ (by simp)).mpr (by simp)
  | true =>
      cases packetData with
      | false =>
          refine ⟨fun h => by simp [Ymodem.exit] at h, fun h => by simp [Ymodem.exit] at h, ?_⟩
          exact (exit_truthful_iff _ (by simp)).mpr (by simp)
      | true => exact ⟨fun _ => ⟨rfl, rfl, rfl⟩, fun _ => rfl, truthful_of_running rfl⟩

/-! ## Sessions -/

/-- The result of a session is true if and only if every pass of it meets the condition. -/
theorem result_truthful_iff (uart packetData : Bool) (turns : List Turn) :
    ymodem.Always Ymodem.Truthful (.start uart packetData) turns ↔
      ymodem.AllSteps Ymodem.EndsComplete (.start uart packetData) turns := by
  have hstep_iff : ∀ s t s', Ymodem.Session s → ymodem.step s t = some s' →
      (s'.Truthful ↔ s.EndsComplete t) ∧
        (s'.returned = none → s'.Running ∧ s'.announced = s'.size) := by
    intro s t s' h hstep
    have hreturned : s.returned = none := (Option.ite_none_right_eq_some.mp hstep).1
    have hrun := h.running hreturned
    have hannounced := h.announced_eq hreturned
    have hpass := step_pass hrun hstep
    exact ⟨pass_truthful_iff hrun hannounced hpass, pass_running hrun hannounced hpass⟩
  refine Machine.always_iff_allSteps (J := Ymodem.Session) (fun _ h => h.truthful) ?_ ?_
    (start_session uart packetData) turns
  · intro s t s' h hstep hC
    obtain ⟨hiff, hrunning⟩ := hstep_iff s t s' h hstep
    exact ⟨fun hreturned => (hrunning hreturned).1, fun hreturned => (hrunning hreturned).2,
      hiff.mpr hC⟩
  · intro s t s' h hstep hC htrue
    exact hC ((hstep_iff s t s' h hstep).1.mp htrue)

/-- A file `a` of 100 bytes is announced, ended at once, and the session with it: the
result is 100, and nothing was written. -/
theorem empty_file_returns_hundred :
    ¬ ymodem.Always Ymodem.Truthful (.start true true)
      [⟨shortPacket 0 [97, 0, 49, 48, 48, 32], true, .full⟩, ⟨[some eot], true, .full⟩,
        ⟨shortPacket 0 [], true, .full⟩] := by
  intro halways
  have hexec : (ymodem.exec (.start true true)
      [⟨shortPacket 0 [97, 0, 49, 48, 48, 32], true, .full⟩, ⟨[some eot], true, .full⟩,
        ⟨shortPacket 0 [], true, .full⟩]).map (fun s => (s.returned, s.file.length, s.announced)) =
      some (some 100, 0, 100) := by
    decide +kernel
  obtain ⟨s, hs, hobserved⟩ := Option.map_eq_some_iff.mp hexec
  simp only [Prod.mk.injEq] at hobserved
  obtain ⟨hreturned, hfile, hannounced⟩ := hobserved
  have htrue := (halways.exec hs 100 hreturned).1 (by decide)
  rw [hfile, hannounced] at htrue
  exact absurd htrue.2 (by decide)

end TdPrinter
