import TdPrinter.Ymodem.Receive

/-!
# Writing to the file that was named

A filename packet is counted whether or not its file could be opened, and what makes a
later packet a data packet is only that one has been counted.  The branch for data packets
then works on whatever `fp` is.

`FileSession` is a session that remembers which filename packet the file behind `fp` was
opened for, and how the last call of `open` has ended.  In the branch for data packets `fp`
is the file of the current filename packet if that call was successful, and otherwise it is
-1 (`writesCurrent_iff`).
-/

namespace TdPrinter

/-! ## The branches -/

/-- A packet with the expected number is taken. -/
def Ymodem.Takes (s : Ymodem) (t : Turn) : Prop :=
  (receivePacket t.rx).result = 0 ∧ 0 < (receivePacket t.rx).length ∧
    ((receivePacket t.rx).data.getD packetSeqnoIndex 0).toNat = s.packetsReceived % 256

/-- The pass goes into the branch for filename packets. -/
def Ymodem.AtFileName (s : Ymodem) (t : Turn) : Prop :=
  s.Takes t ∧ s.packetsReceived = 0 ∧
    ((receivePacket t.rx).data.drop packetHeader).getD 0 0 ≠ 0

/-- The pass goes into the branch for data packets, `fd_get(fp)->size` and `write`. -/
def Ymodem.AtData (s : Ymodem) (t : Turn) : Prop := s.Takes t ∧ s.packetsReceived ≠ 0

instance (s : Ymodem) (t : Turn) : Decidable (s.Takes t) :=
  inferInstanceAs (Decidable (_ ∧ _ ∧ _))

instance (s : Ymodem) (t : Turn) : Decidable (s.AtFileName t) :=
  inferInstanceAs (Decidable (_ ∧ _ ∧ _))

instance (s : Ymodem) (t : Turn) : Decidable (s.AtData t) :=
  inferInstanceAs (Decidable (_ ∧ _))

/-! ## Sessions with their files -/

/-- A session, and where its open file comes from. -/
structure FileSession where
  session : Ymodem
  /-- the number of filename packets so far -/
  names : ℕ
  /-- whether `open` was successful for the last one -/
  opened : Bool
  /-- the filename packet for which the file behind `fp` was opened -/
  fd : Option ℕ

def FileSession.start (uart packetData : Bool) : FileSession :=
  ⟨Ymodem.start uart packetData, 0, false, none⟩

/-- What a pass that leads to `s'` does to the files. -/
def FileSession.next (g : FileSession) (t : Turn) (s' : Ymodem) : FileSession :=
  if g.session.AtFileName t then
    ⟨s', g.names + 1, t.opened, if t.opened then some (g.names + 1) else none⟩
  else ⟨s', g.names, g.opened, if s'.fp then g.fd else none⟩

/-- `Ymodem_Receive` with its files. -/
def fileSession : Machine FileSession Turn :=
  ⟨fun g t => (ymodem.step g.session t).map (g.next t)⟩

/-- In the branch for data packets, `fp` is the file of the current filename packet. -/
def FileSession.WritesCurrent (g : FileSession) (t : Turn) (_ : FileSession) : Prop :=
  g.session.AtData t → g.session.fp = true ∧ g.fd = some g.names

/-- The condition on a pass: a data packet with the expected number comes in only if the file that
was named last could be opened. -/
def FileSession.DataAfterOpen (g : FileSession) (t : Turn) : Prop :=
  g.session.AtData t → g.opened = true

/-! ## The invariant -/

/-- `fp` is the file of the last filename packet that could be opened, if it has not been closed;
in a transfer this is the current one. -/
structure FileSession.Sound (g : FileSession) : Prop where
  running : g.session.returned = none →
    g.session.Running ∧ g.session.announced = g.session.size
  fp : g.fd.isSome = g.session.fp
  current : g.session.returned = none → g.session.packetsReceived ≠ 0 →
    g.fd = if g.opened then some g.names else none

theorem takes_iff {s : Ymodem} {t : Turn} {seq : UInt8} {payload : List UInt8}
    (hp : IsPacket t.rx seq payload) : s.Takes t ↔ seq.toNat = s.packetsReceived % 256 := by
  obtain ⟨hresult, hlen, hpos, hseq, -⟩ := receivePacket_of_isPacket hp
  rw [Ymodem.Takes, hseq]
  refine ⟨fun h => h.2.2, fun h => ⟨hresult, ?_, h⟩⟩
  rw [hlen]
  exact_mod_cast hpos

theorem not_takes {s : Ymodem} {t : Turn} (h : (receivePacket t.rx).result ≠ 0 ∨
    (receivePacket t.rx).length ≤ 0) : ¬s.Takes t := by
  rintro ⟨hresult, hpos, -⟩
  rcases h with hne | hle
  · exact hne hresult
  · omega

/-- A pass that is not in the branch for filename packets opens nothing. -/
theorem next_of_not {g : FileSession} {t : Turn} (h : ¬g.session.AtFileName t) (s' : Ymodem) :
    g.next t s' = ⟨s', g.names, g.opened, if s'.fp then g.fd else none⟩ := if_neg h

/-- A pass that leaves `fp` and the count alone, or ends the transfer or the session. -/
theorem FileSession.Sound.other {g : FileSession} (h : g.Sound) {t : Turn} {s' : Ymodem}
    (hname : ¬g.session.AtFileName t) (hreturned : g.session.returned = none)
    (hrun : s'.returned = none → s'.Running ∧ s'.announced = s'.size)
    (hfp : s'.fp = true → g.session.fp = true)
    (hcount : s'.returned = none → s'.packetsReceived ≠ 0 →
      s'.fp = g.session.fp ∧ g.session.packetsReceived ≠ 0) : (g.next t s').Sound := by
  rw [next_of_not hname]
  refine ⟨hrun, ?_, fun hrunning hnonzero => ?_⟩
  · cases hopen : s'.fp with
    | false => simp
    | true => simp [h.fp, hfp hopen]
  · obtain ⟨hsame, hbefore⟩ := hcount hrunning hnonzero
    rw [← h.current hreturned hbefore]
    simp only [hsame, ← h.fp]
    cases g.fd <;> rfl

theorem FileSession.Sound.pass {g : FileSession} (h : g.Sound) {t : Turn} {s' : Ymodem}
    (hreturned : g.session.returned = none) (hpass : g.session.Pass t s') :
    (g.next t s').Sound := by
  obtain ⟨hrunning, hannounced⟩ := h.running hreturned
  have hrun := pass_running hrunning hannounced hpass
  cases hpass with
  | outOfSequence hp hseq =>
      have hname : ¬g.session.AtFileName t := fun hat => hseq ((takes_iff hp).mp hat.1)
      exact h.other hname hreturned hrun id fun _ hnonzero => ⟨rfl, hnonzero⟩
  | fileName body hp hseq hzero hname =>
      have hat : g.session.AtFileName t := by
        refine ⟨(takes_iff hp).mpr hseq, hzero, ?_⟩
        rw [body_head hp]
        obtain ⟨b, rest, rfl⟩ :=
          List.exists_cons_of_length_pos (receivePacket_of_isPacket hp).2.2.1
        simpa using hname
      rw [FileSession.next, if_pos hat]
      refine ⟨hrun, ?_, fun _ _ => rfl⟩
      show _ = t.opened
      cases t.opened <;> rfl
  | emptyName hp hseq hzero hname =>
      have hnot : ¬g.session.AtFileName t := by
        rintro ⟨-, -, hne⟩
        rw [body_head hp, hname] at hne
        exact hne rfl
      exact h.other hnot hreturned hrun (by simp [Ymodem.exit]) (by simp [Ymodem.exit])
  | data hp hseq hnonzero =>
      have hnot : ¬g.session.AtFileName t := fun hat => hnonzero hat.2.1
      refine h.other hnot hreturned hrun ?_ ?_
      · unfold Ymodem.dataPacket
        split
        · simp [Ymodem.exit]
        · exact id
      · intro hrunning' _
        revert hrunning'
        unfold Ymodem.dataPacket
        split
        · simp [Ymodem.exit]
        · exact fun _ => ⟨rfl, hnonzero⟩
  | endOfTransmission hlength _ =>
      exact h.other (fun hat => not_takes (.inr hlength.le) hat.1) hreturned hrun id
        fun _ hne => absurd rfl hne
  | abortBySender hlength _ =>
      have hnot : ¬g.session.Takes t := not_takes (.inr (by rw [hlength]; decide))
      exact h.other (fun hat => hnot hat.1) hreturned hrun (by simp [Ymodem.exit])
        (by simp [Ymodem.exit])
  | abortByUser huser =>
      have hnot : ¬g.session.Takes t := not_takes (.inl (by rw [huser]; decide))
      exact h.other (fun hat => hnot hat.1) hreturned hrun (by simp [Ymodem.exit])
        (by simp [Ymodem.exit])
  | error hne _ _ =>
      exact h.other (fun hat => not_takes (.inl hne) hat.1) hreturned hrun id
        fun _ hnonzero => ⟨rfl, hnonzero⟩
  | errorLimit hne _ _ =>
      exact h.other (fun hat => not_takes (.inl hne) hat.1) hreturned hrun (by simp [Ymodem.exit])
        (by simp [Ymodem.exit])

theorem start_sound (uart packetData : Bool) : (FileSession.start uart packetData).Sound := by
  refine ⟨start_running uart packetData, ?_, ?_⟩
  · cases uart <;> cases packetData <;> rfl
  · cases uart <;> cases packetData <;> simp [FileSession.start, Ymodem.start, Ymodem.exit]

/-- In a session a data packet goes to the file that was named last exactly if none comes in after
a file that could not be opened. -/
theorem writesCurrent_iff (uart packetData : Bool) (turns : List Turn) :
    fileSession.AllTransitions FileSession.WritesCurrent (.start uart packetData) turns ↔
      fileSession.AllSteps FileSession.DataAfterOpen (.start uart packetData) turns := by
  refine Machine.allTransitions_iff_allSteps (J := FileSession.Sound) ?_ ?_
    (start_sound uart packetData) turns
  · intro g t g' h hstep
    obtain ⟨s', hs', rfl⟩ := Option.map_eq_some_iff.mp hstep
    have hreturned := (Option.ite_none_right_eq_some.mp hs').1
    exact h.pass hreturned (step_pass (h.running hreturned).1 hs')
  · intro g t g' h hstep
    obtain ⟨s', hs', -⟩ := Option.map_eq_some_iff.mp hstep
    have hreturned := (Option.ite_none_right_eq_some.mp hs').1
    refine forall_congr' fun hdata => ?_
    have hcurrent := h.current hreturned hdata.2
    rw [← h.fp, hcurrent]
    cases g.opened <;> simp

/-- The name of a file that cannot be opened comes in, and then a data packet. -/
def unopenedFile : List Turn :=
  [⟨shortPacket 0 [97, 0, 51, 32], false, .full⟩, ⟨shortPacket 1 [1, 2, 3], true, .full⟩]

/-- The data packet goes to `fd_get(-1)`. -/
theorem unopenedFile_writes : ¬fileSession.AllTransitions FileSession.WritesCurrent
    (.start true true) unopenedFile := by
  intro h
  have hname : (fileSession.exec (.start true true)
      [⟨shortPacket 0 [97, 0, 51, 32], false, .full⟩]).map (fun g =>
        (g.session.fp, decide (g.session.AtData ⟨shortPacket 1 [1, 2, 3], true, .full⟩))) =
      some (false, true) := by
    decide +kernel
  have hdata : (fileSession.exec (.start true true) ([⟨shortPacket 0 [97, 0, 51, 32], false,
      .full⟩] ++ [⟨shortPacket 1 [1, 2, 3], true, .full⟩])).isSome := by
    decide +kernel
  obtain ⟨g, hg, hobserved⟩ := Option.map_eq_some_iff.mp hname
  obtain ⟨hfp, hat⟩ := Prod.mk.inj hobserved
  rw [Machine.exec_concat hg, Option.isSome_iff_exists] at hdata
  obtain ⟨g', hstep⟩ := hdata
  have hlast : g.WritesCurrent _ g' := Machine.AllTransitions.last h hg hstep
  have hopen := (hlast (of_decide_eq_true hat)).1
  rw [hfp] at hopen
  exact Bool.noConfusion hopen

end TdPrinter
