import Mathlib.Data.Finset.SDiff
import Mathlib.Data.Finset.Insert
import Mathlib.Data.Finset.Lattice.Basic

/-!
# RT-Thread events

The event object of `ipc.c`: a set of flags and the threads suspended on it.  A
receiver names the flags it wants, whether it wants all of them (`AND`) or any
(`OR`), and whether receiving clears them.

* `rtEventSend` sets flags and then walks the suspended threads in order; each
  one whose request is met is resumed with `RT_EOK` and, if it asked for it,
  clears its flags before the next one is looked at.
* `rtEventReset` (`RT_IPC_CMD_RESET`) resumes every suspended thread with
  `-RT_ERROR` and empties the set.
* `rtEventRecv` returns at once when the request is met; otherwise it suspends
  the caller, or times out when it was told not to wait.

A resumed thread does not run at once.  `resumed` keeps the threads that have
been made ready together with the error code they will find in `thread->error`;
`rtEventResume` is the moment one of them continues.
-/

namespace TdPrinter

/-- The results of `rt_event_recv`. -/
inductive RtErr
  | eok
  | error
  | etimeout
  deriving DecidableEq

/-- A call of `rt_event_recv`: the thread, `event_set` and `event_info`. -/
structure Receiver (Thread Flag : Type*) where
  thread : Thread
  want : Finset Flag
  all : Bool
  clear : Bool

/-- `rt_event_t`. -/
structure Event (Thread Flag : Type*) where
  set : Finset Flag
  suspended : List (Receiver Thread Flag)
  resumed : List (Thread × RtErr)

section

variable {Thread Flag : Type*} [DecidableEq Flag]

/-- `rt_event_create`. -/
def rtEventCreate : Event Thread Flag := ⟨∅, [], []⟩

/-- The test of `rt_event_send` and `rt_event_recv`. -/
def Receiver.satisfied (r : Receiver Thread Flag) (set : Finset Flag) : Bool :=
  if r.all then decide (r.want ⊆ set) else decide (r.want ∩ set ≠ ∅)

/-- The set that a satisfied receiver leaves behind. -/
def Receiver.consume (r : Receiver Thread Flag) (set : Finset Flag) : Finset Flag :=
  if r.clear then set \ r.want else set

/-- The walk of `rt_event_send` over the suspended threads. -/
def Event.wake : List (Receiver Thread Flag) → Event Thread Flag → Event Thread Flag
  | [], e => e
  | r :: rest, e =>
      if r.satisfied e.set then
        Event.wake rest
          { e with set := r.consume e.set, resumed := e.resumed ++ [(r.thread, .eok)] }
      else Event.wake rest { e with suspended := e.suspended ++ [r] }

/-- `rt_event_send`. -/
def rtEventSend (e : Event Thread Flag) (flags : Finset Flag) : Event Thread Flag :=
  Event.wake e.suspended { e with set := e.set ∪ flags, suspended := [] }

/-- `rt_event_control` with `RT_IPC_CMD_RESET`. -/
def rtEventReset (e : Event Thread Flag) : Event Thread Flag where
  set := ∅
  suspended := []
  resumed := e.resumed ++ e.suspended.map fun r => (r.thread, .error)

/-- `rt_event_recv`; the result is `none` when the caller has been suspended. -/
def rtEventRecv (e : Event Thread Flag) (r : Receiver Thread Flag) (wait : Bool) :
    Event Thread Flag × Option RtErr :=
  if r.satisfied e.set then ({ e with set := r.consume e.set }, some .eok)
  else if wait then ({ e with suspended := e.suspended ++ [r] }, none)
  else (e, some .etimeout)

/-- The timer of a suspended thread runs out. -/
def rtEventExpire [DecidableEq Thread] (e : Event Thread Flag) (t : Thread) : Event Thread Flag :=
  { e with
    suspended := e.suspended.filter fun r => r.thread ≠ t
    resumed := e.resumed ++ [(t, .etimeout)] }

/-- A resumed thread continues: the error it finds, and the event without it. -/
def rtEventResume [DecidableEq Thread] (e : Event Thread Flag) (t : Thread) :
    Option (RtErr × Event Thread Flag) :=
  (e.resumed.find? fun p => p.1 = t).map fun p => (p.2, { e with resumed := e.resumed.erase p })

/-! ## What the operations do to one flag -/

/-- No suspended receiver would clear `f`. -/
def Event.Unclaimed (e : Event Thread Flag) (f : Flag) : Prop :=
  ∀ r ∈ e.suspended, r.clear = true → f ∉ r.want

theorem Receiver.mem_consume {r : Receiver Thread Flag} {set : Finset Flag} {f : Flag}
    (h : r.clear = true → f ∉ r.want) : f ∈ r.consume set ↔ f ∈ set := by
  unfold Receiver.consume
  split
  · rename_i hclear
    simp [h hclear]
  · rfl

theorem Event.mem_set_wake {f : Flag} (rs : List (Receiver Thread Flag)) (e : Event Thread Flag)
    (h : ∀ r ∈ rs, r.clear = true → f ∉ r.want) : f ∈ (e.wake rs).set ↔ f ∈ e.set := by
  induction rs generalizing e with
  | nil => rfl
  | cons r rs ih =>
      have htail : ∀ r ∈ rs, r.clear = true → f ∉ r.want := fun s hs =>
        h s (List.mem_cons_of_mem r hs)
      simp only [Event.wake]
      split
      · rw [ih _ htail]
        exact Receiver.mem_consume (h r List.mem_cons_self)
      · rw [ih _ htail]

/-- A flag that nobody is about to clear is set by a send and by nothing else in
it. -/
theorem mem_set_send {e : Event Thread Flag} {f : Flag} (h : e.Unclaimed f)
    (flags : Finset Flag) : f ∈ (rtEventSend e flags).set ↔ f ∈ e.set ∨ f ∈ flags := by
  rw [rtEventSend, Event.mem_set_wake _ _ h, Finset.mem_union]

theorem Event.set_wake_subset (rs : List (Receiver Thread Flag)) (e : Event Thread Flag) :
    (e.wake rs).set ⊆ e.set := by
  induction rs generalizing e with
  | nil => exact Finset.Subset.refl _
  | cons r rs ih =>
      simp only [Event.wake]
      split
      · refine (ih _).trans ?_
        show r.consume e.set ⊆ e.set
        unfold Receiver.consume
        split
        · exact Finset.sdiff_subset
        · exact Finset.Subset.refl _
      · exact ih _

theorem notMem_send {e : Event Thread Flag} {f : Flag} {flags : Finset Flag} (h : f ∉ e.set)
    (hflags : f ∉ flags) : f ∉ (rtEventSend e flags).set := by
  intro hmem
  have hunion := Event.set_wake_subset _ _ hmem
  rcases Finset.mem_union.mp hunion with hold | hnew
  · exact h hold
  · exact hflags hnew

theorem Event.suspended_wake {r : Receiver Thread Flag} (rs : List (Receiver Thread Flag))
    (e : Event Thread Flag) (h : r ∈ (e.wake rs).suspended) : r ∈ e.suspended ∨ r ∈ rs := by
  induction rs generalizing e with
  | nil => exact Or.inl h
  | cons s rs ih =>
      simp only [Event.wake] at h
      split at h
      · rcases ih _ h with h | h
        · exact Or.inl h
        · exact Or.inr (List.mem_cons_of_mem s h)
      · rcases ih _ h with h | h
        · rcases List.mem_append.mp h with h | h
          · exact Or.inl h
          · exact Or.inr (List.mem_cons.mpr (Or.inl (List.mem_singleton.mp h)))
        · exact Or.inr (List.mem_cons_of_mem s h)

/-- A send only takes threads off the suspended list. -/
theorem suspended_send {e : Event Thread Flag} {flags : Finset Flag} {r : Receiver Thread Flag}
    (h : r ∈ (rtEventSend e flags).suspended) : r ∈ e.suspended := by
  rcases Event.suspended_wake _ _ h with h | h
  · simp at h
  · exact h

theorem Event.Unclaimed.send {e : Event Thread Flag} {f : Flag} (h : e.Unclaimed f)
    (flags : Finset Flag) : (rtEventSend e flags).Unclaimed f :=
  fun r hr => h r (suspended_send hr)

omit [DecidableEq Flag] in
theorem Event.Unclaimed.reset (e : Event Thread Flag) (f : Flag) :
    (rtEventReset e).Unclaimed f := fun r hr => by simp [rtEventReset] at hr

theorem Event.Unclaimed.recv {e : Event Thread Flag} {f : Flag} (h : e.Unclaimed f)
    {r : Receiver Thread Flag} {wait : Bool}
    (hr : wait = true → r.clear = true → f ∉ r.want) : (rtEventRecv e r wait).1.Unclaimed f := by
  unfold rtEventRecv
  split
  · exact h
  · split
    · rename_i hwait
      intro s hs
      rcases List.mem_append.mp hs with hs | hs
      · exact h s hs
      · rw [List.mem_singleton.mp hs]
        exact hr hwait
    · exact h

omit [DecidableEq Flag] in
theorem Event.Unclaimed.expire [DecidableEq Thread] {e : Event Thread Flag} {f : Flag}
    (h : e.Unclaimed f) (t : Thread) : (rtEventExpire e t).Unclaimed f :=
  fun r hr => h r (List.mem_of_mem_filter hr)

omit [DecidableEq Flag] in
theorem resume_spec [DecidableEq Thread] {e e' : Event Thread Flag} {t : Thread} {err : RtErr}
    (h : rtEventResume e t = some (err, e')) :
    (t, err) ∈ e.resumed ∧ e' = { e with resumed := e.resumed.erase (t, err) } := by
  rw [rtEventResume, Option.map_eq_some_iff] at h
  obtain ⟨⟨u, err'⟩, hfind, heq⟩ := h
  have hmem := List.mem_of_find?_eq_some hfind
  have hthread := List.find?_some hfind
  obtain rfl : u = t := by simpa using hthread
  obtain ⟨rfl, rfl⟩ := Prod.mk.inj heq
  exact ⟨hmem, rfl⟩

/-! ## What the operations do to one thread -/

/-- The thread is neither suspended nor about to continue. -/
structure Event.Absent (e : Event Thread Flag) (t : Thread) : Prop where
  suspended : ∀ r ∈ e.suspended, r.thread ≠ t
  resumed : ∀ err, (t, err) ∉ e.resumed

/-- Whatever `e'` holds of the thread was in `e` already. -/
structure Event.NoNews (t : Thread) (e e' : Event Thread Flag) : Prop where
  suspended : ∀ r ∈ e'.suspended, r.thread = t → r ∈ e.suspended
  resumed : ∀ err, (t, err) ∈ e'.resumed → (t, err) ∈ e.resumed

section NoNews

omit [DecidableEq Flag]

theorem Event.NoNews.refl (t : Thread) (e : Event Thread Flag) : e.NoNews t e :=
  ⟨fun _ hr _ => hr, fun _ => id⟩

theorem Event.Absent.of_noNews {t : Thread} {e e' : Event Thread Flag} (h : e.Absent t)
    (hnews : e.NoNews t e') : e'.Absent t where
  suspended r hr ht := h.suspended r (hnews.suspended r hr ht) ht
  resumed err herr := h.resumed err (hnews.resumed err herr)

theorem noNews_expire [DecidableEq Thread] (e : Event Thread Flag) {t u : Thread} (h : u ≠ t) :
    e.NoNews t (rtEventExpire e u) where
  suspended r hr _ := List.mem_of_mem_filter hr
  resumed err herr := by
    rcases List.mem_append.mp herr with herr | herr
    · exact herr
    · exact absurd (congrArg Prod.fst (List.mem_singleton.mp herr)).symm h

theorem noNews_resume [DecidableEq Thread] {e e' : Event Thread Flag} {u : Thread} {err : RtErr}
    (h : rtEventResume e u = some (err, e')) (t : Thread) : e.NoNews t e' := by
  obtain ⟨-, rfl⟩ := resume_spec h
  exact ⟨fun _ hr _ => hr, fun _ herr => List.mem_of_mem_erase herr⟩

theorem Event.Absent.reset {t : Thread} {e : Event Thread Flag} (h : e.Absent t) :
    (rtEventReset e).Absent t where
  suspended r hr := by simp [rtEventReset] at hr
  resumed err herr := by
    rcases List.mem_append.mp herr with herr | herr
    · exact h.resumed err herr
    · obtain ⟨r, hr, heq⟩ := List.mem_map.mp herr
      exact h.suspended r hr (congrArg Prod.fst heq)

end NoNews

theorem noNews_recv (e : Event Thread Flag) {r : Receiver Thread Flag} {t : Thread}
    (h : r.thread ≠ t) (wait : Bool) : e.NoNews t (rtEventRecv e r wait).1 := by
  unfold rtEventRecv
  split
  · exact ⟨fun _ hs _ => hs, fun _ => id⟩
  · split
    · refine ⟨fun s hs ht => ?_, fun _ => id⟩
      rcases List.mem_append.mp hs with hs | hs
      · exact hs
      · rw [List.mem_singleton.mp hs] at ht
        exact absurd ht h
    · exact ⟨fun _ hs _ => hs, fun _ => id⟩

theorem Event.Absent.wake {t : Thread} (rs : List (Receiver Thread Flag)) {e : Event Thread Flag}
    (h : e.Absent t) (hrs : ∀ r ∈ rs, r.thread ≠ t) : (e.wake rs).Absent t := by
  induction rs generalizing e with
  | nil => exact h
  | cons r rs ih =>
      have hr : r.thread ≠ t := hrs r List.mem_cons_self
      have hrest : ∀ s ∈ rs, s.thread ≠ t := fun s hs => hrs s (List.mem_cons_of_mem r hs)
      simp only [Event.wake]
      split
      · refine ih ⟨h.suspended, fun err herr => ?_⟩ hrest
        rcases List.mem_append.mp herr with herr | herr
        · exact h.resumed err herr
        · exact hr (congrArg Prod.fst (List.mem_singleton.mp herr)).symm
      · refine ih ⟨fun s hs => ?_, h.resumed⟩ hrest
        rcases List.mem_append.mp hs with hs | hs
        · exact h.suspended s hs
        · rw [List.mem_singleton.mp hs]
          exact hr

/-- A send resumes only threads that are suspended. -/
theorem Event.Absent.send {t : Thread} {e : Event Thread Flag} (h : e.Absent t)
    (flags : Finset Flag) : (rtEventSend e flags).Absent t :=
  Event.Absent.wake e.suspended ⟨fun r hr => by simp at hr, h.resumed⟩ h.suspended

end

end TdPrinter
