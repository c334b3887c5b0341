import Mathlib.Data.List.Chain
import Mathlib.Data.List.Forall2
import Mathlib.Order.Lattice
import Mathlib.Order.MinMax

/-!
# Look-ahead over a chain of segments

A path is cut into segments that are passed through in order.  Each has a speed at its
entry, a highest speed allowed there, and a function `reach`: the highest speed at one
end when the speed at the other end is given.  Nothing else about the motion matters
here; speeds are the elements of a linear order.

A chain is feasible when each segment can be left at the entry speed of the next one,
whether that means braking (`Brakes`) or accelerating (`Climbs`), and the last one can
brake to `floor`.  `lookahead` makes a chain feasible again after a segment has been
added: a pass backwards raises entry speeds as far as braking allows, a pass forwards
lowers those that cannot be reached, and the first segment is left alone.

The point is that it never undoes what was feasible before: `lookahead_raises` bounds
its result from below by any feasible chain below its input.
-/

namespace TdPrinter

/-! ## Lists that agree entry by entry -/

theorem forall₂_trans {α β γ : Type*} {R : α → β → Prop} {S : β → γ → Prop} {T : α → γ → Prop}
    (htrans : ∀ a b c, R a b → S b c → T a c) {l : List α} {m : List β} {n : List γ}
    (h : List.Forall₂ R l m) (h' : List.Forall₂ S m n) : List.Forall₂ T l n := by
  induction h generalizing n with
  | nil =>
      rw [List.forall₂_nil_left_iff.mp h']
      exact .nil
  | cons hab _ ih =>
      obtain ⟨c, n, hbc, hrest, rfl⟩ := List.forall₂_cons_left_iff.mp h'
      exact .cons (htrans _ _ _ hab hbc) (ih hrest)

/-- A chain carries over to a list that agrees with it entry by entry. -/
theorem isChain_of_forall₂ {α β : Type*} {R : α → β → Prop} {S : α → α → Prop}
    {T : β → β → Prop} {l : List α} {m : List β} (h : List.Forall₂ R l m) (hl : l.IsChain S)
    (hstep : ∀ a a' b b', R a b → R a' b' → S a a' → T b b') : m.IsChain T := by
  induction h with
  | nil => exact .nil
  | cons hab hrest ih =>
      rename_i a b l m
      cases hrest with
      | nil => exact .singleton b
      | cons hab' hrest =>
          rw [List.isChain_cons_cons] at hl
          exact .cons_cons (hstep _ _ _ _ hab hab' hl.1) (ih hl.2)

theorem forall_of_forall₂ {α β : Type*} {R : α → β → Prop} {P : α → Prop} {Q : β → Prop}
    {l : List α} {m : List β} (h : List.Forall₂ R l m) (hl : ∀ a ∈ l, P a)
    (hstep : ∀ a b, R a b → P a → Q b) : ∀ b ∈ m, Q b := by
  induction h with
  | nil => simp
  | cons hab _ ih =>
      intro b hb
      rcases List.mem_cons.mp hb with rfl | hb
      · exact hstep _ _ hab (hl _ List.mem_cons_self)
      · exact ih (fun a ha => hl a (List.mem_cons_of_mem _ ha)) b hb

theorem isChain_and {α : Type*} {S T : α → α → Prop} {l : List α} (h : l.IsChain S)
    (h' : l.IsChain T) : l.IsChain fun a b => S a b ∧ T a b := by
  induction l with
  | nil => exact .nil
  | cons a l ih =>
      cases l with
      | nil => exact .singleton a
      | cons b l =>
          rw [List.isChain_cons_cons] at h h'
          exact .cons_cons ⟨h.1, h'.1⟩ (ih h.2 h'.2)

theorem mem_getLast?_of_tail {α : Type*} {l : List α} {a : α} (h : a ∈ l.tail.getLast?) :
    a ∈ l.getLast? := by
  cases l with
  | nil => simp at h
  | cons b l =>
      cases l with
      | nil => simp at h
      | cons c l =>
          rw [List.getLast?_cons_cons]
          exact h

theorem getLast?_of_forall₂ {α β : Type*} {R : α → β → Prop} {l : List α} {m : List β}
    (h : List.Forall₂ R l m) {b : β} (hb : b ∈ m.getLast?) : ∃ a ∈ l.getLast?, R a b := by
  induction h with
  | nil => simp at hb
  | cons hab hrest ih =>
      cases hrest with
      | nil =>
          obtain rfl := Option.some.inj hb
          exact ⟨_, rfl, hab⟩
      | cons hab' hrest =>
          rw [List.getLast?_cons_cons] at hb ⊢
          exact ih hb

/-! ## Segments -/

structure Segment (α : Type*) where
  entry : α
  cap : α
  reach : α → α

namespace Segment

variable {α : Type*} [LinearOrder α]

/-- The entry speed is between `floor` and the cap, and over the length of the segment
at least the speed it has is reached. -/
structure Sound (floor : α) (s : Segment α) : Prop where
  floor_le : floor ≤ s.entry
  entry_le : s.entry ≤ s.cap
  le_reach : ∀ v, floor ≤ v → v ≤ s.reach v
  reach_mono : ∀ v w, floor ≤ v → v ≤ w → s.reach v ≤ s.reach w

/-- `s` can brake to the entry speed of `t`. -/
def Brakes (s t : Segment α) : Prop := s.entry ≤ s.reach t.entry

/-- `s` can accelerate to the entry speed of `t`. -/
def Climbs (s t : Segment α) : Prop := t.entry ≤ s.reach s.entry

/-- `t` is `s` with an entry speed that is not lower. -/
structure Raises (s t : Segment α) : Prop where
  entry_le : s.entry ≤ t.entry
  cap_eq : t.cap = s.cap
  reach_eq : t.reach = s.reach

/-- The highest entry speed of `s` from which it can brake to that of `t`. -/
def brakeFor (s t : Segment α) : Segment α := { s with entry := min s.cap (s.reach t.entry) }

/-- The highest entry speed of `t`, not above its present one, that `s` can reach. -/
def climbFrom (s t : Segment α) : Segment α := { t with entry := min t.entry (s.reach s.entry) }

variable {floor : α} {s t u o p : Segment α}

theorem Raises.refl (s : Segment α) : Raises s s := ⟨le_rfl, rfl, rfl⟩

theorem Raises.trans (h : Raises s t) (h' : Raises t u) : Raises s u :=
  ⟨h.entry_le.trans h'.entry_le, h'.cap_eq.trans h.cap_eq, h'.reach_eq.trans h.reach_eq⟩

/-- Raising the entry speed up to the cap keeps a segment sound. -/
theorem Sound.raised (h : s.Sound floor) (hraise : Raises s t) (hcap : t.entry ≤ s.cap) :
    t.Sound floor where
  floor_le := h.floor_le.trans hraise.entry_le
  entry_le := hraise.cap_eq ▸ hcap
  le_reach := hraise.reach_eq ▸ h.le_reach
  reach_mono := hraise.reach_eq ▸ h.reach_mono

/-- A segment that can brake for the next one can brake for it when it comes in
faster. -/
theorem Brakes.of_raises (hs : s.Sound floor) (ht : floor ≤ t.entry) (h : Brakes s t)
    (hraise : Raises t u) : Brakes s u :=
  h.trans (hs.reach_mono _ _ ht hraise.entry_le)

/-! ### One step of the pass backwards -/

theorem brakeFor_brakes (s t : Segment α) : Brakes (s.brakeFor t) t := min_le_right _ _

theorem brakeFor_raises (hs : s.Sound floor) (h : Brakes s t) : Raises s (s.brakeFor t) :=
  ⟨le_min hs.entry_le h, rfl, rfl⟩

/-- Where the cap can be braked from, it is the entry speed. -/
theorem brakeFor_of_le (h : s.cap ≤ s.reach t.entry) :
    s.brakeFor t = { s with entry := s.cap } := by
  rw [brakeFor, min_eq_left h]

theorem brakeFor_sound (hs : s.Sound floor) (h : Brakes s t) : (s.brakeFor t).Sound floor :=
  hs.raised (brakeFor_raises hs h) (min_le_left _ _)

/-! ### One step of the pass forwards -/

theorem climbFrom_climbs (s t : Segment α) : Climbs s (s.climbFrom t) := min_le_right _ _

theorem climbFrom_of_climbs (h : Climbs s t) : s.climbFrom t = t := by
  rw [climbFrom, min_eq_left h]

/-- A speed that could be reached before can be reached when the segment in front of
it comes in faster. -/
theorem climbFrom_raises (ho : o.Sound floor) (hos : Raises o s) (hpt : Raises p t)
    (h : Climbs o p) : Raises p (s.climbFrom t) := by
  refine ⟨le_min hpt.entry_le ?_, hpt.cap_eq, hpt.reach_eq⟩
  calc p.entry ≤ o.reach o.entry := h
    _ ≤ o.reach s.entry := ho.reach_mono _ _ ho.floor_le hos.entry_le
    _ = s.reach s.entry := by rw [hos.reach_eq]

theorem climbFrom_sound (hs : s.Sound floor) (ht : t.Sound floor) :
    (s.climbFrom t).Sound floor where
  floor_le := le_min ht.floor_le (hs.floor_le.trans (hs.le_reach _ hs.floor_le))
  entry_le := (min_le_left _ _).trans ht.entry_le
  le_reach := ht.le_reach
  reach_mono := ht.reach_mono

/-- What is lowered to a speed above that of `s` needs no braking from `s`. -/
theorem climbFrom_brakes (hs : s.Sound floor) (h : Brakes s t) : Brakes s (s.climbFrom t) := by
  simp only [Brakes, climbFrom]
  rcases min_choice t.entry (s.reach s.entry) with hmin | hmin
  · rw [hmin]
    exact h
  · rw [hmin]
    exact (hs.le_reach _ hs.floor_le).trans
      (hs.reach_mono _ _ hs.floor_le (hs.le_reach _ hs.floor_le))

theorem Brakes.climbFrom (s : Segment α) (h : Brakes t u) : Brakes (s.climbFrom t) u :=
  (min_le_left _ _).trans h

end Segment

open Segment

variable {α : Type*} [LinearOrder α]

/-! ## The passes -/

/-- A segment in front of segments that have been passed backwards. -/
def backOnto (s : Segment α) : List (Segment α) → List (Segment α)
  | [] => [s]
  | t :: rest => s.brakeFor t :: t :: rest

/-- The pass backwards; the last segment keeps its entry speed. -/
def backPass (l : List (Segment α)) : List (Segment α) := l.foldr backOnto []

/-- The pass forwards from a segment on. -/
def forthFrom : Segment α → List (Segment α) → List (Segment α)
  | s, [] => [s]
  | s, t :: rest => s :: forthFrom (s.climbFrom t) rest

/-- Both passes; the first segment keeps its entry speed. -/
def lookahead : List (Segment α) → List (Segment α)
  | [] => []
  | s :: rest => forthFrom s (backPass rest)

/-- A chain of segments that can be passed through and ends with a stop from
`floor`. -/
structure Feasible (floor : α) (l : List (Segment α)) : Prop where
  sound : ∀ s ∈ l, s.Sound floor
  brakes : l.IsChain Brakes
  climbs : l.IsChain Climbs
  ends : ∀ s ∈ l.getLast?, s.entry ≤ s.reach floor

variable {floor : α}

/-- Without its first segment a chain stays feasible. -/
theorem Feasible.tail {l : List (Segment α)} (h : Feasible floor l) : Feasible floor l.tail where
  sound s hs := h.sound s (List.mem_of_mem_tail hs)
  brakes := h.brakes.tail
  climbs := h.climbs.tail
  ends s hs := h.ends s (mem_getLast?_of_tail hs)

/-- A segment in front of a feasible chain that it fits to. -/
theorem Feasible.cons {s t : Segment α} {l : List (Segment α)} (h : Feasible floor l)
    (hhead : l.head? = some t) (hs : s.Sound floor) (hbrakes : Brakes s t)
    (hclimbs : Climbs s t) : Feasible floor (s :: l) := by
  obtain ⟨l, rfl⟩ := List.head?_eq_some_iff.mp hhead
  refine ⟨fun u hu => ?_, .cons_cons hbrakes h.brakes, .cons_cons hclimbs h.climbs, fun u hu => ?_⟩
  · rcases List.mem_cons.mp hu with rfl | hu
    · exact hs
    · exact h.sound u hu
  · rw [List.getLast?_cons_cons] at hu
    exact h.ends u hu

/-- The pass backwards raises entry speeds, the last one excepted, and leaves every
segment able to brake for the next one. -/
theorem backPass_spec {l : List (Segment α)} (hsound : ∀ s ∈ l, s.Sound floor)
    (hbrakes : l.IsChain Brakes) :
    List.Forall₂ Raises l (backPass l) ∧ (∀ s ∈ backPass l, s.Sound floor) ∧
      (backPass l).IsChain Brakes ∧ (backPass l).getLast? = l.getLast? := by
  induction l with
  | nil => exact ⟨.nil, by simp [backPass], .nil, rfl⟩
  | cons s l ih =>
      obtain ⟨hraises, hsound', hbrakes', hlast⟩ :=
        ih (fun t ht => hsound t (List.mem_cons_of_mem s ht)) hbrakes.tail
      have hs := hsound s List.mem_cons_self
      rw [backPass, List.foldr_cons, ← backPass]
      cases l with
      | nil =>
          refine ⟨.cons (.refl s) .nil, fun t ht => ?_, .singleton s, rfl⟩
          rw [List.mem_singleton.mp ht]
          exact hs
      | cons t l =>
          rw [List.isChain_cons_cons] at hbrakes
          generalize backPass (t :: l) = m at hraises hsound' hbrakes' hlast
          obtain ⟨t', m, hraise, hrest, rfl⟩ := List.forall₂_cons_left_iff.mp hraises
          have ht := hsound t (List.mem_cons_of_mem s List.mem_cons_self)
          have hst := hbrakes.1.of_raises hs ht.floor_le hraise
          refine ⟨.cons (brakeFor_raises hs hst) (.cons hraise hrest), fun u hu => ?_,
            .cons_cons (brakeFor_brakes s t') hbrakes', ?_⟩
          · rcases List.mem_cons.mp hu with rfl | hu
            · exact brakeFor_sound hs hst
            · exact hsound' u hu
          · rw [backOnto, List.getLast?_cons_cons, hlast, List.getLast?_cons_cons]

/-- The pass forwards leaves every segment able to accelerate to the next one and to
brake for it, and stays above every chain of reachable speeds below its input. -/
theorem forthFrom_spec {s o : Segment α} {l m : List (Segment α)}
    (hs : s.Sound floor) (hl : ∀ t ∈ l, t.Sound floor) (hbrakes : (s :: l).IsChain Brakes)
    (hends : ∀ t ∈ (s :: l).getLast?, t.entry ≤ t.reach floor)
    (ho : o.Sound floor) (hm : ∀ t ∈ m, t.Sound floor) (hclimbs : (o :: m).IsChain Climbs)
    (hos : Raises o s) (hml : List.Forall₂ Raises m l) :
    Feasible floor (forthFrom s l) ∧ (forthFrom s l).head? = some s ∧
      List.Forall₂ Raises (o :: m) (forthFrom s l) := by
  induction l generalizing s o m with
  | nil =>
      cases hml
      refine ⟨⟨fun t ht => ?_, .singleton s, .singleton s, hends⟩, rfl, .cons hos .nil⟩
      rw [List.mem_singleton.mp ht]
      exact hs
  | cons t l ih =>
      obtain ⟨p, m, hpt, hrest, rfl⟩ := List.forall₂_cons_right_iff.mp hml
      rw [List.isChain_cons_cons] at hbrakes hclimbs
      have ht := hl t List.mem_cons_self
      have hends' : ∀ u ∈ (s.climbFrom t :: l).getLast?, u.entry ≤ u.reach floor := by
        rw [List.getLast?_cons_cons] at hends
        cases l with
        | nil =>
            intro u hu
            obtain rfl := Option.some.inj hu
            exact (min_le_left _ _).trans (hends t rfl)
        | cons u l =>
            rw [List.getLast?_cons_cons] at hends ⊢
            exact hends
      obtain ⟨hfeasible, hhead, habove⟩ := ih (climbFrom_sound hs ht)
        (fun u hu => hl u (List.mem_cons_of_mem t hu))
        (hbrakes.2.imp_head fun h => h.climbFrom s) hends' (hm p List.mem_cons_self)
        (fun u hu => hm u (List.mem_cons_of_mem p hu)) hclimbs.2
        (climbFrom_raises ho hos hpt hclimbs.1) hrest
      exact ⟨hfeasible.cons hhead hs (climbFrom_brakes hs hbrakes.1) (climbFrom_climbs s t), rfl,
        .cons hos habove⟩

/-- The look-ahead makes a chain feasible whose segments can brake for each other, and
stays above every chain of reachable speeds below it. -/
theorem lookahead_spec {l o : List (Segment α)} (hl : ∀ s ∈ l, s.Sound floor)
    (hbrakes : l.IsChain Brakes) (hends : ∀ s ∈ l.getLast?, s.entry ≤ s.reach floor)
    (ho : ∀ s ∈ o, s.Sound floor) (hclimbs : o.IsChain Climbs) (hol : List.Forall₂ Raises o l) :
    Feasible floor (lookahead l) ∧ List.Forall₂ Raises o (lookahead l) := by
  cases l with
  | nil =>
      cases hol
      exact ⟨⟨by simp [lookahead], .nil, .nil, by simp [lookahead]⟩, .nil⟩
  | cons s l =>
      obtain ⟨p, o, hps, hrest, rfl⟩ := List.forall₂_cons_right_iff.mp hol
      have hs := hl s List.mem_cons_self
      have hsounds : ∀ t ∈ l, t.Sound floor := fun t ht => hl t (List.mem_cons_of_mem s ht)
      obtain ⟨hraises, hsound, hback, hlast⟩ := backPass_spec hsounds hbrakes.tail
      have hback' : (s :: backPass l).IsChain Brakes := by
        refine hback.cons ?_
        intro t' ht'
        obtain ⟨m, hm⟩ := List.head?_eq_some_iff.mp ht'
        rw [hm] at hraises
        obtain ⟨t, l, hraise, -, rfl⟩ := List.forall₂_cons_right_iff.mp hraises
        rw [List.isChain_cons_cons] at hbrakes
        exact hbrakes.1.of_raises hs (hsounds t List.mem_cons_self).floor_le hraise
      have hends' : ∀ t ∈ (s :: backPass l).getLast?, t.entry ≤ t.reach floor := by
        rw [List.getLast?_cons, hlast, ← List.getLast?_cons]
        exact hends
      have hraised := forall₂_trans (fun _ _ _ h h' => h.trans h') hrest hraises
      obtain ⟨hfeasible, -, hall⟩ :=
        forthFrom_spec hs hsound hback' hends' (ho p List.mem_cons_self)
          (fun t ht => ho t (List.mem_cons_of_mem p ht)) hclimbs hps hraised
      exact ⟨hfeasible, hall⟩

def Segment.lowered (s : Segment α) (floor : α) : Segment α := { s with entry := floor }

theorem forall₂_lowered (l : List (Segment α)) {s : Segment α} (hs : floor ≤ s.entry) :
    List.Forall₂ Raises (l ++ [s.lowered floor]) (l ++ [s]) :=
  List.rel_append (List.forall₂_same.mpr fun t _ => .refl t) (.cons ⟨hs, rfl, rfl⟩ .nil)

/-- Every segment can brake for one that is added behind a feasible chain. -/
theorem Feasible.concat_brakes {l : List (Segment α)} {s : Segment α} (h : Feasible floor l)
    (hs : s.Sound floor) : (l ++ [s]).IsChain Brakes := by
  refine h.brakes.append (.singleton s) ?_
  intro t ht u hu
  obtain rfl := Option.some.inj hu
  exact (h.ends t ht).trans
    ((h.sound t (List.mem_of_mem_getLast? ht)).reach_mono _ _ le_rfl hs.floor_le)

/-- A chain stays feasible when a segment at its lowest speed is added. -/
theorem Feasible.concat_lowered {l : List (Segment α)} {s : Segment α} (h : Feasible floor l)
    (hs : s.Sound floor) : Feasible floor (l ++ [s.lowered floor]) := by
  have hlowered : (s.lowered floor).Sound floor :=
    ⟨le_rfl, hs.floor_le.trans hs.entry_le, hs.le_reach, hs.reach_mono⟩
  refine ⟨fun t ht => ?_, h.concat_brakes hlowered,
    h.climbs.append (.singleton _) fun t ht u hu => ?_, fun t ht => ?_⟩
  · rcases List.mem_append.mp ht with ht | ht
    · exact h.sound t ht
    · rw [List.mem_singleton.mp ht]
      exact hlowered
  · obtain rfl := Option.some.inj hu
    have htsound := h.sound t (List.mem_of_mem_getLast? ht)
    exact htsound.floor_le.trans (htsound.le_reach _ htsound.floor_le)
  · rw [List.getLast?_concat] at ht
    obtain rfl := Option.some.inj ht
    exact hs.le_reach _ le_rfl

/-- After a segment has been added the look-ahead makes the chain feasible again, and
lowers no entry speed of the segments that were there before. -/
theorem Feasible.extend {l : List (Segment α)} {s : Segment α} (h : Feasible floor l)
    (hs : s.Sound floor) (hends : s.entry ≤ s.reach floor) :
    Feasible floor (lookahead (l ++ [s])) ∧
      List.Forall₂ Raises (l ++ [s.lowered floor]) (lookahead (l ++ [s])) := by
  have hlowered := h.concat_lowered hs
  refine lookahead_spec (fun t ht => ?_) (h.concat_brakes hs) (fun t ht => ?_) hlowered.sound
    hlowered.climbs (forall₂_lowered l hs.floor_le)
  · rcases List.mem_append.mp ht with ht | ht
    · exact h.sound t ht
    · rw [List.mem_singleton.mp ht]
      exact hs
  · rw [List.getLast?_concat] at ht
    obtain rfl := Option.some.inj ht
    exact hends

end TdPrinter
