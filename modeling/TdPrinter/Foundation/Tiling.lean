import Mathlib.Algebra.BigOperators.Group.Finset.Basic
import Mathlib.Algebra.Order.Ring.Nat
import Mathlib.Data.Finset.Max

/-!
# Tilings of an interval

A tiling cuts the interval from 0 to `stop` into tiles of at least `gap` points.  A tile is known
by the cut where it starts; `next` leads from a cut to the following one, and `prev` back from
every cut but the first and the last.

A tile is split by a new cut inside it, and two tiles are joined by taking away the cut between
them.  `Tiling.insert` and `Tiling.erase` say which links have to change for that and that the
others may stay.  `Tiling.sum_tiles` says that the tiles fill the interval.
-/

namespace TdPrinter

/-- The cuts of a tiling, linked in both directions. -/
structure Tiling (gap stop : ℕ) (cuts : Finset ℕ) (next prev : ℕ → ℕ) : Prop where
  gap_pos : 0 < gap
  zero_mem : 0 ∈ cuts
  stop_mem : stop ∈ cuts
  stop_pos : 0 < stop
  le_stop : ∀ c ∈ cuts, c ≤ stop
  next_mem : ∀ c ∈ cuts, c ≠ stop → next c ∈ cuts
  gap_le : ∀ c ∈ cuts, c ≠ stop → c + gap ≤ next c
  next_le : ∀ c ∈ cuts, ∀ d ∈ cuts, c < d → next c ≤ d
  prev_next : ∀ c ∈ cuts, c ≠ stop → next c ≠ stop → prev (next c) = c
  prev_zero : prev 0 = 0

namespace Tiling

variable {gap stop : ℕ} {cuts : Finset ℕ} {next prev next' prev' : ℕ → ℕ} {c d m : ℕ}

theorem lt_stop (h : Tiling gap stop cuts next prev) (hc : c ∈ cuts) (hne : c ≠ stop) :
    c < stop :=
  lt_of_le_of_ne (h.le_stop c hc) hne

theorem lt_next (h : Tiling gap stop cuts next prev) (hc : c ∈ cuts) (hne : c ≠ stop) :
    c < next c := by
  have hgap := h.gap_le c hc hne
  have hpos := h.gap_pos
  omega

theorem next_le_stop (h : Tiling gap stop cuts next prev) (hc : c ∈ cuts) (hne : c ≠ stop) :
    next c ≤ stop :=
  h.le_stop _ (h.next_mem c hc hne)

theorem apart (h : Tiling gap stop cuts next prev) (hc : c ∈ cuts) (hd : d ∈ cuts) (hlt : c < d) :
    c + gap ≤ d := by
  have hne : c ≠ stop := by
    rintro rfl
    exact absurd hlt (not_lt.mpr (h.le_stop d hd))
  exact (h.gap_le c hc hne).trans (h.next_le c hc d hd hlt)

theorem disjoint (h : Tiling gap stop cuts next prev) (hc : c ∈ cuts) (hd : d ∈ cuts)
    (hne : c ≠ d) : next c ≤ d ∨ next d ≤ c := by
  rcases Nat.lt_or_gt_of_ne hne with hlt | hgt
  · exact Or.inl (h.next_le c hc d hd hlt)
  · exact Or.inr (h.next_le d hd c hc hgt)

theorem next_inj (h : Tiling gap stop cuts next prev) (hc : c ∈ cuts) (hd : d ∈ cuts)
    (hcne : c ≠ stop) (hdne : d ≠ stop) (heq : next c = next d) : c = d := by
  by_contra hne
  have hc' := h.lt_next hc hcne
  have hd' := h.lt_next hd hdne
  rcases h.disjoint hc hd hne with hle | hle <;> omega

theorem exists_next_eq (h : Tiling gap stop cuts next prev) (hc : c ∈ cuts) (hpos : c ≠ 0) :
    ∃ b ∈ cuts, b ≠ stop ∧ next b = c := by
  have hbelow : (cuts.filter (· < c)).Nonempty :=
    ⟨0, Finset.mem_filter.mpr ⟨h.zero_mem, Nat.pos_of_ne_zero hpos⟩⟩
  obtain ⟨b, hbmem, hmax⟩ := Finset.exists_max_image _ id hbelow
  obtain ⟨hb, hlt⟩ := Finset.mem_filter.mp hbmem
  have hne : b ≠ stop := (hlt.trans_le (h.le_stop c hc)).ne
  refine ⟨b, hb, hne, ?_⟩
  by_contra hmiss
  have hle : next b ≤ c := h.next_le b hb c hc hlt
  have hbefore : next b < c := lt_of_le_of_ne hle hmiss
  have hmem : next b ∈ cuts.filter (· < c) :=
    Finset.mem_filter.mpr ⟨h.next_mem b hb hne, hbefore⟩
  exact absurd (hmax _ hmem) (not_le.mpr (h.lt_next hb hne))

theorem prev_spec (h : Tiling gap stop cuts next prev) (hc : c ∈ cuts) (hpos : c ≠ 0)
    (hne : c ≠ stop) : prev c ∈ cuts ∧ prev c ≠ stop ∧ next (prev c) = c := by
  obtain ⟨b, hb, hbne, rfl⟩ := h.exists_next_eq hc hpos
  rw [h.prev_next b hb hbne hne]
  exact ⟨hb, hbne, rfl⟩

theorem congr (h : Tiling gap stop cuts next prev) (hnext : ∀ c ∈ cuts, c ≠ stop → next' c = next c)
    (hprev : ∀ c ∈ cuts, c ≠ stop → prev' c = prev c) : Tiling gap stop cuts next' prev' where
  gap_pos := h.gap_pos
  zero_mem := h.zero_mem
  stop_mem := h.stop_mem
  stop_pos := h.stop_pos
  le_stop := h.le_stop
  next_mem c hc hne := hnext c hc hne ▸ h.next_mem c hc hne
  gap_le c hc hne := hnext c hc hne ▸ h.gap_le c hc hne
  next_le c hc d hd hlt := by
    have hne : c ≠ stop := (hlt.trans_le (h.le_stop d hd)).ne
    rw [hnext c hc hne]
    exact h.next_le c hc d hd hlt
  prev_next c hc hne hlast := by
    rw [hnext c hc hne] at hlast ⊢
    rw [hprev _ (h.next_mem c hc hne) hlast]
    exact h.prev_next c hc hne hlast
  prev_zero := by
    rw [hprev 0 h.zero_mem h.stop_pos.ne]
    exact h.prev_zero

theorem single (hgap : 0 < gap) (hle : gap ≤ stop) (hnext : next 0 = stop) (hprev : prev 0 = 0) :
    Tiling gap stop {0, stop} next prev where
  gap_pos := hgap
  zero_mem := Finset.mem_insert_self ..
  stop_mem := Finset.mem_insert_of_mem (Finset.mem_singleton_self _)
  stop_pos := hgap.trans_le hle
  le_stop := by simp
  next_mem := by
    intro c hc hne
    obtain rfl : c = 0 := by simpa [hne] using hc
    simp [hnext]
  gap_le := by
    intro c hc hne
    obtain rfl : c = 0 := by simpa [hne] using hc
    omega
  next_le := by
    intro c hc d hd hlt
    have hd' : d = 0 ∨ d = stop := by simpa using hd
    have hc' : c = 0 ∨ c = stop := by simpa using hc
    rcases hc' with rfl | rfl <;> omega
  prev_next := by
    intro c hc hne hlast
    obtain rfl : c = 0 := by simpa [hne] using hc
    exact absurd hnext hlast
  prev_zero := hprev

/-- A tile is split: the new cut `m` stands between `c` and the cut that followed it. -/
theorem insert (h : Tiling gap stop cuts next prev) (hc : c ∈ cuts) (hne : c ≠ stop)
    (hleft : c + gap ≤ m) (hright : m + gap ≤ next c) (hnext_c : next' c = m)
    (hnext_m : next' m = next c) (hprev_m : prev' m = c)
    (hprev_n : next c ≠ stop → prev' (next c) = m)
    (hnext : ∀ d ∈ cuts, d ≠ stop → d ≠ c → next' d = next d)
    (hprev : ∀ d ∈ cuts, d ≠ stop → d ≠ next c → prev' d = prev d) :
    Tiling gap stop (insert m cuts) next' prev' := by
  have hgap := h.gap_pos
  have hlast := h.next_le_stop hc hne
  have hmstop : m ≠ stop := by omega
  have hfresh : m ∉ cuts := by
    intro hm
    have hle := h.next_le c hc m hm (by omega)
    omega
  constructor
  · exact hgap
  · exact Finset.mem_insert_of_mem h.zero_mem
  · exact Finset.mem_insert_of_mem h.stop_mem
  · exact h.stop_pos
  · intro d hd
    rcases Finset.mem_insert.mp hd with rfl | hd
    · omega
    · exact h.le_stop d hd
  · intro d hdm hdne
    rcases Finset.mem_insert.mp hdm with rfl | hd
    · rw [hnext_m]
      exact Finset.mem_insert_of_mem (h.next_mem c hc hne)
    · rcases eq_or_ne d c with rfl | hdc
      · rw [hnext_c]
        exact Finset.mem_insert_self ..
      · rw [hnext d hd hdne hdc]
        exact Finset.mem_insert_of_mem (h.next_mem d hd hdne)
  · intro d hdm hdne
    rcases Finset.mem_insert.mp hdm with rfl | hd
    · rw [hnext_m]
      exact hright
    · rcases eq_or_ne d c with rfl | hdc
      · rw [hnext_c]
        exact hleft
      · rw [hnext d hd hdne hdc]
        exact h.gap_le d hd hdne
  · intro d hdm e hem hlt
    rcases Finset.mem_insert.mp hdm with rfl | hd <;> rcases Finset.mem_insert.mp hem with rfl | he
    · exact absurd hlt (lt_irrefl _)
    · -- from the new cut on: the next old cut is the one that followed `c`
      rw [hnext_m]
      exact h.next_le c hc e he (by omega)
    · have hdne : d ≠ stop := by omega
      rcases eq_or_ne d c with rfl | hdc
      · rw [hnext_c]
      · -- an old cut below the new one is at most `c`
        rw [hnext d hd hdne hdc]
        have hle : d ≤ c := by
          by_contra hlt'
          have := h.next_le c hc d hd (by omega)
          omega
        have := h.next_le d hd c hc (by omega)
        omega
    · have hdne : d ≠ stop := (hlt.trans_le (h.le_stop e he)).ne
      have hnl := h.next_le d hd e he hlt
      rcases eq_or_ne d c with rfl | hdc
      · rw [hnext_c]
        omega
      · rw [hnext d hd hdne hdc]
        exact hnl
  · intro d hdm hdne hdlast
    rcases Finset.mem_insert.mp hdm with rfl | hd
    · rw [hnext_m] at hdlast ⊢
      exact hprev_n hdlast
    · rcases eq_or_ne d c with rfl | hdc
      · rw [hnext_c]
        exact hprev_m
      · rw [hnext d hd hdne hdc] at hdlast ⊢
        have hother : next d ≠ next c := fun heq => hdc (h.next_inj hd hc hdne hne heq)
        rw [hprev _ (h.next_mem d hd hdne) hdlast hother]
        exact h.prev_next d hd hdne hdlast
  · have hzero : 0 ≠ next c := by omega
    rw [hprev 0 h.zero_mem h.stop_pos.ne hzero]
    exact h.prev_zero

theorem erase (h : Tiling gap stop cuts next prev) (hc : c ∈ cuts) (hne : c ≠ stop)
    (hlast : next c ≠ stop) (hnext_c : next' c = next (next c))
    (hprev_n : next (next c) ≠ stop → prev' (next (next c)) = c)
    (hnext : ∀ d ∈ cuts, d ≠ stop → d ≠ c → d ≠ next c → next' d = next d)
    (hprev : ∀ d ∈ cuts, d ≠ stop → d ≠ next c → d ≠ next (next c) → prev' d = prev d) :
    Tiling gap stop (cuts.erase (next c)) next' prev' := by
  have hn := h.next_mem c hc hne
  have hcn := h.lt_next hc hne
  have hnn := h.lt_next hn hlast
  have hgap := h.gap_le c hc hne
  have hkeep : ∀ d ∈ cuts, d ≠ stop → d ≠ c → d ≠ next c → next d ≠ next c :=
    fun d hd hdne hdc _ heq => hdc (h.next_inj hd hc hdne hne heq)
  constructor
  · exact h.gap_pos
  · exact Finset.mem_erase.mpr ⟨by omega, h.zero_mem⟩
  · exact Finset.mem_erase.mpr ⟨hlast.symm, h.stop_mem⟩
  · exact h.stop_pos
  · exact fun d hd => h.le_stop d (Finset.mem_of_mem_erase hd)
  · intro d hdm hdne
    obtain ⟨hdn, hd⟩ := Finset.mem_erase.mp hdm
    rcases eq_or_ne d c with rfl | hdc
    · rw [hnext_c]
      exact Finset.mem_erase.mpr ⟨hnn.ne', h.next_mem _ hn hlast⟩
    · rw [hnext d hd hdne hdc hdn]
      exact Finset.mem_erase.mpr ⟨hkeep d hd hdne hdc hdn, h.next_mem d hd hdne⟩
  · intro d hdm hdne
    obtain ⟨hdn, hd⟩ := Finset.mem_erase.mp hdm
    rcases eq_or_ne d c with rfl | hdc
    · rw [hnext_c]
      omega
    · rw [hnext d hd hdne hdc hdn]
      exact h.gap_le d hd hdne
  · intro d hdm e hem hlt
    obtain ⟨hdn, hd⟩ := Finset.mem_erase.mp hdm
    obtain ⟨hen, he⟩ := Finset.mem_erase.mp hem
    have hdne : d ≠ stop := (hlt.trans_le (h.le_stop e he)).ne
    rcases eq_or_ne d c with rfl | hdc
    · rw [hnext_c]
      have hle := h.next_le d hd e he hlt
      exact h.next_le _ hn e he (lt_of_le_of_ne hle hen.symm)
    · rw [hnext d hd hdne hdc hdn]
      exact h.next_le d hd e he hlt
  · intro d hdm hdne hdlast
    obtain ⟨hdn, hd⟩ := Finset.mem_erase.mp hdm
    rcases eq_or_ne d c with rfl | hdc
    · rw [hnext_c] at hdlast ⊢
      exact hprev_n hdlast
    · rw [hnext d hd hdne hdc hdn] at hdlast ⊢
      have hother : next d ≠ next (next c) := fun heq => hdn (h.next_inj hd hn hdne hlast heq)
      rw [hprev _ (h.next_mem d hd hdne) hdlast (hkeep d hd hdne hdc hdn) hother]
      exact h.prev_next d hd hdne hdlast
  · rw [hprev 0 h.zero_mem h.stop_pos.ne (by omega) (by omega)]
    exact h.prev_zero

/-- The tiles up to a cut fill the interval up to it. -/
theorem sum_below (h : Tiling gap stop cuts next prev) :
    ∀ c ∈ cuts, ∑ d ∈ cuts.filter (· < c), (next d - d) = c := by
  intro c
  induction c using Nat.strong_induction_on with
  | _ c ih =>
      intro hc
      rcases eq_or_ne c 0 with rfl | hpos
      · simp
      · obtain ⟨b, hb, hbne, rfl⟩ := h.exists_next_eq hc hpos
        have hlt := h.lt_next hb hbne
        have hsplit : cuts.filter (· < next b) = Insert.insert b (cuts.filter (· < b)) := by
          ext d
          simp only [Finset.mem_filter, Finset.mem_insert]
          constructor
          · rintro ⟨hd, hdlt⟩
            rcases Nat.lt_trichotomy d b with hdb | rfl | hdb
            · exact Or.inr ⟨hd, hdb⟩
            · exact Or.inl rfl
            · have := h.next_le b hb d hd hdb
              omega
          · rintro (rfl | ⟨hd, hdb⟩)
            · exact ⟨hb, hlt⟩
            · exact ⟨hd, hdb.trans hlt⟩
        rw [hsplit, Finset.sum_insert (by simp), ih b hlt hb]
        omega

theorem sum_tiles (h : Tiling gap stop cuts next prev) :
    ∑ d ∈ cuts.erase stop, (next d - d) = stop := by
  have hall : cuts.erase stop = cuts.filter (· < stop) := by
    ext d
    rw [Finset.mem_erase, Finset.mem_filter, and_comm]
    exact and_congr_right fun hd => (lt_iff_le_and_ne.trans (and_iff_right (h.le_stop d hd))).symm
  rw [hall]
  exact h.sum_below stop h.stop_mem

end Tiling

end TdPrinter
