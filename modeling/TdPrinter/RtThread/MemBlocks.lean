import TdPrinter.Foundation.Tiling
import TdPrinter.RtThread.Mem

/-!
# The blocks of the system heap

The headers of `mem.c` are the cuts of a tiling of the heap.  `SmallMem.Blocks h cuts` says so and
what else holds between any two of the functions: blocks in use have the magic number, `lfree` is
a free block or `heap_end`.

Every change of the headers is a join of two free blocks, a split of a block, or a change of one
`used` flag.  Each keeps `Blocks`, and each leaves alone the words of the blocks in use
(`SmallMem.Keeps`).  `plugHoles_spec` puts two joins together: afterwards no two free blocks are
neighbours, if the block that has been freed was the only one that could be.
-/

namespace TdPrinter

namespace SmallMem

@[simp] theorem sizeofStructMem_eq : sizeofStructMem = 16 := rfl

@[simp] theorem minSizeAligned_eq : minSizeAligned = 16 := rfl

@[simp] theorem rtAlignSize_eq : rtAlignSize = 8 := rfl

variable {h h' h'' : SmallMem} {cuts cuts' : Finset ℕ} {c d m n x : ℕ}

/-- Two headers are one or do not overlap. -/
abbrev Clear (d e : ℕ) : Prop := d = e ∨ d + 16 ≤ e ∨ e + 16 ≤ d

/-! ## Stores -/

theorem ram_store (h : SmallMem) (off w x : ℕ) :
    (h.store off w).ram x = if x = off then w else h.ram x :=
  Function.update_apply ..

theorem used_setUsed (h : SmallMem) (m v c : ℕ) :
    (h.setUsed m v).used c = if c = m then v else h.used c := by
  have hlt : h.ram m % 2 ^ 16 < 2 ^ 16 := Nat.mod_lt _ (by decide)
  simp only [setUsed, used, magic, ram_store]
  split
  · omega
  · rfl

/-! ## The memory after a join -/

theorem ram_join (h : SmallMem) (hne : n ≠ c) (x : ℕ) :
    (h.join c n).ram x =
      if x = h.next n + 8 then c else if x = c + 4 then h.next n else h.ram x := by
  have hkeep : (h.setNext c (h.next n)).next n = h.next n := by
    rw [setNext, next, ram_store, if_neg (by omega), next]
  have hwrites : (h.join c n).ram =
      ((h.setNext c (h.next n)).setPrev ((h.setNext c (h.next n)).next n) c).ram := by
    unfold join
    split <;> rfl
  rw [hwrites, hkeep, setPrev, ram_store, setNext, ram_store]

theorem lfree_join (h : SmallMem) (c n : ℕ) :
    (h.join c n).lfree = if h.lfree = n then c else h.lfree := by
  unfold join
  split <;> rfl

theorem memSizeAligned_join (h : SmallMem) (c n : ℕ) :
    (h.join c n).memSizeAligned = h.memSizeAligned := by
  unfold join
  split <;> rfl

theorem usedMem_join (h : SmallMem) (c n : ℕ) : (h.join c n).usedMem = h.usedMem := by
  unfold join
  split <;> rfl

theorem heapEnd_join (h : SmallMem) (c n : ℕ) : (h.join c n).heapEnd = h.heapEnd := by
  rw [heapEnd, memSizeAligned_join, heapEnd]

section Join

variable (hne : n ≠ c) (hc : Clear d c) (hn : Clear d (h.next n))

include hne hn

theorem next_join : (h.join c n).next d = if d = c then h.next n else h.next d := by
  rw [next, ram_join h hne, if_neg (by omega)]
  simp only [Nat.add_right_cancel_iff, next]

include hc

theorem prev_join : (h.join c n).prev d = if d = h.next n then c else h.prev d := by
  rw [prev, ram_join h hne, if_neg (c := d + 8 = c + 4) (by omega)]
  simp only [Nat.add_right_cancel_iff, prev]

theorem ram_join_header : (h.join c n).ram d = h.ram d := by
  rw [ram_join h hne, if_neg (by omega), if_neg (by omega)]

theorem used_join : (h.join c n).used d = h.used d := by
  rw [used, ram_join_header hne hc hn, used]

theorem magic_join : (h.join c n).magic d = h.magic d := by
  rw [magic, ram_join_header hne hc hn, magic]

end Join

/-! ## The memory after a split -/

theorem ram_split (h : SmallMem) (hcm : c + 16 ≤ m) (x : ℕ) :
    (h.split c m).ram x =
      if x = h.next c + 8 ∧ h.next c ≠ h.heapEnd then m
      else if x = c + 4 then m
      else if x = m + 8 then c
      else if x = m + 4 then h.next c
      else if x = m then h.ram m % 2 ^ 16 else h.ram x := by
  have hfirst : (h.setUsed m 0).next c = h.next c := by
    rw [setUsed, next, ram_store, if_neg (by omega), next]
  have hlast : ((((h.setUsed m 0).setNext m (h.next c)).setPrev m c).setNext c m).next m =
      h.next c := by
    simp only [setNext, setPrev, next, ram_store]
    rw [if_neg (by omega), if_neg (by omega), if_pos trivial]
  have hend : ((((h.setUsed m 0).setNext m (h.next c)).setPrev m c).setNext c m).heapEnd =
      h.heapEnd := rfl
  simp only [split, hfirst, hlast, hend]
  rcases eq_or_ne (h.next c) h.heapEnd with heq | hne
  · rw [if_neg (not_not.mpr heq), if_neg (fun hx => hx.2 heq)]
    simp only [setNext, setPrev, setUsed, ram_store, magic, Nat.zero_mul, Nat.add_zero]
  · rw [if_pos hne]
    simp only [and_iff_left hne, setNext, setPrev, setUsed, ram_store, magic, Nat.zero_mul,
      Nat.add_zero]

theorem lfree_split (h : SmallMem) (c m : ℕ) : (h.split c m).lfree = h.lfree := by
  unfold split
  dsimp only
  split <;> rfl

theorem memSizeAligned_split (h : SmallMem) (c m : ℕ) :
    (h.split c m).memSizeAligned = h.memSizeAligned := by
  unfold split
  dsimp only
  split <;> rfl

theorem usedMem_split (h : SmallMem) (c m : ℕ) : (h.split c m).usedMem = h.usedMem := by
  unfold split
  dsimp only
  split <;> rfl

theorem heapEnd_split (h : SmallMem) (c m : ℕ) : (h.split c m).heapEnd = h.heapEnd := by
  rw [heapEnd, memSizeAligned_split, heapEnd]

section Split

variable (hcm : c + 16 ≤ m) (hmn : m + 16 ≤ h.next c) (hc : Clear d c) (hm : Clear d m)
  (hn : Clear d (h.next c))

include hcm hm hn

theorem next_split :
    (h.split c m).next d = if d = c then m else if d = m then h.next c else h.next d := by
  rw [next, ram_split h hcm, if_neg (by omega), if_neg (c := d + 4 = m + 8) (by omega),
    if_neg (c := d + 4 = m) (by omega)]
  simp only [Nat.add_right_cancel_iff, next]

include hmn hc

theorem prev_split :
    (h.split c m).prev d =
      if d = h.next c ∧ h.next c ≠ h.heapEnd then m else if d = m then c else h.prev d := by
  rw [prev, ram_split h hcm, if_neg (c := d + 8 = c + 4) (by omega),
    if_neg (c := d + 8 = m + 4) (by omega), if_neg (c := d + 8 = m) (by omega)]
  simp only [Nat.add_right_cancel_iff, prev]

theorem ram_split_header :
    (h.split c m).ram d = if d = m then h.ram m % 2 ^ 16 else h.ram d := by
  rw [ram_split h hcm, if_neg (by omega), if_neg (by omega), if_neg (by omega),
    if_neg (by omega)]

theorem used_split : (h.split c m).used d = if d = m then 0 else h.used d := by
  rw [used, ram_split_header hcm hmn hc hm hn]
  split
  · exact Nat.div_eq_of_lt (Nat.mod_lt _ (by decide))
  · rfl

theorem magic_split : (h.split c m).magic d = h.magic d := by
  rw [magic, ram_split_header hcm hmn hc hm hn]
  split
  · rename_i heq
    rw [heq, Nat.mod_mod, magic]
  · rfl

end Split

/-! ## The invariant -/

/-- The headers of the heap: `cuts` are their offsets. -/
structure Headers (h : SmallMem) (cuts : Finset ℕ) : Prop where
  tiling : Tiling 16 h.heapEnd cuts h.next h.prev
  aligned : ∀ c ∈ cuts, c % 8 = 0
  end_used : h.used h.heapEnd ≠ 0
  magic_used : ∀ c ∈ cuts, c ≠ h.heapEnd → h.used c ≠ 0 → h.magic c = heapMagic
  last_room : ∀ c ∈ cuts, c ≠ h.heapEnd → h.next c = h.heapEnd → c + 32 ≤ h.heapEnd
  heapEnd_lt : h.heapEnd < 2 ^ 32

/-- The heap between two functions of `mem.c`: `lfree` is free or `heap_end`. -/
structure Blocks (h : SmallMem) (cuts : Finset ℕ) : Prop extends Headers h cuts where
  lfree_mem : h.lfree ∈ cuts
  lfree_free : h.lfree ≠ h.heapEnd → h.used h.lfree = 0

def usedBlocks (h : SmallMem) (cuts : Finset ℕ) : Finset ℕ :=
  cuts.filter fun c => c ≠ h.heapEnd ∧ h.used c ≠ 0

/-- No two free blocks are neighbours, but for pairs with the block `mem`. -/
def CoalescedBut (h : SmallMem) (cuts : Finset ℕ) (mem : ℕ) : Prop :=
  ∀ c ∈ cuts, c ≠ h.heapEnd → c ≠ mem → h.next c ≠ mem → h.used c = 0 → h.used (h.next c) ≠ 0

def Coalesced (h : SmallMem) (cuts : Finset ℕ) : Prop :=
  ∀ c ∈ cuts, c ≠ h.heapEnd → h.used c = 0 → h.used (h.next c) ≠ 0

/-- No free block lies below `lfree`. -/
def LowestFree (h : SmallMem) (cuts : Finset ℕ) : Prop :=
  ∀ c ∈ cuts, c ≠ h.heapEnd → h.used c = 0 → h.lfree ≤ c

/-- The blocks `S` are where they were and hold what they held. -/
def Keeps (S : Finset ℕ) (h h' : SmallMem) : Prop :=
  ∀ c ∈ S, h'.next c = h.next c ∧ ∀ x, c + 16 ≤ x → x < h.next c → h'.ram x = h.ram x

theorem mem_usedBlocks :
    c ∈ h.usedBlocks cuts ↔ c ∈ cuts ∧ c ≠ h.heapEnd ∧ h.used c ≠ 0 :=
  Finset.mem_filter

theorem Keeps.trans {S : Finset ℕ} (hab : Keeps S h h') (hbc : Keeps S h' h'') :
    Keeps S h h'' := by
  intro c hc
  obtain ⟨hnext, hdata⟩ := hab c hc
  obtain ⟨hnext', hdata'⟩ := hbc c hc
  refine ⟨hnext'.trans hnext, fun x hlow hhigh => ?_⟩
  rw [hdata' x hlow (hnext ▸ hhigh), hdata x hlow hhigh]

theorem Keeps.mono {S T : Finset ℕ} (hST : S ⊆ T) (hkeep : Keeps T h h') : Keeps S h h' :=
  fun c hc => hkeep c (hST hc)

namespace Headers

variable (hb : h.Headers cuts)

include hb

theorem clear (hc : c ∈ cuts) (hd : d ∈ cuts) : Clear c d := by
  rcases Nat.lt_trichotomy c d with hlt | heq | hgt
  · exact Or.inr (Or.inl (hb.tiling.apart hc hd hlt))
  · exact Or.inl heq
  · exact Or.inr (Or.inr (hb.tiling.apart hd hc hgt))

theorem data_clear {x : ℕ} (hc : c ∈ cuts) (hd : d ∈ cuts) (hlow : c + 16 ≤ x)
    (hhigh : x < h.next c) : x < d ∨ d + 16 ≤ x := by
  rcases Nat.lt_trichotomy c d with hlt | rfl | hgt
  · have hle := hb.tiling.next_le c hc d hd hlt
    omega
  · omega
  · have hle := hb.tiling.apart hd hc hgt
    omega

theorem heapEnd_ge : 32 ≤ h.heapEnd := by
  have hzero := hb.tiling.stop_pos.ne
  have hgap := hb.tiling.gap_le 0 hb.tiling.zero_mem hzero
  rcases eq_or_ne (h.next 0) h.heapEnd with heq | hne
  · exact hb.last_room 0 hb.tiling.zero_mem hzero heq
  · have hgap' := hb.tiling.gap_le _ (hb.tiling.next_mem 0 hb.tiling.zero_mem hzero) hne
    have hle := hb.tiling.next_le_stop (hb.tiling.next_mem 0 hb.tiling.zero_mem hzero) hne
    omega

theorem congr (hram : ∀ x, (∃ c ∈ cuts, c ≤ x ∧ x < c + 12) → h'.ram x = h.ram x)
    (hsize : h'.memSizeAligned = h.memSizeAligned) :
    h'.Headers cuts ∧ (∀ c ∈ cuts, h'.next c = h.next c) ∧ ∀ c ∈ cuts, h'.used c = h.used c := by
  have hend : h'.heapEnd = h.heapEnd := by rw [heapEnd, hsize, heapEnd]
  have hfirst : ∀ c ∈ cuts, h'.ram c = h.ram c := fun c hc => hram c ⟨c, hc, le_rfl, by omega⟩
  have hnext : ∀ c ∈ cuts, h'.next c = h.next c :=
    fun c hc => hram (c + 4) ⟨c, hc, by omega, by omega⟩
  have hprev : ∀ c ∈ cuts, h'.prev c = h.prev c :=
    fun c hc => hram (c + 8) ⟨c, hc, by omega, by omega⟩
  have hused : ∀ c ∈ cuts, h'.used c = h.used c := by
    intro c hc
    rw [used, hfirst c hc, used]
  refine ⟨?_, hnext, hused⟩
  constructor
  · rw [hend]
    exact hb.tiling.congr (fun c hc _ => hnext c hc) fun c hc _ => hprev c hc
  · exact hb.aligned
  · rw [hend, hused _ hb.tiling.stop_mem]
    exact hb.end_used
  · intro c hc hce hcused
    rw [hend] at hce
    rw [hused c hc] at hcused
    rw [magic, hfirst c hc]
    exact hb.magic_used c hc hce hcused
  · intro c hc hce hlast
    rw [hend] at hce hlast ⊢
    rw [hnext c hc] at hlast
    exact hb.last_room c hc hce hlast
  · rw [hend]
    exact hb.heapEnd_lt

theorem setLfree (l : ℕ) : SmallMem.Headers { h with lfree := l } cuts :=
  ⟨hb.tiling, hb.aligned, hb.end_used, hb.magic_used, hb.last_room, hb.heapEnd_lt⟩

/-- What a split keeps.  The new block is free and has room for data. -/
theorem split (hc : c ∈ cuts) (hce : c ≠ h.heapEnd) (hm : m % 8 = 0) (hcm : c + 16 ≤ m)
    (hmn : m + 32 ≤ h.next c) :
    (h.split c m).Headers (insert m cuts) ∧
      (h.split c m).usedBlocks (insert m cuts) = h.usedBlocks cuts ∧
      (∀ d ∈ cuts, (h.split c m).next d = if d = c then m else h.next d) ∧
      (∀ d ∈ cuts, (h.split c m).used d = h.used d) ∧
      (h.split c m).next m = h.next c ∧ (h.split c m).used m = 0 ∧
      ∀ d ∈ h.usedBlocks cuts, ∀ x, d + 16 ≤ x → x < h.next d → (d = c → x < m) →
        (h.split c m).ram x = h.ram x := by
  have hnmem := hb.tiling.next_mem c hc hce
  have hnle := hb.tiling.next_le_stop hc hce
  have hend := heapEnd_split h c m
  have hmright : m + 16 ≤ h.next c := by omega
  have hfar : ∀ d ∈ cuts, d ≤ c ∨ h.next c ≤ d := by
    intro d hd
    rcases Nat.lt_or_ge c d with hlt | hge
    · exact Or.inr (hb.tiling.next_le c hc d hd hlt)
    · exact Or.inl hge
  have hdm : ∀ d ∈ cuts, Clear d m ∧ d ≠ m := by
    intro d hd
    have hside := hfar d hd
    exact ⟨by omega, by omega⟩
  have hmc : Clear m c := by omega
  have hmnext : Clear m (h.next c) := by omega
  have hself : Clear m m := Or.inl rfl
  have hnext : ∀ d ∈ cuts, (h.split c m).next d = if d = c then m else h.next d := by
    intro d hd
    rw [next_split hcm (hdm d hd).1 (hb.clear hd hnmem), if_neg (c := d = m) (hdm d hd).2]
  have hused : ∀ d ∈ cuts, (h.split c m).used d = h.used d := by
    intro d hd
    rw [used_split hcm hmright (hb.clear hd hc) (hdm d hd).1 (hb.clear hd hnmem),
      if_neg (hdm d hd).2]
  have hmagic : ∀ d ∈ cuts, (h.split c m).magic d = h.magic d := fun d hd =>
    magic_split hcm hmright (hb.clear hd hc) (hdm d hd).1 (hb.clear hd hnmem)
  have hprev : ∀ d ∈ cuts, d ≠ h.heapEnd →
      (h.split c m).prev d = if d = h.next c then m else h.prev d := by
    intro d hd hde
    rw [prev_split hcm hmright (hb.clear hd hc) (hdm d hd).1 (hb.clear hd hnmem),
      if_neg (c := d = m) (hdm d hd).2]
    rcases eq_or_ne d (h.next c) with rfl | hne
    · rw [if_pos ⟨rfl, hde⟩, if_pos rfl]
    · rw [if_neg (fun hboth => hne hboth.1), if_neg hne]
  have hnext_m : (h.split c m).next m = h.next c := by
    rw [next_split hcm hself hmnext, if_neg (by omega), if_pos rfl]
  have hused_m : (h.split c m).used m = 0 := by
    rw [used_split hcm hmright hmc hself hmnext, if_pos rfl]
  refine ⟨?_, ?_, hnext, hused, hnext_m, hused_m, ?_⟩
  · constructor
    · rw [hend]
      apply hb.tiling.insert hc hce hcm hmright
      · rw [hnext c hc, if_pos rfl]
      · exact hnext_m
      · rw [prev_split hcm hmright hmc hself hmnext, if_neg (by omega), if_pos rfl]
      · intro hlast
        rw [hprev _ hnmem hlast, if_pos rfl]
      · intro d hd _ hdc
        rw [hnext d hd, if_neg hdc]
      · intro d hd hde hdn
        rw [hprev d hd hde, if_neg hdn]
    · intro d hd
      rcases Finset.mem_insert.mp hd with rfl | hd
      · exact hm
      · exact hb.aligned d hd
    · rw [hend, hused _ hb.tiling.stop_mem]
      exact hb.end_used
    · intro d hd hde hdused
      rw [hend] at hde
      rcases Finset.mem_insert.mp hd with rfl | hd
      · exact absurd hused_m hdused
      · rw [hused d hd] at hdused
        rw [hmagic d hd]
        exact hb.magic_used d hd hde hdused
    · intro d hd hde hlast
      rw [hend] at hde hlast ⊢
      rcases Finset.mem_insert.mp hd with rfl | hd
      · omega
      · rw [hnext d hd] at hlast
        split at hlast
        · omega
        · exact hb.last_room d hd hde hlast
    · rw [hend]
      exact hb.heapEnd_lt
  · ext d
    rw [mem_usedBlocks, mem_usedBlocks, hend, Finset.mem_insert]
    constructor
    · rintro ⟨rfl | hd, hde, hdused⟩
      · exact absurd hused_m hdused
      · exact ⟨hd, hde, hused d hd ▸ hdused⟩
    · rintro ⟨hd, hde, hdused⟩
      exact ⟨Or.inr hd, hde, (hused d hd).symm ▸ hdused⟩
  · intro d hd x hlow hhigh hx
    obtain ⟨hd, _, _⟩ := mem_usedBlocks.mp hd
    have hxc := hb.data_clear hd hc hlow hhigh
    have hxn := hb.data_clear hd hnmem hlow hhigh
    have hxm : x < m ∨ m + 16 ≤ x := by
      rcases eq_or_ne d c with heq | hne
      · exact Or.inl (hx heq)
      · have hside := hb.tiling.disjoint hd hc hne
        omega
    rw [ram_split h hcm, if_neg (by omega), if_neg (by omega), if_neg (by omega),
      if_neg (by omega), if_neg (by omega)]

/-- What a change of the flags of one block keeps. -/
theorem relabel {w : ℕ} (hc : c ∈ cuts) (hce : c ≠ h.heapEnd)
    (hram : ∀ x, h'.ram x = if x = c then w else h.ram x)
    (hsize : h'.memSizeAligned = h.memSizeAligned) (hw : w / 2 ^ 16 ≠ 0 → w % 2 ^ 16 = heapMagic) :
    h'.Headers cuts ∧ (∀ d ∈ cuts, h'.next d = h.next d) ∧
      (∀ d ∈ cuts, h'.used d = if d = c then w / 2 ^ 16 else h.used d) ∧
      ∀ d ∈ cuts, ∀ x, d + 16 ≤ x → x < h.next d → h'.ram x = h.ram x := by
  have hend : h'.heapEnd = h.heapEnd := by rw [heapEnd, hsize, heapEnd]
  have hnext : ∀ d ∈ cuts, h'.next d = h.next d := by
    intro d hd
    have hdc := hb.clear hd hc
    rw [next, hram, if_neg (by omega), next]
  have hprev : ∀ d ∈ cuts, h'.prev d = h.prev d := by
    intro d hd
    have hdc := hb.clear hd hc
    rw [prev, hram, if_neg (by omega), prev]
  have hused : ∀ d ∈ cuts, h'.used d = if d = c then w / 2 ^ 16 else h.used d := by
    intro d _
    rw [used, hram, used]
    split <;> rfl
  refine ⟨?_, hnext, hused, ?_⟩
  · constructor
    · rw [hend]
      exact hb.tiling.congr (fun d hd _ => hnext d hd) fun d hd _ => hprev d hd
    · exact hb.aligned
    · rw [hend, hused _ hb.tiling.stop_mem, if_neg hce.symm]
      exact hb.end_used
    · intro d hd hde hdused
      rw [hend] at hde
      rw [hused d hd] at hdused
      rw [magic, hram]
      split at hdused
      · rename_i heq
        rw [if_pos heq]
        exact hw hdused
      · rename_i hne
        rw [if_neg hne]
        exact hb.magic_used d hd hde hdused
    · intro d hd hde hlast
      rw [hend] at hde hlast ⊢
      rw [hnext d hd] at hlast
      exact hb.last_room d hd hde hlast
    · rw [hend]
      exact hb.heapEnd_lt
  · intro d hd x hlow hhigh
    have hxc := hb.data_clear hd hc hlow hhigh
    rw [hram, if_neg (by omega)]

end Headers

namespace Blocks

variable (hb : h.Blocks cuts)

include hb

theorem join (hc : c ∈ cuts) (hce : c ≠ h.heapEnd) (hne : h.next c ≠ h.heapEnd)
    (hfree : h.used c = 0) (hfreen : h.used (h.next c) = 0) :
    (h.join c (h.next c)).Blocks (cuts.erase (h.next c)) ∧
      (h.join c (h.next c)).usedBlocks (cuts.erase (h.next c)) = h.usedBlocks cuts ∧
      Keeps (h.usedBlocks cuts) h (h.join c (h.next c)) := by
  have hnmem := hb.tiling.next_mem c hc hce
  have hnn := hb.tiling.next_mem _ hnmem hne
  have hcn := hb.tiling.lt_next hc hce
  have hnlt := hb.tiling.lt_next hnmem hne
  have hend := heapEnd_join h c (h.next c)
  have hnext : ∀ d ∈ cuts, (h.join c (h.next c)).next d =
      if d = c then h.next (h.next c) else h.next d :=
    fun d hd => next_join hcn.ne' (hb.clear hd hnn)
  have hprev : ∀ d ∈ cuts, (h.join c (h.next c)).prev d =
      if d = h.next (h.next c) then c else h.prev d :=
    fun d hd => prev_join hcn.ne' (hb.clear hd hc) (hb.clear hd hnn)
  have hused : ∀ d ∈ cuts, (h.join c (h.next c)).used d = h.used d :=
    fun d hd => used_join hcn.ne' (hb.clear hd hc) (hb.clear hd hnn)
  have hmagic : ∀ d ∈ cuts, (h.join c (h.next c)).magic d = h.magic d :=
    fun d hd => magic_join hcn.ne' (hb.clear hd hc) (hb.clear hd hnn)
  have herase : ∀ d ∈ cuts.erase (h.next c), d ∈ cuts ∧ d ≠ h.next c :=
    fun d hd => ⟨Finset.mem_of_mem_erase hd, Finset.ne_of_mem_erase hd⟩
  have hheaders : (h.join c (h.next c)).Headers (cuts.erase (h.next c)) := by
    constructor
    · rw [hend]
      apply hb.tiling.erase hc hce hne
      · rw [hnext c hc, if_pos rfl]
      · intro _
        rw [hprev _ hnn, if_pos rfl]
      · intro d hd _ hdc _
        rw [hnext d hd, if_neg hdc]
      · intro d hd _ _ hdn
        rw [hprev d hd, if_neg hdn]
    · exact fun d hd => hb.aligned d (herase d hd).1
    · rw [hend, hused _ hb.tiling.stop_mem]
      exact hb.end_used
    · intro d hd hde hdused
      rw [hend] at hde
      rw [hused d (herase d hd).1] at hdused
      rw [hmagic d (herase d hd).1]
      exact hb.magic_used d (herase d hd).1 hde hdused
    · intro d hd hde hlast
      rw [hend] at hde hlast ⊢
      rw [hnext d (herase d hd).1] at hlast
      split at hlast
      · rename_i heq
        rw [heq]
        have hroom := hb.last_room _ hnmem hne hlast
        omega
      · exact hb.last_room d (herase d hd).1 hde hlast
    · rw [hend]
      exact hb.heapEnd_lt
  refine ⟨⟨hheaders, ?_, ?_⟩, ?_, ?_⟩
  · rw [lfree_join]
    split
    · exact Finset.mem_erase.mpr ⟨hcn.ne, hc⟩
    · rename_i hmiss
      exact Finset.mem_erase.mpr ⟨hmiss, hb.lfree_mem⟩
  · rw [lfree_join, hend]
    split
    · exact fun _ => (hused c hc).trans hfree
    · exact fun hlf => (hused _ hb.lfree_mem).trans (hb.lfree_free hlf)
  · ext d
    rw [mem_usedBlocks, mem_usedBlocks, hend]
    constructor
    · rintro ⟨hd, hde, hdused⟩
      exact ⟨(herase d hd).1, hde, (hused d (herase d hd).1) ▸ hdused⟩
    · rintro ⟨hd, hde, hdused⟩
      have hdn : d ≠ h.next c := fun heq => hdused (heq ▸ hfreen)
      exact ⟨Finset.mem_erase.mpr ⟨hdn, hd⟩, hde, (hused d hd).symm ▸ hdused⟩
  · intro d hd
    obtain ⟨hd, _, hdused⟩ := mem_usedBlocks.mp hd
    have hdc : d ≠ c := fun heq => hdused (heq ▸ hfree)
    refine ⟨by rw [hnext d hd, if_neg hdc], fun x hlow hhigh => ?_⟩
    have hxc := hb.data_clear hd hc hlow hhigh
    have hxn := hb.data_clear hd hnn hlow hhigh
    rw [ram_join h hcn.ne', if_neg (by omega), if_neg (by omega)]

theorem join_links (hc : c ∈ cuts) (hce : c ≠ h.heapEnd) (hne : h.next c ≠ h.heapEnd) :
    (∀ d ∈ cuts, (h.join c (h.next c)).next d = if d = c then h.next (h.next c) else h.next d) ∧
      (∀ d ∈ cuts, (h.join c (h.next c)).prev d =
        if d = h.next (h.next c) then c else h.prev d) ∧
      ∀ d ∈ cuts, (h.join c (h.next c)).used d = h.used d := by
  have hnmem := hb.tiling.next_mem c hc hce
  have hnn := hb.tiling.next_mem _ hnmem hne
  have hcn := (hb.tiling.lt_next hc hce).ne'
  exact ⟨fun d hd => next_join hcn (hb.clear hd hnn),
    fun d hd => prev_join hcn (hb.clear hd hc) (hb.clear hd hnn),
    fun d hd => used_join hcn (hb.clear hd hc) (hb.clear hd hnn)⟩

end Blocks

/-! ## Plugging holes -/

/-- Free blocks have been joined, and nothing else has happened. -/
structure Merged (h : SmallMem) (cuts : Finset ℕ) (h' : SmallMem) (cuts' : Finset ℕ) : Prop where
  blocks : h'.Blocks cuts'
  usedBlocks_eq : h'.usedBlocks cuts' = h.usedBlocks cuts
  keeps : Keeps (h.usedBlocks cuts) h h'
  memSizeAligned_eq : h'.memSizeAligned = h.memSizeAligned
  usedMem_eq : h'.usedMem = h.usedMem
  lfree_ne_end : h.lfree ≠ h.heapEnd → h'.lfree ≠ h'.heapEnd
  lowestFree : h.LowestFree cuts → h'.LowestFree cuts'

theorem Merged.refl (hb : h.Blocks cuts) : Merged h cuts h cuts :=
  ⟨hb, rfl, fun _ _ => ⟨rfl, fun _ _ _ => rfl⟩, rfl, rfl, id, id⟩

theorem Merged.trans {cuts'' : Finset ℕ} (hab : Merged h cuts h' cuts')
    (hbc : Merged h' cuts' h'' cuts'') : Merged h cuts h'' cuts'' where
  blocks := hbc.blocks
  usedBlocks_eq := hbc.usedBlocks_eq.trans hab.usedBlocks_eq
  keeps := hab.keeps.trans (hab.usedBlocks_eq ▸ hbc.keeps)
  memSizeAligned_eq := hbc.memSizeAligned_eq.trans hab.memSizeAligned_eq
  usedMem_eq := hbc.usedMem_eq.trans hab.usedMem_eq
  lfree_ne_end := hbc.lfree_ne_end ∘ hab.lfree_ne_end
  lowestFree := hbc.lowestFree ∘ hab.lowestFree

theorem Merged.heapEnd_eq (hm : Merged h cuts h' cuts') : h'.heapEnd = h.heapEnd := by
  rw [heapEnd, hm.memSizeAligned_eq, heapEnd]

section Plug

variable (hb : h.Blocks cuts) (hc : c ∈ cuts) (hce : c ≠ h.heapEnd) (hfree : h.used c = 0)

include hb hc hce hfree

theorem merged_join (hne : h.next c ≠ h.heapEnd) (hfreen : h.used (h.next c) = 0) :
    Merged h cuts (h.join c (h.next c)) (cuts.erase (h.next c)) := by
  obtain ⟨hblocks, husedBlocks, hkeeps⟩ := hb.join hc hce hne hfree hfreen
  have hend := heapEnd_join h c (h.next c)
  have hcn := hb.tiling.lt_next hc hce
  refine ⟨hblocks, husedBlocks, hkeeps, memSizeAligned_join .., usedMem_join .., ?_, ?_⟩
  · intro hlf
    rw [lfree_join, hend]
    split
    · exact hce
    · exact hlf
  · intro hlow d hd hde hdfree
    rw [hend] at hde
    obtain ⟨hdn, hd⟩ := Finset.mem_erase.mp hd
    rw [(hb.join_links hc hce hne).2.2 d hd] at hdfree
    have hmiss : h.lfree ≠ h.next c := by
      have hle := hlow c hc hce hfree
      omega
    rw [lfree_join, if_neg hmiss]
    exact hlow d hd hde hdfree

/-- The forward half of `plug_holes`: the block behind `c` is in use afterwards. -/
theorem plug_forward (hco : h.CoalescedBut cuts c)
    (heq : h' = if c ≠ h.next c ∧ h.used (h.next c) = 0 ∧ h.next c ≠ h.heapEnd then
      h.join c (h.next c) else h) :
    ∃ cuts', Merged h cuts h' cuts' ∧ c ∈ cuts' ∧ h'.used c = 0 ∧ h'.CoalescedBut cuts' c ∧
      h'.used (h'.next c) ≠ 0 := by
  subst heq
  have hcn := hb.tiling.lt_next hc hce
  have hnmem := hb.tiling.next_mem c hc hce
  split
  · rename_i hplug
    obtain ⟨-, hfreen, hne⟩ := hplug
    obtain ⟨hnext, -, hused⟩ := hb.join_links hc hce hne
    have hnn := hb.tiling.next_mem _ hnmem hne
    have hnlt := hb.tiling.lt_next hnmem hne
    refine ⟨_, merged_join hb hc hce hfree hne hfreen, Finset.mem_erase.mpr ⟨hcn.ne, hc⟩,
      (hused c hc).trans hfree, ?_, ?_⟩
    · intro d hd hde hdc hdn hdfree
      rw [heapEnd_join] at hde
      obtain ⟨hdm, hd⟩ := Finset.mem_erase.mp hd
      rw [hnext d hd, if_neg hdc] at hdn ⊢
      rw [hused d hd] at hdfree
      rw [hused _ (hb.tiling.next_mem d hd hde)]
      exact hco d hd hde hdc hdn hdfree
    · rw [hnext c hc, if_pos rfl, hused _ hnn]
      exact hco _ hnmem hne hcn.ne' (by omega) hfreen
  · rename_i hplug
    refine ⟨cuts, Merged.refl hb, hc, hfree, hco, fun hfreen => hplug ⟨hcn.ne, hfreen, ?_⟩⟩
    intro heq
    exact hb.end_used (heq ▸ hfreen)

theorem plug_backward (hco : h.CoalescedBut cuts c) (hnext : h.used (h.next c) ≠ 0)
    (heq : h' = if h.prev c ≠ c ∧ h.used (h.prev c) = 0 then h.join (h.prev c) c else h) :
    ∃ cuts', Merged h cuts h' cuts' ∧ h'.Coalesced cuts' := by
  subst heq
  rcases eq_or_ne c 0 with rfl | hpos
  · -- the first block has none before it
    rw [if_neg (fun hplug => hplug.1 hb.tiling.prev_zero)]
    refine ⟨cuts, Merged.refl hb, fun d hd hde hdfree => ?_⟩
    rcases eq_or_ne d 0 with rfl | hd0
    · exact hnext
    · have hlt := hb.tiling.lt_next hd hde
      exact hco d hd hde hd0 (by omega) hdfree
  · obtain ⟨hp, hpe, hpc⟩ := hb.tiling.prev_spec hc hpos hce
    have hlt := hb.tiling.lt_next hp hpe
    by_cases hpfree : h.used (h.prev c) = 0
    · rw [if_pos ⟨by omega, hpfree⟩]
      have hne : h.next (h.prev c) ≠ h.heapEnd := by rwa [hpc]
      obtain ⟨hlinks, -, hused⟩ := hb.join_links hp hpe hne
      have hmerged := merged_join hb hp hpe hpfree hne (by rwa [hpc])
      rw [hpc] at hmerged hlinks hused
      refine ⟨_, hmerged, fun d hd hde hdfree => ?_⟩
      rw [heapEnd_join] at hde
      obtain ⟨hdc, hd⟩ := Finset.mem_erase.mp hd
      rw [hused d hd] at hdfree
      rw [hlinks d hd]
      split
      · rw [hused _ (hb.tiling.next_mem c hc hce)]
        exact hnext
      · rename_i hdp
        rw [hused _ (hb.tiling.next_mem d hd hde)]
        refine hco d hd hde hdc (fun heq => hdp ?_) hdfree
        exact hb.tiling.next_inj hd hp hde hpe (heq.trans hpc.symm)
    · rw [if_neg (fun hplug => hpfree hplug.2)]
      refine ⟨cuts, Merged.refl hb, fun d hd hde hdfree => ?_⟩
      rcases eq_or_ne d c with rfl | hdc
      · exact hnext
      · refine hco d hd hde hdc (fun heq => hpfree ?_) hdfree
        rwa [← hb.tiling.next_inj hd hp hde hpe (heq.trans hpc.symm)]

/-- `plug_holes` on a block that has just been freed. -/
theorem plugHoles_spec (hco : h.CoalescedBut cuts c) :
    ∃ h' cuts', h.plugHoles c = some h' ∧ Merged h cuts h' cuts' ∧ h'.Coalesced cuts' := by
  obtain ⟨cuts₁, hmerged, hc₁, hfree₁, hco₁, hnext₁⟩ := plug_forward hb hc hce hfree hco rfl
  rw [plugHoles, if_pos ⟨hb.tiling.lt_stop hc hce, hfree⟩]
  dsimp only
  generalize (if c ≠ h.next c ∧ h.used (h.next c) = 0 ∧ h.next c ≠ h.heapEnd then
    h.join c (h.next c) else h) = h₁ at *
  have hce₁ : c ≠ h₁.heapEnd := hmerged.heapEnd_eq ▸ hce
  obtain ⟨cuts₂, hmerged₂, hco₂⟩ := plug_backward hmerged.blocks hc₁ hce₁ hfree₁ hco₁ hnext₁ rfl
  exact ⟨_, cuts₂, rfl, hmerged.trans hmerged₂, hco₂⟩

end Plug

end SmallMem

end TdPrinter
