import TdPrinter.RtThread.MemBlocks

/-!
# What the functions of the system heap do

`rtMalloc_spec`, `rtFree_spec` and `rtRealloc_spec`: in a heap with the invariant `Sound` each
function ends, without a failed assertion, in a heap with the invariant.  What is said of the
blocks in use is that those not named in the call stay where they are with what they hold.

`rt_malloc` takes the first block from `lfree` on that is large enough, but does not look at
blocks that would only just fit in the last part of the heap: the loop ends at
`mem_size_aligned - size`, where a block of that size could still start.
-/

namespace TdPrinter

namespace SmallMem

variable {h h' : SmallMem} {cuts cuts' : Finset ℕ} {c d m n x size ptr fuel : ℕ}

theorem subSize_eq {a b : ℕ} (hle : b ≤ a) (ha : a < 2 ^ 32) : subSize a b = a - b := by
  rw [subSize]
  omega

/-! ## The two loops of `rt_malloc` -/

/-- The block has room for `size` bytes and would be taken. -/
def Fits (h : SmallMem) (size c : ℕ) : Prop := h.used c = 0 ∧ c + 16 + size ≤ h.next c

namespace Headers

variable (hb : h.Headers cuts)

include hb

theorem subSize_next (hc : c ∈ cuts) (hce : c ≠ h.heapEnd) :
    subSize (h.next c) (c + 16) = h.next c - (c + 16) ∧ subSize (h.next c) c = h.next c - c := by
  have hgap := hb.tiling.gap_le c hc hce
  have hle := hb.tiling.next_le_stop hc hce
  have hlt := hb.heapEnd_lt
  exact ⟨subSize_eq hgap (by omega), subSize_eq (by omega) (by omega)⟩

theorem mallocScan_spec (hsize : size ≤ h.memSizeAligned) (hptr : ptr ∈ cuts)
    (hfuel : h.heapEnd < ptr + fuel) :
    ∃ found, mallocScan h size fuel ptr = some found ∧
      (∀ c, found = some c → c ∈ cuts ∧ ptr ≤ c ∧ c < h.memSizeAligned - size ∧ h.Fits size c ∧
        ∀ d ∈ cuts, ptr ≤ d → d < c → ¬ h.Fits size d) ∧
      (found = none → ∀ d ∈ cuts, ptr ≤ d → d < h.memSizeAligned - size → ¬ h.Fits size d) := by
  have hlt := hb.heapEnd_lt
  have hlimit : subSize h.memSizeAligned size = h.memSizeAligned - size :=
    subSize_eq hsize (by rw [heapEnd] at hlt; omega)
  induction fuel generalizing ptr with
  | zero =>
      have hle := hb.tiling.le_stop ptr hptr
      omega
  | succ fuel ih =>
      rw [mallocScan, hlimit]
      by_cases hbelow : ptr < h.memSizeAligned - size
      · have hend : ptr ≠ h.heapEnd := by
          rw [heapEnd]
          omega
        have hgap := hb.tiling.gap_le ptr hptr hend
        rw [if_pos hbelow, sizeofStructMem_eq, (hb.subSize_next hptr hend).1]
        by_cases hfits : h.used ptr = 0 ∧ size ≤ h.next ptr - (ptr + 16)
        · rw [if_pos hfits]
          refine ⟨some ptr, rfl, ?_, fun h => absurd h (Option.some_ne_none ptr)⟩
          rintro c hc
          obtain rfl := Option.some.inj hc
          exact ⟨hptr, le_rfl, hbelow, ⟨hfits.1, by omega⟩, fun d _ hle hd => by omega⟩
        · rw [if_neg hfits]
          have hmiss : ¬ h.Fits size ptr := fun hf => hfits ⟨hf.1, by have := hf.2; omega⟩
          obtain ⟨found, hscan, hsome, hnone⟩ :=
            ih (hb.tiling.next_mem ptr hptr hend) (by omega)
          -- a block from `ptr` on is `ptr` or lies behind its next block
          have hstep : ∀ d ∈ cuts, ptr ≤ d → h.Fits size d → h.next ptr ≤ d := by
            intro d hd hle hf
            rcases Nat.eq_or_lt_of_le hle with rfl | hlt'
            · exact absurd hf hmiss
            · exact hb.tiling.next_le ptr hptr d hd hlt'
          refine ⟨found, hscan, ?_, ?_⟩
          · intro c hc
            obtain ⟨hmem, hle, hlim, hf, hfirst⟩ := hsome c hc
            exact ⟨hmem, by omega, hlim, hf,
              fun d hd hpd hdc hfd => hfirst d hd (hstep d hd hpd hfd) hdc hfd⟩
          · intro hn d hd hpd hdlim hfd
            exact hnone hn d hd (hstep d hd hpd hfd) hdlim hfd
      · rw [if_neg hbelow]
        exact ⟨none, rfl, fun c h => absurd h.symm (Option.some_ne_none c),
          fun _ d _ hle hd => by omega⟩

theorem nextFree_spec (hptr : ptr ∈ cuts) (hfuel : h.heapEnd < ptr + fuel) :
    ∃ l, nextFree h fuel ptr = some l ∧ l ∈ cuts ∧ (l ≠ h.heapEnd → h.used l = 0) ∧
      ptr ≤ l ∧ ∀ d ∈ cuts, ptr ≤ d → d < l → h.used d ≠ 0 := by
  induction fuel generalizing ptr with
  | zero =>
      have hle := hb.tiling.le_stop ptr hptr
      omega
  | succ fuel ih =>
      rw [nextFree]
      split
      · rename_i hgo
        have hlt := hb.tiling.lt_next hptr hgo.2
        obtain ⟨l, hl, hmem, hfree, hle, hused⟩ :=
          ih (hb.tiling.next_mem ptr hptr hgo.2) (by omega)
        refine ⟨l, hl, hmem, hfree, by omega, ?_⟩
        intro d hd hpd hdl
        rcases Nat.eq_or_lt_of_le hpd with rfl | hlt'
        · exact hgo.1
        · exact hused d hd (hb.tiling.next_le ptr hptr d hd hlt') hdl
      · rename_i hstop
        refine ⟨ptr, rfl, hptr, ?_, le_rfl, fun d _ hpd hd => by omega⟩
        intro hne
        by_contra hused
        exact hstop ⟨hused, hne⟩

end Headers

/-! ## Taking a block -/

/-- The block `c` is free and has the size that is wanted; what it had too much is a free block
behind it. -/
structure Carved (h : SmallMem) (cuts : Finset ℕ) (c : ℕ) (h' : SmallMem) (cuts' : Finset ℕ) :
    Prop where
  headers : h'.Headers cuts'
  subset : cuts ⊆ cuts'
  usedBlocks_eq : h'.usedBlocks cuts' = h.usedBlocks cuts
  keeps : Keeps (h.usedBlocks cuts) h h'
  used_eq : ∀ d ∈ cuts, h'.used d = h.used d
  next_eq : ∀ d ∈ cuts, d ≠ c → h'.next d = h.next d
  next_cut : h'.next c = h.next c ∨ h'.next c ∉ cuts
  fresh : ∀ d ∈ cuts', d ∉ cuts → c < d ∧ h'.used d = 0 ∧ h'.next d = h.next c
  memSizeAligned_eq : h'.memSizeAligned = h.memSizeAligned
  usedMem_eq : h'.usedMem = h.usedMem
  lfree_eq : h'.lfree = h.lfree

section Take

variable (hb : h.Headers cuts) (hc : c ∈ cuts) (hce : c ≠ h.heapEnd)

include hb hc hce

theorem carved_split (hfree : h.used c = 0) (hm : m % 8 = 0) (hcm : c + 16 ≤ m)
    (hmn : m + 32 ≤ h.next c) : Carved h cuts c (h.split c m) (insert m cuts) := by
  obtain ⟨hheaders, husedBlocks, hnext, hused, hnext_m, hused_m, hdata⟩ :=
    hb.split hc hce hm hcm hmn
  have hne : ∀ d ∈ h.usedBlocks cuts, d ≠ c := by
    rintro d hd rfl
    exact (mem_usedBlocks.mp hd).2.2 hfree
  refine ⟨hheaders, Finset.subset_insert .., husedBlocks, ?_, hused, ?_, ?_, ?_,
    memSizeAligned_split .., usedMem_split .., lfree_split ..⟩
  · intro d hd
    refine ⟨?_, fun x hlow hhigh => hdata d hd x hlow hhigh fun heq => absurd heq (hne d hd)⟩
    rw [hnext d (mem_usedBlocks.mp hd).1, if_neg (hne d hd)]
  · intro d hd hdc
    rw [hnext d hd, if_neg hdc]
  · right
    rw [hnext c hc, if_pos rfl]
    intro hmem
    have hle := hb.tiling.next_le c hc m hmem (by omega)
    omega
  · intro d hd hfresh
    obtain rfl : d = m := by
      rcases Finset.mem_insert.mp hd with heq | hmem
      · exact heq
      · exact absurd hmem hfresh
    exact ⟨by omega, hused_m, hnext_m⟩

omit hc hce in
theorem carved_refl : Carved h cuts c h cuts :=
  ⟨hb, subset_rfl, rfl, fun _ _ => ⟨rfl, fun _ _ _ => rfl⟩, fun _ _ => rfl, fun _ _ _ => rfl,
    Or.inl rfl, fun _ hd hfresh => absurd hd hfresh, rfl, rfl, rfl⟩

/-- `rt_malloc` on the block it has found, before `lfree` is looked at. -/
theorem takeBlock_spec (hfits : h.Fits size c) (hsize : size % 8 = 0) (hmin : 16 ≤ size) :
    ∃ h₁ cuts', Carved h cuts c h₁ cuts' ∧ c + 16 + size ≤ h₁.next c ∧
      (∀ x, (takeBlock h c size).ram x = if x = c then heapMagic + 2 ^ 16 else h₁.ram x) ∧
      (takeBlock h c size).memSizeAligned = h.memSizeAligned ∧
      (takeBlock h c size).lfree = h.lfree ∧
      (takeBlock h c size).usedMem = (h.usedMem + (h₁.next c - c)) % 2 ^ 32 := by
  obtain ⟨hfree, hroom⟩ := hfits
  obtain ⟨hdata, hwhole⟩ := hb.subSize_next hc hce
  have haligned := hb.aligned c hc
  rw [takeBlock, sizeofStructMem_eq, minSizeAligned_eq, hdata, hwhole]
  split
  · rename_i hlarge
    have hcarved := carved_split hb hc hce hfree (m := c + 16 + size) (by omega) (by omega)
      (by omega)
    have hnext : (h.split c (c + 16 + size)).next c = c + 16 + size := by
      rw [(hb.split hc hce (by omega) (by omega) (by omega)).2.2.1 c hc, if_pos rfl]
    refine ⟨_, _, hcarved, hnext.ge, fun x => ?_, memSizeAligned_split .., lfree_split .., ?_⟩
    · rw [setMagic, ram_store]
      split
      · have hone := used_setUsed (h.split c (c + 16 + size)) c 1 c
        rw [if_pos rfl] at hone
        exact congrArg (fun u => heapMagic + u * 2 ^ 16) hone
      · rename_i hx
        exact (ram_store (h.split c (c + 16 + size)) c _ x).trans (if_neg hx)
    · rw [hnext]
      show ((h.split c (c + 16 + size)).usedMem + (size + 16)) % 2 ^ 32 = _
      rw [usedMem_split]
      congr 2
      omega
  · refine ⟨h, cuts, carved_refl hb, hroom, fun x => ?_, rfl, rfl, rfl⟩
    rw [setMagic, ram_store]
    split
    · have hone := used_setUsed h c 1 c
      rw [if_pos rfl] at hone
      exact congrArg (fun u => heapMagic + u * 2 ^ 16) hone
    · rename_i hx
      exact (ram_store h c _ x).trans (if_neg hx)

end Take

/-! ## The invariant with the statistics -/

/-- The heap between two calls: moreover no two free blocks are neighbours, `used_mem` is right,
and where `lfree` is `heap_end` something is in use. -/
structure Sound (h : SmallMem) (cuts : Finset ℕ) : Prop extends Blocks h cuts where
  coalesced : h.Coalesced cuts
  usedMem_eq : h.usedMem = ∑ c ∈ h.usedBlocks cuts, (h.next c - c)
  lfree_end : h.lfree = h.heapEnd → (h.usedBlocks cuts).Nonempty

/-- Blocks that do not overlap are not larger than the heap together. -/
theorem Headers.sum_le (hb : h.Headers cuts) {S : Finset ℕ} (hS : S ⊆ h.usedBlocks cuts) :
    ∑ c ∈ S, (h.next c - c) ≤ h.heapEnd := by
  rw [← hb.tiling.sum_tiles]
  apply Finset.sum_le_sum_of_subset
  intro c hc
  obtain ⟨hmem, hne, _⟩ := mem_usedBlocks.mp (hS hc)
  exact Finset.mem_erase.mpr ⟨hne, hmem⟩

theorem Keeps.sum_eq {S : Finset ℕ} (hkeep : Keeps S h h') :
    ∑ c ∈ S, (h'.next c - c) = ∑ c ∈ S, (h.next c - c) :=
  Finset.sum_congr rfl fun c hc => by rw [(hkeep c hc).1]

/-! ## `rt_malloc` -/

/-- The number of bytes that `rt_malloc` looks for. -/
def mallocSize (size : ℕ) : ℕ :=
  if rtAlign size < minSizeAligned then minSizeAligned else rtAlign size

theorem mallocSize_spec (size : ℕ) :
    16 ≤ mallocSize size ∧ mallocSize size % 8 = 0 ∧ rtAlign size ≤ mallocSize size := by
  have haligned : rtAlign size % 8 = 0 := Nat.mul_mod_left ..
  rw [mallocSize, minSizeAligned_eq]
  split <;> omega

/-- `rt_malloc` has taken the block `c`. -/
structure Malloced (h : SmallMem) (cuts : Finset ℕ) (size c : ℕ) (h' : SmallMem)
    (cuts' : Finset ℕ) : Prop where
  sound : h'.Sound cuts'
  mem : c ∈ cuts
  fits : h.Fits (mallocSize size) c
  lfree_le : h.lfree ≤ c
  below : c < h.memSizeAligned - mallocSize size
  first : ∀ d ∈ cuts, h.lfree ≤ d → d < c → ¬ h.Fits (mallocSize size) d
  usedBlocks_eq : h'.usedBlocks cuts' = insert c (h.usedBlocks cuts)
  keeps : Keeps (h.usedBlocks cuts) h h'
  room : c + 16 + mallocSize size ≤ h'.next c
  memSizeAligned_eq : h'.memSizeAligned = h.memSizeAligned
  lowestFree : h.LowestFree cuts → h'.LowestFree cuts'

/-- What makes `rt_malloc` return `RT_NULL`. -/
def Refuses (h : SmallMem) (cuts : Finset ℕ) (size : ℕ) : Prop :=
  size = 0 ∨ h.memSizeAligned < rtAlign size ∨
    ∀ d ∈ cuts, h.lfree ≤ d → d < h.memSizeAligned - mallocSize size →
      ¬ h.Fits (mallocSize size) d

/-- The block that has been carved out is marked as used. -/
theorem Carved.taken {h₁ : SmallMem} (hcarved : Carved h cuts c h₁ cuts') (hb : h.Headers cuts)
    (hc : c ∈ cuts) (hce : c ≠ h.heapEnd) (hfree : h.used c = 0) (hco : h.Coalesced cuts)
    (hram : ∀ x, h'.ram x = if x = c then heapMagic + 2 ^ 16 else h₁.ram x)
    (hsize : h'.memSizeAligned = h.memSizeAligned) :
    h'.Headers cuts' ∧ h'.usedBlocks cuts' = insert c (h.usedBlocks cuts) ∧
      Keeps (h.usedBlocks cuts) h h' ∧ h'.next c = h₁.next c ∧ h'.Coalesced cuts' ∧
      (∀ d ∈ cuts', h'.used d = 0 → d ≠ c ∧ (d ∈ cuts ∧ h.used d = 0 ∨ c < d)) ∧
      ∀ d ∈ cuts, d ≠ c → h'.used d = h.used d := by
  have hc' := hcarved.subset hc
  have hend : h₁.heapEnd = h.heapEnd := by rw [heapEnd, hcarved.memSizeAligned_eq, heapEnd]
  have hend' : h'.heapEnd = h.heapEnd := by rw [heapEnd, hsize, heapEnd]
  obtain ⟨hheaders, hnext, hused, hdata⟩ := hcarved.headers.relabel hc' (hend ▸ hce) hram
    (hsize.trans hcarved.memSizeAligned_eq.symm) (fun _ => by decide)
  have hflag : (heapMagic + 2 ^ 16) / 2 ^ 16 = 1 := by decide
  rw [hflag] at hused
  have hne : ∀ d ∈ h.usedBlocks cuts, d ≠ c := by
    rintro d hd rfl
    exact (mem_usedBlocks.mp hd).2.2 hfree
  have hold : ∀ d ∈ cuts, d ≠ c → h'.used d = h.used d := by
    intro d hd hdc
    rw [hused d (hcarved.subset hd), if_neg hdc, hcarved.used_eq d hd]
  refine ⟨hheaders, ?_, ?_, hnext c hc', ?_, ?_, hold⟩
  · ext d
    rw [mem_usedBlocks, Finset.mem_insert, ← hcarved.usedBlocks_eq, mem_usedBlocks, hend, hend']
    constructor
    · rintro ⟨hd, hde, hdused⟩
      rw [hused d hd] at hdused
      split at hdused
      · exact Or.inl ‹d = c›
      · exact Or.inr ⟨hd, hde, hdused⟩
    · rintro (rfl | ⟨hd, hde, hdused⟩)
      · exact ⟨hc', hce, by rw [hused d hc', if_pos rfl]; exact one_ne_zero⟩
      · refine ⟨hd, hde, ?_⟩
        rw [hused d hd]
        split
        · exact one_ne_zero
        · exact hdused
  · intro d hd
    obtain ⟨hdmem, _, _⟩ := mem_usedBlocks.mp hd
    obtain ⟨hstay, hwords⟩ := hcarved.keeps d hd
    refine ⟨(hnext d (hcarved.subset hdmem)).trans hstay, fun x hlow hhigh => ?_⟩
    rw [hdata d (hcarved.subset hdmem) x hlow (hstay.symm ▸ hhigh), hwords x hlow hhigh]
  · intro d hd hde hdfree
    rw [hend'] at hde
    have hdc : d ≠ c := by
      rintro rfl
      rw [hused d hd, if_pos rfl] at hdfree
      exact one_ne_zero hdfree
    have hnmem := hcarved.headers.tiling.next_mem d hd (hend ▸ hde)
    rw [hnext d hd, hused _ hnmem]
    split
    · exact one_ne_zero
    · rw [hused d hd, if_neg hdc] at hdfree
      by_cases hdold : d ∈ cuts
      · rw [hcarved.next_eq d hdold hdc, hcarved.used_eq _ (hb.tiling.next_mem d hdold hde)]
        rw [hcarved.used_eq d hdold] at hdfree
        exact hco d hdold hde hdfree
      · -- the block that was split off: what followed `c` is in use
        rw [(hcarved.fresh d hd hdold).2.2, hcarved.used_eq _ (hb.tiling.next_mem c hc hce)]
        exact hco c hc hce hfree
  · intro d hd hdfree
    have hdc : d ≠ c := by
      rintro rfl
      rw [hused d hd, if_pos rfl] at hdfree
      exact one_ne_zero hdfree
    refine ⟨hdc, ?_⟩
    by_cases hdold : d ∈ cuts
    · exact Or.inl ⟨hdold, hold d hdold hdc ▸ hdfree⟩
    · exact Or.inr (hcarved.fresh d hd hdold).1

theorem Carved.finish {h₁ h₂ : SmallMem} {size : ℕ} (hcarved : Carved h cuts c h₁ cuts')
    (hs : h.Sound cuts) (hc : c ∈ cuts) (hce : c ≠ h.heapEnd) (hle : h.lfree ≤ c)
    (hfree : h.used c = 0) (hroom : c + 16 + size ≤ h₁.next c)
    (hram : ∀ x, h₂.ram x = if x = c then heapMagic + 2 ^ 16 else h₁.ram x)
    (hmemSize : h₂.memSizeAligned = h.memSizeAligned) (hlfree : h₂.lfree = h.lfree)
    (husedMem : h₂.usedMem = (h.usedMem + (h₁.next c - c)) % 2 ^ 32) :
    ∃ h', mallocFinish h₂ c size = some (some (c + 16), h') ∧ h'.Sound cuts' ∧
      h'.usedBlocks cuts' = insert c (h.usedBlocks cuts) ∧ Keeps (h.usedBlocks cuts) h h' ∧
      c + 16 + size ≤ h'.next c ∧ h'.memSizeAligned = h.memSizeAligned ∧
      (h.LowestFree cuts → h'.LowestFree cuts') := by
  have hb := hs.toHeaders
  obtain ⟨hheaders, husedBlocks, hkeeps, hnext, hco, hfree', hold⟩ :=
    hcarved.taken hb hc hce hfree hs.coalesced hram hmemSize
  have hend : h₂.heapEnd = h.heapEnd := by rw [heapEnd, hmemSize, heapEnd]
  have hc' := hcarved.subset hc
  have hlf' := hcarved.subset hs.lfree_mem
  -- the new `lfree`
  have hlast : ∃ l, (if c = h₂.lfree then nextFree h₂ (h₂.heapEnd + 1) h₂.lfree
        else some h₂.lfree) = some l ∧ l ∈ cuts' ∧ (l ≠ h.heapEnd → h₂.used l = 0) ∧
      (h.LowestFree cuts → ∀ d ∈ cuts', d ≠ h.heapEnd → h₂.used d = 0 → l ≤ d) := by
    have habove : h.LowestFree cuts → ∀ d ∈ cuts', d ≠ h.heapEnd → h₂.used d = 0 →
        h.lfree ≤ d := by
      intro hlow d hd hde hdfree
      rcases (hfree' d hd hdfree).2 with ⟨hdold, hdfree'⟩ | hgt
      · exact hlow d hdold hde hdfree'
      · omega
    rw [hlfree]
    split
    · obtain ⟨l, hl, hmem, hfree, hcl, hused⟩ := hheaders.nextFree_spec hlf'
        (show h₂.heapEnd < h.lfree + (h₂.heapEnd + 1) by omega)
      refine ⟨l, hl, hmem, hend ▸ hfree, fun hlow d hd hde hdfree => ?_⟩
      by_contra hlt
      exact hused d hd (habove hlow d hd hde hdfree) (by omega) hdfree
    · rename_i hne
      refine ⟨h.lfree, rfl, hlf', fun hlfe => ?_, habove⟩
      rw [hold _ hs.lfree_mem (Ne.symm hne)]
      exact hs.lfree_free hlfe
  obtain ⟨l, hl, hlmem, hlfree', hlow⟩ := hlast
  have hbound := hheaders.tiling.next_le_stop hc' (hend.symm ▸ hce)
  rw [hend] at hbound
  rw [← hnext] at hroom
  have hasserts : (l = h₂.heapEnd ∨ h₂.used l = 0) ∧ c + 16 + size ≤ h₂.heapEnd ∧
      (c + 16) % 8 = 0 ∧ c % 8 = 0 := by
    have halc := hb.aligned c hc
    refine ⟨?_, by omega, by omega, halc⟩
    rcases eq_or_ne l h.heapEnd with heq | hne
    · exact Or.inl (heq.trans hend.symm)
    · exact Or.inr (hlfree' hne)
  refine ⟨{ h₂ with lfree := l }, ?_, ?_, husedBlocks, hkeeps, hroom, hmemSize, ?_⟩
  · rw [mallocFinish, hl]
    exact if_pos hasserts
  · refine ⟨⟨hheaders.setLfree l, hlmem, fun hlfe => hlfree' (hend ▸ hlfe)⟩, hco, ?_,
      fun _ => husedBlocks.symm ▸ ⟨c, Finset.mem_insert_self ..⟩⟩
    -- the blocks in use do not exceed the heap, so that `used_mem` does not wrap
    have hfresh : c ∉ h.usedBlocks cuts := fun hmem => (mem_usedBlocks.mp hmem).2.2 hfree
    have htotal : ∑ d ∈ h₂.usedBlocks cuts', (h₂.next d - d) = h₁.next c - c + h.usedMem := by
      rw [husedBlocks, Finset.sum_insert hfresh, hkeeps.sum_eq, hs.usedMem_eq, hnext]
    have hsum := hheaders.sum_le (subset_refl (h₂.usedBlocks cuts'))
    have hlt := hb.heapEnd_lt
    show h₂.usedMem = ∑ d ∈ h₂.usedBlocks cuts', (h₂.next d - d)
    rw [htotal] at hsum ⊢
    rw [husedMem, Nat.mod_eq_of_lt (by omega), Nat.add_comm]
  · exact fun hlowest d hd hde hdfree => hlow hlowest d hd (hend ▸ hde) hdfree

/-- `rt_malloc` takes the first block that fits, or has a reason for `RT_NULL`. -/
theorem rtMalloc_spec (hs : h.Sound cuts) (size : ℕ) :
    rtMalloc h size = some (none, h) ∧ h.Refuses cuts size ∨
      ∃ c h' cuts', rtMalloc h size = some (some (c + 16), h') ∧
        Malloced h cuts size c h' cuts' := by
  have hb := hs.toHeaders
  obtain ⟨hmin, haligned, _⟩ := mallocSize_spec size
  unfold rtMalloc
  split
  · rename_i hzero
    exact Or.inl ⟨rfl, Or.inl hzero⟩
  dsimp only
  split
  · rename_i hbig
    exact Or.inl ⟨rfl, Or.inr (Or.inl hbig)⟩
  rename_i hsmall
  have hsize : mallocSize size ≤ h.memSizeAligned := by
    have hge := hb.heapEnd_ge
    rw [heapEnd, sizeofStructMem_eq] at hge
    rw [mallocSize, minSizeAligned_eq]
    split <;> omega
  obtain ⟨found, hscan, hsome, hnone⟩ := hb.mallocScan_spec hsize hs.lfree_mem
    (show h.heapEnd < h.lfree + (h.heapEnd + 1) by omega)
  rw [← mallocSize, hscan, Option.bind_some]
  cases found with
  | none => exact Or.inl ⟨rfl, Or.inr (Or.inr (hnone rfl))⟩
  | some c =>
      right
      obtain ⟨hc, hle, hbelow, hfits, hfirst⟩ := hsome c rfl
      have hce : c ≠ h.heapEnd := by
        rw [heapEnd]
        omega
      obtain ⟨h₁, cuts', hcarved, hroom, hram, hmemSize, hlfree, husedMem⟩ :=
        takeBlock_spec hb hc hce hfits haligned hmin
      obtain ⟨h', hres, hsound, husedBlocks, hkeeps, hroom', hmemSize', hlow⟩ :=
        hcarved.finish hs hc hce hle hfits.1 hroom hram hmemSize hlfree husedMem
      exact ⟨c, h', cuts', hres, hsound, hc, hfits, hle, hbelow, hfirst, husedBlocks, hkeeps,
        hroom', hmemSize', hlow⟩

/-! ## `rt_free` -/

/-- The block `c` is given back. -/
structure Freed (h : SmallMem) (cuts : Finset ℕ) (c : ℕ) (h' : SmallMem) (cuts' : Finset ℕ) :
    Prop where
  sound : h'.Sound cuts'
  usedBlocks_eq : h'.usedBlocks cuts' = (h.usedBlocks cuts).erase c
  keeps : Keeps ((h.usedBlocks cuts).erase c) h h'
  memSizeAligned_eq : h'.memSizeAligned = h.memSizeAligned
  lowestFree : h.LowestFree cuts → h'.LowestFree cuts'

/-- `rt_free` once the header of `c` has been cleared. -/
theorem Sound.plug_freed {h₁ : SmallMem} (hs : h.Sound cuts) (hc : c ∈ h.usedBlocks cuts)
    (hram : ∀ x, h₁.ram x = if x = c then 0 else h.ram x)
    (hmemSize : h₁.memSizeAligned = h.memSizeAligned)
    (hlfree : h₁.lfree = if c < h.lfree then c else h.lfree)
    (husedMem : h₁.usedMem = subSize h.usedMem (subSize (h.next c) c)) :
    ∃ h' cuts', h₁.plugHoles c = some h' ∧ Freed h cuts c h' cuts' := by
  have hb := hs.toHeaders
  obtain ⟨hmem, hce, hcused⟩ := mem_usedBlocks.mp hc
  obtain ⟨hheaders, hnext, hused, hdata⟩ := hb.relabel hmem hce hram hmemSize (by decide)
  rw [Nat.zero_div] at hused
  have hend : h₁.heapEnd = h.heapEnd := by rw [heapEnd, hmemSize, heapEnd]
  have hclt := hb.tiling.lt_stop hmem hce
  have hcfree : h₁.used c = 0 := by rw [hused c hmem, if_pos rfl]
  have hlf : h₁.lfree ∈ cuts ∧ h₁.lfree ≠ h₁.heapEnd ∧ h₁.used h₁.lfree = 0 := by
    rw [hlfree, hend]
    split
    · exact ⟨hmem, hce, hcfree⟩
    · rename_i hle
      have hne : h.lfree ≠ h.heapEnd := by omega
      refine ⟨hs.lfree_mem, hne, ?_⟩
      rw [hused _ hs.lfree_mem]
      split
      · rfl
      · exact hs.lfree_free hne
  have hblocks : h₁.Blocks cuts := ⟨hheaders, hlf.1, fun _ => hlf.2.2⟩
  have hco : h₁.CoalescedBut cuts c := by
    intro d hd hde hdc hdn hdfree
    rw [hend] at hde
    rw [hnext d hd] at hdn ⊢
    rw [hused d hd, if_neg hdc] at hdfree
    rw [hused _ (hb.tiling.next_mem d hd hde), if_neg hdn]
    exact hs.coalesced d hd hde hdfree
  have husedBlocks : h₁.usedBlocks cuts = (h.usedBlocks cuts).erase c := by
    ext d
    rw [Finset.mem_erase, mem_usedBlocks, mem_usedBlocks, hend]
    constructor
    · rintro ⟨hd, hde, hdused⟩
      rw [hused d hd] at hdused
      split at hdused
      · exact absurd rfl hdused
      · exact ⟨‹d ≠ c›, hd, hde, hdused⟩
    · rintro ⟨hdc, hd, hde, hdused⟩
      exact ⟨hd, hde, by rwa [hused d hd, if_neg hdc]⟩
  have hkeeps : Keeps ((h.usedBlocks cuts).erase c) h h₁ := by
    intro d hd
    have hdmem := (mem_usedBlocks.mp (Finset.mem_of_mem_erase hd)).1
    exact ⟨hnext d hdmem, hdata d hdmem⟩
  obtain ⟨h', cuts', hplug, hmerged, hco'⟩ :=
    plugHoles_spec hblocks hmem (hend ▸ hce) hcfree hco
  have hall := hkeeps.trans (husedBlocks ▸ hmerged.keeps)
  refine ⟨h', cuts', hplug, ⟨hmerged.blocks, hco', ?_, ?_⟩,
    hmerged.usedBlocks_eq.trans husedBlocks, hall, hmerged.memSizeAligned_eq.trans hmemSize, ?_⟩
  · rw [hmerged.usedBlocks_eq, husedBlocks, hall.sum_eq, hmerged.usedMem_eq, husedMem,
      (hb.subSize_next hmem hce).2, hs.usedMem_eq]
    have hsum := hb.sum_le (subset_refl (h.usedBlocks cuts))
    have hlt := hb.heapEnd_lt
    rw [← Finset.add_sum_erase _ _ hc] at hsum ⊢
    rw [subSize_eq (by omega) (by omega)]
    omega
  · exact fun heq => absurd heq (hmerged.lfree_ne_end hlf.2.1)
  · intro hlow
    apply hmerged.lowestFree
    intro d hd hde hdfree
    rw [hend] at hde
    rw [hused d hd] at hdfree
    rw [hlfree]
    split at hdfree
    · split <;> omega
    · have hle := hlow d hd hde hdfree
      split <;> omega

theorem countFreed_spec (h : SmallMem) (n : ℕ) :
    (h.countFreed n).ram = h.ram ∧ (h.countFreed n).lfree = h.lfree ∧
      (h.countFreed n).memSizeAligned = h.memSizeAligned ∧
      (h.countFreed n).usedMem = subSize h.usedMem n := by
  cases h
  exact ⟨rfl, rfl, rfl, rfl⟩

theorem clearHeader_spec (h : SmallMem) (c : ℕ) :
    (∀ x, (clearHeader h c).ram x = if x = c then 0 else h.ram x) ∧
      (clearHeader h c).lfree = (if c < h.lfree then c else h.lfree) ∧
      (clearHeader h c).memSizeAligned = h.memSizeAligned ∧
      (clearHeader h c).usedMem = h.usedMem := by
  have hword : ∀ x, ((h.setUsed c 0).setMagic c 0).ram x = if x = c then 0 else h.ram x := by
    intro x
    have hzero := used_setUsed h c 0 c
    rw [if_pos rfl] at hzero
    rw [setMagic, ram_store, hzero]
    split
    · rfl
    · rename_i hx
      rw [setUsed, ram_store, if_neg hx]
  have hlfree : ((h.setUsed c 0).setMagic c 0).lfree = h.lfree := rfl
  unfold clearHeader
  dsimp only
  rw [hlfree]
  split
  · exact ⟨hword, rfl, rfl, rfl⟩
  · exact ⟨hword, rfl, rfl, rfl⟩

theorem rtFree_spec (hs : h.Sound cuts) (hc : c ∈ h.usedBlocks cuts) :
    ∃ h' cuts', rtFree h (c + 16) = some h' ∧ Freed h cuts c h' cuts' := by
  have hb := hs.toHeaders
  obtain ⟨hmem, hce, hcused⟩ := mem_usedBlocks.mp hc
  have haligned := hb.aligned c hmem
  have hgap := hb.tiling.gap_le c hmem hce
  have hinside : c + 16 < h.heapEnd := by
    rcases eq_or_ne (h.next c) h.heapEnd with heq | hne
    · have hroom := hb.last_room c hmem hce heq
      omega
    · have hlt := hb.tiling.lt_stop (hb.tiling.next_mem c hmem hce) hne
      omega
  have hmagic := hb.magic_used c hmem hce hcused
  rw [rtFree, rtAlignSize_eq, sizeofStructMem_eq, if_pos ⟨by omega, by omega, hinside⟩]
  dsimp only
  rw [Nat.add_sub_cancel, if_pos ⟨hcused, hmagic⟩]
  obtain ⟨hram, hlfree, hmemSize, husedMem⟩ := clearHeader_spec h c
  have hnext : (clearHeader h c).next c = h.next c := by
    rw [next, hram, if_neg (by omega), next]
  rw [hnext]
  obtain ⟨hram', hlfree', hmemSize', husedMem'⟩ :=
    countFreed_spec (clearHeader h c) (subSize (h.next c) c)
  apply hs.plug_freed hc
  · intro x
    rw [hram', hram]
  · rw [hmemSize', hmemSize]
  · rw [hlfree', hlfree]
  · rw [husedMem', husedMem]

/-! ## Writes into the blocks -/

/-- What is in a block does not matter to the heap. -/
theorem Sound.write (hs : h.Sound cuts) (hc : c ∈ cuts)
    (hram : ∀ x, x < c + 16 ∨ h.next c ≤ x → h'.ram x = h.ram x)
    (hmemSize : h'.memSizeAligned = h.memSizeAligned) (hlfree : h'.lfree = h.lfree)
    (husedMem : h'.usedMem = h.usedMem) :
    h'.Sound cuts ∧ h'.usedBlocks cuts = h.usedBlocks cuts ∧
      (∀ d ∈ cuts, h'.next d = h.next d) ∧ Keeps ((h.usedBlocks cuts).erase c) h h' := by
  have hend : h'.heapEnd = h.heapEnd := by rw [heapEnd, hmemSize, heapEnd]
  have hheader : ∀ x, (∃ c ∈ cuts, c ≤ x ∧ x < c + 12) → h'.ram x = h.ram x := by
    rintro x ⟨d, hd, hlow, hhigh⟩
    apply hram
    rcases Nat.lt_trichotomy c d with hlt | rfl | hgt
    · have hle := hs.tiling.next_le c hc d hd hlt
      omega
    · omega
    · have hle := hs.tiling.apart hd hc hgt
      omega
  obtain ⟨hheaders, hnext, hused⟩ := hs.toHeaders.congr hheader hmemSize
  have husedBlocks : h'.usedBlocks cuts = h.usedBlocks cuts := by
    ext d
    rw [mem_usedBlocks, mem_usedBlocks, hend]
    exact and_congr_right fun hd => by rw [hused d hd]
  refine ⟨⟨⟨hheaders, hlfree ▸ hs.lfree_mem, ?_⟩, ?_, ?_, ?_⟩, husedBlocks, hnext, ?_⟩
  · rw [hlfree, hend, hused _ hs.lfree_mem]
    exact hs.lfree_free
  · intro d hd hde hdfree
    rw [hend] at hde
    rw [hused d hd] at hdfree
    rw [hnext d hd, hused _ (hs.tiling.next_mem d hd hde)]
    exact hs.coalesced d hd hde hdfree
  · rw [husedMem, hs.usedMem_eq, husedBlocks]
    exact Finset.sum_congr rfl fun d hd => by rw [hnext d (mem_usedBlocks.mp hd).1]
  · rw [hlfree, hend, husedBlocks]
    exact hs.lfree_end
  · intro d hd
    obtain ⟨hdc, hd⟩ := Finset.mem_erase.mp hd
    obtain ⟨hd, hde, _⟩ := mem_usedBlocks.mp hd
    refine ⟨hnext d hd, fun x hlow hhigh => hram x ?_⟩
    rcases hs.tiling.disjoint hd hc hdc with hle | hle <;> omega

/-! ## `rt_realloc` -/

/-- The block `c` has `n` bytes or more and still holds what fits. -/
structure Resized (h : SmallMem) (cuts : Finset ℕ) (c n : ℕ) (h' : SmallMem) (cuts' : Finset ℕ) :
    Prop where
  sound : h'.Sound cuts'
  usedBlocks_eq : h'.usedBlocks cuts' = h.usedBlocks cuts
  keeps : Keeps ((h.usedBlocks cuts).erase c) h h'
  room : c + 16 + n ≤ h'.next c
  data : ∀ x, c + 16 ≤ x → x < h'.next c → h'.ram x = h.ram x
  memSizeAligned_eq : h'.memSizeAligned = h.memSizeAligned

/-- The block `b` of `n` bytes or more has replaced the block `c` and holds what it held. -/
structure Moved (h : SmallMem) (cuts : Finset ℕ) (c n b : ℕ) (h' : SmallMem)
    (cuts' : Finset ℕ) : Prop where
  sound : h'.Sound cuts'
  fresh : b ∉ h.usedBlocks cuts
  usedBlocks_eq : h'.usedBlocks cuts' = insert b ((h.usedBlocks cuts).erase c)
  keeps : Keeps ((h.usedBlocks cuts).erase c) h h'
  room : b + 16 + n ≤ h'.next b
  data : ∀ x, x < n → c + 16 + x < h.next c → h'.ram (b + 16 + x) = h.ram (c + 16 + x)
  memSizeAligned_eq : h'.memSizeAligned = h.memSizeAligned

/-- A word inside the block `c` is written: the magic number of the header to come. -/
theorem Sound.marked {h₂ : SmallMem} (hs : h.Sound cuts) (hc : c ∈ cuts) (hcm : c + 16 ≤ m)
    (hmn : m < h.next c) (hram : ∀ x, x ≠ m → h₂.ram x = h.ram x)
    (hmemSize : h₂.memSizeAligned = h.memSizeAligned) :
    h₂.Headers cuts ∧ (∀ d ∈ cuts, h₂.next d = h.next d) ∧ ∀ d ∈ cuts, h₂.used d = h.used d := by
  apply hs.toHeaders.congr _ hmemSize
  rintro x ⟨d, hd, hlow, hhigh⟩
  have hside := hs.toHeaders.data_clear hc hd hcm hmn
  exact hram x (by omega)

/-- The part of `rt_realloc` that gives back the end of a block. -/
theorem Sound.shrink {h₂ : SmallMem} (hs : h.Sound cuts) (hc : c ∈ h.usedBlocks cuts)
    (hn : n % 8 = 0) (hfit : c + 16 + n + 32 ≤ h.next c)
    (hram : ∀ x, x ≠ c + 16 + n → h₂.ram x = h.ram x)
    (hmemSize : h₂.memSizeAligned = h.memSizeAligned) (hlfree : h₂.lfree = h.lfree)
    (husedMem : h₂.usedMem = subSize h.usedMem (h.next c - (c + 16) - n)) :
    ∃ h' cuts', (h₂.split c (c + 16 + n)).plugHoles (c + 16 + n) = some h' ∧
      Resized h cuts c n h' cuts' := by
  obtain ⟨hmem, hce, hcused⟩ := mem_usedBlocks.mp hc
  have hend₂ : h₂.heapEnd = h.heapEnd := by rw [heapEnd, hmemSize, heapEnd]
  have hmc := hs.aligned c hmem
  have hcle := hs.tiling.next_le_stop hmem hce
  obtain ⟨hheaders, hnext, hused⟩ :=
    hs.marked (m := c + 16 + n) hmem (by omega) (by omega) hram hmemSize
  have husedBlocks : h₂.usedBlocks cuts = h.usedBlocks cuts := by
    ext d
    rw [mem_usedBlocks, mem_usedBlocks, hend₂]
    exact and_congr_right fun hd => by rw [hused d hd]
  obtain ⟨hheaders₃, husedBlocks₃, hnext₃, hused₃, hnext_m, hused_m, hdata₃⟩ :=
    hheaders.split hmem (hend₂ ▸ hce) (m := c + 16 + n) (by omega) (by omega)
      (by rw [hnext c hmem]; omega)
  have hend₃ : (h₂.split c (c + 16 + n)).heapEnd = h.heapEnd := (heapEnd_split ..).trans hend₂
  have hlfree₃ := (lfree_split h₂ c (c + 16 + n)).trans hlfree
  have hmemSize₃ := (memSizeAligned_split h₂ c (c + 16 + n)).trans hmemSize
  have husedMem₃ := (usedMem_split h₂ c (c + 16 + n)).trans husedMem
  generalize h₂.split c (c + 16 + n) = h₃ at *
  have hblocks₃ : h₃.Blocks (insert (c + 16 + n) cuts) := by
    refine ⟨hheaders₃, hlfree₃ ▸ Finset.mem_insert_of_mem hs.lfree_mem, ?_⟩
    rw [hlfree₃, hend₃, hused₃ _ hs.lfree_mem, hused _ hs.lfree_mem]
    exact hs.lfree_free
  have hco : h₃.CoalescedBut (insert (c + 16 + n) cuts) (c + 16 + n) := by
    intro d hd hde hdm hdn hdfree
    rw [hend₃] at hde
    have hd : d ∈ cuts := (Finset.mem_insert.mp hd).resolve_left hdm
    rw [hused₃ d hd, hused d hd] at hdfree
    have hdc : d ≠ c := fun heq => hcused (heq ▸ hdfree)
    rw [hnext₃ d hd, if_neg hdc, hnext d hd]
    rw [hused₃ _ (hs.tiling.next_mem d hd hde), hused _ (hs.tiling.next_mem d hd hde)]
    exact hs.coalesced d hd hde hdfree
  obtain ⟨h', cuts', hplug, hmerged, hco'⟩ := plugHoles_spec hblocks₃
    (Finset.mem_insert_self ..) (by rw [hend₃]; omega) hused_m hco
  have hblocks' : h'.usedBlocks cuts' = h.usedBlocks cuts :=
    (hmerged.usedBlocks_eq.trans husedBlocks₃).trans husedBlocks
  have hkeep₃ : Keeps ((h.usedBlocks cuts).erase c) h h₃ := by
    intro d hd
    obtain ⟨hdc, hd⟩ := Finset.mem_erase.mp hd
    have hdmem := (mem_usedBlocks.mp hd).1
    refine ⟨by rw [hnext₃ d hdmem, if_neg hdc, hnext d hdmem], fun x hlow hhigh => ?_⟩
    rw [hdata₃ d (husedBlocks ▸ hd) x hlow (hnext d hdmem ▸ hhigh) fun heq => absurd heq hdc]
    apply hram
    rcases hs.tiling.disjoint hdmem hmem hdc with hle | hle <;> omega
  have hmkeeps : Keeps (h.usedBlocks cuts) h₃ h' := by
    rw [← husedBlocks, ← husedBlocks₃]
    exact hmerged.keeps
  have hkeep' := hkeep₃.trans (hmkeeps.mono (Finset.erase_subset ..))
  have hnext' : h'.next c = c + 16 + n := by
    rw [(hmkeeps c hc).1, hnext₃ c hmem, if_pos rfl]
  refine ⟨h', cuts', hplug, ⟨⟨hmerged.blocks, hco', ?_, fun _ => hblocks' ▸ ⟨c, hc⟩⟩, hblocks',
    hkeep', hnext'.ge, ?_, hmerged.memSizeAligned_eq.trans hmemSize₃⟩⟩
  · rw [hblocks', hmerged.usedMem_eq, husedMem₃, ← Finset.add_sum_erase _ _ hc, hkeep'.sum_eq,
      hnext', hs.usedMem_eq, ← Finset.add_sum_erase _ _ hc]
    have hsum := hs.toHeaders.sum_le (Finset.erase_subset c (h.usedBlocks cuts))
    have htotal := hs.toHeaders.sum_le (subset_refl (h.usedBlocks cuts))
    rw [← Finset.add_sum_erase _ _ hc] at htotal
    have hlt := hs.heapEnd_lt
    rw [subSize_eq (by omega) (by omega)]
    omega
  · intro x hlow hhigh
    rw [hnext'] at hhigh
    have hx₃ : x < h₃.next c := by rw [hnext₃ c hmem, if_pos rfl]; exact hhigh
    rw [(hmkeeps c hc).2 x hlow hx₃, hdata₃ c (husedBlocks ▸ hc) x hlow
      (by rw [hnext c hmem]; omega) fun _ => hhigh]
    exact hram x (by omega)

theorem Sound.shrink_setMagic {h₁ : SmallMem} (hs : h.Sound cuts) (hc : c ∈ h.usedBlocks cuts)
    (hn : n % 8 = 0) (hfit : c + 16 + n + 32 ≤ h.next c) (hram : h₁.ram = h.ram)
    (hmemSize : h₁.memSizeAligned = h.memSizeAligned) (hlfree : h₁.lfree = h.lfree)
    (husedMem : h₁.usedMem = subSize h.usedMem (h.next c - (c + 16) - n)) :
    ∃ h' cuts', ((h₁.setMagic (c + 16 + n) heapMagic).split c (c + 16 + n)).plugHoles
        (c + 16 + n) = some h' ∧ Resized h cuts c n h' cuts' := by
  apply hs.shrink hc hn hfit
  · intro x hx
    rw [setMagic, ram_store, if_neg hx, hram]
  · exact hmemSize
  · exact hlfree
  · exact husedMem

theorem Malloced.move {n : ℕ} (hs : h.Sound cuts) (hc : c ∈ h.usedBlocks cuts) {b : ℕ}
    {h₁ : SmallMem} (hm : Malloced h cuts n b h₁ cuts') (hn : n % 8 = 0) (hlt : n < 2 ^ 32) :
    ∃ h' cuts'', rtFree (h₁.copy (b + 16) (c + 16)
        (if h.next c - c - 16 < n then h.next c - c - 16 else n)) (c + 16) = some h' ∧
      Moved h cuts c n b h' cuts'' := by
  have hfresh : b ∉ h.usedBlocks cuts := fun hb => (mem_usedBlocks.mp hb).2.2 hm.fits.1
  have hbused : b ∈ h₁.usedBlocks cuts' := hm.usedBlocks_eq ▸ Finset.mem_insert_self ..
  have hcused : c ∈ h₁.usedBlocks cuts' := hm.usedBlocks_eq ▸ Finset.mem_insert_of_mem hc
  have hbc : b ≠ c := fun heq => hfresh (heq ▸ hc)
  obtain ⟨hbmem, hbe, _⟩ := mem_usedBlocks.mp hbused
  have hcmem := (mem_usedBlocks.mp hcused).1
  obtain ⟨hcnext, hcdata⟩ := hm.keeps c hc
  have hgap := hs.tiling.gap_le c (mem_usedBlocks.mp hc).1 (mem_usedBlocks.mp hc).2.1
  have hroom : b + 16 + n ≤ h₁.next b := by
    have hlarge := (mallocSize_spec n).2.2
    have hself : rtAlign n = n := by
      simp only [rtAlign, rtAlignSize_eq]
      omega
    have := hm.room
    omega
  have hcopy : ∀ x, (h₁.copy (b + 16) (c + 16)
      (if h.next c - c - 16 < n then h.next c - c - 16 else n)).ram x =
      if b + 16 ≤ x ∧ x < b + 16 + (if h.next c - c - 16 < n then h.next c - c - 16 else n) then
        h₁.ram (c + 16 + (x - (b + 16))) else h₁.ram x := fun _ => rfl
  have hmin : (if h.next c - c - 16 < n then h.next c - c - 16 else n) ≤ n ∧
      (if h.next c - c - 16 < n then h.next c - c - 16 else n) ≤ h.next c - c - 16 ∧
      ∀ x, x < n → c + 16 + x < h.next c →
        x < (if h.next c - c - 16 < n then h.next c - c - 16 else n) := by
    split
    · exact ⟨by omega, le_rfl, fun x _ hx => by omega⟩
    · exact ⟨le_rfl, by omega, fun x hx _ => hx⟩
  generalize (if h.next c - c - 16 < n then h.next c - c - 16 else n) = k at hcopy hmin ⊢
  obtain ⟨hkn, hkc, hk⟩ := hmin
  have hout : ∀ x, x < b + 16 ∨ h₁.next b ≤ x →
      (h₁.copy (b + 16) (c + 16) k).ram x = h₁.ram x := by
    intro x hx
    rw [hcopy, if_neg (by omega)]
  obtain ⟨hsound₂, husedBlocks₂, hnext₂, hkeeps₂⟩ := hm.sound.write hbmem hout rfl rfl rfl
  obtain ⟨h', cuts'', hfree, hfreed⟩ := rtFree_spec hsound₂ (husedBlocks₂ ▸ hcused)
  have hall : (h₁.copy (b + 16) (c + 16) k).usedBlocks cuts' = insert b (h.usedBlocks cuts) :=
    husedBlocks₂.trans hm.usedBlocks_eq
  have hkeep : Keeps ((h.usedBlocks cuts).erase c) h h' := by
    have hsub : (h.usedBlocks cuts).erase c ⊆ (h₁.usedBlocks cuts').erase b := by
      intro d hd
      obtain ⟨_, hd⟩ := Finset.mem_erase.mp hd
      exact Finset.mem_erase.mpr
        ⟨fun heq => hfresh (heq ▸ hd), hm.usedBlocks_eq ▸ Finset.mem_insert_of_mem hd⟩
    have hsub' : (h.usedBlocks cuts).erase c ⊆
        ((h₁.copy (b + 16) (c + 16) k).usedBlocks cuts').erase c := by
      rw [hall]
      exact Finset.erase_subset_erase c (Finset.subset_insert ..)
    exact ((hm.keeps.mono (Finset.erase_subset ..)).trans (hkeeps₂.mono hsub)).trans
      (hfreed.keeps.mono hsub')
  have hbkeep : b ∈ ((h₁.copy (b + 16) (c + 16) k).usedBlocks cuts').erase c := by
    rw [hall]
    exact Finset.mem_erase.mpr ⟨hbc, Finset.mem_insert_self ..⟩
  obtain ⟨hbnext, hbdata⟩ := hfreed.keeps b hbkeep
  refine ⟨h', cuts'', hfree, hfreed.sound, hfresh, ?_, hkeep, ?_, ?_,
    hfreed.memSizeAligned_eq.trans hm.memSizeAligned_eq⟩
  · rw [hfreed.usedBlocks_eq, hall, Finset.erase_insert_of_ne hbc]
  · rw [hbnext, hnext₂ b hbmem]
    exact hroom
  · intro x hxn hxc
    have hxk := hk x hxn hxc
    rw [hbdata _ (by omega) (by rw [hnext₂ b hbmem]; omega), hcopy, if_pos ⟨by omega, by omega⟩,
      Nat.add_sub_cancel_left]
    exact hcdata _ (by omega) hxc

/-- `rt_realloc` of a block in use, with the sizes as differences. -/
theorem rtRealloc_eq (hs : h.Sound cuts) (hc : c ∈ h.usedBlocks cuts) (newsize : ℕ) :
    rtRealloc h (some (c + 16)) newsize =
      if h.memSizeAligned < rtAlign newsize then some (none, h)
      else if h.next c - c - 16 = rtAlign newsize then some (some (c + 16), h)
      else if rtAlign newsize + 28 < h.next c - c - 16 then
        ((((h.countFreed (h.next c - (c + 16) - rtAlign newsize)).setMagic
          (c + 16 + rtAlign newsize) heapMagic).split c (c + 16 + rtAlign newsize)).plugHoles
          (c + 16 + rtAlign newsize)).map fun h => (some (c + 16), h)
      else (rtMalloc h (rtAlign newsize)).bind fun r =>
        match r with
        | (none, h) => some (none, h)
        | (some nmem, h') =>
            (rtFree (h'.copy nmem (c + 16) (if h.next c - c - 16 < rtAlign newsize
              then h.next c - c - 16 else rtAlign newsize)) (c + 16)).map
              fun h => (some nmem, h) := by
  obtain ⟨hmem, hce, hcused⟩ := mem_usedBlocks.mp hc
  have hb := hs.toHeaders
  have hlt := hb.heapEnd_lt
  have hgap := hb.tiling.gap_le c hmem hce
  have hcle := hb.tiling.next_le_stop hmem hce
  have hinside : ¬ h.heapEnd ≤ c + 16 := by
    rcases eq_or_ne (h.next c) h.heapEnd with heq | hne
    · have hroom := hb.last_room c hmem hce heq
      omega
    · have hnlt := hb.tiling.lt_stop (hb.tiling.next_mem c hmem hce) hne
      omega
  have hsize : subSize (subSize (h.next c) c) 16 = h.next c - c - 16 := by
    rw [(hb.subSize_next hmem hce).2, subSize_eq (by omega) (by omega)]
  unfold rtRealloc
  dsimp only
  rw [if_neg hinside, sizeofStructMem_eq, Nat.add_sub_cancel, hsize, minSize]
  generalize rtAlign newsize = n
  by_cases hshrink : n + 28 < h.next c - c - 16
  · have hsub : subSize (h.next c - c - 16) n = h.next c - (c + 16) - n := by
      rw [subSize_eq (by omega) (by omega), Nat.sub_sub (h.next c)]
    rewrite [hsub, Nat.add_assoc n]
    rfl
  · rewrite [Nat.add_assoc n, if_neg hshrink, if_neg hshrink]
    rfl

theorem rtRealloc_spec (hs : h.Sound cuts) (hc : c ∈ h.usedBlocks cuts) (newsize : ℕ) :
    rtRealloc h (some (c + 16)) newsize = some (none, h) ∨
      (∃ h' cuts', rtRealloc h (some (c + 16)) newsize = some (some (c + 16), h') ∧
        Resized h cuts c (rtAlign newsize) h' cuts') ∨
      ∃ b h' cuts', rtRealloc h (some (c + 16)) newsize = some (some (b + 16), h') ∧
        Moved h cuts c (rtAlign newsize) b h' cuts' := by
  obtain ⟨hmem, hce, _⟩ := mem_usedBlocks.mp hc
  have hgap := hs.tiling.gap_le c hmem hce
  have hca := hs.aligned c hmem
  have hna := hs.aligned _ (hs.tiling.next_mem c hmem hce)
  have halign : rtAlign newsize % 8 = 0 := Nat.mul_mod_left ..
  have hsmall : rtAlign newsize < 2 ^ 32 := by
    simp only [rtAlign, rtAlignSize_eq]
    omega
  rw [rtRealloc_eq hs hc]
  generalize rtAlign newsize = n at halign hsmall ⊢
  split
  · exact Or.inl rfl
  split
  · rename_i heq
    refine Or.inr (Or.inl ⟨h, cuts, rfl, hs, rfl, fun _ _ => ⟨rfl, fun _ _ _ => rfl⟩, ?_,
      fun _ _ _ => rfl, rfl⟩)
    omega
  split
  · right
    left
    obtain ⟨hram, hlfree, hmemSize, husedMem⟩ := countFreed_spec h (h.next c - (c + 16) - n)
    obtain ⟨h', cuts', hplug, hresized⟩ :=
      hs.shrink_setMagic hc halign (by omega) hram hmemSize hlfree husedMem
    refine ⟨h', cuts', ?_, hresized⟩
    rw [hplug]
    rfl
  · rcases rtMalloc_spec hs n with ⟨hnull, _⟩ | ⟨b, h₁, cuts', hmalloc, hm⟩
    · left
      rw [hnull]
      rfl
    · right
      right
      obtain ⟨h', cuts'', hfree, hmoved⟩ := hm.move hs hc halign hsmall
      refine ⟨b, h', cuts'', ?_, hmoved⟩
      rw [hmalloc, Option.bind_some]
      dsimp only
      rw [hfree]
      rfl

/-! ## Where the end of a block goes -/

end SmallMem

end TdPrinter
