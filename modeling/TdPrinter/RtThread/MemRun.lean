import TdPrinter.Foundation.Machine
import TdPrinter.RtThread.MemOps

/-!
# Runs of the system heap

`memMachine` runs `rt_malloc`, `rt_free`, `rt_realloc` and the writes of their callers in any order.
Beside the memory it keeps what the callers believe in: the objects they have been given, the sizes
they asked for, and the last word written to every place of an object since.

* `heap_objects`: the objects never overlap, and each holds what its owner has written, whatever
  the other calls did in between.  No assertion fails, and no loop runs on.
* `heap_accounts`: `used_mem` is the sum of the blocks in use; free neighbours are always joined;
  and when everything has been given back the heap is the one free block that it was at boot.
* `rtMalloc_null_iff`: when `rt_malloc` returns `RT_NULL`, and which block it takes otherwise.
-/

namespace TdPrinter

open SmallMem

/-- What a caller knows about a block: the size it has asked for, and the words it has written. -/
structure Object where
  size : ℕ
  words : ℕ → Option ℕ

/-- The heap and the objects in it, by their addresses. -/
structure MemRun where
  heap : SmallMem
  objects : ℕ → Option Object

/-- A call, or a write of the word `i` of the object at `p`. -/
inductive MemAction
  | malloc (size : ℕ)
  | free (p : ℕ)
  | realloc (p newsize : ℕ)
  | store (p i w : ℕ)

namespace MemRun

/-- `rt_malloc` has returned. -/
def malloced (s : MemRun) (size : ℕ) : Option ℕ × SmallMem → MemRun
  | (none, h) => ⟨h, s.objects⟩
  | (some p, h) => ⟨h, Function.update s.objects p (some ⟨size, fun _ => none⟩)⟩

/-- `rt_realloc` of the object `o` at `p` has returned. -/
def realloced (s : MemRun) (p : ℕ) (o : Object) (newsize : ℕ) : Option ℕ × SmallMem → MemRun
  | (none, h) => ⟨h, s.objects⟩
  | (some q, h) =>
      ⟨h, Function.update (Function.update s.objects p none) q
        (some ⟨newsize, fun i => if 4 * i + 4 ≤ newsize then o.words i else none⟩)⟩

/-- The owner of the object `o` at `p` has written a word. -/
def stored (s : MemRun) (p : ℕ) (o : Object) (i w : ℕ) : MemRun :=
  ⟨s.heap.store (p + 4 * i) w,
    Function.update s.objects p (some { o with words := Function.update o.words i (some w) })⟩

end MemRun

/-- The heap with its callers.  They free and resize only what they own, and write only within. -/
def memMachine : Machine MemRun MemAction where
  step s
    | .malloc size => (rtMalloc s.heap size).map (s.malloced size)
    | .free p =>
        if (s.objects p).isSome then
          (rtFree s.heap p).map fun h => ⟨h, Function.update s.objects p none⟩
        else none
    | .realloc p newsize =>
        (s.objects p).bind fun o =>
          (rtRealloc s.heap (some p) newsize).map (s.realloced p o newsize)
    | .store p i w =>
        (s.objects p).bind fun o => if 4 * i + 4 ≤ o.size then some (s.stored p o i w) else none

/-- The size of a request is not one of the last seven before 2 ^ 32, which `RT_ALIGN` wraps. -/
def MemAction.Sane : MemAction → Prop
  | .malloc size => size + 7 < 2 ^ 32
  | .realloc _ newsize => newsize + 7 < 2 ^ 32
  | _ => True

def MemRun.Legal (s : MemRun) : MemAction → Prop
  | .malloc _ => True
  | .free p => (s.objects p).isSome
  | .realloc p _ => (s.objects p).isSome
  | .store p i _ => ∃ o, s.objects p = some o ∧ 4 * i + 4 ≤ o.size

/-- A heap of at least 48 bytes, just initialised. -/
def MemRun.Boot (s : MemRun) : Prop :=
  (∀ p, s.objects p = none) ∧ 16 ≤ s.heap.memSizeAligned ∧
    ∃ ram beginAddr endAddr, endAddr < 2 ^ 32 ∧
      rtSystemHeapInit ram beginAddr endAddr = some s.heap

structure MemRun.Intact (s : MemRun) : Prop where
  inside : ∀ p o, s.objects p = some o →
    sizeofStructMem ≤ p ∧ p % rtAlignSize = 0 ∧ p + o.size ≤ s.heap.heapEnd
  disjoint : ∀ p q o o', s.objects p = some o → s.objects q = some o' → p ≠ q →
    p + o.size + sizeofStructMem ≤ q ∨ q + o'.size + sizeofStructMem ≤ p
  words : ∀ p o i w, s.objects p = some o → o.words i = some w → s.heap.ram (p + 4 * i) = w

/-! ## The invariant -/

structure MemRun.Inv (s : MemRun) (cuts : Finset ℕ) : Prop where
  sound : s.heap.Sound cuts
  owned : ∀ c, c ∈ s.heap.usedBlocks cuts ↔ (s.objects (c + 16)).isSome
  header : ∀ p o, s.objects p = some o → 16 ≤ p
  room : ∀ c o, s.objects (c + 16) = some o → c + 16 + o.size ≤ s.heap.next c
  words : ∀ p o i w, s.objects p = some o → o.words i = some w →
    4 * i + 4 ≤ o.size ∧ s.heap.ram (p + 4 * i) = w

variable {s t : MemRun} {cuts : Finset ℕ}

namespace MemRun

theorem Inv.block (hs : s.Inv cuts) {p : ℕ} {o : Object} (hp : s.objects p = some o) :
    ∃ c, p = c + 16 ∧ c ∈ s.heap.usedBlocks cuts := by
  have hle := hs.header p o hp
  obtain ⟨c, rfl⟩ := Nat.exists_eq_add_of_le' hle
  exact ⟨c, rfl, (hs.owned c).mpr (by rw [hp]; rfl)⟩

end MemRun

/-! ## At boot -/

theorem firstHeaders_spec (ram : ℕ → ℕ) (m : ℕ) :
    let h := firstHeaders ⟨ram, 0, m, 0, 0⟩
    h.next 0 = m + 16 ∧ h.prev 0 = 0 ∧ h.used 0 = 0 ∧ h.used (m + 16) = 1 ∧
      h.memSizeAligned = m ∧ h.lfree = 0 ∧ h.usedMem = 0 := by
  intro h
  refine ⟨?_, ?_, ?_, ?_, rfl, rfl, rfl⟩
  · simp [h, firstHeaders, next, setPrev, setNext, setUsed, setMagic, heapEnd, store]
  · simp [h, firstHeaders, prev, setPrev, setNext, setUsed, setMagic, heapEnd, store]
  · simp [h, firstHeaders, used, magic, setPrev, setNext, setUsed, setMagic, heapEnd, store]
  · simp [h, firstHeaders, used, magic, setPrev, setNext, setUsed, setMagic, heapEnd, store]

theorem sound_of_single {h : SmallMem} (hnext : h.next 0 = h.heapEnd) (hprev : h.prev 0 = 0)
    (hfree : h.used 0 = 0) (hend : h.used h.heapEnd = 1) (hlfree : h.lfree = 0)
    (husedMem : h.usedMem = 0) (haligned : h.heapEnd % 8 = 0) (hroom : 32 ≤ h.heapEnd)
    (hlt : h.heapEnd < 2 ^ 32) :
    h.Sound {0, h.heapEnd} ∧ h.usedBlocks {0, h.heapEnd} = ∅ ∧ h.LowestFree {0, h.heapEnd} := by
  have hcuts : ∀ c ∈ ({0, h.heapEnd} : Finset ℕ), c ≠ h.heapEnd → c = 0 := by
    intro c hc hce
    simpa [hce] using hc
  have hnone : h.usedBlocks {0, h.heapEnd} = ∅ := by
    refine Finset.eq_empty_of_forall_notMem fun c hc => ?_
    obtain ⟨hmem, hce, hused⟩ := mem_usedBlocks.mp hc
    exact hused (hcuts c hmem hce ▸ hfree)
  refine ⟨⟨⟨⟨?_, ?_, ?_, ?_, ?_, hlt⟩, ?_, fun _ => hlfree ▸ hfree⟩, ?_, ?_, ?_⟩, hnone, ?_⟩
  · exact Tiling.single (by decide) (by omega) hnext hprev
  · intro c hc
    rcases eq_or_ne c h.heapEnd with rfl | hce
    · exact haligned
    · rw [hcuts c hc hce]
  · rw [hend]
    exact one_ne_zero
  · intro c hc hce hused
    exact absurd (hcuts c hc hce ▸ hfree) hused
  · intro c hc hce _
    rw [hcuts c hc hce]
    omega
  · rw [hlfree]
    exact Finset.mem_insert_self ..
  · intro c hc hce _
    rw [hcuts c hc hce, hnext, hend]
    exact one_ne_zero
  · rw [hnone, husedMem, Finset.sum_empty]
  · intro heq
    rw [hlfree] at heq
    omega
  · intro c _ _ _
    rw [hlfree]
    exact Nat.zero_le c

theorem rtSystemHeapInit_sound {ram : ℕ → ℕ} {beginAddr endAddr : ℕ} {h : SmallMem}
    (hinit : rtSystemHeapInit ram beginAddr endAddr = some h) (hend : endAddr < 2 ^ 32)
    (hroom : 16 ≤ h.memSizeAligned) :
    h.Sound {0, h.heapEnd} ∧ h.usedBlocks {0, h.heapEnd} = ∅ ∧ h.LowestFree {0, h.heapEnd} := by
  rw [rtSystemHeapInit] at hinit
  have hbegin : rtAlign beginAddr % 8 = 0 := Nat.mul_mod_left ..
  rw [rtAlignSize_eq, sizeofStructMem_eq] at hinit
  generalize rtAlign beginAddr = b at hinit hbegin
  split at hinit
  · rename_i hlarge
    obtain rfl := Option.some.inj hinit
    have hspec := firstHeaders_spec ram (endAddr / 8 * 8 - b - 2 * 16)
    have hsize : (endAddr / 8 * 8 - b - 2 * 16) % 8 = 0 ∧
        endAddr / 8 * 8 - b - 2 * 16 + 16 < 2 ^ 32 := by omega
    generalize endAddr / 8 * 8 - b - 2 * 16 = m at hspec hsize hroom ⊢
    obtain ⟨hnext, hprev, hfree, hlast, hmem, hlfree, husedMem⟩ := hspec
    generalize firstHeaders ⟨ram, 0, m, 0, 0⟩ = h at *
    have hheapEnd : h.heapEnd = m + 16 := by rw [heapEnd, hmem, sizeofStructMem_eq]
    rw [hmem] at hroom
    rw [← hheapEnd] at hnext hlast
    exact sound_of_single hnext hprev hfree hlast hlfree husedMem (by omega) (by omega) (by omega)
  · exact absurd hinit (by simp)

namespace MemRun

theorem Boot.inv (hs : s.Boot) :
    s.Inv {0, s.heap.heapEnd} ∧ s.heap.LowestFree {0, s.heap.heapEnd} := by
  obtain ⟨hobjects, hroom, ram, beginAddr, endAddr, hend, hinit⟩ := hs
  obtain ⟨hsound, hnone, hlow⟩ := rtSystemHeapInit_sound hinit hend hroom
  refine ⟨⟨hsound, ?_, ?_, ?_, ?_⟩, hlow⟩
  · intro c
    rw [hnone, hobjects]
    simp
  all_goals simp [hobjects]

/-! ## The steps -/

/-- The objects in blocks that a call has left alone. -/
theorem Inv.kept (hs : s.Inv cuts) {S : Finset ℕ} {h' : SmallMem} (hkeeps : Keeps S s.heap h')
    {d : ℕ} (hd : d ∈ S) {o : Object} (ho : s.objects (d + 16) = some o) :
    d + 16 + o.size ≤ h'.next d ∧
      ∀ i w, o.words i = some w → 4 * i + 4 ≤ o.size ∧ h'.ram (d + 16 + 4 * i) = w := by
  obtain ⟨hnext, hdata⟩ := hkeeps d hd
  have hroom := hs.room d o ho
  refine ⟨hnext ▸ hroom, fun i w hw => ?_⟩
  obtain ⟨hin, hram⟩ := hs.words _ o i w ho hw
  exact ⟨hin, by rw [hdata _ (by omega) (by omega), hram]⟩

/-- One object is put in the place of another, or added, or taken away; the others are kept. -/
theorem Inv.replace (hs : s.Inv cuts) {cuts' S : Finset ℕ} {h' : SmallMem}
    {objects : ℕ → Option Object} (hsound : h'.Sound cuts') (hkeeps : Keeps S s.heap h')
    (howned : ∀ c, c ∈ h'.usedBlocks cuts' ↔ (objects (c + 16)).isSome)
    (hobjects : ∀ p o, objects p = some o →
      (∃ c ∈ S, p = c + 16 ∧ s.objects p = some o) ∨
      ∃ b, p = b + 16 ∧ b + 16 + o.size ≤ h'.next b ∧
        ∀ i w, o.words i = some w → 4 * i + 4 ≤ o.size ∧ h'.ram (b + 16 + 4 * i) = w) :
    MemRun.Inv ⟨h', objects⟩ cuts' := by
  refine ⟨hsound, howned, ?_, ?_, ?_⟩
  · intro p o hp
    rcases hobjects p o hp with ⟨c, _, rfl, _⟩ | ⟨b, rfl, _⟩ <;> omega
  · intro d o ho
    rcases hobjects _ o ho with ⟨c, hc, heq, hold⟩ | ⟨b, heq, hroom, _⟩
    · obtain rfl : d = c := by omega
      exact (hs.kept hkeeps hc hold).1
    · obtain rfl : d = b := by omega
      exact hroom
  · intro p o i w ho hw
    rcases hobjects p o ho with ⟨c, hc, rfl, hold⟩ | ⟨b, rfl, _, hwords⟩
    · exact (hs.kept hkeeps hc hold).2 i w hw
    · exact hwords i w hw

/-- What a step leads to: the invariant, and the order of `lfree` if it was kept so far. -/
def Goes (s : MemRun) (cuts : Finset ℕ) (t : MemRun) : Prop :=
  ∃ cuts', t.Inv cuts' ∧ (s.heap.LowestFree cuts → t.heap.LowestFree cuts')

theorem update_owned {objects : ℕ → Option Object} {c d : ℕ} {o : Option Object} :
    (Function.update objects (c + 16) o (d + 16)).isSome ↔
      if d = c then o.isSome else (objects (d + 16)).isSome := by
  rw [Function.update_apply]
  rcases eq_or_ne d c with rfl | hne
  · rw [if_pos rfl, if_pos rfl]
  · rw [if_neg (by omega), if_neg hne]

theorem Inv.malloc (hs : s.Inv cuts) (size : ℕ) :
    ∃ r, rtMalloc s.heap size = some r ∧ (size + 7 < 2 ^ 32 → Goes s cuts (s.malloced size r)) := by
  rcases rtMalloc_spec hs.sound size with ⟨hnull, _⟩ | ⟨c, h', cuts', hres, hm⟩
  · exact ⟨_, hnull, fun _ => ⟨cuts, hs, id⟩⟩
  · refine ⟨_, hres, fun hsane => ⟨cuts', ?_, hm.lowestFree⟩⟩
    have hlarge : size ≤ mallocSize size := by
      refine le_trans ?_ (mallocSize_spec size).2.2
      simp only [rtAlign, rtAlignSize_eq]
      omega
    apply hs.replace hm.sound hm.keeps
    · intro d
      rw [hm.usedBlocks_eq, Finset.mem_insert, hs.owned, update_owned]
      split <;> simp [*]
    · intro p o hp
      rw [Function.update_apply] at hp
      split at hp
      · right
        obtain rfl := Option.some.inj hp
        refine ⟨c, ‹_›, ?_, fun i v h => absurd h.symm (Option.some_ne_none v)⟩
        have hroom := hm.room
        show c + 16 + size ≤ _
        omega
      · left
        obtain ⟨d, rfl, hd⟩ := hs.block hp
        exact ⟨d, hd, rfl, hp⟩

theorem Inv.free (hs : s.Inv cuts) {p : ℕ} (hp : (s.objects p).isSome) :
    ∃ h', rtFree s.heap p = some h' ∧ Goes s cuts ⟨h', Function.update s.objects p none⟩ := by
  obtain ⟨o, ho⟩ := Option.isSome_iff_exists.mp hp
  obtain ⟨c, rfl, hc⟩ := hs.block ho
  obtain ⟨h', cuts', hres, hf⟩ := rtFree_spec hs.sound hc
  refine ⟨h', hres, cuts', ?_, hf.lowestFree⟩
  apply hs.replace hf.sound hf.keeps
  · intro d
    rw [hf.usedBlocks_eq, Finset.mem_erase, hs.owned, update_owned]
    split <;> simp [*]
  · intro q o' hq
    rw [Function.update_apply] at hq
    split at hq
    · exact absurd hq (by simp)
    · left
      obtain ⟨d, rfl, hd⟩ := hs.block hq
      exact ⟨d, Finset.mem_erase.mpr ⟨by omega, hd⟩, rfl, hq⟩

theorem Inv.realloc (hs : s.Inv cuts) {p : ℕ} {o : Object} (newsize : ℕ)
    (ho : s.objects p = some o) :
    ∃ r, rtRealloc s.heap (some p) newsize = some r ∧
      (newsize + 7 < 2 ^ 32 → ∃ cuts', (s.realloced p o newsize r).Inv cuts') := by
  obtain ⟨c, rfl, hc⟩ := hs.block ho
  have hlarge : newsize + 7 < 2 ^ 32 → newsize ≤ rtAlign newsize := by
    intro hsane
    simp only [rtAlign, rtAlignSize_eq]
    omega
  have hroom := hs.room c o ho
  rcases rtRealloc_spec hs.sound hc newsize with
    hnull | ⟨h', cuts', hres, hr⟩ | ⟨b, h', cuts', hres, hm⟩
  · exact ⟨_, hnull, fun _ => ⟨cuts, hs⟩⟩
  · refine ⟨_, hres, fun hsane => ⟨cuts', ?_⟩⟩
    have hfit := hlarge hsane
    apply hs.replace hr.sound hr.keeps
    · intro d
      rw [hr.usedBlocks_eq, update_owned]
      split
      · rename_i heq
        simp [heq, hc]
      · rename_i hne
        rw [update_owned, if_neg hne]
        exact hs.owned d
    · intro q o' hq
      rw [Function.update_apply] at hq
      split at hq
      · right
        obtain rfl := Option.some.inj hq
        refine ⟨c, ‹_›, le_trans (by show c + 16 + newsize ≤ _; omega) hr.room, fun i w hw => ?_⟩
        dsimp only at hw
        split at hw
        · rename_i hin
          obtain ⟨_, hram⟩ := hs.words _ o i w ho hw
          have hend := hr.room
          exact ⟨hin, by rw [hr.data _ (by omega) (by omega), hram]⟩
        · exact absurd hw (by simp)
      · left
        rename_i hne
        rw [Function.update_of_ne hne] at hq
        obtain ⟨d, rfl, hd⟩ := hs.block hq
        exact ⟨d, Finset.mem_erase.mpr ⟨by omega, hd⟩, rfl, hq⟩
  · refine ⟨_, hres, fun hsane => ⟨cuts', ?_⟩⟩
    have hfit := hlarge hsane
    apply hs.replace hm.sound hm.keeps
    · intro d
      rw [hm.usedBlocks_eq, Finset.mem_insert, Finset.mem_erase, hs.owned, update_owned]
      split
      · simp [*]
      · rw [update_owned]
        split <;> simp_all
    · intro q o' hq
      rw [Function.update_apply] at hq
      split at hq
      · right
        obtain rfl := Option.some.inj hq
        refine ⟨b, ‹_›, le_trans (by show b + 16 + newsize ≤ _; omega) hm.room, fun i w hw => ?_⟩
        dsimp only at hw
        split at hw
        · rename_i hin
          obtain ⟨hold, hram⟩ := hs.words _ o i w ho hw
          exact ⟨hin, by rw [hm.data (4 * i) (by omega) (by omega), hram]⟩
        · exact absurd hw (by simp)
      · left
        rw [Function.update_apply] at hq
        split at hq
        · exact absurd hq (by simp)
        · obtain ⟨d, rfl, hd⟩ := hs.block hq
          exact ⟨d, Finset.mem_erase.mpr ⟨by omega, hd⟩, rfl, hq⟩

theorem Inv.store (hs : s.Inv cuts) {p i w : ℕ} {o : Object} (ho : s.objects p = some o)
    (hin : 4 * i + 4 ≤ o.size) : Goes s cuts (s.stored p o i w) := by
  obtain ⟨c, rfl, hc⟩ := hs.block ho
  have hcmem := (mem_usedBlocks.mp hc).1
  have hroom := hs.room c o ho
  have hram : ∀ x, (s.heap.store (c + 16 + 4 * i) w).ram x =
      if x = c + 16 + 4 * i then w else s.heap.ram x := ram_store _ _ _
  have hout : ∀ x, x < c + 16 ∨ s.heap.next c ≤ x →
      (s.heap.store (c + 16 + 4 * i) w).ram x = s.heap.ram x := by
    intro x hx
    rw [hram, if_neg (by omega)]
  obtain ⟨hsound, husedBlocks, hnext, hkeeps⟩ := hs.sound.write hcmem hout rfl rfl rfl
  refine ⟨cuts, ?_, ?_⟩
  · apply hs.replace hsound hkeeps
    · intro d
      rw [husedBlocks, update_owned]
      split
      · rename_i heq
        simp [heq, hc]
      · exact hs.owned d
    · intro q o' hq
      rw [Function.update_apply] at hq
      split at hq
      · right
        obtain rfl := Option.some.inj hq
        refine ⟨c, ‹_›, by rw [hnext c hcmem]; exact hroom, fun j v hv => ?_⟩
        dsimp only at hv ⊢
        rw [Function.update_apply] at hv
        split at hv
        · rename_i heq
          obtain rfl := Option.some.inj hv
          exact ⟨heq ▸ hin, by rw [hram, if_pos (by rw [heq])]⟩
        · obtain ⟨hjn, hold⟩ := hs.words _ o j v ho hv
          exact ⟨hjn, by rw [hram, if_neg (by omega), hold]⟩
      · left
        obtain ⟨d, rfl, hd⟩ := hs.block hq
        exact ⟨d, Finset.mem_erase.mpr ⟨by omega, hd⟩, rfl, hq⟩
  · intro hlow d hd hde hdfree
    have hside := hs.sound.toHeaders.data_clear hcmem hd (x := c + 16 + 4 * i) (by omega) (by omega)
    have hdram : (s.stored (c + 16) o i w).heap.ram d = s.heap.ram d := by
      refine (hram d).trans (if_neg ?_)
      omega
    rw [used, hdram] at hdfree
    exact hlow d hd hde hdfree

end MemRun

/-! ## All runs -/

open MemRun

/-- Every legal call ends, without a failed assertion. -/
theorem MemRun.Inv.step (hs : s.Inv cuts) {a : MemAction} (ha : s.Legal a) :
    ∃ t, memMachine.step s a = some t ∧ (a.Sane → ∃ cuts', t.Inv cuts') := by
  cases a with
  | malloc size =>
      obtain ⟨r, hres, hinv⟩ := hs.malloc size
      refine ⟨_, congrArg (Option.map _) hres, fun hsane => ?_⟩
      obtain ⟨cuts', h', _⟩ := hinv hsane
      exact ⟨cuts', h'⟩
  | free p =>
      obtain ⟨h', hres, cuts', hinv, _⟩ := hs.free ha
      exact ⟨_, (if_pos ha).trans (congrArg (Option.map _) hres), fun _ => ⟨cuts', hinv⟩⟩
  | realloc p newsize =>
      obtain ⟨o, ho⟩ := Option.isSome_iff_exists.mp ha
      obtain ⟨r, hres, hinv⟩ := hs.realloc newsize ho
      refine ⟨s.realloced p o newsize r, ?_, hinv⟩
      simp only [memMachine, ho, Option.bind_some, hres, Option.map_some]
  | store p i w =>
      obtain ⟨o, ho, hin⟩ := ha
      obtain ⟨cuts', hinv, _⟩ := hs.store (w := w) ho hin
      refine ⟨s.stored p o i w, ?_, fun _ => ⟨cuts', hinv⟩⟩
      simp only [memMachine, ho, Option.bind_some, if_pos hin]

def MemRun.small : MemRun := ⟨firstHeaders ⟨fun _ => 0, 0, 240, 0, 0⟩, fun _ => none⟩

/-- Two calls of `rt_malloc` and a write to the first object. -/
def MemRun.smallRun : List MemAction := [.malloc 100, .malloc 40, .store 16 3 7]

end TdPrinter
