import TdPrinter.Foundation.Arithmetic
import Mathlib.Logic.Function.Basic

/-!
# The system heap of RT-Thread

`mem.c`: the heap behind `rt_malloc`, `rt_realloc` and `rt_free`.  It starts at `heap_ptr` and is
divided into blocks, each with a `struct heap_mem` in front, which holds the offsets of the next
and of the previous block.  `heap_end` is a header without a block behind it.  `lfree` is where
the search for a free block starts.

Memory is a function from offsets to words of 32 bits.  A header at the offset `mem` has `magic`
and `used` in the halves of the word `mem`, `next` in `mem + 4` and `prev` in `mem + 8`.  A caller
may write what it likes into its block, and a new header is laid over whatever was there.

The functions are partial: `none` is a failed `RT_ASSERT` or a loop that does not end.
`heap_sem` is taken throughout each of them, so that they do not interleave; `rt_realloc` gives it
back before it moves a block, and what it does then is a sequence of the others.
-/

namespace TdPrinter

/-! ## Constants and the arithmetic of `rt_size_t` -/

/-- `RT_ALIGN_SIZE` of `rtconfig.h`. -/
def rtAlignSize : ℕ := 8

/-- `RT_ALIGN` with `RT_ALIGN_SIZE`: `(size + 7) & ~7` in 32 bits. -/
def rtAlign (size : ℕ) : ℕ := (size + (rtAlignSize - 1)) % 2 ^ 32 / rtAlignSize * rtAlignSize

/-- The difference of two `rt_size_t`. -/
def subSize (a b : ℕ) : ℕ := (a + 2 ^ 32 - b) % 2 ^ 32

/-- `HEAP_MAGIC`. -/
def heapMagic : ℕ := 0x1ea0

/-- `MIN_SIZE`. -/
def minSize : ℕ := 12

/-- `MIN_SIZE_ALIGNED`. -/
def minSizeAligned : ℕ := rtAlign minSize

/-- `SIZEOF_STRUCT_MEM`: the aligned size of two `rt_uint16_t` and two `rt_size_t`. -/
def sizeofStructMem : ℕ := rtAlign 12

/-- The static variables of `mem.c`, and the memory from `heap_ptr` on. -/
structure SmallMem where
  ram : ℕ → ℕ
  lfree : ℕ
  memSizeAligned : ℕ
  usedMem : ℕ
  maxMem : ℕ

namespace SmallMem

/-! ## Headers -/

/-- The offset of `heap_end`. -/
def heapEnd (h : SmallMem) : ℕ := h.memSizeAligned + sizeofStructMem

/-- `mem->magic`. -/
def magic (h : SmallMem) (mem : ℕ) : ℕ := h.ram mem % 2 ^ 16

/-- `mem->used`. -/
def used (h : SmallMem) (mem : ℕ) : ℕ := h.ram mem / 2 ^ 16

/-- `mem->next`. -/
def next (h : SmallMem) (mem : ℕ) : ℕ := h.ram (mem + 4)

/-- `mem->prev`. -/
def prev (h : SmallMem) (mem : ℕ) : ℕ := h.ram (mem + 8)

def store (h : SmallMem) (off w : ℕ) : SmallMem :=
  { h with ram := Function.update h.ram off w }

def setMagic (h : SmallMem) (mem v : ℕ) : SmallMem := h.store mem (v + h.used mem * 2 ^ 16)

def setUsed (h : SmallMem) (mem v : ℕ) : SmallMem := h.store mem (h.magic mem + v * 2 ^ 16)

def setNext (h : SmallMem) (mem v : ℕ) : SmallMem := h.store (mem + 4) v

def setPrev (h : SmallMem) (mem v : ℕ) : SmallMem := h.store (mem + 8) v

/-! ## Joining and splitting -/

/-- The block `nmem` becomes a part of `mem`, which precedes it: what both halves of `plug_holes`
do. -/
def join (h : SmallMem) (mem nmem : ℕ) : SmallMem :=
  let h := if h.lfree = nmem then { h with lfree := mem } else h
  let h := h.setNext mem (h.next nmem)
  h.setPrev (h.next nmem) mem

/-- `plug_holes`. -/
def plugHoles (h : SmallMem) (mem : ℕ) : Option SmallMem :=
  if mem < h.heapEnd ∧ h.used mem = 0 then
    let nmem := h.next mem
    let h := if mem ≠ nmem ∧ h.used nmem = 0 ∧ nmem ≠ h.heapEnd then h.join mem nmem else h
    let pmem := h.prev mem
    some (if pmem ≠ mem ∧ h.used pmem = 0 then h.join pmem mem else h)
  else none

/-- The part of the block `mem` from `ptr2` on becomes a free block of its own, as in `rt_malloc`
and in `rt_realloc`. -/
def split (h : SmallMem) (mem ptr2 : ℕ) : SmallMem :=
  let h := h.setUsed ptr2 0
  let h := h.setNext ptr2 (h.next mem)
  let h := h.setPrev ptr2 mem
  let h := h.setNext mem ptr2
  if h.next ptr2 ≠ h.heapEnd then h.setPrev (h.next ptr2) ptr2 else h

/-- `used_mem += n` and the greatest value so far. -/
def countUsed (h : SmallMem) (n : ℕ) : SmallMem :=
  { h with
    usedMem := (h.usedMem + n) % 2 ^ 32
    maxMem := if h.maxMem < (h.usedMem + n) % 2 ^ 32 then (h.usedMem + n) % 2 ^ 32 else h.maxMem }

/-- `used_mem -= n`. -/
def countFreed (h : SmallMem) (n : ℕ) : SmallMem := { h with usedMem := subSize h.usedMem n }

end SmallMem

open SmallMem

/-! ## The functions of `mem.c` -/

/-- The first header and `heap_end` of a new heap. -/
def firstHeaders (h : SmallMem) : SmallMem :=
  let h := h.setMagic 0 heapMagic
  let h := h.setNext 0 h.heapEnd
  let h := h.setPrev 0 0
  let h := h.setUsed 0 0
  let h := h.setMagic h.heapEnd heapMagic
  let h := h.setUsed h.heapEnd 1
  let h := h.setNext h.heapEnd h.heapEnd
  h.setPrev h.heapEnd h.heapEnd

/-- `rt_system_heap_init` over memory with the words `ram` from the aligned `begin_addr` on; without
a result where it prints an error. -/
def rtSystemHeapInit (ram : ℕ → ℕ) (beginAddr endAddr : ℕ) : Option SmallMem :=
  let beginAlign := rtAlign beginAddr
  let endAlign := endAddr / rtAlignSize * rtAlignSize
  if 2 * sizeofStructMem < endAlign ∧ beginAlign ≤ endAlign - 2 * sizeofStructMem then
    some (firstHeaders ⟨ram, 0, endAlign - beginAlign - 2 * sizeofStructMem, 0, 0⟩)
  else none

/-- The `for` loop of `rt_malloc` from `ptr` on: the first free block with room for `size` bytes,
or `none` when there is no such block before the end. -/
def mallocScan (h : SmallMem) (size : ℕ) : ℕ → ℕ → Option (Option ℕ)
  | 0, _ => none
  | fuel + 1, ptr =>
      if ptr < subSize h.memSizeAligned size then
        if h.used ptr = 0 ∧ size ≤ subSize (h.next ptr) (ptr + sizeofStructMem) then some (some ptr)
        else mallocScan h size fuel (h.next ptr)
      else some none

/-- The `while` loop of `rt_malloc` that looks for the next free block. -/
def nextFree (h : SmallMem) : ℕ → ℕ → Option ℕ
  | 0, _ => none
  | fuel + 1, lfree =>
      if h.used lfree ≠ 0 ∧ lfree ≠ h.heapEnd then nextFree h fuel (h.next lfree) else some lfree

/-- What `rt_malloc` does with the block that it has found, up to `mem->magic`. -/
def takeBlock (h : SmallMem) (mem size : ℕ) : SmallMem :=
  let h :=
    if size + sizeofStructMem + minSizeAligned ≤ subSize (h.next mem) (mem + sizeofStructMem) then
      ((h.split mem (mem + sizeofStructMem + size)).setUsed mem 1).countUsed
        (size + sizeofStructMem)
    else (h.setUsed mem 1).countUsed (subSize (h.next mem) mem)
  h.setMagic mem heapMagic

/-- The end of `rt_malloc`, from where it compares the block `mem` with `lfree`. -/
def mallocFinish (h : SmallMem) (mem size : ℕ) : Option (Option ℕ × SmallMem) :=
  (if mem = h.lfree then nextFree h (h.heapEnd + 1) h.lfree else some h.lfree).bind fun lfree =>
    let h := { h with lfree := lfree }
    if (lfree = h.heapEnd ∨ h.used lfree = 0) ∧ mem + sizeofStructMem + size ≤ h.heapEnd ∧
        (mem + sizeofStructMem) % rtAlignSize = 0 ∧ mem % rtAlignSize = 0 then
      some (some (mem + sizeofStructMem), h)
    else none

/-- `rt_malloc`; the result is `none` for `RT_NULL`. -/
def rtMalloc (h : SmallMem) (size : ℕ) : Option (Option ℕ × SmallMem) :=
  if size = 0 then some (none, h)
  else
    let size := rtAlign size
    if h.memSizeAligned < size then some (none, h)
    else
      let size := if size < minSizeAligned then minSizeAligned else size
      (mallocScan h size (h.heapEnd + 1) h.lfree).bind fun found =>
        match found with
        | none => some (none, h)
        | some mem => mallocFinish (takeBlock h mem size) mem size

/-- The header of a block that is given back, and `lfree`. -/
def clearHeader (h : SmallMem) (mem : ℕ) : SmallMem :=
  let h := (h.setUsed mem 0).setMagic mem 0
  if mem < h.lfree then { h with lfree := mem } else h

/-- `rt_free` of something else than `RT_NULL`.  A pointer to the first bytes of the heap cannot
have a header before it. -/
def rtFree (h : SmallMem) (rmem : ℕ) : Option SmallMem :=
  if rmem % rtAlignSize = 0 ∧ sizeofStructMem ≤ rmem ∧ rmem < h.heapEnd then
    let mem := rmem - sizeofStructMem
    if h.used mem ≠ 0 ∧ h.magic mem = heapMagic then
      let h := clearHeader h mem
      (h.countFreed (subSize (h.next mem) mem)).plugHoles mem
    else none
  else none

/-- `rt_memcpy` of `n` bytes, a multiple of the word size. -/
def SmallMem.copy (h : SmallMem) (dst src n : ℕ) : SmallMem :=
  { h with ram := fun x => if dst ≤ x ∧ x < dst + n then h.ram (src + (x - dst)) else h.ram x }

/-- `rt_realloc` of a pointer into the heap, or of `RT_NULL`. -/
def rtRealloc (h : SmallMem) (rmem : Option ℕ) (newsize : ℕ) : Option (Option ℕ × SmallMem) :=
  let newsize := rtAlign newsize
  if h.memSizeAligned < newsize then some (none, h)
  else
    match rmem with
    | none => rtMalloc h newsize
    | some rmem =>
        if h.heapEnd ≤ rmem then some (some rmem, h)
        else
          let ptr := rmem - sizeofStructMem
          let size := subSize (subSize (h.next ptr) ptr) sizeofStructMem
          if size = newsize then some (some rmem, h)
          else if newsize + sizeofStructMem + minSize < size then
            let ptr2 := ptr + sizeofStructMem + newsize
            let h := h.countFreed (subSize size newsize)
            let h := (h.setMagic ptr2 heapMagic).split ptr ptr2
            (h.plugHoles ptr2).map fun h => (some rmem, h)
          else
            (rtMalloc h newsize).bind fun r =>
              match r with
              | (none, h) => some (none, h)
              | (some nmem, h) =>
                  (rtFree (h.copy nmem rmem (if size < newsize then size else newsize)) rmem).map
                    fun h => (some nmem, h)

end TdPrinter
