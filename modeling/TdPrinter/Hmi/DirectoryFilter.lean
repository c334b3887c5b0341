import Mathlib.Data.Int.Notation
import Mathlib.Data.List.DropRight
import TdPrinter.Foundation.Chain

/-!
# The entries of a directory

`loadDir` reads a directory into a chain behind `zeroOff`: the directories, and of the files
those whose names end in `.gcode`.  What a name ends in is found by `telltype`, which remembers
the last dot of the name and steps over it.  If there is no dot, it steps over a pointer that
was never set; and from a name with 250 characters on, it returns a null pointer, which
`loadDir` passes to `strcmp`.  Entries that are neither directories nor files are not looked at
further and taken.

A step is `none` where the behaviour of the source is undefined.
-/

namespace TdPrinter

/-! ## Names -/

/-- A `struct dirent`; `d_name` is a string without its terminator, `d_namlen` its length. -/
structure Dirent where
  d_type : UInt8
  d_name : List UInt8
  noNull : 0 ∉ d_name

/-- The loop of `telltype` with `i` characters behind it: `i` at its end, and `temp`, which is a
pointer to what lies from it to the end of the name, if it has been set. -/
def telltypeLoop : List UInt8 → ℕ → Option (List UInt8) → ℕ × Option (List UInt8)
  | [], i, temp => (i, temp)
  | c :: fname, i, temp =>
      if i < 250 then telltypeLoop fname (i + 1) (if c = 46 then some (c :: fname) else temp)
      else (i, temp)

/-- `telltype`: the string it returns a pointer to, or `some none` for a null pointer. -/
def telltype (fname : List UInt8) : Option (Option (List UInt8)) :=
  let (i, temp) := telltypeLoop fname 0 none
  if i = 250 then some none else temp.map fun temp => some temp.tail

/-- `"gcode"`. -/
def gcodeSuffix : List UInt8 := [103, 99, 111, 100, 101]

/-- `strcmp(type,"gcode")`, as a condition. -/
def strcmpGcode (type : Option (List UInt8)) : Option Bool := type.map (· ≠ gcodeSuffix)

/-- The conditions of the loop of `loadDir`: whether it takes an entry. -/
def keepsEntry (file : Dirent) : Option Bool :=
  if file.d_name.head? ≠ some 46 then
    if file.d_type = 1 then
      (telltype file.d_name).bind fun type => (strcmpGcode type).map fun differs => !differs
    else some true
  else some false

/-! ## The chain -/

/-- The data of a `chain_t`. -/
structure FileTag where
  d_type : UInt8
  filename : List UInt8

inductive FileFunc
  | itemDirProcessor
  | itemFileProcessor

/-- A button: its name and its function. -/
structure FileButton where
  name : Option (List UInt8)
  func : Option FileFunc

/-- `userdata_t`, with the memory for the chain and what is on the buttons. -/
structure FileList where
  heap : Heap (Link FileTag)
  item : ℕ → FileButton
  count : ℤ
  num : ℤ
  curOff : ℕ

/-- `&u->zeroOff`. -/
def zeroOff : ℕ := 1

def FileList.boot : FileList where
  heap :=
    { cells := Function.update (fun _ => none) zeroOff (some ⟨⟨0, []⟩, 0, 0⟩)
      top := zeroOff + 1
      cells_null := rfl
      cells_top := fun p hp => Function.update_of_ne (by omega) _ _
      top_pos := Nat.succ_pos _ }
  item _ := ⟨none, none⟩
  count := 0
  num := 0
  curOff := 0

/-- The data that `chain_add` copies. -/
def Dirent.tag (file : Dirent) : FileTag := ⟨file.d_type, file.d_name⟩

/-- `chain_add(&u->curOff,file)`; there is memory for the cell. -/
def chainAdd (u : FileList) (file : Dirent) : Option FileList :=
  (u.heap.cells u.curOff).bind fun c =>
    let (newtag, heap) := u.heap.malloc ⟨file.tag, u.curOff, c.next⟩
    (heap.modify u.curOff fun c => { c with next := newtag }).map fun heap =>
      { u with heap := heap, curOff := newtag }

/-- `chain_clear(&u->zeroOff)`, for at most `fuel - 1` cells. -/
def chainClear : ℕ → Heap (Link FileTag) → Option (Heap (Link FileTag))
  | 0, _ => none
  | fuel + 1, h =>
      (h.cells zeroOff).bind fun temp1 =>
        if temp1.next = 0 then some h
        else
          (h.cells temp1.next).bind fun temp2 =>
            (h.modify zeroOff fun l => { l with next := temp2.next }).bind fun h =>
              (h.free temp1.next).bind (chainClear fuel)

/-- What the loop of `loadDir` does with an entry. -/
def FileList.readEntry (u : FileList) (file : Dirent) : Option FileList :=
  (keepsEntry file).bind fun keeps =>
    if keeps then chainAdd { u with num := u.num + 1 } file else some u

/-- `loadDir`, for the entries that `readdir` returns one after the other. -/
def loadDir (u : FileList) (entries : List Dirent) : Option FileList :=
  (chainClear u.heap.top u.heap).bind fun heap =>
    entries.foldlM FileList.readEntry
      { u with heap := heap, curOff := zeroOff, num := 0, count := 0 }

/-! ## What is to be taken -/

/-- The text after the last dot of a name. -/
def textAfterLastDot (name : List UInt8) : Option (List UInt8) :=
  if 46 ∈ name then some (name.rtakeWhile (· ≠ 46)) else none

/-- A directory, or a file with `gcode` after the last dot, and not one of the entries that
begin with a dot. -/
def Dirent.Wanted (file : Dirent) : Prop :=
  file.d_name.head? ≠ some 46 ∧
    (file.d_type = 2 ∨ file.d_type = 1 ∧ textAfterLastDot file.d_name = some gcodeSuffix)

instance (file : Dirent) : Decidable file.Wanted :=
  inferInstanceAs (Decidable (_ ∧ _))

/-- An entry that `loadDir` is up to. -/
def Dirent.Readable (file : Dirent) : Prop :=
  file.d_name.head? = some 46 ∨ file.d_type = 2 ∨
    file.d_type = 1 ∧ 46 ∈ file.d_name ∧ file.d_name.length < 250

/-- The chain holds `tags`, and `curOff` is at its end. -/
def FileList.Lists (u : FileList) (tags : List FileTag) : Prop :=
  ∃ addr, Linked u.heap zeroOff tags addr ∧ u.curOff = addr tags.length

/-- There is a chain behind `zeroOff`. -/
def FileList.HasChain (u : FileList) : Prop :=
  ∃ tags addr, Linked u.heap zeroOff tags addr

/-! ## Suffixes -/

theorem telltypeLoop_no_dot {s : List UInt8} (hs : 46 ∉ s) {i : ℕ} (temp : Option (List UInt8))
    (hi : i + s.length ≤ 250) : telltypeLoop s i temp = (i + s.length, temp) := by
  induction s generalizing i with
  | nil => rfl
  | cons c s ih =>
      rw [List.mem_cons, not_or] at hs
      rw [List.length_cons] at hi ⊢
      rw [telltypeLoop, if_pos (by omega), if_neg (Ne.symm hs.1), ih hs.2 (by omega)]
      congr 1
      omega

theorem telltypeLoop_dot {t : List UInt8} (ht : 46 ∉ t) (stem : List UInt8) {i : ℕ}
    (temp : Option (List UInt8)) (hi : i + (stem ++ 46 :: t).length ≤ 250) :
    telltypeLoop (stem ++ 46 :: t) i temp = (i + (stem ++ 46 :: t).length, some (46 :: t)) := by
  induction stem generalizing i temp with
  | nil =>
      rw [List.nil_append, List.length_cons] at hi ⊢
      rw [telltypeLoop, if_pos (by omega), if_pos rfl, telltypeLoop_no_dot ht _ (by omega)]
      congr 1
      omega
  | cons c stem ih =>
      rw [List.cons_append, List.length_cons] at hi ⊢
      rw [telltypeLoop, if_pos (by omega), ih _ (by omega)]
      congr 1
      omega

theorem telltypeLoop_long {s : List UInt8} {i : ℕ} (temp : Option (List UInt8)) (hi : i ≤ 250)
    (hlong : 250 ≤ i + s.length) : (telltypeLoop s i temp).1 = 250 := by
  induction s generalizing i temp with
  | nil =>
      rw [List.length_nil] at hlong
      exact Nat.le_antisymm hi hlong
  | cons c s ih =>
      rw [List.length_cons] at hlong
      rw [telltypeLoop]
      split
      · exact ih _ (by omega) (by omega)
      · show i = 250
        omega

theorem exists_stem {name : List UInt8} (h : 46 ∈ name) :
    ∃ stem t, name = stem ++ 46 :: t ∧ 46 ∉ t ∧ textAfterLastDot name = some t := by
  obtain ⟨s, t, hsplit, hs⟩ := List.eq_append_cons_of_mem (List.mem_reverse.mpr h)
  have hname : name = t.reverse ++ 46 :: s.reverse := by
    rw [← List.reverse_reverse name, hsplit]
    simp
  refine ⟨t.reverse, s.reverse, hname, by simpa using hs, ?_⟩
  have hrun : ∀ c ∈ s, (c ≠ 46 : Bool) = true := fun c hc => by
    simp only [decide_eq_true_eq]
    rintro rfl
    exact hs hc
  rw [textAfterLastDot, if_pos h, List.rtakeWhile, hsplit, List.takeWhile_append_of_pos hrun,
    List.takeWhile_cons_of_neg (by simp), List.append_nil]

theorem telltype_dot {name : List UInt8} (hdot : 46 ∈ name) (hlen : name.length < 250) :
    telltype name = some (textAfterLastDot name) := by
  obtain ⟨stem, t, rfl, ht, htext⟩ := exists_stem hdot
  rw [telltype, telltypeLoop_dot ht stem none (by omega), htext]
  dsimp only
  rw [if_neg (by omega)]
  rfl

theorem telltype_no_dot {name : List UInt8} (hdot : 46 ∉ name) (hlen : name.length < 250) :
    telltype name = none := by
  rw [telltype, telltypeLoop_no_dot hdot none (by omega)]
  dsimp only
  rw [if_neg (by omega)]
  rfl

theorem telltype_long {name : List UInt8} (hlen : 250 ≤ name.length) :
    telltype name = some none := by
  rw [telltype]
  exact if_pos (telltypeLoop_long none (Nat.zero_le _) (by omega))

/-- Of the entries that it is up to, `loadDir` takes the right ones. -/
theorem keepsEntry_of_readable {file : Dirent} (h : file.Readable) :
    keepsEntry file = some (decide file.Wanted) := by
  unfold keepsEntry Dirent.Wanted
  by_cases hhidden : file.d_name.head? = some 46
  · simp [hhidden]
  · rcases h with hhead | htwo | ⟨hone, hdot, hlen⟩
    · exact absurd hhead hhidden
    · simp [hhidden, htwo]
    · obtain ⟨stem, t, -, -, htext⟩ := exists_stem hdot
      simp [hhidden, hone, telltype_dot hdot hlen, htext, strcmpGcode]

/-- Any other entry makes it fail, or is taken without being wanted. -/
theorem keepsEntry_of_not_readable {file : Dirent} (h : ¬ file.Readable) :
    keepsEntry file = none ∨ keepsEntry file = some true ∧ ¬ file.Wanted := by
  simp only [Dirent.Readable, not_or, not_and, not_lt] at h
  obtain ⟨hhead, htwo, hfile⟩ := h
  unfold keepsEntry Dirent.Wanted
  by_cases hone : file.d_type = 1
  · left
    rw [if_pos hhead, if_pos hone]
    by_cases hlen : file.d_name.length < 250
    · have hdot : 46 ∉ file.d_name := fun hdot => absurd (hfile hone hdot) (by omega)
      rw [telltype_no_dot hdot hlen, Option.bind_none]
    · rw [telltype_long (by omega)]
      rfl
  · exact .inr ⟨by rw [if_pos hhead, if_neg hone], by simp [htwo, hone]⟩

/-! ## Loading -/

def retained (entries : List Dirent) : List Dirent :=
  entries.filter fun file => keepsEntry file = some true

/-- `chain_clear` ends, and leaves the root alone. -/
theorem chainClear_unlinked {addr : ℕ → ℕ} {n : ℕ} (hroot : addr 0 = zeroOff)
    (hinj : ∀ i j, i ≤ n → j ≤ n → addr i = addr j → i = j) (fuel : ℕ) {k : ℕ}
    {h : Heap (Link FileTag)} (hu : Linked.Unlinked h addr n k) (hk : k ≤ n)
    (hfuel : n < fuel + k) :
    ∃ h' x, chainClear fuel h = some h' ∧ h'.cells zeroOff = some ⟨x, 0, 0⟩ := by
  induction fuel generalizing k h with
  | zero => omega
  | succ fuel ih =>
      obtain ⟨x, hx⟩ := hu.root_link
      rw [hroot] at hx
      rcases hk.lt_or_eq with hlt | rfl
      · obtain ⟨first, h₁, h₂, hfirst, hmodify, hfree, hu'⟩ := Linked.unlink hu hlt hinj
        have hnext : nextAddr addr n k = addr (k + 1) := if_neg hlt.ne
        obtain ⟨h', y, hclear, hy⟩ := ih hu' hlt (by omega)
        rw [hroot] at hmodify
        refine ⟨h', y, ?_, hy⟩
        rw [chainClear, hx, Option.bind_some, if_neg (by
          rw [hnext]
          exact Heap.ne_null hfirst)]
        dsimp only
        rw [hnext, hfirst, Option.bind_some, hmodify, Option.bind_some, hfree, Option.bind_some,
          hclear]
      · have hnext : nextAddr addr k k = 0 := if_pos rfl
        rw [hnext] at hx
        refine ⟨h, x, ?_, hx⟩
        rw [chainClear, hx, Option.bind_some, if_pos rfl]

theorem FileList.HasChain.clear {u : FileList} (hu : u.HasChain) :
    ∃ h x, chainClear u.heap.top u.heap = some h ∧ h.cells zeroOff = some ⟨x, 0, 0⟩ := by
  obtain ⟨tags, addr, hc⟩ := hu
  exact chainClear_unlinked hc.addr_zero hc.inj u.heap.top hc.unlinked_zero (Nat.zero_le _)
    hc.length_lt_top

theorem FileList.Lists.chainAdd {u : FileList} {tags : List FileTag} (hu : u.Lists tags)
    (file : Dirent) :
    ∃ u', TdPrinter.chainAdd u file = some u' ∧ u'.Lists (tags ++ [file.tag]) ∧
      u'.num = u.num ∧ u'.count = u.count ∧ u'.item = u.item := by
  obtain ⟨addr, hc, hoff⟩ := hu
  obtain ⟨last, h', hlast, hmodify, hc'⟩ := hc.append file.tag
  refine ⟨{ u with heap := h', curOff := u.heap.top }, ?_, ⟨_, hc', ?_⟩, rfl, rfl, rfl⟩
  · rw [TdPrinter.chainAdd, hoff, hlast, Option.bind_some]
    dsimp only
    rw [show (u.heap.malloc ⟨file.tag, addr tags.length, last.next⟩).1 = u.heap.top from rfl,
      hmodify]
    rfl
  · rw [List.length_append, List.length_singleton, Function.update_self]

theorem FileList.Lists.readEntries {entries : List Dirent}
    (hall : ∀ file ∈ entries, keepsEntry file ≠ none) {u : FileList} {tags : List FileTag}
    (hu : u.Lists tags) :
    ∃ u', entries.foldlM FileList.readEntry u = some u' ∧
      u'.Lists (tags ++ (retained entries).map Dirent.tag) ∧
      u'.num = u.num + (retained entries).length ∧ u'.count = u.count ∧ u'.item = u.item := by
  induction entries generalizing u tags with
  | nil => exact ⟨u, rfl, by simpa [retained] using hu, by simp [retained], rfl, rfl⟩
  | cons file entries ih =>
      have hrest := fun e he => hall e (List.mem_cons_of_mem file he)
      obtain ⟨keeps, hkeeps⟩ := Option.ne_none_iff_exists'.mp (hall file List.mem_cons_self)
      rw [List.foldlM_cons, FileList.readEntry, hkeeps]
      cases keeps with
      | false =>
          have hretained : retained (file :: entries) = retained entries := by
            simp [retained, hkeeps]
          rw [hretained]
          exact ih hrest hu
      | true =>
          have hretained : retained (file :: entries) = file :: retained entries := by
            simp [retained, hkeeps]
          obtain ⟨v, hadd, hv, hnum, hcount, hitem⟩ :=
            FileList.Lists.chainAdd (u := { u with num := u.num + 1 }) hu file
          obtain ⟨u', hfold, hu', hnum', hcount', hitem'⟩ := ih hrest hv
          refine ⟨u', ?_, ?_, ?_, hcount'.trans hcount, hitem'.trans hitem⟩
          · rw [Option.bind_some, if_pos rfl, hadd]
            exact hfold
          · rw [hretained, List.map_cons]
            simpa using hu'
          · rw [hretained, hnum', hnum, List.length_cons]
            push_cast
            omega

theorem readEntries_eq_none {entries : List Dirent} {file : Dirent} (hfile : file ∈ entries)
    (hnone : keepsEntry file = none) (u : FileList) :
    entries.foldlM FileList.readEntry u = none := by
  induction entries generalizing u with
  | nil => simp at hfile
  | cons e entries ih =>
      rw [List.foldlM_cons]
      rcases List.mem_cons.mp hfile with rfl | hrest
      · rw [FileList.readEntry, hnone]
        rfl
      · cases hread : u.readEntry e with
        | none => rfl
        | some v => exact ih hrest v

/-- `loadDir` links the entries that are taken, from the first to the last. -/
theorem FileList.HasChain.loadDir {u : FileList} (hu : u.HasChain) {entries : List Dirent}
    (hall : ∀ file ∈ entries, keepsEntry file ≠ none) :
    ∃ u', TdPrinter.loadDir u entries = some u' ∧
      u'.Lists ((retained entries).map Dirent.tag) ∧
      u'.num = (retained entries).length ∧ u'.count = 0 ∧ u'.item = u.item := by
  obtain ⟨h, x, hclear, hx⟩ := hu.clear
  have hempty : FileList.Lists { u with heap := h, curOff := zeroOff, num := 0, count := 0 } [] :=
    ⟨_, Linked.nil hx, rfl⟩
  obtain ⟨u', hfold, hu', hnum, hcount, hitem⟩ := hempty.readEntries hall
  refine ⟨u', ?_, hu', by simpa using hnum, hcount, hitem⟩
  rw [TdPrinter.loadDir, hclear, Option.bind_some, hfold]

/-- A directory that is loaded could be judged entry by entry. -/
theorem FileList.HasChain.of_loadDir {u u' : FileList} {entries : List Dirent} (hu : u.HasChain)
    (h : TdPrinter.loadDir u entries = some u') :
    (∀ file ∈ entries, keepsEntry file ≠ none) ∧ u'.HasChain := by
  have hall : ∀ e ∈ entries, keepsEntry e ≠ none := by
    intro e he hnone
    obtain ⟨h', x, hclear, -⟩ := hu.clear
    rw [TdPrinter.loadDir, hclear, Option.bind_some, readEntries_eq_none he hnone] at h
    exact absurd h (by simp)
  obtain ⟨v, hload, ⟨addr, hc, -⟩, -⟩ := hu.loadDir hall
  obtain rfl : u' = v := Option.some.inj (h.symm.trans hload)
  exact ⟨hall, _, addr, hc⟩

theorem FileList.Lists.unique {u : FileList} {tags tags' : List FileTag} (hu : u.Lists tags)
    (hu' : u.Lists tags') : tags = tags' := by
  obtain ⟨addr, hc, -⟩ := hu
  obtain ⟨addr', hc', -⟩ := hu'
  exact hc.unique hc'

/-- If as many elements have `p` as have the weaker `q`, those with `q` have `p`. -/
theorem forall_of_length_filter_eq {α : Type*} {p q : α → Bool} {l : List α}
    (hpq : ∀ x ∈ l, p x → q x) (hlen : (l.filter p).length = (l.filter q).length) :
    ∀ x ∈ l, q x → p x := by
  have hfilter : (l.filter q).filter p = l.filter p := by
    rw [List.filter_filter]
    refine List.filter_congr fun x hx => ?_
    have hx := hpq x hx
    cases hp : p x <;> simp_all
  have hself := List.filter_sublist.eq_of_length (hfilter ▸ hlen)
  intro x hx hq
  exact List.filter_eq_self.mp hself x (List.mem_filter.mpr ⟨hx, hq⟩)

/-- The chain that `loadDir` leaves holds the directories and the files with the suffix, in
order, and no pointer is used that was not set or is null, exactly if every entry that does not
begin with a dot is a directory, or a file whose name has a dot and less than 250 characters. -/
theorem loadDir_iff {u : FileList} (hu : u.HasChain) (entries : List Dirent) :
    (∃ u', loadDir u entries = some u' ∧
      u'.Lists ((entries.filter fun file => decide file.Wanted).map Dirent.tag)) ↔
      ∀ file ∈ entries, file.Readable := by
  constructor
  · rintro ⟨u', hload, hu'⟩
    by_contra! hbad
    obtain ⟨file, hfile, hunreadable⟩ := hbad
    have hall := (hu.of_loadDir hload).1
    obtain ⟨v, hload', hv, -⟩ := hu.loadDir hall
    obtain rfl : u' = v := Option.some.inj (hload.symm.trans hload')
    have hlen := congrArg List.length (hu'.unique hv)
    rw [List.length_map, List.length_map, retained] at hlen
    have hwanted := forall_of_length_filter_eq (fun e he hw => ?_) hlen file hfile
    · rcases keepsEntry_of_not_readable hunreadable with hnone | ⟨hkeeps, hnot⟩
      · exact hall file hfile hnone
      · exact hnot (by simpa using hwanted (by simpa using hkeeps))
    · -- what is wanted is taken
      by_cases hr : e.Readable
      · simpa [keepsEntry_of_readable hr] using hw
      · rcases keepsEntry_of_not_readable hr with hnone | ⟨hkeeps, -⟩
        · exact absurd hnone (hall e he)
        · simpa using hkeeps
  · intro hall
    obtain ⟨u', hload, hu', -⟩ := hu.loadDir fun file hfile => by
      rw [keepsEntry_of_readable (hall file hfile)]
      exact Option.some_ne_none _
    refine ⟨u', hload, ?_⟩
    have hretained : retained entries = entries.filter fun file => decide file.Wanted :=
      List.filter_congr fun file hfile => by simp [keepsEntry_of_readable (hall file hfile)]
    rwa [← hretained]

theorem boot_hasChain : FileList.boot.HasChain := ⟨[], _, Linked.nil rfl⟩

/-- `sub`, `a.gcode` and `b.txt`. -/
theorem loadDir_three :
    ∃ u', loadDir .boot [⟨2, [115, 117, 98], by simp⟩,
        ⟨1, [97, 46, 103, 99, 111, 100, 101], by simp⟩, ⟨1, [98, 46, 116, 120, 116], by simp⟩] =
          some u' ∧
      u'.Lists ([⟨2, [115, 117, 98]⟩, ⟨1, [97, 46, 103, 99, 111, 100, 101]⟩]) :=
  (loadDir_iff boot_hasChain _).mpr (by simp [Dirent.Readable])

/-- A file `readme` has no dot. -/
theorem loadDir_no_dot :
    ¬ ∃ u', loadDir .boot [⟨1, [114, 101, 97, 100, 109, 101], by simp⟩] = some u' ∧
      u'.Lists (([⟨1, [114, 101, 97, 100, 109, 101], by simp⟩].filter
        fun file : Dirent => decide file.Wanted).map Dirent.tag) := by
  rintro ⟨u', hload, -⟩
  exact Option.some_ne_none u' (hload.symm.trans rfl)

end TdPrinter
