import TdPrinter.Foundation.Stream
import TdPrinter.Hmi.ConfigList
import TdPrinter.Hmi.DirectoryFilter

/-!
# Pages of files

The files are shown six at a time, the one read last first.  Which page that is is not stored
anywhere: `curOff` is the cell that comes next and `count` the number of entries behind it.
`listDir` walks back along `prev` and stops in front of the root.  To turn back `naviProcessor`
first walks forward over what is on the screen, which on the last page may be less than six,
and then over a page.

`AtEntry` ties the cursor to the number of entries it has passed, `OnPage` to the number of
the page, and `filePages` follows for any presses.
-/

namespace TdPrinter

/-! ## The buttons -/

/-- A button without a name and a function. -/
def FileButton.blank : FileButton := ⟨none, none⟩

/-- What `listDir` makes of a button. -/
def FileTag.button (t : FileTag) : FileButton :=
  if t.d_type = 2 then ⟨some t.filename, some .itemDirProcessor⟩
  else if t.d_type = 1 then ⟨some t.filename, some .itemFileProcessor⟩
  else .blank

/-- The second loop of `listDir` from its turn `i` on, with `n` turns left; `t` is
`u->curOff`. -/
def listTurns : ℕ → ℕ → FileList → Option FileList
  | 0, _, u => some u
  | n + 1, i, u =>
      (u.heap.cells u.curOff).bind fun t =>
        let u : FileList :=
          { u with
            item := Function.update u.item i t.item.button
            count := u.count + 1
            curOff := t.prev }
        (u.heap.cells u.curOff).bind fun t =>
          if t.prev = 0 then some u else listTurns n (i + 1) u

/-- `listDir`. -/
def listDir (u : FileList) : Option FileList :=
  let u : FileList := { u with item := fun i => if i < itemNum then .blank else u.item i }
  if u.num = 0 then some u else listTurns itemNum 0 u

/-- A loop of `n` steps forward. -/
def FileList.forward : ℕ → FileList → Option FileList
  | 0, u => some u
  | n + 1, u =>
      (u.heap.cells u.curOff).bind fun t =>
        FileList.forward n { u with curOff := t.next, count := u.count - 1 }

/-- The assignments in `onLoad`, behind which it calls `refreshList`. -/
def FileList.onLoad (u : FileList) : Option FileList :=
  (u.heap.modify zeroOff fun l => { l with prev := 0, next := 0 }).map fun heap =>
    { u with heap := heap, num := 0, count := 0, curOff := zeroOff }

/-- What happens on the file page: it is opened, one of the two buttons for the pages is
pressed, or a directory is loaded. -/
inductive FileAction
  | onLoad
  | prev
  | next
  | load (entries : List Dirent)

/-- `naviProcessor` and `refreshList`. -/
def FileList.step (u : FileList) : FileAction → Option FileList
  | .onLoad => u.onLoad
  | .prev =>
      let redundant := u.count.tmod itemNum
      if u.count > 6 then
        (u.forward (if redundant = 0 then itemNum else redundant.toNat)).bind fun u =>
          (u.forward itemNum).bind listDir
      else some u
  | .next => if u.num - u.count > 0 then listDir u else some u
  | .load entries => (loadDir u entries).bind listDir

def fileMachine : Machine FileList FileAction := ⟨FileList.step⟩

/-! ## Pages -/

inductive PagePress
  | prev
  | next

/-- What they do to the number of the page, with `n` entries. -/
def turnPage (n k : ℕ) : PagePress → ℕ
  | .prev => if 1 ≤ k then k - 1 else k
  | .next => if 6 * (k + 1) < n then k + 1 else k

def PagePress.action : PagePress → FileAction
  | .prev => .prev
  | .next => .next

/-- The entry `q` of `n` is on the page `k`. -/
def OnPage (n k q : ℕ) : Prop := 6 * k ≤ q ∧ q < min (6 * k + 6) n

/-- The button of a directory or a file. -/
def Dirent.button (file : Dirent) : FileButton :=
  ⟨some file.d_name, some (if file.d_type = 2 then .itemDirProcessor else .itemFileProcessor)⟩

/-- The screen shows the page `k` of `files`. -/
structure FileList.Shows (u : FileList) (files : List Dirent) (k : ℕ) : Prop where
  nonempty : 6 * k < files.length
  count_eq : u.count = min (6 * (k + 1)) files.length
  item_eq : ∀ i < 6, u.item i = (files[6 * k + i]?).elim .blank Dirent.button

/-! ## The cursor -/

/-- What is shown for the entry `q`, counted from the one read last. -/
def entryButton (tags : List FileTag) (q : ℕ) : FileButton :=
  (tags.reverse[q]?).elim .blank FileTag.button

section Cursor

variable {tags : List FileTag} {addr : ℕ → ℕ}

/-- `q` entries have been passed. -/
structure FileList.AtEntry (u : FileList) (tags : List FileTag) (addr : ℕ → ℕ) (q : ℕ) :
    Prop where
  linked : Linked u.heap zeroOff tags addr
  curOff_eq : u.curOff = addr (tags.length - q)
  count_eq : u.count = q

theorem Linked.cell_of_entry {h : Heap (Link FileTag)} (hc : Linked h zeroOff tags addr) {q : ℕ}
    (hq : q < tags.length) :
    ∃ l, h.cells (addr (tags.length - q)) = some l ∧ l.item.button = entryButton tags q ∧
      l.prev = addr (tags.length - (q + 1)) := by
  have hpos : tags.length - q = tags.length - (q + 1) + 1 := by omega
  have hitem : tags[tags.length - (q + 1)]? = some tags[tags.length - (q + 1)] :=
    List.getElem?_eq_getElem (by omega)
  refine ⟨_, hpos ▸ hc.link _ _ hitem, ?_, rfl⟩
  have hlast : tags.reverse[q]? = tags[tags.length - (q + 1)]? := by
    rw [List.getElem?_reverse hq]
    congr 1
    omega
  rw [entryButton, hlast, hitem]
  rfl

/-- The loop stops at the root, and nowhere before. -/
theorem Linked.prev_eq_null_iff {h : Heap (Link FileTag)} (hc : Linked h zeroOff tags addr)
    {q : ℕ} (hq : q ≤ tags.length) :
    ∃ l, h.cells (addr (tags.length - q)) = some l ∧ (l.prev = 0 ↔ q = tags.length) := by
  obtain ⟨l, hl, -, hprev⟩ := hc.cell (i := tags.length - q) (by omega)
  refine ⟨l, hl, ?_⟩
  rw [hprev]
  split
  · exact ⟨fun _ => by omega, fun _ => rfl⟩
  · have hne := hc.ne_null (i := tags.length - q - 1) (by omega)
    exact ⟨fun h => absurd h hne, fun h => by omega⟩

/-- One turn of the second loop of `listDir` shows an entry, and is the last one if no more are
there. -/
theorem FileList.AtEntry.turn {u : FileList} {q : ℕ} (hu : u.AtEntry tags addr q)
    (hq : q < tags.length) (i : ℕ) :
    ∃ v, (∀ n, TdPrinter.listTurns (n + 1) i u =
        if q + 1 = tags.length then some v else TdPrinter.listTurns n (i + 1) v) ∧
      v.AtEntry tags addr (q + 1) ∧ v.num = u.num ∧
      ∀ j, v.item j = if j = i then entryButton tags q else u.item j := by
  obtain ⟨t, ht, hbutton, hprev⟩ := hu.linked.cell_of_entry hq
  obtain ⟨t', ht', hnull⟩ := hu.linked.prev_eq_null_iff (q := q + 1) hq
  refine ⟨{ u with
      item := Function.update u.item i t.item.button
      count := u.count + 1
      curOff := t.prev }, fun n => ?_, ⟨hu.linked, hprev, ?_⟩, rfl, fun j => ?_⟩
  · rw [TdPrinter.listTurns, hu.curOff_eq, ht, Option.bind_some]
    dsimp only
    rw [hprev, ht', Option.bind_some]
    exact if_congr hnull rfl rfl
  · show u.count + 1 = _
    rw [hu.count_eq]
    push_cast
    rfl
  · rw [← hbutton]
    exact Function.update_apply ..

/-- The second loop of `listDir` shows as many entries as there are, up to `n`. -/
theorem FileList.AtEntry.listTurns {u : FileList} {q : ℕ} (hu : u.AtEntry tags addr q)
    (hq : q < tags.length) (n i : ℕ) :
    ∃ u', TdPrinter.listTurns n i u = some u' ∧ u'.AtEntry tags addr (min (q + n) tags.length) ∧
      u'.num = u.num ∧
      ∀ j, u'.item j =
        if i ≤ j ∧ j < i + n ∧ q + (j - i) < tags.length then entryButton tags (q + (j - i))
        else u.item j := by
  induction n generalizing u q i with
  | zero =>
      refine ⟨u, rfl, ?_, rfl, fun j => ?_⟩
      · rwa [Nat.add_zero, Nat.min_eq_left hq.le]
      · rw [if_neg (by omega)]
  | succ n ih =>
      obtain ⟨v, hturn, hv, hvnum, hitem⟩ := hu.turn hq i
      rw [hturn]
      by_cases hlast : q + 1 = tags.length
      · rw [if_pos hlast]
        refine ⟨v, rfl, ?_, hvnum, fun j => ?_⟩
        · have hmin : min (q + (n + 1)) tags.length = q + 1 := by omega
          rwa [hmin]
        · rw [hitem]
          by_cases hj : j = i
          · subst hj
            rw [if_pos rfl, if_pos (by omega), Nat.sub_self, Nat.add_zero]
          · rw [if_neg hj, if_neg (by omega)]
      · rw [if_neg hlast]
        obtain ⟨u', hu', hat, hnum, hitems⟩ := ih hv (by omega) (i + 1)
        refine ⟨u', hu', ?_, hnum.trans hvnum, fun j => ?_⟩
        · have hmin : min (q + (n + 1)) tags.length = min (q + 1 + n) tags.length := by omega
          rwa [hmin]
        · rw [hitems, hitem]
          by_cases hj : j = i
          · subst hj
            rw [if_neg (by omega), if_pos rfl, if_pos (by omega), Nat.sub_self, Nat.add_zero]
          · rw [if_neg hj]
            have hshift : q + 1 + (j - (i + 1)) = q + (j - i) ∨ j ≤ i := by omega
            rcases hshift with hshift | hle
            · rw [hshift]
              split <;> split <;> first | rfl | omega
            · rw [if_neg (by omega), if_neg (by omega)]

/-- A loop forward gives back the entries it goes over. -/
theorem FileList.AtEntry.forward {u : FileList} {q : ℕ} (hu : u.AtEntry tags addr q)
    (hq : q ≤ tags.length) {n : ℕ} (hn : n ≤ q) :
    ∃ u', u.forward n = some u' ∧ u'.AtEntry tags addr (q - n) ∧ u'.num = u.num := by
  induction n generalizing u q with
  | zero => exact ⟨u, rfl, hu, rfl⟩
  | succ n ih =>
      obtain ⟨t, ht, hnext, -⟩ := hu.linked.cell (i := tags.length - q) (by omega)
      have hpos : tags.length - q + 1 = tags.length - (q - 1) := by omega
      rw [nextAddr, if_neg (by omega), hpos] at hnext
      have hv : FileList.AtEntry { u with curOff := t.next, count := u.count - 1 } tags addr
          (q - 1) :=
        ⟨hu.linked, hnext, by
          show u.count - 1 = _
          rw [hu.count_eq]
          omega⟩
      obtain ⟨u', hu', hat, hnum⟩ := ih hv (by omega) (by omega)
      refine ⟨u', ?_, ?_, hnum⟩
      · rw [FileList.forward, hu.curOff_eq, ht, Option.bind_some, hu']
      · have hsub : q - (n + 1) = q - 1 - n := by omega
        rwa [hsub]

theorem FileList.AtEntry.listDir {u : FileList} {q : ℕ} (hu : u.AtEntry tags addr q)
    (hq : q < tags.length) (hnum : u.num = tags.length) :
    ∃ u', TdPrinter.listDir u = some u' ∧ u'.AtEntry tags addr (min (q + 6) tags.length) ∧
      u'.num = u.num ∧ ∀ j < 6, u'.item j = entryButton tags (q + j) := by
  let v : FileList := { u with item := fun i => if i < itemNum then .blank else u.item i }
  have hv : v.AtEntry tags addr q := ⟨hu.linked, hu.curOff_eq, hu.count_eq⟩
  obtain ⟨u', hlist, hat, hnum', hitem⟩ := hv.listTurns hq itemNum 0
  refine ⟨u', ?_, hat, hnum', fun j hj => ?_⟩
  · rw [TdPrinter.listDir]
    dsimp only
    rw [if_neg (by omega), ← hlist]
  · rw [hitem, Nat.sub_zero, Nat.zero_add]
    split
    · rfl
    · rename_i hend
      have hnone : tags.reverse[q + j]? = none := by
        rw [List.getElem?_eq_none_iff, List.length_reverse]
        by_contra! hlt
        exact hend ⟨Nat.zero_le _, hj, hlt⟩
      rw [entryButton, hnone]
      exact if_pos hj

/-! ## Presses -/

/-- The page `k` is on the screen. -/
structure FileList.AtPage (u : FileList) (tags : List FileTag) (addr : ℕ → ℕ) (k : ℕ) :
    Prop where
  atEntry : u.AtEntry tags addr (min (6 * k + 6) tags.length)
  num_eq : u.num = tags.length
  nonempty : 6 * k < tags.length
  item_eq : ∀ i < 6, u.item i = entryButton tags (6 * k + i)

/-- From the end of a page `listDir` goes to the next one. -/
theorem FileList.AtEntry.atPage {u : FileList} {k : ℕ} (hu : u.AtEntry tags addr (6 * k))
    (hk : 6 * k < tags.length) (hnum : u.num = tags.length) :
    ∃ u', TdPrinter.listDir u = some u' ∧ u'.AtPage tags addr k := by
  obtain ⟨u', hlist, hat, hnum', hitem⟩ := hu.listDir hk hnum
  exact ⟨u', hlist, hat, hnum'.trans hnum, hk, hitem⟩

/-- Back over what is on the screen, which is less than a page only at the end. -/
theorem redundant_eq {n k c : ℕ} (hk : 6 * k < n) (hc : c = min (6 * k + 6) n) :
    (if (c : ℤ).tmod itemNum = 0 then itemNum else ((c : ℤ).tmod itemNum).toNat) = c - 6 * k := by
  have hmod : (c : ℤ).tmod itemNum = (c % 6 : ℕ) := by
    rw [Int.tmod_eq_emod_of_nonneg (Int.natCast_nonneg c)]
    rfl
  rw [hmod, Int.toNat_natCast, itemNum]
  split <;> omega

theorem FileList.AtPage.prev {u : FileList} {k : ℕ} (hu : u.AtPage tags addr k) :
    ∃ u', u.step .prev = some u' ∧ u'.AtPage tags addr (turnPage tags.length k .prev) := by
  have hk := hu.nonempty
  have hcount := hu.atEntry.count_eq
  rw [FileList.step]
  by_cases hfirst : 1 ≤ k
  · obtain ⟨v, hv, hvat, hvnum⟩ := hu.atEntry.forward (Nat.min_le_right _ _)
      (n := min (6 * k + 6) tags.length - 6 * k) (by omega)
    have hstart : min (6 * k + 6) tags.length - (min (6 * k + 6) tags.length - 6 * k) = 6 * k := by
      omega
    rw [hstart] at hvat
    obtain ⟨w, hw, hwat, hwnum⟩ := hvat.forward hk.le (n := itemNum) (by
      unfold itemNum
      omega)
    have hback : 6 * k - itemNum = 6 * (k - 1) := by
      unfold itemNum
      omega
    rw [hback] at hwat
    obtain ⟨u', hlist, hpage⟩ := hwat.atPage (by omega) (hwnum.trans (hvnum.trans hu.num_eq))
    refine ⟨u', ?_, ?_⟩
    · rw [if_pos (by omega), hcount, redundant_eq hk rfl, hv, Option.bind_some, hw,
        Option.bind_some, hlist]
    · rwa [turnPage, if_pos hfirst]
  · refine ⟨u, if_neg (by omega), ?_⟩
    rwa [turnPage, if_neg hfirst]

theorem FileList.AtPage.next {u : FileList} {k : ℕ} (hu : u.AtPage tags addr k) :
    ∃ u', u.step .next = some u' ∧ u'.AtPage tags addr (turnPage tags.length k .next) := by
  have hk := hu.nonempty
  have hcount := hu.atEntry.count_eq
  have hnum := hu.num_eq
  rw [FileList.step]
  by_cases hmore : 6 * (k + 1) < tags.length
  · have hat := hu.atEntry
    rw [Nat.min_eq_left (by omega)] at hat
    obtain ⟨u', hlist, hpage⟩ := FileList.AtEntry.atPage (k := k + 1) hat hmore hnum
    refine ⟨u', ?_, ?_⟩
    · rw [if_pos (by omega), hlist]
    · rwa [turnPage, if_pos hmore]
  · refine ⟨u, if_neg (by omega), ?_⟩
    rwa [turnPage, if_neg hmore]

theorem FileList.AtPage.run {u : FileList} {k : ℕ} (hu : u.AtPage tags addr k)
    (presses : List PagePress) :
    ∃ u', fileMachine.exec u (presses.map PagePress.action) = some u' ∧
      u'.AtPage tags addr (presses.foldl (turnPage tags.length) k) := by
  induction presses generalizing u k with
  | nil => exact ⟨u, rfl, hu⟩
  | cons p presses ih =>
      obtain ⟨v, hv, hpage⟩ : ∃ v, u.step p.action = some v ∧
          v.AtPage tags addr (turnPage tags.length k p) := by
        cases p with
        | prev => exact hu.prev
        | next => exact hu.next
      obtain ⟨u', hexec, hpage'⟩ := ih hpage
      refine ⟨u', ?_, hpage'⟩
      rw [List.map_cons, Machine.exec, show fileMachine.step u p.action = some v from hv,
        Option.bind_some, hexec]

end Cursor

/-! ## Earlier directories -/

theorem listTurns_heap {n i : ℕ} {u u' : FileList} (h : listTurns n i u = some u') :
    u'.heap = u.heap := by
  induction n generalizing i u with
  | zero =>
      obtain rfl := Option.some.inj h
      rfl
  | succ n ih =>
      rw [listTurns, Option.bind_eq_some_iff] at h
      obtain ⟨t, -, h⟩ := h
      rw [Option.bind_eq_some_iff] at h
      obtain ⟨t', -, h⟩ := h
      split at h
      · obtain rfl := Option.some.inj h
        rfl
      · exact (ih h :)

theorem listDir_heap {u u' : FileList} (h : listDir u = some u') : u'.heap = u.heap := by
  rw [listDir] at h
  dsimp only at h
  split at h
  · obtain rfl := Option.some.inj h
    rfl
  · exact (listTurns_heap h :)

theorem forward_heap {n : ℕ} {u u' : FileList} (h : u.forward n = some u') :
    u'.heap = u.heap := by
  induction n generalizing u with
  | zero =>
      obtain rfl := Option.some.inj h
      rfl
  | succ n ih =>
      rw [FileList.forward, Option.bind_eq_some_iff] at h
      obtain ⟨t, -, h⟩ := h
      exact (ih h :)

theorem FileList.HasChain.step {u u' : FileList} {a : FileAction} (hu : u.HasChain)
    (h : u.step a = some u') : u'.HasChain := by
  cases a with
  | onLoad =>
      obtain ⟨tags, addr, hc⟩ := hu
      obtain ⟨x, hx⟩ := hc.root_link
      obtain ⟨heap, hmodify, -, hcells⟩ :=
        Heap.modify_spec hx fun l => { l with prev := 0, next := 0 }
      rw [FileList.step, FileList.onLoad, hmodify] at h
      obtain rfl := Option.some.inj h
      exact ⟨[], _, Linked.nil (x := x) (by rw [hcells, if_pos rfl])⟩
  | prev =>
      rw [FileList.step] at h
      split at h
      · obtain ⟨v, hv, h⟩ := Option.bind_eq_some_iff.mp h
        obtain ⟨w, hw, h⟩ := Option.bind_eq_some_iff.mp h
        rwa [FileList.HasChain, listDir_heap h, forward_heap hw, forward_heap hv]
      · obtain rfl := Option.some.inj h
        exact hu
  | next =>
      rw [FileList.step] at h
      split at h
      · rwa [FileList.HasChain, listDir_heap h]
      · obtain rfl := Option.some.inj h
        exact hu
  | load entries =>
      rw [FileList.step] at h
      obtain ⟨v, hv, h⟩ := Option.bind_eq_some_iff.mp h
      rw [FileList.HasChain, listDir_heap h]
      exact (hu.of_loadDir hv).2

theorem FileList.HasChain.exec {u u' : FileList} {as : List FileAction} (hu : u.HasChain)
    (h : fileMachine.exec u as = some u') : u'.HasChain := by
  have hreachable : fileMachine.Reachable FileList.HasChain (fun _ _ => True) u' :=
    (Machine.Reachable.initial hu).exec (fun _ _ => trivial) h
  exact hreachable.invariant (fun s hs => hs) fun s a t hs _ hstep => hs.step hstep

/-! ## All pages -/

/-- Directories and files are shown by their names. -/
theorem entryButton_eq {kept : List Dirent}
    (htypes : ∀ file ∈ kept, file.d_type = 1 ∨ file.d_type = 2) (q : ℕ) :
    entryButton (kept.map Dirent.tag) q = (kept.reverse[q]?).elim .blank Dirent.button := by
  rw [entryButton, ← List.map_reverse, List.getElem?_map]
  cases hfile : kept.reverse[q]? with
  | none => rfl
  | some file =>
      have hmem : file ∈ kept := List.mem_reverse.mp (List.mem_of_getElem? hfile)
      rcases htypes file hmem with hone | htwo
      · simp [FileTag.button, Dirent.button, Dirent.tag, hone]
      · simp [FileTag.button, Dirent.button, Dirent.tag, htwo]

/-- As often forward as there are pages before the one of `q`. -/
theorem foldl_turnPage_next {n q k : ℕ} (hq : q < n) (hk : 6 * k ≤ q) :
    (List.replicate k PagePress.next).foldl (turnPage n) 0 = k := by
  induction k with
  | zero => rfl
  | succ k ih =>
      rw [List.replicate_succ', List.foldl_concat, ih (by omega), turnPage, if_pos (by omega)]

theorem onPage_iff {n q k : ℕ} (hq : q < n) : OnPage n k q ↔ k = q / 6 := by
  rw [OnPage]
  omega

/-- Whatever was done before: when a directory has been loaded, any presses lead to the page
that they count to, with the entries of that page on the screen, and no pointer off the
chain is followed; every entry is on exactly one page, and every page can be reached. -/
theorem filePages (before : List FileAction) {u v : FileList} {entries : List Dirent}
    (hbefore : fileMachine.exec .boot before = some u) (hload : loadDir u entries = some v)
    (hne : retained entries ≠ [])
    (htypes : ∀ file ∈ retained entries, file.d_type = 1 ∨ file.d_type = 2) :
    (∀ presses : List PagePress, ∃ t,
      fileMachine.exec u (.load entries :: presses.map PagePress.action) = some t ∧
        t.Shows (retained entries).reverse
          (presses.foldl (turnPage (retained entries).length) 0)) ∧
      ∀ q < (retained entries).length,
        (∃ presses : List PagePress,
          presses.foldl (turnPage (retained entries).length) 0 = q / 6) ∧
        ∀ k, OnPage (retained entries).length k q ↔ k = q / 6 := by
  have hu : u.HasChain := boot_hasChain.exec hbefore
  obtain ⟨v', hload', ⟨addr, hc, hoff⟩, hnum, hcount, -⟩ := hu.loadDir (hu.of_loadDir hload).1
  obtain rfl : v = v' := Option.some.inj (hload.symm.trans hload')
  set tags := (retained entries).map Dirent.tag with htags
  have hlen : tags.length = (retained entries).length := List.length_map _
  have hpos : 6 * 0 < tags.length := by
    rw [hlen]
    exact List.length_pos_iff.mpr hne
  have hstart : v.AtEntry tags addr (6 * 0) := ⟨hc, hoff, hcount⟩
  obtain ⟨w, hlist, hpage⟩ := hstart.atPage hpos (by rw [hnum, hlen])
  have hstep : fileMachine.step u (.load entries) = some w := by
    show (loadDir u entries).bind listDir = some w
    rw [hload, Option.bind_some, hlist]
  refine ⟨fun presses => ?_, fun q hq => ⟨⟨_, foldl_turnPage_next hq (Nat.mul_div_le q 6)⟩,
    fun k => onPage_iff hq⟩⟩
  obtain ⟨t, hexec, ht⟩ := hpage.run presses
  refine ⟨t, ?_, ?_, ?_, fun i hi => ?_⟩
  · rw [Machine.exec, hstep, Option.bind_some, hexec]
  · rw [List.length_reverse, ← hlen]
    exact ht.nonempty
  · rw [List.length_reverse, ← hlen, ht.atEntry.count_eq, Nat.mul_succ]
  · rw [← hlen, ht.item_eq i hi, htags, entryButton_eq htypes]

theorem subdirectory_noNull : ∀ n : Fin 8, (0 : UInt8) ∉ [UInt8.ofNat (97 + n.val)] := by decide

theorem textFile_noNull : (0 : UInt8) ∉ [97, 46, 116, 120, 116] := by decide

/-- Subdirectories `a` to `h` behind a text file. -/
def mixedEntries : List Dirent :=
  ⟨1, [97, 46, 116, 120, 116], textFile_noNull⟩ ::
    (List.finRange 8).map fun n => ⟨2, [UInt8.ofNat (97 + n.val)], subdirectory_noNull n⟩

/-- The eight subdirectories are on two pages. -/
theorem filePages_mixed :
    (∀ presses : List PagePress, ∃ t,
      fileMachine.exec .boot (.load mixedEntries :: presses.map PagePress.action) = some t ∧
        t.Shows (retained mixedEntries).reverse
          (presses.foldl (turnPage (retained mixedEntries).length) 0)) ∧
      ∀ q < (retained mixedEntries).length,
        (∃ presses : List PagePress,
          presses.foldl (turnPage (retained mixedEntries).length) 0 = q / 6) ∧
        ∀ k, OnPage (retained mixedEntries).length k q ↔ k = q / 6 := by
  have hload : ∃ v, loadDir .boot mixedEntries = some v := by
    have hsome : (loadDir .boot mixedEntries).isSome = true := by decide +kernel
    exact Option.isSome_iff_exists.mp hsome
  obtain ⟨v, hv⟩ := hload
  exact filePages [] rfl hv (by decide +kernel) (by decide +kernel)

end TdPrinter
