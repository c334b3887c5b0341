import Mathlib.Algebra.Order.Ring.Int
import Mathlib.Data.List.Basic
import TdPrinter.Foundation.Machine

/-!
# The list of settings

`hmi_list.c` shows `buttonNum` items of a list from `curIndex` on and moves `curIndex` by whole
pages.  The settings have one such list, and `switchToItems2` puts another of five tables under
it.  `hmi_list_load` was to start a table at its first page (the line is still there, commented
out); as it is, the index of the old table stays, and `list_navigation_iff` says that this is
what can go wrong.
-/

namespace TdPrinter

/-! ## Lists -/

/-- `item_type_t`. -/
inductive HmiItemType
  | u8 | s8 | u16 | s16 | u32 | s32 | fp | dfp | string | stringLp | callback | func

/-- What is shown of a `hmi_item_t`: its name, and by its type whether there is a value. -/
structure HmiItem where
  name : String
  type : HmiItemType

/-- `hmi_list_t`: the table under the list, the two numbers in `naviBuf`, what is on the
buttons, and whether the navigation buttons are those of this list.  No table is `[]`. -/
structure HmiList where
  list : List HmiItem
  listNum : ℤ
  buttonNum : ℤ
  curIndex : ℤ
  naviBuf : ℤ × ℤ
  listButton : List (Option HmiItem)
  naviButton : Bool

/-- `DIV_AND_FLOOR`. -/
def divAndFloor (x y : ℤ) : ℤ := x.tdiv y + if x.tmod y > 0 then 1 else 0

/-- `list[i]`, if that is an item. -/
def HmiList.item (s : HmiList) (i : ℤ) : Option HmiItem :=
  if 0 ≤ i then s.list[i.toNat]? else none

/-- What the turn `i` of the loop of `hmi_list_refresh` puts on its button. -/
def HmiList.face (s : HmiList) (i : ℕ) : Option (Option HmiItem) :=
  let listIndex := i + s.curIndex
  if listIndex < s.listNum then (s.item listIndex).map some else some none

/-- The first `n` turns. -/
def HmiList.faces (s : HmiList) : ℕ → Option (List (Option HmiItem))
  | 0 => some []
  | n + 1 => (s.faces n).bind fun l => (s.face n).map fun f => l ++ [f]

/-- `hmi_list_refresh`. -/
def hmiListRefresh (s : HmiList) : Option HmiList :=
  (s.faces s.buttonNum.toNat).map fun l => { s with listButton := l }

/-- The page number and the number of pages, as they are written to `naviBuf`. -/
def HmiList.pageNumbers (s : HmiList) : ℤ × ℤ :=
  (s.curIndex.tdiv s.buttonNum + 1, divAndFloor s.listNum s.buttonNum)

/-- `hmi_list_load`. -/
def hmiListLoad (s : HmiList) : Option HmiList :=
  hmiListRefresh { s with naviBuf := s.pageNumbers, naviButton := true }

/-- The end of each of the next three functions. -/
def HmiList.showPage (s : HmiList) : Option HmiList :=
  (hmiListRefresh s).map fun s => { s with naviBuf := s.pageNumbers }

/-- `hmi_list_navi_next_func`. -/
def hmiListNaviNextFunc (s : HmiList) : Option HmiList :=
  if s.curIndex + s.buttonNum < s.listNum then
    { s with curIndex := s.curIndex + s.buttonNum }.showPage
  else some s

/-- `hmi_list_navi_prev_func`. -/
def hmiListNaviPrevFunc (s : HmiList) : Option HmiList :=
  if s.curIndex > 0 then
    let curIndex := s.curIndex - s.buttonNum
    { s with curIndex := if curIndex < 0 then 0 else curIndex }.showPage
  else some s

/-- `hmi_list_navi_ret_func`. -/
def hmiListNaviRetFunc (s : HmiList) : Option HmiList := { s with curIndex := 0 }.showPage

/-! ## The tables -/

/-- `itemsL2pre_operation`. -/
def itemsL2preOperation : List HmiItem :=
  [⟨"调平", .func⟩, ⟨"进料", .func⟩, ⟨"退料", .func⟩]

/-- `itemsL2Speed`. -/
def itemsL2Speed : List HmiItem :=
  [⟨"速度系数:", .fp⟩, ⟨"速度系数+0.1:", .func⟩, ⟨"速度系数-0.1:", .func⟩,
    ⟨"速度系数+1.0:", .func⟩, ⟨"速度系数-1.0", .func⟩, ⟨"速度系数=1.0", .func⟩]

/-- `itemsL2Temp`; the first name is a buffer, here as it is after power-on. -/
def itemsL2Temp : List HmiItem :=
  [⟨"温度[自动]:0", .func⟩, ⟨"目的温度+1", .func⟩, ⟨"目的温度-1", .func⟩,
    ⟨"目的温度+10", .func⟩, ⟨"目的温度-10", .func⟩, ⟨"目的温度=默认", .func⟩]

/-- `itemsL2Moto`. -/
def itemsL2Moto : List HmiItem :=
  [⟨"使能电机ALL:", .func⟩, ⟨"关闭电机ALL:", .func⟩, ⟨"使能电机X:", .func⟩,
    ⟨"使能电机Y:", .func⟩, ⟨"使能电机Z:", .func⟩, ⟨"使能电机E:", .func⟩,
    ⟨"X轴右移1mm:", .func⟩, ⟨"X轴左移1mm:", .func⟩, ⟨"X轴右移10mm:", .func⟩,
    ⟨"X轴左移10mm:", .func⟩, ⟨"Y轴后移1mm:", .func⟩, ⟨"Y轴前移1mm:", .func⟩,
    ⟨"Y轴后移10mm:", .func⟩, ⟨"Y轴前移10mm:", .func⟩, ⟨"Z轴下移1mm:", .func⟩,
    ⟨"Z轴上移1mm:", .func⟩, ⟨"Z轴下移10mm:", .func⟩, ⟨"Z轴上移10mm:", .func⟩,
    ⟨"进料1mm:", .func⟩, ⟨"退料1mm:", .func⟩, ⟨"进料10mm:", .func⟩, ⟨"退料10mm:", .func⟩]

/-- `itemsL2fan`; the first two names are buffers, here as they are after power-on. -/
def itemsL2fan : List HmiItem :=
  [⟨"风速系数[自动]", .func⟩, ⟨"左风扇开关", .func⟩, ⟨"风速系数+0.1", .func⟩,
    ⟨"风速系数-0.1", .func⟩]

/-- The buttons that call `switchToItems2`. -/
inductive ConfigMenu
  | speed | temp | moto | preOperation | fan

def ConfigMenu.items : ConfigMenu → List HmiItem
  | .speed => itemsL2Speed
  | .temp => itemsL2Temp
  | .moto => itemsL2Moto
  | .preOperation => itemsL2preOperation
  | .fan => itemsL2fan

/-- `switchToItems2`. -/
def switchToItems2 (s : HmiList) (m : ConfigMenu) : Option HmiList :=
  hmiListLoad { s with list := m.items, listNum := m.items.length }

/-- `ITEM_NUM`. -/
def itemNum : ℕ := 6

/-- `list` of `screen_config_sub.c` after power-on. -/
def HmiList.boot : HmiList := ⟨[], itemsL2Speed.length, itemNum, 0, (0, 0), [], false⟩

/-! ## Presses -/

/-- A press of a navigation button, or a change of the table. -/
inductive ListAction
  | next | prev | ret
  | switch (m : ConfigMenu)

/-- The navigation buttons do nothing to a list that they have not been given. -/
def HmiList.step (s : HmiList) : ListAction → Option HmiList
  | .next => if s.naviButton then hmiListNaviNextFunc s else some s
  | .prev => if s.naviButton then hmiListNaviPrevFunc s else some s
  | .ret => if s.naviButton then hmiListNaviRetFunc s else some s
  | .switch m => switchToItems2 s m

def configList : Machine HmiList ListAction := ⟨HmiList.step⟩

structure HmiList.InsideList (s : HmiList) : Prop where
  curIndex_nonneg : 0 ≤ s.curIndex
  curIndex_lt : s.curIndex < s.listNum
  buttonNum_dvd : s.buttonNum ∣ s.curIndex
  shows : s.naviButton = true → ∃ item, some item ∈ s.listButton
  page_le : s.naviBuf.1 ≤ s.naviBuf.2

/-- A change of the table is made with an index that the new table has. -/
def HmiList.SwitchFits (s : HmiList) : ListAction → Prop
  | .switch m => s.curIndex < m.items.length
  | _ => True

/-! ## Pages -/

/-- The items from `curIndex` on. -/
def HmiList.page (s : HmiList) : List (Option HmiItem) :=
  (List.range s.buttonNum.toNat).map fun i => s.list[s.curIndex.toNat + i]?

/-- The list with its page on the buttons and its number in `naviBuf`. -/
def HmiList.drawn (s : HmiList) : HmiList :=
  { s with listButton := s.page, naviBuf := s.pageNumbers }

/-- What holds of the list in any case. -/
structure HmiList.Regular (s : HmiList) : Prop where
  buttonNum_eq : s.buttonNum = itemNum
  curIndex_nonneg : 0 ≤ s.curIndex
  listNum_eq : s.naviButton = true → s.listNum = s.list.length

section Draw

variable {s : HmiList} (h₀ : 0 ≤ s.curIndex) (hlen : s.listNum = s.list.length)

include h₀ hlen

theorem face_eq (i : ℕ) : s.face i = some s.list[s.curIndex.toNat + i]? := by
  have hindex : (i + s.curIndex).toNat = s.curIndex.toNat + i := by omega
  rw [HmiList.face]
  split
  · rename_i hlt
    rw [HmiList.item, if_pos (by omega), hindex, List.getElem?_eq_getElem (by omega)]
    rfl
  · rw [List.getElem?_eq_none (by omega)]

theorem faces_eq (n : ℕ) :
    s.faces n = some ((List.range n).map fun i => s.list[s.curIndex.toNat + i]?) := by
  induction n with
  | zero => rfl
  | succ n ih =>
      rw [HmiList.faces, ih, face_eq h₀ hlen n, List.range_succ, List.map_append]
      rfl

theorem showPage_eq : s.showPage = some s.drawn := by
  rw [HmiList.showPage, hmiListRefresh, faces_eq h₀ hlen]
  rfl

theorem hmiListLoad_eq : hmiListLoad s = some { s with naviButton := true }.drawn := by
  rw [hmiListLoad, hmiListRefresh, faces_eq (s := { s with
    naviBuf := s.pageNumbers, naviButton := true }) h₀ hlen]
  rfl

/-- A page of the list has an item, and its number is that of a page. -/
theorem drawn_inside (hbutton : s.buttonNum = itemNum) (hlt : s.curIndex < s.listNum)
    (hdvd : (itemNum : ℤ) ∣ s.curIndex) : s.drawn.InsideList where
  curIndex_nonneg := h₀
  curIndex_lt := hlt
  buttonNum_dvd := by
    show s.buttonNum ∣ s.curIndex
    rwa [hbutton]
  shows _ := by
    have hfirst : s.curIndex.toNat < s.list.length := by omega
    refine ⟨s.list[s.curIndex.toNat], List.mem_map.mpr ⟨0, ?_, ?_⟩⟩
    · rw [List.mem_range, hbutton]
      decide
    · rw [Nat.add_zero, List.getElem?_eq_getElem hfirst]
  page_le := by
    obtain ⟨k, hk⟩ := hdvd
    show s.curIndex.tdiv s.buttonNum + 1 ≤ divAndFloor s.listNum s.buttonNum
    rw [divAndFloor, hbutton, Int.tdiv_eq_ediv_of_nonneg h₀,
      Int.tdiv_eq_ediv_of_nonneg (by omega), Int.tmod_eq_emod_of_nonneg (by omega)]
    unfold itemNum at hk ⊢
    split <;> omega

end Draw

/-! ## Runs -/

/-- A step of a regular list to `t` keeps it so, and inside of the table exactly as `fits`
says. -/
def HmiList.Keeps (s t : HmiList) (fits : Prop) : Prop :=
  t.Regular ∧ (s.InsideList → fits → t.InsideList) ∧ (¬ fits → ¬ t.InsideList)

theorem HmiList.Regular.keeps_self {s : HmiList} (h : s.Regular) : s.Keeps s True :=
  ⟨h, fun hinside _ => hinside, fun hfalse => absurd trivial hfalse⟩

theorem HmiList.Regular.turn {s : HmiList} (h : s.Regular) (hnavi : s.naviButton = true) {k : ℤ}
    (hk : 0 ≤ k) (hin : s.InsideList → k < s.listNum ∧ (itemNum : ℤ) ∣ k) :
    { s with curIndex := k }.showPage = some { s with curIndex := k }.drawn ∧
      s.Keeps { s with curIndex := k }.drawn True := by
  have hlen := h.listNum_eq hnavi
  refine ⟨showPage_eq hk hlen, ⟨h.buttonNum_eq, hk, h.listNum_eq⟩, ?_, ?_⟩
  · intro hinside _
    obtain ⟨hlt, hdvd⟩ := hin hinside
    exact drawn_inside hk hlen h.buttonNum_eq hlt hdvd
  · exact fun hfalse => absurd trivial hfalse

theorem HmiList.Regular.next {s : HmiList} (h : s.Regular) (hnavi : s.naviButton = true) :
    ∃ t, hmiListNaviNextFunc s = some t ∧ s.Keeps t True := by
  have hbutton := h.buttonNum_eq
  have h₀ := h.curIndex_nonneg
  rw [hmiListNaviNextFunc]
  split
  · rename_i hlt
    refine ⟨_, h.turn hnavi (k := s.curIndex + s.buttonNum) ?_ fun hinside => ⟨hlt, ?_⟩⟩
    · rw [hbutton, itemNum]
      omega
    · rw [← hbutton]
      exact Int.dvd_add hinside.buttonNum_dvd (Int.dvd_refl _)
  · exact ⟨s, rfl, h.keeps_self⟩

theorem HmiList.Regular.prev {s : HmiList} (h : s.Regular) (hnavi : s.naviButton = true) :
    ∃ t, hmiListNaviPrevFunc s = some t ∧ s.Keeps t True := by
  have hbutton := h.buttonNum_eq
  rw [hmiListNaviPrevFunc]
  split
  · rename_i hpos
    refine ⟨_, h.turn hnavi
      (k := if s.curIndex - s.buttonNum < 0 then 0 else s.curIndex - s.buttonNum) ?_ ?_⟩
    · split <;> omega
    · intro hinside
      have hlt := hinside.curIndex_lt
      obtain ⟨k, hk⟩ := hinside.buttonNum_dvd
      rw [hbutton] at hk ⊢
      rw [itemNum] at hk ⊢
      -- the index is a multiple of 6 and not 0
      split <;> omega
  · exact ⟨s, rfl, h.keeps_self⟩

theorem HmiList.Regular.ret {s : HmiList} (h : s.Regular) (hnavi : s.naviButton = true) :
    ∃ t, hmiListNaviRetFunc s = some t ∧ s.Keeps t True := by
  refine ⟨_, h.turn hnavi (k := 0) le_rfl fun hinside => ⟨?_, Int.dvd_zero _⟩⟩
  exact hinside.curIndex_nonneg.trans_lt hinside.curIndex_lt

theorem HmiList.Regular.switch {s : HmiList} (h : s.Regular) (m : ConfigMenu) :
    ∃ t, switchToItems2 s m = some t ∧ s.Keeps t (s.curIndex < m.items.length) := by
  let s' : HmiList := { s with list := m.items, listNum := m.items.length, naviButton := true }
  have h₀ := h.curIndex_nonneg
  refine ⟨s'.drawn, hmiListLoad_eq h₀ rfl, ⟨h.buttonNum_eq, h₀, fun _ => rfl⟩, ?_, ?_⟩
  · intro hinside hfits
    have hdvd := hinside.buttonNum_dvd
    rw [h.buttonNum_eq] at hdvd
    exact drawn_inside (s := s') h₀ rfl h.buttonNum_eq hfits hdvd
  · exact fun hmiss hinside => hmiss hinside.curIndex_lt

/-- A button that the list may not have been given. -/
theorem HmiList.Regular.press {s : HmiList} (h : s.Regular) {f : HmiList → Option HmiList}
    (hf : s.naviButton = true → ∃ t, f s = some t ∧ s.Keeps t True) :
    ∃ t, (if s.naviButton then f s else some s) = some t ∧ s.Keeps t True := by
  split
  · exact hf ‹_›
  · exact ⟨s, rfl, h.keeps_self⟩

theorem HmiList.Regular.step {s : HmiList} (h : s.Regular) (a : ListAction) :
    ∃ t, configList.step s a = some t ∧ s.Keeps t (s.SwitchFits a) := by
  cases a with
  | switch m => exact h.switch m
  | next => exact h.press h.next
  | prev => exact h.press h.prev
  | ret => exact h.press h.ret

theorem boot_regular : HmiList.boot.Regular := ⟨rfl, le_rfl, fun h => by simp [HmiList.boot] at h⟩

theorem boot_inside : HmiList.boot.InsideList :=
  ⟨le_rfl, by decide, Int.dvd_zero _, fun h => by simp [HmiList.boot] at h, le_rfl⟩

/-- Nothing is read beyond a table, and the page shown is one of the list after every step,
exactly if no table is put under an index that it does not have. -/
theorem list_navigation_iff (as : List ListAction) :
    (∃ t, configList.exec .boot as = some t) ∧
      (configList.Always HmiList.InsideList .boot as ↔
        configList.AllSteps HmiList.SwitchFits .boot as) := by
  constructor
  · obtain ⟨t, hexec, -⟩ := Machine.exec_total (M := configList) (I := HmiList.Regular)
      (fun s a h => by
        obtain ⟨t, hstep, hkeeps⟩ := h.step a
        exact ⟨t, hstep, hkeeps.1⟩) boot_regular as
    exact ⟨t, hexec⟩
  · refine Machine.always_iff_allSteps
      (J := fun s : HmiList => s.Regular ∧ s.InsideList) (fun s h => h.2) ?_ ?_
      ⟨boot_regular, boot_inside⟩ as
    · rintro s a t ⟨hregular, hinside⟩ hstep hfits
      obtain ⟨t', hstep', hkeeps⟩ := hregular.step a
      obtain rfl : t' = t := Option.some.inj (hstep'.symm.trans hstep)
      exact ⟨hkeeps.1, hkeeps.2.1 hinside hfits⟩
    · rintro s a t ⟨hregular, -⟩ hstep hmiss
      obtain ⟨t', hstep', hkeeps⟩ := hregular.step a
      obtain rfl : t' = t := Option.some.inj (hstep'.symm.trans hstep)
      exact hkeeps.2.2 hmiss

/-- The last page of the motors and then the speed: page 4 of 1, which is empty. -/
theorem list_page_4_of_1 :
    ¬ configList.Always HmiList.InsideList .boot
      [.switch .moto, .next, .next, .next, .switch .speed] := by
  intro h
  obtain ⟨t, hexec, hnumbers⟩ : ∃ t,
      configList.exec .boot [.switch .moto, .next, .next, .next, .switch .speed] = some t ∧
        t.naviBuf = (4, 1) := ⟨_, rfl, rfl⟩
  have hpage := (h.exec hexec).page_le
  rw [hnumbers] at hpage
  exact absurd hpage (by decide)

end TdPrinter
