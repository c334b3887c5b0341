import TdPrinter.Param.ParamStore
import TdPrinter.Foundation.Machine
import Mathlib.Data.List.TakeDrop

/-!
# What `param_load` and `param_save` promise

Two laws are wanted of the parameter file.  A load should accept exactly the
complete, valid files and leave the working copy alone otherwise; a save that
reports success should have put the working copy on the card.  Both fail, and
this file determines exactly when.

* `param_load` ignores how many bytes the read delivered.  What it validates is
  the file's prefix continued by the stale bytes of `paramRom`; the law holds
  unless a short read leaves a valid mixture (`loadExact_iff`).
* `param_save` trusts three things: that `paramRom` is what the file holds, that
  the write was complete, and that nobody has edited the version number.  A
  history of calls tells the truth exactly when every skipped save finds
  `paramRom` on the card and every other save is written in full
  (`saves_truthful_iff`).
-/

namespace TdPrinter

/-! ## Loading -/

/-- The record formed by the first `paramSize` bytes of a file. -/
def fileRecord (content : List UInt8) : ParamImage := readOver content paramSize fun _ _ => 0

/-- The open succeeded and the read delivered a whole record of `content`. -/
def CompleteRead (s : ParamStore) (io : ReadOutcome) (content : List UInt8) : Prop :=
  io.opening = .opened ∧ s.file = some content ∧ io.delivered content = paramSize

/-- The law of `param_load`: result 0 exactly for a complete, valid record, which
then is the working copy; otherwise the working copy is untouched. -/
structure LoadExact (s : ParamStore) (io : ReadOutcome) : Prop where
  accepts : (paramLoad s io).1 = 0 ↔
    ∃ content, CompleteRead s io content ∧ checkValid (fileRecord content) = 0
  restores : ∀ content, s.file = some content → (paramLoad s io).1 = 0 →
    (paramLoad s io).2.ram = fileRecord content
  keeps : (paramLoad s io).1 ≠ 0 → (paramLoad s io).2.ram = s.ram

/-- A read that stops short of a whole record leaves no valid mixture of the
file's prefix and the bytes already cached in `paramRom`. -/
def NoValidMixture (s : ParamStore) (io : ReadOutcome) : Prop :=
  ∀ content, io.opening = .opened → s.file = some content → io.delivered content < paramSize →
    checkValid (readOver content (io.delivered content) s.rom) ≠ 0

theorem delivered_le (io : ReadOutcome) (content : List UInt8) :
    io.delivered content ≤ paramSize :=
  (Nat.min_le_right _ _).trans (Nat.min_le_left _ _)

/-- Either a file was opened, or the load is refused and nothing changes. -/
theorem opened_or_refused (s : ParamStore) (io : ReadOutcome) :
    (∃ content, io.opening = .opened ∧ s.file = some content) ∨
      paramLoad s io = (-1, s) ∧ ∀ content, io.opening = .opened → s.file ≠ some content := by
  obtain ⟨ram, rom, file⟩ := s
  cases hopen : io.opening with
  | noMemory => exact Or.inr ⟨by simp [paramLoad, paramLoadRom, hopen], by simp⟩
  | failed => exact Or.inr ⟨by simp [paramLoad, paramLoadRom, hopen], by simp⟩
  | opened =>
      cases file with
      | none => exact Or.inr ⟨by simp [paramLoad, paramLoadRom, hopen], by simp⟩
      | some content => exact Or.inl ⟨content, rfl, rfl⟩

/-- A load of an opened file is decided by the validity of the mixture that the
read leaves in `paramRom`. -/
theorem paramLoad_opened {s : ParamStore} {io : ReadOutcome} {content : List UInt8}
    (hopen : io.opening = .opened) (hfile : s.file = some content) :
    paramLoad s io =
      let rom := readOver content (io.delivered content) s.rom
      if checkValid rom = 0 then (0, ⟨rom, rom, some content⟩)
      else (-2, ⟨s.ram, rom, some content⟩) := by
  unfold paramLoad paramLoadRom
  simp only [hopen, hfile]
  split <;> simp_all

theorem fileRecord_eq {content : List UInt8} {p : ParamImage} {n : ℕ} (hn : n = paramSize) :
    readOver content n p = fileRecord content := by
  subst hn
  exact readOver_full content p _

/-- A load that opens no file is refused, and nothing changes. -/
theorem loadExact_of_refused {s : ParamStore} {io : ReadOutcome} (hload : paramLoad s io = (-1, s))
    (hnot : ∀ content, io.opening = .opened → s.file ≠ some content) : LoadExact s io where
  accepts := by
    rw [hload]
    refine iff_of_false (by simp) ?_
    rintro ⟨c, ⟨hopen, hfile, -⟩, -⟩
    exact hnot c hopen hfile
  restores c _ hzero := by simp [hload] at hzero
  keeps _ := by rw [hload]

/-- A complete read is decided by the record alone. -/
theorem loadExact_of_complete {s : ParamStore} {io : ReadOutcome} {content : List UInt8}
    (hopen : io.opening = .opened) (hfile : s.file = some content)
    (hfull : io.delivered content = paramSize) : LoadExact s io := by
  have hload := paramLoad_opened hopen hfile
  simp only [fileRecord_eq hfull] at hload
  by_cases hvalid : checkValid (fileRecord content) = 0
  · rw [if_pos hvalid] at hload
    refine ⟨?_, ?_, ?_⟩
    · rw [hload]
      exact iff_of_true rfl ⟨content, ⟨hopen, hfile, hfull⟩, hvalid⟩
    · intro c hc _
      rw [hload, Option.some_inj.mp (hc.symm.trans hfile)]
    · intro hne
      simp [hload] at hne
  · rw [if_neg hvalid] at hload
    refine ⟨?_, ?_, ?_⟩
    · rw [hload]
      refine iff_of_false (by simp) ?_
      rintro ⟨c, ⟨-, hc, -⟩, hc'⟩
      rw [Option.some_inj.mp (hc.symm.trans hfile)] at hc'
      exact hvalid hc'
    · intro c _ hzero
      simp [hload] at hzero
    · intro _
      rw [hload]

/-- After a short read the law asks for a refusal, so it depends on the mixture. -/
theorem loadExact_of_short_iff {s : ParamStore} {io : ReadOutcome} {content : List UInt8}
    (hopen : io.opening = .opened) (hfile : s.file = some content)
    (hshort : io.delivered content < paramSize) :
    LoadExact s io ↔ checkValid (readOver content (io.delivered content) s.rom) ≠ 0 := by
  have hload := paramLoad_opened hopen hfile
  have hnone : ¬ ∃ c, CompleteRead s io c ∧ checkValid (fileRecord c) = 0 := by
    rintro ⟨c, ⟨-, hc, hdelivered⟩, -⟩
    rw [Option.some_inj.mp (hc.symm.trans hfile)] at hdelivered
    exact hshort.ne hdelivered
  constructor
  · intro law hvalid
    exact hnone (law.accepts.mp (by rw [hload, if_pos hvalid]))
  · intro hinvalid
    rw [if_neg hinvalid] at hload
    refine ⟨?_, ?_, ?_⟩
    · simp [hload, hnone]
    · intro c _ hzero
      simp [hload] at hzero
    · intro _
      rw [hload]

/-- `param_load` obeys its law exactly when no short read leaves a valid
mixture. -/
theorem loadExact_iff (s : ParamStore) (io : ReadOutcome) :
    LoadExact s io ↔ NoValidMixture s io := by
  rcases opened_or_refused s io with ⟨content, hopen, hfile⟩ | ⟨hload, hnot⟩
  · have hunique : ∀ c, s.file = some c → c = content := fun c hc =>
      Option.some_inj.mp (hc.symm.trans hfile)
    rcases (delivered_le io content).lt_or_eq with hshort | hfull
    · rw [loadExact_of_short_iff hopen hfile hshort]
      constructor
      · intro hinvalid c _ hc _
        rwa [hunique c hc]
      · intro hmix
        exact hmix content hopen hfile hshort
    · refine iff_of_true (loadExact_of_complete hopen hfile hfull) ?_
      intro c _ hc hlt
      rw [hunique c hc] at hlt
      exact absurd hfull hlt.ne
  · refine iff_of_true (loadExact_of_refused hload hnot) ?_
    intro content hopen hfile
    exact absurd hfile (hnot content hopen)

/-- An empty file is accepted while a valid record is cached: after a save has
filled `paramRom`, the file is cut to length 0, and the next load reports
success. -/
theorem loadExact_fails_on_empty_file :
    ¬ LoadExact ⟨paramResetRam, paramResetRam, some []⟩ .faultFree := by
  rw [loadExact_iff]
  intro hmix
  refine hmix [] rfl rfl (by decide) ?_
  exact checkValid_sealChecksum version_paramResetRam

/-! ## Saving -/

/-- The file holds exactly the working copy, and a fault-free load right now
succeeds and restores exactly that record. -/
def ParamStore.OnCard (s : ParamStore) : Prop :=
  s.file = some s.ram.bytes ∧
    (paramLoad s .faultFree).1 = 0 ∧ (paramLoad s .faultFree).2.ram = s.ram

/-- A history of the parameter module: its state and, right after a `param_save`,
the result of that call. -/
structure ParamHistory where
  store : ParamStore
  saved : Option ℤ

/-- The calls and edits a history consists of. -/
inductive ParamAction
  | edit (k : Fin paramLength) (w : Word)
  | load (io : ReadOutcome)
  | reset
  | save (io : WriteOutcome)

def ParamHistory.step (h : ParamHistory) : ParamAction → Option ParamHistory
  | .edit k w => some ⟨{ h.store with ram := Function.update h.store.ram k w }, none⟩
  | .load io => some ⟨(paramLoad h.store io).2, none⟩
  | .reset => some ⟨(paramReset h.store).2, none⟩
  | .save io => some ⟨(paramSave h.store io).2, some (paramSave h.store io).1⟩

def paramMachine : Machine ParamHistory ParamAction := ⟨ParamHistory.step⟩

/-- The state after power-on and `param_init`. -/
def ParamHistory.start (file : Option (List UInt8)) (io : ReadOutcome) : ParamHistory :=
  ⟨(paramInit (.boot file) io).2, none⟩

/-- A `param_save` that has just returned 0 told the truth. -/
def ParamHistory.Truthful (h : ParamHistory) : Prop := h.saved = some 0 → h.store.OnCard

/-- The working copy carries the current version number. -/
def ParamHistory.Versioned (h : ParamHistory) : Prop :=
  wordValue (h.store.ram versionWord) = paramVersion

/-- The file holds the cached record with its checksum, and that is a record of
the current version. -/
def ParamStore.CacheOnCard (s : ParamStore) : Prop :=
  s.file = some (sealChecksum s.rom).bytes ∧ wordValue (s.rom versionWord) = paramVersion

/-- What a `param_save` needs of the state and of its I/O: if the cached copy
makes it skip the write then that copy is on the card, and otherwise a file that
opens takes all bytes of a record of the current version. -/
def SaveSound (h : ParamHistory) : ParamAction → Prop
  | .save io =>
      if sameParams h.store.rom (sealChecksum h.store.ram) then h.store.CacheOnCard
      else io.opening = .opened → paramSize ≤ io.writeLen ∧ h.Versioned
  | _ => True

theorem paramSave_ram (s : ParamStore) (io : WriteOutcome) :
    (paramSave s io).2.ram = sealChecksum s.ram := by
  unfold paramSave
  dsimp only
  split
  · rfl
  · split <;> rfl

/-- A sealed record that is on the card is also what a load brings back, if its
version number is right. -/
theorem onCard_iff_file {s : ParamStore} {p : ParamImage} (hram : s.ram = sealChecksum p) :
    s.OnCard ↔ s.file = some s.ram.bytes ∧ wordValue (p versionWord) = paramVersion := by
  refine and_congr_right ?_
  intro hfile
  have hdelivered : ReadOutcome.faultFree.delivered s.ram.bytes = paramSize := by
    simp [ReadOutcome.delivered, ReadOutcome.faultFree]
  rw [paramLoad_opened rfl hfile, hdelivered, readOver_bytes, hram]
  constructor
  · rintro ⟨hzero, -⟩
    by_contra hversion
    have hinvalid : checkValid (sealChecksum p) ≠ 0 := fun hvalid =>
      hversion (sealChecksum_versionWord p ▸ version_of_checkValid hvalid)
    simp [hinvalid] at hzero
  · intro hversion
    simp [checkValid_sealChecksum hversion]

theorem bytes_take_eq_iff (p : ParamImage) (n : ℕ) : p.bytes.take n = p.bytes ↔ paramSize ≤ n := by
  rw [List.take_eq_self_iff, ParamImage.length_bytes]

/-- When the write is skipped, the cached record is the one the save was to write. -/
theorem sealChecksum_rom_of_same {s : ParamStore}
    (hsame : sameParams s.rom (sealChecksum s.ram) = true) :
    sealChecksum s.rom = sealChecksum s.ram := by
  have hagree := sameParams_iff.mp hsame
  apply sealChecksum_congr
  intro k hk
  rw [hagree k hk, sealChecksum_of_ne hk]

/-- A skipped save leaves the record on the card if and only if the cache was there. -/
theorem cacheOnCard_iff_of_same {s : ParamStore}
    (hsame : sameParams s.rom (sealChecksum s.ram) = true) :
    s.CacheOnCard ↔
      s.file = some (sealChecksum s.ram).bytes ∧ wordValue (s.ram versionWord) = paramVersion := by
  have hversion : s.rom versionWord = s.ram versionWord := by
    rw [sameParams_iff.mp hsame versionWord (by decide), sealChecksum_versionWord]
  rw [ParamStore.CacheOnCard, sealChecksum_rom_of_same hsame, hversion]

theorem truthful_of_saved_none {t : ParamHistory} (h : t.saved = none) : t.Truthful := by
  intro hsaved
  simp [h] at hsaved

/-- One `param_save` tells the truth exactly when its step is sound. -/
theorem save_truthful_iff (h : ParamHistory) (io : WriteOutcome) :
    ParamHistory.Truthful ⟨(paramSave h.store io).2, some (paramSave h.store io).1⟩ ↔
      SaveSound h (.save io) := by
  have honcard := onCard_iff_file (paramSave_ram h.store io)
  simp only [ParamHistory.Truthful, SaveSound, ParamHistory.Versioned, Option.some_inj, honcard,
    paramSave_ram]
  unfold paramSave
  dsimp only
  split
  · rename_i hsame
    simp [cacheOnCard_iff_of_same hsame]
  · unfold paramSaveRom
    cases hopen : io.opening with
    | noMemory => simp
    | failed => simp
    | opened => simp

/-- A history of any edits, loads, resets and saves, with any I/O faults, tells the
truth at every successful save exactly when every save in it is sound. -/
theorem saves_truthful_iff (file : Option (List UInt8)) (io : ReadOutcome)
    (history : List ParamAction) :
    paramMachine.Always ParamHistory.Truthful (.start file io) history ↔
      paramMachine.AllSteps SaveSound (.start file io) history := by
  refine Machine.always_iff_allSteps (J := ParamHistory.Truthful) (fun _ htrue => htrue) ?_ ?_
    (truthful_of_saved_none rfl) history
  · intro h a t _ hstep hsound
    cases a with
    | save io =>
        obtain rfl := Option.some_inj.mp hstep
        exact (save_truthful_iff h io).mpr hsound
    | edit k w =>
        obtain rfl := Option.some_inj.mp hstep
        exact truthful_of_saved_none rfl
    | load io =>
        obtain rfl := Option.some_inj.mp hstep
        exact truthful_of_saved_none rfl
    | reset =>
        obtain rfl := Option.some_inj.mp hstep
        exact truthful_of_saved_none rfl
  · intro h a t _ hstep hunsound htrue
    cases a with
    | save io =>
        obtain rfl := Option.some_inj.mp hstep
        exact hunsound ((save_truthful_iff h io).mp htrue)
    | edit k w => exact hunsound trivial
    | load io => exact hunsound trivial
    | reset => exact hunsound trivial

/-! ## Histories without faults -/

/-- No fault in this step: a save gets all bytes onto the card, a load either finds no
file or reads one whole valid record, and an edit leaves the version number alone. -/
def FaultFree (h : ParamHistory) : ParamAction → Prop
  | .edit k _ => k ≠ versionWord
  | .save io => io.opening = .opened ∧ paramSize ≤ io.writeLen
  | .load io => ∀ content, io.opening = .opened → h.store.file = some content →
      content.length = paramSize ∧ paramSize ≤ io.readLen ∧ checkValid (fileRecord content) = 0
  | _ => True

theorem paramLoad_version {s : ParamStore} (io : ReadOutcome)
    (h : wordValue (s.ram versionWord) = paramVersion) :
    wordValue ((paramLoad s io).2.ram versionWord) = paramVersion := by
  rcases opened_or_refused s io with ⟨content, hopen, hfile⟩ | ⟨hload, -⟩
  · rw [paramLoad_opened hopen hfile]
    dsimp only
    split
    · rename_i hvalid
      exact version_of_checkValid hvalid
    · exact h
  · rw [hload]
    exact h

theorem step_versioned {h t : ParamHistory} {a : ParamAction} (hv : h.Versioned)
    (hstep : h.step a = some t) (hff : FaultFree h a) : t.Versioned := by
  cases a with
  | edit k w =>
      obtain rfl := Option.some_inj.mp hstep
      have hne : versionWord ≠ k := fun heq => hff heq.symm
      simpa only [ParamHistory.Versioned, Function.update_of_ne hne] using hv
  | load io =>
      obtain rfl := Option.some_inj.mp hstep
      exact paramLoad_version io hv
  | reset =>
      obtain rfl := Option.some_inj.mp hstep
      exact version_paramResetRam
  | save io =>
      obtain rfl := Option.some_inj.mp hstep
      simpa only [ParamHistory.Versioned, paramSave_ram, sealChecksum_versionWord] using hv

theorem start_versioned (file : Option (List UInt8)) (io : ReadOutcome) :
    (ParamHistory.start file io).Versioned := by
  unfold ParamHistory.Versioned ParamHistory.start paramInit
  dsimp only
  split
  · rename_i hzero
    -- a load that succeeds has checked the version of what it copies
    rcases opened_or_refused (.boot file) io with ⟨content, hopen, hfile⟩ | ⟨hload, -⟩
    · rw [paramLoad_opened hopen hfile] at hzero ⊢
      dsimp only at hzero ⊢
      split at hzero
      · rename_i hvalid
        rw [if_pos hvalid]
        exact version_of_checkValid hvalid
      · simp at hzero
    · rw [hload] at hzero
      simp at hzero
  · exact version_paramResetRam

/-- Once `paramRom` has been filled, the file holds it.  Before that its version
word is still 0. -/
def CacheFresh (s : ParamStore) : Prop :=
  wordValue (s.rom versionWord) = paramVersion → s.CacheOnCard

theorem bytes_fileRecord {content : List UInt8} (h : content.length = paramSize) :
    (fileRecord content).bytes = content := by
  apply List.ext_getElem
  · rw [ParamImage.length_bytes, h]
  · intro n hn hn'
    have hn4 : 4 * (n / 4) + n % 4 = n := by omega
    have hlt : n < paramSize := h ▸ hn'
    simp only [ParamImage.bytes, List.getElem_ofFn, fileRecord, readOver, hn4, if_pos hlt]
    rw [List.getD_eq_getElem?_getD, List.getElem?_eq_getElem hn', Option.getD_some]

/-- A fresh cache makes the skipped write harmless. -/
theorem saveSound_of_cacheFresh {h : ParamHistory} (hv : h.Versioned)
    (hfresh : CacheFresh h.store) {io : WriteOutcome} (hff : FaultFree h (.save io)) :
    SaveSound h (.save io) := by
  simp only [SaveSound]
  split
  · rename_i hsame
    apply hfresh
    rw [sameParams_iff.mp hsame versionWord (by decide), sealChecksum_versionWord]
    exact hv
  · exact fun _ => ⟨hff.2, hv⟩

theorem cacheFresh_paramLoad {h : ParamHistory} (hfresh : CacheFresh h.store)
    {io : ReadOutcome} (hff : FaultFree h (.load io)) :
    CacheFresh (paramLoad h.store io).2 := by
  rcases opened_or_refused h.store io with ⟨content, hopen, hfile⟩ | ⟨hload, -⟩
  · obtain ⟨hlen, hread, hvalid⟩ := hff content hopen hfile
    have hdelivered : io.delivered content = paramSize := by
      simp [ReadOutcome.delivered, hlen, hread]
    rw [paramLoad_opened hopen hfile]
    simp only [fileRecord_eq hdelivered, hvalid, if_true]
    intro hversion
    refine ⟨?_, hversion⟩
    dsimp only
    rw [sealChecksum_of_checkValid hvalid, bytes_fileRecord hlen]
  · rw [hload]
    exact hfresh

theorem cacheFresh_paramSave {h : ParamHistory} (hv : h.Versioned)
    (hfresh : CacheFresh h.store) {io : WriteOutcome} (hff : FaultFree h (.save io)) :
    CacheFresh (paramSave h.store io).2 := by
  unfold paramSave
  dsimp only
  split
  · exact hfresh
  · have hwrite : paramSaveRom (sealChecksum h.store.ram) h.store.file io =
        (0, some (sealChecksum h.store.ram).bytes) := by
      rw [paramSaveRom, hff.1]
      simp only [(bytes_take_eq_iff _ _).mpr hff.2]
    simp only [hwrite, ne_eq, not_true_eq_false, if_false]
    intro hversion
    refine ⟨?_, hversion⟩
    dsimp only
    rw [sealChecksum_of_checkValid (checkValid_sealChecksum hv)]

/-- Without faults every successful save puts the record on the card: failures
need an open or write error, or a file that is cut or damaged. -/
theorem faultFree_saves_truthful (file : Option (List UInt8)) (io : ReadOutcome)
    (hstart : FaultFree ⟨.boot file, none⟩ (.load io)) {history : List ParamAction}
    (hff : paramMachine.AllSteps FaultFree (.start file io) history) :
    paramMachine.Always ParamHistory.Truthful (.start file io) history := by
  have hboot : CacheFresh (.boot file) := by
    intro hversion
    have hzero : wordValue (fun _ => 0) ≠ paramVersion := by decide
    exact absurd hversion hzero
  have hloaded : CacheFresh (ParamHistory.start file io).store := by
    have hload : CacheFresh (paramLoad (.boot file) io).2 := by
      apply @cacheFresh_paramLoad ⟨.boot file, none⟩
      · exact hboot
      · exact hstart
    unfold ParamHistory.start paramInit
    dsimp only
    split <;> exact hload
  refine Machine.always_of_allSteps
    (J := fun h : ParamHistory => h.Versioned ∧ CacheFresh h.store ∧ h.Truthful)
    (fun h hh => hh.2.2) ?_
    ⟨start_versioned file io, hloaded, truthful_of_saved_none rfl⟩ hff
  rintro h a t ⟨hv, hfresh, -⟩ hstep hclean
  refine ⟨step_versioned hv hstep hclean, ?_⟩
  cases a with
  | save io =>
      obtain rfl := Option.some_inj.mp hstep
      exact ⟨cacheFresh_paramSave hv hfresh hclean,
        (save_truthful_iff h io).mpr (saveSound_of_cacheFresh hv hfresh hclean)⟩
  | edit k w =>
      obtain rfl := Option.some_inj.mp hstep
      exact ⟨hfresh, truthful_of_saved_none rfl⟩
  | load io =>
      obtain rfl := Option.some_inj.mp hstep
      exact ⟨cacheFresh_paramLoad hfresh hclean, truthful_of_saved_none rfl⟩
  | reset =>
      obtain rfl := Option.some_inj.mp hstep
      exact ⟨hfresh, truthful_of_saved_none rfl⟩

/-- With no file on the card, a save whose open fails is followed by a retry: the
retry reports success although nothing was ever written. -/
theorem failed_save_then_retry_reports_success :
    ¬ paramMachine.Always ParamHistory.Truthful (.start none .faultFree)
      [.save ⟨.failed, paramSize⟩, .save ⟨.opened, paramSize⟩] := by
  rw [saves_truthful_iff]
  intro hall
  obtain ⟨-, hrest⟩ := hall _ rfl
  obtain ⟨hsound, -⟩ := hrest _ rfl
  -- the failed save has already put the record into `paramRom`
  have hskip : sameParams (sealChecksum paramResetRam) (sealChecksum (sealChecksum paramResetRam))
      = true := sameParams_iff.mpr fun k hk => (sealChecksum_of_ne hk).symm
  have hdiffer : sameParams (ParamStore.boot none).rom (sealChecksum paramResetRam) = false := by
    decide
  have hstart : (ParamHistory.start none .faultFree).store =
      ⟨paramResetRam, (ParamStore.boot none).rom, none⟩ := rfl
  have hfirst : (paramSave (ParamHistory.start none .faultFree).store ⟨.failed, paramSize⟩).2 =
      ⟨sealChecksum paramResetRam, sealChecksum paramResetRam, none⟩ := by
    simp [paramSave, paramSaveRom, hstart, hdiffer]
  simp [SaveSound, ParamStore.CacheOnCard, hfirst, hskip] at hsound

end TdPrinter
