import Mathlib.Data.List.OfFn
import Mathlib.Data.Fin.Basic
import Mathlib.Data.Nat.Digits.Defs
import Mathlib.Data.Nat.Digits.Lemmas
import Mathlib.Tactic.Ring

/-!
# The parameter record and its file

`param.c` keeps the printer parameters three times: `paramRam` is what the
program works with, `paramRom` is a cached copy of what is believed to be on the
card, and the file `.config.bin` is the card itself.  `param_save` skips the
write when the two copies agree; `param_load` reads the file straight over
`paramRom` and only then looks whether the result is valid.

A record is modelled as the memory image that the code handles: 36 words of four
bytes, the least significant byte first.  The code touches single fields only by
name; the image is what it checksums, compares, writes and reads.  The floats of
the record are the words of their IEEE encoding and nothing here interprets
them.
-/

namespace TdPrinter

/-! ## The record -/

/-- `PARAM_LENGTH`: `sizeof(param_t)/4`. -/
abbrev paramLength : ℕ := 36

/-- `sizeof(param_t)`. -/
abbrev paramSize : ℕ := 4 * paramLength

/-- `PARAM_VERSION`. -/
def paramVersion : UInt32 := 13

/-- One 32-bit word as it lies in memory. -/
abbrev Word := Fin 4 → UInt8

/-- The bytes of a `param_t`, word by word. -/
abbrev ParamImage := Fin paramLength → Word

/-- The value the processor reads from four bytes, the lowest one first. -/
def wordValue (w : Word) : UInt32 :=
  UInt32.ofNat (Nat.ofDigits 256 (List.ofFn fun j => (w j).toNat))

/-- The four bytes the processor stores for a value. -/
def wordBytes (v : UInt32) : Word := fun j => UInt8.ofNat (v.toNat / 256 ^ (j : ℕ))

theorem byte_lt {w : Word} : ∀ b ∈ List.ofFn fun j => (w j).toNat, b < 256 := by
  intro b hb
  obtain ⟨j, rfl⟩ := List.mem_ofFn.mp hb
  exact (w j).toNat_lt

theorem toNat_wordValue (w : Word) :
    (wordValue w).toNat = Nat.ofDigits 256 (List.ofFn fun j => (w j).toNat) := by
  rw [wordValue, UInt32.toNat_ofNat_of_lt']
  have hlt := Nat.ofDigits_lt_base_pow_length (by decide) (byte_lt (w := w))
  rwa [List.length_ofFn] at hlt

@[simp] theorem wordValue_wordBytes (v : UInt32) : wordValue (wordBytes v) = v := by
  have hv := v.toNat_lt
  apply UInt32.toNat_inj.mp
  rw [toNat_wordValue]
  simp [wordBytes, List.ofFn_succ, Nat.ofDigits_cons]
  omega

/-- Words with the same value have the same bytes. -/
theorem wordValue_injective : Function.Injective wordValue := by
  intro w w' h
  have heq := congrArg UInt32.toNat h
  rw [toNat_wordValue, toNat_wordValue] at heq
  have hbytes := Nat.ofDigits_inj_of_len_eq (by decide) (by simp) byte_lt byte_lt heq
  funext j
  exact UInt8.toNat_inj.mp (congrFun (List.ofFn_injective hbytes) j)

/-- The word of `param->version`. -/
def versionWord : Fin paramLength := 0

/-- The word of `param->checksum`. -/
def checksumWord : Fin paramLength := Fin.last 35

/-- `CalcChecksum`: the complement of the sum of all words but the last. -/
def calcChecksum (p : ParamImage) : UInt32 :=
  ~~~ (List.finRange 35).foldl (fun checksum i => checksum + wordValue (p i.castSucc)) 0

/-- `CheckValid`. -/
def checkValid (p : ParamImage) : ℤ :=
  if wordValue (p checksumWord) ≠ calcChecksum p then -1
  else if wordValue (p versionWord) ≠ paramVersion then -2
  else 0

/-- `param->checksum = CalcChecksum(param)`. -/
def sealChecksum (p : ParamImage) : ParamImage :=
  Function.update p checksumWord (wordBytes (calcChecksum p))

/-- The assignments of `param_resetRam` for `TDPRINTER_B`: version,
positionOffset, mm2step, microStep, maxSpeed, maxSpeedDelta, defaultEntrySpeed,
defaultAccelSpeed, maxAccelSpeed, advanceK and advanceDeprime.  Every word but
the checksum is assigned, so nothing of the previous contents is left. -/
def paramDefaults : List UInt32 :=
  [13,
   0x00000000, 0x00000000, 0x00000000, 0x00000000,
   0x40A00000, 0x40A00000, 0x40C00000, 0x44200000,
   16, 16, 16, 1,
   0x43480000, 0x43480000, 0x42480000, 0x41200000,
   0x41C80000, 0x41C80000, 0x42C80000, 0x3E4CCCCD,
   0x3F800000, 0x3F800000, 0x41200000, 0x40400000,
   0x447A0000, 0x447A0000, 0x461C4000, 0x43480000,
   0x453B8000, 0x453B8000, 0x459C4000, 0x43480000,
   0x00000000, 0x00000000]

/-- `param_resetRam`. -/
def paramResetRam : ParamImage :=
  sealChecksum fun k => wordBytes (paramDefaults.getD k 0)

theorem calcChecksum_congr {p q : ParamImage} (h : ∀ k, k ≠ checksumWord → p k = q k) :
    calcChecksum p = calcChecksum q := by
  have hfun : (fun (checksum : UInt32) (i : Fin 35) => checksum + wordValue (p i.castSucc)) =
      fun checksum i => checksum + wordValue (q i.castSucc) := by
    funext checksum i
    rw [h i.castSucc (Fin.castSucc_lt_last i).ne]
  rw [calcChecksum, calcChecksum, hfun]

theorem sealChecksum_of_ne {p : ParamImage} {k : Fin paramLength} (hk : k ≠ checksumWord) :
    sealChecksum p k = p k := Function.update_of_ne hk _ _

@[simp] theorem calcChecksum_sealChecksum (p : ParamImage) :
    calcChecksum (sealChecksum p) = calcChecksum p :=
  calcChecksum_congr fun _ hk => sealChecksum_of_ne hk

@[simp] theorem wordValue_sealChecksum (p : ParamImage) :
    wordValue (sealChecksum p checksumWord) = calcChecksum p := by
  rw [sealChecksum, Function.update_self, wordValue_wordBytes]

@[simp] theorem sealChecksum_versionWord (p : ParamImage) :
    sealChecksum p versionWord = p versionWord :=
  sealChecksum_of_ne (by decide)

theorem sealChecksum_congr {p q : ParamImage} (h : ∀ k, k ≠ checksumWord → p k = q k) :
    sealChecksum p = sealChecksum q := by
  funext k
  by_cases hk : k = checksumWord
  · subst hk
    simp only [sealChecksum, Function.update_self, calcChecksum_congr h]
  · rw [sealChecksum_of_ne hk, sealChecksum_of_ne hk, h k hk]

theorem checkValid_sealChecksum {p : ParamImage}
    (hversion : wordValue (p versionWord) = paramVersion) : checkValid (sealChecksum p) = 0 := by
  simp [checkValid, hversion]

theorem version_of_checkValid {p : ParamImage} (h : checkValid p = 0) :
    wordValue (p versionWord) = paramVersion := by
  unfold checkValid at h
  split at h
  · simp at h
  · split at h
    · simp at h
    · rename_i hversion
      exact not_not.mp hversion

theorem sealChecksum_of_checkValid {p : ParamImage} (h : checkValid p = 0) :
    sealChecksum p = p := by
  funext k
  by_cases hk : k = checksumWord
  · subst hk
    apply wordValue_injective
    rw [wordValue_sealChecksum]
    by_contra hne
    simp [checkValid, Ne.symm hne] at h
  · exact sealChecksum_of_ne hk

theorem version_paramResetRam : wordValue (paramResetRam versionWord) = paramVersion := by
  rw [paramResetRam, sealChecksum_versionWord, wordValue_wordBytes]
  rfl

/-! ## The file -/

/-- The bytes of a record in the order in which `dfs_file_write` takes them. -/
def ParamImage.bytes (p : ParamImage) : List UInt8 :=
  List.ofFn fun i : Fin paramSize =>
    p ⟨i / 4, Nat.div_lt_of_lt_mul i.isLt⟩ ⟨i % 4, Nat.mod_lt _ (by decide)⟩

/-- `dfs_file_read` into a record: the first `n` bytes come from the file, the
others stay as they are. -/
def readOver (content : List UInt8) (n : ℕ) (p : ParamImage) : ParamImage :=
  fun k j => if 4 * (k : ℕ) + j < n then content.getD (4 * k + j) 0 else p k j

@[simp] theorem ParamImage.length_bytes (p : ParamImage) : p.bytes.length = paramSize :=
  List.length_ofFn

/-- The position of a byte of the record inside the file. -/
theorem byteOffset_lt (k : Fin paramLength) (j : Fin 4) : 4 * (k : ℕ) + j < paramSize := by
  have hk : (k : ℕ) < 36 := k.isLt
  have hj := j.isLt
  show _ < 144
  omega

theorem ParamImage.getD_bytes (p : ParamImage) (k : Fin paramLength) (j : Fin 4) :
    p.bytes.getD (4 * k + j) 0 = p k j := by
  have hj := j.isLt
  have hlt : 4 * (k : ℕ) + j < p.bytes.length := by
    rw [ParamImage.length_bytes]
    exact byteOffset_lt k j
  rw [List.getD_eq_getElem?_getD, List.getElem?_eq_getElem hlt, Option.getD_some]
  simp only [ParamImage.bytes, List.getElem_ofFn]
  congr <;> omega

/-- Reading back a written record restores it, whatever was in memory before. -/
theorem readOver_bytes (p q : ParamImage) : readOver p.bytes paramSize q = p := by
  funext k j
  rw [readOver, if_pos (byteOffset_lt k j), ParamImage.getD_bytes]

/-- A complete read leaves nothing of the previous contents. -/
theorem readOver_full (content : List UInt8) (p q : ParamImage) :
    readOver content paramSize p = readOver content paramSize q := by
  funext k j
  rw [readOver, readOver, if_pos (byteOffset_lt k j), if_pos (byteOffset_lt k j)]

/-- How the allocation and the open at the start of `param_loadRom` and
`param_saveRom` end. -/
inductive OpenOutcome
  | noMemory
  | failed
  | opened
  deriving DecidableEq

/-- The outcome of the I/O of one `param_load`: the open, and how many bytes the
read delivers if the file has that many. -/
structure ReadOutcome where
  opening : OpenOutcome
  readLen : ℕ

/-- The outcome of the I/O of one `param_save`. -/
structure WriteOutcome where
  opening : OpenOutcome
  writeLen : ℕ

/-- A load in which nothing goes wrong. -/
def ReadOutcome.faultFree : ReadOutcome := ⟨.opened, paramSize⟩

/-- The number of bytes a read of the record delivers. -/
def ReadOutcome.delivered (io : ReadOutcome) (content : List UInt8) : ℕ :=
  min io.readLen (min paramSize content.length)

/-- `paramRam`, `paramRom` and the contents of `.config.bin` (`none`: no such
file). -/
structure ParamStore where
  ram : ParamImage
  rom : ParamImage
  file : Option (List UInt8)

/-- `param_loadRom`: the result code and the record it was to fill. -/
def paramLoadRom (p : ParamImage) (file : Option (List UInt8)) (io : ReadOutcome) :
    ℤ × ParamImage :=
  match io.opening, file with
  | .noMemory, _ => (-2, p)
  | .failed, _ => (-1, p)
  | .opened, none => (-1, p)
  | .opened, some content => (0, readOver content (io.delivered content) p)

/-- `param_saveRom`: the result code and the file.  The open truncates, and the
number of bytes written is not looked at. -/
def paramSaveRom (p : ParamImage) (file : Option (List UInt8)) (io : WriteOutcome) :
    ℤ × Option (List UInt8) :=
  match io.opening with
  | .noMemory => (-2, file)
  | .failed => (-1, file)
  | .opened => (0, some (p.bytes.take io.writeLen))

/-! ## Loading and saving -/

/-- `param_load`. -/
def paramLoad (s : ParamStore) (io : ReadOutcome) : ℤ × ParamStore :=
  let (ret, rom) := paramLoadRom s.rom s.file io
  -- `paramRom` has been read over whether or not the record is accepted
  if ret ≠ 0 then (-1, { s with rom := rom })
  else if checkValid rom ≠ 0 then (-2, { s with rom := rom })
  else (0, { s with rom := rom, ram := rom })

/-- The comparison loop of `param_save`: all words but the checksum agree. -/
def sameParams (rom ram : ParamImage) : Bool :=
  (List.finRange 35).all fun i => wordValue (rom i.castSucc) == wordValue (ram i.castSucc)

/-- `param_save`. -/
def paramSave (s : ParamStore) (io : WriteOutcome) : ℤ × ParamStore :=
  let ram := sealChecksum s.ram
  if sameParams s.rom ram then (0, { s with ram := ram })
  else
    -- `paramRom` is assigned before the file is written
    let (ret, file) := paramSaveRom ram s.file io
    if ret ≠ 0 then (-2, ⟨ram, ram, file⟩)
    else (0, ⟨ram, ram, file⟩)

/-- `param_reset`. -/
def paramReset (s : ParamStore) : ℤ × ParamStore := (0, { s with ram := paramResetRam })

/-- `param_init`. -/
def paramInit (s : ParamStore) (io : ReadOutcome) : ℤ × ParamStore :=
  let (ret, loaded) := paramLoad s io
  if ret = 0 then (0, loaded) else (0, (paramReset loaded).2)

/-- At power-on both copies are zero-initialised static data. -/
def ParamStore.boot (file : Option (List UInt8)) : ParamStore :=
  ⟨fun _ _ => 0, fun _ _ => 0, file⟩

theorem sameParams_iff {rom ram : ParamImage} :
    sameParams rom ram = true ↔ ∀ k, k ≠ checksumWord → rom k = ram k := by
  rw [sameParams, List.all_eq_true]
  constructor
  · intro h k hk
    obtain ⟨i, rfl⟩ := Fin.exists_castSucc_eq.mpr hk
    exact wordValue_injective (by simpa using h i (List.mem_finRange i))
  · intro h i _
    rw [h i.castSucc (Fin.castSucc_lt_last i).ne]
    exact beq_self_eq_true _

end TdPrinter
