import TdPrinter.GCode.Dispatch
import TdPrinter.GCode.LineBuffer
import TdPrinter.GCode.ReadAxis

/-!
# What the scans of a line depend on

Two contents of `lineBuffer` with one text differ in the comment, and in what earlier lines
have left behind the terminator.  A search ends at the terminator, and so does the scan of
a number that begins in front of it: neither sees the difference.

White space does not end at the terminator.  A letter with nothing but white space behind
it is therefore read with whatever the buffer holds behind the line, and this is the only
way in which a command depends on that (`onlyCurrentLine_iff`).
-/

namespace TdPrinter

/-- A content of `lineBuffer` with the text `t`. -/
structure Holds (t buffer : List UInt8) : Prop where
  length : buffer.length = gcodeBufferSize
  terminated : 0 ∈ buffer
  text : commandText buffer = t

/-- If `code` is in the text, there is more than white space behind it. -/
def StopsInside (t : List UInt8) (code : UInt8) : Prop :=
  ∀ lp, strchr code t = some lp → ∃ c ∈ lp.tail, myIsspace c = false

instance (t : List UInt8) (code : UInt8) : Decidable (StopsInside t code) :=
  inferInstanceAs (Decidable (∀ lp ∈ strchr code t, ∃ c ∈ lp.tail, myIsspace c = false))

/-- What `ReadAxis` sets, and what is found for the letters `codes`, is the same for all
contents of `lineBuffer` with the text `t`. -/
structure OnlyCurrentLine (R : Type*) [Field R] (codes t : List UInt8) : Prop where
  readAxis : ∀ (g : StepGCode R) b b', Holds t b → Holds t b' →
    (readAxis { g with lineBuffer := trim b }).map StepGCode.words =
      (readAxis { g with lineBuffer := trim b' }).map StepGCode.words
  codeFP : ∀ code ∈ codes, ∀ (g : StepGCode R) b b', Holds t b → Holds t b' →
    (codeSeek code { g with lineBuffer := trim b }).map codeFP =
      (codeSeek code { g with lineBuffer := trim b' }).map codeFP
  codeLong : ∀ code ∈ codes, ∀ (g : StepGCode R) b b', Holds t b → Holds t b' →
    (codeSeek code { g with lineBuffer := trim b }).map codeLong =
      (codeSeek code { g with lineBuffer := trim b' }).map codeLong

/-! ## Contents with a text -/

theorem Holds.notMem {t buffer : List UInt8} (h : Holds t buffer) {c : UInt8}
    (hc : EndsText c) : c ∉ t := by
  rw [← h.text]
  exact notMem_commandText hc

theorem Holds.trim_eq {t buffer : List UInt8} (h : Holds t buffer) :
    ∃ s, trim buffer = t ++ 0 :: s ∧ t.length + 1 + s.length = gcodeBufferSize := by
  obtain ⟨e, s, he, hsplit⟩ := commandText_split h.terminated
  rw [h.text] at hsplit
  obtain ⟨s', hlen, htrim, -⟩ := trim_text (fun c hc => h.notMem hc) he s
  refine ⟨s', by rw [hsplit, htrim], ?_⟩
  rw [← h.length, hsplit, List.length_append, List.length_cons, hlen]
  omega

theorem holds_stale {t s : List UInt8} (ht : ∀ c, EndsText c → c ∉ t)
    (hlen : t.length + 1 + s.length = gcodeBufferSize) :
    Holds t (t ++ 0 :: s) ∧ trim (t ++ 0 :: s) = t ++ 0 :: s := by
  refine ⟨⟨?_, by simp, ?_⟩, ?_⟩
  · rw [List.length_append, List.length_cons]
    omega
  · rw [commandText_append ht]
    simp [commandText]
  · obtain ⟨s', -, htrim, hs⟩ := trim_text ht (Or.inl rfl) s
    rw [htrim, hs rfl]

/-! ## Searches -/

section

variable {R : Type*} [Field R]

/-- The number behind a letter with more than white space behind it. -/
theorem StopsInside.myAtof_eq {t lp : List UInt8} {code : UInt8} (h : StopsInside t code)
    (hlp : strchr code t = some lp) (s s' : List UInt8) :
    (myAtof (lp.tail ++ 0 :: s) : Option R) = myAtof (lp.tail ++ 0 :: s') := by
  obtain ⟨v, hv⟩ := myAtof_local (R := R) (h lp hlp)
  rw [hv, hv]

theorem StopsInside.seekFP_eq {t : List UInt8} (ht : 0 ∉ t) {code : UInt8} (hcode : code ≠ 0)
    (h : StopsInside t code) (s s' : List UInt8) :
    seekFP (R := R) (t ++ 0 :: s) code = seekFP (t ++ 0 :: s') code := by
  rw [seekFP_text ht hcode, seekFP_text ht hcode]
  cases hlp : strchr code t with
  | none => rfl
  | some lp => exact congrArg (Option.map some) (h.myAtof_eq hlp s s')

theorem seekFP_letter {t : List UInt8} (ht : 0 ∉ t) {code : UInt8} (hcode : code ≠ 0)
    (s : List UInt8) : (seekFP (R := R) (t ++ 0 :: 81 :: s) code).isSome := by
  rw [seekFP_text ht hcode]
  cases hlp : strchr code t with
  | none => rfl
  | some lp =>
      by_cases hstop : ∃ c ∈ lp.tail, myIsspace c = false
      · obtain ⟨v, hv⟩ := myAtof_local (R := R) hstop
        simp [hv]
      · have hspace : ∀ c ∈ lp.tail ++ [0], myIsspace c = true := by
          intro c hc
          rcases List.mem_append.mp hc with hold | hzero
          · by_contra hne
            exact hstop ⟨c, hold, by simpa using hne⟩
          · rw [List.mem_singleton.mp hzero]
            rfl
        have hread : (myAtof (lp.tail ++ 0 :: 81 :: s) : Option R) = some 0 := by
          simpa using myAtof_letter (R := R) hspace s
        simp [hread]

/-- With nothing but zeros behind the terminator, a scan that goes on there leaves the
buffer. -/
theorem seekFP_zeros {t lp : List UInt8} (ht : 0 ∉ t) {code : UInt8} (hcode : code ≠ 0)
    (hlp : strchr code t = some lp) (hspace : ∀ c ∈ lp.tail, myIsspace c = true) (n : ℕ) :
    seekFP (R := R) (t ++ 0 :: List.replicate n 0) code = none := by
  have hall : ∀ c ∈ lp.tail ++ 0 :: List.replicate n 0, myIsspace c = true := by
    intro c hc
    rcases List.mem_append.mp hc with hold | hzero
    · exact hspace c hold
    · rcases List.mem_cons.mp hzero with rfl | hzero
      · rfl
      · rw [List.eq_of_mem_replicate hzero]
        rfl
  rw [seekFP_text ht hcode, hlp]
  simp [myAtof_eq_none hall]

end

/-! ## Lines that are read on their own -/

section

variable {R : Type*} [Field R] {codes t b : List UInt8}

omit [Field R] in
/-- A word is found in the text, and what is made of the pointer to it is the same if the scan
does not leave the text. -/
theorem Holds.codeSeek_map {β : Type*} {f : List UInt8 → β} {b' : List UInt8} {code : UInt8}
    (hb : Holds t b) (hb' : Holds t b') (hne : code ≠ 0)
    (hscan : ∀ lp, strchr code t = some lp → ∀ s s' : List UInt8,
      f (lp.tail ++ 0 :: s) = f (lp.tail ++ 0 :: s')) (g : StepGCode R) :
    (codeSeek code { g with lineBuffer := trim b }).map (fun g => f g.codeLp) =
      (codeSeek code { g with lineBuffer := trim b' }).map fun g => f g.codeLp := by
  obtain ⟨s, hs, -⟩ := hb.trim_eq
  obtain ⟨s', hs', -⟩ := hb'.trim_eq
  have hzero : 0 ∉ t := hb.notMem (Or.inl rfl)
  simp only [codeSeek, hs, hs', strchr_append hne t _ hzero, Option.map_map]
  cases hlp : strchr code t with
  | none => rfl
  | some lp =>
      have hcons := strchr_eq_some hlp
      simp only [Option.map_some, Function.comp_apply]
      rw [hcons, List.cons_append, List.cons_append, List.tail_cons, List.tail_cons,
        hscan lp hlp s s']

theorem onlyCurrentLine_of_stopsInside (hcodes : 0 ∉ codes)
    (h : ∀ code ∈ axisLetters ++ codes, StopsInside t code) : OnlyCurrentLine R codes t where
  readAxis g b b' hb hb' := by
    obtain ⟨s, hs, -⟩ := hb.trim_eq
    obtain ⟨s', hs', -⟩ := hb'.trim_eq
    refine readAxis_congr fun code hcode => ?_
    have hne := ne_zero_of_mem_axisLetters hcode
    rw [hs, hs']
    exact (h code (List.mem_append_left _ hcode)).seekFP_eq (hb.notMem (Or.inl rfl)) hne s s'
  codeFP code hcode g b b' hb hb' := by
    have hne : code ≠ 0 := fun h => hcodes (h ▸ hcode)
    refine hb.codeSeek_map hb' hne (fun lp hlp s s' => ?_) g
    exact (h code (List.mem_append_right _ hcode)).myAtof_eq hlp s s'
  codeLong code hcode g b b' hb hb' := by
    have hne : code ≠ 0 := fun h => hcodes (h ▸ hcode)
    exact hb.codeSeek_map hb' hne (fun lp _ s s' => atoi_local lp.tail s s') g

/-- A line that fills the buffer has only one content. -/
theorem onlyCurrentLine_of_full (hfull : t.length + 1 = gcodeBufferSize) :
    OnlyCurrentLine R codes t := by
  have hone : ∀ b b', Holds t b → Holds t b' → trim b = trim b' := by
    intro b b' hb hb'
    obtain ⟨s, hs, hlen⟩ := hb.trim_eq
    obtain ⟨s', hs', hlen'⟩ := hb'.trim_eq
    have hnil : s = [] := List.length_eq_zero_iff.mp (by omega)
    have hnil' : s' = [] := List.length_eq_zero_iff.mp (by omega)
    rw [hs, hs', hnil, hnil']
  constructor
  · intro g b b' hb hb'
    rw [hone b b' hb hb']
  · intro code _ g b b' hb hb'
    rw [hone b b' hb hb']
  · intro code _ g b b' hb hb'
    rw [hone b b' hb hb']

section

variable {code : UInt8} {lp : List UInt8} {n : ℕ}

/-- With a letter behind the line `ReadAxis` has an outcome, with nothing it has none. -/
theorem readAxis_stale_ne (hzero : 0 ∉ t) (hcode : code ∈ axisLetters)
    (hlp : strchr code t = some lp) (hspace : ∀ c ∈ lp.tail, myIsspace c = true)
    (g : StepGCode R) :
    (readAxis { g with lineBuffer := t ++ 0 :: 81 :: List.replicate n 0 }).map StepGCode.words ≠
      (readAxis { g with lineBuffer := t ++ 0 :: List.replicate (n + 1) 0 }).map
        StepGCode.words := by
  intro h
  have hsame := congrArg Option.isSome h
  rw [Option.isSome_map, Option.isSome_map] at hsame
  have hsome : (readAxis
      { g with lineBuffer := t ++ 0 :: 81 :: List.replicate n 0 }).isSome := by
    rw [readAxis_isSome_iff]
    exact fun c hc => seekFP_letter hzero (ne_zero_of_mem_axisLetters hc) _
  rw [hsome, eq_comm, readAxis_isSome_iff] at hsame
  have hsearch := hsame code hcode
  rw [seekFP_zeros hzero (ne_zero_of_mem_axisLetters hcode) hlp hspace] at hsearch
  exact Bool.noConfusion hsearch

theorem codeFP_stale_ne (hzero : 0 ∉ t) (hne : code ≠ 0) (hlp : strchr code t = some lp)
    (hspace : ∀ c ∈ lp.tail, myIsspace c = true) (g : StepGCode R) :
    (codeSeek code { g with lineBuffer := t ++ 0 :: 81 :: List.replicate n 0 }).map codeFP ≠
      (codeSeek code { g with lineBuffer := t ++ 0 :: List.replicate (n + 1) 0 }).map codeFP := by
  intro hsame
  have hsome := seekFP_letter (R := R) hzero hne (List.replicate n 0)
  have hnone := seekFP_zeros (R := R) hzero hne hlp hspace (n + 1)
  simp only [seekFP, strchr_append hne t _ hzero, hlp, Option.map_some] at hsome hnone
  simp only [codeSeek, strchr_append hne t _ hzero, hlp, Option.map_some, codeFP,
    Option.some.injEq] at hsame
  rw [hsame, hnone] at hsome
  exact Bool.noConfusion hsome

end

/-- Two contents that make the difference: behind the line, a letter that stops all scans,
and nothing. -/
theorem stopsInside_of_onlyCurrentLine (hb : Holds t b) (hroom : t.length + 1 < gcodeBufferSize)
    (hcodes : 0 ∉ codes) (h : OnlyCurrentLine R codes t) {code : UInt8}
    (hcode : code ∈ axisLetters ++ codes) : StopsInside t code := by
  intro lp hlp
  by_contra hstop
  have hspace : ∀ c ∈ lp.tail, myIsspace c = true := by
    intro c hc
    by_contra hne
    exact hstop ⟨c, hc, by simpa using hne⟩
  have htext : ∀ c, EndsText c → c ∉ t := fun c hc => hb.notMem hc
  have hzero : 0 ∉ t := htext 0 (Or.inl rfl)
  obtain ⟨n, hn⟩ : ∃ n, t.length + 2 + n = gcodeBufferSize :=
    Nat.exists_eq_add_of_le hroom |>.imp fun n hn => hn.symm
  obtain ⟨hletter, htrim⟩ :=
    holds_stale (s := 81 :: List.replicate n 0) htext (by simp; omega)
  obtain ⟨hnothing, htrim'⟩ :=
    holds_stale (s := List.replicate (n + 1) 0) htext (by simp; omega)
  let g : StepGCode R := startedWith []
  rcases List.mem_append.mp hcode with haxis | hletters
  · have hsame := h.readAxis g _ _ hletter hnothing
    rw [htrim, htrim'] at hsame
    exact readAxis_stale_ne hzero haxis hlp hspace g hsame
  · have hne : code ≠ 0 := fun h => hcodes (h ▸ hletters)
    have hsame := h.codeFP code hletters g _ _ hletter hnothing
    rw [htrim, htrim'] at hsame
    exact codeFP_stale_ne hzero hne hlp hspace g hsame

/-- Nothing but the current line is read exactly if it fills the buffer, or each letter that is
looked for has more than white space behind it. -/
theorem onlyCurrentLine_iff (hb : Holds t b) (hcodes : 0 ∉ codes) :
    OnlyCurrentLine R codes t ↔
      t.length + 1 = gcodeBufferSize ∨ ∀ code ∈ axisLetters ++ codes, StopsInside t code := by
  constructor
  · intro h
    obtain ⟨s, -, hlen⟩ := hb.trim_eq
    rcases Nat.lt_or_ge (t.length + 1) gcodeBufferSize with hroom | hfull
    · exact .inr fun code hcode => stopsInside_of_onlyCurrentLine hb hroom hcodes h hcode
    · exact .inl (by omega)
  · rintro (hfull | hstops)
    · exact onlyCurrentLine_of_full hfull
    · exact onlyCurrentLine_of_stopsInside hcodes hstops

end

/-- What `getLine` leaves in `lineBuffer` when the line `G1 X123d` is followed by `G1 X`. -/
def bareX (d : UInt8) : List UInt8 :=
  let text := [71, 49, 32, 88, 49, 50, 51, d, 10, 71, 49, 32, 88, 10]
  (readBytes (fun _ => 0) (fun i => text.getD i 0) 14).lines.getLastD []

/-- `S` too is read from the line `G1 X5 S1` only. -/
theorem onlyCurrentLine_iff_numbers :
    OnlyCurrentLine ℚ [83] [71, 49, 32, 88, 53, 32, 83, 49, 10] :=
  (onlyCurrentLine_iff
    (b := [71, 49, 32, 88, 53, 32, 83, 49, 10] ++ 0 :: List.replicate 118 0)
    ⟨rfl, by simp, rfl⟩ (by decide)).mpr (.inr (by
      simp only [axisLetters, List.cons_append, List.nil_append, List.mem_cons,
        List.not_mem_nil, or_false, forall_eq_or_imp, forall_eq]
      decide))

/-- `G1 X` moves to what the line before it has left: to 34 behind `G1 X1234`, and to 35 behind
`G1 X1235`. -/
theorem bareX_moves : ¬OnlyCurrentLine ℚ [] [71, 49, 32, 88, 10] := by
  intro h
  have hholds : ∀ d ∈ [(52 : UInt8), 53], Holds [71, 49, 32, 88, 10] (bareX d) := by
    intro d hd
    have hdecide : ∀ d ∈ [(52 : UInt8), 53], (bareX d).length = gcodeBufferSize ∧ 0 ∈ bareX d ∧
        commandText (bareX d) = [71, 49, 32, 88, 10] := by decide +kernel
    exact ⟨(hdecide d hd).1, (hdecide d hd).2.1, (hdecide d hd).2.2⟩
  have hsame := congrArg (Option.map fun w => w.value 0)
    (h.readAxis (startedWith []) _ _ (hholds 52 (by simp)) (hholds 53 (by simp)))
  have hmove : ((readAxis { startedWith (R := ℚ) [] with lineBuffer := trim (bareX 52) }).map
      StepGCode.words).map (fun w => w.value 0) = some 34 := by decide +kernel
  have hmove' : ((readAxis { startedWith (R := ℚ) [] with lineBuffer := trim (bareX 53) }).map
      StepGCode.words).map (fun w => w.value 0) = some 35 := by decide +kernel
  rw [hmove, hmove'] at hsame
  exact absurd hsame (by decide)

end TdPrinter
