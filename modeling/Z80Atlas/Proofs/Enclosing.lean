import Z80Atlas.Proofs.Passes

/-!
# The instruction around a byte of code

Looking back for an instruction asks for openings only, and not for lengths.  It is right because of
how surveys leave a memory behind: whoever makes the passes, and in whatever order, the code is cut
into instructions, and none of them has more than four bytes.
-/

namespace Z80Atlas

variable {m m' : Memory} {v : Opcode.Variant} {s : Survey} {b : Address}

/-- The memories that passes over the image `m` leave behind.  The next pass may be made by the
survey that made the last one, or by another survey that takes the memory over with a graph, skips
and work of its own. -/
inductive Memory.Surveyed (m : Memory) (v : Opcode.Variant) : Memory → Prop
  | image : m.Surveyed v m
  | pass {s : Survey} (h : m.Surveyed v s.memory) (hv : s.variant = v) (p : Survey.Pass) :
    m.Surveyed v (s.perform p).memory

namespace Memory.Surveyed

/-- Whoever takes a surveyed memory over finds the code cut into instructions. -/
theorem cuts (h : m.Surveyed v m') (hm : m.Unexplored) (hs : s.memory = m') (hv : s.variant = v) :
    Survey.Cuts m v s := by
  induction h generalizing s with
  | image => exact (Survey.cuts_fresh hm v {}).of_memory hs hv
  | pass _ hvariant p ih =>
    have hpass := (ih rfl hvariant).perform p
    exact hpass.of_memory hs (hv.trans hpass.variant.symm)

theorem parsed (h : m.Surveyed v m') (hm : m.Unexplored) : m'.Parsed v :=
  (h.cuts hm (s := Survey.fresh m' v {}) rfl rfl).parsed

theorem performAll (h : m.Surveyed v s.memory) (hm : m.Unexplored) (hv : s.variant = v)
    (passes : List Survey.Pass) :
    m.Surveyed v (s.performAll passes).memory := by
  induction passes generalizing s with
  | nil => exact h
  | cons p rest ih =>
    have hcuts := (h.cuts hm rfl hv).perform p
    exact ih (h.pass hv p) hcuts.variant

end Memory.Surveyed

namespace Memory

/-- In a surveyed memory, looking back from a byte of code finds the one instruction that the byte
belongs to, at most three bytes before it. -/
theorem openingBefore_encloses (hm : m.Unexplored) (h : m.Surveyed v m')
    (hb : (m'.marks b).code = true) :
    ∃ start, m'.openingBefore b (longestInstruction - 1) = some start ∧
      (∀ x, (m'.marks x).opening = true ∧ m'.Covers v x b ↔ x = start) ∧
      (start.toNat ≤ b.toNat ∧ b.toNat ≤ start.toNat + 3) ∧
      (start = b ↔ (m'.marks b).opening = true) := by
  have hp := h.parsed hm
  obtain ⟨start, ho, hc, hat⟩ := hp.exists_instruction hb
  have hlength := m'.length_decode_le v start
  refine ⟨start, hat, ?_, ⟨hc.1, ?_⟩, ?_, ?_⟩
  · intro x
    constructor
    · rintro ⟨hx, hcx⟩
      exact hp.eq_of_covers hx ho hcx hc
    · rintro rfl
      exact ⟨ho, hc⟩
  · have hlt := hc.2
    omega
  · rintro rfl
    exact ho
  · intro hopen
    exact hp.apart ho hopen hc

/-- `LD A,C9h`, which has a `RET` inside of it, `LD (IX+1),0` and `RET`. -/
def interlaced : Memory := Memory.empty.write 0 [0x3E, 0xC9, 0xDD, 0x36, 0x01, 0x00, 0xC9]

/-- What a survey leaves behind that starts at the inner `RET`, and another one after it, which is
refused at `0000h`. -/
def interlacedTwice : Memory :=
  let first := (Survey.fresh interlaced .z80 {}).performAll [.discover [1], .fill]
  let second :=
    (Survey.fresh first.memory .z80 (({} : Skips).set 7 3)).performAll [.discover [0, 2], .fill]
  second.memory

/-- The last byte of `LD (IX+1),0` is three bytes behind its start, and one more behind the inner
`RET`. -/
theorem openingBefore_encloses_interlaced :
    interlaced.Unexplored ∧ interlaced.Surveyed .z80 interlacedTwice ∧
    (interlacedTwice.marks 5).code = true ∧
      interlacedTwice.openingBefore 5 (longestInstruction - 1) = some 2 := by
  have hm : interlaced.Unexplored := unexplored_empty.write 0 _
  have hfirst :=
    Surveyed.performAll (s := Survey.fresh interlaced .z80 {}) .image hm rfl [.discover [1], .fill]
  have hsecond : interlaced.Surveyed .z80 interlacedTwice :=
    Surveyed.performAll (s := Survey.fresh _ .z80 _) hfirst hm rfl _
  have hmarks :
      (interlacedTwice.marks 5).code = true ∧
      (interlacedTwice.marks 2).opening = true := by decide +kernel
  obtain ⟨hcode, hopening⟩ := hmarks
  have hcuts := hsecond.cuts hm (s := Survey.fresh interlacedTwice .z80 {}) rfl rfl
  have hcovers : interlacedTwice.Covers .z80 2 5 :=
    (covers_congr hcuts.byte .z80 2 5).mpr ⟨by decide +kernel, by decide +kernel⟩
  obtain ⟨start, hstart, henclosing, -⟩ := openingBefore_encloses hm hsecond hcode
  refine ⟨hm, hsecond, hcode, ?_⟩
  rw [hstart, ← (henclosing 2).mp ⟨hopening, hcovers⟩]

end Memory

end Z80Atlas
