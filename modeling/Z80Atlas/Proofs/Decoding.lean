import Z80Atlas.Proofs.Lawful

/-!
# Decoding loses no byte and reads no other

The opcode bytes of an instruction can be told from its code, and its operand bytes from its
operands, so an instruction can be written back as the bytes that it was read from
(`Instruction.encode`).  In the other direction, an instruction depends on its own bytes only, and
on its address only if it is a relative jump.  The one exception is a byte that selects an index
register and has no effect: to see that, the byte behind it is read.
-/

namespace Z80Atlas

/-! ### Bytes and words from integers -/

/-- The low 8 bits of an integer. -/
def Byte.ofInt (i : Int) : Byte := UInt8.ofNat (i % 256).toNat

theorem Byte.ofInt_eq {i : Int} {b : Byte} (h : i % 256 = b.toNat) : Byte.ofInt i = b := by
  unfold Byte.ofInt
  rw [h, Int.toNat_natCast, UInt8.ofNat_toNat]

theorem Byte.ofInt_toNat (b : Byte) : Byte.ofInt b.toNat = b := by
  have hb := b.toNat_lt
  exact ofInt_eq (by omega)

theorem Byte.ofInt_ofBytes (low high : Byte) :
    Byte.ofInt (Address.ofBytes low high).toNat = low := by
  have hlow := low.toNat_lt
  rw [Address.toNat_ofBytes]
  exact ofInt_eq (by omega)

theorem Byte.ofInt_ofBytes_div (low high : Byte) :
    Byte.ofInt ((Address.ofBytes low high).toNat / 256) = high := by
  have hlow := low.toNat_lt
  have hhigh := high.toNat_lt
  rw [Address.toNat_ofBytes]
  exact ofInt_eq (by omega)

theorem Byte.ofNat_eq {n : Nat} {b : Byte} (h : n % 256 = b.toNat) : UInt8.ofNat n = b := by
  rw [← UInt8.toNat_inj, UInt8.toNat_ofNat']
  exact h

theorem Byte.signed_mod (b : Byte) : Byte.signed b % 256 = b.toNat := by
  have hb := b.toNat_lt
  unfold Byte.signed
  split <;> omega

theorem Address.toNat_ofInt (i : Int) : ((Address.ofInt i).toNat : Int) = i % 65536 := by
  have hlt : (i % 65536).toNat < UInt16.size := by
    simp only [UInt16.size]
    omega
  rw [Address.ofInt, UInt16.toNat_ofNat_of_lt' hlt]
  omega

/-! ### How the bytes are laid out -/

namespace Opcode

/-- The byte that leads over to a further table. -/
def Slot.lead? : Slot → Option UInt8
  | .entry _ => none
  | .bits => some 0xCB
  | .extended => some 0xED
  | .indexed r => some r.lead

theorem eq_of_lead? {b c : UInt8} (h : (first b).lead? = some c) : b = c := by
  have hrows : ∀ i : Fin 64,
      (highRows.get i).lead? = none ∨
      (highRows.get i).lead? = some (UInt8.ofNat (192 + i.val)) := by decide
  have hb := b.toNat_lt
  unfold first at h
  split at h
  · cases h
  · split at h
    · cases h
    · split at h
      · cases h
      next hlow =>
        -- Behind the regular opcodes the row is the byte less `C0`.
        have hge : 192 ≤ b.toNat := UInt8.le_iff_toNat_le.mp (UInt8.not_lt.mp hlow)
        rcases hrows (Fin.ofNat 64 b.toNat) with hnone | hsome
        · cases hnone.symm.trans h
        · rw [← Option.some.inj (hsome.symm.trans h)]
          refine (Byte.ofNat_eq ?_).symm
          show (192 + b.toNat % 64) % 256 = b.toNat
          omega

theorem lead_pos (r : IndexRegister) : 0 < r.lead.toNat := by
  cases r <;> decide

end Opcode

namespace Form

variable {f : Form} {fetch : Nat → Byte}

/-- Where a form has its opcode and its operands: an opcode of one or two bytes in front of the
operands, or three opcode bytes with a displacement before the last one. -/
inductive Layout (fetch : Nat → Byte) : Form → Prop
  | short (entry : Opcode.Entry) : Layout fetch (leading (fetch 0).toNat entry 1)
  | long (entry : Opcode.Entry) (hlead : 0 < (fetch 0).toNat) :
    Layout fetch (leading ((fetch 0).toNat * 0x100 + (fetch 1).toNat) entry 2)
  | around (entry : Opcode.Entry) (hlead : 0 < (fetch 0).toNat) (hnext : fetch 1 = 0xCB)
    (hkind : entry.kind = .displacement) (hextra : entry.extra = false) :
    Layout fetch
      { code := (fetch 0).toNat * 0x10000 + 0xCB00 + (fetch 3).toNat
        entry
        operandAt := 2
        length := 4 }

theorem layout_indexed {r : Opcode.IndexRegister} (h : fetch 0 = r.lead) :
    Layout fetch (indexed r fetch) := by
  have hpos := Opcode.lead_pos r
  unfold indexed ignored
  rw [← h] at hpos ⊢
  split
  · exact .short _
  · split
    next hcb => exact .around _ hpos hcb rfl rfl
    next =>
      split
      · exact .long _ hpos
      · exact .short _

theorem layout_behind {lead : Byte} (h : fetch 0 = lead) (hpos : 0 < lead.toNat)
    (entry : Opcode.Entry) :
    Layout fetch (leading (lead.toNat * 0x100 + (fetch 1).toNat) entry 2) := by
  rw [← h] at hpos ⊢
  exact .long entry hpos

theorem layout_read (v : Opcode.Variant) (fetch : Nat → Byte) : Layout fetch (read v fetch) := by
  unfold read
  split
  · exact .short _
  next h =>
    have hlead : fetch 0 = 0xCB := Opcode.eq_of_lead? (by rw [h]; rfl)
    exact layout_behind hlead (by decide) _
  next h =>
    have hlead : fetch 0 = 0xED := Opcode.eq_of_lead? (by rw [h]; rfl)
    exact layout_behind hlead (by decide) _
  next r h => exact layout_indexed (Opcode.eq_of_lead? (by rw [h]; rfl))

/-- The operands lie inside of the instruction. -/
theorem Layout.operands_le (h : Layout fetch f) : f.operandAt + f.entry.operandSize ≤ f.length := by
  cases h with
  | short entry => exact Nat.le_refl _
  | long entry _ => exact Nat.le_refl _
  | around entry _ _ hkind hextra =>
    show 2 + (entry.kind.size + entry.extra.toNat) ≤ 4
    rw [hkind, hextra]
    decide

end Form

/-! ### Writing an instruction back -/

/-- The bytes of a primary operand, where `next` is the position behind the instruction. -/
def OperandKind.bytes (value next : Int) : OperandKind → List Byte
  | none | restart => []
  | byte | ioPort | displacement => [Byte.ofInt value]
  | word | data | jump | call => [Byte.ofInt value, Byte.ofInt (value / 256)]
  | wordBigEndian => [Byte.ofInt (value / 256), Byte.ofInt value]
  | relative => [Byte.ofInt (value - next)]

namespace Instruction

/-- The operand bytes of an instruction. -/
def operandBytes (i : Instruction) : List Byte :=
  i.kind.bytes i.value (i.address.toNat + i.length) ++ i.extra.toList

/-- Operand bytes with the bytes of an opcode: in front of them, or around them if there are
three. -/
def withOpcode (code : Nat) (operands : List Byte) : List Byte :=
  if code < 0x100 then UInt8.ofNat code :: operands
  else if code < 0x10000 then UInt8.ofNat (code / 0x100) :: UInt8.ofNat code :: operands
  else UInt8.ofNat (code / 0x10000) :: UInt8.ofNat (code / 0x100) ::
    (operands ++ [UInt8.ofNat code])

theorem withOpcode_short (b : Byte) (operands : List Byte) :
    withOpcode b.toNat operands = b :: operands := by
  have hb := b.toNat_lt
  unfold withOpcode
  rw [if_pos (by omega), UInt8.ofNat_toNat]

theorem withOpcode_long {b c : Byte} (h : 0 < b.toNat) (operands : List Byte) :
    withOpcode (b.toNat * 0x100 + c.toNat) operands = b :: c :: operands := by
  have hb := b.toNat_lt
  have hc := c.toNat_lt
  unfold withOpcode
  rw [if_neg (by omega), if_pos (by omega), Byte.ofNat_eq (b := b) (by omega),
    Byte.ofNat_eq (b := c) (by omega)]

theorem withOpcode_around {b c d : Byte} (h : 0 < b.toNat) (operands : List Byte) :
    withOpcode (b.toNat * 0x10000 + c.toNat * 0x100 + d.toNat) operands =
      b :: c :: (operands ++ [d]) := by
  have hb := b.toNat_lt
  have hc := c.toNat_lt
  have hd := d.toNat_lt
  unfold withOpcode
  rw [if_neg (by omega), if_neg (by omega), Byte.ofNat_eq (b := b) (by omega),
    Byte.ofNat_eq (b := c) (by omega), Byte.ofNat_eq (b := d) (by omega)]

/-- The bytes of an instruction. -/
def encode (i : Instruction) : List Byte := withOpcode i.code i.operandBytes

/-- What an instruction says, without its place and its text. -/
def record (i : Instruction) : Nat × String × Nat × Effects × OperandKind × Int × Option Byte :=
  (i.code, i.template, i.length, i.effects, i.kind, i.value, i.extra)

theorem encode_congr {i j : Instruction} (ha : i.address = j.address) (h : i.record = j.record) :
    i.encode = j.encode := by
  simp only [record, Prod.mk.injEq] at h
  obtain ⟨hcode, -, hlength, -, hkind, hvalue, hextra⟩ := h
  unfold encode operandBytes
  rw [ha, hcode, hlength, hkind, hvalue, hextra]

end Instruction

theorem map_range_add {α : Type} (f : Nat → α) (n k : Nat) :
    (List.range (n + k)).map f = (List.range n).map f ++ (List.range k).map fun i => f (n + i) := by
  rw [List.range_add, List.map_append, List.map_map]
  rfl

namespace Form

variable {f : Form} {fetch : Nat → Byte}

theorem bytes_value (f : Form) (fetch : Nat → Byte) (a : Address) :
    f.entry.kind.bytes (f.value fetch a) (a.toNat + f.length) =
      (List.range f.entry.kind.size).map fun k => fetch (f.operandAt + k) := by
  unfold value
  cases f.entry.kind with
  | none | restart => rfl
  | byte | ioPort =>
    show [Byte.ofInt (fetch f.operandAt).toNat] = [fetch f.operandAt]
    rw [Byte.ofInt_toNat]
  | displacement =>
    show [Byte.ofInt (Byte.signed (fetch f.operandAt))] = [fetch f.operandAt]
    rw [Byte.ofInt_eq (Byte.signed_mod _)]
  | word | data | jump | call =>
    show [Byte.ofInt _, Byte.ofInt (_ / 256)] = [fetch f.operandAt, fetch (f.operandAt + 1)]
    rw [Byte.ofInt_ofBytes, Byte.ofInt_ofBytes_div]
  | wordBigEndian =>
    show [Byte.ofInt (_ / 256), Byte.ofInt _] = [fetch f.operandAt, fetch (f.operandAt + 1)]
    rw [Byte.ofInt_ofBytes, Byte.ofInt_ofBytes_div]
  | relative =>
    -- The target wraps around the address space, whose size is a multiple of 256: the distance is
    -- still there.
    have htarget := Address.toNat_ofInt (a.toNat + f.length + Byte.signed (fetch f.operandAt))
    have hsigned := Byte.signed_mod (fetch f.operandAt)
    have hdistance :
        Byte.ofInt ((Address.ofInt (a.toNat + f.length + Byte.signed (fetch f.operandAt))).toNat -
        (a.toNat + f.length)) = fetch f.operandAt := Byte.ofInt_eq (by omega)
    exact congrArg ([·]) hdistance

theorem operandBytes_eq (f : Form) (fetch : Nat → Byte) (a : Address) :
    f.entry.kind.bytes (f.value fetch a) (a.toNat + f.length) ++ (f.extra fetch).toList =
      (List.range f.entry.operandSize).map fun k => fetch (f.operandAt + k) := by
  have hextra : (f.extra fetch).toList =
      (List.range f.entry.extra.toNat).map fun k =>
        fetch (f.operandAt + (f.entry.kind.size + k)) := by
    unfold extra
    cases f.entry.extra <;> rfl
  rw [bytes_value, hextra, Opcode.Entry.operandSize, map_range_add]

theorem Layout.withOpcode_eq (h : Layout fetch f) :
    Instruction.withOpcode f.code
      ((List.range f.entry.operandSize).map fun k => fetch (f.operandAt + k)) =
        (List.range f.length).map fetch := by
  cases h with
  | short entry =>
    show Instruction.withOpcode (fetch 0).toNat _ = (List.range (1 + entry.operandSize)).map fetch
    rw [Instruction.withOpcode_short, map_range_add]
    rfl
  | long entry hlead =>
    show Instruction.withOpcode ((fetch 0).toNat * 0x100 + (fetch 1).toNat) _ =
      (List.range (2 + entry.operandSize)).map fetch
    rw [Instruction.withOpcode_long hlead, map_range_add]
    rfl
  | around entry hlead hnext hkind hextra =>
    have hsize : entry.operandSize = 1 := by
      rw [Opcode.Entry.operandSize, hkind, hextra]
      rfl
    have hcode : (fetch 0).toNat * 0x10000 + 0xCB00 + (fetch 3).toNat =
        (fetch 0).toNat * 0x10000 + (fetch 1).toNat * 0x100 + (fetch 3).toNat := by
      rw [hnext]
      rfl
    show Instruction.withOpcode ((fetch 0).toNat * 0x10000 + 0xCB00 + (fetch 3).toNat)
      ((List.range entry.operandSize).map fun k => fetch (2 + k)) = _
    rw [hcode, Instruction.withOpcode_around hlead, hsize]
    rfl

end Form

/-- An instruction can be written back as the bytes that it was read from. -/
theorem encode_decode (v : Opcode.Variant) (fetch : Nat → Byte) (a : Address) :
    (decode v fetch a).encode = (List.range (decode v fetch a).length).map fetch := by
  have hoperands : (decode v fetch a).operandBytes = _ :=
    (Form.read v fetch).operandBytes_eq fetch a
  rw [Instruction.encode, hoperands]
  exact (Form.layout_read v fetch).withOpcode_eq

/-- No byte of an instruction is lost in decoding: the bytes can be written back, and two memories
in which the same is decoded at an address agree on the bytes of the instruction. -/
theorem decode_lossless (v : Opcode.Variant) (a : Address) :
    (∀ m : Memory, (m.decode v a).encode = m.slice a (m.decode v a).length) ∧
      ∀ m₁ m₂ : Memory, (m₁.decode v a).record = (m₂.decode v a).record →
        ∀ k < (m₁.decode v a).length, m₁.byte (a + UInt16.ofNat k) =
          m₂.byte (a + UInt16.ofNat k) := by
  have hencode : ∀ m : Memory, (m.decode v a).encode = m.slice a (m.decode v a).length :=
    fun m => encode_decode v (m.fetch a) a
  refine ⟨hencode, ?_⟩
  intro m₁ m₂ hrecord k hk
  have hlength : (m₁.decode v a).length = (m₂.decode v a).length := congrArg (·.2.2.1) hrecord
  have hslice : m₁.slice a (m₁.decode v a).length = m₂.slice a (m₁.decode v a).length := by
    rw [← hencode m₁, hlength, ← hencode m₂]
    exact Instruction.encode_congr rfl hrecord
  exact List.map_inj_left.mp hslice k (List.mem_range.mpr hk)

/-- `BIT 0,(IX+5)` across the top of the address space, with and without other code behind it. -/
theorem decode_lossless_wrapping :
    let m₁ := (Memory.empty.write 0xFFFE [0xDD, 0xCB]).write 0 [0x05, 0x46]
    let m₂ := m₁.write 0x0002 [0xC3, 0x00, 0x80]
    (m₁.decode .z80 0xFFFE).record = (m₂.decode .z80 0xFFFE).record ∧
      (m₁.decode .z80 0xFFFE).encode = [0xDD, 0xCB, 0x05, 0x46] ∧
      ∀ k < 4, m₁.byte (0xFFFE + UInt16.ofNat k) = m₂.byte (0xFFFE + UInt16.ofNat k) := by
  intro m₁ m₂
  have hrecord : (m₁.decode .z80 0xFFFE).record = (m₂.decode .z80 0xFFFE).record :=
    congrArg Instruction.record (by decide +kernel : m₁.decode .z80 0xFFFE = m₂.decode .z80 0xFFFE)
  have hlength : (m₁.decode .z80 0xFFFE).length = 4 := by decide +kernel
  obtain ⟨hencode, hbytes⟩ := decode_lossless .z80 0xFFFE
  refine ⟨hrecord, ?_, ?_⟩
  · rw [hencode, hlength]
    decide +kernel
  · rw [← hlength]
    exact hbytes m₁ m₂ hrecord

/-! ### What an instruction depends on -/

namespace Form

variable {v : Opcode.Variant} {f : Form} {fetch fetch' : Nat → Byte}

theorem indexed_congr {r : Opcode.IndexRegister} (hone : fetch 1 = fetch' 1)
    (h : ∀ k < (indexed r fetch).length, fetch k = fetch' k) :
    indexed r fetch' = indexed r fetch := by
  unfold indexed at h ⊢
  rw [← hone]
  split
  · rfl
  next hother =>
    rw [if_neg hother] at h
    split
    next hcb =>
      -- The last opcode byte is the last byte of the instruction.
      rw [if_pos hcb] at h
      have hthree : fetch 3 = fetch' 3 := h 3 (show 3 < 4 by decide)
      rw [hthree]
    next => rfl

theorem read_congr (h : ∀ k < max (read v fetch).length 2, fetch k = fetch' k) :
    read v fetch' = read v fetch := by
  have hzero : fetch 0 = fetch' 0 := h 0 (by omega)
  have hone : fetch 1 = fetch' 1 := h 1 (by omega)
  unfold read at h ⊢
  rw [← hzero, ← hone]
  cases hslot : Opcode.first (fetch 0) with
  | entry entry => rfl
  | bits => rfl
  | extended => rfl
  | indexed r =>
    rw [hslot] at h
    exact indexed_congr hone fun k hk => h k (Nat.lt_of_lt_of_le hk (Nat.le_max_left ..))

theorem operand_congr (hf : Layout fetch f) (h : ∀ k < f.length, fetch k = fetch' k) {k : Nat}
    (hk : k < f.entry.operandSize) : fetch' (f.operandAt + k) = fetch (f.operandAt + k) := by
  have hinside := hf.operands_le
  exact (h (f.operandAt + k) (by omega)).symm

theorem extra_congr (hf : Layout fetch f) (h : ∀ k < f.length, fetch k = fetch' k) :
    f.extra fetch' = f.extra fetch := by
  unfold extra
  split
  next hextra =>
    have hlast : f.entry.kind.size < f.entry.operandSize := by
      rw [Opcode.Entry.operandSize, hextra, Bool.toNat_true]
      omega
    rw [operand_congr hf h hlast]
  next => rfl

theorem value_congr (hf : Layout fetch f) (h : ∀ k < f.length, fetch k = fetch' k)
    (hkind : f.entry.kind ≠ .relative) (a b : Address) : f.value fetch' b = f.value fetch a := by
  have hoperand : ∀ k < f.entry.kind.size, fetch' (f.operandAt + k) = fetch (f.operandAt + k) :=
    fun k hk => operand_congr hf h (Nat.lt_of_lt_of_le hk (Nat.le_add_right ..))
  unfold value
  cases hk : f.entry.kind with
  | none | restart => rfl
  | byte | ioPort | displacement =>
    rw [hk] at hoperand
    have hlow : fetch' f.operandAt = fetch f.operandAt := hoperand 0 (by decide)
    dsimp only
    rw [hlow]
  | word | data | jump | call | wordBigEndian =>
    rw [hk] at hoperand
    have hlow : fetch' f.operandAt = fetch f.operandAt := hoperand 0 (by decide)
    have hhigh : fetch' (f.operandAt + 1) = fetch (f.operandAt + 1) := hoperand 1 (by decide)
    dsimp only
    rw [hlow, hhigh]
  | relative => exact absurd hk hkind

theorem distance_congr (hf : Layout fetch f) (h : ∀ k < f.length, fetch k = fetch' k)
    (hkind : f.entry.kind = .relative) (a b : Address) :
    (f.value fetch' b - b.toNat) % 65536 = (f.value fetch a - a.toNat) % 65536 := by
  have hlow : fetch' f.operandAt = fetch f.operandAt := by
    refine operand_congr hf h (k := 0) ?_
    rw [Opcode.Entry.operandSize, hkind]
    show 0 < 1 + _
    omega
  have ha := Address.toNat_ofInt (a.toNat + f.length + Byte.signed (fetch f.operandAt))
  have hb := Address.toNat_ofInt (b.toNat + f.length + Byte.signed (fetch f.operandAt))
  unfold value
  rw [hkind, hlow]
  dsimp only
  omega

theorem value_bounds (f : Form) (fetch : Nat → Byte) (a : Address) :
    (f.entry.kind ≠ .displacement → 0 ≤ f.value fetch a ∧ f.value fetch a ≤ 65535) ∧
      (f.entry.kind = .displacement → -128 ≤ f.value fetch a ∧ f.value fetch a ≤ 127) := by
  have hbyte : ∀ b : Byte, 0 ≤ (b.toNat : Int) ∧ (b.toNat : Int) ≤ 65535 := by
    intro b
    have hb := b.toNat_lt
    omega
  have hword : ∀ w : Address, 0 ≤ (w.toNat : Int) ∧ (w.toNat : Int) ≤ 65535 := by
    intro w
    have hw := w.toNat_lt
    omega
  unfold value
  cases f.entry.kind with
  | byte | ioPort => exact ⟨fun _ => hbyte _, fun h => by cases h⟩
  | word | data | jump | call | wordBigEndian | relative =>
    exact ⟨fun _ => hword _, fun h => by cases h⟩
  | displacement => exact ⟨fun h => absurd rfl h, fun _ => Byte.signed_bounds _⟩
  | none | restart =>
    refine ⟨fun _ => ?_, fun h => by cases h⟩
    dsimp only
    omega

end Form

namespace Instruction

/-- The instruction `j` is `i` at another place: all is the same, or as far from the instruction if
it is the target of a relative jump. -/
structure Moved (i j : Instruction) : Prop where
  code : j.code = i.code
  template : j.template = i.template
  length : j.length = i.length
  effects : j.effects = i.effects
  kind : j.kind = i.kind
  extra : j.extra = i.extra
  value : i.kind ≠ .relative → j.value = i.value
  distance : i.kind = .relative →
    (j.value - j.address.toNat) % 65536 = (i.value - i.address.toNat) % 65536

/-- The length and the operand of an instruction have a size that the machine can deal with. -/
structure Sized (i : Instruction) : Prop where
  length_pos : 1 ≤ i.length
  length_le : i.length ≤ 4
  value : i.kind ≠ .displacement → 0 ≤ i.value ∧ i.value ≤ 65535
  displacement : i.kind = .displacement → -128 ≤ i.value ∧ i.value ≤ 127

end Instruction

theorem decode_moved {v : Opcode.Variant} {fetch fetch' : Nat → Byte} (a b : Address)
    (h : ∀ k < max (Form.read v fetch).length 2, fetch k = fetch' k) :
    (decode v fetch a).Moved (decode v fetch' b) := by
  have hread := Form.read_congr h
  have hlayout := Form.layout_read v fetch
  have hown : ∀ k < (Form.read v fetch).length, fetch k = fetch' k :=
    fun k hk => h k (Nat.lt_of_lt_of_le hk (Nat.le_max_left ..))
  unfold decode
  rw [hread]
  exact ⟨rfl, rfl, rfl, rfl, rfl, Form.extra_congr hlayout hown,
    fun hk => Form.value_congr hlayout hown hk a b,
    fun hk => Form.distance_congr hlayout hown hk a b⟩

/-- An instruction is decoded from its own bytes, of which at least two are looked at, and where it
stands matters only to the target of a relative jump.  There are bounds to its length and to its
operand. -/
theorem decode_relocatable (v : Opcode.Variant) :
    (∀ (m₁ m₂ : Memory) (a b : Address),
      (∀ k < max (m₁.decode v a).length 2,
        m₁.byte (a + UInt16.ofNat k) = m₂.byte (b + UInt16.ofNat k)) →
        (m₁.decode v a).Moved (m₂.decode v b)) ∧
      ∀ (m : Memory) (a : Address), (m.decode v a).Sized := by
  refine ⟨?_, ?_⟩
  · intro m₁ m₂ a b h
    exact decode_moved a b h
  · intro m a
    have hbounds := (Form.read v (m.fetch a)).value_bounds (m.fetch a) a
    exact ⟨m.length_decode_pos v a, m.length_decode_le v a, hbounds.1, hbounds.2⟩

/-- `JR 8000h` at `8000h` is `JR 0010h` when it is moved to `0010h`, whatever stands behind it. -/
theorem decode_relocatable_loop :
    let m₁ := Memory.empty.write 0x8000 [0x18, 0xFE, 0x3E]
    let m₂ := Memory.empty.write 0x0010 [0x18, 0xFE, 0xC9]
    (∀ k < 2, m₁.byte (0x8000 + UInt16.ofNat k) = m₂.byte (0x0010 + UInt16.ofNat k)) ∧
      (m₁.decode .z80 0x8000).Moved (m₂.decode .z80 0x0010) ∧
      (m₁.decode .z80 0x8000).value = 0x8000 ∧ (m₂.decode .z80 0x0010).value = 0x0010 := by
  intro m₁ m₂
  have hlength : (m₁.decode .z80 0x8000).length = 2 := by decide +kernel
  have hbytes :
      ∀ k < 2, m₁.byte (0x8000 + UInt16.ofNat k) =
        m₂.byte (0x0010 + UInt16.ofNat k) := by decide +kernel
  refine ⟨hbytes, ?_, by decide +kernel, by decide +kernel⟩
  refine (decode_relocatable .z80).1 m₁ m₂ 0x8000 0x0010 ?_
  rw [hlength]
  exact hbytes

end Z80Atlas
