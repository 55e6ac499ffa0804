import RegisterTransfer.Proofs.Mips.Words
import RegisterTransfer.Proofs.Mos6502.Bytes

/-!
The bytes of one instruction. An instruction is pulled by a peek that decodes and a read that moves
the cursor past what was decoded: the read gets the bytes that the peek has seen, so it never fails.
What is decoded determines all that an encoding says of it.
-/

namespace RegisterTransfer

inductive Refusal
  | undecoded (address : Address)
  | unread (address : Address)
deriving DecidableEq, Repr

def Refusal.toDecodeError : Refusal → DecodeError
  | .undecoded address => ⟨address⟩
  | .unread address => ⟨address⟩

namespace Architecture
variable {a : Architecture} {c : Cursor} {i : Instruction}

def Encodes (a : Architecture) (order : ByteOrder) (bytes : List UInt8) : Prop :=
  match a with
  | .mips _ => bytes.length = 4 ∧ Mips.IsInstruction (.ofNat 32 (order.number bytes))
  | .mos6502 => ∃ opcode operand mnemonic mode, bytes = opcode :: operand ∧
      (mode, opcode.toNat) ∈ Mos6502.Mnemonic.opcodes mnemonic ∧
      operand.length + 1 = Mos6502.Mode.length mode

def consume (a : Architecture) (c : Cursor) (i : Instruction) : Except ImageError Unit × Cursor :=
  match a with
  | .mips _ => (c.read32.1.map fun _ => (), c.read32.2)
  | .mos6502 => ((c.readBytes i.length).1.map fun _ => (), (c.readBytes i.length).2)

def pull (a : Architecture) (c : Cursor) : Except Refusal Instruction × Cursor :=
  match a.decode? c with
  | none => (.error (.undecoded c.address), c)
  | some i =>
    match a.consume c i with
    | (.ok _, d) => (.ok i, d)
    | (.error _, d) => (.error (.unread c.address), d)

def pulls (a : Architecture) : Nat → Cursor → List (Except Refusal Instruction) × Cursor
  | 0, c => ([], c)
  | n + 1, c =>
    let rest := a.pulls n (a.pull c).2
    ((a.pull c).1 :: rest.1, rest.2)

section
variable (hs : c.image.size ≤ Cursor.maxOffset)

include hs in
theorem encodes_of_decode? (h : a.decode? c = some i) :
    a.Encodes c.byteOrder (c.rest.take i.length) := by
  cases a with
  | mips order =>
    obtain ⟨w, op, hw, hop, rfl⟩ := decode?_mips.mp h
    obtain ⟨bytes, hlen, hprefix, rfl⟩ := (Cursor.peek32_zero_eq_ok_iff hs).mp hw
    have htake : c.rest.take 4 = bytes := by
      rw [← hlen]
      exact (List.prefix_iff_eq_take.mp hprefix).symm
    have hinstruction := Mips.decode_isSome_iff.mp (Option.isSome_of_eq_some hop)
    exact htake ▸ ⟨hlen, hinstruction⟩
  | mos6502 =>
    obtain ⟨j, hj, rfl⟩ := decode?_mos6502.mp h
    obtain ⟨-, bytes, hbytes, hprefix⟩ := (Mos6502.decode_eq_some_iff_encodedBy hs).mp hj
    have htake : c.rest.take j.length = bytes := by
      rw [← hbytes.length_eq]
      exact (List.prefix_iff_eq_take.mp hprefix).symm
    obtain ⟨opcode, operand, hcons, hm, hlen, -⟩ := hbytes
    exact htake ▸ ⟨opcode, operand, j.mnemonic, j.mode, hcons, hm, hlen⟩

include hs in
theorem exists_decode?_iff :
    (∃ i, a.decode? c = some i) ↔ ∃ bytes, a.Encodes c.byteOrder bytes ∧ bytes <+: c.rest := by
  constructor
  · rintro ⟨i, hi⟩
    exact ⟨_, encodes_of_decode? hs hi, List.take_prefix i.length c.rest⟩
  · rintro ⟨bytes, hbytes, hprefix⟩
    cases a with
    | mips order =>
      obtain ⟨hlen, hinstruction⟩ := hbytes
      have hw := (Cursor.peek32_zero_eq_ok_iff hs).mpr ⟨bytes, hlen, hprefix, rfl⟩
      have hsome := Mips.decode_isSome_iff (a := c.address).mpr hinstruction
      obtain ⟨op, hop⟩ := Option.isSome_iff_exists.mp hsome
      exact ⟨_, decode?_mips.mpr ⟨_, op, hw, hop, rfl⟩⟩
    | mos6502 =>
      obtain ⟨opcode, operand, mnemonic, mode, rfl, hm, hlen⟩ := hbytes
      let j : Mos6502.Instruction :=
        ⟨c.address, mnemonic, mode, mode.value c.address (c.byteOrder.number operand)⟩
      have hj : j.EncodedBy c.byteOrder (opcode :: operand) :=
        ⟨opcode, operand, rfl, hm, hlen, rfl⟩
      have hdecoded := (Mos6502.decode_eq_some_iff_encodedBy hs).mpr ⟨rfl, _, hj, hprefix⟩
      exact ⟨_, decode?_mos6502.mpr ⟨j, hdecoded, rfl⟩⟩

include hs in
theorem consume_of_decode? (h : a.decode? c = some i) :
    a.consume c i = (.ok (), c.advance i.length) := by
  cases a with
  | mips order =>
    obtain ⟨w, op, hw, -, rfl⟩ := decode?_mips.mp h
    unfold consume Cursor.read32
    rw [hw]
    rfl
  | mos6502 =>
    have hlen : (c.rest.take i.length).length = i.length := by
      rw [List.length_take, Cursor.length_rest]
      exact Nat.min_eq_left (length_le_of_decode? hs h)
    have hpeek : c.peekBytes 0 i.length = .ok (c.rest.take i.length) :=
      (Cursor.peekBytes_eq_ok_iff hs i.length_pos).mpr ⟨hlen, List.take_prefix i.length c.rest⟩
    unfold consume Cursor.readBytes
    rw [hpeek]
    rfl

include hs in
theorem pull_of_decode? (h : a.decode? c = some i) : a.pull c = (.ok i, c.advance i.length) := by
  unfold pull
  rw [h]
  dsimp only
  rw [consume_of_decode? hs h]

theorem pull_of_decode?_eq_none (h : a.decode? c = none) :
    a.pull c = (.error (.undecoded c.address), c) := by
  unfold pull
  rw [h]

include hs in
theorem pull_cases :
    (∃ i, a.decode? c = some i ∧ a.pull c = (.ok i, c.advance i.length)) ∨
      a.decode? c = none ∧ a.pull c = (.error (.undecoded c.address), c) := by
  cases h : a.decode? c with
  | none => exact .inr ⟨rfl, pull_of_decode?_eq_none h⟩
  | some i => exact .inl ⟨i, rfl, pull_of_decode? hs h⟩

include hs in
theorem step_eq_pull : a.step c = ((a.pull c).1.mapError Refusal.toDecodeError, (a.pull c).2) := by
  unfold step
  obtain ⟨i, hi, hp⟩ | ⟨hn, hp⟩ := pull_cases (a := a) hs
  · rw [hi, hp]
    rfl
  · rw [hn, hp]
    rfl

theorem pulls_of_error {e : Refusal} (h : a.pull c = (.error e, c)) (n : Nat) :
    a.pulls n c = (List.replicate n (.error e), c) := by
  induction n with
  | zero => rfl
  | succ n ih =>
    rw [pulls, h]
    dsimp only
    rw [ih]
    rfl

include hs in
theorem pull_atomic :
    a.step c = ((a.pull c).1.mapError Refusal.toDecodeError, (a.pull c).2) ∧
    ((∃ i, (a.pull c).1 = .ok i) ↔
      ∃ bytes, a.Encodes c.byteOrder bytes ∧ bytes <+: c.rest) ∧
    (∀ i, (a.pull c).1 = .ok i →
      i.address = c.address ∧ i.length ≤ c.remaining ∧
      a.Encodes c.byteOrder (c.rest.take i.length) ∧
      (a.pull c).2 = { c with offset := c.offset + i.length }) ∧
    ∀ e, (a.pull c).1 = .error e →
      e = .undecoded c.address ∧ (a.pull c).2 = c ∧
      ∀ n, a.pulls n c = (List.replicate n (.error e), c) := by
  refine ⟨step_eq_pull hs, ?_⟩
  rw [← exists_decode?_iff hs]
  obtain ⟨i, hi, hp⟩ | ⟨hn, hp⟩ := pull_cases (a := a) hs
  · rw [hp, hi]
    refine ⟨⟨fun _ => ⟨i, rfl⟩, fun _ => ⟨i, rfl⟩⟩, ?_, ?_⟩
    · intro j hj
      cases hj
      exact ⟨address_of_decode? hi, length_le_of_decode? hs hi, encodes_of_decode? hs hi, rfl⟩
    · intro e he
      cases he
  · rw [hn]
    have hrepeated := pulls_of_error hp
    rw [hp]
    refine ⟨⟨?_, ?_⟩, ?_, ?_⟩
    · rintro ⟨i, hi⟩
      cases hi
    · rintro ⟨i, hi⟩
      cases hi
    · intro i hi
      cases hi
    · intro e he
      cases he
      exact ⟨rfl, rfl, hrepeated⟩

end

theorem load_pulled_and_cut_jump_refused :
    let image : Image := ⟨⟨0x1000, 16⟩, [0xA9, 0x05, 0x4C, 0x00]⟩
    let start : Cursor := ⟨image, 0, .little⟩
    image.size ≤ Cursor.maxOffset ∧
      (mos6502.pull start).1 = .ok (.mos6502 ⟨⟨0x1000, 16⟩, .lda, .immediate, 0x05⟩) ∧
      (mos6502.pull start).2 = { start with offset := 2 } ∧
      (mos6502.pull { start with offset := 2 }).1 = .error (.undecoded ⟨0x1002, 16⟩) ∧
      ∀ n, mos6502.pulls n { start with offset := 2 } =
        (List.replicate n (.error (.undecoded ⟨0x1002, 16⟩)), { start with offset := 2 }) := by
  intro image start
  have hs : image.size ≤ Cursor.maxOffset := by decide
  have hload : mos6502.decode? start =
      some (.mos6502 ⟨⟨0x1000, 16⟩, .lda, .immediate, 0x05⟩) := by decide +kernel
  have hjump : mos6502.decode? { start with offset := 2 } = none := by decide +kernel
  have hpull := congrArg Prod.fst (pull_of_decode? hs hload)
  have hrefusal := congrArg Prod.fst (pull_of_decode?_eq_none hjump)
  obtain ⟨-, -, hok, -⟩ := pull_atomic (a := mos6502) (c := start) hs
  obtain ⟨-, -, -, herror⟩ := pull_atomic (a := mos6502) (c := { start with offset := 2 }) hs
  exact ⟨hs, hpull, (hok _ hpull).2.2.2, hrefusal, (herror _ hrefusal).2.2⟩

end Architecture

theorem encoding_determined :
    (∀ (a : Address) (v w : BitVec 32) (op : Mips.Operation), a.bits = 32 →
      Mips.decode a v = some op → Mips.decode a w = some op →
        Mips.BitField.opcode.get v = Mips.BitField.opcode.get w ∧
        (Mips.BitField.opcode.get v = 0 →
          Mips.BitField.function.get v = Mips.BitField.function.get w) ∧
        (Mips.BitField.opcode.get v = 1 → Mips.BitField.rt.get v = Mips.BitField.rt.get w) ∧
        ∀ f ∈ Mips.operandFields v, f.get v = f.get w) ∧
    ∀ (c d : Cursor) (i : Mos6502.Instruction), c.image.size ≤ Cursor.maxOffset →
      d.image.size ≤ Cursor.maxOffset → c.byteOrder = d.byteOrder →
        Mos6502.decode c = some i → Mos6502.decode d = some i →
          c.rest.take i.length = d.rest.take i.length := by
  refine ⟨?_, ?_⟩
  · intro a v w op ha hv hw
    exact Mips.get_eq_of_decode ha hv hw
  · intro c d i hc hd horder hi hj
    obtain ⟨-, xs, hxs, hprefix⟩ := (Mos6502.decode_eq_some_iff_encodedBy hc).mp hi
    obtain ⟨-, ys, hys, hprefix'⟩ := (Mos6502.decode_eq_some_iff_encodedBy hd).mp hj
    -- The instruction settles its bytes, and the remainder of either cursor starts with them.
    have hsame : xs = ys := hxs.unique (horder ▸ hys)
    have htake := List.prefix_iff_eq_take.mp hprefix
    have htake' := List.prefix_iff_eq_take.mp hprefix'
    rw [hxs.length_eq] at htake
    rw [hys.length_eq] at htake'
    rw [← htake, ← htake', hsame]

theorem return_and_load_determined :
    let c : Cursor := ⟨⟨⟨0x1000, 16⟩, [0xA9, 0x05, 0x60]⟩, 0, .little⟩
    let d : Cursor := ⟨⟨⟨0x0FFF, 16⟩, [0xEA, 0xA9, 0x05]⟩, 1, .little⟩
    (Mips.decode ⟨0x400000, 32⟩ 0x03E00008 = some (.jumpRegister Mips.returnAddress) ∧
      Mips.decode ⟨0x400000, 32⟩ 0x03FF0008 = some (.jumpRegister Mips.returnAddress) ∧
      Mips.BitField.rs.get 0x03E00008 = Mips.BitField.rs.get 0x03FF0008) ∧
    Mos6502.decode c = some ⟨⟨0x1000, 16⟩, .lda, .immediate, 0x05⟩ ∧
      Mos6502.decode d = some ⟨⟨0x1000, 16⟩, .lda, .immediate, 0x05⟩ ∧
      c.rest.take 2 = d.rest.take 2 := by
  intro c d
  have hv : Mips.decode ⟨0x400000, 32⟩ 0x03E00008 = some (.jumpRegister Mips.returnAddress) := by
    decide +kernel
  have hw : Mips.decode ⟨0x400000, 32⟩ 0x03FF0008 = some (.jumpRegister Mips.returnAddress) := by
    decide +kernel
  have hi : Mos6502.decode c = some ⟨⟨0x1000, 16⟩, .lda, .immediate, 0x05⟩ := by decide +kernel
  have hj : Mos6502.decode d = some ⟨⟨0x1000, 16⟩, .lda, .immediate, 0x05⟩ := by decide +kernel
  have hrs : Mips.BitField.rs ∈ Mips.operandFields 0x03E00008 := List.mem_singleton_self _
  obtain ⟨-, -, -, hfields⟩ := encoding_determined.1 _ _ _ _ rfl hv hw
  exact ⟨⟨hv, hw, hfields _ hrs⟩, hi, hj,
    encoding_determined.2 c d _ (by decide) (by decide) rfl hi hj⟩

end RegisterTransfer
