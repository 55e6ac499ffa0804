import RegisterTransfer.Proofs.Decoding

/-!
Positions in an image and the addresses that cursors have there. The position past the last byte has
no address of its own in an image that ends at the top of the address space.
-/

namespace RegisterTransfer

theorem Image.cursorAt_eq_ok {image : Image} {a : Address} {order : ByteOrder} {c : Cursor}
    (h : image.cursorAt a order = .ok c) : c.image = image ∧ c.byteOrder = order := by
  unfold cursorAt at h
  split at h
  · cases h
  · cases h
    exact ⟨rfl, rfl⟩

namespace Cursor

inductive Operation
  | peek8 (delta : Nat)
  | peek16 (delta : Nat)
  | peek32 (delta : Nat)
  | read8
  | read16
  | read32
  | readBytes (length : Nat)

def after (c : Cursor) : Operation → Cursor
  | .peek8 _ | .peek16 _ | .peek32 _ => c
  | .read8 => c.read8.2
  | .read16 => c.read16.2
  | .read32 => c.read32.2
  | .readBytes length => (c.readBytes length).2

def afterAll (c : Cursor) (operations : List Operation) : Cursor := operations.foldl after c

theorem reading_eq_or {α : Type} (c : Cursor) (length : Nat) (delivered : Except ImageError α) :
    (c.reading length delivered).2 = c ∨
      (∃ x, delivered = .ok x) ∧ (c.reading length delivered).2 = c.advance length := by
  cases delivered with
  | error e => exact .inl rfl
  | ok x => exact .inr ⟨⟨x, rfl⟩, rfl⟩

theorem length_le_of_peekBytes {c : Cursor} {length : Nat} {bytes : List UInt8}
    (hs : c.image.size ≤ maxOffset) (hc : c.offset ≤ c.image.size)
    (h : c.peekBytes 0 length = .ok bytes) : length ≤ c.remaining := by
  unfold peekBytes at h
  dsimp only at h
  split at h
  · unfold remaining
    omega
  · cases h

theorem after_eq_or {c : Cursor} (hs : c.image.size ≤ maxOffset) (hc : c.offset ≤ c.image.size)
    (operation : Operation) :
    c.after operation = c ∨ ∃ n ≤ c.remaining, c.after operation = c.advance n := by
  cases operation with
  | peek8 delta => exact .inl rfl
  | peek16 delta => exact .inl rfl
  | peek32 delta => exact .inl rfl
  | read8 =>
    obtain h | ⟨hok, h⟩ := c.reading_eq_or 1 (c.peek8 0)
    · exact .inl h
    · exact .inr ⟨1, (peek8_isOk_iff hs 0).mp hok, h⟩
  | read16 =>
    obtain h | ⟨hok, h⟩ := c.reading_eq_or 2 (c.peek16 0)
    · exact .inl h
    · exact .inr ⟨2, (peek16_isOk_iff hs 0).mp hok, h⟩
  | read32 =>
    obtain h | ⟨hok, h⟩ := c.reading_eq_or 4 (c.peek32 0)
    · exact .inl h
    · exact .inr ⟨4, (peek32_isOk_iff hs 0).mp hok, h⟩
  | readBytes length =>
    obtain h | ⟨⟨bytes, hbytes⟩, h⟩ := c.reading_eq_or length (c.peekBytes 0 length)
    · exact .inl h
    · exact .inr ⟨length, length_le_of_peekBytes hs hc hbytes, h⟩

theorem after_inside {c : Cursor} (hs : c.image.size ≤ maxOffset) (hc : c.offset ≤ c.image.size)
    (operation : Operation) :
    (c.after operation).image = c.image ∧ (c.after operation).offset ≤ c.image.size := by
  obtain h | ⟨n, hn, h⟩ := after_eq_or hs hc operation
  · rw [h]
    exact ⟨rfl, hc⟩
  · rw [h]
    unfold remaining at hn
    refine ⟨rfl, ?_⟩
    change c.offset + n ≤ c.image.size
    omega

theorem afterAll_inside {c : Cursor} (hs : c.image.size ≤ maxOffset)
    (hc : c.offset ≤ c.image.size) (operations : List Operation) :
    (c.afterAll operations).image = c.image ∧
      (c.afterAll operations).offset ≤ c.image.size := by
  induction operations generalizing c with
  | nil => exact ⟨rfl, hc⟩
  | cons operation rest ih =>
    obtain ⟨himage, hoffset⟩ := after_inside hs hc operation
    rw [← himage] at hs hoffset ⊢
    exact ih hs hoffset

section
variable {c : Cursor}

theorem address_value (h : c.image.base.value + c.offset < Address.space c.image.base.bits) :
    c.address.value = c.image.base.value + c.offset := by
  rw [address_eq]
  exact Nat.mod_eq_of_lt h

theorem reopen_eq_ok (hc : c.offset ≤ c.image.size)
    (h : c.image.base.value + c.offset < Address.space c.image.base.bits) (order : ByteOrder) :
    c.image.cursorAt c.address order = .ok { c with byteOrder := order } := by
  unfold Image.cursorAt
  rw [address_value h, Nat.add_sub_cancel_left, if_neg (by omega)]

theorem reopen_at_top (h : c.image.base.value + c.offset = Address.space c.image.base.bits)
    (order : ByteOrder) :
    c.image.cursorAt c.address order =
      if c.image.base.value = 0 then .ok ⟨c.image, 0, order⟩
      else .error (.outsideImage ⟨0, c.image.base.bits⟩) := by
  have haddress : c.address = ⟨0, c.image.base.bits⟩ := by
    rw [address_eq, h, Address.wrap, Nat.mod_self]
  unfold Image.cursorAt
  rw [haddress]
  dsimp only
  rw [Nat.zero_sub]
  by_cases hbase : c.image.base.value = 0
  · rw [if_pos hbase, if_neg (by omega)]
  · rw [if_neg hbase, if_pos (by omega)]

end

theorem offset_le_of_cursorAt {image : Image} {start : Address} {order : ByteOrder} {c : Cursor}
    (h : image.cursorAt start order = .ok c) : c.image = image ∧ c.offset ≤ image.size := by
  unfold Image.cursorAt at h
  split at h
  · cases h
  · rename_i hin
    cases h
    exact ⟨rfl, Nat.not_lt.mp fun hout => hin (.inr hout)⟩

/-- A cursor is reopened by its address unless it is past the last byte of an image that ends at the
top of the address space: there the address is zero, which is no position or the first one. -/
theorem reopened_iff {image : Image} {start : Address} {order : ByteOrder} {c : Cursor}
    (hs : image.size ≤ maxOffset)
    (hfits : image.base.value + image.size ≤ Address.space image.base.bits)
    (hc : image.cursorAt start order = .ok c) (operations : List Operation)
    (order' : ByteOrder) :
    let d := c.afterAll operations
    (image.cursorAt d.address order' = .ok { d with byteOrder := order' } ↔
      ¬(d.offset = image.size ∧
        image.base.value + image.size = Address.space image.base.bits)) ∧
    (d.offset = image.size → image.base.value + image.size = Address.space image.base.bits →
      image.cursorAt d.address order' =
        if image.base.value = 0 then .ok ⟨image, 0, order'⟩
        else .error (.outsideImage ⟨0, image.base.bits⟩)) := by
  intro d
  obtain ⟨rfl, hoffset⟩ := offset_le_of_cursorAt hc
  obtain ⟨himage, hd⟩ : d.image = c.image ∧ d.offset ≤ c.image.size :=
    afterAll_inside hs hoffset operations
  have htop : d.offset = c.image.size →
      c.image.base.value + c.image.size = Address.space c.image.base.bits →
      c.image.cursorAt d.address order' =
        if c.image.base.value = 0 then .ok ⟨c.image, 0, order'⟩
        else .error (.outsideImage ⟨0, c.image.base.bits⟩) := by
    intro hend hwraps
    rw [← himage] at hend hwraps ⊢
    apply reopen_at_top
    rw [hend, hwraps, himage]
  refine ⟨?_, htop⟩
  constructor
  · rintro hopen ⟨hend, hwraps⟩
    rw [htop hend hwraps] at hopen
    split at hopen
    -- An image from zero to the top of the space has its first position there, and not its last.
    · rename_i hbase
      have hzero : 0 = d.offset := congrArg Cursor.offset (Except.ok.inj hopen)
      have hpos := Address.space_pos c.image.base.bits
      omega
    · cases hopen
  · intro hbelow
    rw [← himage] at hd hfits hbelow ⊢
    apply reopen_eq_ok hd
    omega

theorem reopened_before_end :
    let image : Image := ⟨.ptr16 0xFFFE, [0x00, 0xE0]⟩
    let c : Cursor := ⟨image, 0, .little⟩
    let d := c.afterAll [.peek8 5, .read8, .read16]
    image.size ≤ maxOffset ∧
      image.base.value + image.size = Address.space image.base.bits ∧
      image.cursorAt (.ptr16 0xFFFE) .little = .ok c ∧ d.offset = 1 ∧
      image.cursorAt d.address .big = .ok ⟨image, 1, .big⟩ := by
  intro image c d
  have hs : image.size ≤ maxOffset := by decide
  have hfits : image.base.value + image.size = Address.space image.base.bits := by decide
  have hc : image.cursorAt (.ptr16 0xFFFE) .little = .ok c := by simp [Image.cursorAt, image, c]
  have hoffset : d.offset = 1 := by decide
  obtain ⟨hopen, -⟩ :=
    reopened_iff hs (Nat.le_of_eq hfits) hc [.peek8 5, .read8, .read16] .big
  have hbelow : ¬(d.offset = image.size ∧
      image.base.value + image.size = Address.space image.base.bits) := by
    rw [hoffset]
    decide
  exact ⟨hs, hfits, hc, hoffset, hopen.mpr hbelow⟩

theorem end_of_vectors_not_reopened :
    let image : Image := ⟨.ptr16 0xFFFE, [0x00, 0xE0]⟩
    let c : Cursor := ⟨image, 0, .little⟩
    let d := c.afterAll [.read16]
    image.base.Valid ∧ image.base.value + image.size = Address.space image.base.bits ∧
      image.cursorAt (.ptr16 0xFFFE) .little = .ok c ∧ d.offset = image.size ∧
      d.address = .ptr16 0 ∧
      image.cursorAt d.address .little = .error (.outsideImage (.ptr16 0)) := by
  intro image c d
  have haddress : d.address = .ptr16 0 := by decide
  have hc : image.cursorAt (.ptr16 0xFFFE) .little = .ok c := by simp [Image.cursorAt, image, c]
  refine ⟨by decide, by decide, hc, by decide, haddress, ?_⟩
  rw [haddress]
  exact if_pos (.inl (by decide))

end Cursor

end RegisterTransfer
