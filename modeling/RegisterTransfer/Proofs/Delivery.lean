import Mathlib.Algebra.BigOperators.Fin
import RegisterTransfer.Proofs.Positions
import RegisterTransfer.Proofs.Remainder

namespace RegisterTransfer

namespace ByteOrder

def weight (order : ByteOrder) (count place : Nat) : Nat :=
  match order with
  | .little => 256 ^ place
  | .big => 256 ^ (count - 1 - place)

def weigh (order : ByteOrder) (bytes : List UInt8) : Nat :=
  ∑ i : Fin bytes.length, bytes[i].toNat * order.weight bytes.length i

def join (order : ByteOrder) (first second : BitVec 16) : BitVec 32 :=
  match order with
  | .little => second ++ first
  | .big => first ++ second

theorem littleEndian_append (xs ys : List UInt8) :
    littleEndian (xs ++ ys) = littleEndian xs + 256 ^ xs.length * littleEndian ys := by
  induction xs with
  | nil => simp [littleEndian]
  | cons x xs ih =>
    rw [List.cons_append, littleEndian, littleEndian, ih, List.length_cons, Nat.pow_succ', Nat.mul_add,
      Nat.mul_assoc, Nat.add_assoc]

theorem weigh_cons (order : ByteOrder) (b : UInt8) (rest : List UInt8) :
    order.weigh (b :: rest) = b.toNat * order.weight (rest.length + 1) 0 +
      ∑ i : Fin rest.length, rest[i].toNat * order.weight (rest.length + 1) (i + 1) :=
  Fin.sum_univ_succ _

theorem number_eq_weigh (order : ByteOrder) (bytes : List UInt8) :
    order.number bytes = order.weigh bytes := by
  induction bytes with
  | nil => cases order <;> rfl
  | cons b rest ih =>
    rw [weigh_cons]
    -- In one order the first byte raises the places of all others, in the other its own.
    cases order with
    | little =>
      have hrest : ∑ i : Fin rest.length, rest[i].toNat * little.weight (rest.length + 1) (i + 1) =
          256 * little.weigh rest := by
        rw [weigh, Finset.mul_sum]
        apply Finset.sum_congr rfl
        intro i _
        rw [weight, weight, Nat.pow_succ', Nat.mul_left_comm]
      rw [hrest, ← ih]
      simp [weight, number, littleEndian]
    | big =>
      have hrest : ∑ i : Fin rest.length, rest[i].toNat * big.weight (rest.length + 1) (i + 1) =
          big.weigh rest := by
        apply Finset.sum_congr rfl
        intro i _
        have hplace : rest.length + 1 - 1 - (i + 1) = rest.length - 1 - i := by omega
        rw [weight, weight, hplace]
      rw [hrest, ← ih]
      simp only [weight, number, List.reverse_cons, littleEndian_append, littleEndian,
        List.length_reverse]
      rw [Nat.add_sub_cancel, Nat.sub_zero, Nat.mul_zero, Nat.add_zero, Nat.add_comm, Nat.mul_comm]

theorem number_append (order : ByteOrder) (xs ys : List UInt8) :
    order.number (xs ++ ys) =
      match order with
      | .little => order.number xs + 256 ^ xs.length * order.number ys
      | .big => order.number ys + 256 ^ ys.length * order.number xs := by
  cases order with
  | little => exact littleEndian_append xs ys
  | big =>
    simp only [number]
    rw [List.reverse_append, littleEndian_append, List.length_reverse]

def littleDigits : Nat → Nat → List UInt8
  | 0, _ => []
  | count + 1, n => .ofNat n :: littleDigits count (n / 256)

def digits (order : ByteOrder) (count n : Nat) : List UInt8 :=
  match order with
  | .little => littleDigits count n
  | .big => (littleDigits count n).reverse

theorem littleDigits_littleEndian (bytes : List UInt8) :
    littleDigits bytes.length (littleEndian bytes) = bytes := by
  induction bytes with
  | nil => rfl
  | cons b rest ih =>
    have hb := b.toNat_lt
    have hfirst : UInt8.ofNat (b.toNat + 256 * littleEndian rest) = b := by
      rw [← UInt8.toNat_inj, UInt8.toNat_ofNat']
      omega
    have hrest : (b.toNat + 256 * littleEndian rest) / 256 = littleEndian rest := by omega
    rw [List.length_cons, littleEndian, littleDigits, hfirst, hrest, ih]

theorem digits_number (order : ByteOrder) (bytes : List UInt8) :
    order.digits bytes.length (order.number bytes) = bytes := by
  cases order with
  | little => exact littleDigits_littleEndian bytes
  | big =>
    have h := littleDigits_littleEndian bytes.reverse
    rw [List.length_reverse] at h
    unfold digits number
    rw [h, List.reverse_reverse]

theorem digits_ofNat (order : ByteOrder) {count w : Nat} (hw : 256 ^ count = 2 ^ w)
    {bytes : List UInt8} (h : bytes.length = count) :
    order.digits count (BitVec.ofNat w (order.weigh bytes)).toNat = bytes := by
  have hlt := order.number_lt bytes
  rw [h, hw] at hlt
  rw [← number_eq_weigh, BitVec.toNat_ofNat, Nat.mod_eq_of_lt hlt, ← h, digits_number]

theorem join_ofNat (order : ByteOrder) {xs ys : List UInt8} (hx : xs.length = 2)
    (hy : ys.length = 2) :
    order.join (.ofNat 16 (order.number xs)) (.ofNat 16 (order.number ys)) =
      .ofNat 32 (order.number (xs ++ ys)) := by
  have hxlt := order.number_lt xs
  have hylt := order.number_lt ys
  rw [hx] at hxlt
  rw [hy] at hylt
  rw [← BitVec.toNat_inj, BitVec.toNat_ofNat, number_append, hx, hy]
  cases order with
  | little =>
    simp only [join, toNat_append_eq, BitVec.toNat_ofNat]
    omega
  | big =>
    simp only [join, toNat_append_eq, BitVec.toNat_ofNat]
    omega

end ByteOrder

inductive Datum
  | byte (x : BitVec 8)
  | half (x : BitVec 16)
  | word (x : BitVec 32)
  | block (bytes : List UInt8)
deriving DecidableEq

def Datum.bytes (order : ByteOrder) : Datum → List UInt8
  | .byte x => order.digits 1 x.toNat
  | .half x => order.digits 2 x.toNat
  | .word x => order.digits 4 x.toNat
  | .block bytes => bytes

namespace Cursor

namespace Operation

def delta : Operation → Nat
  | .peek8 delta | .peek16 delta | .peek32 delta => delta
  | .read8 | .read16 | .read32 | .readBytes _ => 0

def size : Operation → Nat
  | .peek8 _ | .read8 => 1
  | .peek16 _ | .read16 => 2
  | .peek32 _ | .read32 => 4
  | .readBytes length => length

def consumes : Operation → Bool
  | .peek8 _ | .peek16 _ | .peek32 _ => false
  | .read8 | .read16 | .read32 | .readBytes _ => true

def datum (order : ByteOrder) : Operation → List UInt8 → Datum
  | .peek8 _, bytes | .read8, bytes => .byte (.ofNat 8 (order.weigh bytes))
  | .peek16 _, bytes | .read16, bytes => .half (.ofNat 16 (order.weigh bytes))
  | .peek32 _, bytes | .read32, bytes => .word (.ofNat 32 (order.weigh bytes))
  | .readBytes _, bytes => .block bytes

def Fits (o : Operation) (c : Cursor) : Prop := c.offset + o.delta + o.size ≤ c.image.size

instance (o : Operation) (c : Cursor) : Decidable (o.Fits c) := inferInstanceAs (Decidable (_ ≤ _))

def span (o : Operation) (c : Cursor) : List UInt8 :=
  (c.image.bytes.drop (c.offset + o.delta)).take o.size

variable {o : Operation} {c : Cursor}

theorem span_of_consumes (h : o.consumes) : o.span c = c.rest.take o.size := by
  cases o with
  | peek8 | peek16 | peek32 => cases h
  | read8 | read16 | read32 | readBytes => rfl

theorem length_span (h : o.Fits c) : (o.span c).length = o.size := by
  unfold Fits Image.size at h
  rw [span, List.length_take, List.length_drop]
  omega

theorem bytes_datum (order : ByteOrder) {bytes : List UInt8} (h : bytes.length = o.size) :
    (o.datum order bytes).bytes order = bytes := by
  cases o with
  | readBytes length => rfl
  | peek8 | read8 => exact order.digits_ofNat (w := 8) rfl h
  | peek16 | read16 => exact order.digits_ofNat (w := 16) rfl h
  | peek32 | read32 => exact order.digits_ofNat (w := 32) rfl h

end Operation

def outcome (c : Cursor) : Operation → Except ImageError Datum
  | .peek8 delta => (c.peek8 delta).map .byte
  | .peek16 delta => (c.peek16 delta).map .half
  | .peek32 delta => (c.peek32 delta).map .word
  | .read8 => c.read8.1.map .byte
  | .read16 => c.read16.1.map .half
  | .read32 => c.read32.1.map .word
  | .readBytes length => (c.readBytes length).1.map .block

def gained (c : Cursor) (o : Operation) : List UInt8 :=
  if o.consumes then (c.outcome o).toOption.elim [] (Datum.bytes c.byteOrder) else []

def delivered (c : Cursor) : List Operation → List UInt8
  | [] => []
  | o :: rest => c.gained o ++ (c.after o).delivered rest

def saturatingAdd (m n : Nat) : Nat := min (m + n) maxOffset

def peekSaturating (c : Cursor) (delta length : Nat) : Except ImageError (List UInt8) :=
  let start := saturatingAdd c.offset delta
  let stop := saturatingAdd start length
  if start ≤ stop ∧ stop ≤ c.image.size then .ok (c.image.bytes.extract start stop)
  else .error (.pastEnd (c.image.base.addOffset start) length)

section
variable {c : Cursor} (o : Operation)

theorem peekBytes_eq_peekSaturating (hs : c.image.size < maxOffset) (delta length : Nat) :
    c.peekBytes delta length = c.peekSaturating delta length := by
  unfold peekBytes peekSaturating saturatingAdd
  dsimp only
  generalize hstart : min (c.offset + delta) maxOffset = start
  by_cases hfits : start + length ≤ c.image.size
  · have hstop : min (start + length) maxOffset = start + length := by omega
    rw [hstop, if_pos hfits, if_pos ⟨by omega, hfits⟩, List.extract_eq_take_drop,
      Nat.add_sub_cancel_left]
  · have hstop : ¬min (start + length) maxOffset ≤ c.image.size := by omega
    rw [if_neg hfits, if_neg fun h => hstop h.2]

theorem peekBytes_of_fits (hs : c.image.size < maxOffset) (h : o.Fits c) :
    c.peekBytes o.delta o.size = .ok (o.span c) := by
  unfold Operation.Fits at h
  have hstart : min (c.offset + o.delta) maxOffset = c.offset + o.delta := by omega
  rw [peekBytes, hstart, if_pos h]
  rfl

theorem peekBytes_of_not_fits (hs : c.image.size < maxOffset) (h : ¬o.Fits c) :
    c.peekBytes o.delta o.size =
      .error (.pastEnd (c.image.base.addOffset (saturatingAdd c.offset o.delta)) o.size) := by
  unfold Operation.Fits at h
  unfold peekBytes
  exact if_neg (by omega)

theorem reading_fst {α : Type} (c : Cursor) (length : Nat) (delivered : Except ImageError α) :
    (c.reading length delivered).1 = delivered := by
  cases delivered <;> rfl

theorem reading_eq_ok_iff {α : Type} {d e : Cursor} {length : Nat}
    {delivered : Except ImageError α} {x : α} :
    d.reading length delivered = (.ok x, e) ↔ delivered = .ok x ∧ d.advance length = e := by
  cases delivered <;> simp [reading]

theorem outcome_eq : c.outcome o =
    (c.peekBytes o.delta o.size).map (o.datum c.byteOrder) := by
  have hpeek : ∀ {w : Nat} (deliver : BitVec w → Datum) (delta length : Nat),
      ((c.peekNumber delta length).map (BitVec.ofNat w)).map deliver =
        (c.peekBytes delta length).map fun bytes => deliver (.ofNat w (c.byteOrder.weigh bytes)) := by
    intro w deliver delta length
    unfold peekNumber
    cases c.peekBytes delta length with
    | error e => rfl
    | ok bytes => simp only [Except.map, c.byteOrder.number_eq_weigh]
  cases o with
  | peek8 delta => exact hpeek .byte delta 1
  | peek16 delta => exact hpeek .half delta 2
  | peek32 delta => exact hpeek .word delta 4
  | read8 =>
    rw [outcome, read8, reading_fst]
    exact hpeek .byte 0 1
  | read16 =>
    rw [outcome, read16, reading_fst]
    exact hpeek .half 0 2
  | read32 =>
    rw [outcome, read32, reading_fst]
    exact hpeek .word 0 4
  | readBytes length =>
    rw [outcome, readBytes, reading_fst]
    rfl

theorem after_eq : c.after o =
    match c.outcome o with
    | .ok _ => if o.consumes then c.advance o.size else c
    | .error _ => c := by
  have hread : ∀ {α : Type} (length : Nat) (delivered : Except ImageError α) (f : α → Datum),
      (c.reading length delivered).2 =
        match (c.reading length delivered).1.map f with
        | .ok _ => c.advance length
        | .error _ => c := by
    intro α length delivered f
    cases delivered <;> rfl
  cases o with
  | peek8 delta => cases c.outcome (.peek8 delta) <;> rfl
  | peek16 delta => cases c.outcome (.peek16 delta) <;> rfl
  | peek32 delta => cases c.outcome (.peek32 delta) <;> rfl
  | read8 => exact hread 1 _ _
  | read16 => exact hread 2 _ _
  | read32 => exact hread 4 _ _
  | readBytes length => exact hread length _ _

variable (hs : c.image.size < maxOffset)
include hs

theorem outcome_of_fits (h : o.Fits c) :
    c.outcome o = .ok (o.datum c.byteOrder (o.span c)) := by
  rw [outcome_eq, peekBytes_of_fits o hs h]
  rfl

theorem outcome_of_not_fits (h : ¬o.Fits c) : c.outcome o =
    .error (.pastEnd (c.image.base.addOffset (saturatingAdd c.offset o.delta)) o.size) := by
  rw [outcome_eq, peekBytes_of_not_fits o hs h]
  rfl

theorem after_of_fits (h : o.Fits c) :
    c.after o = if o.consumes then c.advance o.size else c := by
  rw [after_eq, outcome_of_fits o hs h]

theorem after_of_not_fits (h : ¬o.Fits c) : c.after o = c := by
  rw [after_eq, outcome_of_not_fits o hs h]

theorem gained_of_fits (h : o.Fits c) : c.gained o = if o.consumes then o.span c else [] := by
  unfold gained
  rw [outcome_of_fits o hs h]
  exact congrArg (if o.consumes then · else []) (o.bytes_datum c.byteOrder (o.length_span h))

theorem gained_of_not_fits (h : ¬o.Fits c) : c.gained o = [] := by
  unfold gained
  rw [outcome_of_not_fits o hs h]
  exact ite_self []

theorem after_advances : c.after o = c.advance (c.gained o).length ∧
    c.gained o ++ (c.after o).rest = c.rest := by
  by_cases h : o.Fits c
  · rw [after_of_fits o hs h, gained_of_fits o hs h]
    by_cases hc : o.consumes
    · rw [if_pos hc, if_pos hc, o.length_span h, o.span_of_consumes hc]
      have hrest : (c.advance o.size).rest = c.rest.drop o.size := List.drop_drop.symm
      rw [hrest]
      exact ⟨rfl, List.take_append_drop _ _⟩
    · rw [if_neg hc, if_neg hc]
      exact ⟨rfl, rfl⟩
  · rw [after_of_not_fits o hs h, gained_of_not_fits o hs h]
    exact ⟨rfl, rfl⟩

theorem afterAll_advances (operations : List Operation) :
    c.afterAll operations = c.advance (c.delivered operations).length ∧
      c.delivered operations ++ (c.afterAll operations).rest = c.rest := by
  induction operations generalizing c with
  | nil => exact ⟨rfl, rfl⟩
  | cons o rest ih =>
    obtain ⟨hafter, hgained⟩ := after_advances o hs
    have himage : (c.after o).image = c.image := by rw [hafter]; rfl
    rw [← himage] at hs
    obtain ⟨hall, hdelivered⟩ := ih hs
    constructor
    · rw [afterAll, List.foldl_cons, ← afterAll, hall, delivered, List.length_append, hafter, advance_advance]
    · rw [afterAll, List.foldl_cons, ← afterAll, delivered, List.append_assoc, hdelivered, hgained]

theorem read16_eq_ok_iff {x : BitVec 16} {e : Cursor} : c.read16 = (.ok x, e) ↔
    (∃ bytes : List UInt8, bytes.length = 2 ∧ bytes <+: c.rest ∧
      .ofNat 16 (c.byteOrder.number bytes) = x) ∧ c.advance 2 = e := by
  rw [← peek16_zero_eq_ok_iff (Nat.le_of_lt hs)]
  exact reading_eq_ok_iff

theorem read32_eq_ok_iff {x : BitVec 32} {e : Cursor} : c.read32 = (.ok x, e) ↔
    (∃ bytes : List UInt8, bytes.length = 4 ∧ bytes <+: c.rest ∧
      .ofNat 32 (c.byteOrder.number bytes) = x) ∧ c.advance 4 = e := by
  rw [← peek32_zero_eq_ok_iff (Nat.le_of_lt hs)]
  exact reading_eq_ok_iff

theorem read32_joins {x : BitVec 32} {e : Cursor} : c.read32 = (.ok x, e) ↔
    ∃ first second d, c.read16 = (.ok first, d) ∧ d.read16 = (.ok second, e) ∧
      c.byteOrder.join first second = x := by
  have hrest : (c.advance 2).rest = c.rest.drop 2 := List.drop_drop.symm
  have hnext : (c.advance 2).image.size < maxOffset := hs
  rw [read32_eq_ok_iff hs]
  constructor
  · rintro ⟨⟨bytes, hlen, ⟨tail, htail⟩, rfl⟩, rfl⟩
    have hfirst : (bytes.take 2).length = 2 := by simp [hlen]
    have hsecond : (bytes.drop 2).length = 2 := by simp [hlen]
    have hlater : bytes.drop 2 <+: (c.advance 2).rest := by
      rw [hrest, ← htail, List.drop_append_of_le_length (by omega)]
      exact List.prefix_append _ _
    refine ⟨_, _, c.advance 2, (read16_eq_ok_iff hs).mpr ⟨⟨bytes.take 2, hfirst, ?_, rfl⟩, rfl⟩,
      (read16_eq_ok_iff hnext).mpr ⟨⟨bytes.drop 2, hsecond, hlater, rfl⟩, advance_advance c 2 2⟩, ?_⟩
    · exact (List.take_prefix 2 bytes).trans ⟨tail, htail⟩
    · have hjoin := c.byteOrder.join_ofNat hfirst hsecond
      rwa [List.take_append_drop] at hjoin
  · rintro ⟨_, _, d, hfirst, hsecond, rfl⟩
    obtain ⟨⟨xs, hx, ⟨tail, htail⟩, rfl⟩, rfl⟩ := (read16_eq_ok_iff hs).mp hfirst
    obtain ⟨⟨ys, hy, hys, rfl⟩, rfl⟩ := (read16_eq_ok_iff hnext).mp hsecond
    have hprefix : xs ++ ys <+: c.rest := by
      rw [hrest, ← htail, List.drop_left' hx] at hys
      rw [← htail]
      exact (List.prefix_append_right_inj xs).mpr hys
    refine ⟨⟨xs ++ ys, by simp [hx, hy], hprefix, (c.byteOrder.join_ofNat hx hy).symm⟩, ?_⟩
    exact (advance_advance c 2 2).symm

end

end Cursor

theorem Image.contains_iff (image : Image) (a : Address) (order : ByteOrder) :
    image.contains a = true ↔ ∃ e, image.cursorAt a order = .ok e ∧ e.isAtEnd = false := by
  have hcontains : image.contains a = true ↔
      image.base.value ≤ a.value ∧ a.value - image.base.value < image.size := by
    simp [contains]
  rw [hcontains]
  constructor
  · rintro ⟨hbase, hin⟩
    refine ⟨⟨image, a.value - image.base.value, order⟩, if_neg (by omega), ?_⟩
    rw [Cursor.isAtEnd_eq_false_iff]
    exact Nat.sub_pos_of_lt hin
  · rintro ⟨e, he, hend⟩
    rw [Cursor.isAtEnd_eq_false_iff] at hend
    unfold cursorAt at he
    split at he
    · cases he
    · rename_i hin
      cases he
      have hlt : a.value - image.base.value < image.size := Nat.lt_of_sub_pos hend
      omega

namespace Cursor

/-- The bytes that reads deliver are those between the positions before and after, and each
operation fails exactly if it asks for a byte past the end. -/
theorem delivers_image {image : Image} {start : Address} {order : ByteOrder} {c : Cursor}
    (hs : image.size < maxOffset) (hc : image.cursorAt start order = .ok c)
    (operations : List Operation) :
    let d := c.afterAll operations
    (d.image = image ∧ d.byteOrder = order) ∧
    (d.offset ≤ image.size ∧ d.offset + d.remaining = image.size) ∧
    (∀ o : Operation,
      (d.offset + o.delta + o.size ≤ image.size →
        d.outcome o =
            .ok (o.datum order ((image.bytes.drop (d.offset + o.delta)).take o.size)) ∧
          d.after o = if o.consumes then d.advance o.size else d) ∧
      (image.size < d.offset + o.delta + o.size →
        d.outcome o =
            .error (.pastEnd (image.base.addOffset (saturatingAdd d.offset o.delta)) o.size) ∧
          d.after o = d)) ∧
    (∀ delta length, d.peekBytes delta length = d.peekSaturating delta length) ∧
    (c.offset ≤ d.offset ∧
      c.delivered operations = image.bytes.extract c.offset d.offset) ∧
    (∀ x e, d.read32 = (.ok x, e) ↔ ∃ first second f, d.read16 = (.ok first, f) ∧
      f.read16 = (.ok second, e) ∧ order.join first second = x) ∧
    ∀ a, image.contains a = true ↔ ∃ e, image.cursorAt a order = .ok e ∧ e.isAtEnd = false := by
  intro d
  obtain ⟨-, rfl⟩ := Image.cursorAt_eq_ok hc
  obtain ⟨rfl, hoffset⟩ := offset_le_of_cursorAt hc
  obtain ⟨hadvance, hdelivered⟩ := afterAll_advances hs operations
  have hd : d = c.advance (c.delivered operations).length := hadvance
  obtain ⟨himage, hinside⟩ : d.image = c.image ∧ d.offset ≤ c.image.size :=
    afterAll_inside (Nat.le_of_lt hs) hoffset operations
  have horder : d.byteOrder = c.byteOrder := by rw [hd]; rfl
  have hpassed : d.offset = c.offset + (c.delivered operations).length := by rw [hd]; rfl
  have hs' : d.image.size < maxOffset := by rwa [himage]
  refine ⟨⟨himage, horder⟩, ⟨hinside, ?_⟩, ?_, fun delta length => ?_, ⟨?_, ?_⟩, ?_, ?_⟩
  · rw [remaining, himage]
    omega
  · intro o
    constructor
    · intro h
      have hfits : o.Fits d := by rwa [Operation.Fits, himage]
      refine ⟨?_, after_of_fits o hs' hfits⟩
      rw [outcome_of_fits o hs' hfits, Operation.span, himage, horder]
    · intro h
      have hfits : ¬o.Fits d := by rw [Operation.Fits, himage]; omega
      refine ⟨?_, after_of_not_fits o hs' hfits⟩
      rw [outcome_of_not_fits o hs' hfits, himage]
  · exact peekBytes_eq_peekSaturating hs' delta length
  · omega
  -- What was delivered stands in front of what is not read yet, and nothing in between.
  · have hrest : c.image.bytes.drop c.offset = c.delivered operations ++ d.rest := hdelivered.symm
    rw [List.extract_eq_take_drop, hrest, hpassed, Nat.add_sub_cancel_left, List.take_left]
  · intro x e
    rw [← horder]
    exact read32_joins hs'
  · exact fun a => c.image.contains_iff a c.byteOrder

theorem delivers_image_near_end :
    let image : Image := ⟨.ptr32 0x1000, [0x01, 0x02, 0x03, 0x04, 0x05]⟩
    let c : Cursor := ⟨image, 1, .big⟩
    let operations : List Operation :=
      [.peek32 maxOffset, .read16, .readBytes maxOffset, .read32]
    let d := c.afterAll operations
    image.size < maxOffset ∧ image.cursorAt (.ptr32 0x1001) .big = .ok c ∧ d.offset = 3 ∧
      c.delivered operations = [0x02, 0x03] ∧ d.outcome .read16 = .ok (.half 0x0405) ∧
      d.outcome (.peek16 maxOffset) = .error (.pastEnd (.ptr32 0x0FFF) 2) := by
  intro image c operations d
  have hs : image.size < maxOffset := by decide
  have hc : image.cursorAt (.ptr32 0x1001) .big = .ok c := by
    simp [Image.cursorAt, Image.size, Address.ptr32, Address.wrap, Address.space, image, c]
  have hd : d.offset = 3 := by decide
  obtain ⟨-, -, houtcome, -, ⟨-, hdelivered⟩, -, -⟩ := delivers_image hs hc operations
  have hread := ((houtcome .read16).1 (by decide)).1
  have hpeek := ((houtcome (.peek16 maxOffset)).2 (by decide)).1
  refine ⟨hs, hc, hd, ?_, ?_, ?_⟩
  · rw [hdelivered]
    rfl
  · rw [hread, Operation.datum, ← ByteOrder.number_eq_weigh]
    rfl
  · have haddress : image.base.addOffset (saturatingAdd 3 maxOffset : Nat) = .ptr32 0x0FFF := by
      change (Address.ptr32 0x1000).addOffset (saturatingAdd 3 maxOffset : Nat) = .ptr32 0x0FFF
      decide
    rw [hpeek, hd]
    exact congrArg (fun a => Except.error (ImageError.pastEnd a 2)) haddress

end Cursor

end RegisterTransfer
