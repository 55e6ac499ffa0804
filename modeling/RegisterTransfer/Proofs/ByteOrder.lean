import RegisterTransfer.Platform
import RegisterTransfer.Proofs.Clusters

namespace RegisterTransfer

namespace ByteOrder

def bytes (order : ByteOrder) (w : BitVec 32) : List UInt8 :=
  let ascending := [0, 8, 16, 24].map fun start => UInt8.ofBitVec (w.extractLsb' start 8)
  match order with
  | .little => ascending
  | .big => ascending.reverse

theorem length_bytes (order : ByteOrder) (w : BitVec 32) : (order.bytes w).length = 4 := by
  cases order <;> rfl

theorem number_bytes (order : ByteOrder) (w : BitVec 32) :
    order.number (order.bytes w) = w.toNat := by
  have hdigits : littleEndian (little.bytes w) = w.toNat := by
    have hw := w.isLt
    simp only [bytes, List.map_cons, List.map_nil, littleEndian, UInt8.toNat_ofBitVec,
      BitVec.extractLsb'_toNat, Nat.shiftRight_eq_div_pow]
    omega
  cases order with
  | little => exact hdigits
  | big =>
    rw [← hdigits, number, bytes, bytes, List.reverse_reverse]

end ByteOrder

namespace Image

def ofWords (order : ByteOrder) (base : Address) (words : List (BitVec 32)) : Image :=
  ⟨base, words.flatMap order.bytes⟩

variable (order : ByteOrder) (base : Address) (words : List (BitVec 32))

theorem size_ofWords : (ofWords order base words).size = 4 * words.length := by
  unfold size ofWords
  induction words with
  | nil => rfl
  | cons w words ih =>
    have hw := order.length_bytes w
    rw [List.flatMap_cons, List.length_append, List.length_cons]
    simp only at ih
    omega

theorem drop_ofWords (k : Nat) :
    (ofWords order base words).bytes.drop (4 * k) = (ofWords order base (words.drop k)).bytes := by
  unfold ofWords
  induction k generalizing words with
  | zero => rfl
  | succ k ih =>
    cases words with
    | nil => rfl
    | cons w words =>
      rw [List.flatMap_cons, Nat.mul_succ, Nat.add_comm, ← List.drop_drop,
        List.drop_left' (order.length_bytes w)]
      exact ih words

end Image

def Cursor.atWord (order : ByteOrder) (base : Address) (words : List (BitVec 32)) (k : Nat) :
    Cursor :=
  ⟨.ofWords order base words, 4 * k, order⟩

section
variable {order : ByteOrder} {base : Address} {words : List (BitVec 32)}

theorem Cursor.peek32_atWord (hs : 4 * words.length ≤ maxOffset) (k : Nat) :
    ((atWord order base words k).peek32 0).toOption = words[k]? := by
  have hsize : (atWord order base words k).image.size = 4 * words.length :=
    Image.size_ofWords order base words
  have hoffset : (atWord order base words k).offset = 4 * k := rfl
  cases hk : words.drop k with
  | nil =>
    have hlen := List.drop_eq_nil_iff.mp hk
    have hshort : ¬∃ w, (atWord order base words k).peek32 0 = .ok w := by
      rw [peek32_isOk_iff (by omega), remaining]
      omega
    rw [List.getElem?_eq_none hlen]
    cases hp : (atWord order base words k).peek32 0 with
    | ok w => exact absurd ⟨w, hp⟩ hshort
    | error e => rfl
  | cons w rest =>
    have hlen : k < words.length := by
      have := congrArg List.length hk
      rw [List.length_drop, List.length_cons] at this
      omega
    have hw : words[k]? = some w := by
      rw [← List.head?_drop, hk]
      rfl
    have hstart : min ((atWord order base words k).offset + 0) maxOffset = 4 * k := by omega
    have hbytes : (atWord order base words k).peekBytes 0 4 = .ok (order.bytes w) := by
      rw [peekBytes, hstart, if_pos (by omega), atWord, Image.drop_ofWords, hk, Image.ofWords,
        List.flatMap_cons, List.take_left' (order.length_bytes w)]
    rw [hw, peek32, peekNumber, hbytes]
    simp [Except.map, Except.toOption, atWord, order.number_bytes w]

theorem Architecture.decode?_atWord (hs : 4 * words.length ≤ Cursor.maxOffset) (k : Nat) :
    (Architecture.mips order).decode? (.atWord order base words k) = do
      let word ← words[k]?
      let operation ← Mips.decode (base.addOffset (4 * k : Nat)) word
      return .mips ⟨base.addOffset (4 * k : Nat), operation⟩ := by
  rw [decode?, Cursor.peek32_atWord hs]
  rfl

theorem Cursor.remaining_atWord (k : Nat) :
    (atWord order base words k).remaining = 4 * words.length - 4 * k :=
  congrArg (· - 4 * k) (Image.size_ofWords order base words)

theorem Image.cursorAt_ofWords {a : Address} (ha : 4 ∣ a.value - base.value) :
    (∀ order, (ofWords order base words).cursorAt a order = .error (.outsideImage a)) ∨
      ∃ k, ∀ order, (ofWords order base words).cursorAt a order =
        .ok (.atWord order base words k) := by
  obtain ⟨k, hk⟩ := ha
  by_cases hout : a.value < base.value ∨ 4 * words.length < a.value - base.value
  · left
    intro order
    rw [cursorAt, size_ofWords]
    exact if_pos hout
  · right
    refine ⟨k, ?_⟩
    intro order
    rw [cursorAt, size_ofWords, Cursor.atWord, ← hk]
    exact if_neg hout

end

section
variable {order order' : ByteOrder} {base : Address} {words : List (BitVec 32)}

def Decoding.InStep (order order' : ByteOrder) (base : Address) (words : List (BitVec 32))
    (s t : Decoding) : Prop :=
  ∃ k failed, s = ⟨.mips order, .atWord order base words k, failed⟩ ∧
    t = ⟨.mips order', .atWord order' base words k, failed⟩

theorem Decoding.simulates_byteOrder (hs : 4 * words.length ≤ Cursor.maxOffset) :
    Source.Simulates next next id id (InStep order order' base words) := by
  rintro s t ⟨k, failed, rfl, rfl⟩
  have hend : (Cursor.atWord order base words k).isAtEnd =
      (Cursor.atWord order' base words k).isAtEnd := by
    rw [Cursor.isAtEnd, Cursor.isAtEnd, Cursor.remaining_atWord, Cursor.remaining_atWord]
  have hdecode : (Architecture.mips order).decode? (.atWord order base words k) =
      (Architecture.mips order').decode? (.atWord order' base words k) :=
    (Architecture.decode?_atWord hs k).trans (Architecture.decode?_atWord hs k).symm
  rw [next_eq, next_eq]
  simp only [hend, hdecode]
  by_cases hover : (failed || (Cursor.atWord order' base words k).isAtEnd) = true
  · left
    exact ⟨if_pos hover, if_pos hover⟩
  · right
    rw [if_neg hover, if_neg hover]
    cases hi : (Architecture.mips order').decode? (.atWord order' base words k) with
    | none => exact ⟨_, _, _, _, rfl, rfl, rfl, k, true, rfl, rfl⟩
    | some i =>
      obtain ⟨w, op, -, -, rfl⟩ := Architecture.decode?_mips.mp hi
      exact ⟨_, _, _, _, rfl, rfl, rfl, k + 1, failed, rfl, rfl⟩

theorem Decoding.InStep.take {s t : Decoding} (hs : 4 * words.length ≤ Cursor.maxOffset)
    (h : InStep order order' base words s t) (n : Nat) :
    (s.take n).1 = (t.take n).1 ∧ InStep order order' base words (s.take n).2 (t.take n).2 := by
  obtain ⟨hitems, hend⟩ := (simulates_byteOrder hs).take n h
  rw [List.map_id, List.map_id] at hitems
  rw [take_eq, take_eq]
  exact ⟨hitems, hend⟩

end

theorem Session.take_atWord (host : Host) (order order' : ByteOrder) (base : Address)
    {words : List (BitVec 32)} (hs : 4 * words.length ≤ Cursor.maxOffset) (m n : Nat)
    (k : Knowledge) (f : Frame) :
    let lifted order := (start (.mips order) (.atWord order base words m) k f).take host n
    (lifted order).1 = (lifted order').1 ∧
      (lifted order).2.workspace = (lifted order').2.workspace := by
  intro lifted
  have hdecoded : ((Decoding.start (.mips order) (.atWord order base words m)).take n).1 =
      ((Decoding.start (.mips order') (.atWord order' base words m)).take n).1 :=
    (Decoding.InStep.take hs ⟨m, false, rfl, rfl⟩ n).1
  have hlifted : ∀ order, lifted order = _ := fun _ => take_eq_clusters host n _
  rw [hlifted, hlifted]
  exact ⟨congrArg (clusters host f) hdecoded, congrArg (Workspace.after ⟨k, f, []⟩) hdecoded⟩

theorem Decoding.InStep.address_eq {order order' : ByteOrder} {base : Address}
    {words : List (BitVec 32)} {s t : Decoding} (h : InStep order order' base words s t) :
    s.cursor.address = t.cursor.address := by
  obtain ⟨k, failed, rfl, rfl⟩ := h
  rfl

theorem ImportStub.destination_congr {host : Host} {a a' : Architecture} {c c' : Cursor}
    (hbits : a.wordBits = a'.wordBits)
    (hitems : ((Session.fresh a c).take host length).1 =
      ((Session.fresh a' c').take host length).1)
    (hend : ((Session.fresh a c).take host length).2.workspace =
      ((Session.fresh a' c').take host length).2.workspace) :
    destination host a c = destination host a' c' := by
  have haddress : a.addressOfConstant = a'.addressOfConstant := by
    funext x
    rw [Architecture.addressOfConstant, Architecture.addressOfConstant, hbits]
  have hslot : slot? a = slot? a' := by
    funext transfers
    rw [slot?, slot?, haddress]
  unfold destination
  simp only [hitems, hend, hslot]

/-- A position outside the program is refused in both byte orders; at any word of it the sessions
deliver the same and end up knowing, naming and asking the same. -/
theorem meaning_independent_of_byteOrder (host : Host) (base a : Address)
    (words : List (BitVec 32)) (k : Knowledge) (f : Frame)
    (hs : 4 * words.length ≤ Cursor.maxOffset) (ha : 4 ∣ a.value - base.value) :
    let opened order :=
      (Image.ofWords order base words).cursorAt a (Architecture.mips order).byteOrder
    let decoding order c := Decoding.start (.mips order) c
    let lifting order c := Session.start (.mips order) c k f
    (opened .little = .error (.outsideImage a) ∧ opened .big = .error (.outsideImage a)) ∨
    ∃ c d, opened .little = .ok c ∧ opened .big = .ok d ∧ c.address = d.address ∧
      (decoding .little c).run.1 = (decoding .big d).run.1 ∧
      ((lifting .little c).run host).1 = ((lifting .big d).run host).1 ∧
      ((lifting .little c).run host).2.workspace = ((lifting .big d).run host).2.workspace ∧
      (∀ n, ((decoding .little c).take n).1 = ((decoding .big d).take n).1 ∧
        ((decoding .little c).take n).2.cursor.address =
          ((decoding .big d).take n).2.cursor.address ∧
        ((lifting .little c).take host n).1 = ((lifting .big d).take host n).1 ∧
        ((lifting .little c).take host n).2.workspace =
          ((lifting .big d).take host n).2.workspace) ∧
      (Platform.winMips .little).stubDestination host c =
        (Platform.winMips .big).stubDestination host d := by
  intro opened decoding lifting
  obtain hout | ⟨m, hin⟩ := @Image.cursorAt_ofWords base words a ha
  · exact .inl ⟨hout .little, hout .big⟩
  right
  let c := Cursor.atWord .little base words m
  let d := Cursor.atWord .big base words m
  have hdecoded : ∀ n, ((decoding .little c).take n).1 = ((decoding .big d).take n).1 ∧
      Decoding.InStep .little .big base words ((decoding .little c).take n).2
        ((decoding .big d).take n).2 := fun n =>
    Decoding.InStep.take hs ⟨m, false, rfl, rfl⟩ n
  have hlifted := Session.take_atWord host .little .big base hs m
  -- Whole runs are prefixes of one length, as the same number of bytes remains.
  have hremaining : c.remaining = d.remaining :=
    (Cursor.remaining_atWord m).trans (Cursor.remaining_atWord m).symm
  have hdecoding : (decoding .little c).run = (decoding .little c).take d.remaining :=
    congrArg (fun n => (decoding .little c).take n) hremaining
  have hlifting : (lifting .little c).run host = (lifting .little c).take host d.remaining :=
    congrArg (fun n => (lifting .little c).take host n) hremaining
  refine ⟨c, d, hin .little, hin .big, rfl, ?_, ?_, ?_, ?_, ?_⟩
  · rw [hdecoding]
    exact (hdecoded d.remaining).1
  · rw [hlifting]
    exact (hlifted d.remaining k f).1
  · rw [hlifting]
    exact (hlifted d.remaining k f).2
  · intro n
    obtain ⟨hitems, hend⟩ := hdecoded n
    exact ⟨hitems, hend.address_eq, hlifted n k f⟩
  · obtain ⟨hitems, hend⟩ := hlifted ImportStub.length .empty (.empty 32)
    exact ImportStub.destination_congr rfl hitems hend

theorem import_found_in_either_byteOrder :
    let words : List (BitVec 32) := [0xFFFFFFFF, 0x3C020040, 0x8C431234, 0x00600008, 0]
    let host : Host :=
      ⟨fun target _ => if target = .ptr32 0x401234 then some ⟨"CreateFileW", none⟩ else none,
        fun _ => none⟩
    ∃ d, (Image.ofWords .big (.ptr32 0x11000) words).cursorAt (.ptr32 0x11004) .big = .ok d ∧
      ((Decoding.start (.mips .big) d).run).1.length = 4 ∧
      (Platform.winMips .big).stubDestination host d =
        (some ⟨"CreateFileW", none⟩, [.imported (.ptr32 0x401234) (.ptr32 0x1100C)]) := by
  intro words host
  obtain ⟨hout, -⟩ | ⟨c, d, hc, hd, -, hrun, -, -, -, hstub⟩ :=
    meaning_independent_of_byteOrder host (.ptr32 0x11000) (.ptr32 0x11004) words .empty
      (.empty 32) (by decide) (by decide)
  · cases hout
  · cases hc
    refine ⟨d, hd, ?_, ?_⟩
    · rw [← hrun]
      unfold words
      decide +kernel
    · rw [← hstub]
      unfold host words
      decide +kernel

end RegisterTransfer
