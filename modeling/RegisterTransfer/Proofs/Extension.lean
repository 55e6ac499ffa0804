import RegisterTransfer.Proofs.Clusters

/-!
Images with more bytes at their end. What was decoded stays as it is, and so does an encoding that
is invalid; only an instruction that the end of the image cut short can become another one.
-/

namespace RegisterTransfer

def Cursor.extend (c : Cursor) (more : List UInt8) : Cursor :=
  { c with image := { c.image with bytes := c.image.bytes ++ more } }

namespace Cursor
variable (c : Cursor) (more : List UInt8)

theorem remaining_le_extend : c.remaining ≤ (c.extend more).remaining := by
  have hsize : (c.extend more).image.size = c.image.size + more.length := List.length_append
  have hoffset : (c.extend more).offset = c.offset := rfl
  unfold remaining
  omega

theorem isAtEnd_extend (h : c.isAtEnd = false) : (c.extend more).isAtEnd = false := by
  have hle := c.remaining_le_extend more
  rw [isAtEnd_eq_false_iff] at h ⊢
  exact Nat.lt_of_lt_of_le h hle

variable {c}

theorem peekNumber_extend {delta length n : Nat} (h : c.peekNumber delta length = .ok n) :
    (c.extend more).peekNumber delta length = .ok n := by
  unfold peekNumber peekBytes at h ⊢
  simp only at h ⊢
  split at h
  · rename_i hfits
    have hlong := hfits
    unfold Image.size at hlong
    have hsize : (c.extend more).image.size = c.image.size + more.length := List.length_append
    have hoffset : (c.extend more).offset = c.offset := rfl
    have hbytes : (c.extend more).image.bytes = c.image.bytes ++ more := rfl
    rw [hoffset, if_pos (by omega), hbytes, List.drop_append_of_le_length (by omega),
      List.take_append_of_le_length (by rw [List.length_drop]; omega)]
    exact h
  · cases h

theorem map_peekNumber_extend {α : Type} {f : Nat → α} {delta length : Nat} {x : α}
    (h : (c.peekNumber delta length).map f = .ok x) :
    ((c.extend more).peekNumber delta length).map f = .ok x := by
  obtain ⟨n, hn, hx⟩ := map_eq_ok_iff.mp h
  exact map_eq_ok_iff.mpr ⟨n, peekNumber_extend more hn, hx⟩

theorem peek8_extend {delta : Nat} {b : BitVec 8} (h : c.peek8 delta = .ok b) :
    (c.extend more).peek8 delta = .ok b :=
  map_peekNumber_extend more h

theorem peek32_extend {delta : Nat} {w : BitVec 32} (h : c.peek32 delta = .ok w) :
    (c.extend more).peek32 delta = .ok w :=
  map_peekNumber_extend more h

end Cursor

theorem Mos6502.operandValue_extend {c : Cursor} (more : List UInt8) {mode : Mode} {x : BitVec 16}
    (h : operandValue c mode = .ok x) : operandValue (c.extend more) mode = .ok x := by
  unfold operandValue at h ⊢
  split at h
  · exact h
  · obtain ⟨b, hb, hx⟩ := map_eq_ok_iff.mp h
    exact map_eq_ok_iff.mpr ⟨b, Cursor.peek8_extend more hb, hx⟩
  · exact Cursor.map_peekNumber_extend more h

namespace Architecture
variable {a : Architecture} {c : Cursor}

theorem decode?_extend {i : Instruction} (more : List UInt8) (h : a.decode? c = some i) :
    a.decode? (c.extend more) = some i := by
  cases a with
  | mips order =>
    obtain ⟨w, op, hw, hop, rfl⟩ := decode?_mips.mp h
    exact decode?_mips.mpr ⟨w, op, Cursor.peek32_extend more hw, hop, rfl⟩
  | mos6502 =>
    obtain ⟨j, hj, rfl⟩ := decode?_mos6502.mp h
    obtain ⟨opcode, ho, hm, hv, ha⟩ := Mos6502.decode_eq_some_iff.mp hj
    refine decode?_mos6502.mpr ⟨j, Mos6502.decode_eq_some_iff.mpr ?_, rfl⟩
    exact ⟨opcode, Cursor.peek8_extend more ho, hm, Mos6502.operandValue_extend more hv, ha⟩

def Invalid : Architecture → Cursor → Prop
  | .mips _, c => ∃ w, c.peek32 0 = .ok w ∧ Mips.decode c.address w = none
  | .mos6502, c => ∃ opcode, c.peek8 0 = .ok opcode ∧ Mos6502.decodeOpcode opcode = none

def Truncated : Architecture → Cursor → Prop
  | .mips _, c => c.remaining < 4
  | .mos6502, c => ∃ opcode mnemonic mode, c.peek8 0 = .ok opcode ∧
      Mos6502.decodeOpcode opcode = some (mnemonic, mode) ∧ c.remaining < mode.length

theorem malformed_iff : a.Malformed c ↔ a.Invalid c ∨ a.Truncated c := by
  cases a with
  | mips order => exact or_comm
  | mos6502 =>
    constructor
    · rintro ⟨opcode, ho, hshort⟩
      cases hm : Mos6502.decodeOpcode opcode with
      | none => exact .inl ⟨opcode, ho, hm⟩
      | some pair => exact .inr ⟨opcode, pair.1, pair.2, ho, hm, hshort _ _ hm⟩
    · rintro (⟨opcode, ho, hm⟩ | ⟨opcode, mnemonic, mode, ho, hm, hshort⟩)
      · refine ⟨opcode, ho, ?_⟩
        intro mnemonic mode hm'
        cases hm.symm.trans hm'
      · refine ⟨opcode, ho, ?_⟩
        intro mnemonic' mode' hm'
        cases hm.symm.trans hm'
        exact hshort

theorem Invalid.not_truncated (hs : c.image.size ≤ Cursor.maxOffset) (h : a.Invalid c) :
    ¬a.Truncated c := by
  cases a with
  | mips order =>
    obtain ⟨w, hw, -⟩ := h
    have hr := (Cursor.peek32_isOk_iff hs 0).mp ⟨w, hw⟩
    exact Nat.not_lt.mpr (by omega)
  | mos6502 =>
    obtain ⟨opcode, ho, hm⟩ := h
    rintro ⟨opcode', mnemonic, mode, ho', hm', -⟩
    cases ho.symm.trans ho'
    cases hm.symm.trans hm'

theorem Invalid.decode?_extend (more : List UInt8) (h : a.Invalid c) :
    a.decode? (c.extend more) = none := by
  cases hd : a.decode? (c.extend more) with
  | none => rfl
  | some i =>
    cases a with
    | mips order =>
      obtain ⟨w, hw, hop⟩ := h
      obtain ⟨w', op, hw', hop', -⟩ := decode?_mips.mp hd
      cases (Cursor.peek32_extend more hw).symm.trans hw'
      cases hop.symm.trans hop'
    | mos6502 =>
      obtain ⟨opcode, ho, hm⟩ := h
      obtain ⟨j, hj, -⟩ := decode?_mos6502.mp hd
      obtain ⟨opcode', ho', hm', -⟩ := Mos6502.decode_eq_some_iff.mp hj
      cases (Cursor.peek8_extend more ho).symm.trans ho'
      cases hm.symm.trans hm'

theorem Truncated.remaining_le (h : a.Truncated c) :
    (a.kind = .mips32 → c.remaining ≤ 3) ∧ (a.kind = .mos6502 → c.remaining ≤ 2) := by
  cases a with
  | mips order =>
    refine ⟨?_, ?_⟩
    · intro _
      exact Nat.le_of_lt_succ h
    · intro ha
      cases ha
  | mos6502 =>
    obtain ⟨opcode, mnemonic, mode, -, -, hshort⟩ := h
    have hlen : mode.length ≤ 3 := by cases mode <;> decide
    refine ⟨?_, ?_⟩
    · intro ha
      cases ha
    · intro _
      omega

end Architecture

theorem Decoding.next_start {a : Architecture} {c : Cursor} {i : Instruction}
    (hc : c.isAtEnd = false) (hi : a.decode? c = some i) :
    (start a c).next = some (.ok i, start a (c.advance i.length)) := by
  have hover : ¬(false || c.isAtEnd) = true := by simp [hc]
  refine (next_eq _).trans ((if_neg hover).trans ?_)
  simp only [start, hi]

theorem Decoding.take_start_of_none {a : Architecture} {c : Cursor} (hc : c.isAtEnd = false)
    (hi : a.decode? c = none) (n : Nat) :
    (start a c).take (n + 1) = ([.error ⟨c.address⟩], ⟨a, c, true⟩) := by
  have hover : ¬(false || c.isAtEnd) = true := by simp [hc]
  rw [take, next_eq, start, if_neg hover]
  simp only [hi]
  cases n <;> rfl

inductive Decodes (a : Architecture) : Cursor → List Instruction → Cursor → Prop
  | nil (c) : Decodes a c [] c
  | cons {c d i is} : c.isAtEnd = false → a.decode? c = some i →
      Decodes a (c.advance i.length) is d → Decodes a c (i :: is) d

namespace Decodes
variable {a : Architecture} {c d : Cursor} {is : List Instruction}

theorem extend (more : List UInt8) (h : Decodes a c is d) :
    Decodes a (c.extend more) is (d.extend more) := by
  induction h with
  | nil c => exact .nil _
  | cons hc hi _ ih => exact .cons (Cursor.isAtEnd_extend _ more hc) (a.decode?_extend more hi) ih

theorem image_eq (h : Decodes a c is d) : d.image = c.image := by
  induction h with
  | nil c => rfl
  | cons _ _ _ ih => exact ih

theorem length_add_remaining_le (h : Decodes a c is d) :
    is.length + d.remaining ≤ c.remaining := by
  induction h with
  | nil c => exact Nat.le_of_eq (Nat.zero_add c.remaining)
  | @cons c d i is hc _ _ ih =>
    have hr := Cursor.isAtEnd_eq_false_iff.mp hc
    have hlen := i.length_pos
    rw [Cursor.remaining_advance] at ih
    rw [List.length_cons]
    omega

theorem take (h : Decodes a c is d) (n : Nat) :
    (Decoding.start a c).take (is.length + n) =
      (is.map .ok ++ ((Decoding.start a d).take n).1, ((Decoding.start a d).take n).2) := by
  induction h with
  | nil c => rw [List.length_nil, Nat.zero_add, List.map_nil, List.nil_append]
  | @cons c d i is hc hi _ ih =>
    rw [List.length_cons, Nat.succ_add, Decoding.take, Decoding.next_start hc hi]
    simp only [ih, List.map_cons, List.cons_append]

theorem run (h : Decodes a c is d) : ∃ n, d.remaining ≤ n ∧ (Decoding.start a c).run =
    (is.map .ok ++ ((Decoding.start a d).take n).1, ((Decoding.start a d).take n).2) := by
  have hlen := h.length_add_remaining_le
  obtain ⟨n, hn⟩ : ∃ n, c.remaining = is.length + n := ⟨c.remaining - is.length, by omega⟩
  refine ⟨n, by omega, ?_⟩
  rw [← h.take n, ← hn]
  rfl

theorem run_of_none (h : Decodes a c is d) (hd : d.isAtEnd = false) (hi : a.decode? d = none) :
    (Decoding.start a c).run = (is.map .ok ++ [.error ⟨d.address⟩], ⟨a, d, true⟩) := by
  have hr := Cursor.isAtEnd_eq_false_iff.mp hd
  obtain ⟨n, hn, hrun⟩ := h.run
  obtain ⟨m, rfl⟩ : ∃ m, n = m + 1 := ⟨n - 1, by omega⟩
  rw [hrun, Decoding.take_start_of_none hd hi]

end Decodes

theorem Decoding.exists_decodes (a : Architecture) (c : Cursor) (n : Nat) :
    ∃ is d, Decodes a c is d ∧
      ((start a c).take n = (is.map .ok, start a d) ∨
        d.isAtEnd = false ∧ a.decode? d = none ∧
          (start a c).take n = (is.map .ok ++ [.error ⟨d.address⟩], ⟨a, d, true⟩)) := by
  -- With no pulls left a session stops between instructions, as it does at the end of the image.
  induction n generalizing c with
  | zero => exact ⟨[], c, .nil c, .inl rfl⟩
  | succ n ih =>
    cases hend : c.isAtEnd with
    | true =>
      have hover : (false || c.isAtEnd) = true := by simp [hend]
      rw [take, next_eq, start, if_pos hover]
      exact ⟨[], c, .nil c, .inl rfl⟩
    | false =>
      cases hi : a.decode? c with
      | some i =>
        obtain ⟨is, d, hd, hitems⟩ := ih (c.advance i.length)
        refine ⟨i :: is, d, .cons hend hi hd, ?_⟩
        rw [take, next_start hend hi]
        obtain hitems | ⟨hd, hbad, hitems⟩ := hitems
        · left
          simp only [hitems, List.map_cons]
        · refine .inr ⟨hd, hbad, ?_⟩
          simp only [hitems, List.map_cons, List.cons_append]
      | none => exact ⟨[], c, .nil c, .inr ⟨hend, hi, take_start_of_none hend hi n⟩⟩

def successes {α : Type} (items : List (Except DecodeError α)) : List α :=
  items.filterMap Except.toOption

theorem mem_successes {α : Type} {x : α} {items : List (Except DecodeError α)} :
    x ∈ successes items ↔ .ok x ∈ items := by
  rw [successes, List.mem_filterMap]
  simp only [toOption_eq_some_iff, exists_eq_right]

theorem successes_append {α : Type} (xs ys : List (Except DecodeError α)) :
    successes (xs ++ ys) = successes xs ++ successes ys :=
  List.filterMap_append

theorem isPrefix_successes {α : Type} {xs rest tail : List (Except DecodeError α)}
    (h : successes tail = []) : successes (xs ++ tail) <+: successes (xs ++ rest) := by
  rw [successes_append, successes_append, h, List.append_nil]
  exact List.prefix_append _ _

theorem Decoding.run_extend (a : Architecture) (c : Cursor) (more : List UInt8) :
    ∃ (is : List Instruction) (tail rest : List (Except DecodeError Instruction)),
      successes tail = [] ∧ (start a c).run.1 = is.map .ok ++ tail ∧
        (start a (c.extend more)).run.1 = is.map .ok ++ rest := by
  obtain ⟨is, d, hd, hends⟩ := exists_decodes a c c.remaining
  -- The longer session goes through the same instructions, and then on from the same place.
  obtain ⟨n, -, hlonger⟩ := (hd.extend more).run
  obtain hends | ⟨-, -, hends⟩ := hends
  · have hitems : (start a c).run.1 = is.map .ok ++ [] :=
      (congrArg Prod.fst hends).trans (List.append_nil _).symm
    exact ⟨is, [], _, rfl, hitems, congrArg Prod.fst hlonger⟩
  · exact ⟨is, [.error ⟨d.address⟩], _, rfl, congrArg Prod.fst hends, congrArg Prod.fst hlonger⟩

theorem Decoding.run_of_error {a : Architecture} {c : Cursor} {e : DecodeError}
    (hs : c.image.size ≤ Cursor.maxOffset) (h : .error e ∈ (start a c).run.1) :
    let place := (start a c).run.2.cursor
    place.image = c.image ∧ e.address = place.address ∧ a.Malformed place ∧
      ∀ more, a.Invalid place → (start a (c.extend more)).run =
        ((start a c).run.1, ⟨a, place.extend more, true⟩) := by
  obtain ⟨is, d, hd, hends⟩ := exists_decodes a c c.remaining
  have hrun : (start a c).take c.remaining = (start a c).run := rfl
  rw [hrun] at hends
  obtain hends | ⟨hend, hbad, hends⟩ := hends
  · rw [hends] at h
    obtain ⟨i, -, hi⟩ := List.mem_map.mp h
    cases hi
  · rw [hends] at h ⊢
    have haddress : e = ⟨d.address⟩ := by simpa using h
    have himage : d.image = c.image := hd.image_eq
    have hremaining := Cursor.isAtEnd_eq_false_iff.mp hend
    have hmalformed : a.Malformed d := by
      rw [← himage] at hs
      exact (Architecture.decode?_eq_none_iff hs hremaining).mp hbad
    refine ⟨himage, congrArg DecodeError.address haddress, hmalformed, ?_⟩
    intro more hinvalid
    exact (hd.extend more).run_of_none (d.isAtEnd_extend more hend) (hinvalid.decode?_extend more)

theorem length_successes_clusters (host : Host) (f : Frame)
    (items : List (Except DecodeError Instruction)) :
    (successes (clusters host f items)).length = (successes items).length := by
  induction items generalizing f with
  | nil => rfl
  | cons item items ih =>
    cases item with
    | ok i => exact congrArg (· + 1) (ih (i.framed f))
    | error e => exact ih f

/-- More bytes at the end of an image leave all that was delivered before. An error stays as well,
unless it was the end of the image that cut the instruction short. -/
theorem extension_keeps_decoded (host : Host) (a : Architecture) (c : Cursor) (more : List UInt8)
    (k : Knowledge) (f : Frame) (hs : c.image.size ≤ Cursor.maxOffset) :
    let decoding c := (Decoding.start a c).run
    let lifted c := ((Session.start a c k f).run host).1
    let place := (decoding c).2.cursor
    successes (decoding c).1 <+: successes (decoding (c.extend more)).1 ∧
      successes (lifted c) <+: successes (lifted (c.extend more)) ∧
      ∀ e, .error e ∈ (decoding c).1 ∨ .error e ∈ lifted c →
        place.image = c.image ∧ e.address = place.address ∧
        (a.Invalid place ∧ ¬a.Truncated place ∧ (decoding (c.extend more)).1 = (decoding c).1 ∧
            lifted (c.extend more) = lifted c ∧
            (decoding (c.extend more)).2.cursor = place.extend more ∨
          a.Truncated place ∧ ¬a.Invalid place ∧ (a.kind = .mips32 → place.remaining ≤ 3) ∧
            (a.kind = .mos6502 → place.remaining ≤ 2)) := by
  intro decoding lifted place
  have hlifted : ∀ c, lifted c = clusters host f (decoding c).1 := fun c =>
    Session.clusters_take host a c k f c.remaining
  obtain ⟨is, tail, rest, htail, hitems, hlonger⟩ := Decoding.run_extend a c more
  refine ⟨?_, ?_, ?_⟩
  · rw [hitems, hlonger]
    exact isPrefix_successes htail
  -- What follows the instructions is no success, and lifting makes none of it.
  · have hclusters : successes (clusters host (f.after (is.map .ok)) tail) = [] := by
      rw [← List.length_eq_zero_iff, length_successes_clusters, htail, List.length_nil]
    rw [hlifted, hlifted, hitems, hlonger, clusters_append, clusters_append]
    exact isPrefix_successes hclusters
  · intro e he
    rw [hlifted, error_mem_clusters, or_self] at he
    obtain ⟨himage, haddress, hmalformed, hkept⟩ := Decoding.run_of_error hs he
    refine ⟨himage, haddress, ?_⟩
    rw [← himage] at hs
    obtain hinvalid | htruncated := Architecture.malformed_iff.mp hmalformed
    · have hsame : decoding (c.extend more) = ((decoding c).1, ⟨a, place.extend more, true⟩) :=
        hkept more hinvalid
      left
      rw [hlifted, hlifted, hsame]
      exact ⟨hinvalid, hinvalid.not_truncated hs, rfl, rfl, rfl⟩
    · right
      refine ⟨htruncated, ?_, htruncated.remaining_le⟩
      intro hinvalid
      exact hinvalid.not_truncated hs htruncated

theorem extension_completes_call :
    let c : Cursor := ⟨⟨.ptr16 0x0600, [0xE8, 0x20, 0x00]⟩, 0, .little⟩
    let longer := c.extend [0xC0, 0x02]
    let decoded c := ((Decoding.start .mos6502 c).run).1
    c.image.size ≤ Cursor.maxOffset ∧ longer.image.size ≤ Cursor.maxOffset ∧
      decoded c = [.ok (.mos6502 ⟨.ptr16 0x0600, .inx, .implied, 0⟩), .error ⟨.ptr16 0x0601⟩] ∧
      successes (decoded c) <+: successes (decoded longer) ∧
      decoded longer = [.ok (.mos6502 ⟨.ptr16 0x0600, .inx, .implied, 0⟩),
        .ok (.mos6502 ⟨.ptr16 0x0601, .jsr, .absolute, 0xC000⟩), .error ⟨.ptr16 0x0604⟩] ∧
      ∀ more, decoded (longer.extend more) = decoded longer := by
  have hshort : ((Decoding.start .mos6502
      ⟨⟨.ptr16 0x0600, [0xE8, 0x20, 0x00]⟩, 0, .little⟩).run).1 =
        [.ok (.mos6502 ⟨.ptr16 0x0600, .inx, .implied, 0⟩), .error ⟨.ptr16 0x0601⟩] := rfl
  have hlonger : (Decoding.start .mos6502
      ⟨⟨.ptr16 0x0600, [0xE8, 0x20, 0x00, 0xC0, 0x02]⟩, 0, .little⟩).run =
        ([.ok (.mos6502 ⟨.ptr16 0x0600, .inx, .implied, 0⟩),
          .ok (.mos6502 ⟨.ptr16 0x0601, .jsr, .absolute, 0xC000⟩), .error ⟨.ptr16 0x0604⟩],
        ⟨.mos6502, ⟨⟨.ptr16 0x0600, [0xE8, 0x20, 0x00, 0xC0, 0x02]⟩, 4, .little⟩, true⟩) := rfl
  have hopcode : Architecture.mos6502.Invalid
      ⟨⟨.ptr16 0x0600, [0xE8, 0x20, 0x00, 0xC0, 0x02]⟩, 4, .little⟩ := ⟨0x02, rfl, rfl⟩
  intro c longer decoded
  let host : Host := ⟨fun _ _ => none, fun _ => none⟩
  have hfits : longer.image.size ≤ Cursor.maxOffset := by decide
  obtain ⟨hkept, -, -⟩ :=
    extension_keeps_decoded host .mos6502 c [0xC0, 0x02] .empty (.empty 16) (by decide)
  have hitems := congrArg Prod.fst hlonger
  refine ⟨by decide, hfits, hshort, hkept, hitems, ?_⟩
  intro more
  have hrun : (Decoding.start .mos6502 longer).run = _ := hlonger
  obtain ⟨-, -, hends⟩ :=
    extension_keeps_decoded host .mos6502 longer more .empty (.empty 16) hfits
  have herror : .error ⟨.ptr16 0x0604⟩ ∈ ((Decoding.start .mos6502 longer).run).1 := by
    rw [hrun]
    simp
  have hinvalid : Architecture.mos6502.Invalid ((Decoding.start .mos6502 longer).run).2.cursor := by
    rw [hrun]
    exact hopcode
  obtain ⟨-, -, ⟨-, -, hsame, -⟩ | ⟨-, hvalid, -⟩⟩ := hends ⟨.ptr16 0x0604⟩ (.inl herror)
  · exact hsame
  · exact absurd hinvalid hvalid

end RegisterTransfer
