import Mathlib.Data.List.Nodup
import RegisterTransfer.Proofs.Identifiers
import RegisterTransfer.Proofs.Mos6502.DataInstructions

/-!
One identifier for each storage, over a whole session. Frames only grow, what is emitted has its
identifiers in the frame, and a temporary belongs to one cluster, which assigns it before it is
read.
-/

namespace RegisterTransfer

namespace Frame

inductive Built : Frame → Prop
  | empty (wordBits : Nat) : Built (.empty wordBits)
  | register {f : Frame} (h : Built f) (r : Register) : Built (f.ensureRegister r).2
  | flagGroup {f : Frame} (h : Built f) (r : Register) (mask : Nat) (name : String) :
      Built (f.ensureFlagGroup r mask name).2
  | temporary {f : Frame} (h : Built f) (t : DataType) : Built (f.createTemporary t).2

/-- Temporaries still to be created have numbers that are not in use. -/
structure Coherent (f : Frame) : Prop where
  distinct : (f.identifiers.map Identifier.storage).Nodup
  numbered : ∀ id ∈ f.identifiers, ∀ n, id.storage = .temporary n → n < f.nextTemporary

variable {f : Frame} {id other : Identifier}

theorem Coherent.eq_of_storage_eq (h : f.Coherent) (hid : id ∈ f.identifiers)
    (ho : other ∈ f.identifiers) (hs : id.storage = other.storage) : id = other :=
  List.inj_on_of_nodup_map h.distinct hid ho hs

theorem find?_eq_none_iff {s : Storage} :
    f.find? s = none ↔ ∀ id ∈ f.identifiers, id.storage ≠ s := by
  simp [find?]

theorem mem_ensure : (f.ensure id).1 ∈ (f.ensure id).2.identifiers := by
  unfold ensure
  cases h : f.find? id.storage with
  | some held => exact List.mem_of_find?_eq_some h
  | none => exact List.mem_append_right _ (List.mem_singleton_self id)

theorem Coherent.push (h : f.Coherent) (hs : ∀ other ∈ f.identifiers, other.storage ≠ id.storage)
    {next : Nat} (hf : f.nextTemporary ≤ next)
    (hn : ∀ n, id.storage = .temporary n → n < next) :
    Coherent { f.push id with nextTemporary := next } where
  distinct := by
    have hd : id.storage ∉ f.identifiers.map Identifier.storage := by
      simpa using hs
    simp only [Frame.push, List.map_append, List.map_cons, List.map_nil]
    exact List.Nodup.append h.distinct (List.nodup_singleton _) (by simpa using hd)
  numbered other ho n hno := by
    rcases List.mem_append.mp ho with ho | ho
    · have := h.numbered other ho n hno
      simp only
      omega
    · rw [List.mem_singleton.mp ho] at hno
      exact hn n hno

theorem Coherent.ensure (h : f.Coherent) (hn : ∀ n, id.storage ≠ .temporary n) :
    (f.ensure id).2.Coherent := by
  unfold Frame.ensure
  cases hs : f.find? id.storage with
  | some held => exact h
  | none => exact h.push (find?_eq_none_iff.mp hs) (Nat.le_refl _) fun n hid => absurd hid (hn n)

theorem Coherent.slot_fresh (h : f.Coherent) :
    ∀ other ∈ f.identifiers, other.storage ≠ f.slot.storage :=
  fun other ho hs => Nat.lt_irrefl _ (h.numbered other ho _ hs)

theorem Coherent.createTemporary (h : f.Coherent) (t : DataType) :
    (f.createTemporary t).2.Coherent := by
  apply h.push _ (Nat.le_succ _)
  · intro n hn
    cases hn
    exact Nat.lt_succ_self _
  · exact h.slot_fresh

theorem Built.coherent (h : f.Built) : f.Coherent := by
  induction h with
  | empty wordBits => exact ⟨List.nodup_nil, fun id hid => by cases hid⟩
  | register _ r ih => exact ih.ensure fun n => Storage.noConfusion
  | flagGroup _ r mask name ih => exact ih.ensure fun n => Storage.noConfusion
  | temporary _ t ih => exact ih.createTemporary t

section Uses

open Mos6502

theorem identifiers_use (f : Frame) (u : Use) : f.identifiers <+: (f.use u).identifiers := by
  cases u with
  | register r => exact f.identifiers_ensure (.ofRegister r)
  | flags flags => exact f.identifiers_ensure _
  | temporary => exact List.prefix_append _ _

theorem identifiers_useAll (f : Frame) (us : List Use) :
    f.identifiers <+: (f.useAll us).identifiers := by
  induction us generalizing f with
  | nil => exact List.prefix_refl _
  | cons u us ih => exact (f.identifiers_use u).trans (ih (f.use u))

theorem Coherent.useAll (h : f.Coherent) (us : List Use) : (f.useAll us).Coherent := by
  induction us generalizing f with
  | nil => exact h
  | cons u us ih =>
    apply ih
    cases u with
    | register r => exact h.ensure fun n => Storage.noConfusion
    | flags flags => exact h.ensure fun n => Storage.noConfusion
    | temporary => exact h.createTemporary .byte

theorem nextTemporary_use (f : Frame) (u : Use) :
    (f.use u).nextTemporary = f.nextTemporary + [u].count .temporary := by
  cases u with
  | register r => exact f.nextTemporary_ensure _
  | flags flags => exact f.nextTemporary_ensure _
  | temporary => rfl

theorem nextTemporary_useAll (f : Frame) (us : List Use) :
    (f.useAll us).nextTemporary = f.nextTemporary + us.count .temporary := by
  induction us generalizing f with
  | nil => rfl
  | cons u us ih =>
    have hu := ih (f.use u)
    rw [nextTemporary_use, Nat.add_assoc, ← List.count_append] at hu
    exact hu

theorem mem_use (f : Frame) (u : Use) : f.names.identifier u ∈ (f.use u).identifiers := by
  cases u with
  | register r => exact mem_ensure
  | flags flags => exact mem_ensure
  | temporary => exact List.mem_append_right _ (List.mem_singleton_self _)

theorem slot_congr {g : Frame} (h : f.nextTemporary = g.nextTemporary) : f.slot = g.slot := by
  unfold slot Frame.createTemporary
  rw [h]

theorem mem_useAll {us : List Use} {u : Use} (h : u ∈ us) :
    f.names.identifier u ∈ (f.useAll us).identifiers := by
  obtain ⟨before, after, rfl, hu⟩ := List.eq_append_cons_of_mem h
  -- The first use is the one that counts, as none before it takes up a temporary for another.
  have hname : (f.useAll before).names.identifier u = f.names.identifier u := by
    cases u with
    | register r => exact congrFun (f.nameOf_useAll before) r
    | flags flags => exact congrFun (f.flagsOf_useAll before) flags
    | temporary =>
      apply slot_congr
      rw [nextTemporary_useAll, List.count_eq_zero.mpr hu, Nat.add_zero]
  have hmem := (f.useAll before).mem_use u
  rw [hname] at hmem
  rw [← useAll_useAll]
  exact (identifiers_useAll ((f.useAll before).use u) after).subset hmem

end Uses

theorem identifiers_after (f : Frame) (items : List (Except DecodeError Instruction)) :
    f.identifiers <+: (f.after items).identifiers := by
  apply after_induction (P := fun g => f.identifiers <+: g.identifiers) _ (List.prefix_refl _)
  intro g i hg
  rw [Instruction.framed_eq]
  exact hg.trans (g.identifiers_useAll i.uses)

theorem Coherent.after (h : f.Coherent) (items : List (Except DecodeError Instruction)) :
    (f.after items).Coherent := by
  apply after_induction _ h
  intro g i hg
  rw [Instruction.framed_eq]
  exact hg.useAll i.uses

end Frame

namespace Mos6502

namespace Instruction

def modifiesMemory (i : Instruction) : Bool :=
  match i.mnemonic with
  | .asl | .lsr | .rol | .ror | .inc | .dec => i.mode.isMemory
  | _ => false

theorem count_usesValue (i : Instruction) {us : List Use} (h : us.count .temporary = 0) :
    (i.usesValue us).count .temporary = 0 := by
  unfold usesValue
  by_cases ho : i.mode.hasOperand
  · rw [if_pos ho, List.count_append, h, List.count_eq_zero.mpr (by simp)]
  · rw [if_neg ho, List.count_nil]

theorem count_usesPlace (i : Instruction) (us : List Use) :
    (i.usesPlace us).count .temporary = if i.mode.isMemory then us.count .temporary else 0 := by
  unfold usesPlace
  by_cases hm : i.mode.isMemory
  · rw [if_pos hm, if_pos hm, List.count_append, List.count_eq_zero.mpr (by simp), Nat.zero_add]
  · rw [if_neg hm, if_neg hm, List.count_nil]

theorem count_usesModified (i : Instruction) (flags : List Flag) {us : List Use}
    (h : us.count .temporary = 0) :
    (i.usesModified flags us).count .temporary = if i.mode.isMemory then 1 else 0 := by
  unfold usesModified
  by_cases ha : i.mode = .accumulator
  · rw [if_pos ha, ha]
    simp [h, Mode.isMemory]
  · rw [if_neg ha, count_usesPlace]
    simp [h]

theorem count_uses (i : Instruction) :
    i.uses.count .temporary = if i.modifiesMemory then 1 else 0 := by
  obtain ⟨a, mnemonic, mode, value⟩ := i
  cases mnemonic with
  | asl | lsr | inc | dec => exact count_usesModified _ _ rfl
  | rol | ror => exact count_usesModified _ _ rfl
  | lda | ldx | ldy | and | ora | eor | adc | sbc | cmp | cpx | cpy | bit =>
    exact count_usesValue _ rfl
  | sta | stx | sty => exact (count_usesPlace _ _).trans (ite_self 0)
  | _ => rfl

end Instruction

theorem modified_of_isMemory {name : Register → Identifier} {group : List Flag → Identifier}
    {slot : Identifier} {flags : List Flag} {change : Expression → Expression} {i : Instruction}
    (hm : i.mode.isMemory) : ∃ place rest, place? name i = some place ∧
      modified name group i slot flags change =
        .assignment (.identifier slot) (.memory place .byte) :: rest := by
  have ha : i.mode ≠ .accumulator := by
    intro ha
    rw [ha] at hm
    cases hm
  obtain ⟨place, hp, -⟩ | ⟨-, hn, -⟩ := place?_cases name i
  · rw [modified, if_neg ha, hp]
    exact ⟨place, _, rfl, rfl⟩
  · rw [hm] at hn
    cases hn

theorem emitted_of_modifiesMemory (n : Names) (host : Host) {i : Instruction}
    (h : i.modifiesMemory) : ∃ place rest, place? n.register i = some place ∧
      emitted n host i = .assignment (.identifier n.slot) (.memory place .byte) :: rest := by
  obtain ⟨a, mnemonic, mode, value⟩ := i
  cases mnemonic with
  | asl | lsr | rol | ror | inc | dec => exact modified_of_isMemory h
  | _ => cases h

end Mos6502

def AssignedBeforeRead (id : Identifier) (ts : List Transfer) : Prop :=
  ∀ (m : Nat) (t : Transfer), ts[m]? = some t → id ∈ t.reads →
    ∃ l < m, ∃ source, ts[l]? = some (.assignment (.identifier id) source)

namespace Instruction
variable {host : Host} {f : Frame} {i : Instruction} {id : Identifier}

theorem mem_framed (h : id ∈ (i.emitted host f).flatMap Transfer.identifiers) :
    id ∈ (i.framed f).identifiers := by
  obtain ⟨u, hu, rfl⟩ := List.mem_map.mp (mem_emitted h)
  rw [framed_eq]
  exact Frame.mem_useAll hu

theorem eq_slot_of_temporary (h : id ∈ (i.emitted host f).flatMap Transfer.identifiers)
    {number : Nat} (hid : id.storage = .temporary number) :
    id = f.slot ∧ ∃ j, i = .mos6502 j ∧ j.modifiesMemory := by
  obtain ⟨u, hu, rfl⟩ := List.mem_map.mp (mem_emitted h)
  have hn := Mos6502.faithful_names f
  cases u with
  | register r => cases (hn.register r).symm.trans hid
  | flags flags => cases (hn.flags flags).symm.trans hid
  | temporary =>
    refine ⟨rfl, ?_⟩
    cases i with
    | mips i => simp [uses] at hu
    | mos6502 j =>
      refine ⟨j, rfl, ?_⟩
      have hpos : 0 < j.uses.count .temporary := List.count_pos_iff.mpr hu
      rw [j.count_uses] at hpos
      by_contra hj
      rw [if_neg hj] at hpos
      exact Nat.lt_irrefl 0 hpos

theorem assignedBeforeRead_emitted (h : id ∈ (i.emitted host f).flatMap Transfer.identifiers)
    {number : Nat} (hid : id.storage = .temporary number) :
    AssignedBeforeRead id (i.emitted host f) := by
  obtain ⟨rfl, j, rfl, hj⟩ := eq_slot_of_temporary h hid
  obtain ⟨place, rest, hp, he⟩ := Mos6502.emitted_of_modifiesMemory f.names host hj
  intro m t hm ht
  simp only [emitted] at hm ⊢
  rw [he] at hm ⊢
  cases m with
  | zero =>
    -- The place in memory is made of registers at most.
    cases hm
    obtain ⟨-, r, -, hr⟩ := Mos6502.mem_place hp ht
    have hs := (Mos6502.faithful_names f).register r
    rw [hr] at hs
    cases hs.symm.trans hid
  | succ m => exact ⟨0, Nat.succ_pos m, _, rfl⟩

end Instruction

namespace Session
variable {host : Host} {s : Session}

theorem frame_take {m n : Nat} (h : m ≤ n) : (s.take host m).2.workspace.frame =
    s.workspace.frame.after ((s.decoding.take n).1.take m) := by
  rw [take_eq_clusters, Workspace.after_frame, Decoding.take_eq, Decoding.take_eq,
    Source.take_of_le h]

theorem identifiers_take {m n : Nat} (h : m ≤ n) :
    (s.take host m).2.workspace.frame.identifiers <+:
      (s.take host n).2.workspace.frame.identifiers := by
  have hn : (s.take host n).2.workspace.frame =
      (s.take host m).2.workspace.frame.after ((s.decoding.take n).1.drop m) := by
    rw [frame_take h, ← Frame.after_append, List.take_append_drop, take_eq_clusters,
      Workspace.after_frame]
  rw [hn]
  exact Frame.identifiers_after _ _

theorem coherent_take (h : s.workspace.frame.Coherent) (n : Nat) :
    (s.take host n).2.workspace.frame.Coherent := by
  rw [frame_take (Nat.le_refl n)]
  exact h.after _

theorem ok_of_take {n m : Nat} {x : Cluster} (h : (s.take host n).1[m]? = some (.ok x)) :
    m < n ∧ ∃ i : Instruction,
      x = ⟨i.address, i.length, i.emitted host (s.take host m).2.workspace.frame⟩ ∧
        (s.take host (m + 1)).2.workspace.frame =
          i.framed (s.take host m).2.workspace.frame := by
  rw [take_eq_clusters, clusters_eq_ok_iff] at h
  obtain ⟨i, hi, rfl⟩ := h
  obtain ⟨hm, -⟩ := List.getElem?_eq_some_iff.mp hi
  have hmn : m < n := Nat.lt_of_lt_of_le hm (s.decoding.length_take_le n)
  refine ⟨hmn, i, ?_, ?_⟩
  · rw [frame_take (Nat.le_of_lt hmn)]
  · rw [frame_take hmn, frame_take (Nat.le_of_lt hmn), Frame.after_take_succ _ hi]

theorem mem_frame_take {n m : Nat} {x : Cluster} (h : (s.take host n).1[m]? = some (.ok x))
    {id : Identifier} (hid : id ∈ x.identifiers) :
    id ∈ (s.take host (m + 1)).2.workspace.frame.identifiers := by
  obtain ⟨-, i, rfl, hi⟩ := ok_of_take h
  rw [hi]
  exact Instruction.mem_framed hid

theorem take_coherent (host : Host) (a : Architecture) (c : Cursor) (k : Knowledge) {f : Frame}
    (hf : f.Built) (n : Nat) :
    let s := Session.start a c k f
    let lifted := (s.take host n).1
    let frame := fun m => (s.take host m).2.workspace.frame
    (∀ m ≤ n, (frame m).identifiers <+: (frame n).identifiers) ∧
      (∀ x, .ok x ∈ lifted → ∀ id ∈ x.identifiers, id ∈ (frame n).identifiers) ∧
      (∀ id ∈ (frame n).identifiers, ∀ other ∈ (frame n).identifiers,
        id.storage = other.storage → id = other) ∧
      ∀ (m : Nat) (x : Cluster), lifted[m]? = some (.ok x) → ∀ id ∈ x.identifiers, ∀ number,
        id.storage = .temporary number →
          (∀ l ≤ m, ∀ other ∈ (frame l).identifiers, other.storage ≠ id.storage) ∧
            id ∈ (frame (m + 1)).identifiers ∧
            (∀ l < m, ∀ y, lifted[l]? = some (.ok y) →
              ∀ other ∈ y.identifiers, other.storage ≠ id.storage) ∧
            AssignedBeforeRead id x.transfers := by
  intro s lifted frame
  have hcoherent : ∀ m, (frame m).Coherent := coherent_take (s := s) hf.coherent
  refine ⟨fun m => identifiers_take, ?_, ?_, ?_⟩
  · intro x hx id hid
    obtain ⟨m, hm⟩ := List.mem_iff_getElem?.mp hx
    obtain ⟨hmn, -⟩ := ok_of_take hm
    exact (identifiers_take hmn).subset (mem_frame_take hm hid)
  · intro id hid other ho
    exact (hcoherent n).eq_of_storage_eq hid ho
  · intro m x hx id hid number hs
    have hnew := mem_frame_take hx hid
    obtain ⟨-, i, rfl, -⟩ := ok_of_take hx
    obtain ⟨hslot, -⟩ := Instruction.eq_slot_of_temporary hid hs
    -- The temporary is the slot of the frame before its instruction, whose number is not in use.
    have hfresh : ∀ l ≤ m, ∀ other ∈ (frame l).identifiers, other.storage ≠ id.storage := by
      intro l hl other ho
      rw [hslot]
      exact (hcoherent m).slot_fresh other ((identifiers_take hl).subset ho)
    refine ⟨hfresh, hnew, ?_, Instruction.assignedBeforeRead_emitted hid hs⟩
    intro l hl y hy other ho
    exact hfresh (l + 1) hl other (mem_frame_take hy ho)

theorem take_coherent_modifying_twice :
    let c : Cursor := ⟨⟨.ptr16 0x0800, [0xE6, 0x10, 0x06, 0x20]⟩, 0, .little⟩
    let host : Host := ⟨fun _ _ => none, fun _ => none⟩
    let f := ((Frame.empty 16).createTemporary .word16).2
    let s := Session.start .mos6502 c .empty f
    let v : Identifier := ⟨"v2", .byte, .temporary 2⟩
    f.Built ∧ ∃ x y, (s.take host 2).1[0]? = some (.ok x) ∧
      (s.take host 2).1[1]? = some (.ok y) ∧ v ∈ y.identifiers ∧
      (∀ other ∈ f.identifiers, other.storage ≠ v.storage) ∧
      (∀ other ∈ x.identifiers, other.storage ≠ v.storage) ∧
      AssignedBeforeRead v y.transfers := by
  have hitems : ((Decoding.start .mos6502
      ⟨⟨.ptr16 0x0800, [0xE6, 0x10, 0x06, 0x20]⟩, 0, .little⟩).take 2).1 =
      [.ok (.mos6502 ⟨.ptr16 0x0800, .inc, .zeroPage, 0x10⟩),
        .ok (.mos6502 ⟨.ptr16 0x0802, .asl, .zeroPage, 0x20⟩)] := rfl
  intro c host f s v
  let i : Instruction := .mos6502 ⟨.ptr16 0x0800, .inc, .zeroPage, 0x10⟩
  let j : Instruction := .mos6502 ⟨.ptr16 0x0802, .asl, .zeroPage, 0x20⟩
  have hx : (s.take host 2).1[0]? = some (.ok ⟨i.address, i.length, i.emitted host f⟩) := by
    rw [take_eq_clusters]
    exact (clusters_eq_ok_iff host f).mpr ⟨i, congrArg (·[0]?) hitems, rfl⟩
  have hy : (s.take host 2).1[1]? =
      some (.ok ⟨j.address, j.length, j.emitted host (i.framed f)⟩) := by
    rw [take_eq_clusters]
    refine (clusters_eq_ok_iff host f).mpr ⟨j, congrArg (·[1]?) hitems, ?_⟩
    rw [show (s.decoding.take 2).1 = _ from hitems]
    rfl
  have hf : f.Built := .temporary (.empty 16) .word16
  have hv : v ∈ (j.emitted host (i.framed f)).flatMap Transfer.identifiers := by decide
  obtain ⟨-, -, -, h⟩ := take_coherent host .mos6502 c .empty hf 2
  obtain ⟨hfresh, -, hearlier, hassigned⟩ := h 1 _ hy v hv 2 rfl
  exact ⟨hf, _, _, hx, hy, hv, hfresh 0 (Nat.zero_le 1), hearlier 0 Nat.one_pos _ hx, hassigned⟩

end Session

end RegisterTransfer
