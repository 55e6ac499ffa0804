import RegisterTransfer.Proofs.Coherence
import RegisterTransfer.Proofs.Positions
import RegisterTransfer.Proofs.Renaming

/-!
Sessions opened anew at an instruction boundary. They deliver what is left of the first session, but
for the numbers of temporaries, which start from zero again.
-/

namespace RegisterTransfer

theorem Cursor.cursorAt_address {c : Cursor} (hfits : c.image.base.value + c.image.size ≤
      Address.space c.image.base.bits) (hc : c.isAtEnd = false) :
    c.image.cursorAt c.address c.byteOrder = .ok c := by
  have hoffset : c.offset < c.image.size := by
    have hr := isAtEnd_eq_false_iff.mp hc
    unfold remaining at hr
    omega
  apply reopen_eq_ok
  · omega
  · omega

namespace Architecture
variable {a : Architecture} {c : Cursor} {i : Instruction}

theorem mips_of_decode? (ha : a.kind = .mips32) (h : a.decode? c = some i) : ∃ j, i = .mips j := by
  cases a with
  | mips order =>
    obtain ⟨w, op, -, -, rfl⟩ := decode?_mips.mp h
    exact ⟨_, rfl⟩
  | mos6502 => cases ha

theorem mos6502_of_decode? (ha : a.kind = .mos6502) (h : a.decode? c = some i) :
    ∃ j, i = .mos6502 j := by
  cases a with
  | mips order => cases ha
  | mos6502 =>
    obtain ⟨j, -, rfl⟩ := decode?_mos6502.mp h
    exact ⟨j, rfl⟩

end Architecture

theorem Decoding.take_succ_of_ok {n : Nat} {s : Decoding} {i : Instruction}
    (h : (s.take (n + 1)).1[n]? = some (.ok i)) : s.failed = false ∧ ∃ offset,
      s.architecture.decode? { s.cursor with offset } = some i ∧ (s.take (n + 1)).2 =
        { s with cursor := Cursor.advance { s.cursor with offset } i.length } := by
  induction n generalizing s with
  | zero =>
    rw [take] at h ⊢
    obtain ⟨-, hnext⟩ | ⟨hgoes, ⟨j, hj, hnext⟩ | ⟨-, hnext⟩⟩ := s.next_cases
    · rw [hnext] at h
      cases h
    · rw [hnext] at h ⊢
      cases h
      exact ⟨(Bool.or_eq_false_iff.mp hgoes).1, s.cursor.offset, hj, rfl⟩
    · rw [hnext] at h
      cases h
  | succ n ih =>
    rw [take] at h ⊢
    obtain ⟨-, hnext⟩ | ⟨hgoes, ⟨j, hj, hnext⟩ | ⟨-, hnext⟩⟩ := s.next_cases
    · rw [hnext] at h
      cases h
    · rw [hnext] at h ⊢
      exact ih (s := { s with cursor := s.cursor.advance j.length }) h
    · rw [hnext] at h
      -- The session that has failed delivers nothing more.
      cases (ih (s := { s with failed := true }) h).1

namespace Session

theorem run_drop (host : Host) (s : Session) (m : Nat) :
    (s.run host).1.drop m = ((s.take host m).2.run host).1 := by
  apply List.ext_getElem?
  intro l
  rw [List.getElem?_drop, getElem?_run, getElem?_run, Source.nth_add, take_eq]

end Session

theorem clusters_map (host : Host) {φ : Cluster → Cluster} {R : Frame → Frame → Prop}
    {items : List (Except DecodeError Instruction)}
    (hstep : ∀ i, .ok i ∈ items → ∀ f g, R f g →
      (⟨i.address, i.length, i.emitted host g⟩ : Cluster) =
          φ ⟨i.address, i.length, i.emitted host f⟩ ∧ R (i.framed f) (i.framed g))
    {f g : Frame} (h : R f g) :
    clusters host g items = (clusters host f items).map (Except.map φ) := by
  induction items generalizing f g with
  | nil => rfl
  | cons item items ih =>
    have htail : ∀ f g, R f g →
        clusters host g items = (clusters host f items).map (Except.map φ) :=
      fun f g => ih fun j hj => hstep j (List.mem_cons_of_mem item hj)
    cases item with
    | ok i =>
      obtain ⟨hx, hR⟩ := hstep i List.mem_cons_self f g h
      rw [clusters, clusters, List.map_cons, htail _ _ hR, hx]
      rfl
    | error e =>
      rw [clusters, clusters, List.map_cons, htail _ _ h]
      rfl

def Instruction.modifiesMemory : Instruction → Bool
  | .mips _ => false
  | .mos6502 i => i.modifiesMemory

def modifications (items : List (Except DecodeError Instruction)) : Nat :=
  items.countP fun item => item.toOption.any Instruction.modifiesMemory

namespace Frame

open Mos6502

variable {f g : Frame}

theorem nextTemporary_framed (f : Frame) (i : Instruction) :
    (i.framed f).nextTemporary = f.nextTemporary + if i.modifiesMemory then 1 else 0 := by
  rw [i.framed_eq, nextTemporary_useAll]
  cases i with
  | mips i =>
    have hcount : (Instruction.mips i).uses.count .temporary = 0 :=
      List.count_eq_zero.mpr (by simp [Instruction.uses])
    rw [hcount]
    rfl
  | mos6502 i => exact congrArg (f.nextTemporary + ·) i.count_uses

theorem nextTemporary_after (f : Frame) (items : List (Except DecodeError Instruction)) :
    (f.after items).nextTemporary = f.nextTemporary + modifications items := by
  induction items generalizing f with
  | nil => rfl
  | cons item items ih =>
    cases item with
    | ok i =>
      have hcount : modifications (.ok i :: items) =
          modifications items + if i.modifiesMemory then 1 else 0 :=
        List.countP_cons
      rw [after, ih, nextTemporary_framed, hcount]
      omega
    | error e => exact ih f

theorem nameOf_framed (f : Frame) (i : Instruction) : (i.framed f).nameOf = f.nameOf := by
  rw [i.framed_eq, nameOf_useAll]

theorem flagsOf_framed (f : Frame) (i : Instruction) : (i.framed f).flagsOf = f.flagsOf := by
  rw [i.framed_eq, flagsOf_useAll]

theorem nameOf_after (f : Frame) (items : List (Except DecodeError Instruction)) :
    (f.after items).nameOf = f.nameOf := by
  apply after_induction (P := fun g => g.nameOf = f.nameOf) _ rfl
  intro g i hg
  rw [nameOf_framed, hg]

theorem flagsOf_after (f : Frame) (items : List (Except DecodeError Instruction)) :
    (f.after items).flagsOf = f.flagsOf := by
  apply after_induction (P := fun g => g.flagsOf = f.flagsOf) _ rfl
  intro g i hg
  rw [flagsOf_framed, hg]

structure Renumbered (ρ : Nat → Nat) (f g : Frame) : Prop where
  register : g.nameOf = f.nameOf
  flags : g.flagsOf = f.flagsOf
  temporary : ∀ m, ρ (f.nextTemporary + m) = g.nextTemporary + m

theorem Renumbered.framed {ρ : Nat → Nat} (h : f.Renumbered ρ g) (i : Instruction) :
    (i.framed f).Renumbered ρ (i.framed g) where
  register := by rw [nameOf_framed, nameOf_framed, h.register]
  flags := by rw [flagsOf_framed, flagsOf_framed, h.flags]
  temporary m := by
    rw [nextTemporary_framed, nextTemporary_framed, Nat.add_assoc, Nat.add_assoc, h.temporary]

theorem after_renumbered (f : Frame) (items : List (Except DecodeError Instruction)) :
    (f.after items).Renumbered (· - modifications items) f where
  register := (f.nameOf_after items).symm
  flags := (f.flagsOf_after items).symm
  temporary m := by
    rw [nextTemporary_after]
    omega

theorem renumbered_after (f : Frame) (items : List (Except DecodeError Instruction)) :
    f.Renumbered (· + modifications items) (f.after items) where
  register := f.nameOf_after items
  flags := f.flagsOf_after items
  temporary m := by
    rw [nextTemporary_after]
    omega

theorem Renumbered.names {ρ : Nat → Nat} (h : f.Renumbered ρ g) :
    g.names = f.names.map (Identifier.renumber ρ) := by
  have hn := faithful_names f
  have hregister : ∀ r, g.nameOf r = (f.nameOf r).renumber ρ := by
    intro r
    rw [h.register, Identifier.renumber_of_storage]
    intro n hs
    cases (hn.register r).symm.trans hs
  have hflags : ∀ flags, g.flagsOf flags = (f.flagsOf flags).renumber ρ := by
    intro flags
    rw [h.flags, Identifier.renumber_of_storage]
    intro n hs
    cases (hn.flags flags).symm.trans hs
  have hslot : g.slot = f.slot.renumber ρ := by
    -- The slot is the one name that differs, by its number alone.
    have hρ : ρ f.nextTemporary = g.nextTemporary := h.temporary 0
    unfold slot createTemporary Identifier.renumber
    simp only [hρ]
  unfold Frame.names Names.map
  rw [funext hregister, funext hflags, hslot]

end Frame

theorem clusters_mips {host : Host} {items : List (Except DecodeError Instruction)}
    (hitems : ∀ i, .ok i ∈ items → ∃ j, i = .mips j) {f g : Frame} (h : g.nameOf = f.nameOf) :
    clusters host g items = clusters host f items := by
  have hmap : clusters host g items = (clusters host f items).map (Except.map id) := by
    apply clusters_map host (R := fun f g => g.nameOf = f.nameOf) _ h
    intro i hi f g hfg
    obtain ⟨j, rfl⟩ := hitems i hi
    have hR : ((Instruction.mips j).framed g).nameOf = ((Instruction.mips j).framed f).nameOf := by
      rw [Frame.nameOf_framed, Frame.nameOf_framed, hfg]
    refine ⟨?_, hR⟩
    simp only [Instruction.emitted, hfg, id]
  have hid : (Except.map id : Except DecodeError Cluster → _) = id := by
    funext item
    cases item <;> rfl
  rw [hmap, hid, List.map_id]

theorem clusters_mos6502 {host : Host} {items : List (Except DecodeError Instruction)}
    (hitems : ∀ i, .ok i ∈ items → ∃ j, i = .mos6502 j) {ρ : Nat → Nat} {f g : Frame}
    (h : f.Renumbered ρ g) :
    clusters host g items = (clusters host f items).map (Except.map (Cluster.renumber ρ)) := by
  apply clusters_map host _ h
  intro i hi f g hfg
  obtain ⟨j, rfl⟩ := hitems i hi
  refine ⟨?_, hfg.framed (.mos6502 j)⟩
  simp only [Instruction.emitted, hfg.names, Mos6502.emitted_map]
  rfl

namespace Session

theorem drop_of_ok {host : Host} {a : Architecture} {c : Cursor} {k : Knowledge} {f : Frame}
    {n : Nat} {x : Cluster} (h : ((start a c k f).run host).1[n]? = some (.ok x)) :
    let d := ((start a c k f).take host (n + 1)).2.cursor
    d.image = c.image ∧ d.byteOrder = c.byteOrder ∧ d.address = x.nextAddress ∧
      ((start a c k f).run host).1.drop (n + 1) =
        clusters host (f.after ((Decoding.start a c).take (n + 1)).1)
          ((Decoding.start a d).run).1 := by
  intro d
  rw [run, take_eq_clusters, clusters_eq_ok_iff] at h
  obtain ⟨i, hi, rfl⟩ := h
  -- The item is among those of the prefix as well, and there it is the last one.
  have hlen : n < c.remaining := by
    obtain ⟨hn, -⟩ := List.getElem?_eq_some_iff.mp hi
    exact Nat.lt_of_lt_of_le hn (Decoding.length_take_le _ _)
  have hitem : ((Decoding.start a c).take (n + 1)).1[n]? = some (.ok i) := by
    rw [Decoding.take_eq, Source.take_of_le hlen, ← Decoding.take_eq, List.getElem?_take,
      if_pos (Nat.lt_succ_self n)]
    exact hi
  obtain ⟨-, offset, hd, hend⟩ := Decoding.take_succ_of_ok hitem
  have hs := take_eq_clusters host (n + 1) (start a c k f)
  have hdecoding : (start a c k f).decoding = Decoding.start a c := rfl
  rw [hdecoding, hend] at hs
  have hcursor : d = Cursor.advance { c with offset } i.length := congrArg (·.2.cursor) hs
  refine ⟨?_, ?_, ?_, ?_⟩
  · rw [hcursor]
    rfl
  · rw [hcursor]
    rfl
  · have haddress : i.address = Cursor.address { c with offset } :=
      Architecture.address_of_decode? hd
    rw [hcursor, Cursor.address_advance, ← haddress]
    rfl
  · rw [run_drop, run, take_eq_clusters, hs, hcursor, Workspace.after_frame]
    rfl

theorem resumes_at_boundary (host : Host) (a : Architecture) {image : Image} {start : Address}
    {order : ByteOrder} {c : Cursor} (k : Knowledge) {n : Nat} {x : Cluster}
    (hfits : image.base.value + image.size ≤ Address.space image.base.bits)
    (hc : image.cursorAt start order = .ok c)
    (hx : ((Session.start a c k a.emptyFrame).run host).1[n]? = some (.ok x))
    (hr : ((Session.start a c k a.emptyFrame).take host (n + 1)).2.cursor.isAtEnd = false) :
    ∃ d, image.cursorAt x.nextAddress order = .ok d ∧
      let rest := ((Session.start a c k a.emptyFrame).run host).1.drop (n + 1)
      let resumed := ((fresh a d).run host).1
      let t := modifications ((Decoding.start a c).take (n + 1)).1
      (a.kind = .mips32 → resumed = rest) ∧
        (a.kind = .mos6502 → resumed = rest.map (Except.map (Cluster.renumber (· - t))) ∧
          rest = resumed.map (Except.map (Cluster.renumber (· + t)))) := by
  obtain ⟨himage, horder⟩ := Image.cursorAt_eq_ok hc
  obtain ⟨hdi, hdo, hda, hrest⟩ := drop_of_ok hx
  generalize ((Session.start a c k a.emptyFrame).take host (n + 1)).2.cursor = d at *
  refine ⟨d, ?_, ?_⟩
  · subst himage horder
    rw [← hda, ← hdi, ← hdo]
    apply Cursor.cursorAt_address _ hr
    rw [hdi]
    exact hfits
  · intro rest resumed t
    have hresumed : resumed = clusters host a.emptyFrame ((Decoding.start a d).run).1 :=
      clusters_take host a d .empty a.emptyFrame d.remaining
    rw [hresumed, show rest = _ from hrest]
    refine ⟨?_, ?_⟩
    · intro hkind
      have hmips : ∀ i, .ok i ∈ ((Decoding.start a d).run).1 → ∃ j, i = .mips j := by
        intro i hi
        obtain ⟨e, he⟩ := Decoding.decode?_of_take hi
        exact Architecture.mips_of_decode? hkind he
      exact clusters_mips hmips (Frame.nameOf_after _ _).symm
    · intro hkind
      have hmos : ∀ i, .ok i ∈ ((Decoding.start a d).run).1 → ∃ j, i = .mos6502 j := by
        intro i hi
        obtain ⟨e, he⟩ := Decoding.decode?_of_take hi
        exact Architecture.mos6502_of_decode? hkind he
      exact ⟨clusters_mos6502 hmos (Frame.after_renumbered _ _),
        clusters_mos6502 hmos (Frame.renumbered_after _ _)⟩

theorem resumes_between_modifications :
    let c : Cursor := ⟨⟨.ptr16 0x0800, [0xA9, 0x05, 0xE6, 0x10, 0x06, 0x20]⟩, 0, .little⟩
    let host : Host := ⟨fun _ _ => none, fun _ => none⟩
    let lifted := ((fresh .mos6502 c).run host).1
    c.image.base.value + c.image.size ≤ Address.space c.image.base.bits ∧
      c.image.cursorAt (.ptr16 0x0800) .little = .ok c ∧
      ((fresh .mos6502 c).take host 2).2.cursor.isAtEnd = false ∧
      ∃ x y d, lifted[1]? = some (.ok x) ∧ lifted[2]? = some (.ok y) ∧
        ⟨"v1", .byte, .temporary 1⟩ ∈ y.identifiers ∧
        c.image.cursorAt x.nextAddress .little = .ok d ∧
        ((fresh .mos6502 d).run host).1 =
          (lifted.drop 2).map (Except.map (Cluster.renumber (· - 1))) := by
  have hitems : ((Decoding.start .mos6502
      ⟨⟨.ptr16 0x0800, [0xA9, 0x05, 0xE6, 0x10, 0x06, 0x20]⟩, 0, .little⟩).run).1 =
      [.ok (.mos6502 ⟨.ptr16 0x0800, .lda, .immediate, 0x05⟩),
        .ok (.mos6502 ⟨.ptr16 0x0802, .inc, .zeroPage, 0x10⟩),
        .ok (.mos6502 ⟨.ptr16 0x0804, .asl, .zeroPage, 0x20⟩)] := rfl
  have hboundary : (Decoding.start .mos6502
      ⟨⟨.ptr16 0x0800, [0xA9, 0x05, 0xE6, 0x10, 0x06, 0x20]⟩, 0, .little⟩).take 2 =
      ([.ok (.mos6502 ⟨.ptr16 0x0800, .lda, .immediate, 0x05⟩),
        .ok (.mos6502 ⟨.ptr16 0x0802, .inc, .zeroPage, 0x10⟩)],
      ⟨.mos6502, ⟨⟨.ptr16 0x0800, [0xA9, 0x05, 0xE6, 0x10, 0x06, 0x20]⟩, 4, .little⟩, false⟩) := rfl
  intro c host lifted
  let f := Architecture.mos6502.emptyFrame
  let h : Instruction := .mos6502 ⟨.ptr16 0x0800, .lda, .immediate, 0x05⟩
  let i : Instruction := .mos6502 ⟨.ptr16 0x0802, .inc, .zeroPage, 0x10⟩
  let j : Instruction := .mos6502 ⟨.ptr16 0x0804, .asl, .zeroPage, 0x20⟩
  have hlifted : lifted = clusters host f [.ok h, .ok i, .ok j] := by
    have hrun : lifted = clusters host f ((Decoding.start .mos6502 c).run).1 := by
      simp only [lifted, run, take_eq_clusters]
      rfl
    exact hrun.trans (congrArg (clusters host f) hitems)
  have hx : lifted[1]? = some (.ok ⟨i.address, i.length, i.emitted host (h.framed f)⟩) := by
    rw [hlifted]
    rfl
  have hy : lifted[2]? =
      some (.ok ⟨j.address, j.length, j.emitted host (i.framed (h.framed f))⟩) := by
    rw [hlifted]
    rfl
  have hv : ⟨"v1", .byte, .temporary 1⟩ ∈
      (j.emitted host (i.framed (h.framed f))).flatMap Transfer.identifiers := by decide
  have hfits : c.image.base.value + c.image.size ≤ Address.space c.image.base.bits := by
    change 0x0800 + 6 ≤ 0x10000
    omega
  have hc : c.image.cursorAt (.ptr16 0x0800) .little = .ok c := by simp [Image.cursorAt, c]
  have hr : ((fresh .mos6502 c).take host 2).2.cursor.isAtEnd = false := by
    rw [take_eq_clusters, show (fresh .mos6502 c).decoding.take 2 = _ from hboundary]
    rfl
  have ht : modifications ((Decoding.start .mos6502 c).take 2).1 = 1 := by
    rw [show (Decoding.start .mos6502 c).take 2 = _ from hboundary]
    rfl
  obtain ⟨d, hd, hresumed⟩ := resumes_at_boundary host .mos6502 .empty hfits hc hx hr
  have hmap := (hresumed.2 rfl).1
  rw [ht] at hmap
  exact ⟨hfits, hc, hr, _, _, d, hx, hy, hv, hd, hmap⟩

end Session

end RegisterTransfer
