import RegisterTransfer.Session
import RegisterTransfer.Proofs.Decoding
import RegisterTransfer.Proofs.Mips.Emission

namespace RegisterTransfer

namespace Cursor

theorem address_advance (c : Cursor) (n : Nat) : (c.advance n).address = c.address.addOffset n := by
  unfold address
  rw [Address.addOffset_addOffset]
  exact congrArg c.image.base.addOffset (Int.natCast_add c.offset n)

theorem peekNumber_advance (c : Cursor) (n delta length : Nat) :
    (c.advance n).peekNumber delta length = c.peekNumber (n + delta) length := by
  unfold peekNumber peekBytes advance
  simp only [Nat.add_assoc]

theorem peek32_advance (c : Cursor) (n delta : Nat) :
    (c.advance n).peek32 delta = c.peek32 (n + delta) := by
  unfold peek32
  rw [peekNumber_advance]

theorem size_of_peek32 {c : Cursor} {delta : Nat} {w : BitVec 32} (h : c.peek32 delta = .ok w)
    (hs : c.image.size ≤ maxOffset) : c.offset + delta + 4 ≤ c.image.size := by
  have hr := (peek32_isOk_iff hs delta).mp ⟨w, h⟩
  unfold remaining at hr
  omega

end Cursor

namespace Session

def transfers (items : List (Except DecodeError Cluster)) : List Transfer :=
  items.flatMap fun item =>
    match item with
    | .ok c => c.transfers
    | .error _ => []

def cluster (host : Host) (s : Session) (i : Instruction) : Cluster :=
  ⟨i.address, i.length, (i.lift host s.workspace).1⟩

def past (host : Host) (s : Session) (i : Instruction) : Session :=
  { s with
    cursor := s.cursor.advance i.length
    workspace := (i.lift host s.workspace).2 }

theorem next_eq (host : Host) (s : Session) : s.next host =
    if s.failed || s.cursor.isAtEnd then none
    else
      match s.architecture.decode? s.cursor with
      | some i => some (.ok (s.cluster host i), s.past host i)
      | none => some (.error ⟨s.cursor.address⟩, { s with failed := true }) := by
  unfold next Architecture.step
  cases s.architecture.decode? s.cursor with
  | some i => rfl
  | none => rfl

theorem next_eq_ok_iff {host : Host} {s t : Session} {c : Cluster} :
    s.next host = some (.ok c, t) ↔
      (s.failed || s.cursor.isAtEnd) = false ∧
        ∃ i, s.architecture.decode? s.cursor = some i ∧ c = s.cluster host i ∧
          t = s.past host i := by
  rw [next_eq]
  cases s.failed || s.cursor.isAtEnd with
  | true => simp
  | false =>
    cases hi : s.architecture.decode? s.cursor with
    | some i => simp [eq_comm]
    | none => simp

theorem next_eq_error_iff {host : Host} {s t : Session} {e : DecodeError} :
    s.next host = some (.error e, t) ↔
      (s.failed || s.cursor.isAtEnd) = false ∧ s.architecture.decode? s.cursor = none ∧
        e = ⟨s.cursor.address⟩ ∧ t = { s with failed := true } := by
  rw [next_eq]
  cases s.failed || s.cursor.isAtEnd with
  | true => simp
  | false =>
    cases hi : s.architecture.decode? s.cursor with
    | some i => simp
    | none => simp [eq_comm]

theorem architecture_take (host : Host) (n : Nat) (s : Session) :
    (s.take host n).2.architecture = s.architecture := by
  induction n generalizing s with
  | zero => rfl
  | succ n ih =>
    rw [take]
    cases hnext : s.next host with
    | none => rfl
    | some pulled =>
      obtain ⟨item, t⟩ := pulled
      refine (ih t).trans ?_
      cases item with
      | ok c =>
        obtain ⟨_, _, _, _, rfl⟩ := next_eq_ok_iff.mp hnext
        rfl
      | error e =>
        obtain ⟨_, _, _, rfl⟩ := next_eq_error_iff.mp hnext
        rfl

theorem cluster_mips (host : Host) (s : Session) (i : Mips.Instruction) :
    s.cluster host (.mips i) = ⟨i.address, 4, Mips.emitted s.workspace.frame.nameOf host i⟩ := by
  have h : ((Instruction.mips i).lift host s.workspace).1 =
      Mips.emitted s.workspace.frame.nameOf host i :=
    congrArg Prod.fst (Mips.lift_eq s.workspace host i)
  rw [cluster, h]
  rfl

theorem workspace_past (host : Host) (s : Session) (i : Mips.Instruction) :
    (s.past host (.mips i)).workspace =
      ⟨i.operation.learned s.workspace.frame.nameOf s.workspace.knowledge,
        s.workspace.frame.ensureAll i.operation.named, s.workspace.questions ++ i.asked⟩ :=
  congrArg Prod.snd (Mips.lift_eq s.workspace host i)

theorem nameOf_past (host : Host) (s : Session) (i : Mips.Instruction) :
    (s.past host (.mips i)).workspace.frame.nameOf = s.workspace.frame.nameOf := by
  rw [workspace_past]
  exact Frame.nameOf_ensureAll _ _

end Session

end RegisterTransfer
