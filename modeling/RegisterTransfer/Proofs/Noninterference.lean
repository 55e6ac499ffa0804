import RegisterTransfer.Proofs.Clusters

namespace RegisterTransfer

def Transfer.eraseCallee : Transfer → Transfer
  | .call _ size kind => .call (.externalProcedure "") size kind
  | t => t

def Cluster.eraseCallee (x : Cluster) : Cluster :=
  { x with transfers := x.transfers.map Transfer.eraseCallee }

def eraseCallees : List (Except DecodeError Instruction) → List (Except DecodeError Cluster) →
    List (Except DecodeError Cluster)
  | .ok i :: items, x :: xs =>
    (if i.directCall?.isSome then x.map Cluster.eraseCallee else x) :: eraseCallees items xs
  | .error _ :: items, x :: xs => x :: eraseCallees items xs
  | _, xs => xs

theorem eraseCallees_clusters (host host' : Host) (f : Frame)
    (items : List (Except DecodeError Instruction)) :
    eraseCallees items (clusters host f items) = eraseCallees items (clusters host' f items) := by
  -- The frame goes on as the instructions have it, whatever the hosts answer.
  induction items generalizing f with
  | nil => rfl
  | cons item items ih =>
    cases item with
    | error e => exact congrArg (.error e :: ·) (ih f)
    | ok i =>
      rw [clusters, clusters, eraseCallees, eraseCallees, ih (i.framed f)]
      cases hc : i.directCall? with
      | none => rw [i.emitted_of_not_directCall? hc host host' f]
      | some call =>
        obtain ⟨size, kind, he⟩ := Instruction.emitted_of_directCall? hc
        rw [he, he]
        rfl

theorem lifting_noninterference (a : Architecture) (c : Cursor) (f : Frame) (n : Nat) :
    let decoded := ((Decoding.start a c).take n).1
    let lifted (host : Host) (k : Knowledge) := (Session.start a c k f).take host n
    (∀ host k k', (lifted host k).1 = (lifted host k').1 ∧
      (lifted host k).2.workspace.frame = (lifted host k').2.workspace.frame) ∧
    (∀ host host' k,
      eraseCallees decoded (lifted host k).1 = eraseCallees decoded (lifted host' k).1 ∧
        (lifted host k).2.workspace = (lifted host' k).2.workspace) ∧
    ∀ host k (m : Nat) (i : Instruction) target continuation, decoded[m]? = some (.ok i) →
      i.directCall? = some (target, continuation) → ∃ size kind,
        (lifted host k).1[m]? = some (.ok ⟨i.address, i.length,
          [.call (host.callee target continuation) size kind]⟩) := by
  intro decoded lifted
  have hitems : ∀ host k, (lifted host k).1 = clusters host f decoded := fun host k =>
    Session.clusters_take host a c k f n
  have hend : ∀ host k, (lifted host k).2.workspace = Workspace.after ⟨k, f, []⟩ decoded :=
    fun host k => Session.workspace_take host a c k f n
  refine ⟨?_, ?_, ?_⟩
  · intro host k k'
    rw [hitems, hitems, hend, hend, Workspace.after_frame, Workspace.after_frame]
    exact ⟨rfl, rfl⟩
  · intro host host' k
    rw [hitems, hitems, hend, hend]
    exact ⟨eraseCallees_clusters host host' f decoded, rfl⟩
  · intro host k m i target continuation hm hc
    have hg := (clusters_eq_ok_iff host f).mpr ⟨i, hm, rfl⟩
    obtain ⟨size, kind, he⟩ := Instruction.emitted_of_directCall? hc
    rw [he] at hg
    rw [hitems]
    exact ⟨size, kind, hg⟩

theorem lifting_noninterference_call :
    let c : Cursor := ⟨⟨.ptr16 0x1000, [0xA2, 0x05, 0xE8, 0x20, 0xD2, 0xFF, 0xE8]⟩, 0, .little⟩
    let named : Host := ⟨fun _ _ => some ⟨"CHROUT", none⟩, fun _ => none⟩
    let unnamed : Host := ⟨fun _ _ => none, fun _ => none⟩
    let decoded := ((Decoding.start .mos6502 c).take 4).1
    let lifted (host : Host) := ((Session.start .mos6502 c .empty (.empty 16)).take host 4).1
    decoded[2]? = some (.ok (.mos6502 ⟨.ptr16 0x1003, .jsr, .absolute, 0xFFD2⟩)) ∧
      eraseCallees decoded (lifted named) = eraseCallees decoded (lifted unnamed) ∧
      (∃ size kind, (lifted named)[2]? =
        some (.ok ⟨.ptr16 0x1003, 3, [.call (.externalProcedure "CHROUT") size kind]⟩)) ∧
      ∃ size kind, (lifted unnamed)[2]? =
        some (.ok ⟨.ptr16 0x1003, 3, [.call (.address (.ptr16 0xFFD2)) size kind]⟩) := by
  have hi : ((Decoding.start .mos6502 ⟨⟨.ptr16 0x1000, [0xA2, 0x05, 0xE8, 0x20, 0xD2, 0xFF, 0xE8]⟩,
      0, .little⟩).take 4).1[2]? =
        some (.ok (.mos6502 ⟨.ptr16 0x1003, .jsr, .absolute, 0xFFD2⟩)) := rfl
  intro c named unnamed decoded lifted
  obtain ⟨-, hhosts, hcalls⟩ := lifting_noninterference .mos6502 c (.empty 16) 4
  refine ⟨hi, (hhosts named unnamed .empty).1, ?_, ?_⟩
  · exact hcalls named .empty 2 _ (.ptr16 0xFFD2) (.ptr16 0x1006) hi rfl
  · exact hcalls unnamed .empty 2 _ (.ptr16 0xFFD2) (.ptr16 0x1006) hi rfl

end RegisterTransfer
