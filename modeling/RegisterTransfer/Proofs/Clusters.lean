import RegisterTransfer.Proofs.Mos6502.Emission
import RegisterTransfer.Proofs.Streams

namespace RegisterTransfer

namespace Instruction

def emitted (host : Host) (f : Frame) : Instruction → List Transfer
  | .mips i => Mips.emitted f.nameOf host i
  | .mos6502 i => Mos6502.emitted f.names host i

def learned (f : Frame) (k : Knowledge) : Instruction → Knowledge
  | .mips i => i.operation.learned f.nameOf k
  | .mos6502 i => i.learned k

def framed (f : Frame) : Instruction → Frame
  | .mips i => f.ensureAll i.operation.named
  | .mos6502 i => f.useAll i.uses

def asked : Instruction → List Question
  | .mips i => i.asked
  | .mos6502 i => i.asked

theorem lift_eq (host : Host) (i : Instruction) (w : Workspace) : i.lift host w =
    (i.emitted host w.frame,
      { knowledge := i.learned w.frame w.knowledge
        frame := i.framed w.frame
        questions := w.questions ++ i.asked }) := by
  cases i with
  | mips i => exact Mips.lift_eq w host i
  | mos6502 i => exact Mos6502.lift_eq w host i

def directCall? : Instruction → Option (Address × Address)
  | .mips i =>
    match i.operation with
    | .jumpAndLink target => some (target, Mips.continuation i.address)
    | _ => none
  | .mos6502 i =>
    match i.mnemonic with
    | .jsr => some (.ptr16 i.value.toNat, i.nextAddress)
    | _ => none

theorem emitted_of_directCall? {i : Instruction} {target continuation : Address}
    (h : i.directCall? = some (target, continuation)) : ∃ size kind, ∀ host f,
      i.emitted host f = [.call (host.callee target continuation) size kind] := by
  cases i with
  | mips i =>
    obtain ⟨a, op⟩ := i
    cases op with
    | jumpAndLink target =>
      cases h
      exact ⟨0, Mips.callKind, fun _ _ => rfl⟩
    | _ => cases h
  | mos6502 i =>
    obtain ⟨a, mnemonic, mode, value⟩ := i
    cases mnemonic with
    | jsr =>
      cases h
      exact ⟨2, Mos6502.callKind, fun _ _ => rfl⟩
    | _ => cases h

theorem emitted_of_not_directCall? {i : Instruction} (h : i.directCall? = none)
    (host host' : Host) (f : Frame) : i.emitted host f = i.emitted host' f := by
  cases i with
  | mips i =>
    obtain ⟨a, op⟩ := i
    cases op with
    | jumpAndLink target => cases h
    | _ => rfl
  | mos6502 i =>
    obtain ⟨a, mnemonic, mode, value⟩ := i
    cases mnemonic with
    | jsr => cases h
    | _ => rfl

end Instruction

namespace Workspace

def after (w : Workspace) : List (Except DecodeError Instruction) → Workspace
  | [] => w
  | .ok i :: items =>
    after ⟨i.learned w.frame w.knowledge, i.framed w.frame, w.questions ++ i.asked⟩ items
  | .error _ :: items => after w items

theorem after_append (w : Workspace) (items more : List (Except DecodeError Instruction)) :
    w.after (items ++ more) = (w.after items).after more := by
  induction items generalizing w with
  | nil => rfl
  | cons item items ih =>
    cases item with
    | ok i => exact ih _
    | error e => exact ih w

end Workspace

namespace Frame

def after (f : Frame) : List (Except DecodeError Instruction) → Frame
  | [] => f
  | .ok i :: items => after (i.framed f) items
  | .error _ :: items => after f items

theorem after_induction {P : Frame → Prop} (hstep : ∀ f (i : Instruction), P f → P (i.framed f))
    {f : Frame} (h : P f) (items : List (Except DecodeError Instruction)) : P (f.after items) := by
  induction items generalizing f with
  | nil => exact h
  | cons item items ih =>
    cases item with
    | ok i => exact ih (hstep f i h)
    | error e => exact ih h

theorem after_append (f : Frame) (items more : List (Except DecodeError Instruction)) :
    f.after (items ++ more) = (f.after items).after more := by
  induction items generalizing f with
  | nil => rfl
  | cons item items ih =>
    cases item with
    | ok i => exact ih (i.framed f)
    | error e => exact ih f

theorem after_take_succ (f : Frame) {items : List (Except DecodeError Instruction)} {m : Nat}
    {i : Instruction} (h : items[m]? = some (.ok i)) :
    f.after (items.take (m + 1)) = i.framed (f.after (items.take m)) := by
  rw [List.take_add_one, h, after_append]
  rfl

end Frame

theorem Workspace.after_frame (w : Workspace) (items : List (Except DecodeError Instruction)) :
    (w.after items).frame = w.frame.after items := by
  induction items generalizing w with
  | nil => rfl
  | cons item items ih =>
    cases item with
    | ok i => exact ih _
    | error e => exact ih w

def clusters (host : Host) (f : Frame) :
    List (Except DecodeError Instruction) → List (Except DecodeError Cluster)
  | [] => []
  | .ok i :: items =>
    .ok ⟨i.address, i.length, i.emitted host f⟩ :: clusters host (i.framed f) items
  | .error e :: items => .error e :: clusters host f items

theorem clusters_eq_ok_iff (host : Host) (f : Frame) {items : List (Except DecodeError Instruction)}
    {m : Nat} {x : Cluster} : (clusters host f items)[m]? = some (.ok x) ↔
      ∃ i, items[m]? = some (.ok i) ∧
        x = ⟨i.address, i.length, i.emitted host (f.after (items.take m))⟩ := by
  induction items generalizing f m with
  | nil => simp [clusters]
  | cons item items ih =>
    cases item with
    | error e =>
      cases m with
      | zero => simp [clusters]
      | succ m => exact ih f
    | ok i =>
      cases m with
      | zero => simp [clusters, Frame.after, eq_comm]
      | succ m => exact ih (i.framed f)

theorem clusters_append (host : Host) (f : Frame) (xs ys : List (Except DecodeError Instruction)) :
    clusters host f (xs ++ ys) = clusters host f xs ++ clusters host (f.after xs) ys := by
  induction xs generalizing f with
  | nil => rfl
  | cons item xs ih =>
    cases item with
    | ok i => exact congrArg (_ :: ·) (ih (i.framed f))
    | error e => exact congrArg (_ :: ·) (ih f)

theorem error_mem_clusters {host : Host} {f : Frame} {e : DecodeError}
    {items : List (Except DecodeError Instruction)} :
    .error e ∈ clusters host f items ↔ .error e ∈ items := by
  induction items generalizing f with
  | nil => simp [clusters]
  | cons item items ih =>
    cases item with
    | ok i => simp [clusters, ih]
    | error e' => simp [clusters, ih]

theorem Session.take_eq_clusters (host : Host) (n : Nat) (s : Session) : s.take host n =
    (clusters host s.workspace.frame (s.decoding.take n).1,
      { s with
        cursor := (s.decoding.take n).2.cursor
        failed := (s.decoding.take n).2.failed
        workspace := s.workspace.after (s.decoding.take n).1 }) := by
  -- A lifting session ends, fails and moves on exactly where its decoding does.
  induction n generalizing s with
  | zero => rfl
  | succ n ih =>
    obtain ⟨hd, hs⟩ | ⟨i, hd, hs⟩ | ⟨e, hd, hs⟩ := s.next_cases host
    · rw [take, hs, Decoding.take, hd]
      rfl
    · have hw := i.lift_eq host s.workspace
      simp only [take, hs, ih, Decoding.take, hd, clusters, Workspace.after, cluster, past, hw]
    · simp only [take, hs, ih, Decoding.take, hd, clusters, Workspace.after]

namespace Session
variable (host : Host) (a : Architecture) (c : Cursor) (k : Knowledge) (f : Frame) (n : Nat)

theorem clusters_take : ((start a c k f).take host n).1 =
    clusters host f ((Decoding.start a c).take n).1 :=
  congrArg Prod.fst (take_eq_clusters host n (start a c k f))

theorem workspace_take : ((start a c k f).take host n).2.workspace =
    Workspace.after ⟨k, f, []⟩ ((Decoding.start a c).take n).1 :=
  congrArg (·.2.workspace) (take_eq_clusters host n (start a c k f))

end Session

end RegisterTransfer
