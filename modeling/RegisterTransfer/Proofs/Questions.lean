import Mathlib.Data.List.Basic
import RegisterTransfer.Proofs.ClusterForm
import RegisterTransfer.Proofs.Extension

namespace RegisterTransfer

def Transfer.callee? : Transfer → Option Expression
  | .call target _ _ => some target
  | _ => none

def Cluster.callees (x : Cluster) : List Expression := x.transfers.filterMap Transfer.callee?

theorem Transfer.callee?_of_isData {t : Transfer} (h : t.isData) : t.callee? = none := by
  cases t <;> first | rfl | cases h

theorem Mos6502.absolute_of_jsr {a : Architecture} {c : Cursor} {address : Address} {mode : Mode}
    {value : BitVec 16} (h : a.decode? c = some (.mos6502 ⟨address, .jsr, mode, value⟩)) :
    mode = .absolute := by
  cases a with
  | mips order =>
    obtain ⟨w, op, -, -, hi⟩ := Architecture.decode?_mips.mp h
    cases hi
  | mos6502 =>
    obtain ⟨j, hj, hi⟩ := Architecture.decode?_mos6502.mp h
    cases hi
    obtain ⟨opcode, -, hm, -, -⟩ := decode_eq_some_iff.mp hj
    have hmem := mem_opcodes opcode _ hm
    simp only [Mnemonic.opcodes, List.mem_singleton, Prod.mk.injEq] at hmem
    exact hmem.1

namespace Instruction

def question? : Instruction → Option Question
  | .mips ⟨a, .jumpAndLink target⟩ => some (.imported target (.wrap a.bits (a.value + 8)))
  | .mos6502 ⟨a, .jsr, .absolute, value⟩ =>
    some (.imported (.ptr16 value.toNat) (.wrap a.bits (a.value + 3)))
  | _ => none

theorem question?_eq {a : Architecture} {c : Cursor} {i : Instruction}
    (h : a.decode? c = some i) :
    i.question? = i.directCall?.map fun call => .imported call.1 call.2 := by
  have himported (target a : Address) (n : Nat) : some (Question.imported target
      (.wrap a.bits (a.value + n))) = some (.imported target (a.addOffset n)) := by
    rw [a.addOffset_natCast n]
  cases i with
  | mips i =>
    obtain ⟨address, op⟩ := i
    cases op with
    | jumpAndLink target => exact himported target address 8
    | _ => rfl
  | mos6502 i =>
    obtain ⟨address, mnemonic, mode, value⟩ := i
    cases mnemonic with
    | jsr =>
      obtain rfl := Mos6502.absolute_of_jsr h
      exact himported (.ptr16 value.toNat) address 3
    | _ => rfl

theorem asked_eq {a : Architecture} {c : Cursor} {i : Instruction} (h : a.decode? c = some i) :
    i.asked = i.question?.toList := by
  rw [question?_eq h]
  cases i with
  | mips i =>
    obtain ⟨address, op⟩ := i
    cases op <;> rfl
  | mos6502 i =>
    obtain ⟨address, mnemonic, mode, value⟩ := i
    cases mnemonic <;> rfl

theorem question?_eq_some_iff {a : Architecture} {c : Cursor} {i : Instruction}
    {target continuation : Address} (h : a.decode? c = some i) :
    i.question? = some (.imported target continuation) ↔
      i.directCall? = some (target, continuation) := by
  rw [question?_eq h, Option.map_eq_some_iff]
  constructor
  · rintro ⟨call, hcall, he⟩
    cases he
    exact hcall
  · intro hcall
    exact ⟨(target, continuation), hcall, rfl⟩

theorem not_intercepted {i : Instruction} {target : Address} :
    i.question? ≠ some (.intercepted target) := by
  unfold question?
  split <;> simp

theorem externalProcedure_not_mem {a : Architecture} {c : Cursor} {i : Instruction}
    (h : a.decode? c = some i) (hi : i.directCall? = none) (host : Host) (f : Frame)
    (name : String) :
    .externalProcedure name ∉ (i.emitted host f).filterMap Transfer.callee? := by
  rw [List.mem_filterMap]
  rintro ⟨t, ht, hname⟩
  have hdata : ¬t.isData := by
    intro hd
    rw [Transfer.callee?_of_isData hd] at hname
    cases hname
  obtain ⟨hleaves, hlast⟩ := (Architecture.emitted_formed host h f).getLast?_eq_some ht hdata
  cases i with
  | mips i =>
    obtain ⟨address, op⟩ := i
    obtain ⟨hslot, rfl⟩ := Mips.eq_leaving_of_mem ht hdata
    cases op with
    | compareBranch op rs rt target =>
      simp only [Mips.Operation.leaving, Mips.compareTransfer] at hname
      split at hname <;> cases hname
    | jumpRegister rs =>
      simp only [Mips.Operation.leaving] at hname
      split at hname <;> cases hname
    | jumpAndLinkRegister rd rs =>
      simp only [Mips.Operation.leaving, Transfer.callee?, Option.some.injEq, Mips.operand] at hname
      split at hname <;> cases hname
    | signBranch | jump => cases hname
    | jumpAndLink target => cases hi
    | _ => cases hslot
  | mos6502 i =>
    obtain ⟨address, mnemonic, mode, value⟩ := i
    have hm : mnemonic ∈ Mos6502.Mnemonic.leaving := of_decide_eq_true hleaves
    cases mnemonic with
    | bpl | bmi | bvc | bvs | bcc | bcs | bne | beq | jmp | rts | rti =>
      cases hlast
      cases hname
    | jsr => cases hi
    | _ => exact absurd hm (by decide)

theorem callees_of_directCall? {i : Instruction} {target continuation : Address}
    (hi : i.directCall? = some (target, continuation)) (host : Host) (f : Frame) :
    (i.emitted host f).filterMap Transfer.callee? = [host.callee target continuation] := by
  obtain ⟨size, kind, he⟩ := emitted_of_directCall? hi
  rw [he]
  rfl

theorem externalProcedure_mem_iff {a : Architecture} {c : Cursor} {i : Instruction}
    (h : a.decode? c = some i) (host : Host) (f : Frame) (name : String) :
    .externalProcedure name ∈ (i.emitted host f).filterMap Transfer.callee? ↔
      ∃ target continuation p, i.question? = some (.imported target continuation) ∧
        host.imported target continuation = some p ∧ p.name = name := by
  constructor
  · intro hm
    cases hi : i.directCall? with
    | none => exact absurd hm (externalProcedure_not_mem h hi host f name)
    | some call =>
      obtain ⟨target, continuation⟩ := call
      rw [callees_of_directCall? hi, List.mem_singleton, Host.callee] at hm
      cases hp : host.imported target continuation with
      | none =>
        rw [hp] at hm
        cases hm
      | some p =>
        rw [hp] at hm
        cases hm
        exact ⟨target, continuation, p, (question?_eq_some_iff h).mpr hi, hp, rfl⟩
  · rintro ⟨target, continuation, p, hq, hp, rfl⟩
    rw [callees_of_directCall? ((question?_eq_some_iff h).mp hq), Host.callee, hp]
    exact List.mem_singleton_self _

theorem asks_alone {a : Architecture} {c : Cursor} {i : Instruction}
    (h : a.decode? c = some i) (host : Host) (f : Frame) (target continuation : Address)
    (hq : i.question? = some (.imported target continuation)) :
    (∃ callee size kind, i.emitted host f = [.call callee size kind]) ∧
      (host.imported target continuation = none →
        (i.emitted host f).filterMap Transfer.callee? = [.address target]) := by
  have hcall := (question?_eq_some_iff h).mp hq
  obtain ⟨size, kind, he⟩ := emitted_of_directCall? hcall
  refine ⟨⟨_, size, kind, he host f⟩, ?_⟩
  intro hp
  rw [callees_of_directCall? hcall, Host.callee, hp]

end Instruction

theorem Workspace.after_questions (w : Workspace)
    (items : List (Except DecodeError Instruction)) : (w.after items).questions =
      w.questions ++ (successes items).flatMap Instruction.asked := by
  induction items generalizing w with
  | nil => exact (List.append_nil _).symm
  | cons item items ih =>
    cases item with
    | ok i =>
      rw [after, ih, List.append_assoc]
      rfl
    | error e => exact ih w

theorem clusters_congr {host host' : Host} (f : Frame)
    {items : List (Except DecodeError Instruction)}
    (h : ∀ i, .ok i ∈ items → ∀ target continuation, i.directCall? = some (target, continuation) →
      host'.imported target continuation = host.imported target continuation) :
    clusters host' f items = clusters host f items := by
  induction items generalizing f with
  | nil => rfl
  | cons item items ih =>
    have hrest := fun g => ih g fun i hi => h i (List.mem_cons_of_mem _ hi)
    cases item with
    | error e => exact congrArg (.error e :: ·) (hrest f)
    | ok i =>
      have hi : i.emitted host' f = i.emitted host f := by
        cases hc : i.directCall? with
        | none => exact i.emitted_of_not_directCall? hc host' host f
        | some call =>
          obtain ⟨size, kind, he⟩ := Instruction.emitted_of_directCall? hc
          rw [he, he, Host.callee, Host.callee, h i List.mem_cons_self _ _ hc]
      rw [clusters, clusters, hi, hrest]

namespace Session
variable (host : Host) (a : Architecture) (c : Cursor) (k : Knowledge) (f : Frame) (n : Nat)

theorem questions_take : ((start a c k f).take host n).2.workspace.questions =
    (successes ((Decoding.start a c).take n).1).filterMap Instruction.question? := by
  rw [workspace_take, Workspace.after_questions, List.nil_append, List.filterMap_eq_flatMap_toList]
  apply List.flatMap_congr
  intro i hi
  obtain ⟨d, hd⟩ := Decoding.decode?_of_take (mem_successes.mp hi)
  exact Instruction.asked_eq hd

end Session

/-- The questions are those of the instructions that have come, in their order; the next one is
put when its instruction comes. An answer goes into the call that asked, and nowhere else. -/
theorem asks_about_direct_calls (a : Architecture) (c : Cursor) (k : Knowledge) (f : Frame) :
    let decoded (n : Nat) := ((Decoding.start a c).take n).1
    let lifted (host : Host) (n : Nat) := (Session.start a c k f).take host n
    let asked (host : Host) (n : Nat) := (lifted host n).2.workspace.questions
    (∀ host n, asked host n = (successes (decoded n)).filterMap Instruction.question?) ∧
    (∀ host n target, .intercepted target ∉ asked host n) ∧
    (∀ host n, (decoded n).length ≤ n ∧ asked host (n + 1) = asked host n ++
      (((decoded (n + 1))[n]?.bind Except.toOption).bind Instruction.question?).toList) ∧
    (∀ host n (m : Nat) x, (lifted host n).1[m]? = some (.ok x) →
      ∃ i, (decoded n)[m]? = some (.ok i) ∧
        (∀ name, .externalProcedure name ∈ x.callees ↔ ∃ target continuation p,
          i.question? = some (.imported target continuation) ∧
            host.imported target continuation = some p ∧ p.name = name) ∧
        ∀ target continuation, i.question? = some (.imported target continuation) →
          (∃ callee size kind, x.transfers = [.call callee size kind]) ∧
            (host.imported target continuation = none → x.callees = [.address target])) ∧
    ∀ host host' n, (∀ target continuation, .imported target continuation ∈ asked host n →
      host'.imported target continuation = host.imported target continuation) →
      lifted host' n = lifted host n := by
  intro decoded lifted asked
  have hasked : ∀ host n, asked host n = (successes (decoded n)).filterMap Instruction.question? :=
    fun host n => Session.questions_take host a c k f n
  refine ⟨hasked, ?_, ?_, ?_, ?_⟩
  · intro host n target hm
    rw [hasked, List.mem_filterMap] at hm
    obtain ⟨i, -, hi⟩ := hm
    exact Instruction.not_intercepted hi
  · intro host n
    refine ⟨Decoding.length_take_le n _, ?_⟩
    have hnext : decoded (n + 1) = decoded n ++ (decoded (n + 1))[n]?.toList :=
      Decoding.take_succ n (Decoding.start a c)
    rw [hasked, hasked, hnext, successes_append, List.filterMap_append, ← hnext]
    cases (decoded (n + 1))[n]? with
    | none => rfl
    | some item => cases item <;> rfl
  · intro host n m x hx
    have hitems : (lifted host n).1 = clusters host f (decoded n) :=
      Session.clusters_take host a c k f n
    rw [hitems] at hx
    obtain ⟨i, hi, rfl⟩ := (clusters_eq_ok_iff host f).mp hx
    obtain ⟨d, hd⟩ := Decoding.decode?_of_take (List.mem_of_getElem? hi)
    exact ⟨i, hi, Instruction.externalProcedure_mem_iff hd host _,
      Instruction.asks_alone hd host _⟩
  -- All that lifting asks is what the direct calls among the instructions ask.
  · intro host host' n hagree
    have htake : ∀ host, lifted host n = _ := fun host =>
      Session.take_eq_clusters host n (Session.start a c k f)
    rw [htake host, htake host']
    refine Prod.ext ?_ rfl
    apply clusters_congr
    intro i hi target continuation hc
    apply hagree
    rw [hasked, List.mem_filterMap]
    obtain ⟨d, hd⟩ := Decoding.decode?_of_take hi
    exact ⟨i, mem_successes.mpr hi, (Instruction.question?_eq_some_iff hd).mpr hc⟩

theorem asks_about_direct_calls_at_top :
    let c : Cursor := ⟨⟨.ptr32 0xFFFFFFF4,
      [0x04, 0x91, 0x00, 0x01, 0x0C, 0x00, 0x00, 0x10, 0x00, 0x00, 0x00, 0x00]⟩, 0, .big⟩
    let named : Host := ⟨fun _ _ => some ⟨"memcpy", none⟩, fun _ => none⟩
    let lifted (host : Host) (n : Nat) :=
      (Session.start (.mips .big) c .empty (.empty 32)).take host n
    (lifted named 3).2.workspace.questions = [.imported (.ptr32 0xF0000040) (.ptr32 0)] ∧
      (∀ (x : Cluster) (name : String), (lifted named 3).1[1]? = some (.ok x) →
        (.externalProcedure name ∈ x.callees ↔ name = "memcpy")) ∧
      ∀ intercepted, lifted ⟨named.imported, intercepted⟩ 3 = lifted named 3 := by
  have hdecoded : ((Decoding.start (.mips .big) ⟨⟨.ptr32 0xFFFFFFF4,
      [0x04, 0x91, 0x00, 0x01, 0x0C, 0x00, 0x00, 0x10, 0x00, 0x00, 0x00, 0x00]⟩, 0, .big⟩).take 3).1 =
        [.ok (.mips ⟨.ptr32 0xFFFFFFF4, .signBranch .bgezal 4 (.ptr32 0xFFFFFFFC)⟩),
          .ok (.mips ⟨.ptr32 0xFFFFFFF8, .jumpAndLink (.ptr32 0xF0000040)⟩),
          .ok (.mips ⟨.ptr32 0xFFFFFFFC, .nop⟩)] := rfl
  intro c named lifted
  obtain ⟨hasked, -, -, hcallees, hhosts⟩ :=
    asks_about_direct_calls (.mips .big) c .empty (.empty 32)
  refine ⟨?_, ?_, ?_⟩
  · refine (hasked named 3).trans ?_
    exact congrArg (fun items => (successes items).filterMap Instruction.question?) hdecoded
  · intro x name hx
    obtain ⟨i, hi, hnames, -⟩ := hcallees named 3 1 x hx
    cases hi.symm.trans (congrArg (·[1]?) hdecoded)
    rw [hnames name]
    constructor
    · rintro ⟨target, continuation, p, -, hp, rfl⟩
      cases hp
      rfl
    · rintro rfl
      exact ⟨_, _, _, rfl, rfl, rfl⟩
  · intro intercepted
    exact hhosts named ⟨named.imported, intercepted⟩ 3 fun _ _ _ => rfl

end RegisterTransfer
