import RegisterTransfer.Proofs.Mips.ZeroReads

namespace RegisterTransfer

def Storage.number? : Storage → Option Nat
  | .register r | .flagGroup r _ => some r.number
  | .temporary _ => none

def Identifier.NamesZero (id : Identifier) : Prop := id.storage.number? = some 0

theorem Frame.mem_ensureAll {f : Frame} {rs : List Register} {id : Identifier}
    (h : id ∈ (f.ensureAll rs).identifiers) :
    id ∈ f.identifiers ∨ ∃ r ∈ rs, id = .ofRegister r := by
  induction rs generalizing f with
  | nil => exact .inl h
  | cons r rs ih =>
    rcases ih h with hid | ⟨q, hq, hid⟩
    · have hid : id ∈ (f.ensure (.ofRegister r)).2.identifiers := hid
      unfold ensure at hid
      split at hid
      · exact .inl hid
      · rcases List.mem_append.mp hid with hid | hid
        · exact .inl hid
        · exact .inr ⟨r, List.mem_cons_self, List.mem_singleton.mp hid⟩
    · exact .inr ⟨q, List.mem_cons_of_mem r hq, hid⟩

namespace Mips

theorem number_ne_zero {r : Gpr} (hr : r ≠ zeroRegister) : r.register.number ≠ 0 := by
  rw [Gpr.register, register_number]
  intro hz
  exact hr (Fin.ext hz)

theorem number_of_mem_gprRegisters {rs : List Gpr} {r : Register} (h : r ∈ gprRegisters rs) :
    r.number ≠ 0 := by
  obtain ⟨q, hq, rfl⟩ := List.mem_map.mp h
  apply number_ne_zero
  simpa using (List.mem_filter.mp hq).2

theorem number_of_mem_named {op : Operation} {r : Register} (h : r ∈ op.named) : r.number ≠ 0 := by
  cases op with
  | shift | shiftVariable | alu | arithmetic | logical | lui | load | store | signBranch
  | jumpAndLinkRegister => exact number_of_mem_gprRegisters h
  | product op rs rt =>
    rcases List.mem_append.mp h with h | h
    · exact number_of_mem_gprRegisters h
    · simp [HiLo.register] at h
      rcases h with rfl | rfl <;> simp
  | moveFrom source rd =>
    rcases List.mem_cons.mp h with rfl | h
    · cases source <;> simp [HiLo.register]
    · exact number_of_mem_gprRegisters h
  | moveTo destination rs =>
    rcases List.mem_append.mp h with h | h
    · exact number_of_mem_gprRegisters h
    · rw [List.mem_singleton.mp h]
      cases destination <;> simp [HiLo.register]
  | compareBranch op rs rt target =>
    simp only [Operation.named] at h
    split at h
    · cases h
    · exact number_of_mem_gprRegisters h
  | jumpRegister rs =>
    simp only [Operation.named] at h
    split at h
    · cases h
    · exact number_of_mem_gprRegisters h
  | nop | jump | jumpAndLink | syscall | breakpoint => cases h

section Knowledge
variable {k : Knowledge} (hk : k.get? 0 = none) {r : Register} {q : Gpr}

include hk

theorem get?_zero_forget : (k.forget r).get? 0 = none := by
  rw [Knowledge.forget, Table.get?_erase, hk, ite_self]

theorem get?_zero_record (hr : r.number ≠ 0) (c : Constant) : (k.record r c).get? 0 = none := by
  rw [Knowledge.record, Table.get?_insert, if_neg hr, hk]

theorem get?_zero_assign (hr : r.number ≠ 0) (source : Expression) :
    (k.assign r source).get? 0 = none := by
  unfold Knowledge.assign
  cases source.constant? with
  | some c => exact get?_zero_record hk hr c
  | none => exact get?_zero_forget hk

theorem get?_zero_assignGpr (source : Expression) : (k.assignGpr q source).get? 0 = none := by
  unfold Knowledge.assignGpr
  split
  · exact hk
  · rename_i hq
    exact get?_zero_assign hk (number_ne_zero hq) source

theorem get?_zero_learn (known : Option Constant) : (k.learn q known).get? 0 = none := by
  unfold Knowledge.learn
  split
  · exact hk
  · rename_i hq
    cases known with
    | none => exact hk
    | some c =>
      exact get?_zero_record hk (number_ne_zero hq) c

theorem get?_zero_link (link? : Option Gpr) :
    (link?.elim k (k.forget ·.register)).get? 0 = none := by
  cases link? with
  | none => exact hk
  | some r => exact get?_zero_forget hk

theorem get?_zero_learned (name : Register → Identifier) (op : Operation) :
    (op.learned name k).get? 0 = none := by
  cases op with
  | shift | shiftVariable | alu | lui | load | moveFrom => exact get?_zero_assignGpr hk _
  | arithmetic | logical => exact get?_zero_learn (get?_zero_assignGpr hk _) _
  | product op rs rt =>
    exact get?_zero_assign (get?_zero_assign hk (by decide) _) (by decide) _
  | moveTo destination rs => exact get?_zero_assign hk (by cases destination <;> decide) _
  | signBranch => exact get?_zero_link hk _
  | jumpAndLink => exact get?_zero_forget hk
  | jumpAndLinkRegister => exact get?_zero_forget (get?_zero_link hk _)
  | nop | store | compareBranch | jump | jumpRegister | syscall | breakpoint => exact hk

end Knowledge

section Execution
variable {M : Type} {n : Nat}

theorem put_comm {m : Nat} (h : m ≠ n) (s : Machine M) (x y : BitVec 32) :
    (s.put n y).put m x = (s.put m x).put n y := by
  simp [Machine.put, Function.update_comm h]

theorem interpretation_put (e : Surroundings M) (s : Machine M) (y : BitVec 32) :
    Interpretation.SameWorld ((s.put n y).interpretation e) (s.interpretation e) :=
  ⟨rfl, rfl, rfl⟩

theorem contents_put {id : Identifier} (h : id.storage.number? ≠ some n) (e : Surroundings M)
    (s : Machine M) (y : BitVec 32) : ((s.put n y).interpretation e).contents id.storage =
      (s.interpretation e).contents id.storage := by
  cases hs : id.storage with
  | register r =>
    rw [hs] at h
    have hr : r.number ≠ n := fun hr => h (congrArg some hr)
    simp only [Machine.interpretation, Machine.put_of_ne hr]
  | flagGroup r mask => rfl
  | temporary number => rfl

theorem pattern?_put {x : Expression} (h : ∀ id ∈ x.identifiers, id.storage.number? ≠ some n)
    (e : Surroundings M) (s : Machine M) (y : BitVec 32) (width : Nat) :
    x.pattern? ((s.put n y).interpretation e) width = x.pattern? (s.interpretation e) width := by
  unfold Expression.pattern?
  rw [Expression.value?_congr (interpretation_put e s y) x
    fun id hid => contents_put (h id hid) e s y]

theorem execute_put (hn : n ≠ returnAddress) {t : Transfer}
    (h : ∀ id ∈ t.identifiers, id.storage.number? ≠ some n) (e : Surroundings M) (s : Machine M)
    (y : BitVec 32) : execute e t (s.put n y) = (execute e t s).map (·.put n y) := by
  cases t with
  | assignment destination source =>
    have hsource := pattern?_put (x := source) (fun id hid => h id (by simp [hid])) e s y
    cases destination with
    | identifier id =>
      obtain ⟨name, t, storage⟩ := id
      cases storage with
      | register r =>
        have hr : r.number ≠ n := by
          intro hr
          exact h ⟨name, t, .register r⟩ (by simp) (congrArg some hr)
        simp only [execute, hsource]
        cases source.pattern? (s.interpretation e) 32 with
        | none => rfl
        | some x => exact congrArg some (put_comm hr s x y)
      | flagGroup r mask => rfl
      | temporary number => rfl
    | memory location t =>
      have hlocation := pattern?_put (x := location) (fun id hid => h id (by simp [hid])) e s y
      simp only [execute, hsource, hlocation]
      cases location.pattern? (s.interpretation e) 32 with
      | none => rfl
      | some a =>
        cases source.pattern? (s.interpretation e) t.bits with
        | none => rfl
        | some x => rfl
    | _ => rfl
  | call target size kind => exact congrArg some (put_comm (Ne.symm hn) s e.link y)
  | goto | branch | returning | sideEffect | nop | invalid => rfl

theorem executeAll_put (hn : n ≠ returnAddress) {ts : List Transfer}
    (h : ∀ id ∈ ts.flatMap Transfer.identifiers, id.storage.number? ≠ some n)
    (o : Nat → Surroundings M) (s : Machine M) (y : BitVec 32) :
    executeAll o ts (s.put n y) = (executeAll o ts s).map (·.put n y) := by
  induction ts generalizing o s with
  | nil => rfl
  | cons t ts ih =>
    rw [List.flatMap_cons] at h
    have ht := execute_put hn (fun id hid => h id (List.mem_append_left _ hid)) (o 0) s y
    have hts := ih fun id hid => h id (List.mem_append_right _ hid)
    rw [executeAll, executeAll, ht]
    cases execute (o 0) t s with
    | none => rfl
    | some u => exact hts _ u

end Execution

theorem emitted_of_destination? (name : Register → Identifier) (host : Host) (a : Address)
    {op : Operation} (h : op.destination? = some zeroRegister) :
    emitted name host ⟨a, op⟩ = [.nop] ∨
      ∃ rs, op = .jumpAndLinkRegister zeroRegister rs ∧
        emitted name host ⟨a, op⟩ = [.call (operand name rs) 0 callKind] := by
  cases op with
  | shift | shiftVariable | alu | arithmetic | logical | lui | load | moveFrom =>
    left
    cases h
    rfl
  | jumpAndLinkRegister rd rs =>
    right
    cases h
    exact ⟨rs, rfl, rfl⟩
  | _ => cases h

theorem emitted_not_namesZero {name : Register → Identifier}
    (hn : ∀ r, (name r).storage = .register r) {host : Host} {i : Instruction} {id : Identifier}
    (h : id ∈ (emitted name host i).flatMap Transfer.identifiers) : ¬id.NamesZero := by
  obtain ⟨r, hr, rfl⟩ := List.mem_map.mp (mem_emitted h)
  unfold Identifier.NamesZero
  rw [hn]
  intro hz
  exact number_of_mem_named hr (Option.some.inj hz)

end Mips

structure Workspace.WithoutZero (w : Workspace) : Prop where
  frame : ∀ id ∈ w.frame.identifiers, ¬id.NamesZero
  knowledge : w.knowledge.get? 0 = none

theorem Workspace.WithoutZero.lift {w : Workspace} (h : w.WithoutZero) (host : Host)
    (i : Mips.Instruction) : (Mips.lift host i w).2.WithoutZero := by
  rw [Mips.lift_eq]
  refine ⟨?_, Mips.get?_zero_learned h.knowledge _ _⟩
  intro id hid
  rcases Frame.mem_ensureAll hid with hid | ⟨r, hr, rfl⟩
  · exact h.frame id hid
  · intro hz
    exact Mips.number_of_mem_named hr (Option.some.inj hz)

namespace Session

open Mips

variable {M : Type} {host : Host} {order : ByteOrder} {s : Session}

theorem withoutZero_take (ha : s.architecture = .mips order) (h : s.workspace.WithoutZero)
    (n : Nat) : (s.take host n).2.workspace.WithoutZero := by
  induction n generalizing s with
  | zero => exact h
  | succ n ih =>
    rw [take]
    cases hnext : s.next host with
    | none => exact h
    | some pulled =>
      obtain ⟨item, t⟩ := pulled
      cases item with
      | error e =>
        obtain ⟨-, -, -, rfl⟩ := next_eq_error_iff.mp hnext
        exact ih ha h
      | ok x =>
        obtain ⟨-, i, hi, -, rfl⟩ := next_eq_ok_iff.mp hnext
        rw [ha] at hi
        obtain ⟨w, op, -, -, rfl⟩ := Architecture.decode?_mips.mp hi
        exact ih ha (h.lift host _)

theorem not_namesZero_of_take (ha : s.architecture = .mips order) {n : Nat} {x : Cluster}
    (h : .ok x ∈ (s.take host n).1) {id : Identifier} (hid : id ∈ x.identifiers) :
    ¬id.NamesZero := by
  rw [take_eq_clusters] at h
  obtain ⟨m, hm⟩ := List.mem_iff_getElem?.mp h
  obtain ⟨i, hi, rfl⟩ := (clusters_eq_ok_iff _ _).mp hm
  obtain ⟨c, hc⟩ := Decoding.decode?_of_take (List.mem_of_getElem? hi)
  rw [show s.decoding.architecture = .mips order from ha] at hc
  obtain ⟨w, op, -, -, rfl⟩ := Architecture.decode?_mips.mp hc
  exact emitted_not_namesZero (Frame.nameOf_storage _) hid

theorem mem_transfers {items : List (Except DecodeError Cluster)} {id : Identifier}
    (h : id ∈ (transfers items).flatMap Transfer.identifiers) :
    ∃ x, .ok x ∈ items ∧ id ∈ x.identifiers := by
  obtain ⟨t, ht, hid⟩ := List.mem_flatMap.mp h
  obtain ⟨item, hitem, ht⟩ := List.mem_flatMap.mp ht
  cases item with
  | ok x => exact ⟨x, hitem, List.mem_flatMap.mpr ⟨t, ht, hid⟩⟩
  | error e => cases ht

theorem lifted_of_take (host : Host) {n m : Nat} {i : Mips.Instruction}
    (h : (s.decoding.take n).1[m]? = some (.ok (.mips i))) : ∃ w,
      (s.take host n).1[m]? = some (.ok ⟨i.address, i.length, (Mips.lift host i w).1⟩) := by
  let f := s.workspace.frame.after ((s.decoding.take n).1.take m)
  refine ⟨{ s.workspace with frame := f }, ?_⟩
  rw [take_eq_clusters]
  refine (clusters_eq_ok_iff _ _).mpr ⟨.mips i, h, ?_⟩
  rw [lift_eq]
  rfl

theorem take_without_zero (host : Host) (order : ByteOrder) (c : Cursor) {k : Knowledge}
    (hk : k.get? 0 = none) (n : Nat) :
    let a := Architecture.mips order
    let run := (start a c k a.emptyFrame).take host n
    (∀ x, .ok x ∈ run.1 → ∀ id ∈ x.identifiers, ¬id.NamesZero) ∧
      (∀ id ∈ run.2.workspace.frame.identifiers, ¬id.NamesZero) ∧
      run.2.workspace.knowledge.get? 0 = none ∧
      (∀ (m : Nat) i, ((Decoding.start a c).take n).1[m]? = some (.ok (.mips i)) → ∃ w,
        run.1[m]? = some (.ok ⟨i.address, i.length, (lift host i w).1⟩)) ∧
      (∀ i w, (∃ q, i.operation.Fresh q) ∧ ReadsZero host i w) ∧
      (∀ (o : Nat → Surroundings M) s y, executeAll o (transfers run.1) (s.put 0 y) =
        (executeAll o (transfers run.1) s).map (·.put 0 y)) ∧
      ∀ i w, i.operation.destination? = some zeroRegister →
        ((lift host i w).1 = [.nop] ∨
          ∃ rs, i.operation = .jumpAndLinkRegister zeroRegister rs ∧
            (lift host i w).1 = [.call (operand w.frame.nameOf rs) 0 callKind]) ∧
          ∀ (o : Nat → Surroundings M) s,
            -- A call leaves in the link register what the procedure called does.
            (∀ rs, i.operation = .jumpAndLinkRegister zeroRegister rs →
              ∀ m, (o m).link = s.registers returnAddress) →
            executeAll o (lift host i w).1 s = some s := by
  intro a run
  have hstart : (start a c k a.emptyFrame).workspace.WithoutZero :=
    ⟨fun id hid => absurd hid List.not_mem_nil, hk⟩
  have ha : (start a c k a.emptyFrame).architecture = .mips order := rfl
  have hrun : run.2.workspace.WithoutZero := withoutZero_take ha hstart n
  have hclusters : ∀ x, .ok x ∈ run.1 → ∀ id ∈ x.identifiers, ¬id.NamesZero :=
    fun x hx id hid => not_namesZero_of_take ha hx hid
  have hlifted (m : Nat) (i : Mips.Instruction)
      (hi : ((start a c k a.emptyFrame).decoding.take n).1[m]? = some (.ok (.mips i))) :=
    lifted_of_take host hi
  refine ⟨hclusters, hrun.frame, hrun.knowledge, hlifted,
    fun i w => ⟨i.operation.exists_fresh, lift_readsZero host i w⟩, ?_, ?_⟩
  · intro o s y
    apply executeAll_put (by decide)
    intro id hid
    obtain ⟨x, hx, hid⟩ := mem_transfers hid
    exact hclusters x hx id hid
  · intro i w hi
    obtain ⟨address, op⟩ := i
    have he := emitted_of_destination? w.frame.nameOf host address hi
    rw [lift_eq]
    refine ⟨he, ?_⟩
    intro o s hlink
    rcases he with he | ⟨rs, hop, he⟩
    · rw [he]
      rfl
    · have hput : s.put returnAddress (o 0).link = s := by
        rw [hlink rs hop 0]
        simp [Machine.put]
      rw [he]
      exact congrArg some hput

theorem take_without_zero_three : ∃ (host : Host) (c : Cursor) (k : Knowledge),
    ((Decoding.start (.mips .little) c).take 3).1 =
      [.ok (.mips ⟨.ptr32 0x10000, .arithmetic .addiu 1 0 5⟩),
        .ok (.mips ⟨.ptr32 0x10004, .load .lw 2 0 4⟩),
        .ok (.mips ⟨.ptr32 0x10008, .alu .addu 0 1 2⟩)] ∧
      k.get? 0 = none ∧
      ∃ run, run = (start (.mips .little) c k (Architecture.mips .little).emptyFrame).take host 3 ∧
        (∀ x, .ok x ∈ run.1 → ∀ id ∈ x.identifiers, ¬id.NamesZero) ∧
        run.2.workspace.knowledge.get? 0 = none ∧
        (∃ w : Workspace, run.1[1]? = some (.ok ⟨.ptr32 0x10004, 4,
          [.assignment (.identifier (w.frame.nameOf (Gpr.register 2)))
            (.memory (.constant (.word32 4)) .word32)]⟩)) ∧
        ∀ s : Machine (BitVec 32 → BitVec 8), executeAll (fun _ => bytewise)
          (lift host ⟨.ptr32 0x10008, .alu .addu 0 1 2⟩ run.2.workspace).1 s = some s := by
  refine ⟨⟨fun _ _ => none, fun _ => none⟩, ⟨⟨.ptr32 0x10000,
    [0x05, 0x00, 0x01, 0x24, 0x04, 0x00, 0x02, 0x8C, 0x21, 0x00, 0x22, 0x00]⟩, 0, .little⟩,
    Table.empty.insert 29 (.word32 0x7FFF0000), rfl, rfl, _, rfl, ?_⟩
  have h := take_without_zero (M := BitVec 32 → BitVec 8) ⟨fun _ _ => none, fun _ => none⟩ .little
    ⟨⟨.ptr32 0x10000, [0x05, 0x00, 0x01, 0x24, 0x04, 0x00, 0x02, 0x8C, 0x21, 0x00, 0x22, 0x00]⟩,
      0, .little⟩ (k := Table.empty.insert 29 (.word32 0x7FFF0000)) rfl 3
  obtain ⟨hnames, -, hknown, hitems, hreads, -, hwrites⟩ := h
  refine ⟨hnames, hknown, ?_, ?_⟩
  · obtain ⟨w, hw⟩ := hitems 1 ⟨.ptr32 0x10004, .load .lw 2 0 4⟩ rfl
    refine ⟨w, ?_⟩
    rw [hw, (hreads _ w).2.load .lw 2 4 rfl (by decide)]
    rfl
  · intro s
    refine (hwrites _ _ rfl).2 _ s ?_
    intro rs hop
    cases hop

end Session

end RegisterTransfer
