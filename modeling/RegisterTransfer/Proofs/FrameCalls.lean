import RegisterTransfer.Proofs.Coherence

namespace RegisterTransfer.Frame

inductive Call where
  | register (r : Register)
  | flagGroup (r : Register) (mask : Nat) (name : String)
  | temporary (t : DataType)
deriving DecidableEq, Repr

namespace Call

def run (f : Frame) : Call → Identifier × Frame
  | .register r => f.ensureRegister r
  | .flagGroup r mask name => f.ensureFlagGroup r mask name
  | .temporary t => f.createTemporary t

def ensured? : Call → Option Identifier
  | .register r => some (.ofRegister r)
  | .flagGroup r mask name =>
    some ⟨name, if population mask = 1 then .bool else .byte, .flagGroup r mask⟩
  | .temporary _ => none

def type? : Call → Option DataType
  | .temporary t => some t
  | _ => none

end Call

def runAll (f : Frame) : List Call → Frame
  | [] => f
  | c :: calls => (c.run f).2.runAll calls

def created (f : Frame) : List Call → List Identifier
  | [] => []
  | c :: calls => (c.type?.map fun _ => (c.run f).1).toList ++ (c.run f).2.created calls

def temporary (n : Nat) (t : DataType) : Identifier := ⟨s!"v{n}", t, .temporary n⟩

def isTemporary (id : Identifier) : Bool :=
  match id.storage with
  | .temporary _ => true
  | _ => false

variable {f : Frame} {c : Call} {id held : Identifier}

theorem Call.run_of_ensured? (h : c.ensured? = some id) (f : Frame) : c.run f = f.ensure id := by
  cases c with
  | temporary t => cases h
  | register r =>
    cases h
    rfl
  | flagGroup r mask name =>
    cases h
    rfl

theorem Call.storage_ne_temporary (h : c.ensured? = some id) (n : Nat) :
    id.storage ≠ .temporary n := by
  cases c with
  | temporary t => cases h
  | register r =>
    cases h
    exact Storage.noConfusion
  | flagGroup r mask name =>
    cases h
    exact Storage.noConfusion

theorem Call.ensured?_or_temporary (c : Call) :
    (∃ id, c.ensured? = some id ∧ c.type? = none) ∨ ∃ t, c = .temporary t := by
  cases c with
  | register r => exact .inl ⟨_, rfl, rfl⟩
  | flagGroup r mask name => exact .inl ⟨_, rfl, rfl⟩
  | temporary t => exact .inr ⟨t, rfl⟩

theorem identifiers_run (f : Frame) (c : Call) : f.identifiers <+: (c.run f).2.identifiers := by
  obtain ⟨id, hid, -⟩ | ⟨t, rfl⟩ := c.ensured?_or_temporary
  · rw [c.run_of_ensured? hid]
    exact identifiers_ensure f id
  · exact List.prefix_append _ _

theorem Coherent.ensure_held (h : f.Coherent) (hheld : held ∈ f.identifiers)
    (hs : held.storage = id.storage) : f.ensure id = (held, f) := by
  unfold Frame.ensure
  cases hf : f.find? id.storage with
  | none => exact absurd hs (find?_eq_none_iff.mp hf held hheld)
  | some found =>
    have hfound : found.storage = id.storage := by simpa [find?] using List.find?_some hf
    rw [h.eq_of_storage_eq (List.mem_of_find?_eq_some hf) hheld (hfound.trans hs.symm)]

theorem ensure_new (h : ∀ held ∈ f.identifiers, held.storage ≠ id.storage) :
    f.ensure id = (id, f.push id) := by
  unfold Frame.ensure
  rw [find?_eq_none_iff.mpr h]

theorem Coherent.run (h : f.Coherent) (c : Call) : (c.run f).2.Coherent := by
  obtain ⟨id, hid, -⟩ | ⟨t, rfl⟩ := c.ensured?_or_temporary
  · rw [c.run_of_ensured? hid]
    exact h.ensure (c.storage_ne_temporary hid)
  · exact h.createTemporary t

theorem identifiers_runAll (f : Frame) (calls : List Call) :
    f.identifiers <+: (f.runAll calls).identifiers := by
  induction calls generalizing f with
  | nil => exact List.prefix_refl _
  | cons c calls ih => exact (identifiers_run f c).trans (ih _)

theorem Coherent.runAll (h : f.Coherent) (calls : List Call) : (f.runAll calls).Coherent := by
  induction calls generalizing f with
  | nil => exact h
  | cons c calls ih => exact ih (h.run c)

theorem Coherent.ensure_later (h : f.Coherent) (hid : c.ensured? = some id) {d : Call}
    {other : Identifier} (hother : d.ensured? = some other) (hs : id.storage = other.storage)
    (calls : List Call) : (d.run ((c.run f).2.runAll calls)).1 = (c.run f).1 := by
  rw [c.run_of_ensured? hid, d.run_of_ensured? hother]
  have hg : ((f.ensure id).2.runAll calls).Coherent :=
    (h.ensure (c.storage_ne_temporary hid)).runAll calls
  have hmem : (f.ensure id).1 ∈ ((f.ensure id).2.runAll calls).identifiers :=
    (identifiers_runAll _ calls).subset mem_ensure
  rw [hg.ensure_held hmem ((storage_ensure f id).trans hs)]

theorem created_eq_mapIdx (f : Frame) (calls : List Call) :
    f.created calls =
      (calls.filterMap Call.type?).mapIdx fun n t => temporary (f.nextTemporary + n) t := by
  -- Only a call for a temporary moves the counter, which is where the next one takes its number.
  induction calls generalizing f with
  | nil => rfl
  | cons c calls ih =>
    rw [created, ih]
    obtain ⟨id, hid, ht⟩ | ⟨t, rfl⟩ := c.ensured?_or_temporary
    · have hn : (c.run f).2.nextTemporary = f.nextTemporary := by
        rw [c.run_of_ensured? hid]
        exact nextTemporary_ensure f id
      rw [hn, List.filterMap_cons_none ht, ht]
      rfl
    · have ht : (Call.temporary t).type? = some t := rfl
      have hn : ∀ n, ((Call.temporary t).run f).2.nextTemporary + n = f.nextTemporary + (n + 1) := by
        intro n
        change f.nextTemporary + 1 + n = _
        omega
      rw [List.filterMap_cons_some ht, List.mapIdx_cons]
      simp only [hn]
      rfl

theorem temporaries_run (f : Frame) (c : Call) :
    (c.run f).2.identifiers.filter isTemporary =
      f.identifiers.filter isTemporary ++ (c.type?.map fun _ => (c.run f).1).toList := by
  obtain ⟨id, hid, ht⟩ | ⟨t, rfl⟩ := c.ensured?_or_temporary
  · have hi : isTemporary id = false := by
      unfold isTemporary
      split
      next n hn => exact absurd hn (c.storage_ne_temporary hid n)
      next => rfl
    rw [c.run_of_ensured? hid, ht]
    unfold Frame.ensure
    split
    · simp
    · simp [Frame.push, hi]
  · exact List.filter_append _ _

theorem temporaries_runAll (f : Frame) (calls : List Call) :
    (f.runAll calls).identifiers.filter isTemporary =
      f.identifiers.filter isTemporary ++ f.created calls := by
  induction calls generalizing f with
  | nil => exact (List.append_nil _).symm
  | cons c calls ih => rw [runAll, ih, temporaries_run, created, List.append_assoc]

/-- After any calls, each storage has one identifier. The next call adds one behind the others if
it asks for a storage without an identifier or for a temporary, and returns the one that is there
otherwise. -/
theorem calls_keep_identifiers (wordBits : Nat) (calls : List Call) :
    let f := (empty wordBits).runAll calls
    (f.identifiers.map Identifier.storage).Nodup ∧
    (∀ c : Call, f.identifiers <+: (c.run f).2.identifiers) ∧
    (∀ (c : Call) id, c.ensured? = some id →
      (∀ held ∈ f.identifiers, held.storage = id.storage → c.run f = (held, f)) ∧
      ((∀ held ∈ f.identifiers, held.storage ≠ id.storage) → c.run f = (id, f.push id)) ∧
      ∀ (later : List Call) (d : Call) other, d.ensured? = some other →
        id.storage = other.storage → (d.run ((c.run f).2.runAll later)).1 = (c.run f).1) ∧
    (empty wordBits).created calls = (calls.filterMap Call.type?).mapIdx temporary ∧
    f.identifiers.filter isTemporary = (empty wordBits).created calls ∧
    ((empty wordBits).created calls).Nodup := by
  intro f
  have hf : f.Coherent := (Built.empty wordBits).coherent.runAll calls
  have hcreated : f.identifiers.filter isTemporary = (empty wordBits).created calls :=
    temporaries_runAll (empty wordBits) calls
  refine ⟨hf.distinct, identifiers_run f, ?_, ?_, hcreated, ?_⟩
  · intro c id hid
    refine ⟨?_, ?_, ?_⟩
    · intro held hheld hs
      rw [c.run_of_ensured? hid, hf.ensure_held hheld hs]
    · intro hnew
      rw [c.run_of_ensured? hid, ensure_new hnew]
    · intro later d other hother hs
      exact hf.ensure_later hid hother hs later
  · simpa only [empty, Nat.zero_add] using created_eq_mapIdx (empty wordBits) calls
  · rw [← hcreated]
    exact (List.Nodup.of_map _ hf.distinct).filter _

theorem calls_keep_identifiers_two_groups :
    let p := Mos6502.regP
    let calls : List Call :=
      [.flagGroup p 1 "C", .temporary .byte, .flagGroup p 3 "ZC", .temporary .bool]
    let f := (empty 16).runAll calls
    (Call.flagGroup p 1 "carry").run f = (⟨"C", .bool, .flagGroup p 1⟩, f) ∧
      (Call.register p).run f = (.ofRegister p, f.push (.ofRegister p)) ∧
      (empty 16).created calls = [temporary 0 .byte, temporary 1 .bool] := by
  intro p calls f
  obtain ⟨-, -, hensured, hcreated, -⟩ := calls_keep_identifiers 16 calls
  obtain ⟨hheld, -⟩ := hensured (.flagGroup p 1 "carry") _ rfl
  obtain ⟨-, hnew, -⟩ := hensured (.register p) _ rfl
  exact ⟨hheld _ (by decide +kernel) rfl, hnew (by decide +kernel), hcreated⟩

end RegisterTransfer.Frame
