import RegisterTransfer.Proofs.ClusterForm
import RegisterTransfer.Proofs.Mips.KnownRegisters
import RegisterTransfer.Proofs.Mos6502.KnownRegisters

/-!
Runs with procedures in between. Lifting goes on after a call as if the callee had done nothing but
to use up the link register, so that what it has recorded is true afterwards exactly if the callee
has left the recorded registers as they were.
-/

namespace RegisterTransfer

namespace Session

def cluster? (host : Host) (r : Session) (n : Nat) : Option Cluster :=
  (Source.nth (next host) n r).bind Except.toOption

def known (host : Host) (r : Session) (n : Nat) : Knowledge :=
  (r.take host n).2.workspace.knowledge

def calls (host : Host) (r : Session) (n : Nat) : Bool :=
  (r.cluster? host n).any (·.kind.call)

def returnsAfter (host : Host) (r : Session) : Nat → Bool
  | 0 => !r.architecture.delays && r.calls host 0
  | n + 1 => r.calls host (if r.architecture.delays then n else n + 1)

theorem cluster?_cases (host : Host) (r : Session) (n : Nat) :
    (∃ c i f x, r.architecture.decode? c = some i ∧ r.cluster? host n = some x ∧
        x.transfers = i.emitted host f ∧ r.known host (n + 1) = i.learned f (r.known host n)) ∨
      r.cluster? host n = none ∧ r.known host (n + 1) = r.known host n := by
  have hitem := nth_eq host n r
  have hnext := take_succ_snd host n r
  have ha := architecture_take host n r
  unfold cluster? known
  rw [hitem, hnext]
  -- Both the item and what is known after it come from the session that the first pulls lead to.
  generalize (r.take host n).2 = t at ha ⊢
  cases ht : t.next host with
  | none =>
    right
    rw [Source.pull, ht]
    exact ⟨rfl, rfl⟩
  | some pulled =>
    obtain ⟨item, u⟩ := pulled
    have hp : Source.pull (next host) t = (some item, u) := by
      rw [Source.pull, ht]
    rw [hp]
    cases item with
    | error e =>
      obtain ⟨-, -, -, rfl⟩ := next_eq_error_iff.mp ht
      exact .inr ⟨rfl, rfl⟩
    | ok x =>
      obtain ⟨-, i, hi, rfl, rfl⟩ := next_eq_ok_iff.mp ht
      rw [ha] at hi
      have hl := i.lift_eq host t.workspace
      refine .inl ⟨t.cursor, i, t.workspace.frame, _, hi, rfl, ?_, ?_⟩
      · exact congrArg Prod.fst hl
      · exact congrArg (·.2.knowledge) hl

end Session

/-- How a machine goes through a run: what it makes of a cluster at a place, and what the callee
makes of it that returns there. -/
structure Course (σ : Type) where
  execute : Nat → List Transfer → σ → Option σ
  callee : Nat → σ → σ

namespace Course

variable {σ : Type}

def state (E : Course σ) (host : Host) (r : Session) (s : σ) : Nat → Option σ
  | 0 => some s
  | n + 1 =>
    (E.state host r s n).bind fun t =>
      match r.cluster? host n with
      | none => some t
      | some x =>
        (E.execute n x.transfers t).map fun u => if r.returnsAfter host n then E.callee n u else u

def CalledIn (E : Course σ) (host : Host) (r : Session) (s : σ) (n : Nat) (u : σ) : Prop :=
  r.returnsAfter host n ∧ ∃ x t, r.cluster? host n = some x ∧ E.state host r s n = some t ∧
    E.execute n x.transfers t = some u

/-- What is recorded holds after each instruction if it did before, as long as the state is valid;
callees leave it valid. -/
structure Tracks (E : Course σ) (a : Architecture) (Valid : σ → Prop) (Holds : Knowledge → σ → Prop)
    (Keeps : Knowledge → σ → σ → Prop) : Prop where
  step : ∀ c i, a.decode? c = some i → ∀ host f n s, Valid s →
    ∃ t, E.execute n (i.emitted host f) s = some t ∧ Valid t ∧
      ∀ k, Holds k s → Holds (i.learned f k) t
  callee : ∀ n s, Valid s → Valid (E.callee n s)
  keeps : ∀ k s t, Holds k s → (Holds k t ↔ Keeps k s t)

section
variable {E : Course σ} {a : Architecture} {Valid : σ → Prop} {Holds : Knowledge → σ → Prop}
  {Keeps : Knowledge → σ → σ → Prop} (h : E.Tracks a Valid Holds Keeps) (host : Host) {r : Session}
  (ha : r.architecture = a) {s : σ}

include h ha in
theorem exists_state (hs : Valid s) (n : Nat) :
    ∃ t, E.state host r s n = some t ∧ Valid t := by
  induction n with
  | zero => exact ⟨s, rfl, hs⟩
  | succ n ih =>
    obtain ⟨t, ht, hv⟩ := ih
    obtain ⟨c, i, f, x, hi, hx, hts, -⟩ | ⟨hx, -⟩ := r.cluster?_cases host n
    · rw [ha] at hi
      obtain ⟨u, hu, hvu, -⟩ := h.step c i hi host f n t hv
      refine ⟨if r.returnsAfter host n then E.callee n u else u, ?_, ?_⟩
      · simp only [state, ht, hx, hts, hu, Option.bind_some, Option.map_some]
      · by_cases hr : r.returnsAfter host n
        · rw [if_pos hr]
          exact h.callee n u hvu
        · rw [if_neg hr]
          exact hvu
    · refine ⟨t, ?_, hv⟩
      simp only [state, ht, hx, Option.bind_some]

include h ha in
theorem holds_succ_iff (hs : Valid s) {n : Nat}
    (hk : ∀ t, E.state host r s n = some t → Holds (r.known host n) t) :
    (∀ t, E.state host r s (n + 1) = some t → Holds (r.known host (n + 1)) t) ↔
      ∀ u, E.CalledIn host r s n u → Keeps (r.known host (n + 1)) u (E.callee n u) := by
  obtain ⟨t, ht, hv⟩ := exists_state h host ha hs n
  have hkt := hk t ht
  obtain ⟨c, i, f, x, hi, hx, hts, hknown⟩ | ⟨hx, hknown⟩ := r.cluster?_cases host n
  · rw [ha] at hi
    obtain ⟨u, hu, -, hlearn⟩ := h.step c i hi host f n t hv
    -- After the instruction what is recorded holds, so that it is up to the callee alone.
    have hku : Holds (r.known host (n + 1)) u := by
      rw [hknown]
      exact hlearn _ hkt
    have hstate : E.state host r s (n + 1) =
        some (if r.returnsAfter host n then E.callee n u else u) := by
      simp only [state, ht, hx, hts, hu, Option.bind_some, Option.map_some]
    rw [hstate]
    by_cases hr : r.returnsAfter host n
    · rw [if_pos hr]
      constructor
      · rintro hnext v ⟨-, y, w, hy, hw, hv⟩
        cases hx.symm.trans hy
        cases ht.symm.trans hw
        rw [hts, hu] at hv
        cases hv
        exact (h.keeps _ u _ hku).mp (hnext _ rfl)
      · rintro hkeeps _ ⟨⟩
        apply (h.keeps _ u _ hku).mpr
        exact hkeeps u ⟨hr, x, t, hx, ht, by rw [hts, hu]⟩
    · rw [if_neg hr]
      apply iff_of_true
      · rintro _ ⟨⟩
        exact hku
      · rintro v ⟨hreturns, -⟩
        exact absurd hreturns hr
  · have hstate : E.state host r s (n + 1) = some t := by
      simp only [state, ht, hx, Option.bind_some]
    rw [hstate, hknown]
    apply iff_of_true
    · rintro _ ⟨⟩
      exact hkt
    · rintro v ⟨-, y, -, hy, -⟩
      cases hx.symm.trans hy

include h ha in
theorem holds_iff_kept (hs : Valid s) (hk : Holds (r.known host 0) s) (N : Nat) :
    (∀ n ≤ N, ∀ t, E.state host r s n = some t → Holds (r.known host n) t) ↔
      ∀ n < N, ∀ u, E.CalledIn host r s n u →
        Keeps (r.known host (n + 1)) u (E.callee n u) := by
  -- A callee can break what is recorded only where it has held so far, so the whole prefix comes
  -- along in both directions.
  induction N with
  | zero =>
    apply iff_of_true
    · intro n hn t ht
      obtain rfl := Nat.le_zero.mp hn
      cases ht
      exact hk
    · intro n hn
      cases hn
  | succ N ih =>
    constructor
    · intro hall n hn
      rcases Nat.lt_succ_iff_lt_or_eq.mp hn with hlt | rfl
      · exact ih.mp (fun m hm => hall m (Nat.le_succ_of_le hm)) n hlt
      · exact (holds_succ_iff h host ha hs (hall n (Nat.le_succ n))).mp (hall (n + 1) hn)
    · intro hkept
      have hbefore := ih.mpr fun n hn => hkept n (Nat.lt_succ_of_lt hn)
      intro n hn
      rcases Nat.le_succ_iff.mp hn with hle | rfl
      · exact hbefore n hle
      · exact (holds_succ_iff h host ha hs (hbefore N (Nat.le_refl N))).mpr
          (hkept N (Nat.lt_succ_self N))

end

end Course

namespace Knowledge

variable {w : Nat} {k : Knowledge} {f g : Nat → BitVec w}

def KeptFrom (k : Knowledge) (before after : Nat → BitVec w) : Prop :=
  ∀ n, (k.get? n).isSome → after n = before n

theorem keptFrom_update {n : Nat} (h : k.get? n = none) (x : BitVec w) :
    k.KeptFrom f (Function.update f n x) := by
  intro m hm
  apply Function.update_of_ne
  rintro rfl
  rw [h] at hm
  cases hm

theorem forall_iff_keptFrom {R : Constant → BitVec w → Prop}
    (hR : ∀ c x y, R c x → R c y → y = x) (h : ∀ n c, k.get? n = some c → R c (f n)) :
    (∀ n c, k.get? n = some c → R c (g n)) ↔ k.KeptFrom f g := by
  constructor
  · intro hg n hn
    obtain ⟨c, hc⟩ := Option.isSome_iff_exists.mp hn
    exact hR c (f n) (g n) (h n c hc) (hg n c hc)
  · intro hkept n c hc
    rw [hkept n (Option.isSome_of_mem hc)]
    exact h n c hc

end Knowledge

namespace Mips

variable {M : Type}

def course (o : Nat → Nat → Surroundings M) (callee : Nat → Machine M → Machine M) :
    Course (Machine M) :=
  ⟨fun n => executeAll (o n), callee⟩

theorem heldBy_empty (s : Machine M) : Knowledge.HeldBy .empty s := by
  intro n c hc
  cases hc

theorem course_tracks (order : ByteOrder) (o : Nat → Nat → Surroundings M)
    {callee : Nat → Machine M → Machine M}
    (hz : ∀ n t, t.registers 0 = 0 → (callee n t).registers 0 = 0) :
    (course o callee).Tracks (.mips order) (·.registers 0 = 0) Knowledge.HeldBy
      fun k s t => k.KeptFrom s.registers t.registers where
  step c i hi host f n s h0 := by
    obtain ⟨w, op, -, -, rfl⟩ := Architecture.decode?_mips.mp hi
    have hn := f.nameOf_storage
    obtain ⟨t, ht, ht0, -⟩ :=
      emitted_upholds_learned hn (heldBy_empty s) h0 (o n) host c.address op
    refine ⟨t, ht, ht0, ?_⟩
    intro k hk
    obtain ⟨u, hu, -, hku⟩ := emitted_upholds_learned hn hk h0 (o n) host c.address op
    cases ht.symm.trans hu
    exact hku
  callee := hz
  keeps k s t h := by
    apply Knowledge.forall_iff_keptFrom (R := fun c x => c.pattern? 32 = some x) _ h
    intro c x y hx hy
    exact Option.some_inj.mp (hy.symm.trans hx)

end Mips

namespace Mos6502

def course (o : Nat → Nat → Surroundings) (callee : Nat → Machine → Machine) : Course Machine :=
  ⟨fun n => executeAll (o n), callee⟩

def Machine.ConfirmsOutsideStatus (s : Machine) (k : Knowledge) : Prop := s.Confirms (k.forget regP)

theorem get?_forget_status {k : Knowledge} {n : Nat} (hn : n ≠ regP.number) :
    (k.forget regP).get? n = k.get? n := by
  rw [Knowledge.forget, Table.get?_erase, if_neg (Ne.symm hn)]

theorem contents?_forget_status (k : Knowledge) : (k.forget regP).contents? regP = none := by
  rw [Knowledge.forget, Knowledge.contents?, Table.get?_erase, if_pos rfl]

theorem confirmsOutsideStatus_of_forall {k : Knowledge} {s : Machine}
    (h : ∀ n c, n ≠ regP.number → k.get? n = some c → c = .byte (s.registers n)) :
    s.ConfirmsOutsideStatus k where
  byte n c hc := by
    by_cases hn : n = regP.number
    · subst hn
      exact absurd (hc.symm.trans (contents?_forget_status k)) (Option.some_ne_none c)
    · rw [get?_forget_status hn] at hc
      exact h n c hn hc
  status := contents?_forget_status k

def AgreeOutsideStatus (k l : Knowledge) : Prop :=
  ∀ n, n ≠ regP.number → k.get? n = l.get? n

section
variable {k l : Knowledge} (h : AgreeOutsideStatus k l)

include h

theorem AgreeOutsideStatus.forgetAll (rs : List Register) :
    AgreeOutsideStatus (k.forgetAll rs) (l.forgetAll rs) := by
  induction rs generalizing k l with
  | nil => exact h
  | cons r rs ih =>
    apply ih
    intro n hn
    rw [Knowledge.forget, Knowledge.forget, Table.get?_erase, Table.get?_erase, h n hn]

theorem AgreeOutsideStatus.computed? (i : Instruction) : i.computed? k = i.computed? l := by
  unfold Instruction.computed?
  cases i.mnemonic.loads? with
  | some r => rfl
  | none =>
    cases hs : i.mnemonic.steps? with
    | none => rfl
    | some stepped =>
      obtain ⟨r, op⟩ := stepped
      have hr : k.contents? r = l.contents? r := h r.number (of_steps? hs).2
      simp only [Option.bind_some, hr]

theorem AgreeOutsideStatus.learned (i : Instruction) :
    AgreeOutsideStatus (i.learned k) (i.learned l) := by
  have hforget := h.forgetAll i.written
  unfold Instruction.learned
  rw [h.computed? i]
  cases i.computed? l with
  | none => exact hforget
  | some found =>
    intro n hn
    simp only [Option.elim_some, Knowledge.record, Table.get?_insert]
    rw [hforget n hn]

end

theorem confirmsOutsideStatus_learned {k : Knowledge} {i : Instruction} {t : Machine}
    (h : t.Confirms (i.learned (k.forget regP))) : t.ConfirmsOutsideStatus (i.learned k) := by
  have hagree : AgreeOutsideStatus k (k.forget regP) := fun n hn => (get?_forget_status hn).symm
  apply confirmsOutsideStatus_of_forall
  intro n c hn hc
  apply h.byte
  rw [← hagree.learned i n hn]
  exact hc

theorem course_tracks (o : Nat → Nat → Surroundings) (callee : Nat → Machine → Machine) :
    (course o callee).Tracks .mos6502 (fun _ => True) (fun k s => s.ConfirmsOutsideStatus k)
      fun k s t => (k.forget regP).KeptFrom s.registers t.registers where
  step c i hi host f n s _ := by
    obtain ⟨j, rfl, hadmits⟩ := Session.admits_of_decode? hi
    have hn := faithful_names f
    obtain ⟨t, ht, -⟩ := emitted_confined hn host hadmits (o n) s
    refine ⟨t, ht, trivial, ?_⟩
    intro k hk
    obtain ⟨u, hu, hku⟩ := emitted_confirms hn (o n) host hadmits hk
    cases ht.symm.trans hu
    exact confirmsOutsideStatus_learned hku
  callee _ _ _ := trivial
  keeps k s t h := by
    have hkept := Knowledge.forall_iff_keptFrom (g := t.registers)
      (R := fun c v => c = .byte v) (fun c x y hx hy => byte_injective (hy.symm.trans hx)) h.byte
    constructor
    · intro ht
      exact hkept.mp ht.byte
    · intro ht
      exact ⟨hkept.mpr ht, h.status⟩

end Mos6502

theorem recorded_survive_calls_iff (host : Host) (c : Cursor) (k : Knowledge) (f : Frame) :
    (∀ (M : Type) (order : ByteOrder) (o : Nat → Nat → Mips.Surroundings M)
      (callee : Nat → Mips.Machine M → Mips.Machine M) (s : Mips.Machine M),
      (∀ n t, t.registers 0 = 0 → (callee n t).registers 0 = 0) → s.registers 0 = 0 →
      k.HeldBy s →
      let r := Session.start (.mips order) c k f
      let E := Mips.course o callee
      (∀ n, ∃ t, E.state host r s n = some t) ∧ ∀ N,
        ((∀ n ≤ N, ∀ t, E.state host r s n = some t → (r.known host n).HeldBy t) ↔
          ∀ n < N, ∀ u, E.CalledIn host r s n u →
            (r.known host (n + 1)).KeptFrom u.registers (callee n u).registers)) ∧
    ∀ (o : Nat → Nat → Mos6502.Surroundings) (callee : Nat → Mos6502.Machine → Mos6502.Machine)
      (s : Mos6502.Machine), s.ConfirmsOutsideStatus k →
      let r := Session.start .mos6502 c k f
      let E := Mos6502.course o callee
      (∀ n, ∃ t, E.state host r s n = some t) ∧ ∀ N,
        ((∀ n ≤ N, ∀ t, E.state host r s n = some t →
            t.ConfirmsOutsideStatus (r.known host n)) ↔
          ∀ n < N, ∀ u, E.CalledIn host r s n u →
            ((r.known host (n + 1)).forget Mos6502.regP).KeptFrom u.registers
              (callee n u).registers) := by
  constructor
  · intro M order o callee s hz h0 hk r E
    have htracks := Mips.course_tracks order o hz
    refine ⟨?_, Course.holds_iff_kept htracks host rfl h0 hk⟩
    intro n
    obtain ⟨t, ht, -⟩ := Course.exists_state htracks host (r := r) rfl h0 n
    exact ⟨t, ht⟩
  · intro o callee s hk r E
    have htracks := Mos6502.course_tracks o callee
    refine ⟨?_, Course.holds_iff_kept htracks host rfl trivial hk⟩
    intro n
    obtain ⟨t, ht, -⟩ := Course.exists_state htracks host (r := r) rfl trivial n
    exact ⟨t, ht⟩

theorem recorded_survive_calls :
    let host : Host := ⟨fun _ _ => none, fun _ => none⟩
    let c : Cursor := ⟨⟨.ptr32 0x400000,
      [0x40, 0x00, 0x10, 0x3C, 0x80, 0x00, 0x10, 0x0C, 0x00, 0x00, 0x00, 0x00]⟩, 0, .little⟩
    let d : Cursor := ⟨⟨.ptr16 0x0800, [0xA2, 0x05, 0x20, 0x34, 0x12, 0xE8]⟩, 0, .little⟩
    (∃ t, (Mips.course (fun _ _ => Mips.bytewise) fun _ t => t.put 2 7).state host
        (Session.start (.mips .little) c .empty (.empty 32)) ⟨fun _ => 0, fun _ => 0⟩ 3 = some t ∧
      t.registers 2 = 7 ∧ t.registers 16 = 0x400000) ∧
    ∃ t, (Mos6502.course (fun _ _ => Mos6502.rotating) fun _ t => t.put 0 7).state host
        (Session.start .mos6502 d .empty (.empty 16)) ⟨fun _ => 0, fun _ => 0, fun _ => 0⟩ 3 =
          some t ∧ t.a = 7 ∧ t.x = 6 := by
  intro host c d
  constructor
  · have hunknown : ∀ n < 3, ((Session.start (.mips .little) c .empty (.empty 32)).known host
        (n + 1)).get? 2 = none := by decide
    obtain ⟨hstates, hiff⟩ := (recorded_survive_calls_iff host c .empty (.empty 32)).1 _ .little
      (fun _ _ => Mips.bytewise) (fun _ t => t.put 2 7) ⟨fun _ => 0, fun _ => 0⟩
      (fun _ _ ht => (Mips.Machine.put_of_ne (by decide) 7).trans ht) rfl (Mips.heldBy_empty _)
    obtain ⟨t, ht⟩ := hstates 3
    have hheld := (hiff 3).mpr (fun n hn _ _ => Knowledge.keptFrom_update (hunknown n hn) 7)
      3 (Nat.le_refl 3) t ht
    have h2 : ((Mips.course (fun _ _ => Mips.bytewise) fun _ t => t.put 2 7).state host
        (Session.start (.mips .little) c .empty (.empty 32)) ⟨fun _ => 0, fun _ => 0⟩ 3).map
          (·.registers 2) = some 7 := by decide
    rw [ht, Option.map_some, Option.some_inj] at h2
    have h16 := hheld 16 (.word32 0x400000) (by decide)
    rw [Constant.pattern?_word32, Option.some_inj] at h16
    exact ⟨t, ht, h2, h16.symm⟩
  · have hunknown : ∀ n < 3, (((Session.start .mos6502 d .empty (.empty 16)).known host
        (n + 1)).forget Mos6502.regP).get? 0 = none := by decide
    obtain ⟨hstates, hiff⟩ := (recorded_survive_calls_iff host d .empty (.empty 16)).2
      (fun _ _ => Mos6502.rotating) (fun _ t => t.put 0 7) ⟨fun _ => 0, fun _ => 0, fun _ => 0⟩
      (Mos6502.confirmsOutsideStatus_of_forall fun _ _ _ hc => nomatch hc)
    obtain ⟨t, ht⟩ := hstates 3
    have hheld := (hiff 3).mpr (fun n hn _ _ => Knowledge.keptFrom_update (hunknown n hn) 7)
      3 (Nat.le_refl 3) t ht
    have ha : ((Mos6502.course (fun _ _ => Mos6502.rotating) fun _ t => t.put 0 7).state host
        (Session.start .mos6502 d .empty (.empty 16)) ⟨fun _ => 0, fun _ => 0, fun _ => 0⟩ 3).map
          Mos6502.Machine.a = some 7 := by decide
    rw [ht, Option.map_some, Option.some_inj] at ha
    have hx := hheld.byte Mos6502.regX.number (.byte 6) (by decide)
    exact ⟨t, ht, ha, (Mos6502.byte_injective hx).symm⟩

def Mips.scratch : List Nat := List.range' 2 14 ++ [24, 25, 31, 32, 33]

theorem call_leaves_overwritten_recorded :
    let host : Host := ⟨fun _ _ => none, fun _ => none⟩
    let r := Session.start (.mips .little) ⟨⟨.ptr32 0x400000,
      [0x40, 0x00, 0x02, 0x3C, 0x80, 0x00, 0x10, 0x0C, 0x00, 0x00, 0x00, 0x00]⟩, 0, .little⟩
      .empty (.empty 32)
    let callee : Nat → Mips.Machine (BitVec 32 → BitVec 8) → Mips.Machine (BitVec 32 → BitVec 8) :=
      fun _ t => t.put 2 0
    let E := Mips.course (fun _ _ => Mips.bytewise) callee
    (∀ n t m, m ∉ Mips.scratch → (callee n t).registers m = t.registers m) ∧
      (r.known host 3).get? 2 = some (.word32 0x400000) ∧
      (E.state host r ⟨fun _ => 0, fun _ => 0⟩ 3).map (·.registers 2) = some 0 := by
  intro host r callee E
  refine ⟨?_, by decide, by decide⟩
  intro n t m hm
  apply Mips.Machine.put_of_ne
  rintro rfl
  exact hm (by decide)

end RegisterTransfer
