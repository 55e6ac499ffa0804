import RegisterTransfer.Platform
import RegisterTransfer.Proofs.Mips.Inversion
import RegisterTransfer.Proofs.Mips.Sources
import RegisterTransfer.Proofs.Pattern
import RegisterTransfer.Proofs.Session

namespace RegisterTransfer

namespace ImportStub

def stub (x y : Identifier) (hi lo : Constant) (t : DataType) : List Transfer :=
  [.assignment (.identifier x) (.constant hi),
    .assignment (.identifier y)
      (.memory (.binary .iadd t (.identifier x) (.constant lo)) .word32),
    .goto (.identifier y) .delayed]

section
variable (r0d r1d r1s r2s : Identifier) (hi lo : Constant)

def captured : Captures :=
  ((((((Table.empty : Captures).insert "r0d" (.identifier r0d)).insert "hi" (.constant hi)).insert
    "r1d" (.identifier r1d)).insert "r1s" (.identifier r1s)).insert "lo" (.constant lo)).insert
      "r2s" (.identifier r2s)

theorem matchSequence?_patterns {transfers : List Transfer} {c : Captures} :
    TransferPattern.matchSequence? patterns transfers = some c ↔
      ∃ r0d r1d r1s r2s hi lo t rest, transfers =
          [.assignment (.identifier r0d) (.constant hi),
            .assignment (.identifier r1d)
              (.memory (.binary .iadd t (.identifier r1s) (.constant lo)) .word32),
            .goto (.identifier r2s) .delayed] ++ rest ∧
        c = captured r0d r1d r1s r2s hi lo := by
  constructor
  · intro h
    simp only [TransferPattern.matchSequence?, patterns, TransferPattern.extendAll_cons,
      TransferPattern.extend_assignment, TransferPattern.extend_goto, Pattern.extend_anyIdentifier,
      Pattern.extend_anyConstant, Pattern.extend_memory, Pattern.extend_binary,
      TransferPattern.extendAll] at h
    obtain ⟨_, _, _, rfl, ⟨_, _, _, rfl, ⟨r0d, rfl, h₁⟩, hi, rfl, h₂⟩, _, _, _, rfl, h, h'⟩ := h
    obtain ⟨_, _, _, rfl, ⟨r1d, rfl, h₃⟩, _, u, rfl, hu, t, _, _, _, rfl, -, hs, lo, rfl, h₅⟩ := h
    obtain ⟨r1s, rfl, h₄⟩ := hs
    obtain ⟨_, rest, _, rfl, ⟨_, rfl, r2s, rfl, h₆⟩, hc⟩ := h'
    -- No name is bound before its turn.
    cases h₁
    cases h₂
    cases h₃
    cases h₄
    cases h₅
    cases h₆
    cases hc
    obtain rfl : u = .word32 := by
      cases u <;> first | rfl | cases hu
    exact ⟨r0d, r1d, r1s, r2s, hi, lo, t, rest, rfl, rfl⟩
  · rintro ⟨r0d, r1d, r1s, r2s, hi, lo, t, rest, rfl, rfl⟩
    rfl

theorem chains_captured :
    chains (captured r0d r1d r1s r2s hi lo) = true ↔ r0d = r1s ∧ r1d = r2s := by
  have h₁ : (captured r0d r1d r1s r2s hi lo).get? "r0d" = some (.identifier r0d) := rfl
  have h₂ : (captured r0d r1d r1s r2s hi lo).get? "r1s" = some (.identifier r1s) := rfl
  have h₃ : (captured r0d r1d r1s r2s hi lo).get? "r1d" = some (.identifier r1d) := rfl
  have h₄ : (captured r0d r1d r1s r2s hi lo).get? "r2s" = some (.identifier r2s) := rfl
  simp only [chains, h₁, h₂, h₃, h₄, Bool.and_eq_true, beq_iff_eq, Option.some.injEq,
    Expression.identifier.injEq]

end

theorem slot?_eq_some_iff {a : Architecture} {transfers : List Transfer} {slot : Address} :
    slot? a transfers = some slot ↔
      ∃ x y hi lo t rest, transfers = stub x y hi lo t ++ rest ∧
        slot = a.addressOfConstant (Operator.iadd.fold hi lo) := by
  constructor
  · intro h
    obtain ⟨c, hc, h⟩ := Option.bind_eq_some_iff.mp h
    obtain ⟨x, y, x', y', hi, lo, t, rest, rfl, rfl⟩ := matchSequence?_patterns.mp hc
    by_cases hg : chains (captured x y x' y' hi lo) = true
    · obtain ⟨rfl, rfl⟩ := (chains_captured x y x' y' hi lo).mp hg
      rw [hg] at h
      cases h
      exact ⟨x, y, hi, lo, t, rest, rfl, rfl⟩
    · rw [Bool.not_eq_true _ |>.mp hg] at h
      cases h
  · rintro ⟨x, y, hi, lo, t, rest, rfl, rfl⟩
    have hc : TransferPattern.matchSequence? patterns (stub x y hi lo t ++ rest) =
        some (captured x y x y hi lo) :=
      matchSequence?_patterns.mpr ⟨x, y, x, y, hi, lo, t, rest, rfl, rfl⟩
    have hg := (chains_captured x y x y hi lo).mpr ⟨rfl, rfl⟩
    rw [slot?, hc, Option.bind_eq_bind, Option.bind_some, hg]
    rfl

theorem resolve_fst (host : Host) (slot continuation : Address) (w : Workspace) :
    (resolve host slot continuation w).1 =
      (host.imported slot continuation).or (host.intercepted slot) := by
  simp only [resolve, Lifting.bind_apply, Lifting.askImported]
  cases host.imported slot continuation with
  | some procedure => rfl
  | none => rfl

theorem destination_eq_some_iff {host : Host} {a : Architecture} {c : Cursor} {p : Procedure} :
    (destination host a c).1 = some p ↔
      ∃ x y z slot, clusters? ((Session.fresh a c).take host length).1 = some [x, y, z] ∧
        slot? a (x.transfers ++ y.transfers ++ z.transfers) = some slot ∧
        (host.imported slot z.address).or (host.intercepted slot) = some p := by
  unfold destination
  constructor
  · intro h
    simp only at h
    split at h
    · rename_i x y z hc
      split at h
      · rename_i slot hs
        exact ⟨x, y, z, slot, hc, hs, (resolve_fst host slot z.address _).symm.trans h⟩
      · cases h
    · cases h
  · rintro ⟨x, y, z, slot, hc, hs, hp⟩
    simp only [hc, hs]
    exact (resolve_fst host slot z.address _).trans hp

inductive Spells (host : Host) (name : Register → Identifier) : Cursor → List Cluster → Prop
  | nil (c : Cursor) : Spells host name c []
  | cons {c : Cursor} {w : BitVec 32} {op : Mips.Operation} {xs : List Cluster}
      (hw : c.peek32 0 = .ok w) (hop : Mips.decode c.address w = some op)
      (hxs : Spells host name (c.advance 4) xs) :
      Spells host name c (⟨c.address, 4, Mips.emitted name host ⟨c.address, op⟩⟩ :: xs)

theorem clusters?_take_succ {host : Host} {s : Session} {n : Nat} {x : Cluster}
    {xs : List Cluster} :
    clusters? (s.take host (n + 1)).1 = some (x :: xs) ↔
      ∃ t, s.next host = some (.ok x, t) ∧ clusters? (t.take host n).1 = some xs := by
  rw [Session.take]
  cases s.next host with
  | none => simp [clusters?]
  | some pulled =>
    obtain ⟨item, t⟩ := pulled
    cases item with
    | error => simp [clusters?]
    | ok y =>
      simp only [clusters?, Option.map_eq_some_iff, List.cons.injEq, Option.some.injEq,
        Prod.mk.injEq, Except.ok.injEq]
      constructor
      · rintro ⟨ys, hys, rfl, rfl⟩
        exact ⟨t, ⟨rfl, rfl⟩, hys⟩
      · rintro ⟨_, ⟨rfl, rfl⟩, hxs⟩
        exact ⟨xs, hxs, rfl, rfl⟩

theorem clusters?_take_iff {host : Host} {order : ByteOrder} {s : Session} {xs : List Cluster}
    (ha : s.architecture = .mips order) (hf : s.failed = false)
    (hs : s.cursor.image.size ≤ Cursor.maxOffset) :
    clusters? (s.take host xs.length).1 = some xs ↔
      Spells host s.workspace.frame.nameOf s.cursor xs := by
  -- A session that delivers a cluster is not over, and neither is one that has a word left.
  induction xs generalizing s with
  | nil => exact iff_of_true rfl (.nil _)
  | cons x xs ih =>
    rw [List.length_cons, clusters?_take_succ]
    constructor
    · rintro ⟨t, hn, ht⟩
      obtain ⟨_, i, hi, rfl, rfl⟩ := Session.next_eq_ok_iff.mp hn
      rw [ha] at hi
      obtain ⟨w, op, hw, hop, rfl⟩ := Architecture.decode?_mips.mp hi
      have hxs := (ih (s := s.past host (.mips ⟨s.cursor.address, op⟩)) ha hf hs).mp ht
      rw [Session.nameOf_past] at hxs
      rw [Session.cluster_mips]
      exact .cons hw hop hxs
    · intro h
      cases h with
      | cons hw hop hxs =>
        rename_i w op
        have hend : s.cursor.isAtEnd = false := by
          have := Cursor.size_of_peek32 hw hs
          have hr : s.cursor.remaining ≠ 0 := by
            unfold Cursor.remaining
            omega
          exact beq_false_of_ne hr
        have hi : s.architecture.decode? s.cursor = some (.mips ⟨s.cursor.address, op⟩) := by
          rw [ha]
          exact Architecture.decode?_mips.mpr ⟨w, op, hw, hop, rfl⟩
        refine ⟨s.past host (.mips ⟨s.cursor.address, op⟩), ?_, ?_⟩
        · apply Session.next_eq_ok_iff.mpr
          exact ⟨by rw [hf, hend]; rfl, _, hi, (Session.cluster_mips host s ⟨_, op⟩).symm, rfl⟩
        · apply (ih (s := s.past host (.mips ⟨s.cursor.address, op⟩)) ha hf hs).mpr
          rw [Session.nameOf_past]
          exact hxs

open Mips in
theorem emitted_eq_stub_iff {name : Register → Identifier}
    (hn : ∀ r, (name r).storage = .register r) {host : Host} {order : ByteOrder} (a b c : Address)
    {f g h : Operation} {slot : Address} :
    slot? (.mips order) (emitted name host ⟨a, f⟩ ++ emitted name host ⟨b, g⟩ ++
        emitted name host ⟨c, h⟩) = some slot ↔
      ∃ rX rY value offset, LoadsConstant f rX value ∧ rX ≠ zeroRegister ∧
        g = .load .lw rY rX offset ∧ rY ≠ zeroRegister ∧
        h = .jumpRegister rY ∧ rY ≠ returnAddress ∧
        slot = .ptr32 (value + offset.signExtend 32).toNat := by
  have hinj {r q : Register} (e : name r = name q) : r.number = q.number := by
    have := hn r
    rw [e, hn q] at this
    cases this
    rfl
  have hslot (value lo : BitVec 32) : (Architecture.mips order).addressOfConstant
      (Operator.iadd.fold (.word32 value) (.int32 lo)) = .ptr32 (value + lo).toNat := by
    rw [fold_int32, fold_iadd]
    rfl
  rw [slot?_eq_some_iff, List.append_assoc]
  constructor
  · rintro ⟨x, y, hi, lo, t, rest, he, rfl⟩
    obtain ⟨he₁, hf⟩ := emitted_eq_constant he
    obtain ⟨he₂, rY, base, offset, rfl, hY, -, rfl, rfl, rfl⟩ := emitted_eq_load he₁
    rw [← List.append_nil (emitted name host ⟨c, h⟩)] at he₂
    obtain ⟨rs, rfl, -, hra, hY'⟩ := emitted_eq_goto he₂
    have hrs : rY = rs := Fin.ext (by simpa [Gpr.register] using hinj hY')
    subst hrs
    obtain ⟨rX, value, hload, hX, hbase, rfl⟩ | ⟨half, hbase⟩ := hf
    · have hb : base = rX := Fin.ext (by simpa [Gpr.register] using hinj hbase)
      subst hb
      exact ⟨base, rY, value, offset, hload, hX, rfl, hY, rfl, hra, hslot value _⟩
    · -- The base of a load is no half of a product.
      have hb := hinj hbase
      have := base.isLt
      cases half <;> simp [Gpr.register, HiLo.register] at hb <;> omega
  · rintro ⟨rX, rY, value, offset, hload, hX, rfl, hY, rfl, hra, rfl⟩
    refine ⟨name rX.register, name rY.register, .word32 value, .int32 (offset.signExtend 32),
      .word32, [], ?_, (hslot value _).symm⟩
    rw [emitted_of_loadsConstant hload hX]
    simp [emitted, setting, LoadOp.source, place, operand, stub, hX, hY, hra]

theorem stubDestination_eq_some_iff (host : Host) (order : ByteOrder) (c : Cursor)
    (hs : c.image.size ≤ Cursor.maxOffset) (p : Procedure) :
    ((Platform.winMips order).stubDestination host c).1 = some p ↔
      12 ≤ c.remaining ∧ ∃ w₀ w₁ w₂ op rX rY value offset,
        c.peek32 0 = .ok w₀ ∧ c.peek32 4 = .ok w₁ ∧ c.peek32 8 = .ok w₂ ∧
        Mips.decode c.address w₀ = some op ∧ Mips.LoadsConstant op rX value ∧
        rX ≠ Mips.zeroRegister ∧
        Mips.decode (c.address.addOffset 4) w₁ = some (.load .lw rY rX offset) ∧
        rY ≠ Mips.zeroRegister ∧
        Mips.decode (c.address.addOffset 8) w₂ = some (.jumpRegister rY) ∧
        rY ≠ Mips.returnAddress ∧
        (host.imported (.ptr32 (value + offset.signExtend 32).toNat) (c.address.addOffset 8)).or
          (host.intercepted (.ptr32 (value + offset.signExtend 32).toNat)) = some p := by
  have hn : ∀ r, (Identifier.ofRegister r).storage = .register r := fun _ => rfl
  have hname : (Session.fresh (.mips order) c).workspace.frame.nameOf = Identifier.ofRegister :=
    Frame.nameOf_empty _
  have hpull (xs : List Cluster) :
      clusters? ((Session.fresh (.mips order) c).take host xs.length).1 = some xs ↔
        Spells host Identifier.ofRegister c xs := by
    rw [← hname]
    exact clusters?_take_iff rfl rfl hs
  have h₄ : (c.advance 4).address = c.address.addOffset 4 := Cursor.address_advance c 4
  have h₈ : ((c.advance 4).advance 4).address = c.address.addOffset 8 := Cursor.address_advance c 8
  have p₄ : (c.advance 4).peek32 0 = c.peek32 4 := Cursor.peek32_advance c 4 0
  have p₈ : ((c.advance 4).advance 4).peek32 0 = c.peek32 8 := Cursor.peek32_advance c 8 0
  rw [Platform.stubDestination, destination_eq_some_iff]
  -- Both sides are taken word by word, each at the place that the words before it lead to.
  constructor
  · rintro ⟨x, y, z, slot, hx, hslot, hp⟩
    cases (hpull [x, y, z]).mp hx with
    | cons hw₀ hop₀ hrest =>
      cases hrest with
      | cons hw₁ hop₁ hrest =>
        cases hrest with
        | cons hw₂ hop₂ _ =>
          obtain ⟨rX, rY, value, offset, hload, hX, rfl, hY, rfl, hra, rfl⟩ :=
            (emitted_eq_stub_iff hn _ _ _).mp hslot
          rw [p₄] at hw₁
          rw [h₄] at hop₁
          rw [p₈] at hw₂
          rw [h₈] at hop₂
          rw [h₈] at hp
          have hsize := Cursor.size_of_peek32 hw₂ hs
          have hr : 12 ≤ c.remaining := by
            unfold Cursor.remaining
            omega
          exact ⟨hr, _, _, _, _, rX, rY, value, offset, hw₀, hw₁, hw₂, hop₀, hload, hX, hop₁, hY,
            hop₂, hra, hp⟩
  · rintro ⟨-, w₀, w₁, w₂, op, rX, rY, value, offset, hw₀, hw₁, hw₂, hop₀, hload, hX, hop₁, hY,
      hop₂, hra, hp⟩
    rw [← p₄] at hw₁
    rw [← h₄] at hop₁
    rw [← p₈] at hw₂
    rw [← h₈] at hop₂ hp
    have hspell : Spells host Identifier.ofRegister c _ :=
      .cons hw₀ hop₀ (.cons hw₁ hop₁ (.cons hw₂ hop₂ (.nil _)))
    refine ⟨_, _, _, _, (hpull _).mpr hspell, ?_, hp⟩
    exact (emitted_eq_stub_iff hn c.address (c.advance 4).address
      ((c.advance 4).advance 4).address).mpr
        ⟨rX, rY, value, offset, hload, hX, rfl, hY, rfl, hra, rfl⟩

theorem stubDestination_below_upper_half :
    let procedure : Procedure := ⟨"GetTickCount", none⟩
    let host : Host :=
      ⟨fun target _ => if target = .ptr32 0x40FFFC then some procedure else none, fun _ => none⟩
    ((Platform.winMips .little).stubDestination host
      ⟨⟨.ptr32 0x10000,
        [0x41, 0x00, 0x08, 0x3C, 0xFC, 0xFF, 0x09, 0x8D, 0x08, 0x00, 0x20, 0x01]⟩, 0, .little⟩).1 =
      some procedure := by
  intro procedure host
  refine (stubDestination_eq_some_iff host .little _ (by decide) procedure).mpr ⟨by decide, ?_⟩
  exact ⟨0x3C080041, 0x8D09FFFC, 0x01200008, .lui 8 0x0041, 8, 9, 0x0041#16 ++ 0#16, 0xFFFC, rfl,
    rfl, rfl, by decide, .lui, by decide, by decide, by decide, by decide, by decide, by decide⟩

end ImportStub

end RegisterTransfer
