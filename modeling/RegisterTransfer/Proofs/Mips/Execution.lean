import RegisterTransfer.Proofs.Mips.Sources

namespace RegisterTransfer.Mips

variable {M : Type}

def StoreOp.store (op : StoreOp) (e : Surroundings M) (m : M) (a x : BitVec 32) : M :=
  match op with
  | .sb => e.store m a 8 (x.setWidth 8)
  | .sh => e.store m a 16 (x.setWidth 16)
  | .sw => e.store m a 32 x

section Execution
variable {name : Register → Identifier} (hn : ∀ r, (name r).storage = .register r)
  {s : Machine M} (h0 : s.registers 0 = 0) {e : Surroundings M}

include hn in
theorem execute_assignment (r : Register) (source : Expression) :
    execute e (.assignment (.identifier (name r)) source) s =
      (source.pattern? (s.interpretation e) 32).map (s.put r.number) := by
  have hr := hn r
  generalize name r = id at hr ⊢
  obtain ⟨n, t, storage⟩ := id
  cases hr
  rfl

include hn in
theorem execute_setting {source : Expression} {x : BitVec 32}
    (hx : source.pattern? (s.interpretation e) 32 = some x) (r : Gpr) :
    execute e (setting name r source) s = some (s.set r x) := by
  unfold setting Machine.set
  by_cases h : r = zeroRegister
  · rw [if_pos h, if_pos h]
    rfl
  · rw [if_neg h, if_neg h, execute_assignment hn, hx, Option.map_some]
    simp only [Gpr.register, register_number]

include hn h0 in
theorem execute_store (op : StoreOp) (rt base : Gpr) (offset : BitVec 16) :
    execute e (op.transfer (place name base offset) (operand name rt)) s =
      some { s with
        memory :=
          op.store e s.memory (s.registers base + offset.signExtend 32) (s.registers rt) } := by
  have hp := Expression.pattern?_of_value? (value?_place hn h0 e base offset)
  have hv := value?_operand hn h0 e rt
  cases op with
  | sw =>
    have hr := Expression.pattern?_of_value? hv
    simp only [StoreOp.transfer, execute, hp, Option.bind_some, hr, Option.map_some]
    rfl
  | sb | sh =>
    simp only [StoreOp.transfer, execute, hp, Option.bind_some]
    simp only [Expression.pattern?, Expression.value?, hv, Option.map_some]
    rfl

theorem executeAll_single (o : Nat → Surroundings M) (t : Transfer) :
    executeAll o [t] s = execute (o 0) t s := by
  cases h : execute (o 0) t s <;> simp [executeAll, h]

theorem executeAll_append (o : Nat → Surroundings M) (ts us : List Transfer) (s : Machine M) :
    executeAll o (ts ++ us) s =
      (executeAll o ts s).bind (executeAll (fun n => o (n + ts.length)) us) := by
  induction ts generalizing o s with
  | nil => rfl
  | cons t ts ih =>
    rw [List.cons_append, executeAll, executeAll]
    cases execute (o 0) t s with
    | none => rfl
    | some t =>
      rw [Option.bind_some, ih, Option.bind_some]
      simp only [List.length_cons, Nat.add_assoc]

theorem pattern?_address (a : Address) :
    (Expression.address a).pattern? (s.interpretation e) 32 = some a.word := rfl

include hn in
theorem executeAll_linkTransfers (o : Nat → Surroundings M) (a : Address) (op : Operation) :
    executeAll o (linkTransfers name a op) s =
      some (op.link?.elim s fun r => s.put r (continuation a).word) := by
  unfold linkTransfers
  cases op.link? with
  | none => rfl
  | some r =>
    simp only [Option.map_some, Option.toList_some, executeAll_single, execute_assignment hn,
      pattern?_address, Option.elim_some, Gpr.register, register_number]

end Execution

end RegisterTransfer.Mips
