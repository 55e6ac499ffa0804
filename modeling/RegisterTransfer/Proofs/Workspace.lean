import RegisterTransfer.Lifting

namespace RegisterTransfer

namespace Frame

def nameOf (f : Frame) (r : Register) : Identifier := (f.ensureRegister r).1

def ensureAll (f : Frame) (rs : List Register) : Frame :=
  rs.foldl (fun g r => (g.ensureRegister r).2) f

theorem ensure_fst (f : Frame) (id : Identifier) :
    (f.ensure id).1 = (f.find? id.storage).getD id := by
  unfold ensure
  cases f.find? id.storage <;> rfl

theorem find?_push (f : Frame) (id : Identifier) (s : Storage) :
    (f.push id).find? s = (f.find? s).or (if id.storage = s then some id else none) := by
  unfold find? push
  rw [List.find?_append]
  by_cases h : id.storage = s <;> simp [h]

theorem find?_ensure (f : Frame) (id : Identifier) (s : Storage) :
    (f.ensure id).2.find? s = (f.find? s).or (if id.storage = s then some id else none) := by
  unfold ensure
  cases h : f.find? id.storage with
  | none => exact find?_push f id s
  | some held =>
    by_cases hs : id.storage = s
    · subst hs
      simp [h]
    · simp [hs]

theorem ensure_ensure {id other : Identifier} (h : id.storage = other.storage → id = other)
    (f : Frame) : ((f.ensure id).2.ensure other).1 = (f.ensure other).1 := by
  rw [ensure_fst, ensure_fst, find?_ensure]
  by_cases hs : id.storage = other.storage
  · cases h hs
    cases f.find? id.storage <;> simp
  · simp [hs]

theorem nameOf_eq (f : Frame) (r : Register) :
    f.nameOf r = (f.find? (.register r)).getD (.ofRegister r) :=
  ensure_fst f (.ofRegister r)

theorem nameOf_storage (f : Frame) (r : Register) : (f.nameOf r).storage = .register r :=
  storage_ensure f (.ofRegister r)

theorem nameOf_empty (wordBits : Nat) : (empty wordBits).nameOf = Identifier.ofRegister := by
  funext r
  rw [nameOf_eq]
  rfl

theorem nameOf_ensureRegister (f : Frame) (r : Register) :
    (f.ensureRegister r).2.nameOf = f.nameOf := by
  funext q
  apply ensure_ensure
  intro h
  cases h
  rfl

@[simp] theorem nameOf_ensureAll (f : Frame) (rs : List Register) :
    (f.ensureAll rs).nameOf = f.nameOf := by
  induction rs generalizing f with
  | nil => rfl
  | cons r rs ih => exact (ih _).trans (nameOf_ensureRegister f r)

theorem ensureAll_append (f : Frame) (rs qs : List Register) :
    f.ensureAll (rs ++ qs) = (f.ensureAll rs).ensureAll qs :=
  List.foldl_append

end Frame

namespace Knowledge

def assign (k : Knowledge) (r : Register) (source : Expression) : Knowledge :=
  match source.constant? with
  | some c => k.record r c
  | none => k.forget r

theorem contents?_record (k : Knowledge) (r : Register) (c : Constant) :
    (k.record r c).contents? r = some c := by
  rw [record, contents?, Table.get?_insert, if_pos rfl]

end Knowledge

def Host.callee (host : Host) (target continuation : Address) : Expression :=
  match host.imported target continuation with
  | some procedure => .externalProcedure procedure.name
  | none => .address target

namespace Lifting

@[simp] theorem bind_apply {α β : Type} (m : Lifting α) (f : α → Lifting β) (w : Workspace) :
    (m >>= f) w = f (m w).1 (m w).2 := rfl

@[simp] theorem map_apply {α β : Type} (f : α → β) (m : Lifting α) (w : Workspace) :
    (f <$> m) w = (f (m w).1, (m w).2) := rfl

@[simp] theorem pure_apply {α : Type} (x : α) (w : Workspace) :
    (pure x : Lifting α) w = (x, w) := rfl

@[simp] theorem forget_apply (r : Register) (w : Workspace) :
    forget r w = ((), { w with knowledge := w.knowledge.forget r }) := rfl

@[simp] theorem read_apply (r : Register) (w : Workspace) :
    read r w = (.identifier (w.frame.nameOf r), { w with frame := w.frame.ensureAll [r] }) := rfl

@[simp] theorem assign_apply (r : Register) (source : Expression) (w : Workspace) :
    assign r source w = (.assignment (.identifier (w.frame.nameOf r)) source,
      { w with
        knowledge := w.knowledge.assign r source
        frame := w.frame.ensureAll [r] }) := by
  unfold assign Knowledge.assign
  cases source.constant? <;> rfl

@[simp] theorem callee_apply (host : Host) (target continuation : Address) (w : Workspace) :
    callee host target continuation w = (host.callee target continuation,
      { w with questions := w.questions ++ [.imported target continuation] }) := by
  unfold callee Host.callee
  simp only [bind_apply, askImported]
  cases host.imported target continuation <;> rfl

end Lifting

end RegisterTransfer
