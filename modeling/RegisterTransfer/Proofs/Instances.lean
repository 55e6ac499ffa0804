import RegisterTransfer.Proofs.Unification

/-!
Templates and their instances. A term matches a template just if some assignment of terms to names
makes that term of the template, and what is captured is the assignment at the names that occur.
-/

namespace RegisterTransfer

namespace Pattern

inductive Instance (s : String → Expression) : Pattern → Expression → Prop
  | anyIdentifier {name : String} {id : Identifier} (h : s name = .identifier id) :
      Instance s (.anyIdentifier name) (.identifier id)
  | anyConstant {name : String} {k : Constant} (h : s name = .constant k) :
      Instance s (.anyConstant name) (.constant k)
  | anyExpression (name : String) : Instance s (.anyExpression name) (s name)
  | exactly (e : Expression) : Instance s (.exactly e) e
  | binary {op : Operator} {wanted : Option DataType} {t : DataType} {left right : Pattern}
      {l r : Expression} (ht : ∀ u ∈ wanted, u = t) (hl : Instance s left l)
      (hr : Instance s right r) : Instance s (.binary op wanted left right) (.binary op t l r)
  | memory {wanted : Option DataType} {t : DataType} {location : Pattern} {l : Expression}
      (ht : ∀ u ∈ wanted, u = t) (hl : Instance s location l) :
      Instance s (.memory location wanted) (.memory l t)

def names : Pattern → List String
  | .anyIdentifier name | .anyConstant name | .anyExpression name => [name]
  | .exactly _ => []
  | .binary _ _ left right => left.names ++ right.names
  | .memory location _ => location.names

theorem allows_iff {wanted : Option DataType} {t : DataType} :
    allows wanted t ↔ ∀ u ∈ wanted, u = t := by
  cases wanted with
  | none => simp [allows]
  | some u => simp [allows]

def Meets (s : String → Expression) (bs : List (String × Expression)) : Prop :=
  ∀ b ∈ bs, s b.1 = b.2

section Demands
variable {p : Pattern} {e : Expression} {s : String → Expression}
  {bs : List (String × Expression)}

theorem meets_singleton {name : String} : Meets s [(name, e)] ↔ s name = e :=
  List.forall_mem_singleton

theorem demands_of_instance (h : p.Instance s e) : ∃ bs, p.demands e = some bs ∧ Meets s bs := by
  induction h with
  | anyIdentifier h | anyConstant h => exact ⟨_, rfl, meets_singleton.mpr h⟩
  | anyExpression name => exact ⟨[(name, s name)], by rw [demands], meets_singleton.mpr rfl⟩
  | exactly e => exact ⟨[], by rw [demands, if_pos rfl], List.forall_mem_nil _⟩
  | binary ht _ _ ihl ihr =>
    obtain ⟨bs, hbs, hs⟩ := ihl
    obtain ⟨cs, hcs, hs'⟩ := ihr
    refine ⟨bs ++ cs, ?_, List.forall_mem_append.mpr ⟨hs, hs'⟩⟩
    rw [demands, if_pos ⟨rfl, allows_iff.mpr ht⟩, hbs, hcs]
    rfl
  | memory ht _ ih =>
    obtain ⟨bs, hbs, hs⟩ := ih
    refine ⟨bs, ?_, hs⟩
    rw [demands, if_pos (allows_iff.mpr ht), hbs]

theorem instance_of_demands (h : p.demands e = some bs) (hs : Meets s bs) : p.Instance s e := by
  -- What a part of the template asks for is asked for by the whole, so the assignment meets it.
  induction p generalizing e bs with
  | anyIdentifier name =>
    cases e with
    | identifier id =>
      cases h
      exact .anyIdentifier (meets_singleton.mp hs)
    | _ => cases h
  | anyConstant name =>
    cases e with
    | constant k =>
      cases h
      exact .anyConstant (meets_singleton.mp hs)
    | _ => cases h
  | anyExpression name =>
    rw [demands] at h
    cases h
    rw [← meets_singleton.mp hs]
    exact .anyExpression name
  | exactly x =>
    rw [demands] at h
    split at h
    · rename_i hx
      rw [hx]
      exact .exactly e
    · cases h
  | binary op wanted left right ihl ihr =>
    cases e with
    | binary op' t l r =>
      rw [demands] at h
      split at h
      · rename_i ho
        obtain ⟨rfl, ht⟩ := ho
        obtain ⟨ls, hl, h⟩ := Option.bind_eq_some_iff.mp h
        obtain ⟨rs, hr, rfl⟩ := Option.map_eq_some_iff.mp h
        obtain ⟨hls, hrs⟩ := List.forall_mem_append.mp hs
        exact .binary (allows_iff.mp ht) (ihl hl hls) (ihr hr hrs)
      · cases h
    | _ => cases h
  | memory location wanted ih =>
    cases e with
    | memory l t =>
      rw [demands] at h
      split at h
      · rename_i ht
        exact .memory (allows_iff.mp ht) (ih h hs)
      · cases h
    | _ => cases h

theorem instance_iff (h : p.demands e = some bs) : p.Instance s e ↔ Meets s bs := by
  constructor
  · intro hi
    obtain ⟨cs, hcs, hs⟩ := demands_of_instance hi
    cases h.symm.trans hcs
    exact hs
  · exact instance_of_demands h

theorem names_of_demands (h : p.demands e = some bs) : bs.map Prod.fst = p.names := by
  induction p generalizing e bs with
  | anyIdentifier name | anyConstant name =>
    cases e <;> cases h
    rfl
  | anyExpression name =>
    rw [demands] at h
    cases h
    rfl
  | exactly x =>
    rw [demands] at h
    split at h <;> cases h
    rfl
  | binary op wanted left right ihl ihr =>
    cases e with
    | binary op' t l r =>
      rw [demands] at h
      split at h
      · obtain ⟨ls, hl, h⟩ := Option.bind_eq_some_iff.mp h
        obtain ⟨rs, hr, rfl⟩ := Option.map_eq_some_iff.mp h
        rw [List.map_append, ihl hl, ihr hr, names]
      · cases h
    | _ => cases h
  | memory location wanted ih =>
    cases e with
    | memory l t =>
      rw [demands] at h
      split at h
      · exact ih h
      · cases h
    | _ => cases h

end Demands

section Bindings
variable {s : String → Expression} {bs : List (String × Expression)} {c : Captures}

theorem match?_eq_some_iff {p : Pattern} {e : Expression} : p.match? e = some c ↔
    ∃ bs, p.demands e = some bs ∧ ∀ name x, c.get? name = some x ↔ (name, x) ∈ bs := by
  rw [match?, extend_eq, Option.bind_eq_some_iff]
  simp only [Captures.bindAll_eq_some_iff, Table.get?_empty, reduceCtorEq, false_or]

theorem meets_iff (hc : ∀ name x, c.get? name = some x ↔ (name, x) ∈ bs) : Meets s bs ↔
    ∀ name, c.get? name = if name ∈ bs.map Prod.fst then some (s name) else none := by
  constructor
  · intro hs name
    split
    · rename_i hn
      obtain ⟨b, hb, rfl⟩ := List.mem_map.mp hn
      rw [hc, hs b hb]
      exact hb
    · rename_i hn
      rw [Option.eq_none_iff_forall_ne_some]
      intro x hx
      exact hn (List.mem_map.mpr ⟨(name, x), (hc name x).mp hx, rfl⟩)
  · intro h b hb
    have hn : b.1 ∈ bs.map Prod.fst := List.mem_map_of_mem hb
    have hx : c.get? b.1 = some b.2 := (hc b.1 b.2).mpr hb
    rw [h, if_pos hn] at hx
    exact Option.some.inj hx

theorem exists_restriction (s : String → Expression) (names : List String) :
    ∃ c : Captures, ∀ name, c.get? name = if name ∈ names then some (s name) else none := by
  induction names with
  | nil => exact ⟨.empty, fun name => by simp⟩
  | cons n names ih =>
    obtain ⟨c, hc⟩ := ih
    refine ⟨c.insert n (s n), ?_⟩
    intro name
    rw [Table.get?_insert, hc]
    by_cases h : n = name
    · simp [h]
    · simp [h, Ne.symm h]

theorem exists_bindAll_of_meets (hs : Meets s bs) :
    ∃ c, Captures.bindAll bs .empty = some c := by
  obtain ⟨m, hm⟩ := exists_restriction s (bs.map Prod.fst)
  apply Captures.exists_bindAll (m := m)
  rintro name x (h | h)
  · simp at h
  · have hn : name ∈ bs.map Prod.fst := List.mem_map_of_mem h
    rw [hm, if_pos hn, hs _ h]

end Bindings

theorem match?_finds_instances (p : Pattern) (e : Expression) :
    ((∃ c, p.match? e = some c) ↔ ∃ s, p.Instance s e) ∧
      ∀ c s, p.match? e = some c →
        (p.Instance s e ↔
          ∀ name, c.get? name = if name ∈ p.names then some (s name) else none) := by
  refine ⟨⟨?_, ?_⟩, ?_⟩
  · rintro ⟨c, h⟩
    obtain ⟨bs, hd, hc⟩ := match?_eq_some_iff.mp h
    let s (name : String) : Expression := (c.get? name).getD e
    refine ⟨s, (instance_iff hd).mpr ?_⟩
    intro b hb
    have hx : c.get? b.1 = some b.2 := (hc b.1 b.2).mpr hb
    simp only [s, hx, Option.getD_some]
  · rintro ⟨s, h⟩
    obtain ⟨bs, hd, hs⟩ := demands_of_instance h
    obtain ⟨c, hc⟩ := exists_bindAll_of_meets hs
    refine ⟨c, ?_⟩
    rw [match?, extend_eq, hd, Option.bind_some, hc]
  · intro c s h
    obtain ⟨bs, hd, hc⟩ := match?_eq_some_iff.mp h
    rw [instance_iff hd, ← names_of_demands hd]
    exact meets_iff hc

theorem match?_finds_shared_base :
    let r (n : Nat) : Expression := .identifier (.ofRegister ⟨s!"r{n}", n, 32, .general⟩)
    let k : Expression := .constant (.word32 8)
    let p : Pattern := .binary .iadd none (.anyExpression "base")
      (.memory (.binary .iadd (some .word32) (.anyIdentifier "base") (.anyConstant "offset")) none)
    let sum (n : Nat) : Expression :=
      .binary .iadd .int32 (r 4) (.memory (.binary .iadd .word32 (r n) k) .word32)
    (∃ c, p.match? (sum 4) = some c ∧ c.get? "base" = some (r 4) ∧ c.get? "offset" = some k ∧
        c.get? "other" = none) ∧
      ¬ ∃ s, p.Instance s (sum 5) := by
  intro r k p sum
  obtain ⟨hmatch, hcaptures⟩ := match?_finds_instances p (sum 4)
  let s (name : String) : Expression := if name = "base" then r 4 else k
  have hs : p.Instance s (sum 4) :=
    .binary (by simp) (.anyExpression "base")
      (.memory (by simp) (.binary (by simp) (.anyIdentifier rfl) (.anyConstant rfl)))
  refine ⟨?_, ?_⟩
  · obtain ⟨c, hc⟩ := hmatch.mpr ⟨s, hs⟩
    have hget := (hcaptures c s hc).mp hs
    exact ⟨c, hc, hget "base", hget "offset", hget "other"⟩
  · rw [← (match?_finds_instances p (sum 5)).1]
    rintro ⟨c, hc⟩
    have hnone : p.match? (sum 5) = none := by decide
    exact Option.some_ne_none c (hc.symm.trans hnone)

end Pattern

end RegisterTransfer
