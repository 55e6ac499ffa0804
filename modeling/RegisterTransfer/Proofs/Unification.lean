import RegisterTransfer.Proofs.Pattern

/-!
Matching as unification in one namespace of captures. What a template asks to have bound depends on
the term alone, so that matches can be taken one by one and in any order.
-/

namespace RegisterTransfer

namespace Captures

def Agrees (c d : Captures) : Prop :=
  ∀ name x y, c.get? name = some x → d.get? name = some y → x = y

def union (c d : Captures) : Captures := c.entries.foldr (fun e u => u.insert e.1 e.2) d

def unionAll (cs : List Captures) : Captures := cs.foldr union .empty

def bindAll : List (String × Expression) → Captures → Option Captures
  | [], c => some c
  | (name, e) :: bs, c => (c.bind name e).bind (bindAll bs)

section Union
variable {c d m : Captures}

theorem get?_union (c d : Captures) (name : String) :
    (c.union d).get? name = (c.get? name).or (d.get? name) := by
  have h : ∀ entries : List (String × Expression),
      (entries.foldr (fun e (u : Captures) => u.insert e.1 e.2) d).get? name =
        (Table.find name entries).or (d.get? name) := by
    intro entries
    induction entries with
    | nil => rfl
    | cons e rest ih =>
      obtain ⟨l, x⟩ := e
      rw [List.foldr_cons, Table.get?_insert, ih, Table.find]
      by_cases hl : l = name
      · simp [hl]
      · simp [hl]
  exact h c.entries

theorem get?_union_eq_some_iff (h : c.Agrees m) {name : String} {x : Expression} :
    (c.union m).get? name = some x ↔ c.get? name = some x ∨ m.get? name = some x := by
  rw [get?_union]
  cases hc : c.get? name with
  | none => simp
  | some y =>
    rw [Option.some_or]
    constructor
    · exact Or.inl
    · rintro (hx | hx)
      · exact hx
      · rw [h name y x hc hx]

theorem empty_union (c : Captures) : union .empty c = c := rfl

theorem union_empty (c : Captures) : c.union .empty = c := by
  apply Table.ext_get?
  intro name
  rw [get?_union]
  exact Option.or_none

theorem unionAll_cons (c : Captures) (cs : List Captures) :
    unionAll (c :: cs) = c.union (unionAll cs) := rfl

theorem unionAll_pair (c d : Captures) : unionAll [c, d] = c.union d := by
  rw [unionAll_cons, unionAll_cons]
  exact congrArg c.union (union_empty d)

theorem empty_agrees (c : Captures) : Agrees .empty c := by
  intro name x y hx hy
  cases hx

theorem union_assoc (c d e : Captures) : (c.union d).union e = c.union (d.union e) := by
  apply Table.ext_get?
  intro name
  simp only [get?_union, Option.or_assoc]

theorem Agrees.symm (h : c.Agrees d) : d.Agrees c := by
  intro name x y hx hy
  exact (h name y x hy hx).symm

theorem union_agrees_iff (h : c.Agrees m) : (c.union m).Agrees d ↔ c.Agrees d ∧ m.Agrees d := by
  constructor
  · intro hu
    constructor
    · intro name x y hx hy
      exact hu name x y ((get?_union_eq_some_iff h).mpr (.inl hx)) hy
    · intro name x y hx hy
      exact hu name x y ((get?_union_eq_some_iff h).mpr (.inr hx)) hy
  · rintro ⟨hc, hm⟩ name x y hx hy
    cases (get?_union_eq_some_iff h).mp hx with
    | inl hx => exact hc name x y hx hy
    | inr hx => exact hm name x y hx hy

theorem agrees_unionAll {cs : List Captures} (h : ∀ m ∈ cs, c.Agrees m) :
    c.Agrees (unionAll cs) := by
  induction cs with
  | nil => exact (empty_agrees c).symm
  | cons m cs ih =>
    intro name x y hx hy
    have hm : c.Agrees m := h m (List.mem_cons_self ..)
    have hcs : c.Agrees (unionAll cs) := ih fun n hn => h n (List.mem_cons_of_mem _ hn)
    rw [unionAll, List.foldr_cons, get?_union] at hy
    cases hmn : m.get? name with
    | none =>
      rw [hmn, Option.none_or] at hy
      exact hcs name x y hx hy
    | some z =>
      rw [hmn, Option.some_or] at hy
      exact hm name x y hx (hmn.trans hy)

theorem get?_unionAll {cs : List Captures} (h : cs.Pairwise Agrees) {name : String}
    {x : Expression} :
    (unionAll cs).get? name = some x ↔ ∃ m ∈ cs, m.get? name = some x := by
  induction cs with
  | nil => simp [unionAll]
  | cons m cs ih =>
    obtain ⟨hm, hcs⟩ := List.pairwise_cons.mp h
    have hu : (m.union (unionAll cs)).get? name = some x ↔
        m.get? name = some x ∨ (unionAll cs).get? name = some x :=
      get?_union_eq_some_iff (agrees_unionAll hm)
    rw [unionAll_cons, hu, ih hcs]
    simp

end Union

section Bindings
variable {c d m : Captures} {bs : List (String × Expression)}

theorem get?_of_bind {name : String} {e : Expression} (h : c.bind name e = some d) (n : String)
    (x : Expression) : d.get? n = some x ↔ c.get? n = some x ∨ (n, x) = (name, e) := by
  unfold bind at h
  split at h
  · rename_i y hy
    split at h
    · rename_i hye
      cases h
      subst hye
      constructor
      · exact Or.inl
      · rintro (hx | hx)
        · exact hx
        · cases hx
          exact hy
    · cases h
  · rename_i hy
    cases h
    rw [Table.get?_insert]
    by_cases hn : name = n
    · subst hn
      simp [hy, eq_comm]
    · simp [hn, Ne.symm hn]

theorem get?_of_bindAll (h : bindAll bs c = some d) (n : String) (x : Expression) :
    d.get? n = some x ↔ c.get? n = some x ∨ (n, x) ∈ bs := by
  induction bs generalizing c with
  | nil =>
    cases h
    simp
  | cons b bs ih =>
    obtain ⟨name, e⟩ := b
    obtain ⟨c', hc, hd⟩ := Option.bind_eq_some_iff.mp h
    rw [ih hd, get?_of_bind hc, List.mem_cons, or_assoc]

theorem exists_bindAll (h : ∀ n x, c.get? n = some x ∨ (n, x) ∈ bs → m.get? n = some x) :
    ∃ d, bindAll bs c = some d := by
  -- The captures so far and the bindings to come are held by the same `m` all along.
  induction bs generalizing c with
  | nil => exact ⟨c, rfl⟩
  | cons b bs ih =>
    obtain ⟨name, e⟩ := b
    have he : m.get? name = some e := h name e (.inr (List.mem_cons_self ..))
    obtain ⟨c', hc⟩ : ∃ c', c.bind name e = some c' := by
      unfold bind
      cases hy : c.get? name with
      | none => exact ⟨_, rfl⟩
      | some y =>
        have hye : y = e := by
          have hm := h name y (.inl hy)
          rw [he] at hm
          exact (Option.some.inj hm).symm
        exact ⟨c, if_pos hye⟩
    have hrest : ∀ n x, c'.get? n = some x ∨ (n, x) ∈ bs → m.get? n = some x := by
      intro n x hx
      rw [get?_of_bind hc, or_assoc, ← List.mem_cons] at hx
      exact h n x hx
    obtain ⟨d, hd⟩ := ih hrest
    exact ⟨d, by rw [bindAll, hc, Option.bind_some, hd]⟩

theorem bindAll_eq_some_iff :
    bindAll bs c = some d ↔ ∀ n x, d.get? n = some x ↔ c.get? n = some x ∨ (n, x) ∈ bs := by
  constructor
  · exact get?_of_bindAll
  · intro h
    obtain ⟨d', hd⟩ := exists_bindAll fun n x hx => (h n x).mpr hx
    have heq : d' = d := by
      apply Table.ext_get?
      intro n
      ext x
      rw [get?_of_bindAll hd, h]
    rw [hd, heq]

theorem bindAll_eq_union_iff :
    bindAll bs c = some d ↔ ∃ m, bindAll bs .empty = some m ∧ c.Agrees m ∧ d = c.union m := by
  constructor
  · intro h
    have hd := get?_of_bindAll h
    have hall : ∀ n x, (Table.empty : Captures).get? n = some x ∨ (n, x) ∈ bs →
        d.get? n = some x := by
      intro n x hx
      apply (hd n x).mpr
      exact .inr (hx.resolve_left (by simp))
    -- What is bound in the end shows that the bindings alone do not clash.
    obtain ⟨m, hm⟩ := exists_bindAll hall
    have hmem : ∀ n x, m.get? n = some x ↔ (n, x) ∈ bs := by
      intro n x
      rw [get?_of_bindAll hm]
      simp
    have hag : c.Agrees m := by
      intro n x y hx hy
      have hx' := (hd n x).mpr (.inl hx)
      have hy' := (hd n y).mpr (.inr ((hmem n y).mp hy))
      rw [hx'] at hy'
      exact Option.some.inj hy'
    refine ⟨m, hm, hag, ?_⟩
    apply Table.ext_get?
    intro n
    ext x
    rw [hd, get?_union_eq_some_iff hag, hmem]
  · rintro ⟨m, hm, hag, rfl⟩
    rw [bindAll_eq_some_iff]
    intro n x
    rw [get?_union_eq_some_iff hag, get?_of_bindAll hm]
    simp

theorem bind_bindAll_eq_union_iff {o : Option (List (String × Expression))} :
    o.bind (bindAll · c) = some d ↔
      ∃ m, o.bind (bindAll · .empty) = some m ∧ c.Agrees m ∧ d = c.union m := by
  cases o with
  | none => simp
  | some bs => exact bindAll_eq_union_iff

theorem bindAll_append (bs cs : List (String × Expression)) (c : Captures) :
    bindAll (bs ++ cs) c = (bindAll bs c).bind (bindAll cs) := by
  induction bs generalizing c with
  | nil => rfl
  | cons b bs ih =>
    rw [List.cons_append, bindAll, bindAll, Option.bind_assoc]
    congr 1
    funext c'
    exact ih c'

theorem bindAll_singleton (name : String) (e : Expression) (c : Captures) :
    bindAll [(name, e)] c = c.bind name e := by
  unfold bindAll
  cases c.bind name e <;> rfl

theorem bindAll_append_comm (bs cs : List (String × Expression)) (c : Captures) :
    bindAll (bs ++ cs) c = bindAll (cs ++ bs) c := by
  ext d
  rw [bindAll_eq_some_iff, bindAll_eq_some_iff]
  simp only [List.mem_append]
  constructor
  · intro h n x
    rw [h, or_comm (b := (n, x) ∈ cs)]
  · intro h n x
    rw [h, or_comm (b := (n, x) ∈ bs)]

theorem bindAll_both (o o' : Option (List (String × Expression))) (c : Captures) :
    ((o.bind (bindAll · c)).bind fun d => o'.bind (bindAll · d)) =
      (o.bind fun bs => o'.map (bs ++ ·)).bind (bindAll · c) := by
  cases o with
  | none => rfl
  | some bs =>
    cases o' with
    | none => simp
    | some cs => simp [bindAll_append]

end Bindings

end Captures

namespace Pattern

def demands : Pattern → Expression → Option (List (String × Expression))
  | .anyIdentifier name, .identifier id => some [(name, .identifier id)]
  | .anyConstant name, .constant k => some [(name, .constant k)]
  | .anyExpression name, e => some [(name, e)]
  | .exactly x, e => if x = e then some [] else none
  | .binary op t left right, .binary op' t' left' right' =>
    if op = op' ∧ allows t t' then
      (left.demands left').bind fun bs => (right.demands right').map (bs ++ ·)
    else none
  | .memory location t, .memory location' t' =>
    if allows t t' then location.demands location' else none
  | _, _ => none

theorem extend_eq (p : Pattern) (e : Expression) (c : Captures) :
    p.extend e c = (p.demands e).bind (Captures.bindAll · c) := by
  induction p generalizing e c with
  | anyIdentifier name =>
    cases e with
    | identifier id => exact (Captures.bindAll_singleton name _ c).symm
    | _ => rfl
  | anyConstant name =>
    cases e with
    | constant k => exact (Captures.bindAll_singleton name _ c).symm
    | _ => rfl
  | anyExpression name =>
    rw [extend, demands]
    exact (Captures.bindAll_singleton name e c).symm
  | exactly x =>
    rw [extend, demands]
    split <;> rfl
  | binary op t left right ihl ihr =>
    cases e with
    | binary op' t' left' right' =>
      rw [extend, demands]
      split
      · have hr : right.extend right' =
            fun d => (right.demands right').bind (Captures.bindAll · d) := funext (ihr right')
        rw [ihl, hr, Captures.bindAll_both]
      · rfl
    | _ => rfl
  | memory location t ih =>
    cases e with
    | memory location' t' =>
      rw [extend, demands]
      split
      · exact ih location' c
      · rfl
    | _ => rfl

theorem extend_eq_union_iff {p : Pattern} {e : Expression} {c d : Captures} :
    p.extend e c = some d ↔ ∃ m, p.match? e = some m ∧ c.Agrees m ∧ d = c.union m := by
  rw [match?, extend_eq, extend_eq]
  exact Captures.bind_bindAll_eq_union_iff

end Pattern

namespace TransferPattern

def demands : TransferPattern → Transfer → Option (List (String × Expression))
  | .assignment destination source, .assignment destination' source' =>
    (destination.demands destination').bind fun bs => (source.demands source').map (bs ++ ·)
  | .goto target kind, .goto target' kind' => if kind = kind' then target.demands target' else none
  | .call target kind, .call target' _ kind' =>
    if kind = kind' then target.demands target' else none
  | _, _ => none

theorem extend_eq (p : TransferPattern) (t : Transfer) (c : Captures) :
    p.extend t c = (p.demands t).bind (Captures.bindAll · c) := by
  cases p with
  | assignment destination source =>
    cases t with
    | assignment destination' source' =>
      have hs : source.extend source' =
          fun d => (source.demands source').bind (Captures.bindAll · d) :=
        funext (source.extend_eq source')
      rw [extend, demands, Pattern.extend_eq, hs, Captures.bindAll_both]
    | _ => rfl
  | goto target kind =>
    cases t with
    | goto target' kind' =>
      rw [extend, demands]
      split
      · exact target.extend_eq target' c
      · rfl
    | _ => rfl
  | call target kind =>
    cases t with
    | call target' size kind' =>
      rw [extend, demands]
      split
      · exact target.extend_eq target' c
      · rfl
    | _ => rfl

theorem extend_eq_union_iff {p : TransferPattern} {t : Transfer} {c d : Captures} :
    p.extend t c = some d ↔ ∃ m, p.match? t = some m ∧ c.Agrees m ∧ d = c.union m := by
  rw [match?, extend_eq, extend_eq]
  exact Captures.bind_bindAll_eq_union_iff

theorem extend_comm (p q : TransferPattern) (t u : Transfer) (c : Captures) :
    (p.extend t c).bind (q.extend u) = (q.extend u c).bind (p.extend t) := by
  have hp : p.extend t = fun d => (p.demands t).bind (Captures.bindAll · d) :=
    funext (p.extend_eq t)
  have hq : q.extend u = fun d => (q.demands u).bind (Captures.bindAll · d) :=
    funext (q.extend_eq u)
  rw [hp, hq, Captures.bindAll_both, Captures.bindAll_both]
  cases p.demands t with
  | none => cases q.demands u <;> rfl
  | some bs =>
    cases q.demands u with
    | none => rfl
    | some cs => exact Captures.bindAll_append_comm bs cs c

theorem extendAll_eq_union_iff {ps : List TransferPattern} {ts : List Transfer} {c d : Captures} :
    extendAll ps ts c = some d ↔ ps.length ≤ ts.length ∧
      ∃ cs, List.zipWith match? ps ts = cs.map some ∧ (∀ m ∈ cs, c.Agrees m) ∧
        cs.Pairwise Captures.Agrees ∧ d = c.union (.unionAll cs) := by
  induction ps generalizing ts c with
  | nil =>
    constructor
    · intro h
      cases h
      exact ⟨Nat.zero_le _, [], rfl, by simp, .nil, (Captures.union_empty _).symm⟩
    · rintro ⟨-, cs, hcs, -, -, rfl⟩
      obtain rfl : cs = [] := List.map_eq_nil_iff.mp hcs.symm
      exact congrArg some (Captures.union_empty c).symm
  | cons p ps ih =>
    rw [extendAll_cons]
    constructor
    -- What the first position binds agrees with all the rest, as the rest agree with the union.
    · rintro ⟨t, ts, b, rfl, hp, hps⟩
      obtain ⟨m, hm, hag, rfl⟩ := extend_eq_union_iff.mp hp
      obtain ⟨hlen, cs, hcs, hall, hpair, rfl⟩ := ih.mp hps
      have hsplit : ∀ m' ∈ cs, c.Agrees m' ∧ m.Agrees m' :=
        fun m' hm' => (Captures.union_agrees_iff hag).mp (hall m' hm')
      refine ⟨Nat.succ_le_succ hlen, m :: cs, ?_, ?_, ?_, ?_⟩
      · rw [List.zipWith_cons_cons, hm, hcs, List.map_cons]
      · intro m' hm'
        cases List.mem_cons.mp hm' with
        | inl he => rwa [he]
        | inr hmem => exact (hsplit m' hmem).1
      · exact List.pairwise_cons.mpr ⟨fun m' hm' => (hsplit m' hm').2, hpair⟩
      · rw [Captures.unionAll_cons, Captures.union_assoc]
    · rintro ⟨hlen, cs', hcs, hall, hpair, rfl⟩
      cases ts with
      | nil => cases hlen
      | cons t ts =>
        cases cs' with
        | nil => cases hcs
        | cons m cs =>
          rw [List.zipWith_cons_cons, List.map_cons] at hcs
          obtain ⟨hm, hcs⟩ := List.cons.inj hcs
          obtain ⟨hmcs, hpair⟩ := List.pairwise_cons.mp hpair
          have hag : c.Agrees m := hall m (List.mem_cons_self ..)
          refine ⟨t, ts, c.union m, rfl, extend_eq_union_iff.mpr ⟨m, hm, hag, rfl⟩, ?_⟩
          apply ih.mpr
          refine ⟨Nat.le_of_succ_le_succ hlen, cs, hcs, ?_, hpair, ?_⟩
          · intro m' hm'
            apply (Captures.union_agrees_iff hag).mpr
            exact ⟨hall m' (List.mem_cons_of_mem _ hm'), hmcs m' hm'⟩
          · rw [Captures.unionAll_cons, Captures.union_assoc]

theorem extendAll_take (ps : List TransferPattern) (ts : List Transfer) (c : Captures) :
    extendAll ps ts c = extendAll ps (ts.take ps.length) c := by
  induction ps generalizing ts c with
  | nil => rfl
  | cons p ps ih =>
    cases ts with
    | nil => rfl
    | cons t ts =>
      have hr : extendAll ps ts = extendAll ps (ts.take ps.length) := funext (ih ts)
      rw [extendAll, hr]
      rfl

theorem extendAll_perm {xs ys : List (TransferPattern × Transfer)} (h : xs.Perm ys) (c : Captures) :
    extendAll (xs.map (·.1)) (xs.map (·.2)) c = extendAll (ys.map (·.1)) (ys.map (·.2)) c := by
  induction h generalizing c with
  | nil => rfl
  | cons x _ ih =>
    rw [List.map_cons, List.map_cons, extendAll, funext ih]
    rfl
  | swap x y xs =>
    have h := extend_comm y.1 x.1 y.2 x.2 c
    simp only [List.map_cons, extendAll]
    rw [← Option.bind_assoc, ← Option.bind_assoc]
    exact congrArg (·.bind (extendAll (xs.map (·.1)) (xs.map (·.2)))) h
  | trans _ _ ih ih' => exact (ih c).trans (ih' c)

theorem matchSequence?_unifies :
    (∀ ps ts c, matchSequence? ps ts = some c ↔ ps.length ≤ ts.length ∧
      ∃ cs, List.zipWith match? ps ts = cs.map some ∧ cs.Pairwise Captures.Agrees ∧
        c = .unionAll cs) ∧
    (∀ cs : List Captures, cs.Pairwise Captures.Agrees → ∀ name x,
      (Captures.unionAll cs).get? name = some x ↔ ∃ m ∈ cs, m.get? name = some x) ∧
    (∀ ps ts, matchSequence? ps ts = matchSequence? ps (ts.take ps.length)) ∧
    (∀ xs ys : List (TransferPattern × Transfer), xs.Perm ys →
      matchSequence? (xs.map (·.1)) (xs.map (·.2)) =
        matchSequence? (ys.map (·.1)) (ys.map (·.2))) ∧
    (∀ (p : TransferPattern) t c d, p.extend t c = some d ↔
      ∃ m, p.match? t = some m ∧ c.Agrees m ∧ d = .unionAll [c, m]) ∧
    ∀ (p : Pattern) e c d, p.extend e c = some d ↔
      ∃ m, p.match? e = some m ∧ c.Agrees m ∧ d = .unionAll [c, m] := by
  refine ⟨?_, ?_, ?_, ?_, ?_, ?_⟩
  · intro ps ts c
    rw [matchSequence?, extendAll_eq_union_iff]
    simp only [Captures.empty_agrees, implies_true, true_and, Captures.empty_union]
  · intro cs hcs name x
    exact Captures.get?_unionAll hcs
  · intro ps ts
    exact extendAll_take ps ts .empty
  · intro xs ys h
    exact extendAll_perm h .empty
  · intro p t c d
    simp only [Captures.unionAll_pair]
    exact extend_eq_union_iff
  · intro p e c d
    simp only [Captures.unionAll_pair]
    exact Pattern.extend_eq_union_iff

theorem matchSequence?_shared_register :
    let r : Expression := .identifier (.ofRegister ⟨"r4", 4, 32, .general⟩)
    let k (n : Nat) : Expression := .constant (.ofNat .word32 n)
    let load := (TransferPattern.assignment (.anyIdentifier "r") (.anyConstant "hi"),
      Transfer.assignment r (k 0x410000))
    let add := (TransferPattern.assignment (.anyIdentifier "r")
        (.binary .iadd none (.anyIdentifier "r") (.anyConstant "lo")),
      Transfer.assignment r (.binary .iadd .word32 r (k 0x8000)))
    let c : Captures := .ofList [("hi", k 0x410000), ("lo", k 0x8000), ("r", r)]
    let m : Captures := .ofList [("hi", k 0x410000), ("r", r)]
    let n : Captures := .ofList [("lo", k 0x8000), ("r", r)]
    matchSequence? [load.1, add.1] [load.2, add.2, .nop] = some c ∧
      matchSequence? [add.1, load.1] [add.2, load.2] = some c ∧
      m.Agrees n ∧ load.1.extend load.2 n = some c ∧
      ∀ name x, c.get? name = some x ↔ m.get? name = some x ∨ n.get? name = some x := by
  intro r k load add c m n
  obtain ⟨hseq, hunion, htake, hperm, hextend, -⟩ := matchSequence?_unifies
  have hc : matchSequence? [load.1, add.1] [load.2, add.2] = some c := by decide
  obtain ⟨-, cs, hcs, hpair, hu⟩ := (hseq _ _ _).mp hc
  obtain rfl : cs = [m, n] := by
    have hmn : List.zipWith match? [load.1, add.1] [load.2, add.2] = [m, n].map some := by decide
    rw [hcs] at hmn
    exact (List.map_inj_right fun _ _ => Option.some.inj).mp hmn
  have hag : m.Agrees n := by simpa using hpair
  refine ⟨?_, ?_, hag, ?_, ?_⟩
  · rw [htake]
    exact hc
  · rw [← hc]
    exact hperm [add, load] [load, add] (.swap load add [])
  · exact (hextend _ _ _ _).mpr ⟨m, by decide, hag.symm, by decide⟩
  · intro name x
    rw [hu, hunion [m, n] hpair]
    simp

end TransferPattern

end RegisterTransfer
