/-!
Finite maps with their keys in ascending order. The order makes the representation canonical:
two tables with the same look-ups are equal (`Table.ext_get?`).
-/
namespace RegisterTransfer

structure Table (κ α : Type) [Ord κ] where
  entries : List (κ × α)
  ascending : entries.Pairwise (fun a b => compare a.1 b.1 = .lt)
deriving DecidableEq

namespace Table

variable {κ α : Type} [Ord κ]

def empty : Table κ α := ⟨[], .nil⟩

instance : EmptyCollection (Table κ α) := ⟨empty⟩

instance : Inhabited (Table κ α) := ⟨empty⟩

def size (t : Table κ α) : Nat := t.entries.length

def isEmpty (t : Table κ α) : Bool := t.entries.isEmpty

def find (k : κ) : List (κ × α) → Option α
  | [] => none
  | (l, v) :: rest => if compare l k = .eq then some v else find k rest

def get? (t : Table κ α) (k : κ) : Option α := find k t.entries

def contains (t : Table κ α) (k : κ) : Bool := (t.get? k).isSome

def place (k : κ) (v : α) : List (κ × α) → List (κ × α)
  | [] => [(k, v)]
  | (l, w) :: rest =>
    match compare k l with
    | .lt => (k, v) :: (l, w) :: rest
    | .eq => (k, v) :: rest
    | .gt => (l, w) :: place k v rest

def remove (k : κ) (entries : List (κ × α)) : List (κ × α) :=
  entries.filter (fun e => compare e.1 k != .eq)

theorem mem_place {k : κ} {v : α} {e : κ × α} {entries : List (κ × α)}
    (h : e ∈ place k v entries) : e = (k, v) ∨ e ∈ entries := by
  induction entries with
  | nil => simpa [place] using h
  | cons hd tl ih =>
    obtain ⟨l, w⟩ := hd
    rw [place] at h
    split at h
    · simpa using h
    · rcases List.mem_cons.1 h with h | h <;> simp [h]
    · rcases List.mem_cons.1 h with h | h
      · simp [h]
      · rcases ih h with h | h <;> simp [h]

@[simp] theorem get?_empty (l : κ) : (empty : Table κ α).get? l = none := rfl

variable [Std.TransOrd κ]

theorem find_eq_none {k : κ} {entries : List (κ × α)}
    (h : ∀ e ∈ entries, compare k e.1 = .lt) : find k entries = none := by
  induction entries with
  | nil => rfl
  | cons hd tl ih =>
    have hd' := h hd (by simp)
    rw [find, if_neg, ih fun e he => h e (List.mem_cons_of_mem _ he)]
    exact fun he => by simp [Std.OrientedCmp.eq_symm he] at hd'

theorem find_eq_none_of_head {k l : κ} {w : α} {rest : List (κ × α)} (hk : compare k l = .lt)
    (h : ((l, w) :: rest).Pairwise (fun a b => compare a.1 b.1 = .lt)) :
    find k ((l, w) :: rest) = none := by
  refine find_eq_none fun e he => ?_
  rcases List.mem_cons.1 he with rfl | he
  · exact hk
  · exact Std.TransCmp.lt_trans hk ((List.pairwise_cons.1 h).1 e he)

variable [Std.LawfulEqOrd κ]

theorem eq_of_find {xs ys : List (κ × α)}
    (hx : xs.Pairwise (fun a b => compare a.1 b.1 = .lt))
    (hy : ys.Pairwise (fun a b => compare a.1 b.1 = .lt))
    (h : ∀ k, find k xs = find k ys) : xs = ys := by
  induction xs generalizing ys with
  | nil =>
    cases ys with
    | nil => rfl
    | cons y ys => simpa [find] using h y.1
  | cons x xs ih =>
    cases ys with
    | nil => simpa [find] using h x.1
    | cons y ys =>
      obtain ⟨a, v⟩ := x
      obtain ⟨b, w⟩ := y
      have hab : a = b := by
        cases hc : compare a b with
        | eq => exact Std.LawfulEqOrd.eq_of_compare hc
        | lt =>
          have := h a
          rw [find_eq_none_of_head hc hy] at this
          simp [find] at this
        | gt =>
          have := h b
          rw [find_eq_none_of_head (Std.OrientedCmp.lt_of_gt hc) hx] at this
          simp [find] at this
      subst hab
      have hvw : v = w := by simpa [find] using h a
      subst hvw
      refine congrArg _ (ih hx.of_cons hy.of_cons fun k => ?_)
      by_cases hk : compare a k = .eq
      · obtain rfl := Std.LawfulEqOrd.eq_of_compare hk
        rw [find_eq_none (List.pairwise_cons.1 hx).1, find_eq_none (List.pairwise_cons.1 hy).1]
      · simpa [find, hk] using h k

theorem ext_get? {s t : Table κ α} (h : ∀ k, s.get? k = t.get? k) : s = t := by
  obtain ⟨xs, hx⟩ := s
  obtain ⟨ys, hy⟩ := t
  obtain rfl := eq_of_find hx hy h
  rfl

theorem pairwise_place (k : κ) (v : α) {entries : List (κ × α)}
    (h : entries.Pairwise (fun a b => compare a.1 b.1 = .lt)) :
    (place k v entries).Pairwise (fun a b => compare a.1 b.1 = .lt) := by
  induction entries with
  | nil => simp [place]
  | cons hd tl ih =>
    obtain ⟨l, w⟩ := hd
    have hl := (List.pairwise_cons.1 h).1
    rw [place]
    split
    · rename_i hc
      refine h.cons fun e he => ?_
      rcases List.mem_cons.1 he with rfl | he
      · exact hc
      · exact Std.TransCmp.lt_trans hc (hl e he)
    · rename_i hc
      obtain rfl := Std.LawfulEqOrd.eq_of_compare hc
      exact h.of_cons.cons fun e he => hl e he
    · rename_i hc
      refine (ih h.of_cons).cons fun e he => ?_
      rcases mem_place he with rfl | he
      · exact Std.OrientedCmp.lt_of_gt hc
      · exact hl e he

def insert (t : Table κ α) (k : κ) (v : α) : Table κ α :=
  ⟨place k v t.entries, pairwise_place k v t.ascending⟩

def erase (t : Table κ α) (k : κ) : Table κ α :=
  ⟨remove k t.entries, t.ascending.sublist List.filter_sublist⟩

def ofList (pairs : List (κ × α)) : Table κ α :=
  pairs.foldl (fun t e => t.insert e.1 e.2) empty

variable [DecidableEq κ]

omit [Std.TransOrd κ] in
theorem find_place (k l : κ) (v : α) (entries : List (κ × α)) :
    find l (place k v entries) = if k = l then some v else find l entries := by
  have hself : ∀ a : κ, compare a a = .eq := fun a => Std.ReflCmp.compare_self
  induction entries with
  | nil => grind [place, find, Std.LawfulEqOrd.eq_of_compare]
  | cons hd tl ih =>
    obtain ⟨m, w⟩ := hd
    rw [place]
    split
    · grind [find, Std.LawfulEqOrd.eq_of_compare]
    · rename_i hc
      obtain rfl := Std.LawfulEqOrd.eq_of_compare hc
      grind [find, Std.LawfulEqOrd.eq_of_compare]
    · rename_i hc
      have : m ≠ k := fun h => by simp [h] at hc
      grind [find, Std.LawfulEqOrd.eq_of_compare]

@[grind =] theorem get?_insert (t : Table κ α) (k l : κ) (v : α) :
    (t.insert k v).get? l = if k = l then some v else t.get? l :=
  find_place k l v t.entries

omit [Std.TransOrd κ] in
theorem find_remove (k l : κ) (entries : List (κ × α)) :
    find l (remove k entries) = if k = l then none else find l entries := by
  have hself : ∀ a : κ, compare a a = .eq := fun a => Std.ReflCmp.compare_self
  induction entries with
  | nil => simp [remove, find]
  | cons hd tl ih =>
    obtain ⟨m, w⟩ := hd
    rw [remove] at ih ⊢
    rw [List.filter_cons]
    split <;> grind [find, Std.LawfulEqOrd.eq_of_compare]

omit [Std.TransOrd κ] in
@[grind =] theorem get?_erase (t : Table κ α) (k l : κ) :
    (t.erase k).get? l = if k = l then none else t.get? l :=
  find_remove k l t.entries

end Table

end RegisterTransfer
