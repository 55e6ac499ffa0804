import RegisterTransfer.TypeLibrary.Library

namespace RegisterTransfer.TypeLibrary

theorem find?_reverse_eq_some_iff {α : Type} {p : α → Bool} {xs : List α} {x : α} :
    xs.reverse.find? p = some x ↔
      p x ∧ ∃ earlier later, xs = earlier ++ x :: later ∧ ∀ y ∈ later, p y = false := by
  rw [List.find?_eq_some_iff_append]
  constructor
  · rintro ⟨hx, later, earlier, hxs, hlater⟩
    refine ⟨hx, earlier.reverse, later.reverse, ?_, ?_⟩
    · rw [← List.reverse_reverse xs, hxs]
      simp
    · intro y hy
      simpa using hlater y (List.mem_reverse.mp hy)
  · rintro ⟨hx, earlier, later, rfl, hlater⟩
    refine ⟨hx, later.reverse, earlier.reverse, by simp, ?_⟩
    intro y hy
    simpa using hlater y (List.mem_reverse.mp hy)

theorem find?_reverse_of_later {α : Type} {p : α → Bool} {earlier later : List α} {x : α}
    (h : ∃ y ∈ later, p y = true) :
    ∃ y ∈ later, (earlier ++ x :: later).reverse.find? p = some y := by
  obtain ⟨y, hy, hp⟩ := h
  have hsome : (later.reverse.find? p).isSome :=
    List.find?_isSome.mpr ⟨y, List.mem_reverse.mpr hy, hp⟩
  obtain ⟨z, hz⟩ := Option.isSome_iff_exists.mp hsome
  refine ⟨z, List.mem_reverse.mp (List.mem_of_find?_eq_some hz), ?_⟩
  rw [List.reverse_append, List.reverse_cons, List.find?_append, List.find?_append, hz]
  rfl

theorem lookup_foldl {σ α : Type} {add : σ → α → σ} (lookup : σ → Option α) (answers : α → Bool)
    (h : ∀ l x, lookup (add l x) = if answers x then some x else lookup l) (l : σ) (xs : List α) :
    lookup (xs.foldl add l) = (xs.reverse.find? answers).or (lookup l) := by
  induction xs generalizing l with
  | nil => rfl
  | cons x xs ih =>
    rw [List.foldl_cons, ih, h, List.reverse_cons, List.find?_append, Option.or_assoc]
    cases hx : answers x <;> simp [hx]

namespace Library

theorem ordinal?_add (l : Library) (s : Service) (n : Int) :
    (l.add s).ordinal? n = if s.ordinal == some n then some s else l.ordinal? n := by
  unfold ordinal? add
  cases s.ordinal with
  | none => rfl
  | some m => simp [Table.get?_insert]

theorem name?_add (l : Library) (s : Service) (name : String) :
    (l.add s).name? name = if s.name == name then some s else l.name? name := by
  unfold name? add
  simp [Table.get?_insert]

theorem ordinal?_ofServices (moduleName : String) (services : List Service) (n : Int) :
    (ofServices moduleName services).ordinal? n =
      services.reverse.find? (·.ordinal == some n) := by
  have hempty : (empty moduleName).ordinal? n = none := rfl
  have h := lookup_foldl (·.ordinal? n) (·.ordinal == some n) (fun l s => ordinal?_add l s n)
    (empty moduleName) services
  rwa [hempty, Option.or_none] at h

theorem name?_ofServices (moduleName : String) (services : List Service) (name : String) :
    (ofServices moduleName services).name? name = services.reverse.find? (·.name == name) := by
  have hempty : (empty moduleName).name? name = none := rfl
  have h := lookup_foldl (·.name? name) (·.name == name) (fun l s => name?_add l s name)
    (empty moduleName) services
  rwa [hempty, Option.or_none] at h

theorem moduleName_ofServices (moduleName : String) (services : List Service) :
    (ofServices moduleName services).moduleName = moduleName := by
  have h : ∀ l : Library, (services.foldl add l).moduleName = l.moduleName := by
    induction services with
    | nil => exact fun l => rfl
    | cons s services ih => exact fun l => ih (l.add s)
  exact h (empty moduleName)

def Coherent (l : Library) : Prop :=
  (∀ n s, l.ordinal? n = some s → s.ordinal = some n ∧ l.name? s.name = some s) ∧
    ∀ name s n, l.name? name = some s → s.ordinal = some n → l.ordinal? n = some s

section
variable {moduleName : String} {services : List Service} {s : Service}

theorem ordinal?_eq_some_iff {n : Int} : (ofServices moduleName services).ordinal? n = some s ↔
    s.ordinal = some n ∧ ∃ earlier later, services = earlier ++ s :: later ∧
      ¬∃ t ∈ later, t.ordinal = some n := by
  rw [ordinal?_ofServices, find?_reverse_eq_some_iff]
  simp

theorem name?_eq_some_iff {name : String} :
    (ofServices moduleName services).name? name = some s ↔
      s.name = name ∧ ∃ earlier later, services = earlier ++ s :: later ∧
        ¬∃ t ∈ later, t.name = name := by
  rw [name?_ofServices, find?_reverse_eq_some_iff]
  simp

theorem exists_ordinal?_of_later {earlier later : List Service} {n : Int}
    (h : ∃ t ∈ later, t.ordinal = some n) :
    ∃ t ∈ later, (ofServices moduleName (earlier ++ s :: later)).ordinal? n = some t := by
  rw [ordinal?_ofServices]
  apply find?_reverse_of_later
  simpa using h

theorem exists_name?_of_later {earlier later : List Service} {name : String}
    (h : ∃ t ∈ later, t.name = name) :
    ∃ t ∈ later, (ofServices moduleName (earlier ++ s :: later)).name? name = some t := by
  rw [name?_ofServices]
  apply find?_reverse_of_later
  simpa using h

end

/-- What an index gives has the key it was asked for. The indexes are coherent exactly if a service
that gives way in one of them gives way in the other one too. -/
theorem ofServices_coherent_iff (moduleName : String) (services : List Service) :
    let l := ofServices moduleName services
    (∀ n s, l.ordinal? n = some s → s.ordinal = some n) ∧
      (∀ name s, l.name? name = some s → s.name = name) ∧
      (l.Coherent ↔ ∀ earlier s later n, services = earlier ++ s :: later → s.ordinal = some n →
        ((∃ t ∈ later, t.ordinal = some n) ↔ ∃ t ∈ later, t.name = s.name)) := by
  intro l
  refine ⟨?_, ?_, ?_, ?_⟩
  · intro n s h
    exact (ordinal?_eq_some_iff.mp h).1
  · intro name s h
    exact (name?_eq_some_iff.mp h).1
  · rintro ⟨hordinals, hnames⟩ earlier s later n rfl hn
    constructor
    · intro hreplaced
      apply Classical.byContradiction
      intro hkept
      have hname : l.name? s.name = some s :=
        name?_eq_some_iff.mpr ⟨rfl, earlier, later, rfl, hkept⟩
      obtain ⟨t, ht, hlast⟩ := exists_ordinal?_of_later hreplaced
      -- Only the later service is found under the ordinal, so the name cannot lead to this one.
      cases (hnames _ s n hname hn).symm.trans hlast
      exact hkept ⟨s, ht, rfl⟩
    · intro hreplaced
      apply Classical.byContradiction
      intro hkept
      have hordinal : l.ordinal? n = some s :=
        ordinal?_eq_some_iff.mpr ⟨hn, earlier, later, rfl, hkept⟩
      obtain ⟨t, ht, hlast⟩ := exists_name?_of_later hreplaced
      cases (hordinals n s hordinal).2.symm.trans hlast
      exact hkept ⟨s, ht, hn⟩
  · intro hboth
    refine ⟨?_, ?_⟩
    · intro n s h
      obtain ⟨hn, earlier, later, hs, hkept⟩ := ordinal?_eq_some_iff.mp h
      rw [hboth earlier s later n hs hn] at hkept
      exact ⟨hn, name?_eq_some_iff.mpr ⟨rfl, earlier, later, hs, hkept⟩⟩
    · intro name s n h hn
      obtain ⟨rfl, earlier, later, hs, hkept⟩ := name?_eq_some_iff.mp h
      rw [← hboth earlier s later n hs hn] at hkept
      exact ordinal?_eq_some_iff.mpr ⟨hn, earlier, later, hs, hkept⟩

theorem replaced_service_found_by_ordinal :
    let replaced : Service := ⟨"Sleep", some 17, none⟩
    let service : Service := ⟨"Sleep", some 18, none⟩
    let l := ofServices "KERNEL32" [replaced, service]
    l.ordinal? 17 = some replaced ∧ l.name? "Sleep" = some service ∧ ¬l.Coherent := by
  intro replaced service l
  have hordinal : l.ordinal? 17 = some replaced := by decide
  have hname : l.name? "Sleep" = some service := by decide
  refine ⟨hordinal, hname, ?_⟩
  rintro ⟨hordinals, -⟩
  have hsame : l.name? "Sleep" = some replaced := (hordinals 17 replaced hordinal).2
  rw [hname] at hsame
  exact absurd hsame (by decide)

end Library

end RegisterTransfer.TypeLibrary
