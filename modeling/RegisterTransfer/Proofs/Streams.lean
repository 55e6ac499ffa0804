import RegisterTransfer.Proofs.Session

/-!
Sessions as streams. The instructions of an image and their clusters come in lockstep, and they tile
the image up to its end or to the first bytes that are no instruction.
-/

namespace RegisterTransfer

namespace Source

section
variable {σ α : Type} (next : σ → Option (α × σ))

def pull (s : σ) : Option α × σ :=
  match next s with
  | none => (none, s)
  | some (x, t) => (some x, t)

def nth : Nat → σ → Option α
  | 0, s => (pull next s).1
  | n + 1, s => nth n (pull next s).2

def take : Nat → σ → List α × σ
  | 0, s => ([], s)
  | n + 1, s =>
    match next s with
    | none => ([], s)
    | some (x, t) => (x :: (take n t).1, (take n t).2)

variable {next}

theorem nth_eq_none {s : σ} (h : next s = none) (n : Nat) : nth next n s = none := by
  have hp : pull next s = (none, s) := by
    rw [pull, h]
  induction n with
  | zero => rw [nth, hp]
  | succ n ih => rw [nth, hp, ih]

theorem take_of_le {m n : Nat} (h : m ≤ n) (s : σ) :
    (take next m s).1 = (take next n s).1.take m := by
  induction m generalizing n s with
  | zero => rfl
  | succ m ih =>
    obtain ⟨k, rfl⟩ : ∃ k, n = k + 1 := ⟨n - 1, by omega⟩
    rw [take, take]
    cases next s with
    | none => rfl
    | some pulled =>
      have ht := ih (Nat.le_of_succ_le_succ h) pulled.2
      exact congrArg (pulled.1 :: ·) ht

theorem nth_add (n k : Nat) (s : σ) : nth next (n + k) s = nth next k (take next n s).2 := by
  induction n generalizing s with
  | zero => rw [Nat.zero_add, take]
  | succ n ih =>
    rw [take]
    cases hs : next s with
    | none => rw [nth_eq_none hs, nth_eq_none hs]
    | some pulled =>
      have hp : pull next s = (some pulled.1, pulled.2) := by
        rw [pull, hs]
      rw [Nat.succ_add, nth, hp, ih]

theorem take_succ_snd (n : Nat) (s : σ) :
    (take next (n + 1) s).2 = (pull next (take next n s).2).2 := by
  induction n generalizing s with
  | zero =>
    rw [take, take, pull]
    cases next s with
    | none => rfl
    | some pulled => rfl
  | succ n ih =>
    rw [take]
    cases hs : next s with
    | none =>
      have hp : pull next s = (none, s) := by
        rw [pull, hs]
      have ht : take next (n + 1) s = ([], s) := by
        rw [take, hs]
      rw [ht, hp]
    | some pulled =>
      have ht : (take next (n + 1) s).2 = (take next n pulled.2).2 := by
        rw [take, hs]
      rw [ht]
      exact ih pulled.2

theorem nth_eq_getElem? {left : σ → Nat} (hl : ∀ s x t, next s = some (x, t) → left t < left s)
    (k : Nat) {n : Nat} {s : σ} (hn : left s ≤ n) : nth next k s = (take next n s).1[k]? := by
  -- Fewer items are left after each, so a source that is asked for enough is over in the end.
  induction n generalizing k s with
  | zero =>
    have hs : next s = none := by
      cases hs : next s with
      | none => rfl
      | some pulled =>
        have := hl s pulled.1 pulled.2 hs
        omega
    rw [nth_eq_none hs, take]
    rfl
  | succ n ih =>
    cases hs : next s with
    | none =>
      rw [nth_eq_none hs, take, hs]
      rfl
    | some pulled =>
      obtain ⟨x, t⟩ := pulled
      have hp : pull next s = (some x, t) := by
        rw [pull, hs]
      have ht : left t ≤ n := by
        have := hl s x t hs
        omega
      rw [take, hs]
      cases k with
      | zero => rw [nth, hp, List.getElem?_cons_zero]
      | succ k => rw [nth, hp, ih k ht, List.getElem?_cons_succ]

end

section
variable {σ τ α β γ : Type} {next : σ → Option (α × σ)} {next' : τ → Option (β × τ)}

/-- The two sources are over together or deliver items with the same view, and stay related. -/
def Simulates (next : σ → Option (α × σ)) (next' : τ → Option (β × τ)) (f : α → γ) (g : β → γ)
    (R : σ → τ → Prop) : Prop :=
  ∀ s t, R s t → (next s = none ∧ next' t = none) ∨
    ∃ x s' y t', next s = some (x, s') ∧ next' t = some (y, t') ∧ f x = g y ∧ R s' t'

theorem Simulates.take {f : α → γ} {g : β → γ} {R : σ → τ → Prop}
    (h : Simulates next next' f g R) (n : Nat) {s : σ} {t : τ} (hR : R s t) :
    (take next n s).1.map f = (take next' n t).1.map g ∧
      R (take next n s).2 (take next' n t).2 := by
  induction n generalizing s t with
  | zero => exact ⟨rfl, hR⟩
  | succ n ih =>
    obtain ⟨hs, ht⟩ | ⟨x, s', y, t', hs, ht, hxy, hR'⟩ := h s t hR
    · rw [Source.take, Source.take, hs, ht]
      exact ⟨rfl, hR⟩
    · obtain ⟨hitems, hend⟩ := ih hR'
      rw [Source.take, Source.take, hs, ht]
      refine ⟨?_, hend⟩
      rw [List.map_cons, List.map_cons, hxy, hitems]

end

end Source

namespace Decoding

theorem take_eq (n : Nat) (s : Decoding) : s.take n = Source.take next n s := by
  induction n generalizing s with
  | zero => rfl
  | succ n ih =>
    rw [take, Source.take]
    cases s.next with
    | none => rfl
    | some pulled =>
      obtain ⟨item, t⟩ := pulled
      simp only [ih]

theorem length_take_le (n : Nat) (s : Decoding) : (s.take n).1.length ≤ n := by
  rw [take_eq, Source.take_of_le (Nat.le_refl n), List.length_take]
  exact Nat.min_le_left _ _

theorem take_succ (n : Nat) (s : Decoding) :
    (s.take (n + 1)).1 = (s.take n).1 ++ (s.take (n + 1)).1[n]?.toList := by
  have hn : (s.take n).1 = (s.take (n + 1)).1.take n := by
    rw [take_eq, take_eq]
    exact Source.take_of_le (Nat.le_succ n) s
  have hall := List.take_of_length_le (length_take_le (n + 1) s)
  rw [List.take_add_one] at hall
  rw [hn]
  exact hall.symm

theorem take_succ_of_getElem? {n : Nat} {s : Decoding} {item : Except DecodeError Instruction}
    (h : (s.take (n + 1)).1[n]? = some item) : (s.take (n + 1)).1 = (s.take n).1 ++ [item] := by
  have hsucc := take_succ n s
  rw [h] at hsucc
  exact hsucc

theorem next_eq (s : Decoding) : s.next =
    if s.failed || s.cursor.isAtEnd then none
    else
      match s.architecture.decode? s.cursor with
      | some i => some (.ok i, { s with cursor := s.cursor.advance i.length })
      | none => some (.error ⟨s.cursor.address⟩, { s with failed := true }) := by
  unfold next Architecture.step
  cases s.architecture.decode? s.cursor with
  | some i => rfl
  | none => rfl

theorem next_cases (s : Decoding) :
    ((s.failed || s.cursor.isAtEnd) = true ∧ s.next = none) ∨
      (s.failed || s.cursor.isAtEnd) = false ∧
        ((∃ i, s.architecture.decode? s.cursor = some i ∧
            s.next = some (.ok i, { s with cursor := s.cursor.advance i.length })) ∨
          s.architecture.decode? s.cursor = none ∧
            s.next = some (.error ⟨s.cursor.address⟩, { s with failed := true })) := by
  rw [next_eq]
  cases s.failed || s.cursor.isAtEnd with
  | true => exact .inl ⟨rfl, rfl⟩
  | false =>
    refine .inr ⟨rfl, ?_⟩
    cases s.architecture.decode? s.cursor with
    | some i => exact .inl ⟨i, rfl, rfl⟩
    | none => exact .inr ⟨rfl, rfl⟩

def left (s : Decoding) : Nat := if s.failed then 0 else s.cursor.remaining

theorem left_next {s t : Decoding} {item : Except DecodeError Instruction}
    (h : s.next = some (item, t)) : t.left < s.left := by
  obtain ⟨-, hn⟩ | ⟨hgoes, hn⟩ := s.next_cases
  · cases hn.symm.trans h
  · obtain ⟨hf, he⟩ := Bool.or_eq_false_iff.mp hgoes
    have hr := Cursor.isAtEnd_eq_false_iff.mp he
    have hs : s.left = s.cursor.remaining := by simp [left, hf]
    rw [hs]
    obtain ⟨i, -, hn⟩ | ⟨-, hn⟩ := hn
    · cases hn.symm.trans h
      have hlen := i.length_pos
      have hadv := s.cursor.remaining_advance i.length
      have ht : left { s with cursor := s.cursor.advance i.length } =
          (s.cursor.advance i.length).remaining := by simp [left, hf]
      omega
    · cases hn.symm.trans h
      have ht : left { s with failed := true } = 0 := rfl
      omega

theorem left_le (s : Decoding) : s.left ≤ s.cursor.remaining := by
  unfold left
  split
  · exact Nat.zero_le _
  · exact Nat.le_refl _

theorem cursor_of_take {n : Nat} {s : Decoding} {i : Instruction} (h : .ok i ∈ (s.take n).1) :
    ∃ c, c.image = s.cursor.image ∧ s.architecture.decode? c = some i := by
  induction n generalizing s with
  | zero => cases h
  | succ n ih =>
    rw [take] at h
    obtain ⟨-, hn⟩ | ⟨-, ⟨j, hj, hn⟩ | ⟨-, hn⟩⟩ := s.next_cases
    · rw [hn] at h
      cases h
    · rw [hn] at h
      rcases List.mem_cons.mp h with hij | h
      · cases hij
        exact ⟨s.cursor, rfl, hj⟩
      · exact ih (s := { s with cursor := s.cursor.advance j.length }) h
    · rw [hn] at h
      rcases List.mem_cons.mp h with hij | h
      · cases hij
      · exact ih (s := { s with failed := true }) h

theorem decode?_of_take {n : Nat} {s : Decoding} {i : Instruction}
    (h : .ok i ∈ (s.take n).1) : ∃ c, s.architecture.decode? c = some i := by
  obtain ⟨c, -, hc⟩ := cursor_of_take h
  exact ⟨c, hc⟩

end Decoding

namespace Session

theorem take_eq (host : Host) (n : Nat) (s : Session) :
    s.take host n = Source.take (next host) n s := by
  induction n generalizing s with
  | zero => rfl
  | succ n ih =>
    rw [take, Source.take]
    cases s.next host with
    | none => rfl
    | some pulled =>
      obtain ⟨item, t⟩ := pulled
      simp only [ih]

theorem nth_eq (host : Host) (n : Nat) (s : Session) :
    Source.nth (next host) n s = (Source.pull (next host) (s.take host n).2).1 := by
  rw [take_eq]
  exact Source.nth_add n 0 s

theorem take_succ_snd (host : Host) (n : Nat) (s : Session) :
    (s.take host (n + 1)).2 = (Source.pull (next host) (s.take host n).2).2 := by
  rw [take_eq, take_eq]
  exact Source.take_succ_snd n s

def decoding (s : Session) : Decoding := ⟨s.architecture, s.cursor, s.failed⟩

theorem next_cases (host : Host) (s : Session) :
    (s.decoding.next = none ∧ s.next host = none) ∨
      (∃ i, s.decoding.next = some (.ok i, (s.past host i).decoding) ∧
        s.next host = some (.ok (s.cluster host i), s.past host i)) ∨
      ∃ e, s.decoding.next = some (.error e, { s with failed := true }.decoding) ∧
        s.next host = some (.error e, { s with failed := true }) := by
  rw [next_eq]
  obtain ⟨hover, hd⟩ | ⟨hgoes, hd⟩ := s.decoding.next_cases
  · exact .inl ⟨hd, if_pos hover⟩
  · have hgoes : (s.failed || s.cursor.isAtEnd) = false := hgoes
    rw [hgoes]
    obtain ⟨i, hi, hd⟩ | ⟨hi, hd⟩ := hd
    · have hi : s.architecture.decode? s.cursor = some i := hi
      rw [hi]
      exact .inr (.inl ⟨i, hd, rfl⟩)
    · have hi : s.architecture.decode? s.cursor = none := hi
      rw [hi]
      exact .inr (.inr ⟨_, hd, rfl⟩)

end Session

def Instruction.extent (i : Instruction) : Address × Nat := (i.address, i.length)

def Cluster.extent (x : Cluster) : Address × Nat := (x.address, x.length)

theorem Session.simulates_decoding (host : Host) :
    Source.Simulates Decoding.next (next host) (Except.map Instruction.extent)
      (Except.map Cluster.extent) (fun d s => d = s.decoding) := by
  rintro d s rfl
  obtain hover | ⟨i, hd, hs⟩ | ⟨e, hd, hs⟩ := s.next_cases host
  · exact .inl hover
  · exact .inr ⟨_, _, _, _, hd, hs, rfl, rfl⟩
  · exact .inr ⟨_, _, _, _, hd, hs, rfl, rfl⟩

theorem Session.left_next {host : Host} {s t : Session} {item : Except DecodeError Cluster}
    (h : s.next host = some (item, t)) : t.decoding.left < s.decoding.left := by
  obtain ⟨-, hn⟩ | ⟨x, d, y, u, hd, hu, -, rfl⟩ := simulates_decoding host s.decoding s rfl
  · rw [hn] at h
    cases h
  · cases hu.symm.trans h
    exact Decoding.left_next hd

theorem Session.getElem?_run (host : Host) (s : Session) (n : Nat) :
    (s.run host).1[n]? = Source.nth (next host) n s := by
  rw [run, take_eq]
  exact (Source.nth_eq_getElem? (fun _ _ _ => left_next) n s.decoding.left_le).symm

def taken : List (Except DecodeError Instruction) → Nat
  | [] => 0
  | .ok i :: items => i.length + taken items
  | .error _ :: items => taken items

/-- From the cursor on there is one instruction after another, as far as the end of the image or up
to the first bytes that are none. -/
structure Tiles (a : Architecture) (c : Cursor) (items : List (Except DecodeError Instruction)) :
    Prop where
  instruction : ∀ n i, items[n]? = some (.ok i) →
    a.decode? (c.advance (taken (items.take n))) = some i ∧
      i.address =
        .wrap c.image.base.bits (c.image.base.value + (c.offset + taken (items.take n))) ∧
      taken (items.take n) + i.length ≤ c.remaining
  failure : ∀ n e, items[n]? = some (.error e) → n + 1 = items.length ∧
    a.Malformed (c.advance (taken (items.take n))) ∧
      e.address =
        .wrap c.image.base.bits (c.image.base.value + (c.offset + taken (items.take n))) ∧
      taken (items.take n) < c.remaining
  whole : (∀ e, .error e ∉ items) → taken items = c.remaining

section Tiling
variable {a : Architecture} {c : Cursor} {items : List (Except DecodeError Instruction)}

theorem tiles_nil (h : c.remaining = 0) : Tiles a c [] where
  instruction n i hn := by
    cases hn
  failure n e hn := by
    cases hn
  whole _ := h.symm

theorem tiles_error (hs : c.image.size ≤ Cursor.maxOffset) (hr : 0 < c.remaining)
    (hd : a.decode? c = none) : Tiles a c [.error ⟨c.address⟩] where
  instruction n i hn := by
    cases n with
    | zero => cases hn
    | succ n => cases hn
  failure n e hn := by
    cases n with
    | zero =>
      cases hn
      exact ⟨rfl, (Architecture.decode?_eq_none_iff hs hr).mp hd, c.address_eq, hr⟩
    | succ n => cases hn
  whole h := absurd (List.mem_singleton_self _) (h ⟨c.address⟩)

theorem tiles_cons (hs : c.image.size ≤ Cursor.maxOffset) {i : Instruction}
    (hd : a.decode? c = some i) (h : Tiles a (c.advance i.length) items) :
    Tiles a c (.ok i :: items) where
  instruction n j hn := by
    have hlen := Architecture.length_le_of_decode? hs hd
    cases n with
    | zero =>
      cases hn
      refine ⟨hd, ?_, ?_⟩
      · rw [Architecture.address_of_decode? hd]
        exact c.address_eq
      · rw [List.take_zero, taken, Nat.zero_add]
        exact hlen
    | succ n =>
      obtain ⟨hj, haddr, hfit⟩ := h.instruction n j hn
      rw [Cursor.advance_advance] at hj
      rw [Cursor.remaining_advance] at hfit
      rw [List.take_succ_cons, taken, ← Nat.add_assoc c.offset]
      exact ⟨hj, haddr, by omega⟩
  failure n e hn := by
    cases n with
    | zero => cases hn
    | succ n =>
      obtain ⟨hlast, hbad, haddr, hfit⟩ := h.failure n e hn
      rw [Cursor.advance_advance] at hbad
      rw [Cursor.remaining_advance] at hfit
      rw [List.take_succ_cons, taken, ← Nat.add_assoc c.offset]
      exact ⟨congrArg (· + 1) hlast, hbad, haddr, by omega⟩
  whole hok := by
    have hlen := Architecture.length_le_of_decode? hs hd
    have hrest := h.whole fun e he => hok e (List.mem_cons_of_mem _ he)
    rw [Cursor.remaining_advance] at hrest
    rw [taken, hrest]
    omega

theorem take_tiles (hs : c.image.size ≤ Cursor.maxOffset) {n : Nat} (hn : c.remaining ≤ n) :
    Tiles a c ((⟨a, c, false⟩ : Decoding).take n).1 := by
  -- The bytes that remain bound the number of items, as each instruction takes one at least.
  induction n generalizing c with
  | zero => exact tiles_nil (Nat.le_zero.mp hn)
  | succ n ih =>
    rw [Decoding.take]
    obtain ⟨hover, hnext⟩ | ⟨hgoes, hnext⟩ := Decoding.next_cases ⟨a, c, false⟩
    · rw [hnext]
      exact tiles_nil (beq_iff_eq.mp hover)
    · have hr : 0 < c.remaining := Cursor.isAtEnd_eq_false_iff.mp hgoes
      obtain ⟨i, hd, hnext⟩ | ⟨hd, hnext⟩ := hnext
      · have hlen := i.length_pos
        have hadv := c.remaining_advance i.length
        rw [hnext]
        exact tiles_cons hs hd (ih (c := c.advance i.length) hs (by omega))
      · have hfailed : ∀ m, ((⟨a, c, true⟩ : Decoding).take m).1 = [] := by
          intro m
          cases m <;> rfl
        rw [hnext]
        simp only [hfailed]
        exact tiles_error hs hr hd

end Tiling

def Fused {α : Type} (stream : Nat → Option (Except DecodeError α)) : Prop :=
  ∀ m n, m < n → (∀ x, stream m ≠ some (.ok x)) → stream n = none

theorem Tiles.fused {a : Architecture} {c : Cursor} {items : List (Except DecodeError Instruction)}
    (h : Tiles a c items) : Fused fun n => items[n]? := by
  intro m n hmn hm
  cases hi : items[m]? with
  | none =>
    rw [List.getElem?_eq_none_iff] at hi ⊢
    omega
  | some item =>
    cases item with
    | ok i => exact absurd hi (hm i)
    | error e =>
      have hlast := (h.failure m e hi).1
      rw [List.getElem?_eq_none_iff]
      omega

theorem Fused.of_map {α β γ : Type} {f : α → γ} {g : β → γ} {xs : List (Except DecodeError α)}
    {ys : List (Except DecodeError β)} (h : Fused fun n => xs[n]?)
    (hmap : xs.map (Except.map f) = ys.map (Except.map g)) : Fused fun n => ys[n]? := by
  have hlen : xs.length = ys.length := by simpa using congrArg List.length hmap
  intro m n hmn hm
  have hx : xs[n]? = none := by
    apply h m n hmn
    intro x hx
    have hget : (xs.map (Except.map f))[m]? = (ys.map (Except.map g))[m]? := by
      rw [hmap]
    have hx' : xs[m]? = some (.ok x) := hx
    rw [List.getElem?_map, List.getElem?_map, hx'] at hget
    obtain ⟨item, hitem, hg⟩ := Option.map_eq_some_iff.mp hget.symm
    cases item with
    | ok y => exact hm y hitem
    | error e => cases hg
  rw [List.getElem?_eq_none_iff] at hx ⊢
  omega

theorem streams_tile_image (host : Host) (a : Architecture) (c : Cursor) (k : Knowledge) (f : Frame)
    (hs : c.image.size ≤ Cursor.maxOffset) :
    let decoding := fun n => Source.nth Decoding.next n (Decoding.start a c)
    let lifting := fun n => Source.nth (Session.next host) n (Session.start a c k f)
    let decoded := ((Decoding.start a c).run).1
    let lifted := ((Session.start a c k f).run host).1
    (∀ n, decoding n = decoded[n]?) ∧ (∀ n, lifting n = lifted[n]?) ∧
      decoded.map (Except.map Instruction.extent) = lifted.map (Except.map Cluster.extent) ∧
      Tiles a c decoded ∧ Fused decoding ∧ Fused lifting := by
  intro decoding lifting decoded lifted
  have hmap : decoded.map (Except.map Instruction.extent) =
      lifted.map (Except.map Cluster.extent) := by
    have h := (Session.simulates_decoding host).take c.remaining
      (s := Decoding.start a c) (t := Session.start a c k f) rfl
    rw [← Decoding.take_eq, ← Session.take_eq] at h
    exact h.1
  have hdecoding : ∀ n, decoding n = decoded[n]? := by
    intro n
    have hd : decoded = (Source.take Decoding.next c.remaining (Decoding.start a c)).1 :=
      congrArg Prod.fst (Decoding.take_eq c.remaining _)
    rw [hd]
    exact Source.nth_eq_getElem? (fun _ _ _ => Decoding.left_next) n (Nat.le_refl _)
  have hlifting : ∀ n, lifting n = lifted[n]? := by
    intro n
    have hl : lifted = (Source.take (Session.next host) c.remaining (Session.start a c k f)).1 :=
      congrArg Prod.fst (Session.take_eq host c.remaining _)
    rw [hl]
    exact Source.nth_eq_getElem? (fun _ _ _ => Session.left_next) n (Nat.le_refl _)
  have htiles : Tiles a c decoded := take_tiles hs (Nat.le_refl _)
  refine ⟨hdecoding, hlifting, hmap, htiles, ?_, ?_⟩
  · rw [funext hdecoding]
    exact htiles.fused
  · rw [funext hlifting]
    exact htiles.fused.of_map hmap

theorem streams_past_top :
    let c : Cursor := ⟨⟨.ptr16 0xFFFE, [0xA2, 0x05, 0xE8, 0x20, 0x00]⟩, 0, .little⟩
    let host : Host := ⟨fun _ _ => none, fun _ => none⟩
    let lifting := fun n =>
      Source.nth (Session.next host) n (Session.start .mos6502 c .empty (.empty 16))
    c.image.size ≤ Cursor.maxOffset ∧
      (lifting 0).map (Except.map Cluster.extent) = some (.ok (.ptr16 0xFFFE, 2)) ∧
      (lifting 1).map (Except.map Cluster.extent) = some (.ok (.ptr16 0x0000, 1)) ∧
      (lifting 2).map (Except.map Cluster.extent) = some (.error ⟨.ptr16 0x0001⟩) ∧
      ∀ n, lifting (n + 3) = none := by
  have hitems : ((Decoding.start .mos6502
      ⟨⟨.ptr16 0xFFFE, [0xA2, 0x05, 0xE8, 0x20, 0x00]⟩, 0, .little⟩).run).1.map
        (Except.map Instruction.extent) =
      [.ok (.ptr16 0xFFFE, 2), .ok (.ptr16 0x0000, 1), .error ⟨.ptr16 0x0001⟩] := rfl
  intro c host lifting
  have hsize : c.image.size ≤ Cursor.maxOffset := by decide
  obtain ⟨-, hlifting, hmap, -, -, hfused⟩ :=
    streams_tile_image host .mos6502 c .empty (.empty 16) hsize
  have hget : ∀ n, (lifting n).map (Except.map Cluster.extent) =
      [.ok (.ptr16 0xFFFE, 2), .ok (.ptr16 0x0000, 1), .error ⟨.ptr16 0x0001⟩][n]? := by
    intro n
    rw [← hitems, hmap, List.getElem?_map]
    exact congrArg _ (hlifting n)
  refine ⟨hsize, hget 0, hget 1, hget 2, ?_⟩
  intro n
  apply hfused 2 (n + 3) (by omega)
  intro x hx
  have h2 := hget 2
  rw [show lifting 2 = some (.ok x) from hx] at h2
  cases h2

end RegisterTransfer
