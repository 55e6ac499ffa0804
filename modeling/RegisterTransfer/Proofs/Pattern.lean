import RegisterTransfer.Pattern

namespace RegisterTransfer

namespace Pattern
variable {c d : Captures} {e : Expression}

theorem extend_anyIdentifier {name : String} : (anyIdentifier name).extend e c = some d ↔
    ∃ id, e = .identifier id ∧ c.bind name e = some d := by
  constructor
  · intro h
    cases e with
    | identifier id => exact ⟨id, rfl, h⟩
    | _ => cases h
  · rintro ⟨id, rfl, h⟩
    exact h

theorem extend_anyConstant {name : String} : (anyConstant name).extend e c = some d ↔
    ∃ k, e = .constant k ∧ c.bind name e = some d := by
  constructor
  · intro h
    cases e with
    | constant k => exact ⟨k, rfl, h⟩
    | _ => cases h
  · rintro ⟨k, rfl, h⟩
    exact h

theorem extend_binary {op : Operator} {wanted : Option DataType} {left right : Pattern} :
    (binary op wanted left right).extend e c = some d ↔
      ∃ t l r b, e = .binary op t l r ∧ allows wanted t ∧
        left.extend l c = some b ∧ right.extend r b = some d := by
  constructor
  · intro h
    cases e with
    | binary op' t l r =>
      simp only [extend] at h
      split at h
      · rename_i ha
        obtain ⟨b, hl, hr⟩ := Option.bind_eq_some_iff.mp h
        exact ⟨t, l, r, b, by rw [ha.1], ha.2, hl, hr⟩
      · cases h
    | _ => cases h
  · rintro ⟨t, l, r, b, rfl, ha, hl, hr⟩
    rw [extend, if_pos ⟨rfl, ha⟩, hl, Option.bind_some, hr]

theorem extend_memory {location : Pattern} {wanted : Option DataType} :
    (memory location wanted).extend e c = some d ↔
      ∃ l t, e = .memory l t ∧ allows wanted t ∧ location.extend l c = some d := by
  constructor
  · intro h
    cases e with
    | memory l t =>
      simp only [extend] at h
      split at h
      · rename_i ha
        exact ⟨l, t, rfl, ha, h⟩
      · cases h
    | _ => cases h
  · rintro ⟨l, t, rfl, ha, hl⟩
    rw [extend, if_pos ha, hl]

end Pattern

namespace TransferPattern
variable {c d : Captures} {t : Transfer}

theorem extend_assignment {destination source : Pattern} :
    (assignment destination source).extend t c = some d ↔
      ∃ x e b, t = .assignment x e ∧ destination.extend x c = some b ∧
        source.extend e b = some d := by
  constructor
  · intro h
    cases t with
    | assignment x e =>
      obtain ⟨b, hx, he⟩ := Option.bind_eq_some_iff.mp h
      exact ⟨x, e, b, rfl, hx, he⟩
    | _ => cases h
  · rintro ⟨x, e, b, rfl, hx, he⟩
    rw [extend, hx, Option.bind_some, he]

theorem extend_goto {target : Pattern} {kind : TransferClass} :
    (goto target kind).extend t c = some d ↔
      ∃ e, t = .goto e kind ∧ target.extend e c = some d := by
  constructor
  · intro h
    cases t with
    | goto e kind' =>
      simp only [extend] at h
      split at h
      · rename_i hk
        exact ⟨e, by rw [hk], h⟩
      · cases h
    | _ => cases h
  · rintro ⟨e, rfl, he⟩
    rw [extend, if_pos rfl, he]

theorem extendAll_cons {p : TransferPattern} {ps : List TransferPattern} {ts : List Transfer} :
    extendAll (p :: ps) ts c = some d ↔
      ∃ t rest b, ts = t :: rest ∧ p.extend t c = some b ∧ extendAll ps rest b = some d := by
  constructor
  · intro h
    cases ts with
    | nil => cases h
    | cons t rest =>
      obtain ⟨b, ht, hr⟩ := Option.bind_eq_some_iff.mp h
      exact ⟨t, rest, b, rfl, ht, hr⟩
  · rintro ⟨t, rest, b, rfl, ht, hr⟩
    rw [extendAll, ht, Option.bind_some, hr]

end TransferPattern

end RegisterTransfer
