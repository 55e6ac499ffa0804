import Mathlib.Data.List.Infix
import RegisterTransfer.Proofs.Text.Encoding
import RegisterTransfer.Proofs.Text.Scanning
import RegisterTransfer.Proofs.TypeLibrary.Listings

/-!
Which module-definition files are refused, and at which line. Whether a line is bad depends on the
line and on the section that it stands in, so on the lines before it; the lines after it do not
count. What a file without a bad line gives is told line by line as well.
-/

namespace RegisterTransfer.TypeLibrary

namespace Definition

abbrev Line := List Char

def tokens (line : Line) : List (List Char) := Text.words (withoutComment line)

def Opens (keyword : String) (line : Line) : Prop :=
  ∃ first ∈ (tokens line).head?, Text.EqualButForCase first keyword.toList

theorem opens_iff {keyword : String} {line : Line} {first : List Char} {rest : List (List Char)}
    (h : tokens line = first :: rest) : Opens keyword line ↔ isWord first keyword = true := by
  unfold Opens isWord
  rw [h, Text.sameIgnoringCase_iff]
  simp

theorem not_opens_of_tokens_eq_nil {keyword : String} {line : Line} (h : tokens line = []) :
    ¬Opens keyword line := by
  rintro ⟨first, hfirst, -⟩
  rw [h] at hfirst
  cases hfirst

theorem not_opens_exports {line : Line} (h : Opens "LIBRARY" line) : ¬Opens "EXPORTS" line := by
  rintro ⟨first, hfirst, hexports⟩
  obtain ⟨_, hfirst', hlibrary⟩ := h
  cases hfirst.symm.trans hfirst'
  have hsame := (eq_of_beq ((Text.sameIgnoringCase_iff _ _).mpr hlibrary)).symm.trans
    (eq_of_beq ((Text.sameIgnoringCase_iff _ _).mpr hexports))
  exact absurd hsame (by decide)

instance (keyword : String) (line : Line) : Decidable (Opens keyword line) :=
  match h : tokens line with
  | [] => isFalse (not_opens_of_tokens_eq_nil h)
  | _ :: _ => decidable_of_iff _ (opens_iff h).symm

def InSection (passed : List Line) : Prop :=
  ∃ before opening since, passed = before ++ opening :: since ∧ Opens "EXPORTS" opening ∧
    ∀ line ∈ since, ¬Opens "LIBRARY" line

def Exports (passed : List Line) (line : Line) : Prop :=
  InSection passed ∧ tokens line ≠ [] ∧ ¬Opens "LIBRARY" line ∧ ¬Opens "EXPORTS" line

def Unnamed (line : Line) : Prop :=
  Opens "LIBRARY" line ∧ ∃ keyword rest, (tokens line).head? = some keyword ∧
    withoutComment line = keyword ++ rest ∧ ∀ c ∈ Text.trim rest, c = '"'

def Malformed (token : List Char) : Prop :=
  ∃ numeral, token = '@' :: numeral ∧
    ¬∃ n, Text.IsDecimal numeral n ∧ -0x80000000 ≤ n ∧ n < 0x80000000

def Faulty (passed : List Line) (line : Line) : Prop :=
  Unnamed line ∨ Exports passed line ∧ ∃ token ∈ (tokens line).tail, Malformed token

theorem malformed_cons_iff {numeral : List Char} :
    Malformed ('@' :: numeral) ↔ Text.int32? numeral = none := by
  unfold Malformed
  simp only [← Text.int32?_eq_some_iff, Option.eq_none_iff_forall_ne_some]
  constructor
  · rintro ⟨_, hcons, hnone⟩ n hn
    cases hcons
    exact hnone ⟨n, hn⟩
  · intro h
    exact ⟨numeral, rfl, fun ⟨n, hn⟩ => h n hn⟩

def ordinal? : List Char → Option Int
  | '@' :: numeral => Text.int32? numeral
  | _ => none

instance (token : List Char) : Decidable (Malformed token) :=
  decidable_of_iff (token.head? = some '@' ∧ ordinal? token = none) <| by
    unfold ordinal?
    split
    · rw [malformed_cons_iff]
      simp
    · rename_i hcons
      constructor
      · rintro ⟨hhead, -⟩
        obtain ⟨numeral, rfl⟩ := List.head?_eq_some_iff.mp hhead
        exact absurd rfl (hcons numeral)
      · rintro ⟨numeral, rfl, -⟩
        exact absurd rfl (hcons numeral)

def fault (line : Line) : Fault :=
  if Opens "LIBRARY" line then .unnamedLibrary
  else .badOrdinal (.ofList (((tokens line).tail.find? (Malformed ·)).getD []))

def title (line : Line) : String :=
  let keyword := (tokens line).headD []
  .ofList (Text.trimChar '"' (Text.trim ((withoutComment line).drop keyword.length)))

def service (line : Line) : Service :=
  ⟨exportedName ((tokens line).headD []), ((tokens line).tail.filterMap ordinal?).getLast?, none⟩

section Ordinals
variable {ts : List (List Char)}

theorem readOrdinal_malformed {numeral : List Char} (sofar : Option Int)
    (h : Malformed ('@' :: numeral)) :
    readOrdinal sofar (('@' :: numeral) :: ts) =
      .error (.badOrdinal (.ofList ('@' :: numeral))) := by
  rw [readOrdinal, malformed_cons_iff.mp h]

theorem readOrdinal_sound {t : List Char} (sofar : Option Int) (h : ¬Malformed t) :
    readOrdinal sofar (t :: ts) = readOrdinal ((ordinal? t).or sofar) ts := by
  by_cases ht : ∃ numeral, t = '@' :: numeral
  · obtain ⟨numeral, rfl⟩ := ht
    rw [malformed_cons_iff, ← ne_eq, Option.ne_none_iff_exists'] at h
    obtain ⟨n, hn⟩ := h
    rw [readOrdinal, ordinal?, hn]
    rfl
  · have hne : ∀ numeral, t = '@' :: numeral → False := fun numeral h => ht ⟨numeral, h⟩
    have hnone : ordinal? t = none := by
      rw [ordinal?]
      exact hne
    rw [readOrdinal, hnone, Option.none_or]
    exact hne

theorem readOrdinal_of_malformed {token : List Char} (sofar : Option Int)
    (h : ts.find? (Malformed ·) = some token) :
    readOrdinal sofar ts = .error (.badOrdinal (.ofList token)) := by
  induction ts generalizing sofar with
  | nil => cases h
  | cons t ts ih =>
    by_cases ht : Malformed t
    · rw [List.find?_cons_of_pos (by simpa using ht)] at h
      cases h
      obtain ⟨numeral, rfl, -⟩ := id ht
      exact readOrdinal_malformed sofar ht
    · rw [List.find?_cons_of_neg (by simpa using ht)] at h
      rw [readOrdinal_sound sofar ht, ih _ h]

theorem readOrdinal_of_sound (sofar : Option Int) (h : ∀ t ∈ ts, ¬Malformed t) :
    readOrdinal sofar ts = .ok ((ts.filterMap ordinal?).getLast?.or sofar) := by
  induction ts generalizing sofar with
  | nil => rfl
  | cons t ts ih =>
    obtain ⟨ht, hts⟩ := List.forall_mem_cons.mp h
    rw [readOrdinal_sound sofar ht, ih _ hts, List.filterMap_cons]
    cases ordinal? t with
    | none => rfl
    | some n =>
      rw [List.getLast?_cons]
      cases (ts.filterMap ordinal?).getLast? <;> rfl

end Ordinals

section Sections
variable {passed : List Line} {line : Line}

theorem inSection_append_exports (h : Opens "EXPORTS" line) : InSection (passed ++ [line]) :=
  ⟨passed, line, [], rfl, h, by simp⟩

theorem inSection_append_cases (h : InSection (passed ++ [line])) :
    Opens "EXPORTS" line ∨ InSection passed ∧ ¬Opens "LIBRARY" line := by
  obtain ⟨before, opening, since, heq, hopening, hsince⟩ := h
  rcases List.eq_nil_or_concat since with rfl | ⟨since, last, rfl⟩
  · obtain ⟨-, hline⟩ := List.append_inj' heq rfl
    cases hline
    exact .inl hopening
  · rw [List.concat_eq_append, ← List.cons_append, ← List.append_assoc] at heq
    obtain ⟨hpassed, hline⟩ := List.append_inj' heq rfl
    cases hline
    obtain ⟨hsince, hlast⟩ := List.forall_mem_append.mp (List.concat_eq_append ▸ hsince)
    exact .inr ⟨⟨before, opening, since, hpassed, hopening, hsince⟩,
      hlast _ (List.mem_singleton_self _)⟩

theorem inSection_append_of_inSection (h : InSection passed) (hline : ¬Opens "LIBRARY" line) :
    InSection (passed ++ [line]) := by
  obtain ⟨before, opening, since, rfl, hopening, hsince⟩ := h
  refine ⟨before, opening, since ++ [line], by simp, hopening, ?_⟩
  intro l hl
  rcases List.mem_append.mp hl with hl | hl
  · exact hsince l hl
  · rw [List.mem_singleton.mp hl]
    exact hline

theorem inSection_append_iff : InSection (passed ++ [line]) ↔
    Opens "EXPORTS" line ∨ InSection passed ∧ ¬Opens "LIBRARY" line := by
  constructor
  · exact inSection_append_cases
  · rintro (h | ⟨h, hline⟩)
    · exact inSection_append_exports h
    · exact inSection_append_of_inSection h hline

theorem not_inSection_nil : ¬InSection [] := by
  rintro ⟨before, opening, since, heq, -⟩
  cases before <;> cases heq

def sectionOpen (passed : List Line) : Bool :=
  passed.foldl
    (fun opened line => Opens "EXPORTS" line || opened && !decide (Opens "LIBRARY" line)) false

theorem sectionOpen_iff : sectionOpen passed = true ↔ InSection passed := by
  induction passed using List.reverseRecOn with
  | nil => exact iff_of_false Bool.false_ne_true not_inSection_nil
  | append_singleton passed line ih =>
    rw [inSection_append_iff, ← ih]
    simp [sectionOpen]

instance (passed : List Line) : Decidable (InSection passed) :=
  decidable_of_iff _ sectionOpen_iff

instance (passed : List Line) (line : Line) : Decidable (Exports passed line) :=
  inferInstanceAs (Decidable (_ ∧ _))

def placed (passed : List Line) : List Line → List (List Line × Line)
  | [] => []
  | line :: rest => (passed, line) :: placed (passed ++ [line]) rest

theorem placed_append (xs ys : List Line) :
    placed passed (xs ++ ys) = placed passed xs ++ placed (passed ++ xs) ys := by
  induction xs generalizing passed with
  | nil => simp [placed]
  | cons x xs ih => simp [placed, ih]

theorem mem_placed_iff {lines : List Line} {x : List Line × Line} : x ∈ placed passed lines ↔
    ∃ before after, lines = before ++ x.2 :: after ∧ x.1 = passed ++ before := by
  induction lines generalizing passed with
  | nil => simp [placed]
  | cons line lines ih =>
    rw [placed, List.mem_cons, ih]
    constructor
    · rintro (rfl | ⟨before, after, rfl, hx⟩)
      · exact ⟨[], lines, rfl, (List.append_nil passed).symm⟩
      · exact ⟨line :: before, after, rfl, by rw [hx, List.append_assoc]; rfl⟩
    · rintro ⟨before, after, heq, hx⟩
      cases before with
      | nil =>
        cases heq
        exact .inl (Prod.ext (hx.trans (List.append_nil passed)) rfl)
      | cons first before =>
        cases heq
        exact .inr ⟨before, after, rfl, by rw [hx, List.append_assoc]; rfl⟩

end Sections

def services (lines : List Line) : List Service :=
  ((placed [] lines).filter fun x => Exports x.1 x.2).map fun x => service x.2

def moduleName? (lines : List Line) : Option String :=
  (lines.filter (Opens "LIBRARY" ·)).getLast?.map title

section Growth
variable {passed : List Line} {line : Line}

theorem services_append_of_exports (h : Exports passed line) :
    services (passed ++ [line]) = services passed ++ [service line] := by
  simp [services, placed_append, placed, h]

theorem services_append_of_not_exports (h : ¬Exports passed line) :
    services (passed ++ [line]) = services passed := by
  simp [services, placed_append, placed, h]

theorem moduleName?_append_of_library (h : Opens "LIBRARY" line) :
    moduleName? (passed ++ [line]) = some (title line) := by
  simp [moduleName?, h]

theorem moduleName?_append_of_not_library (h : ¬Opens "LIBRARY" line) :
    moduleName? (passed ++ [line]) = moduleName? passed := by
  simp [moduleName?, h]

end Growth

structure Draft.Sums (d : Draft) (passed : List Line) : Prop where
  moduleName : d.moduleName = moduleName? passed
  exporting : d.exporting = true ↔ InSection passed
  exported : d.exported.reverse = services passed

section Steps
variable {d : Draft} {passed : List Line} {line : Line} {first : List Char}
  {rest : List (List Char)}

theorem withoutComment_eq (h : tokens line = first :: rest) :
    withoutComment line = first ++ (withoutComment line).drop first.length := by
  have hne : withoutComment line ≠ [] := by
    intro hnil
    rw [tokens, hnil] at h
    cases h
  rw [tokens, Text.words_of_head hne Text.head?_trim] at h
  rw [← (List.cons.inj h).1]
  exact (List.prefix_iff_eq_append.mp (List.takeWhile_prefix _)).symm

theorem exists_tokens {keyword : String} (h : Opens keyword line) :
    ∃ first rest, tokens line = first :: rest := by
  obtain ⟨first, hfirst, -⟩ := h
  obtain ⟨rest, hrest⟩ := List.head?_eq_some_iff.mp hfirst
  exact ⟨first, rest, hrest⟩

theorem unnamed_iff : Unnamed line ↔ Opens "LIBRARY" line ∧
    libraryName (withoutComment line) ((tokens line).headD []) = [] := by
  unfold Unnamed libraryName
  rw [Text.trimChar_eq_nil_iff]
  apply and_congr_right
  intro hl
  obtain ⟨first, rest, ht⟩ := exists_tokens hl
  rw [ht]
  constructor
  · rintro ⟨keyword, after, hkeyword, heq, hquotes⟩
    cases hkeyword
    rw [heq, List.headD_cons, List.drop_left]
    exact hquotes
  · intro hquotes
    exact ⟨first, _, rfl, withoutComment_eq ht, hquotes⟩

instance (line : Line) : Decidable (Unnamed line) := decidable_of_iff _ unnamed_iff.symm

instance (passed : List Line) (line : Line) : Decidable (Faulty passed line) :=
  inferInstanceAs (Decidable (_ ∨ _))

theorem addLine_of_tokens_eq_nil (h : tokens line = []) : d.addLine line = .ok d := by
  unfold tokens at h
  unfold Draft.addLine
  dsimp only
  rw [h]

theorem addLine_of_tokens (ht : tokens line = first :: rest) : d.addLine line =
    if Opens "LIBRARY" line then
      if Unnamed line then .error .unnamedLibrary
      else .ok { d with moduleName := some (title line), exporting := false }
    else if Opens "EXPORTS" line then .ok { d with exporting := true }
    else if d.exporting then
      (readExport first rest).map fun s => { d with exported := s :: d.exported }
    else .ok d := by
  have hlibrary : Opens "LIBRARY" line ↔ isWord first "LIBRARY" = true := opens_iff ht
  have hexports : Opens "EXPORTS" line ↔ isWord first "EXPORTS" = true := opens_iff ht
  have hunnamed : Unnamed line ↔
      Opens "LIBRARY" line ∧ libraryName (withoutComment line) first = [] := by
    rw [unnamed_iff, ht]
    rfl
  have hwords : Text.words (withoutComment line) = first :: rest := ht
  have htitle : title line = .ofList (libraryName (withoutComment line) first) := by
    unfold title libraryName
    rw [ht]
    rfl
  unfold Draft.addLine
  dsimp only
  rw [hwords]
  dsimp only
  by_cases hl : Opens "LIBRARY" line
  · rw [if_pos hl, if_pos (hlibrary.mp hl), htitle]
    split
    · rename_i hname
      rw [if_pos (hunnamed.mpr ⟨hl, hname⟩)]
    · rename_i hname
      rw [if_neg fun h => hname (hunnamed.mp h).2]
  · rw [if_neg hl, if_neg (mt hlibrary.mpr hl)]
    by_cases he : Opens "EXPORTS" line
    · rw [if_pos he, if_pos (hexports.mp he)]
    · rw [if_neg he, if_neg (mt hexports.mpr he)]

theorem Draft.Sums.addLine_of_faulty (hd : d.Sums passed) (h : Faulty passed line) :
    d.addLine line = .error (fault line) := by
  unfold fault
  rcases h with h | ⟨⟨hopen, hne, hl, he⟩, token, htoken, hmalformed⟩
  · obtain ⟨first, rest, ht⟩ := exists_tokens h.1
    rw [addLine_of_tokens ht, if_pos h.1, if_pos h, if_pos h.1]
  · obtain ⟨first, rest, ht⟩ := List.exists_cons_of_ne_nil hne
    rw [addLine_of_tokens ht, if_neg hl, if_neg he, if_pos (hd.exporting.mpr hopen), if_neg hl]
    rw [ht] at htoken ⊢
    have hsome : (rest.find? (Malformed ·)).isSome := by
      rw [List.find?_isSome]
      exact ⟨token, htoken, by simpa using hmalformed⟩
    obtain ⟨bad, hbad⟩ := Option.isSome_iff_exists.mp hsome
    rw [readExport, readOrdinal_of_malformed none hbad, List.tail_cons, hbad]
    rfl

theorem Draft.Sums.append_library (hd : d.Sums passed) (hl : Opens "LIBRARY" line) :
    Draft.Sums { d with moduleName := some (title line), exporting := false }
      (passed ++ [line]) := by
  have hx : ¬Exports passed line := fun hx => hx.2.2.1 hl
  refine ⟨(moduleName?_append_of_library hl).symm, ?_, ?_⟩
  · rw [inSection_append_iff]
    simp [hl, not_opens_exports hl]
  · rw [services_append_of_not_exports hx]
    exact hd.exported

theorem Draft.Sums.append_exports (hd : d.Sums passed) (hl : ¬Opens "LIBRARY" line)
    (he : Opens "EXPORTS" line) :
    Draft.Sums { d with exporting := true } (passed ++ [line]) := by
  have hx : ¬Exports passed line := fun hx => hx.2.2.2 he
  refine ⟨?_, ?_, ?_⟩
  · rw [moduleName?_append_of_not_library hl]
    exact hd.moduleName
  · rw [inSection_append_iff]
    simp [he]
  · rw [services_append_of_not_exports hx]
    exact hd.exported

theorem Draft.Sums.append_exported (hd : d.Sums passed) (hx : Exports passed line) :
    Draft.Sums { d with exported := service line :: d.exported } (passed ++ [line]) := by
  obtain ⟨-, -, hl, he⟩ := id hx
  refine ⟨?_, ?_, ?_⟩
  · rw [moduleName?_append_of_not_library hl]
    exact hd.moduleName
  · rw [inSection_append_iff, ← hd.exporting]
    simp [hl, he]
  · rw [services_append_of_exports hx, ← hd.exported]
    exact List.reverse_cons

theorem Draft.Sums.append_other (hd : d.Sums passed) (hl : ¬Opens "LIBRARY" line)
    (he : ¬Opens "EXPORTS" line) (hx : ¬Exports passed line) : d.Sums (passed ++ [line]) := by
  refine ⟨?_, ?_, ?_⟩
  · rw [moduleName?_append_of_not_library hl]
    exact hd.moduleName
  · rw [inSection_append_iff, hd.exporting]
    simp [hl, he]
  · rw [services_append_of_not_exports hx]
    exact hd.exported

theorem readExport_of_sound (ht : tokens line = first :: rest)
    (h : ∀ token ∈ (tokens line).tail, ¬Malformed token) :
    readExport first rest = .ok (service line) := by
  rw [ht, List.tail_cons] at h
  rw [readExport, readOrdinal_of_sound none h, Option.or_none, service, ht]
  rfl

theorem Draft.Sums.addLine_of_sound (hd : d.Sums passed) (h : ¬Faulty passed line) :
    ∃ d', d.addLine line = .ok d' ∧ d'.Sums (passed ++ [line]) := by
  obtain ⟨hnamed, hordinals⟩ := not_or.mp h
  cases ht : tokens line with
  | nil =>
    have hx : ¬Exports passed line := fun hx => hx.2.1 ht
    exact ⟨d, addLine_of_tokens_eq_nil ht, hd.append_other (not_opens_of_tokens_eq_nil ht)
      (not_opens_of_tokens_eq_nil ht) hx⟩
  | cons first rest =>
    rw [addLine_of_tokens ht]
    by_cases hl : Opens "LIBRARY" line
    · rw [if_pos hl, if_neg hnamed]
      exact ⟨_, rfl, hd.append_library hl⟩
    rw [if_neg hl]
    by_cases he : Opens "EXPORTS" line
    · rw [if_pos he]
      exact ⟨_, rfl, hd.append_exports hl he⟩
    rw [if_neg he]
    by_cases hopen : d.exporting = true
    · have hx : Exports passed line := ⟨hd.exporting.mp hopen, by simp [ht], hl, he⟩
      have hsound : ∀ token ∈ (tokens line).tail, ¬Malformed token := fun token htoken hmalformed =>
        hordinals ⟨hx, token, htoken, hmalformed⟩
      rw [if_pos hopen, readExport_of_sound ht hsound]
      exact ⟨_, rfl, hd.append_exported hx⟩
    · have hx : ¬Exports passed line := fun hx => hopen (hd.exporting.mpr hx.1)
      rw [if_neg hopen]
      exact ⟨d, rfl, hd.append_other hl he hx⟩

end Steps

def Sound (passed lines : List Line) : Prop :=
  ∀ before line after, lines = before ++ line :: after → ¬Faulty (passed ++ before) line

section Runs
variable {d : Draft} {passed lines : List Line}

theorem Sound.of_cons {line : Line} (h : Sound passed (line :: lines)) :
    ¬Faulty passed line ∧ Sound (passed ++ [line]) lines := by
  refine ⟨?_, ?_⟩
  · have hfirst := h [] line lines rfl
    rwa [List.append_nil] at hfirst
  · rintro before l after rfl
    rw [List.append_assoc]
    exact h (line :: before) l after rfl

theorem Draft.Sums.addLines (hd : d.Sums passed) (h : Sound passed lines) :
    ∃ d' : Draft, d'.Sums (passed ++ lines) ∧ ∀ n rest,
      d.addLines n (lines ++ rest) = d'.addLines (n + lines.length) rest := by
  -- The draft that the next line meets sums all lines before it, so `passed` grows with it.
  induction lines generalizing d passed with
  | nil => exact ⟨d, by rwa [List.append_nil], fun n rest => rfl⟩
  | cons line lines ih =>
    obtain ⟨hline, hlines⟩ := h.of_cons
    obtain ⟨next, hnext, hsums⟩ := hd.addLine_of_sound hline
    obtain ⟨d', hd', hrun⟩ := ih hsums hlines
    refine ⟨d', by rwa [List.append_assoc] at hd', ?_⟩
    intro n rest
    rw [List.cons_append, Draft.addLines, hnext]
    dsimp only
    rw [hrun, List.length_cons, Nat.add_right_comm, Nat.add_assoc]

theorem sound_iff : Sound passed lines ↔ ∀ x ∈ placed passed lines, ¬Faulty x.1 x.2 := by
  unfold Sound
  simp only [mem_placed_iff]
  constructor
  · rintro h ⟨_, line⟩ ⟨before, after, heq, rfl⟩
    exact h before line after heq
  · intro h before line after heq
    exact h (passed ++ before, line) ⟨before, after, heq, rfl⟩

instance (passed lines : List Line) : Decidable (Sound passed lines) :=
  decidable_of_iff _ sound_iff.symm

theorem exists_first_faulty {line : Line} {rest : List Line} (h : Faulty passed line)
    (heq : lines = passed ++ line :: rest) :
    ∃ passed line rest, lines = passed ++ line :: rest ∧ Sound [] passed ∧ Faulty passed line := by
  -- A bad line that is not the first has fewer lines before one of those before it.
  induction hn : passed.length using Nat.strongRecOn generalizing passed line rest with
  | ind n ih =>
    by_cases hsound : Sound [] passed
    · exact ⟨passed, line, rest, heq, hsound, h⟩
    · unfold Sound at hsound
      push Not at hsound
      obtain ⟨before, earlier, after, rfl, hearlier⟩ := hsound
      rw [List.nil_append] at hearlier
      have hshorter : before.length < n := by
        rw [← hn, List.length_append, List.length_cons]
        omega
      have hlines : lines = before ++ earlier :: (after ++ line :: rest) := by
        rw [heq, List.append_assoc]
        rfl
      exact ih before.length hshorter hearlier hlines rfl

theorem sound_or_first_faulty (lines : List Line) : Sound [] lines ∨
    ∃ passed line rest, lines = passed ++ line :: rest ∧ Sound [] passed ∧ Faulty passed line := by
  by_cases hsound : Sound [] lines
  · exact .inl hsound
  · unfold Sound at hsound
    push Not at hsound
    obtain ⟨passed, line, rest, heq, hline⟩ := hsound
    exact .inr (exists_first_faulty hline heq)

theorem sums_nil : Draft.Sums ⟨none, false, []⟩ [] :=
  ⟨rfl, iff_of_false Bool.false_ne_true not_inSection_nil, rfl⟩

theorem addLines_of_faulty {line : Line} {rest : List Line} (h : Sound [] passed)
    (hline : Faulty passed line) :
    Draft.addLines 1 ⟨none, false, []⟩ (passed ++ line :: rest) =
      .error (passed.length + 1, fault line) := by
  obtain ⟨d, hd, hrun⟩ := sums_nil.addLines h
  rw [List.nil_append] at hd
  rw [hrun, Nat.add_comm 1, Draft.addLines, hd.addLine_of_faulty hline]

theorem addLines_of_sound (h : Sound [] lines) :
    ∃ d, Draft.addLines 1 ⟨none, false, []⟩ lines = .ok d ∧ d.Sums lines := by
  obtain ⟨d, hd, hrun⟩ := sums_nil.addLines h
  have hall := hrun 1 []
  rw [List.append_nil] at hall
  exact ⟨d, hall, hd⟩

end Runs

end Definition

namespace Loader
open Definition
variable {convention path : String} {bytes : List UInt8} {text : String}

theorem definition_load_of_not_utf8 (h : ¬∃ text : String, text.toUTF8.data.toList = bytes) :
    ∃ fault, definition.load convention path bytes =
      .error (.badDefinition path 0 (.notUtf8 fault)) := by
  cases hdecoded : Text.Utf8.decode bytes with
  | error fault =>
    refine ⟨fault, ?_⟩
    unfold definition Definition.read
    dsimp only
    rw [hdecoded]
  | ok s => exact absurd ⟨_, (Text.Utf8.decode_eq_ok_iff.mp hdecoded).symm⟩ h

theorem definition_load_of_faulty {passed rest : List Line} {line : Line}
    (hlines : Text.cutAt '\n' text.toList = passed ++ line :: rest) (hpassed : Sound [] passed)
    (hline : Faulty passed line) :
    definition.load convention path text.toUTF8.data.toList =
      .error (.badDefinition path (passed.length + 1) (fault line)) := by
  unfold definition Definition.read
  dsimp only
  rw [Text.Utf8.decode_toUTF8]
  dsimp only
  rw [hlines, addLines_of_faulty hpassed hline]
  rfl

theorem definition_load_of_sound (h : Sound [] (Text.cutAt '\n' text.toList)) :
    let lines := Text.cutAt '\n' text.toList
    definition.load convention path text.toUTF8.data.toList =
      .ok (.ofServices ((moduleName? lines).getD (Text.Path.stem path)) (services lines)) := by
  intro lines
  obtain ⟨d, hrun, hd⟩ := addLines_of_sound h
  unfold definition Definition.read
  dsimp only
  rw [Text.Utf8.decode_toUTF8]
  dsimp only
  rw [hrun, hd.moduleName.symm, hd.exported.symm]
  rfl

theorem definition_load_cases (convention path text : String) :
    let lines := Text.cutAt '\n' text.toList
    let loaded := definition.load convention path text.toUTF8.data.toList
    (∃ passed line rest, lines = passed ++ line :: rest ∧ Faulty passed line ∧
      loaded = .error (.badDefinition path (passed.length + 1) (fault line))) ∨
    loaded = .ok (.ofServices ((moduleName? lines).getD (Text.Path.stem path)) (services lines)) := by
  intro lines loaded
  obtain hsound | ⟨passed, line, rest, heq, hpassed, hline⟩ := sound_or_first_faulty lines
  · exact .inr (definition_load_of_sound hsound)
  · exact .inl ⟨passed, line, rest, heq, hline, definition_load_of_faulty heq hpassed hline⟩

/-- A file is refused at its first bad line, and only for a bad line or bytes that are no text. -/
theorem definition_load_first_fault (convention path : String) (bytes : List UInt8) :
    ((∃ fault, definition.load convention path bytes = .error (.badDefinition path 0 fault)) ↔
      ¬∃ text : String, text.toUTF8.data.toList = bytes) ∧
    ∀ text : String, text.toUTF8.data.toList = bytes →
      let lines := Text.cutAt '\n' text.toList
      ((∃ e, definition.load convention path bytes = .error e) ↔
        ∃ passed line rest, lines = passed ++ line :: rest ∧ Faulty passed line) ∧
      (∀ passed line rest, lines = passed ++ line :: rest → Faulty passed line →
        (∀ before earlier after, passed = before ++ earlier :: after → ¬Faulty before earlier) →
          definition.load convention path bytes =
            .error (.badDefinition path (passed.length + 1) (fault line))) ∧
      ∀ library, definition.load convention path bytes = .ok library →
        library =
          .ofServices ((moduleName? lines).getD (Text.Path.stem path)) (services lines) := by
  refine ⟨⟨?_, ?_⟩, ?_⟩
  · rintro ⟨f, hf⟩ ⟨text, rfl⟩
    obtain ⟨passed, line, rest, -, -, hload⟩ | hload := definition_load_cases convention path text
    · cases hf.symm.trans hload
    · cases hf.symm.trans hload
  · intro h
    obtain ⟨f, hf⟩ := definition_load_of_not_utf8 h
    exact ⟨_, hf⟩
  · rintro text rfl
    have hcases := definition_load_cases convention path text
    refine ⟨⟨?_, ?_⟩, ?_, ?_⟩
    · rintro ⟨e, he⟩
      obtain ⟨passed, line, rest, heq, hline, -⟩ | hload := hcases
      · exact ⟨passed, line, rest, heq, hline⟩
      · cases he.symm.trans hload
    · rintro ⟨passed, line, rest, heq, hline⟩
      -- The bad line need not be the first one, but there is a first one then.
      obtain ⟨passed, line, rest, heq, hpassed, hline⟩ := exists_first_faulty hline heq
      exact ⟨_, definition_load_of_faulty heq hpassed hline⟩
    · intro passed line rest heq hline hpassed
      exact definition_load_of_faulty heq hpassed hline
    · intro library hlibrary
      obtain ⟨passed, line, rest, -, -, hload⟩ | hload := hcases
      · cases hlibrary.symm.trans hload
      · exact Except.ok.inj (hlibrary.symm.trans hload)

theorem definition_load_first_fault_kernel :
    let header := "LIBRARY KERNEL32\nEXPORTS\n ExitProcess=Exit @+17 @-2 ; @x"
    let text := header ++ "\n GetTickCount @x @y\nLIBRARY \"\"\nEXPORTS\nSleep @\n"
    definition.load "stdcall" "kernel32.def" text.toUTF8.data.toList =
      .error (.badDefinition "kernel32.def" 4 (.badOrdinal "@x")) ∧
    definition.load "stdcall" "kernel32.def" header.toUTF8.data.toList =
      .ok (.ofServices "KERNEL32" [⟨"ExitProcess", some (-2), none⟩]) := by
  intro header text
  let passed : List Line := Text.cutAt '\n' header.toList
  let line : Line := " GetTickCount @x @y".toList
  let rest : List Line := ["LIBRARY \"\"".toList, "EXPORTS".toList, "Sleep @".toList, []]
  have hlines : Text.cutAt '\n' text.toList = passed ++ line :: rest := by decide +kernel
  have hline : Faulty passed line := by decide +kernel
  have hpassed : Sound [] passed := by decide +kernel
  have hfault : fault line = .badOrdinal "@x" := by decide +kernel
  have hnumber : passed.length = 3 := by decide +kernel
  have hservices : services passed = [⟨"ExitProcess", some (-2), none⟩] := by decide +kernel
  have hname : moduleName? passed = some "KERNEL32" := by decide +kernel
  obtain ⟨-, htext⟩ := definition_load_first_fault "stdcall" "kernel32.def" text.toUTF8.data.toList
  obtain ⟨-, hheader⟩ :=
    definition_load_first_fault "stdcall" "kernel32.def" header.toUTF8.data.toList
  obtain ⟨-, hfirst, -⟩ := htext text rfl
  obtain ⟨hfails, -, hread⟩ := hheader header rfl
  refine ⟨?_, ?_⟩
  · rw [hfirst passed line rest hlines hline hpassed, hfault, hnumber]
  · cases hload : definition.load "stdcall" "kernel32.def" header.toUTF8.data.toList with
    | error e =>
      obtain ⟨before, earlier, after, heq, hearlier⟩ := hfails.mp ⟨e, hload⟩
      exact absurd hearlier (hpassed before earlier after heq)
    | ok library =>
      have hlibrary := hread library hload
      rw [hname, hservices] at hlibrary
      rw [hlibrary]
      rfl

end Loader

end RegisterTransfer.TypeLibrary
