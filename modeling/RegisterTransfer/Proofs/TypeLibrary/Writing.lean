import RegisterTransfer.Proofs.Text.Encoding
import RegisterTransfer.Proofs.Text.Scanning
import RegisterTransfer.Proofs.TypeLibrary.Listings

/-!
Writing module-definition files. A layout holds what may differ between two files of the same
module and services: blanks, comments, empty lines, quotes, the case of the keywords, the ends of
the lines, and words that have no meaning.
-/

namespace RegisterTransfer

namespace Text

theorem isBlank_toLower (c : Char) : isBlank c.toLower = isBlank c := by
  unfold isBlank
  rw [toNat_toLower]
  split
  · rename_i h
    have hA : 65 ≤ c.toNat := h.1
    have hZ : c.toNat ≤ 90 := h.2
    rw [Bool.eq_iff_iff]
    simp only [Bool.or_eq_true, Bool.and_eq_true, decide_eq_true_eq, beq_iff_eq]
    omega
  · rfl

instance (a b : List Char) : Decidable (EqualButForCase a b) :=
  decidable_of_iff _ (sameIgnoringCase_iff a b)

namespace EqualButForCase
variable {a b : List Char}

theorem toLower_mem (h : EqualButForCase a b) {c : Char} (hc : c ∈ a) : c.toLower ∈ foldCase b := by
  have hfold : foldCase a = foldCase b := eq_of_beq ((sameIgnoringCase_iff a b).mpr h)
  rw [← hfold]
  exact List.mem_map_of_mem hc

theorem ne_nil (h : EqualButForCase a b) (hb : b ≠ []) : a ≠ [] := by
  rintro rfl
  exact hb (List.forall₂_nil_left_iff.mp h)

end EqualButForCase

end Text

namespace TypeLibrary

namespace Definition

structure Gap where
  text : List Char
  blank : ∀ c ∈ text, Text.isBlank c = true
  whole : '\n' ∉ text

structure Separator extends Gap where
  nonempty : text ≠ []

structure Margins where
  left : Gap
  right : Gap
  comment : Option (List Char)
  comment_whole : ∀ s ∈ comment, '\n' ∉ s
  carriageReturn : Bool

def Margins.line (m : Margins) (content : List Char) : List Char :=
  m.left.text ++ (content ++ (m.right.text ++ (m.comment.elim [] (';' :: ·) ++
    if m.carriageReturn then ['\r'] else [])))

structure Placement where
  before : List Margins
  margins : Margins

def Placement.lines (p : Placement) (content : List Char) : List (List Char) :=
  p.before.map (·.line []) ++ [p.margins.line content]

structure Spelling (keyword : String) where
  text : List Char
  same : Text.EqualButForCase text keyword.toList

def Unbroken (s : List Char) : Prop := ∀ c ∈ s, Text.isBlank c = false ∧ c ≠ ';'

instance (s : List Char) : Decidable (Unbroken s) :=
  List.decidableBAll (fun c => Text.isBlank c = false ∧ c ≠ ';') s

structure Filler where
  text : List Char
  nonempty : text ≠ []
  unbroken : Unbroken text
  plain : text.head? ≠ some '@'

structure Row where
  placement : Placement
  internal : Option (List Char)
  internal_unbroken : ∀ s ∈ internal, Unbroken s
  separator : Separator
  fillers : List (Separator × Filler)

namespace Row

def first (r : Row) (s : Service) : List Char :=
  s.name.toList ++ r.internal.elim [] ('=' :: ·)

def rest (r : Row) (s : Service) : List (Separator × List Char) :=
  s.ordinal.toList.map (fun n => (r.separator, '@' :: (toString n).toList)) ++
    r.fillers.map fun f => (f.1, f.2.text)

def content (r : Row) (s : Service) : List Char :=
  r.first s ++ (r.rest s).flatMap fun x => x.1.text ++ x.2

end Row

structure Layout where
  library : Placement
  libraryKeyword : Spelling "LIBRARY"
  separator : Separator
  quoted : Bool
  exports : Placement
  exportsKeyword : Spelling "EXPORTS"
  after : List Margins

namespace Layout

def name (l : Layout) (moduleName : String) : List Char :=
  if l.quoted then '"' :: (moduleName.toList ++ ['"']) else moduleName.toList

def title (l : Layout) (moduleName : String) : List Char :=
  l.libraryKeyword.text ++ (l.separator.text ++ l.name moduleName)

def lines (l : Layout) (moduleName : String) (rows : List (Service × Row)) : List (List Char) :=
  l.library.lines (l.title moduleName) ++ (l.exports.lines l.exportsKeyword.text ++
    (rows.flatMap (fun x => x.2.placement.lines (x.2.content x.1)) ++ l.after.map (·.line [])))

def write (l : Layout) (moduleName : String) (rows : List (Service × Row)) : String :=
  .ofList (['\n'].intercalate (l.lines moduleName rows))

end Layout

structure IsModuleName (name : String) : Prop where
  nonempty : name ≠ ""
  uncommented : ';' ∉ name.toList
  whole : '\n' ∉ name.toList
  trimmed : Text.Trimmed Text.isBlank name.toList
  unquoted : Text.Trimmed (· == '"') name.toList

structure IsExport (s : Service) : Prop where
  nonempty : s.name ≠ ""
  unbroken : Unbroken s.name.toList
  external : '=' ∉ s.name.toList
  notLibrary : ¬Text.EqualButForCase s.name.toList "LIBRARY".toList
  notExports : ¬Text.EqualButForCase s.name.toList "EXPORTS".toList
  ordinal : ∀ n ∈ s.ordinal, -0x80000000 ≤ n ∧ n < 0x80000000
  signature : s.signature = none

structure IsContent (s : List Char) : Prop where
  trimmed : Text.Trimmed Text.isBlank s
  uncommented : ';' ∉ s
  whole : '\n' ∉ s

theorem isContent_nil : IsContent [] := ⟨⟨by simp, by simp⟩, by simp, by simp⟩

theorem isContent_of_isWord {w : List Char} (hw : Text.IsWord w) (h : ';' ∉ w) : IsContent w := by
  refine ⟨⟨?_, ?_⟩, h, ?_⟩
  · intro c hc
    exact hw.2 c (List.mem_of_head? hc)
  · intro c hc
    exact hw.2 c (List.mem_of_getLast? hc)
  · intro hline
    exact absurd (hw.2 '\n' hline) (by decide)

theorem Unbroken.isWord {w : List Char} (h : Unbroken w) (hne : w ≠ []) : Text.IsWord w :=
  ⟨hne, fun c hc => (h c hc).1⟩

theorem Unbroken.isContent {w : List Char} (h : Unbroken w) (hne : w ≠ []) : IsContent w :=
  isContent_of_isWord (h.isWord hne) fun hc => (h ';' hc).2 rfl

theorem Gap.uncommented (g : Gap) : ';' ∉ g.text := by
  intro h
  exact absurd (g.blank ';' h) (by decide)

theorem IsContent.append {s t : List Char} (hs : IsContent s) (hsne : s ≠ []) (g : Gap)
    (ht : IsContent t) (htne : t ≠ []) : IsContent (s ++ (g.text ++ t)) := by
  refine ⟨⟨?_, ?_⟩, ?_, ?_⟩
  · rw [List.head?_append_of_ne_nil _ hsne]
    exact hs.trimmed.1
  · rw [List.getLast?_append_of_ne_nil _ (List.append_ne_nil_of_right_ne_nil _ htne),
      List.getLast?_append_of_ne_nil _ htne]
    exact ht.trimmed.2
  · simp only [List.mem_append, not_or]
    exact ⟨hs.uncommented, g.uncommented, ht.uncommented⟩
  · simp only [List.mem_append, not_or]
    exact ⟨hs.whole, g.whole, ht.whole⟩

theorem bne_of_not_mem {c : Char} {s : List Char} (h : c ∉ s) : ∀ d ∈ s, (d != c) = true := by
  intro d hd
  exact bne_iff_ne.mpr (ne_of_mem_of_not_mem hd h)

theorem withoutComment_uncommented {s : List Char} (h : ';' ∉ s) :
    withoutComment s = Text.trim s := by
  have hall : s.takeWhile (· != ';') = s := List.takeWhile_eq_self_iff.mpr (bne_of_not_mem h)
  unfold withoutComment
  rw [hall]

theorem withoutComment_commented {s : List Char} (comment : List Char) (h : ';' ∉ s) :
    withoutComment (s ++ ';' :: comment) = Text.trim s := by
  unfold withoutComment
  rw [List.takeWhile_append_of_pos (bne_of_not_mem h)]
  simp

namespace Margins
variable (m : Margins) {content : List Char}

theorem withoutComment_line (h : IsContent content) :
    withoutComment (m.line content) = content := by
  have hleft := m.left.uncommented
  have hright := m.right.uncommented
  have hcontent := h.uncommented
  unfold line
  cases m.comment with
  | none =>
    -- Without a comment to be part of, the carriage return is one more blank at the end.
    have hend : ∀ c ∈ m.right.text ++ (if m.carriageReturn then ['\r'] else []),
        Text.isBlank c = true := by
      intro c hc
      rcases List.mem_append.mp hc with hc | hc
      · exact m.right.blank c hc
      · obtain rfl : c = '\r' := by
          split at hc <;> simp_all
        decide
    rw [Option.elim_none, List.nil_append, withoutComment_uncommented]
    · exact Text.trim_append h.trimmed m.left.blank hend
    · simp only [List.mem_append, not_or]
      refine ⟨hleft, hcontent, hright, ?_⟩
      split <;> decide
  | some s =>
    rw [Option.elim_some, List.cons_append, ← List.append_assoc, ← List.append_assoc,
      List.append_assoc m.left.text, withoutComment_commented]
    · exact Text.trim_append h.trimmed m.left.blank m.right.blank
    · simp only [List.mem_append, not_or]
      exact ⟨hleft, hcontent, hright⟩

theorem whole_line (h : '\n' ∉ content) : '\n' ∉ m.line content := by
  have hcomment : '\n' ∉ m.comment.elim [] (';' :: ·) := by
    cases hm : m.comment with
    | none => simp
    | some s =>
      have hs := m.comment_whole s hm
      simpa using hs
  unfold line
  simp only [List.mem_append, not_or]
  refine ⟨m.left.whole, h, m.right.whole, hcomment, ?_⟩
  split <;> decide

end Margins

namespace Row
variable {r : Row} {s : Service}

theorem first_unbroken (hs : IsExport s) : Unbroken (r.first s) := by
  intro c hc
  rcases List.mem_append.mp hc with hc | hc
  · exact hs.unbroken c hc
  · cases hr : r.internal with
    | none => simp [hr] at hc
    | some suffix =>
      rw [hr, Option.elim_some] at hc
      rcases List.mem_cons.mp hc with rfl | hc
      · decide
      · exact r.internal_unbroken suffix hr c hc

theorem first_ne_nil (hs : IsExport s) : r.first s ≠ [] := by
  have hname : s.name.toList ≠ [] := by simpa using hs.nonempty
  exact List.append_ne_nil_of_left_ne_nil hname _

theorem exportedName_first (hs : IsExport s) : exportedName (r.first s) = s.name := by
  unfold exportedName first
  rw [List.takeWhile_append_of_pos (bne_of_not_mem hs.external)]
  cases r.internal <;> simp

theorem isWord_first {keyword : String} (hs : ¬Text.EqualButForCase s.name.toList keyword.toList)
    (hkeyword : '=' ∉ Text.foldCase keyword.toList) : isWord (r.first s) keyword = false := by
  rw [← Bool.not_eq_true]
  intro hsame
  have h : Text.EqualButForCase (r.first s) keyword.toList :=
    (Text.sameIgnoringCase_iff _ _).mp hsame
  unfold first at h
  cases hr : r.internal with
  | none =>
    rw [hr, Option.elim_none, List.append_nil] at h
    exact hs h
  | some suffix =>
    rw [hr] at h
    exact hkeyword (h.toLower_mem (c := '=') (by simp))

theorem unbroken_of_mem_rest {x : Separator × List Char} (hx : x ∈ r.rest s) :
    x.2 ≠ [] ∧ Unbroken x.2 := by
  rcases List.mem_append.mp hx with hx | hx
  · obtain ⟨n, -, rfl⟩ := List.mem_map.mp hx
    refine ⟨List.cons_ne_nil _ _, ?_⟩
    intro c hc
    rcases List.mem_cons.mp hc with rfl | hc
    · decide
    · rcases Text.eq_minus_or_isDigit hc with rfl | hdigit
      · decide
      · refine ⟨Text.isBlank_of_isDigit hdigit, ?_⟩
        rintro rfl
        exact absurd hdigit (by decide)
  · obtain ⟨f, -, rfl⟩ := List.mem_map.mp hx
    exact ⟨f.2.nonempty, f.2.unbroken⟩

theorem words_spread {first : List Char} {rest : List (Separator × List Char)}
    (hfirst : Text.IsWord first) (hrest : ∀ x ∈ rest, Text.IsWord x.2) :
    Text.words (first ++ rest.flatMap fun x => x.1.text ++ x.2) = first :: rest.map (·.2) := by
  induction rest generalizing first with
  | nil => simpa using Text.words_of_isWord hfirst
  | cons x rest ih =>
    obtain ⟨hx, hrest⟩ := List.forall_mem_cons.mp hrest
    rw [List.flatMap_cons, List.append_assoc, Text.words_append _ hfirst x.1.nonempty x.1.blank,
      ih hx hrest]
    rfl

theorem isContent_spread {first : List Char} {rest : List (Separator × List Char)}
    (hfirst : IsContent first) (hne : first ≠ []) (hrest : ∀ x ∈ rest, IsContent x.2 ∧ x.2 ≠ []) :
    IsContent (first ++ rest.flatMap fun x => x.1.text ++ x.2) := by
  induction rest generalizing first with
  | nil => simpa using hfirst
  | cons x rest ih =>
    obtain ⟨⟨hx, hxne⟩, hrest⟩ := List.forall_mem_cons.mp hrest
    have hpair := hfirst.append hne x.1.toGap hx hxne
    rw [List.flatMap_cons, ← List.append_assoc]
    exact ih hpair (List.append_ne_nil_of_left_ne_nil hne _) hrest

theorem words_content (hs : IsExport s) :
    Text.words (r.content s) = r.first s :: (r.rest s).map (·.2) := by
  apply words_spread
  · exact (first_unbroken hs).isWord (first_ne_nil hs)
  · intro x hx
    obtain ⟨hne, hunbroken⟩ := unbroken_of_mem_rest hx
    exact hunbroken.isWord hne

theorem isContent_content (hs : IsExport s) : IsContent (r.content s) := by
  apply isContent_spread _ (first_ne_nil hs)
  · intro x hx
    obtain ⟨hne, hunbroken⟩ := unbroken_of_mem_rest hx
    exact ⟨hunbroken.isContent hne, hne⟩
  · exact (first_unbroken hs).isContent (first_ne_nil hs)

theorem readOrdinal_fillers (sofar : Option Int) (fillers : List (Separator × Filler)) :
    readOrdinal sofar (fillers.map (·.2.text)) = .ok sofar := by
  induction fillers with
  | nil => rfl
  | cons f fillers ih =>
    rw [List.map_cons]
    unfold readOrdinal
    split
    · rename_i h
      cases h
    · rename_i numeral others h
      have hword : f.2.text = '@' :: numeral := (List.cons.inj h).1
      exact absurd (congrArg List.head? hword) f.2.plain
    · rename_i others _ h
      rw [← (List.cons.inj h).2]
      exact ih

theorem readOrdinal_rest (hs : IsExport s) :
    readOrdinal none ((r.rest s).map (·.2)) = .ok s.ordinal := by
  unfold rest
  rw [List.map_append, List.map_map, List.map_map]
  cases hn : s.ordinal with
  | none => exact readOrdinal_fillers none r.fillers
  | some n =>
    change readOrdinal none (('@' :: (toString n).toList) :: r.fillers.map (·.2.text)) = _
    have hint32 : Text.isInt32 n = true := by simpa [Text.isInt32] using hs.ordinal n hn
    rw [readOrdinal, Text.int32?_toString hint32]
    exact readOrdinal_fillers (some n) r.fillers

theorem readExport_eq (hs : IsExport s) :
    readExport (r.first s) ((r.rest s).map (·.2)) = .ok s := by
  obtain ⟨name, ordinal, signature⟩ := s
  obtain rfl : signature = none := hs.signature
  unfold readExport
  rw [readOrdinal_rest hs, exportedName_first hs]
  rfl

end Row

namespace Spelling
variable {keyword : String} (k : Spelling keyword)

theorem unbroken (h : Unbroken (Text.foldCase keyword.toList)) : Unbroken k.text := by
  intro c hc
  obtain ⟨hblank, hcomment⟩ := h _ (k.same.toLower_mem hc)
  refine ⟨Text.isBlank_toLower c ▸ hblank, ?_⟩
  rintro rfl
  exact hcomment rfl

theorem isWord (hne : keyword.toList ≠ []) (h : Unbroken (Text.foldCase keyword.toList)) :
    Text.IsWord k.text :=
  (k.unbroken h).isWord (k.same.ne_nil hne)

theorem isContent (hne : keyword.toList ≠ []) (h : Unbroken (Text.foldCase keyword.toList)) :
    IsContent k.text :=
  (k.unbroken h).isContent (k.same.ne_nil hne)

end Spelling

namespace Layout
variable {l : Layout} {moduleName : String}

theorem name_ne_nil (h : IsModuleName moduleName) : l.name moduleName ≠ [] := by
  unfold name
  split
  · exact List.cons_ne_nil _ _
  · simpa using h.nonempty

theorem isContent_name (h : IsModuleName moduleName) : IsContent (l.name moduleName) := by
  unfold name
  split
  · refine ⟨⟨?_, ?_⟩, ?_, ?_⟩
    · intro c hc
      obtain rfl : '"' = c := Option.some.inj hc
      decide
    · intro c hc
      rw [← List.cons_append, List.getLast?_concat] at hc
      obtain rfl : '"' = c := Option.some.inj hc
      decide
    · simpa using h.uncommented
    · simpa using h.whole
  · exact ⟨h.trimmed, h.uncommented, h.whole⟩

theorem trimChar_name (h : IsModuleName moduleName) :
    Text.trimChar '"' (l.name moduleName) = moduleName.toList := by
  unfold name
  split
  · exact Text.trimChar_enclosed h.unquoted
  · exact Text.trimChar_of_trimmed h.unquoted

theorem isWord_keyword : Text.IsWord l.libraryKeyword.text :=
  l.libraryKeyword.isWord (by decide) (by decide)

theorem words_title :
    Text.words (l.title moduleName) = l.libraryKeyword.text :: Text.words (l.name moduleName) :=
  Text.words_append _ isWord_keyword l.separator.nonempty l.separator.blank

theorem isContent_title (h : IsModuleName moduleName) : IsContent (l.title moduleName) :=
  (l.libraryKeyword.isContent (by decide) (by decide)).append isWord_keyword.1 l.separator.toGap
    (isContent_name h) (name_ne_nil h)

theorem libraryName_title (h : IsModuleName moduleName) :
    libraryName (l.title moduleName) l.libraryKeyword.text = moduleName.toList := by
  have htrim : Text.trim (l.separator.text ++ (l.name moduleName ++ [])) = l.name moduleName :=
    Text.trim_append (isContent_name h).trimmed l.separator.blank (by simp)
  rw [List.append_nil] at htrim
  unfold libraryName title
  rw [List.drop_left, htrim, trimChar_name h]

end Layout

namespace Draft
variable {d : Draft}

theorem addLine_eq {content first : List Char} {rest : List (List Char)} (h : IsContent content)
    (hwords : Text.words content = first :: rest) (m : Margins) :
    d.addLine (m.line content) =
      if isWord first "LIBRARY" then
        match libraryName content first with
        | [] => .error .unnamedLibrary
        | name => .ok { d with moduleName := some (String.ofList name), exporting := false }
      else if isWord first "EXPORTS" then .ok { d with exporting := true }
      else if d.exporting then
        (readExport first rest).map fun s => { d with exported := s :: d.exported }
      else .ok d := by
  unfold addLine
  rw [m.withoutComment_line h]
  dsimp only
  -- The two matches on the words are equal once the words are, and not before.
  generalize Text.words content = ws at hwords ⊢
  subst hwords
  rfl

theorem addLine_blank (m : Margins) : d.addLine (m.line []) = .ok d := by
  unfold addLine
  rw [m.withoutComment_line isContent_nil]
  rfl

theorem addLine_title (l : Layout) {moduleName : String} (h : IsModuleName moduleName)
    (m : Margins) : d.addLine (m.line (l.title moduleName)) =
      .ok { d with moduleName := some moduleName, exporting := false } := by
  have hlibrary : isWord l.libraryKeyword.text "LIBRARY" = true :=
    (Text.sameIgnoringCase_iff _ _).mpr l.libraryKeyword.same
  rw [addLine_eq (l.isContent_title h) l.words_title, if_pos hlibrary, l.libraryName_title h]
  cases hname : moduleName.toList with
  | nil => exact absurd (String.toList_eq_nil_iff.mp hname) h.nonempty
  | cons c name =>
    dsimp only
    rw [← hname, String.ofList_toList]

theorem addLine_exports (k : Spelling "EXPORTS") (m : Margins) :
    d.addLine (m.line k.text) = .ok { d with exporting := true } := by
  have hword : Text.IsWord k.text := k.isWord (by decide) (by decide)
  have hcontent : IsContent k.text := k.isContent (by decide) (by decide)
  have hexports : isWord k.text "EXPORTS" = true := (Text.sameIgnoringCase_iff _ _).mpr k.same
  have hlibrary : isWord k.text "LIBRARY" = false := by
    have hfold : Text.foldCase k.text = Text.foldCase "EXPORTS".toList := eq_of_beq hexports
    unfold isWord Text.sameIgnoringCase
    rw [hfold]
    decide
  rw [addLine_eq hcontent (Text.words_of_isWord hword), hlibrary, hexports]
  rfl

theorem addLine_row (r : Row) {s : Service} (hd : d.exporting = true) (hs : IsExport s)
    (m : Margins) :
    d.addLine (m.line (r.content s)) = .ok { d with exported := s :: d.exported } := by
  have hlibrary : isWord (r.first s) "LIBRARY" = false := r.isWord_first hs.notLibrary (by decide)
  have hexports : isWord (r.first s) "EXPORTS" = false := r.isWord_first hs.notExports (by decide)
  rw [addLine_eq (r.isContent_content hs) (r.words_content hs), hlibrary, hexports, hd,
    r.readExport_eq hs]
  rfl

inductive Reads : Draft → List (List Char) → Draft → Prop
  | nil (d : Draft) : Reads d [] d
  | cons {d d' d'' : Draft} {line : List Char} {lines : List (List Char)}
    (hline : d.addLine line = .ok d') (hlines : Reads d' lines d'') : Reads d (line :: lines) d''

theorem Reads.addLines {d' : Draft} {lines : List (List Char)} (h : d.Reads lines d') (n : Nat) :
    d.addLines n lines = .ok d' := by
  induction h generalizing n with
  | nil d => rfl
  | cons hline hlines ih =>
    rw [Draft.addLines, hline]
    exact ih (n + 1)

theorem Reads.append {d' d'' : Draft} {xs ys : List (List Char)} (hx : d.Reads xs d')
    (hy : d'.Reads ys d'') : d.Reads (xs ++ ys) d'' := by
  induction hx with
  | nil d => exact hy
  | cons hline _ ih => exact .cons hline (ih hy)

theorem reads_blank (ms : List Margins) : d.Reads (ms.map (·.line [])) d := by
  induction ms with
  | nil => exact .nil d
  | cons m ms ih => exact .cons (addLine_blank m) ih

theorem reads_placement {d' : Draft} {content : List Char} (p : Placement)
    (h : ∀ m : Margins, d.addLine (m.line content) = .ok d') : d.Reads (p.lines content) d' :=
  (reads_blank p.before).append (.cons (h p.margins) (.nil d'))

theorem reads_rows {rows : List (Service × Row)} (hd : d.exporting = true)
    (hrows : ∀ x ∈ rows, IsExport x.1) :
    d.Reads (rows.flatMap fun x => x.2.placement.lines (x.2.content x.1))
      { d with exported := (rows.map (·.1)).reverse ++ d.exported } := by
  induction rows generalizing d with
  | nil => exact .nil d
  | cons x rows ih =>
    obtain ⟨hx, hrows⟩ := List.forall_mem_cons.mp hrows
    have hfirst := reads_placement x.2.placement (addLine_row x.2 hd hx)
    have hrest := hfirst.append (ih hd hrows)
    rw [List.map_cons, List.reverse_cons, List.append_assoc]
    exact hrest

theorem reads_lines {l : Layout} {moduleName : String} {rows : List (Service × Row)}
    (hmodule : IsModuleName moduleName) (hrows : ∀ x ∈ rows, IsExport x.1) :
    Reads ⟨none, false, []⟩ (l.lines moduleName rows)
      ⟨some moduleName, true, (rows.map (·.1)).reverse⟩ := by
  have hlibrary : Reads ⟨none, false, []⟩ (l.library.lines (l.title moduleName))
      ⟨some moduleName, false, []⟩ :=
    reads_placement l.library (addLine_title l hmodule)
  have hexports : Reads ⟨some moduleName, false, []⟩ (l.exports.lines l.exportsKeyword.text)
      ⟨some moduleName, true, []⟩ :=
    reads_placement l.exports (addLine_exports l.exportsKeyword)
  have hlisted : Reads ⟨some moduleName, true, []⟩
      (rows.flatMap fun x => x.2.placement.lines (x.2.content x.1))
      ⟨some moduleName, true, (rows.map (·.1)).reverse ++ []⟩ :=
    reads_rows rfl hrows
  rw [List.append_nil] at hlisted
  exact hlibrary.append (hexports.append (hlisted.append (reads_blank l.after)))

end Draft

theorem Placement.whole_lines {p : Placement} {content : List Char} (h : '\n' ∉ content) :
    ∀ line ∈ p.lines content, '\n' ∉ line := by
  intro line hline
  rcases List.mem_append.mp hline with hline | hline
  · obtain ⟨m, -, rfl⟩ := List.mem_map.mp hline
    exact m.whole_line (by simp)
  · obtain rfl := List.mem_singleton.mp hline
    exact p.margins.whole_line h

theorem Layout.whole_lines {l : Layout} {moduleName : String} {rows : List (Service × Row)}
    (hmodule : IsModuleName moduleName) (hrows : ∀ x ∈ rows, IsExport x.1) :
    ∀ line ∈ l.lines moduleName rows, '\n' ∉ line := by
  intro line hline
  unfold lines at hline
  simp only [List.mem_append, List.mem_flatMap, List.mem_map] at hline
  rcases hline with hline | hline | ⟨x, hx, hline⟩ | ⟨m, -, rfl⟩
  · exact Placement.whole_lines (l.isContent_title hmodule).whole line hline
  · have hkeyword : IsContent l.exportsKeyword.text :=
      l.exportsKeyword.isContent (by decide) (by decide)
    exact Placement.whole_lines hkeyword.whole line hline
  · exact Placement.whole_lines (x.2.isContent_content (hrows x hx)).whole line hline
  · exact m.whole_line (by simp)

theorem Layout.lines_ne_nil (l : Layout) (moduleName : String) (rows : List (Service × Row)) :
    l.lines moduleName rows ≠ [] := by
  unfold lines Placement.lines
  simp

end Definition

/-- Every way to write a module and its services is read back. -/
theorem Loader.definition_load_write {moduleName : String} {rows : List (Service × Definition.Row)}
    (hmodule : Definition.IsModuleName moduleName)
    (hrows : ∀ x ∈ rows, Definition.IsExport x.1) (l : Definition.Layout)
    (convention path : String) :
    definition.load convention path (l.write moduleName rows).toUTF8.data.toList =
      .ok (.ofServices moduleName (rows.map (·.1))) := by
  have hread : Definition.read (Text.Path.stem path) (l.write moduleName rows).toUTF8.data.toList =
      .ok (.ofServices moduleName (rows.map (·.1))) := by
    rw [Definition.read_eq_ok_iff]
    refine ⟨_, ⟨some moduleName, true, (rows.map (·.1)).reverse⟩, Text.Utf8.decode_toUTF8 _, ?_, ?_⟩
    · rw [Definition.Layout.write, String.toList_ofList,
        Text.cutAt_intercalate (l.lines_ne_nil moduleName rows) (l.whole_lines hmodule hrows)]
      exact (Definition.Draft.reads_lines hmodule hrows).addLines 1
    · unfold Definition.Draft.listing Listing.library
      rw [List.reverse_reverse]
      rfl
  unfold definition
  dsimp only
  rw [hread]

theorem Loader.definition_load_write_kernel :
    let sleep : Service := ⟨"Sleep", some (-18), none⟩
    let ticks : Service := ⟨"GetTickCount", none, none⟩
    let text := "; kernel\r\n\tLibrary \"KERNEL32\"\r\n\nexports;\n Sleep=Wait  @-18 DATA\n" ++
      "GetTickCount"
    Definition.IsModuleName "KERNEL32" ∧ Definition.IsExport sleep ∧ Definition.IsExport ticks ∧
      ∃ (l : Definition.Layout) (r₁ r₂ : Definition.Row),
        l.write "KERNEL32" [(sleep, r₁), (ticks, r₂)] = text ∧
          definition.load "" "k.def" text.toUTF8.data.toList =
            .ok (.ofServices "KERNEL32" [sleep, ticks]) := by
  intro sleep ticks text
  have hmodule : Definition.IsModuleName "KERNEL32" :=
    ⟨by decide, by decide, by decide, by decide, by decide⟩
  have hsleep : Definition.IsExport sleep :=
    ⟨by decide, by decide, by decide, by decide, by decide, by simp [sleep], rfl⟩
  have hticks : Definition.IsExport ticks :=
    ⟨by decide, by decide, by decide, by decide, by decide, by simp [ticks], rfl⟩
  let empty : Definition.Gap := ⟨[], by simp, by simp⟩
  let space : Definition.Separator := ⟨⟨[' '], by simp [Text.isBlank], by simp⟩, by simp⟩
  let spaces : Definition.Separator := ⟨⟨[' ', ' '], by simp [Text.isBlank], by simp⟩, by simp⟩
  let tab : Definition.Gap := ⟨['\t'], by simp [Text.isBlank], by simp⟩
  let plain : Definition.Margins := ⟨empty, empty, none, by simp, false⟩
  let heading : Definition.Margins := ⟨empty, empty, some " kernel".toList, by simp, true⟩
  let indented : Definition.Margins := ⟨tab, empty, none, by simp, true⟩
  let l : Definition.Layout :=
    { library := ⟨[heading], indented⟩
      libraryKeyword := ⟨"Library".toList, by decide⟩
      separator := space
      quoted := true
      exports := ⟨[plain], { plain with comment := some [], comment_whole := by simp }⟩
      exportsKeyword := ⟨"exports".toList, by decide⟩
      after := [] }
  let r₁ : Definition.Row :=
    { placement := ⟨[], { plain with left := space.toGap }⟩
      internal := some "Wait".toList
      internal_unbroken := by simp; decide
      separator := spaces
      fillers := [(space, ⟨"DATA".toList, by decide, by decide, by decide⟩)] }
  let r₂ : Definition.Row := ⟨⟨[], plain⟩, none, by simp, space, []⟩
  have htext : l.write "KERNEL32" [(sleep, r₁), (ticks, r₂)] = text := by decide +kernel
  refine ⟨hmodule, hsleep, hticks, l, r₁, r₂, htext, ?_⟩
  rw [← htext]
  apply definition_load_write hmodule
  simp [hsleep, hticks]

end TypeLibrary

end RegisterTransfer
