import Mathlib.Data.List.Forall2
import Mathlib.Data.List.ProdSigma
import RegisterTransfer.Proofs.Decoding
import RegisterTransfer.Proofs.TypeLibrary.Histories
import RegisterTransfer.Proofs.TypeLibrary.Indexes

/-!
What the files of type libraries list. A platform without conventions of its own resolves a
procedure by the first listing of its module that has the key, and by the last service in it.
-/

namespace RegisterTransfer

namespace Text

def Cases (upper lower : Char) : Prop :=
  'A' ≤ upper ∧ upper ≤ 'Z' ∧ lower.toNat = upper.toNat + 32

def EqualButForCase (a b : List Char) : Prop :=
  List.Forall₂ (fun x y => x = y ∨ Cases x y ∨ Cases y x) a b

theorem toNat_toLower (x : Char) : x.toLower.toNat =
    if 'A'.toNat ≤ x.toNat ∧ x.toNat ≤ 'Z'.toNat then x.toNat + 32 else x.toNat := by
  unfold Char.toLower Char.toNat
  simp only [ge_iff_le, UInt32.le_iff_toNat_le]
  split
  · rename_i h
    have hz : x.val.toNat ≤ 90 := h.2
    change (x.val + 32).toNat = _
    rw [UInt32.toNat_add]
    change (x.val.toNat + 32) % 4294967296 = _
    omega
  · rfl

theorem toLower_eq_toLower_iff (x y : Char) :
    x.toLower = y.toLower ↔ x = y ∨ Cases x y ∨ Cases y x := by
  have hle : ∀ u v : Char, u ≤ v ↔ u.toNat ≤ v.toNat := fun u v => UInt32.le_iff_toNat_le
  have heq : ∀ u v : Char, u = v ↔ u.toNat = v.toNat := fun u v =>
    ⟨fun h => h ▸ rfl, fun h => Char.ext (UInt32.toNat_inj.mp h)⟩
  have hA : 'A'.toNat = 65 := rfl
  have hZ : 'Z'.toNat = 90 := rfl
  unfold Cases
  rw [heq, heq, toNat_toLower, toNat_toLower, hle, hle, hle, hle, hA, hZ]
  split <;> split <;> omega

theorem sameIgnoringCase_iff (a b : List Char) :
    sameIgnoringCase a b ↔ EqualButForCase a b := by
  unfold sameIgnoringCase foldCase EqualButForCase
  rw [beq_iff_eq, ← List.forall₂_eq_eq_eq, List.forall₂_map_left_iff,
    List.forall₂_map_right_iff]
  simp only [toLower_eq_toLower_iff]

end Text

namespace TypeLibrary

structure Listing where
  moduleName : String
  services : List Service

def Listing.library (l : Listing) : Library := .ofServices l.moduleName l.services

def Listing.IsFor (l : Listing) (moduleName : String) : Prop :=
  Text.EqualButForCase l.moduleName.toList moduleName.toList

theorem Listing.isModule_library (l : Listing) (moduleName : String) :
    l.library.isModule moduleName = true ↔ l.IsFor moduleName := by
  unfold Library.isModule Listing.library
  rw [Library.moduleName_ofServices]
  exact Text.sameIgnoringCase_iff _ _

def Document.listing (d : Document) (convention path : String) : Listing :=
  ⟨d.moduleName.getD (Text.Path.stem path), d.services.map (·.withConvention convention)⟩

def Definition.Draft.listing (d : Draft) (path : String) : Listing :=
  ⟨d.moduleName.getD (Text.Path.stem path), d.exported.reverse⟩

theorem Definition.read_eq_ok_iff {path : String} {bytes : List UInt8} {library : Library} :
    read (Text.Path.stem path) bytes = .ok library ↔
      ∃ text draft, Text.Utf8.decode bytes = .ok text ∧
        Draft.addLines 1 ⟨none, false, []⟩ (Text.cutAt '\n' text) = .ok draft ∧
        (draft.listing path).library = library := by
  unfold read
  cases Text.Utf8.decode bytes with
  | error fault => simp
  | ok text =>
    dsimp only
    rw [map_eq_ok_iff]
    constructor
    · rintro ⟨draft, hdraft, hlibrary⟩
      exact ⟨text, draft, rfl, hdraft, hlibrary⟩
    · rintro ⟨_, draft, htext, hdraft, hlibrary⟩
      cases htext
      exact ⟨draft, hdraft, hlibrary⟩

def Loader.Lists [DocumentReader] (loader : Loader) (convention path : String) (bytes : List UInt8)
    (l : Listing) : Prop :=
  (loader = .json ∧ ∃ document, DocumentReader.library? bytes = some document ∧
    document.listing convention path = l) ∨
  (loader = .definition ∧ ∃ text draft, Text.Utf8.decode bytes = .ok text ∧
    Definition.Draft.addLines 1 ⟨none, false, []⟩ (Text.cutAt '\n' text) = .ok draft ∧
    draft.listing path = l)

def Loaders.Builtin [DocumentReader] (loaders : Loaders) : Prop :=
  ∀ typeName loader, loaders.get? typeName = some loader → loader = .json ∨ loader = .definition

theorem Loaders.builtin_builtin [DocumentReader] : Loaders.builtin.Builtin := by
  intro typeName loader h
  unfold builtin at h
  rw [Table.get?_insert, Table.get?_insert] at h
  split at h
  · exact .inr (Option.some.inj h).symm
  · split at h
    · exact .inl (Option.some.inj h).symm
    · cases h

def Job.Lists [DocumentReader] (files : FileStore) (loaders : Loaders) (convention : String)
    (job : Job) (l : Listing) : Prop :=
  ∃ bytes loader, files job.path = .ok bytes ∧ loaders.get? job.typeName = some loader ∧
    loader.Lists convention job.path bytes l

def Configuration.loadOrder (c : Configuration) (e : Environment) :
    List (LibraryEntry × LoaderEntry) :=
  (e.libraries ×ˢ c.loaders).filter fun x => x.1.loader ≠ "" ∧ x.2.label = x.1.loader

theorem Configuration.jobs_eq (c : Configuration) (e : Environment) :
    c.jobs e = (c.loadOrder e).map fun x => ⟨c.path x.1.name, x.2.typeName⟩ := by
  unfold jobs loadOrder SProd.sprod List.instSProd List.product
  rw [List.filter_flatMap, List.map_flatMap]
  congr 1
  funext entry
  unfold jobsOf
  rw [List.filter_map, List.map_map]
  by_cases hlabel : entry.loader = ""
  · simp [hlabel]
  · have hentry : entry.loader.isEmpty = false := by simpa using hlabel
    rw [hentry, if_neg Bool.false_ne_true]
    congr 2
    funext l
    simp [hlabel, beq_eq_decide]

theorem Loader.exists_lists [DocumentReader] {loader : Loader} {convention path : String}
    {bytes : List UInt8} {library : Library} (hloader : loader = .json ∨ loader = .definition)
    (h : loader.load convention path bytes = .ok library) :
    ∃ l, loader.Lists convention path bytes l ∧ l.library = library := by
  obtain rfl | rfl := hloader
  · unfold Loader.json at h
    dsimp only at h
    split at h
    · rename_i document hdocument
      cases h
      exact ⟨_, .inl ⟨rfl, document, hdocument, rfl⟩, rfl⟩
    · cases h
  · unfold Loader.definition at h
    dsimp only at h
    split at h
    · rename_i hread
      cases h
      obtain ⟨text, draft, htext, hdraft, hlibrary⟩ := Definition.read_eq_ok_iff.mp hread
      exact ⟨_, .inr ⟨rfl, text, draft, htext, hdraft, rfl⟩, hlibrary⟩
    · cases h

section
variable {files : FileStore} {loaders : Loaders} {convention : String}

theorem Job.run_eq_ok_iff {job : Job} {library : Library} :
    job.run files loaders convention = .ok library ↔
      ∃ bytes loader, files job.path = .ok bytes ∧ loaders.get? job.typeName = some loader ∧
        loader.load convention job.path bytes = .ok library := by
  unfold run Loaders.find
  cases files job.path with
  | error reason => simp
  | ok bytes =>
    cases loaders.get? job.typeName with
    | none => simp [bind, Except.bind]
    | some loader => simp [bind, Except.bind]

theorem runJobs_eq_ok_iff {jobs : List Job} {libraries : List Library} :
    (runJobs files loaders convention jobs).1 = .ok libraries ↔
      List.Forall₂ (fun job library => job.run files loaders convention = .ok library)
        jobs libraries := by
  induction jobs generalizing libraries with
  | nil => simp [runJobs, eq_comm]
  | cons job rest ih =>
    rw [runJobs, List.forall₂_cons_left_iff]
    cases job.run files loaders convention with
    | error e => simp
    | ok library =>
      dsimp only
      rw [map_eq_ok_iff]
      constructor
      · rintro ⟨others, hrest, rfl⟩
        exact ⟨library, others, rfl, ih.mp hrest, rfl⟩
      · rintro ⟨_, others, hlibrary, hrest, rfl⟩
        cases hlibrary
        exact ⟨others, ih.mpr hrest, rfl⟩

theorem Job.exists_lists [DocumentReader] {job : Job} {library : Library}
    (hloaders : loaders.Builtin) (h : job.run files loaders convention = .ok library) :
    ∃ l, job.Lists files loaders convention l ∧ l.library = library := by
  obtain ⟨bytes, loader, hbytes, hloader, hload⟩ := Job.run_eq_ok_iff.mp h
  obtain ⟨l, hl, hlibrary⟩ := Loader.exists_lists (hloaders _ _ hloader) hload
  exact ⟨l, ⟨bytes, loader, hbytes, hloader, hl⟩, hlibrary⟩

theorem exists_listings [DocumentReader] {jobs : List Job} {libraries : List Library}
    (hloaders : loaders.Builtin)
    (h : (runJobs files loaders convention jobs).1 = .ok libraries) :
    ∃ listings, List.Forall₂ (Job.Lists files loaders convention) jobs listings ∧
      listings.map Listing.library = libraries := by
  rw [runJobs_eq_ok_iff] at h
  induction h with
  | nil => exact ⟨[], .nil, rfl⟩
  | cons hjob _ ih =>
    obtain ⟨l, hl, rfl⟩ := Job.exists_lists hloaders hjob
    obtain ⟨listings, hlistings, rfl⟩ := ih
    exact ⟨l :: listings, .cons hl hlistings, rfl⟩

end

end TypeLibrary

open TypeLibrary

def Key.Matches : Key → Service → Prop
  | .ordinal n, s => s.ordinal = some n
  | .name x, s => s.name = x

def Key.search : Key → Library → Option Service
  | .ordinal n, l => l.ordinal? n
  | .name x, l => l.name? x

/-- The last service with the key in the first listing of the module that has one. Listings of the
module without the key may precede. -/
def Request.Selects (q : Request) (listings : List Listing) (s : Service) : Prop :=
  ∃ passed l others earlier later, listings = passed ++ l :: others ∧
    (∀ k ∈ passed, k.IsFor q.moduleName → ∀ t ∈ k.services, ¬q.key.Matches t) ∧
    l.IsFor q.moduleName ∧ l.services = earlier ++ s :: later ∧ q.key.Matches s ∧
    ∀ t ∈ later, ¬q.key.Matches t

theorem Key.search_eq_some_iff (key : Key) (l : Listing) (s : Service) :
    key.search l.library = some s ↔ key.Matches s ∧
      ∃ earlier later, l.services = earlier ++ s :: later ∧ ∀ t ∈ later, ¬key.Matches t := by
  cases key with
  | ordinal n =>
    apply Library.ordinal?_eq_some_iff.trans
    simp only [not_exists, not_and, Matches]
  | name x =>
    apply Library.name?_eq_some_iff.trans
    simp only [not_exists, not_and, Matches]

theorem Key.search_eq_none_iff (key : Key) (l : Listing) :
    key.search l.library = none ↔ ∀ t ∈ l.services, ¬key.Matches t := by
  cases key with
  | ordinal n =>
    change (Library.ofServices l.moduleName l.services).ordinal? n = none ↔ _
    rw [Library.ordinal?_ofServices]
    simp [Matches]
  | name x =>
    change (Library.ofServices l.moduleName l.services).name? x = none ↔ _
    rw [Library.name?_ofServices]
    simp [Matches]

namespace Request
variable {q : Request} {listings : List Listing}

theorem find?_library : q.find? (listings.map Listing.library) =
    listings.findSome? fun l =>
      if l.library.isModule q.moduleName then q.key.search l.library else none := by
  have hfind : ∀ libraries, q.find? libraries =
      (libraries.filter (·.isModule q.moduleName)).findSome? q.key.search := by
    intro libraries
    obtain ⟨moduleName, key⟩ := q
    cases key <;> rfl
  rw [hfind]
  induction listings with
  | nil => rfl
  | cons l rest ih =>
    rw [List.map_cons, List.filter_cons, List.findSome?_cons]
    split
    · rw [List.findSome?_cons, ih]
    · exact ih

theorem find?_eq_some_iff {s : Service} :
    q.find? (listings.map Listing.library) = some s ↔ q.Selects listings s := by
  have hpassed : ∀ l : Listing,
      (if l.library.isModule q.moduleName then q.key.search l.library else none) = none ↔
        (l.IsFor q.moduleName → ∀ t ∈ l.services, ¬q.key.Matches t) := by
    intro l
    rw [← l.isModule_library, ← q.key.search_eq_none_iff]
    exact ite_eq_right_iff
  have hfound : ∀ l : Listing,
      (if l.library.isModule q.moduleName then q.key.search l.library else none) = some s ↔
        l.IsFor q.moduleName ∧ q.key.search l.library = some s := by
    intro l
    rw [← l.isModule_library]
    exact Option.ite_none_right_eq_some
  rw [find?_library, List.findSome?_eq_some_iff]
  simp only [hpassed, hfound, Key.search_eq_some_iff]
  constructor
  · rintro ⟨passed, l, others, hl, ⟨hmodule, hs, earlier, later, hservices, hlater⟩, hpassed⟩
    exact ⟨passed, l, others, earlier, later, hl, hpassed, hmodule, hservices, hs, hlater⟩
  · rintro ⟨passed, l, others, earlier, later, hl, hpassed, hmodule, hservices, hs, hlater⟩
    exact ⟨passed, l, others, hl, ⟨hmodule, hs, earlier, later, hservices, hlater⟩, hpassed⟩

theorem find?_eq_none_iff : q.find? (listings.map Listing.library) = none ↔
    ∀ l ∈ listings, l.IsFor q.moduleName → ∀ s ∈ l.services, ¬q.key.Matches s := by
  rw [find?_library, List.findSome?_eq_none_iff]
  simp only [ite_eq_right_iff, Listing.isModule_library, Key.search_eq_none_iff]

end Request

namespace Platform
variable {a : Architecture} {identifier convention : String} {q : Request}
  {listings : List Listing}

theorem answer_eq_found_iff {p : Platform} {procedure : Procedure} :
    p.answer q (listings.map Listing.library) = .found procedure ↔
      ∃ s, q.Selects listings s ∧ p.procedure s = procedure := by
  unfold answer
  simp only [← Request.find?_eq_some_iff]
  cases q.find? (listings.map Listing.library) <;> simp [Lookup.ofOption]

theorem plain_answer_eq (libraries : List Library) :
    (Platform.plain a identifier convention).answer q libraries =
      .ofOption ((q.find? libraries).map fun s => ⟨s.name, s.signature⟩) := by
  unfold answer
  rw [funext (procedure_plain a identifier convention)]

theorem plain_answer_eq_notFound_iff :
    (Platform.plain a identifier convention).answer q (listings.map Listing.library) =
        .notFound ↔
      ∀ l ∈ listings, l.IsFor q.moduleName → ∀ s ∈ l.services, ¬q.key.Matches s := by
  rw [plain_answer_eq, ← Request.find?_eq_none_iff]
  cases q.find? (listings.map Listing.library) <;> simp [Lookup.ofOption]

theorem plain_answer_eq_found_iff {procedure : Procedure} :
    (Platform.plain a identifier convention).answer q (listings.map Listing.library) =
        .found procedure ↔
      ∃ s, q.Selects listings s ∧ procedure = ⟨s.name, s.signature⟩ := by
  rw [answer_eq_found_iff]
  simp only [procedure_plain, eq_comm]

end Platform

theorem TypeLibrary.Library.isModule_congr {a b : String}
    (h : Text.EqualButForCase a.toList b.toList) (l : Library) : l.isModule b = l.isModule a := by
  have hfold := eq_of_beq ((Text.sameIgnoringCase_iff _ _).mpr h)
  unfold isModule Text.sameIgnoringCase
  rw [hfold]

theorem Request.find?_congr {q : Request} {moduleName : String}
    (h : Text.EqualButForCase q.moduleName.toList moduleName.toList) (libraries : List Library) :
    Request.find? ⟨moduleName, q.key⟩ libraries = q.find? libraries := by
  obtain ⟨m, key⟩ := q
  have hmodule := funext (TypeLibrary.Library.isModule_congr h)
  unfold find? findOrdinal? findName?
  rw [hmodule]

namespace Resolver

/-- How a platform without conventions of its own resolves procedures once all declared libraries
load: the listings of the files are searched in the order of declaration, then in that of the loader
entries. -/
theorem plain_resolves_by_listings [DocumentReader] {a : Architecture}
    {identifier convention : String} {c : Configuration} {loaders : Loaders} {files : FileStore}
    {libraries : List Library} (hloaders : loaders.Builtin)
    (hload : (loadLibraries c files loaders convention identifier).1 = .ok libraries) :
    ∃ e listings, c.environment? identifier = some e ∧
      List.Forall₂ (fun x => Job.Lists files loaders convention ⟨c.path x.1.name, x.2.typeName⟩)
        (c.loadOrder e) listings ∧
      libraries = listings.map Listing.library ∧
      ∀ (before : List Request) (q : Request),
        let answer := fun q => (((fresh (.plain a identifier convention) c loaders).afterAll
          (before.map (files, ·))).answer files q).result
        (answer q = .ok .notFound ↔
          ∀ l ∈ listings, l.IsFor q.moduleName → ∀ s ∈ l.services, ¬q.key.Matches s) ∧
        (∀ procedure, answer q = .ok (.found procedure) ↔
          ∃ s, q.Selects listings s ∧ procedure = ⟨s.name, s.signature⟩) ∧
        (answer q = .ok .notFound ∨ ∃ procedure, answer q = .ok (.found procedure)) ∧
        ∀ moduleName, Text.EqualButForCase q.moduleName.toList moduleName.toList →
          answer ⟨moduleName, q.key⟩ = answer q := by
  have hload' := hload
  unfold loadLibraries at hload'
  cases he : c.environment? identifier with
  | none =>
    rw [he] at hload'
    cases hload'
  | some e =>
    rw [he] at hload'
    obtain ⟨listings, hlistings, rfl⟩ := exists_listings hloaders hload'
    rw [Configuration.jobs_eq, List.forall₂_map_left_iff] at hlistings
    refine ⟨e, listings, rfl, hlistings, rfl, ?_⟩
    intro before q answer
    -- Files that stay as they are load to the same, whichever request comes first.
    have hanswer : ∀ q, answer q = .ok ((Platform.plain a identifier convention).answer q
        (listings.map Listing.library)) := by
      intro q
      refine (answer_afterAll_same_files rfl before).trans ?_
      exact congrArg (Except.map _) hload
    refine ⟨?_, ?_, ?_, ?_⟩
    · rw [hanswer, Except.ok.injEq]
      exact Platform.plain_answer_eq_notFound_iff
    · intro procedure
      rw [hanswer, Except.ok.injEq]
      exact Platform.plain_answer_eq_found_iff
    · rw [hanswer, Platform.plain_answer_eq]
      cases q.find? (listings.map Listing.library) with
      | none => exact .inl rfl
      | some s => exact .inr ⟨_, rfl⟩
    · intro moduleName hmodule
      rw [hanswer, hanswer, Platform.plain_answer_eq, Platform.plain_answer_eq,
        Request.find?_congr hmodule]

theorem plain_resolves_past_listing_without_key :
    let c : Configuration :=
      .make [⟨"c64", [⟨"a.def", "def"⟩, ⟨"b.def", "def"⟩]⟩] [⟨"def", "def"⟩] "/lib"
    let files : FileStore := fun path =>
      if path = "/lib/a.def" then .ok "LIBRARY kernal\nEXPORTS\nCHRIN @2\n".toUTF8.data.toList
      else .ok "LIBRARY KERNAL\nEXPORTS\nCHROUT @1\nGETIN @1\n".toUTF8.data.toList
    let q : Request := ⟨"Kernal", .ordinal 1⟩
    Loaders.builtin.Builtin ∧ ∃ libraries,
      (loadLibraries c files .builtin "" "c64").1 = .ok libraries ∧
      ((fresh (.plain .mos6502 "c64" "") c .builtin).answer files q).result =
        .ok (.found ⟨"GETIN", none⟩) ∧
      ∃ listings s, libraries = listings.map Listing.library ∧ q.Selects listings s ∧
        s.name = "GETIN" := by
  intro c files q
  have hsome : (loadLibraries c files .builtin "" "c64").1.toOption.isSome := by decide +kernel
  obtain ⟨libraries, hlibraries⟩ := Option.isSome_iff_exists.mp hsome
  have hload := toOption_eq_some_iff.mp hlibraries
  have hanswer : ((fresh (.plain .mos6502 "c64" "") c .builtin).answer files q).result =
      .ok (.found ⟨"GETIN", none⟩) := by
    rw [← toOption_eq_some_iff]
    decide +kernel
  obtain ⟨e, listings, -, -, hlistings, h⟩ :=
    plain_resolves_by_listings Loaders.builtin_builtin hload
  obtain ⟨-, hfound, -, -⟩ := h [] q
  obtain ⟨s, hs, hprocedure⟩ := (hfound ⟨"GETIN", none⟩).mp hanswer
  have hname : s.name = "GETIN" := (Procedure.mk.inj hprocedure).1.symm
  exact ⟨Loaders.builtin_builtin, _, hload, hanswer, listings, s, hlistings, hs, hname⟩

end Resolver

end RegisterTransfer
