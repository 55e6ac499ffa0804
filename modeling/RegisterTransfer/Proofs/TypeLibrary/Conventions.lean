import RegisterTransfer.Proofs.TypeLibrary.LoadOrder

/-!
Calling conventions on the way from a file to an answer. Loading gives each signature a calling
convention and leaves services as they are written in all else, so a look-up finds the service that
it would find among those written.
-/

namespace RegisterTransfer

namespace TypeLibrary

def Listing.withConvention (convention : String) (l : Listing) : Listing :=
  { l with services := l.services.map (·.withConvention convention) }

def Listing.Unsigned (l : Listing) : Prop := ∀ s ∈ l.services, s.signature = none

def Loader.Writes [DocumentReader] (loader : Loader) (path : String) (bytes : List UInt8)
    (l : Listing) : Prop :=
  (loader = .json ∧ ∃ document, DocumentReader.library? bytes = some document ∧
    l = ⟨document.moduleName.getD (Text.Path.stem path), document.services⟩) ∨
  (loader = .definition ∧ ∃ text draft, Text.Utf8.decode bytes = .ok text ∧
    Definition.Draft.addLines 1 ⟨none, false, []⟩ (Text.cutAt '\n' text) = .ok draft ∧
    l = draft.listing path)

def Job.Writes [DocumentReader] (files : FileStore) (loaders : Loaders) (job : Job)
    (l : Listing) : Prop :=
  ∃ bytes loader, files job.path = .ok bytes ∧ loaders.get? job.typeName = some loader ∧
    loader.Writes job.path bytes l

theorem Service.withConvention_of_unsigned {s : Service} (h : s.signature = none)
    (convention : String) : s.withConvention convention = s := by
  unfold withConvention
  rw [h, Option.map_none, ← h]

theorem Listing.Unsigned.withConvention {l : Listing} (h : l.Unsigned) (convention : String) :
    l.withConvention convention = l := by
  have hs : l.services.map (·.withConvention convention) = l.services :=
    (List.map_congr_left fun s hs => Service.withConvention_of_unsigned (h s hs) convention).trans
      (List.map_id' _)
  unfold Listing.withConvention
  rw [hs]

namespace Definition.Draft
variable {d d' : Draft}

theorem unsigned_addLine (h : ∀ s ∈ d.exported, s.signature = none) {line : List Char}
    (hd : d.addLine line = .ok d') : ∀ s ∈ d'.exported, s.signature = none := by
  unfold addLine at hd
  dsimp only at hd
  split at hd
  · cases hd
    exact h
  split at hd
  · split at hd
    · cases hd
    · cases hd
      exact h
  split at hd
  · cases hd
    exact h
  split at hd
  · obtain ⟨s, hs, rfl⟩ := map_eq_ok_iff.mp hd
    obtain ⟨ordinal, -, rfl⟩ := map_eq_ok_iff.mp hs
    exact List.forall_mem_cons.mpr ⟨rfl, h⟩
  · cases hd
    exact h

theorem unsigned_addLines {lines : List (List Char)} {n : Nat}
    (h : ∀ s ∈ d.exported, s.signature = none) (hd : d.addLines n lines = .ok d') :
    ∀ s ∈ d'.exported, s.signature = none := by
  induction lines generalizing d n with
  | nil =>
    cases hd
    exact h
  | cons line rest ih =>
    unfold addLines at hd
    split at hd
    next hline => exact ih (unsigned_addLine h hline) hd
    next => cases hd

theorem unsigned_listing {n : Nat} {lines : List (List Char)}
    (hd : addLines n ⟨none, false, []⟩ lines = .ok d) (path : String) :
    (d.listing path).Unsigned := by
  intro s hs
  exact unsigned_addLines (by simp) hd s (List.mem_reverse.mp hs)

end Definition.Draft

theorem Loader.json_ne_definition [DocumentReader] : Loader.json ≠ Loader.definition := by
  intro h
  -- Only a module-definition file has lines to blame.
  have hfault : Loader.definition.load "" "" "LIBRARY".toUTF8.data.toList =
      .error (.badDefinition "" 1 .unnamedLibrary) := by
    rfl
  rw [← h] at hfault
  unfold json at hfault
  dsimp only at hfault
  split at hfault <;> cases hfault

theorem Loader.Writes.unsigned [DocumentReader] {path : String} {bytes : List UInt8} {l : Listing}
    (h : Loader.definition.Writes path bytes l) : l.Unsigned := by
  obtain ⟨hloader, -⟩ | ⟨-, text, draft, -, hdraft, rfl⟩ := h
  · exact absurd hloader.symm Loader.json_ne_definition
  · exact Definition.Draft.unsigned_listing hdraft path

section
variable [DocumentReader] {files : FileStore} {loaders : Loaders} {convention : String}

theorem Loader.Lists.writes {loader : Loader} {path : String} {bytes : List UInt8} {l : Listing}
    (h : loader.Lists convention path bytes l) :
    ∃ w, loader.Writes path bytes w ∧ w.withConvention convention = l := by
  obtain ⟨hloader, document, hdocument, rfl⟩ | ⟨hloader, text, draft, htext, hdraft, rfl⟩ := h
  · exact ⟨_, .inl ⟨hloader, document, hdocument, rfl⟩, rfl⟩
  · have hl := Definition.Draft.unsigned_listing hdraft path
    exact ⟨_, .inr ⟨hloader, text, draft, htext, hdraft, rfl⟩, hl.withConvention convention⟩

theorem Job.Lists.writes {job : Job} {l : Listing} (h : job.Lists files loaders convention l) :
    ∃ w, job.Writes files loaders w ∧ w.withConvention convention = l := by
  obtain ⟨bytes, loader, hbytes, hloader, hl⟩ := h
  obtain ⟨w, hw, hlisted⟩ := hl.writes
  exact ⟨w, ⟨bytes, loader, hbytes, hloader, hw⟩, hlisted⟩

theorem exists_written {jobs : List Job} {libraries : List Library} (hloaders : loaders.Builtin)
    (h : (runJobs files loaders convention jobs).1 = .ok libraries) :
    ∃ written, List.Forall₂ (Job.Writes files loaders) jobs written ∧
      libraries = (written.map (·.withConvention convention)).map Listing.library := by
  obtain ⟨listings, hlistings, rfl⟩ := exists_listings hloaders h
  clear h
  induction hlistings with
  | nil => exact ⟨[], .nil, rfl⟩
  | cons hjob _ ih =>
    obtain ⟨w, hw, rfl⟩ := hjob.writes
    obtain ⟨written, hwritten, hrest⟩ := ih
    exact ⟨w :: written, .cons hw hwritten, congrArg (Listing.library _ :: ·) hrest⟩

end

end TypeLibrary

open TypeLibrary

theorem Key.matches_withConvention (key : Key) (convention : String) (s : Service) :
    key.Matches (s.withConvention convention) ↔ key.Matches s := by
  cases key <;> rfl

theorem Request.Selects.of_withConvention {q : Request} {convention : String}
    {written : List Listing} {s : Service}
    (h : q.Selects (written.map (·.withConvention convention)) s) :
    ∃ t, q.Selects written t ∧ t.withConvention convention = s := by
  obtain ⟨passed, l, others, earlier, later, hl, hpassed, hmodule, hservices, hs, hlater⟩ := h
  obtain ⟨passed, rest, rfl, rfl, hrest⟩ := List.map_eq_append_iff.mp hl
  obtain ⟨l, others, rfl, rfl, rfl⟩ := List.map_eq_cons_iff.mp hrest
  obtain ⟨earlier, more, hsplit, rfl, hmore⟩ := List.map_eq_append_iff.mp hservices
  obtain ⟨t, later, rfl, rfl, rfl⟩ := List.map_eq_cons_iff.mp hmore
  refine ⟨t, ⟨passed, l, others, earlier, later, rfl, ?_, hmodule, hsplit, ?_, ?_⟩, rfl⟩
  · intro k hk hfor u hu hmatch
    refine hpassed _ (List.mem_map_of_mem hk) hfor _ (List.mem_map_of_mem hu) ?_
    exact (q.key.matches_withConvention convention u).mpr hmatch
  · exact (q.key.matches_withConvention convention t).mp hs
  · intro u hu hmatch
    refine hlater _ (List.mem_map_of_mem hu) ?_
    exact (q.key.matches_withConvention convention u).mpr hmatch

def Platform.returnAddress (p : Platform) (declared : Nat) : Nat :=
  match p with
  | .winMips _ => 0
  | .plain .. => declared

theorem Platform.correct_eq (p : Platform) (s : Signature) :
    p.correct s = { s with returnAddressOnStack := p.returnAddress s.returnAddressOnStack } := by
  cases p <;> rfl

namespace Resolver
variable {p : Platform} {c : Configuration} {loaders : Loaders}

theorem loaded_of_found {before : List (FileStore × Request)} {files : FileStore} {q : Request}
    {procedure : Procedure}
    (h : (((fresh p c loaders).afterAll before).answer files q).result = .ok (.found procedure)) :
    ∃ store ∈ files :: before.map Prod.fst, ∃ libraries,
      (p.load c loaders store).1 = .ok libraries ∧ p.answer q libraries = .found procedure := by
  rw [afterAll_fresh, answer_eq] at h
  split at h
  · cases hfirst : p.firstLoaded c loaders before with
    | none =>
      rw [hfirst] at h
      obtain ⟨libraries, hload, hanswer⟩ := map_eq_ok_iff.mp h
      exact ⟨files, List.mem_cons_self .., libraries, hload, hanswer⟩
    | some libraries =>
      rw [hfirst] at h
      obtain ⟨x, hx, hload⟩ := List.exists_of_findSome?_eq_some hfirst
      split at hload
      · refine ⟨x.1, List.mem_cons_of_mem _ (List.mem_map_of_mem hx), libraries, ?_, ?_⟩
        · exact toOption_eq_some_iff.mp hload
        · exact Except.ok.inj h
      · cases hload
  · cases h

/-- A signature that a look-up returns is the one written for the service, but for the calling
convention where none is written and, on Windows CE on MIPS, for the return address. Services of
module-definition files have no signature. -/
theorem found_as_written [DocumentReader] (hloaders : loaders.Builtin)
    {before : List (FileStore × Request)} {files : FileStore} {q : Request} {procedure : Procedure}
    (hfound : (((fresh p c loaders).afterAll before).answer files q).result =
      .ok (.found procedure)) :
    ∃ store ∈ files :: before.map Prod.fst, ∃ e written service,
      c.environment? p.identifier = some e ∧
      List.Forall₂ (fun x => (c.job x).Writes store loaders) (c.loadOrder e) written ∧
      (∀ x w, (x, w) ∈ (c.loadOrder e).zip written →
        loaders.get? x.2.typeName = some .definition → ∀ s ∈ w.services, s.signature = none) ∧
      q.Selects written service ∧ procedure.name = service.name ∧
      procedure.signature = service.signature.map fun declared =>
        { declared with
          callingConvention := some (declared.callingConvention.getD p.callingConvention)
          returnAddressOnStack := p.returnAddress declared.returnAddressOnStack } := by
  obtain ⟨store, hstore, libraries, hload, hanswer⟩ := loaded_of_found hfound
  unfold Platform.load loadLibraries at hload
  cases he : c.environment? p.identifier with
  | none =>
    rw [he] at hload
    cases hload
  | some e =>
    rw [he] at hload
    dsimp only at hload
    rw [c.jobs_eq_map_job] at hload
    obtain ⟨written, hwritten, rfl⟩ := exists_written hloaders hload
    obtain ⟨s, hs, rfl⟩ := Platform.answer_eq_found_iff.mp hanswer
    obtain ⟨service, hservice, rfl⟩ := hs.of_withConvention
    rw [List.forall₂_map_left_iff] at hwritten
    refine ⟨store, hstore, e, written, service, rfl, hwritten, ?_, hservice, rfl, ?_⟩
    · intro x w hx hdefinition
      obtain ⟨bytes, loader, -, hloader, hw⟩ := (List.forall₂_iff_zip.mp hwritten).2 hx
      obtain rfl : loader = .definition :=
        Option.some.inj (hloader.symm.trans hdefinition)
      exact hw.unsigned
    · unfold Platform.procedure Service.withConvention
      cases service.signature with
      | none => rfl
      | some declared => exact congrArg some (p.correct_eq _)

theorem found_as_written_after_missing :
    let c : Configuration :=
      .make [⟨"winMips", [⟨"coredll.json", "json"⟩]⟩] [⟨"json", "json"⟩] "/lib"
    let missing : FileStore := fun _ => .error "missing"
    let present : FileStore := fun _ => .ok
      ("\x7b\"services\":[\x7b\"name\":\"Sleep\",\"ordinal\":496,\"signature\":" ++
        "\x7b\"return_address_on_stack\":4,\"stack_delta\":8\x7d\x7d]\x7d").toUTF8.data.toList
    let q : Request := ⟨"CoreDll", .ordinal 496⟩
    Loaders.builtin.Builtin ∧
      (((fresh (.winMips .little) c .builtin).afterAll [(missing, q)]).answer present q).result =
        .ok (.found ⟨"Sleep", some ⟨none, [], 0, 8, some ""⟩⟩) ∧
      ∃ written service declared, q.Selects written service ∧ service.name = "Sleep" ∧
        service.signature = some declared ∧ declared.stackDelta = 8 := by
  intro c missing present q
  have hfound : (((fresh (.winMips .little) c .builtin).afterAll [(missing, q)]).answer
      present q).result = .ok (.found ⟨"Sleep", some ⟨none, [], 0, 8, some ""⟩⟩) := by
    rw [← toOption_eq_some_iff]
    decide +kernel
  obtain ⟨-, -, -, written, service, -, -, -, hservice, hname, hsignature⟩ :=
    found_as_written Loaders.builtin_builtin hfound
  obtain ⟨declared, hdeclared, hs⟩ := Option.map_eq_some_iff.mp hsignature.symm
  have hdelta : declared.stackDelta = 8 := congrArg Signature.stackDelta hs
  exact ⟨Loaders.builtin_builtin, hfound, written, service, declared, hservice, hname.symm,
    hdeclared, hdelta⟩

end Resolver

end RegisterTransfer
