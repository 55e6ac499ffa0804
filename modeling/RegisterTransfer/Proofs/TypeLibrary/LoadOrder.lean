import RegisterTransfer.Proofs.TypeLibrary.Listings

/-!
Loading as a join. The declared libraries are paired with the loader entries of their label; the
pairs are tried in the order of declaration, then in that of the entries, and the first that fails
ends the load. Files are read for the pairs that are tried, and for no others.
-/

namespace RegisterTransfer.TypeLibrary

inductive Job.Yields (files : FileStore) (loaders : Loaders) (convention : String) (job : Job) :
    Except Error Library → Prop
  | unreadable {reason : String} (hfile : files job.path = .error reason) :
    Yields files loaders convention job (.error (.unreadable job.path reason))
  | unregistered {bytes : List UInt8} (hfile : files job.path = .ok bytes)
    (hloader : loaders.get? job.typeName = none) :
    Yields files loaders convention job (.error (.unknownLoaderType job.typeName))
  | loaded {bytes : List UInt8} {loader : Loader} (hfile : files job.path = .ok bytes)
    (hloader : loaders.get? job.typeName = some loader) :
    Yields files loaders convention job (loader.load convention job.path bytes)

def Configuration.job (c : Configuration) (x : LibraryEntry × LoaderEntry) : Job :=
  ⟨c.path x.1.name, x.2.typeName⟩

def Loaders.ReportNoEnvironment (loaders : Loaders) (convention : String) : Prop :=
  ∀ typeName loader path bytes name, loaders.get? typeName = some loader →
    loader.load convention path bytes ≠ .error (.unknownEnvironment name)

section
variable {files : FileStore} {loaders : Loaders} {convention : String}

theorem Job.yields_run (job : Job) :
    job.Yields files loaders convention (job.run files loaders convention) := by
  unfold run Loaders.find
  cases hfile : files job.path with
  | error reason => exact .unreadable hfile
  | ok bytes =>
    cases hloader : loaders.get? job.typeName with
    | none => exact .unregistered hfile hloader
    | some loader => exact .loaded hfile hloader

theorem Job.yields_iff {job : Job} {result : Except Error Library} :
    job.Yields files loaders convention result ↔ job.run files loaders convention = result := by
  constructor
  · intro h
    unfold run Loaders.find
    cases h with
    | unreadable hfile => rw [hfile]
    | unregistered hfile hloader =>
      rw [hfile, hloader]
      rfl
    | loaded hfile hloader =>
      rw [hfile, hloader]
      rfl
  · rintro rfl
    exact job.yields_run

theorem runJobs_cons (job : Job) (rest : List Job) :
    runJobs files loaders convention (job :: rest) =
      match job.run files loaders convention with
      | .error e => (.error e, [job.path])
      | .ok library =>
        ((runJobs files loaders convention rest).1.map (library :: ·),
          job.path :: (runJobs files loaders convention rest).2) :=
  rfl

theorem reads_of_ok {jobs : List Job} {libraries : List Library}
    (h : (runJobs files loaders convention jobs).1 = .ok libraries) :
    (runJobs files loaders convention jobs).2 = jobs.map Job.path := by
  induction jobs generalizing libraries with
  | nil => rfl
  | cons job rest ih =>
    rw [runJobs_cons] at h ⊢
    cases hjob : job.run files loaders convention with
    | error e =>
      rw [hjob] at h
      cases h
    | ok library =>
      rw [hjob] at h
      obtain ⟨others, hothers, -⟩ := map_eq_ok_iff.mp h
      exact congrArg (job.path :: ·) (ih hothers)

theorem runJobs_eq_ok {jobs : List Job} {libraries : List Library} {reads : List String} :
    runJobs files loaders convention jobs = (.ok libraries, reads) ↔
      List.Forall₂ (fun job library => job.Yields files loaders convention (.ok library))
        jobs libraries ∧ reads = jobs.map Job.path := by
  simp only [Job.yields_iff]
  rw [← runJobs_eq_ok_iff, Prod.ext_iff]
  constructor
  · rintro ⟨hlibraries, hreads⟩
    exact ⟨hlibraries, hreads.symm.trans (reads_of_ok hlibraries)⟩
  · rintro ⟨hlibraries, hreads⟩
    exact ⟨hlibraries, (reads_of_ok hlibraries).trans hreads.symm⟩

theorem runJobs_append {passed : List Job} (rest : List Job)
    (h : ∀ j ∈ passed, ∃ library, j.Yields files loaders convention (.ok library)) :
    ∃ libraries, runJobs files loaders convention (passed ++ rest) =
      ((runJobs files loaders convention rest).1.map (libraries ++ ·),
        passed.map Job.path ++ (runJobs files loaders convention rest).2) := by
  induction passed with
  | nil =>
    refine ⟨[], ?_⟩
    rw [List.nil_append]
    cases runJobs files loaders convention rest with
    | mk result reads => cases result <;> rfl
  | cons job passed ih =>
    obtain ⟨library, hlibrary⟩ := h job (List.mem_cons_self ..)
    obtain ⟨libraries, hrest⟩ := ih fun j hj => h j (List.mem_cons_of_mem _ hj)
    refine ⟨library :: libraries, ?_⟩
    rw [List.cons_append, runJobs_cons, Job.yields_iff.mp hlibrary, hrest]
    cases runJobs files loaders convention rest with
    | mk result reads => cases result <;> rfl

theorem runJobs_eq_error {jobs : List Job} {error : Error} {reads : List String} :
    runJobs files loaders convention jobs = (.error error, reads) ↔
      ∃ passed job rest, jobs = passed ++ job :: rest ∧
        (∀ j ∈ passed, ∃ library, j.Yields files loaders convention (.ok library)) ∧
        job.Yields files loaders convention (.error error) ∧
        reads = (passed ++ [job]).map Job.path := by
  constructor
  · intro h
    -- The job that fails is the first one, or it is the failing one of the rest.
    induction jobs generalizing reads with
    | nil => cases h
    | cons job rest ih =>
      rw [runJobs_cons] at h
      cases hjob : job.run files loaders convention with
      | error e =>
        rw [hjob] at h
        cases h
        exact ⟨[], job, rest, rfl, by simp, Job.yields_iff.mpr hjob, rfl⟩
      | ok library =>
        rw [hjob] at h
        cases hrest : runJobs files loaders convention rest with
        | mk result others =>
          rw [hrest] at h
          cases result with
          | ok libraries => cases h
          | error e =>
            cases h
            obtain ⟨passed, failing, later, rfl, hpassed, hfailing, rfl⟩ := ih hrest
            refine ⟨job :: passed, failing, later, rfl, ?_, hfailing, rfl⟩
            intro j hj
            rcases List.mem_cons.mp hj with rfl | hj
            · exact ⟨library, Job.yields_iff.mpr hjob⟩
            · exact hpassed j hj
  · rintro ⟨passed, job, rest, rfl, hpassed, hjob, rfl⟩
    obtain ⟨libraries, hrun⟩ := runJobs_append (job :: rest) hpassed
    rw [hrun, runJobs_cons, Job.yields_iff.mp hjob, List.map_append]
    rfl

theorem runJobs_map_eq_error {α : Type} {job : α → Job} {xs : List α} {error : Error}
    {reads : List String} :
    runJobs files loaders convention (xs.map job) = (.error error, reads) ↔
      ∃ passed x rest, xs = passed ++ x :: rest ∧
        (∀ y ∈ passed, ∃ library, (job y).Yields files loaders convention (.ok library)) ∧
        (job x).Yields files loaders convention (.error error) ∧
        reads = (passed ++ [x]).map fun y => (job y).path := by
  rw [runJobs_eq_error]
  constructor
  · rintro ⟨_, _, _, hsplit, hpassed, hfailing, rfl⟩
    obtain ⟨passed, tail, rfl, rfl, htail⟩ := List.map_eq_append_iff.mp hsplit
    obtain ⟨x, rest, rfl, rfl, rfl⟩ := List.map_eq_cons_iff.mp htail
    refine ⟨passed, x, rest, rfl, ?_, hfailing, ?_⟩
    · intro y hy
      exact hpassed _ (List.mem_map_of_mem hy)
    · simp
  · rintro ⟨passed, x, rest, rfl, hpassed, hfailing, rfl⟩
    refine ⟨passed.map job, job x, rest.map job, ?_, ?_, hfailing, ?_⟩
    · rw [List.map_append, List.map_cons]
    · intro j hj
      obtain ⟨y, hy, rfl⟩ := List.mem_map.mp hj
      exact hpassed y hy
    · simp

theorem runJobs_ne_unknownEnvironment {jobs : List Job} {name : String}
    (hloaders : loaders.ReportNoEnvironment convention) :
    (runJobs files loaders convention jobs).1 ≠ .error (.unknownEnvironment name) := by
  intro h
  obtain ⟨-, job, -, -, -, hjob, -⟩ := runJobs_eq_error.mp (Prod.ext h rfl)
  generalize hresult : (Except.error (.unknownEnvironment name) : Except Error Library) = result
    at hjob
  cases hjob with
  | unreadable => cases hresult
  | unregistered => cases hresult
  | loaded hfile hloader => exact hloaders _ _ _ _ name hloader hresult.symm

theorem runJobs_ne_error_nil {jobs : List Job} {error : Error} :
    runJobs files loaders convention jobs ≠ (.error error, []) := by
  intro h
  obtain ⟨passed, job, -, -, -, -, hreads⟩ := runJobs_eq_error.mp h
  rw [List.map_append] at hreads
  exact List.append_ne_nil_of_right_ne_nil _ (List.cons_ne_nil _ _) hreads.symm

end

theorem Loaders.builtin_reportNoEnvironment [DocumentReader] (convention : String) :
    builtin.ReportNoEnvironment convention := by
  intro typeName loader path bytes name hloader
  obtain rfl | rfl := builtin_builtin typeName loader hloader
  · unfold Loader.json
    dsimp only
    split <;> exact nofun
  · unfold Loader.definition
    dsimp only
    split <;> exact nofun

namespace Configuration

theorem jobs_eq_map_job (c : Configuration) (e : Environment) :
    c.jobs e = (c.loadOrder e).map c.job :=
  c.jobs_eq e

theorem environment?_make (environments : List Environment) (loaders : List LoaderEntry)
    (directory name : String) : (make environments loaders directory).environment? name =
      environments.reverse.find? (·.name == name) := by
  have hinsert : ∀ (t : Table String Environment) e, (t.insert e.name e).get? name =
      if (e.name == name) = true then some e else t.get? name := by
    intro t e
    rw [Table.get?_insert]
    simp
  have h := lookup_foldl (fun t : Table String Environment => t.get? name) (·.name == name)
    hinsert Table.empty environments
  rw [Table.get?_empty, Option.or_none] at h
  unfold environment? make Table.ofList
  rw [List.foldl_map]
  exact h

theorem environment?_make_eq_none {environments : List Environment} {entries : List LoaderEntry}
    {directory name : String} :
    (make environments entries directory).environment? name = none ↔
      ∀ e ∈ environments, e.name ≠ name := by
  rw [environment?_make, List.find?_eq_none]
  simp

theorem environment?_make_of_last {earlier later : List Environment} {e : Environment}
    {name : String} (he : e.name = name) (hlater : ∀ d ∈ later, d.name ≠ name)
    (entries : List LoaderEntry) (directory : String) :
    (make (earlier ++ e :: later) entries directory).environment? name = some e := by
  rw [environment?_make, find?_reverse_eq_some_iff]
  refine ⟨by simpa using he, earlier, later, rfl, ?_⟩
  intro d hd
  simpa using hlater d hd

theorem jobsOf_eq_nil {c : Configuration} {l : LibraryEntry}
    (h : l.loader = "" ∨ ∀ k ∈ c.loaders, k.label ≠ l.loader) : c.jobsOf l = [] := by
  unfold jobsOf
  rcases h with h | h
  · rw [h]
    rfl
  · have hfilter : c.loaders.filter (·.label == l.loader) = [] := by
      rw [List.filter_eq_nil_iff]
      intro k hk
      simpa using h k hk
    rw [hfilter]
    split <;> rfl

theorem jobs_skip {c : Configuration} {l : LibraryEntry}
    (h : l.loader = "" ∨ ∀ k ∈ c.loaders, k.label ≠ l.loader) (name : String)
    (before after : List LibraryEntry) :
    c.jobs ⟨name, before ++ l :: after⟩ = c.jobs ⟨name, before ++ after⟩ := by
  unfold jobs
  rw [List.flatMap_append, List.flatMap_cons, jobsOf_eq_nil h, List.nil_append,
    List.flatMap_append]

end Configuration

section
variable {c : Configuration} {files : FileStore} {loaders : Loaders} {convention name : String}

theorem loadLibraries_of_environment {e : Environment} (h : c.environment? name = some e) :
    loadLibraries c files loaders convention name =
      runJobs files loaders convention ((c.loadOrder e).map c.job) := by
  unfold loadLibraries
  rw [h, ← c.jobs_eq_map_job]

theorem loadLibraries_eq_unknown_iff :
    loadLibraries c files loaders convention name = (.error (.unknownEnvironment name), []) ↔
      c.environment? name = none := by
  constructor
  · intro h
    cases he : c.environment? name with
    | none => rfl
    | some e =>
      rw [loadLibraries_of_environment he] at h
      exact absurd h runJobs_ne_error_nil
  · intro h
    unfold loadLibraries
    rw [h]

theorem loadLibraries_error_unknown_iff (hloaders : loaders.ReportNoEnvironment convention)
    (other : String) :
    (loadLibraries c files loaders convention name).1 = .error (.unknownEnvironment other) ↔
      other = name ∧ c.environment? name = none := by
  constructor
  · intro h
    cases he : c.environment? name with
    | none =>
      rw [loadLibraries_eq_unknown_iff.mpr he] at h
      cases h
      exact ⟨rfl, rfl⟩
    | some e =>
      rw [loadLibraries_of_environment he] at h
      exact absurd h (runJobs_ne_unknownEnvironment hloaders)
  · rintro ⟨rfl, he⟩
    rw [loadLibraries_eq_unknown_iff.mpr he]

end

/-- Loading what an environment declares, the last one of its name. A library without a label, or
with one that no entry has, might as well not be declared. -/
theorem loadLibraries_joins (environments : List Environment) (entries : List LoaderEntry)
    (directory : String) (files : FileStore) (loaders : Loaders) (convention name : String) :
    let c := Configuration.make environments entries directory
    let outcome := loadLibraries c files loaders convention name
    let Yields := fun x => (c.job x).Yields files loaders convention
    (outcome = (.error (.unknownEnvironment name), []) ↔ ∀ e ∈ environments, e.name ≠ name) ∧
    (loaders.ReportNoEnvironment convention → ∀ other,
      outcome.1 = .error (.unknownEnvironment other) ↔
        other = name ∧ ∀ e ∈ environments, e.name ≠ name) ∧
    ∀ earlier e later, environments = earlier ++ e :: later → e.name = name →
      (∀ d ∈ later, d.name ≠ name) →
      (∀ libraries reads, outcome = (.ok libraries, reads) ↔
        List.Forall₂ (fun x library => Yields x (.ok library)) (c.loadOrder e) libraries ∧
          reads = (c.loadOrder e).map fun x => c.path x.1.name) ∧
      (∀ error reads, outcome = (.error error, reads) ↔
        ∃ passed x rest, c.loadOrder e = passed ++ x :: rest ∧
          (∀ y ∈ passed, ∃ library, Yields y (.ok library)) ∧ Yields x (.error error) ∧
          reads = (passed ++ [x]).map fun y => c.path y.1.name) ∧
      ∀ before l after, e.libraries = before ++ l :: after →
        (l.loader = "" ∨ ∀ k ∈ entries, k.label ≠ l.loader) →
        loadLibraries (.make (earlier ++ { e with libraries := before ++ after } :: later) entries
          directory) files loaders convention name = outcome := by
  intro c outcome Yields
  have hnone : c.environment? name = none ↔ ∀ e ∈ environments, e.name ≠ name :=
    Configuration.environment?_make_eq_none
  refine ⟨?_, ?_, ?_⟩
  · rw [← hnone]
    exact loadLibraries_eq_unknown_iff
  · intro hloaders other
    rw [← hnone]
    exact loadLibraries_error_unknown_iff hloaders other
  · rintro earlier ⟨declared, libraries⟩ later rfl he hlater
    have hloaded : outcome = _ := loadLibraries_of_environment
      (Configuration.environment?_make_of_last he hlater entries directory)
    rw [hloaded]
    refine ⟨?_, ?_, ?_⟩
    · intro results reads
      rw [runJobs_eq_ok, List.forall₂_map_left_iff, List.map_map]
      rfl
    · intro error reads
      rw [runJobs_map_eq_error]
      rfl
    · rintro before l after rfl hlabel
      -- Without the library there are the same jobs, so that no file is read more or less.
      have he' : (Environment.mk declared (before ++ after)).name = name := he
      have hjobs := Configuration.jobs_skip (c := c) hlabel declared before after
      rw [← Configuration.jobs_eq_map_job, hjobs, Configuration.jobs_eq_map_job]
      exact loadLibraries_of_environment
        (Configuration.environment?_make_of_last he' hlater entries directory)

theorem loadLibraries_joins_past_unread :
    let kernal : LibraryEntry := ⟨"kernal.def", "def"⟩
    let e : Environment := ⟨"c64", [kernal, ⟨"basic.def", "map"⟩]⟩
    let missing : LoaderEntry := ⟨"def", "lib"⟩
    let entries : List LoaderEntry := [⟨"def", "def"⟩, missing]
    let files : FileStore := fun path =>
      if path = "/rom/kernal.def" then .ok "LIBRARY KERNAL\n".toUTF8.data.toList
      else .error "no such file"
    let c : Configuration := .make [⟨"c64", []⟩, e] entries "/rom"
    let outcome := loadLibraries c files .builtin "" "c64"
    Loaders.builtin.ReportNoEnvironment "" ∧ e.name = "c64" ∧ "map" ∉ entries.map (·.label) ∧
      outcome = (.error (.unknownLoaderType "lib"), ["/rom/kernal.def", "/rom/kernal.def"]) ∧
      (∃ passed x rest, c.loadOrder e = passed ++ x :: rest ∧ passed.length = 1 ∧
        (c.job x).Yields files .builtin "" (.error (.unknownLoaderType "lib"))) ∧
      (∀ other, outcome.1 ≠ .error (.unknownEnvironment other)) ∧
      loadLibraries (.make [⟨"c64", []⟩, ⟨"c64", [kernal]⟩] entries "/rom") files .builtin ""
        "c64" = outcome := by
  intro kernal e missing entries files c outcome
  have hloaders := Loaders.builtin_reportNoEnvironment ""
  have hlabel : "map" ∉ entries.map (·.label) := by decide
  have houtcome : outcome = (.error (.unknownLoaderType "lib"),
      ["/rom/kernal.def", "/rom/kernal.def"]) := by
    decide +kernel
  obtain ⟨-, hunknown, hdeclared⟩ :=
    loadLibraries_joins [⟨"c64", []⟩, e] entries "/rom" files .builtin "" "c64"
  obtain ⟨-, herror, hskipped⟩ := hdeclared [⟨"c64", []⟩] e [] rfl rfl (by simp)
  obtain ⟨passed, x, rest, hpairs, -, hfailing, hreads⟩ := (herror _ _).mp houtcome
  refine ⟨hloaders, rfl, hlabel, houtcome, ⟨passed, x, rest, hpairs, ?_, hfailing⟩, ?_, ?_⟩
  · have hlength := congrArg List.length hreads
    simp at hlength
    omega
  · intro other hother
    obtain ⟨-, hnone⟩ := (hunknown hloaders other).mp hother
    exact hnone e (by simp) rfl
  · refine hskipped [kernal] ⟨"basic.def", "map"⟩ [] rfl (.inr ?_)
    intro k hk hkl
    exact hlabel (List.mem_map.mpr ⟨k, hk, hkl⟩)

end RegisterTransfer.TypeLibrary
