import RegisterTransfer.Json.Records
import RegisterTransfer.Platform

/-!
Look-ups that follow each other, each with the files as they are by then. The first load that
succeeds serves all later ones; until then every look-up that needs libraries loads them anew.
-/

namespace RegisterTransfer

open TypeLibrary

inductive Key
  | ordinal (n : Int)
  | name (name : String)

structure Request where
  moduleName : String
  key : Key

def Request.ofOrdinal (x : String × Int) : Request := ⟨x.1, .ordinal x.2⟩

def Request.find? (q : Request) (libraries : List Library) : Option Service :=
  match q.key with
  | .ordinal n => findOrdinal? libraries q.moduleName n
  | .name name => findName? libraries q.moduleName name

namespace Platform

def supports : Platform → Key → Bool
  | .winMips _, .name _ => false
  | _, _ => true

def answer (p : Platform) (q : Request) (libraries : List Library) : Lookup :=
  .ofOption ((q.find? libraries).map p.procedure)

def load (p : Platform) (c : Configuration) (loaders : Loaders) (files : FileStore) :
    Except TypeLibrary.Error (List Library) × List String :=
  loadLibraries c files loaders p.callingConvention p.identifier

def firstLoaded (p : Platform) (c : Configuration) (loaders : Loaders)
    (history : List (FileStore × Request)) : Option (List Library) :=
  history.findSome? fun x =>
    if p.supports x.2.key then (p.load c loaders x.1).1.toOption else none

theorem procedure_plain (a : Architecture) (identifier convention : String) (s : Service) :
    (Platform.plain a identifier convention).procedure s = ⟨s.name, s.signature⟩ := by
  obtain ⟨name, ordinal, signature⟩ := s
  cases signature <;> rfl

end Platform

def Lookup.map (f : Procedure → Procedure) : Lookup → Lookup
  | .found procedure => .found (f procedure)
  | .notFound => .notFound
  | .notSupported => .notSupported

def Reading.map {α β : Type} (f : α → β) (reading : Reading α) : Reading β :=
  { reading with result := reading.result.map f }

def Procedure.withoutReturnAddress (p : Procedure) : Procedure :=
  { p with signature := p.signature.map fun s => { s with returnAddressOnStack := 0 } }

namespace Resolver

def fresh (p : Platform) (c : Configuration) (loaders : Loaders) : Resolver := ⟨p, c, loaders, none⟩

def answer (r : Resolver) (files : FileStore) (q : Request) : Reading Lookup :=
  match q.key with
  | .ordinal n => r.byOrdinal files q.moduleName n
  | .name name => r.byName files q.moduleName name

def afterAll (r : Resolver) : List (FileStore × Request) → Resolver
  | [] => r
  | x :: rest => (r.after (r.answer x.1 x.2)).afterAll rest

def run (r : Resolver) : List (FileStore × Request) → List (Reading Lookup)
  | [] => []
  | x :: rest => r.answer x.1 x.2 :: (r.after (r.answer x.1 x.2)).run rest

theorem run_append (r : Resolver) (xs ys : List (FileStore × Request)) :
    r.run (xs ++ ys) = r.run xs ++ (r.afterAll xs).run ys := by
  induction xs generalizing r with
  | nil => rfl
  | cons x xs ih =>
    rw [List.cons_append, run, run, ih, List.cons_append]
    rfl

@[simp] theorem length_run (r : Resolver) (history : List (FileStore × Request)) :
    (r.run history).length = history.length := by
  induction history generalizing r with
  | nil => rfl
  | cons x rest ih => rw [run, List.length_cons, ih, List.length_cons]

section
variable (p : Platform) (c : Configuration) (loaders : Loaders) (files : FileStore)

theorem answer_eq (cache : LibraryCache) (q : Request) :
    (⟨p, c, loaders, cache⟩ : Resolver).answer files q =
      if p.supports q.key then
        match cache with
        | some libraries => ⟨.ok (p.answer q libraries), [], some libraries⟩
        | none =>
          ⟨(p.load c loaders files).1.map (p.answer q), (p.load c loaders files).2,
            (p.load c loaders files).1.toOption⟩
      else ⟨.ok .notSupported, [], cache⟩ := by
  obtain ⟨moduleName, key⟩ := q
  cases key with
  | ordinal n => cases p <;> cases cache <;> rfl
  | name name => cases p <;> cases cache <;> rfl

theorem cache_answer (cache : LibraryCache) (q : Request) :
    ((⟨p, c, loaders, cache⟩ : Resolver).answer files q).cache =
      cache.or (p.firstLoaded c loaders [(files, q)]) := by
  rw [answer_eq]
  unfold Platform.firstLoaded
  cases hq : p.supports q.key with
  | false => cases cache <;> simp [hq]
  | true =>
    cases cache with
    | some libraries => simp
    | none => cases hl : (p.load c loaders files).1.toOption <;> simp [hq, hl]

theorem afterAll_eq (cache : LibraryCache) (history : List (FileStore × Request)) :
    (⟨p, c, loaders, cache⟩ : Resolver).afterAll history =
      ⟨p, c, loaders, cache.or (p.firstLoaded c loaders history)⟩ := by
  induction history generalizing cache with
  | nil => simp [afterAll, Platform.firstLoaded]
  | cons x rest ih =>
    have hstep : p.firstLoaded c loaders (x :: rest) =
        (p.firstLoaded c loaders [x]).or (p.firstLoaded c loaders rest) := by
      unfold Platform.firstLoaded
      rw [← List.singleton_append, List.findSome?_append]
    rw [afterAll, after, cache_answer, ih, hstep, Option.or_assoc]

theorem afterAll_fresh (history : List (FileStore × Request)) :
    (fresh p c loaders).afterAll history =
      ⟨p, c, loaders, p.firstLoaded c loaders history⟩ := by
  rw [fresh, afterAll_eq, Option.none_or]

theorem getElem?_run (before later : List (FileStore × Request)) (x : FileStore × Request) :
    ((fresh p c loaders).run (before ++ x :: later))[before.length]? =
      some (((fresh p c loaders).afterAll before).answer x.1 x.2) := by
  have hlength : before.length = ((fresh p c loaders).run before).length :=
    (length_run _ before).symm
  rw [run_append, hlength, List.getElem?_append_right (Nat.le_refl _), Nat.sub_self]
  rfl

end

/-- Look-ups fail only before the first load that succeeds, and each of those that needs libraries
tries the whole load on the files as they are. All later ones are answered from what was loaded
first, and read no file. -/
theorem libraries_load_once (p : Platform) (c : Configuration) (loaders : Loaders)
    (before later : List (FileStore × Request)) (files : FileStore) (q : Request) :
    let load := p.load c loaders files
    let loaded := p.firstLoaded c loaders before
    ((fresh p c loaders).afterAll before).cache = loaded ∧ ∃ reading,
      ((fresh p c loaders).run (before ++ (files, q) :: later))[before.length]? = some reading ∧
      (∀ e, reading.result = .error e → loaded = none ∧ reading.cache = none) ∧
      (p.supports q.key → loaded = none →
        reading = ⟨load.1.map (p.answer q), load.2, load.1.toOption⟩) ∧
      (p.supports q.key → ∀ libraries, loaded = some libraries →
        reading = ⟨.ok (p.answer q libraries), [], some libraries⟩) ∧
      (∀ order name, p = .winMips order → q.key = .name name →
        reading = ⟨.ok .notSupported, [], loaded⟩) := by
  dsimp only
  rw [getElem?_run, afterAll_fresh, answer_eq]
  generalize p.firstLoaded c loaders before = loaded, p.load c loaders files = load
  refine ⟨rfl, _, rfl, ?_, ?_, ?_, ?_⟩
  · intro e he
    cases hq : p.supports q.key with
    | false =>
      rw [hq] at he
      cases he
    | true =>
      rw [hq] at he
      cases loaded with
      | some libraries => cases he
      | none =>
        obtain ⟨result, paths⟩ := load
        cases result with
        | error e' => exact ⟨rfl, rfl⟩
        | ok libraries => cases he
  · intro hq hnone
    rw [if_pos hq, hnone]
  · intro hq libraries hsome
    rw [if_pos hq, hsome]
  · rintro order name rfl hname
    rw [hname]
    rfl

theorem libraries_load_once_between_missing :
    let c : Configuration :=
      .make [⟨"winMips", [⟨"kernel32.def", "def"⟩]⟩] [⟨"def", "def"⟩] "/lib"
    let present : FileStore := fun _ => .ok "EXPORTS\nSleep @18\n".toUTF8.data.toList
    let missing : FileStore := fun _ => .error "missing"
    let q : Request := .ofOrdinal ("KERNEL32", 18)
    let win := fresh (.winMips .little) c .builtin
    ∃ libraries, (win.run [(missing, q), (present, q), (missing, q)])[2]? =
      some ⟨.ok (.found ⟨"Sleep", none⟩), [], some libraries⟩ := by
  intro c present missing q win
  let p : Platform := .winMips .little
  have hanswer : (p.firstLoaded c .builtin [(missing, q), (present, q)]).map (p.answer q) =
      some (.found ⟨"Sleep", none⟩) := by decide +kernel
  obtain ⟨libraries, hloaded, hfound⟩ := Option.map_eq_some_iff.mp hanswer
  obtain ⟨-, reading, hreading, -, -, hcached, -⟩ :=
    libraries_load_once p c .builtin [(missing, q), (present, q)] [] missing q
  refine ⟨libraries, ?_⟩
  rw [← hfound, ← hcached rfl libraries hloaded]
  exact hreading

theorem supports_ofOrdinal (p : Platform) (x : String × Int) :
    p.supports (Request.ofOrdinal x).key = true := by
  cases p <;> rfl

section
variable {p : Platform} {c : Configuration} {loaders : Loaders} {files : FileStore}
  {cache : LibraryCache}

theorem answer_same_files {q : Request} (hq : p.supports q.key = true)
    (hcache : cache = none ∨ cache = (p.load c loaders files).1.toOption) :
    ((⟨p, c, loaders, cache⟩ : Resolver).answer files q).result =
        (p.load c loaders files).1.map (p.answer q) ∧
      ((⟨p, c, loaders, cache⟩ : Resolver).answer files q).cache =
        (p.load c loaders files).1.toOption := by
  rw [answer_eq, if_pos hq]
  generalize p.load c loaders files = load at hcache
  obtain ⟨result, paths⟩ := load
  obtain rfl | rfl := hcache
  · exact ⟨rfl, rfl⟩
  · cases result <;> exact ⟨rfl, rfl⟩

theorem firstLoaded_same_files (requests : List Request) :
    p.firstLoaded c loaders (requests.map (files, ·)) = none ∨
      p.firstLoaded c loaders (requests.map (files, ·)) =
        (p.load c loaders files).1.toOption := by
  cases hfirst : p.firstLoaded c loaders (requests.map (files, ·)) with
  | none => exact .inl rfl
  | some libraries =>
    obtain ⟨x, hx, hlibraries⟩ := List.exists_of_findSome?_eq_some hfirst
    obtain ⟨q, -, rfl⟩ := List.mem_map.mp hx
    split at hlibraries
    · exact .inr hlibraries.symm
    · cases hlibraries

theorem answer_afterAll_same_files {q : Request} (hq : p.supports q.key = true)
    (before : List Request) :
    (((fresh p c loaders).afterAll (before.map (files, ·))).answer files q).result =
      (p.load c loaders files).1.map (p.answer q) := by
  rw [afterAll_fresh]
  exact (answer_same_files hq (firstLoaded_same_files before)).1

theorem run_same_files (requests : List (String × Int))
    (hcache : cache = none ∨ cache = (p.load c loaders files).1.toOption) :
    ((⟨p, c, loaders, cache⟩ : Resolver).run
        (requests.map fun x => (files, .ofOrdinal x))).map
          (fun reading => (reading.result, reading.cache)) =
      requests.map fun x => (((fresh p c loaders).answer files (.ofOrdinal x)).result,
        (p.load c loaders files).1.toOption) := by
  -- What is cached is nothing or what a load would give now, and each request keeps it so.
  induction requests generalizing cache with
  | nil => rfl
  | cons x rest ih =>
    have hx := supports_ofOrdinal p x
    obtain ⟨hresult, hafter⟩ := answer_same_files hx hcache
    have hfresh : ((fresh p c loaders).answer files (.ofOrdinal x)).result =
        (p.load c loaders files).1.map (p.answer (.ofOrdinal x)) :=
      (answer_same_files hx (.inl rfl)).1
    have hrest := ih (.inr hafter)
    rw [List.map_cons, run, List.map_cons, List.map_cons, hresult, hafter, hfresh]
    exact congrArg _ hrest

end

theorem answer_winMips (order : ByteOrder) (a : Architecture) (q : Request)
    (libraries : List Library) :
    (Platform.winMips order).answer q libraries =
      ((Platform.plain a "winMips" "").answer q libraries).map Procedure.withoutReturnAddress := by
  have hprocedure : (Platform.winMips order).procedure = fun s =>
      ((Platform.plain a "winMips" "").procedure s).withoutReturnAddress := by
    funext s
    rw [Platform.procedure_plain]
    rfl
  unfold Platform.answer
  rw [hprocedure]
  cases q.find? libraries <;> rfl

section
variable (order : ByteOrder) (a : Architecture) (c : Configuration) (loaders : Loaders)

theorem answer_ofOrdinal_winMips (cache : LibraryCache) (files : FileStore) (x : String × Int) :
    (⟨.winMips order, c, loaders, cache⟩ : Resolver).answer files (.ofOrdinal x) =
      ((⟨.plain a "winMips" "", c, loaders, cache⟩ : Resolver).answer files
        (.ofOrdinal x)).map (.map Procedure.withoutReturnAddress) := by
  have hanswer := funext (answer_winMips order a (.ofOrdinal x))
  have hload : (Platform.winMips order).load c loaders files =
      (Platform.plain a "winMips" "").load c loaders files := rfl
  rw [answer_eq, answer_eq, supports_ofOrdinal, supports_ofOrdinal, hanswer, hload]
  cases cache with
  | some libraries => rfl
  | none =>
    obtain ⟨result, paths⟩ := (Platform.plain a "winMips" "").load c loaders files
    cases result <;> rfl

theorem run_winMips (cache : LibraryCache) (history : List (FileStore × String × Int)) :
    (⟨.winMips order, c, loaders, cache⟩ : Resolver).run
        (history.map fun x => (x.1, .ofOrdinal x.2)) =
      ((⟨.plain a "winMips" "", c, loaders, cache⟩ : Resolver).run
        (history.map fun x => (x.1, .ofOrdinal x.2))).map
          (.map (.map Procedure.withoutReturnAddress)) := by
  induction history generalizing cache with
  | nil => rfl
  | cons x rest ih =>
    rw [List.map_cons, run, run, List.map_cons, answer_ofOrdinal_winMips order a]
    exact congrArg _ (ih _)

end

/-- Windows CE on MIPS finds by ordinal what a plain platform finds, but for the return address.
Neither of them changes its answers, nor what it has loaded, however it is asked. -/
theorem winMips_corrects_plain (order : ByteOrder) (a : Architecture) (c : Configuration)
    (loaders : Loaders) :
    let win := fresh (.winMips order) c loaders
    let plain := fresh (.plain a "winMips" "") c loaders
    (∀ history : List (FileStore × String × Int),
      let asked := history.map fun x => (x.1, .ofOrdinal x.2)
      win.run asked = (plain.run asked).map (.map (.map Procedure.withoutReturnAddress))) ∧
    ∀ r ∈ [win, plain], ∀ files (requests : List (String × Int)),
      (r.run (requests.map fun x => (files, .ofOrdinal x))).map
          (fun reading => (reading.result, reading.cache)) =
        requests.map fun x => ((r.answer files (.ofOrdinal x)).result,
          (loadLibraries c files loaders "" "winMips").1.toOption) := by
  intro win plain
  constructor
  · intro history
    exact run_winMips order a c loaders none history
  · intro r hr files requests
    obtain rfl | rfl : r = win ∨ r = plain := by simpa using hr
    · exact run_same_files requests (.inl rfl)
    · exact run_same_files requests (.inl rfl)

theorem winMips_corrects_plain_declared :
    let c : Configuration :=
      .make [⟨"winMips", [⟨"coredll.json", "json"⟩]⟩] [⟨"json", "json"⟩] "/lib"
    let files : FileStore := fun _ => .ok
      ("\x7b\"services\":[\x7b\"name\":\"Sleep\",\"ordinal\":496,\"signature\":" ++
        "\x7b\"return_address_on_stack\":4,\"stack_delta\":8\x7d\x7d]\x7d").toUTF8.data.toList
    let found (p : Platform) :=
      ((fresh p c .builtin).run [(files, .ofOrdinal ("CoreDll", 496))]).map
        fun reading => reading.result.toOption
    found (.plain .mos6502 "winMips" "") =
        [some (.found ⟨"Sleep", some ⟨none, [], 4, 8, some ""⟩⟩)] ∧
      found (.winMips .little) =
        [some (.found ⟨"Sleep", some ⟨none, [], 0, 8, some ""⟩⟩)] := by
  intro c files found
  have hplain : found (.plain .mos6502 "winMips" "") =
      [some (.found ⟨"Sleep", some ⟨none, [], 4, 8, some ""⟩⟩)] := by decide +kernel
  have hmap (f : Lookup → Lookup) :
      (fun reading => reading.result.toOption) ∘ Reading.map f =
        Option.map f ∘ fun reading => reading.result.toOption := by
    funext reading
    obtain ⟨result, paths, cache⟩ := reading
    cases result <;> rfl
  obtain ⟨hwin, -⟩ := winMips_corrects_plain .little .mos6502 c .builtin
  have hruns := congrArg (List.map fun reading => reading.result.toOption)
    (hwin [(files, "CoreDll", 496)])
  refine ⟨hplain, hruns.trans ?_⟩
  rw [List.map_map, hmap, ← List.map_map]
  exact congrArg (List.map (Option.map (Lookup.map Procedure.withoutReturnAddress))) hplain

end Resolver

end RegisterTransfer
