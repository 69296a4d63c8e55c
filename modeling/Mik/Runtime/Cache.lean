/-
  The shared runtime state and the module cache (`src/runtime/mod.rs`, `src/runtime/cache.rs`).

  `getOrLoad` and `getOrLoadModulePath` share everything after the key and the file are known;
  that part is `loadComponent`. The file system is a function of the path text (it does not
  change while the calls run), wasmtime is the `Engine`, and BLAKE3 is `blake3`. `LoadIo` says
  which I/O of one call fails, and which artifacts the AOT cleanup drops after a write.

  Isolation: `CacheSound` says that every cache entry is the compilation of the file its key
  stands for, `AotSound` that every artifact on disk is the serialisation of the compilation
  of a module its name is the key of. Both survive every load and every eviction, and a hit
  for `p` is the entry of `p` because cache keys are injective on accepted names.

  The name of an artifact is half a hash (`AotCache.computeKey`), so there are modules that share
  one. What is assumed is that no two of those that meet in a run do.
-/
import Mathlib.Data.List.AList
import Mathlib.Data.Set.Function
import Mik.Lib.HexText
import Mik.Reliability.CircuitBreaker
import Mik.Runtime.ModulePath

namespace Mik.Runtime

open Mik.Lib Mik.Reliability

abbrev Bytes := List UInt8

/-! ## Runtime errors -/

/-- `runtime::error::Error`, the variants the modelled paths build; `other` is an `anyhow`
    error without a typed root. -/
inductive Error where
  | moduleNotFound (name : String)
  | circuitBreakerOpen (name : String)
  | rateLimitExceeded (reason : String)
  | invalidRequest (message : String)
  | scriptError (name reason : String)
  | other (message : String)
  deriving DecidableEq, Repr

def Error.toString : Error → String
  | .moduleNotFound name => "module not found: " ++ name
  | .circuitBreakerOpen name => "circuit breaker open for module '" ++ name ++ "'"
  | .rateLimitExceeded reason => "rate limit exceeded: " ++ reason
  | .invalidRequest message => "invalid request: " ++ message
  | .scriptError name reason => "script '" ++ name ++ "' failed: " ++ reason
  | .other message => message

/-- `Error::status_code` (only typed errors are asked for one). -/
def Error.statusCode : Error → Nat
  | .moduleNotFound _ => 404
  | .circuitBreakerOpen _ => 503
  | .rateLimitExceeded _ => 429
  | .invalidRequest _ => 400
  | .scriptError _ _ => 500
  | .other _ => 500

/-! ## State -/

/-- wasmtime: compiling, serialising and deserialising a component. -/
structure Engine (Comp : Type) where
  fromBinary : Bytes → Option Comp
  serialize : Comp → Option Bytes
  deserialize : Bytes → Option Comp

/-- What a path names on disk. -/
inductive Entry where
  | file (bytes : Bytes)
  | directory
  deriving DecidableEq, Repr

/-- What does not change during a run: wasmtime, the hash, the file system, the settings. -/
structure Host (Comp : Type) where
  engine : Engine Comp
  blake3 : Bytes → Vector UInt8 32
  fs : String → Option Entry
  modulesDir : String
  userModulesDir : Option String
  scriptsDir : Option String
  maxPerModuleRequests : Nat
  maxBodySizeBytes : Nat
  /-- `single_component_name` and `single_component`, set together. -/
  singleComponent : Option (String × Comp)

structure CachedComponent (Comp : Type) where
  component : Comp
  sizeBytes : Nat

/-- The AOT cache directory: artifact bytes by `compute_key` of the wasm bytes. -/
structure AotCache where
  bypass : Bool
  artifacts : AList fun _ : String => Bytes

/-- `AotCache::compute_key`: the first 16 bytes of the hash, in hexadecimal. -/
def AotCache.computeKey (blake3 : Bytes → Vector UInt8 32) (wasmBytes : Bytes) : String :=
  hexText ((blake3 wasmBytes).toList.take 16)

/-- `module_semaphores`: the semaphore of each key, by address, and the permits left at each
    address. No two keys share a semaphore, and addresses from `next` on are free. -/
structure Semaphores where
  table : AList fun _ : String => Nat
  permits : Nat → Nat
  next : Nat
  allocated : ∀ key a, table.lookup key = some a → a < next
  distinct : ∀ key key' a, table.lookup key = some a → table.lookup key' = some a → key = key'

def Semaphores.empty : Semaphores where
  table := ∅
  permits := fun _ => 0
  next := 0
  allocated := fun key a h => by cases h
  distinct := fun key key' a h => by cases h

/-- `Semaphore::new(n)` inserted under `key`. -/
def Semaphores.insertNew (sems : Semaphores) (key : String) (n : Nat) : Semaphores where
  table := sems.table.insert key sems.next
  permits := fun a => if a = sems.next then n else sems.permits a
  next := sems.next + 1
  allocated := by
    intro k a h
    by_cases hk : k = key
    · rw [hk, AList.lookup_insert] at h
      have := Option.some.inj h
      omega
    · rw [AList.lookup_insert_ne hk] at h
      have := sems.allocated k a h
      omega
  distinct := by
    have hold : ∀ k, k ≠ key → (sems.table.insert key sems.next).lookup k ≠ some sems.next := by
      intro k hk h
      rw [AList.lookup_insert_ne hk] at h
      have := sems.allocated k _ h
      omega
    intro k k' a h h'
    by_cases hk : k = key
    · rw [hk, AList.lookup_insert] at h
      obtain rfl := Option.some.inj h
      by_cases hk' : k' = key
      · rw [hk, hk']
      · exact absurd h' (hold k' hk')
    · by_cases hk' : k' = key
      · rw [hk', AList.lookup_insert] at h'
        obtain rfl := Option.some.inj h'
        exact absurd h (hold k hk)
      · rw [AList.lookup_insert_ne hk] at h
        rw [AList.lookup_insert_ne hk'] at h'
        exact sems.distinct k k' a h h'

def Semaphores.setPermits (sems : Semaphores) (semaphore n : Nat) : Semaphores :=
  { sems with permits := fun a => if a = semaphore then n else sems.permits a }

structure SharedState (Comp : Type) where
  cache : AList fun _ : String => CachedComponent Comp
  aotCache : AotCache
  circuitBreaker : CircuitBreaker
  moduleSemaphores : Semaphores

/-- Which I/O of one load fails, and what the AOT cleanup after a write removes. -/
structure LoadIo where
  tryExistsFails : Bool := false
  metadataFails : Bool := false
  readFails : Bool := false
  joinFails : Bool := false
  artifactUnreadable : Bool := false
  putFails : Bool := false
  cleanup : List String := []
  deriving DecidableEq, Repr

section

variable {Comp : Type}

/-! ## Loading -/

/-- `AotCache::get`. -/
def AotCache.get (aot : AotCache) (key : String) : Option Bytes :=
  if aot.bypass then none else aot.artifacts.lookup key

/-- `AotCache::remove`. -/
def AotCache.remove (aot : AotCache) (key : String) : AotCache :=
  if aot.bypass then aot else { aot with artifacts := aot.artifacts.erase key }

/-- `AotCache::put`, with the artifacts its cleanup then drops. -/
def AotCache.put (aot : AotCache) (key : String) (compiled : Bytes) (cleanup : List String) :
    AotCache :=
  { aot with
    artifacts := cleanup.foldl (fun m k => m.erase k) (aot.artifacts.insert key compiled) }

/-- Compile `bytes` and keep the artifact unless the cache is bypassed. -/
def compileAndStore (host : Host Comp) (io : LoadIo) (aot : AotCache) (bytes : Bytes) :
    Option Comp × AotCache :=
  match host.engine.fromBinary bytes with
  | none => (none, aot)
  | some component =>
    match aot.bypass || io.putFails, host.engine.serialize component with
    | false, some compiled =>
      (some component, aot.put (AotCache.computeKey host.blake3 bytes) compiled io.cleanup)
    | _, _ => (some component, aot)

/-- The blocking task of a load: the AOT artifact when it deserialises, else a compilation. -/
def componentOf (host : Host Comp) (io : LoadIo) (aot : AotCache) (bytes : Bytes) :
    Option Comp × AotCache :=
  match aot.get (AotCache.computeKey host.blake3 bytes) with
  | none => compileAndStore host io aot bytes
  | some artifact =>
    match io.artifactUnreadable, host.engine.deserialize artifact with
    | false, some component => (some component, aot)
    | _, _ => compileAndStore host io (aot.remove (AotCache.computeKey host.blake3 bytes)) bytes

/-- From the cache miss on: read the file at `path` and cache its component under `key`. -/
def loadComponent (host : Host Comp) (io : LoadIo) (s : SharedState Comp)
    (key path shown : String) : Except Error Comp × SharedState Comp :=
  if io.tryExistsFails then (.error (.other "try_exists"), s)
  else
    match host.fs path with
    | none => (.error (.moduleNotFound shown), s)
    | some .directory => (.error (.other ("Failed to read " ++ path)), s)
    | some (.file bytes) =>
      if io.readFails then (.error (.other ("Failed to read " ++ path)), s)
      else
        let fileSize := if io.metadataFails then 0 else bytes.length
        match componentOf host io s.aotCache bytes with
        | (found, aot) =>
          let s := { s with aotCache := aot }
          if io.joinFails then (.error (.other "Task join failed"), s)
          else
            match found with
            | none => (.error (.other ("Failed to load " ++ path)), s)
            | some component =>
              (.ok component, { s with cache := s.cache.insert key ⟨component, fileSize⟩ })

def getOrLoad (host : Host Comp) (io : LoadIo) (s : SharedState Comp) (name : String) :
    Except Error Comp × SharedState Comp :=
  match sanitizeModuleName name with
  | .error e =>
    (.error (.invalidRequest ("Invalid module name '" ++ name ++ "': " ++ e.toString)), s)
  | .ok sanitizedName =>
    match s.cache.lookup sanitizedName with
    | some cached => (.ok cached.component, s)
    | none =>
      loadComponent host io s sanitizedName (join host.modulesDir (sanitizedName ++ ".wasm"))
        sanitizedName

/-- The name checks at the head of `get_or_load_module_path`. -/
def checkNames (p : ModulePath) : Except Error Unit :=
  match sanitizeModuleName p.name with
  | .error e =>
    .error (.invalidRequest ("Invalid module name '" ++ p.name ++ "': " ++ e.toString))
  | .ok _ =>
    match p.tenantId with
    | none => .ok ()
    | some tenantId =>
      match sanitizeModuleName tenantId with
      | .error e =>
        .error (.invalidRequest ("Invalid tenant ID '" ++ tenantId ++ "': " ++ e.toString))
      | .ok _ => .ok ()

def getOrLoadModulePath (host : Host Comp) (io : LoadIo) (s : SharedState Comp)
    (p : ModulePath) : Except Error Comp × SharedState Comp :=
  match checkNames p with
  | .error e => (.error e, s)
  | .ok () =>
    match s.cache.lookup p.cacheKey with
    | some cached => (.ok cached.component, s)
    | none =>
      match p.wasmPath host.modulesDir host.userModulesDir with
      | none =>
        if p.isTenant then
          (.error (.invalidRequest
            "Tenant modules not configured (user_modules directory not set)"), s)
        else (.error (.moduleNotFound p.name), s)
      | some path => loadComponent host io s p.cacheKey path p.display

/-- moka drops a cached component. -/
def SharedState.evictComponent (s : SharedState Comp) (key : String) : SharedState Comp :=
  { s with cache := s.cache.erase key }

/-- The part of the state that decides admission: circuits and semaphores. -/
def SharedState.guards (s : SharedState Comp) : CircuitBreaker × Semaphores :=
  (s.circuitBreaker, s.moduleSemaphores)

theorem guards_loadComponent (host : Host Comp) (io : LoadIo) (s : SharedState Comp)
    (key path shown : String) : (loadComponent host io s key path shown).2.guards = s.guards := by
  unfold loadComponent
  split
  · rfl
  split
  · rfl
  · rfl
  split
  · rfl
  dsimp only
  split
  · rfl
  split
  · rfl
  · rfl

theorem guards_getOrLoad (host : Host Comp) (io : LoadIo) (s : SharedState Comp) (name : String) :
    (getOrLoad host io s name).2.guards = s.guards := by
  unfold getOrLoad
  split
  · rfl
  split
  · rfl
  · exact guards_loadComponent ..

theorem guards_getOrLoadModulePath (host : Host Comp) (io : LoadIo) (s : SharedState Comp)
    (p : ModulePath) : (getOrLoadModulePath host io s p).2.guards = s.guards := by
  unfold getOrLoadModulePath
  split
  · rfl
  split
  · rfl
  split
  · split
    · rfl
    · rfl
  · exact guards_loadComponent ..

/-! ## Soundness of the two caches -/

/-- The file that `p` names holds `bytes`. -/
def Host.Holds (host : Host Comp) (p : ModulePath) (bytes : Bytes) : Prop :=
  ∃ path, p.wasmPath host.modulesDir host.userModulesDir = some path ∧
    host.fs path = some (.file bytes)

/-- `c` is the compilation of the file the module path names. -/
def CompiledFrom (host : Host Comp) (p : ModulePath) (c : Comp) : Prop :=
  ∃ bytes, host.Holds p bytes ∧ host.engine.fromBinary bytes = some c

def CacheSound (host : Host Comp) (s : SharedState Comp) : Prop :=
  ∀ key c, s.cache.lookup key = some c →
    ∃ p : ModulePath, p.NamesAccepted ∧ p.cacheKey = key ∧ CompiledFrom host p c.component

/-- Every artifact was made of one of `modules`. -/
def AotSound (host : Host Comp) (modules : Set Bytes) (aot : AotCache) : Prop :=
  ∀ key artifact, aot.artifacts.lookup key = some artifact →
    ∃ bytes ∈ modules, ∃ c, AotCache.computeKey host.blake3 bytes = key ∧
      host.engine.fromBinary bytes = some c ∧ host.engine.serialize c = some artifact

/-- A serialised component deserialises to itself or not at all. -/
def Engine.Faithful (engine : Engine Comp) : Prop :=
  ∀ c c' artifact, engine.serialize c = some artifact → engine.deserialize artifact = some c' →
    c' = c

/-- No two of `modules` have one key. -/
def Host.Apart (host : Host Comp) (modules : Set Bytes) : Prop :=
  Set.InjOn (AotCache.computeKey host.blake3) modules

theorem checkNames_ok {p : ModulePath} (h : checkNames p = .ok ()) : p.NamesAccepted := by
  unfold checkNames at h
  split at h
  · cases h
  next hname =>
  match p with
  | .platform n => exact (sanitizeModuleName_ok hname).2
  | .tenant t n =>
    dsimp only [ModulePath.tenantId] at h
    split at h
    · cases h
    next htenant => exact ⟨(sanitizeModuleName_ok htenant).2, (sanitizeModuleName_ok hname).2⟩

theorem lookup_of_erased {keys : List String} {m : AList fun _ : String => Bytes} {key : String}
    {b : Bytes} (h : (keys.foldl (fun m k => m.erase k) m).lookup key = some b) :
    m.lookup key = some b := by
  induction keys generalizing m with
  | nil => exact h
  | cons k keys ih =>
    have h' := ih h
    by_cases hk : key = k
    · rw [hk, AList.lookup_erase] at h'
      cases h'
    · rwa [AList.lookup_erase_ne hk] at h'

section

variable {host : Host Comp} {modules : Set Bytes} {aot : AotCache}

theorem AotSound.remove (h : AotSound host modules aot) (key : String) :
    AotSound host modules (aot.remove key) := by
  intro k artifact hk
  unfold AotCache.remove at hk
  split at hk
  · exact h k artifact hk
  · by_cases hkk : k = key
    · rw [hkk, AList.lookup_erase] at hk
      cases hk
    · rw [AList.lookup_erase_ne hkk] at hk
      exact h k artifact hk

theorem AotSound.put (h : AotSound host modules aot) {bytes : Bytes} (hb : bytes ∈ modules)
    {c : Comp} {compiled : Bytes} (hc : host.engine.fromBinary bytes = some c)
    (hs : host.engine.serialize c = some compiled) (cleanup : List String) :
    AotSound host modules
      (aot.put (AotCache.computeKey host.blake3 bytes) compiled cleanup) := by
  intro k artifact hk
  have hk' := lookup_of_erased hk
  by_cases hkk : k = AotCache.computeKey host.blake3 bytes
  · rw [hkk, AList.lookup_insert] at hk'
    obtain rfl : compiled = artifact := Option.some.inj hk'
    exact ⟨bytes, hb, c, hkk.symm, hc, hs⟩
  · rw [AList.lookup_insert_ne hkk] at hk'
    exact h k artifact hk'

theorem compileAndStore_spec (h : AotSound host modules aot) (io : LoadIo) {bytes : Bytes}
    (hb : bytes ∈ modules) :
    (compileAndStore host io aot bytes).1 = host.engine.fromBinary bytes ∧
      AotSound host modules (compileAndStore host io aot bytes).2 := by
  unfold compileAndStore
  split
  · next hc => exact ⟨hc.symm, h⟩
  · next c hc =>
    rw [hc]
    split
    · next compiled _ hs => exact ⟨rfl, h.put hb hc hs io.cleanup⟩
    · exact ⟨rfl, h⟩

/-- The blocking task returns the compilation of the bytes, from the AOT cache or not. -/
theorem componentOf_spec (hf : host.engine.Faithful) (hapart : host.Apart modules)
    (h : AotSound host modules aot) (io : LoadIo) {bytes : Bytes} (hb : bytes ∈ modules) :
    (componentOf host io aot bytes).1 = host.engine.fromBinary bytes ∧
      AotSound host modules (componentOf host io aot bytes).2 := by
  unfold componentOf
  split
  · exact compileAndStore_spec h io hb
  · next artifact hget =>
    split
    · next c _ hd =>
      refine ⟨?_, h⟩
      have hlook : aot.artifacts.lookup (AotCache.computeKey host.blake3 bytes)
          = some artifact := by
        unfold AotCache.get at hget
        split at hget
        · cases hget
        · exact hget
      obtain ⟨bytes', hb', c', hkey, hc', hs⟩ := h _ _ hlook
      rw [← hapart hb' hb hkey, hc', hf c' c artifact hs hd]
    · exact compileAndStore_spec (h.remove _) io hb

/-- Both caches are sound. -/
structure Sound (host : Host Comp) (modules : Set Bytes) (s : SharedState Comp) : Prop where
  cache : CacheSound host s
  aot : AotSound host modules s.aotCache

variable {s : SharedState Comp}

theorem loadComponent_spec (hf : host.engine.Faithful) (hapart : host.Apart modules)
    (hs : Sound host modules s) {p : ModulePath} (hp : p.NamesAccepted)
    (hmem : ∀ bytes, host.Holds p bytes → bytes ∈ modules) {path : String}
    (hpath : p.wasmPath host.modulesDir host.userModulesDir = some path) (io : LoadIo)
    (shown : String) :
    (∀ c, (loadComponent host io s p.cacheKey path shown).1 = .ok c → CompiledFrom host p c) ∧
      Sound host modules (loadComponent host io s p.cacheKey path shown).2 := by
  unfold loadComponent
  split
  · exact ⟨fun c h => (nomatch h), hs⟩
  split
  · exact ⟨fun c h => (nomatch h), hs⟩
  · exact ⟨fun c h => (nomatch h), hs⟩
  next bytes hfile =>
  have hholds : host.Holds p bytes := ⟨path, hpath, hfile⟩
  split
  · exact ⟨fun c h => (nomatch h), hs⟩
  obtain ⟨hfound, haot⟩ := componentOf_spec hf hapart hs.aot io (hmem bytes hholds)
  dsimp only
  split
  · exact ⟨fun c h => (nomatch h), ⟨hs.cache, haot⟩⟩
  split
  · exact ⟨fun c h => (nomatch h), ⟨hs.cache, haot⟩⟩
  next component hcomp =>
  have hfrom : CompiledFrom host p component := ⟨bytes, hholds, hfound ▸ hcomp⟩
  refine ⟨fun c h => by cases h; exact hfrom, ⟨fun key c hc => ?_, haot⟩⟩
  by_cases hkey : key = p.cacheKey
  · dsimp only at hc
    rw [hkey, AList.lookup_insert] at hc
    cases hc
    exact ⟨p, hp, hkey.symm, hfrom⟩
  · rw [AList.lookup_insert_ne hkey] at hc
    exact hs.cache key c hc

/-- A hit for `p` is the component of `p`. -/
theorem hit_spec (hs : Sound host modules s) {p : ModulePath} (hp : p.NamesAccepted)
    {cached : CachedComponent Comp} (h : s.cache.lookup p.cacheKey = some cached) :
    CompiledFrom host p cached.component := by
  obtain ⟨q, hq, hkey, hfrom⟩ := hs.cache _ _ h
  rwa [cacheKey_injective hq hp hkey] at hfrom

theorem getOrLoad_spec (hf : host.engine.Faithful) (hapart : host.Apart modules) (io : LoadIo)
    (hs : Sound host modules s) {name : String}
    (hmem : ∀ bytes, host.Holds (.platform name) bytes → bytes ∈ modules) :
    (∀ c, (getOrLoad host io s name).1 = .ok c →
        Accepted name ∧ CompiledFrom host (.platform name) c) ∧
      Sound host modules (getOrLoad host io s name).2 := by
  unfold getOrLoad
  split
  · exact ⟨fun c h => (nomatch h), hs⟩
  next out hout =>
  obtain ⟨rfl, hacc⟩ := sanitizeModuleName_ok hout
  split
  · next cached hhit =>
    refine ⟨fun c h => ⟨hacc, ?_⟩, hs⟩
    cases h
    exact hit_spec (p := .platform out) hs hacc hhit
  · obtain ⟨h1, h2⟩ := loadComponent_spec hf hapart hs (p := .platform out) hacc hmem rfl io out
    exact ⟨fun c h => ⟨hacc, h1 c h⟩, h2⟩

theorem getOrLoadModulePath_spec (hf : host.engine.Faithful) (hapart : host.Apart modules)
    (io : LoadIo) (hs : Sound host modules s) {p : ModulePath}
    (hmem : ∀ bytes, host.Holds p bytes → bytes ∈ modules) :
    (∀ c, (getOrLoadModulePath host io s p).1 = .ok c →
        p.NamesAccepted ∧ CompiledFrom host p c) ∧
      Sound host modules (getOrLoadModulePath host io s p).2 := by
  unfold getOrLoadModulePath
  split
  · exact ⟨fun c h => (nomatch h), hs⟩
  next hnames =>
  have hp := checkNames_ok hnames
  split
  · next cached hhit =>
    refine ⟨fun c h => ⟨hp, ?_⟩, hs⟩
    cases h
    exact hit_spec hs hp hhit
  split
  · split
    · exact ⟨fun c h => (nomatch h), hs⟩
    · exact ⟨fun c h => (nomatch h), hs⟩
  next path hpath =>
  obtain ⟨h1, h2⟩ := loadComponent_spec hf hapart hs hp hmem hpath io p.display
  exact ⟨fun c h => ⟨hp, h1 c h⟩, h2⟩

end

/-! ## Runs of loads -/

/-- One call on the module cache, or an eviction. -/
inductive LoadCall where
  | getOrLoad (name : String) (io : LoadIo)
  | getOrLoadModulePath (p : ModulePath) (io : LoadIo)
  | evict (key : String)
  deriving DecidableEq, Repr

/-- The module a call is for. -/
def LoadCall.target : LoadCall → Option ModulePath
  | .getOrLoad name _ => some (.platform name)
  | .getOrLoadModulePath p _ => some p
  | .evict _ => none

/-- The result of a call (an eviction has none) and the state it leaves. -/
def loadCall (host : Host Comp) (s : SharedState Comp) :
    LoadCall → Option (Except Error Comp) × SharedState Comp
  | .getOrLoad name io => ((getOrLoad host io s name).1, (getOrLoad host io s name).2)
  | .getOrLoadModulePath p io =>
    ((getOrLoadModulePath host io s p).1, (getOrLoadModulePath host io s p).2)
  | .evict key => (none, s.evictComponent key)

def loadStep (host : Host Comp) (s : SharedState Comp) (c : LoadCall) : SharedState Comp :=
  (loadCall host s c).2

/-- The contents of the modules that the calls are for. -/
def contentsOf (host : Host Comp) (calls : List LoadCall) : Set Bytes :=
  {bytes | ∃ call ∈ calls, ∃ p, call.target = some p ∧ host.Holds p bytes}

section

variable {host : Host Comp} {modules : Set Bytes} {s : SharedState Comp}

/-- The contents of the module the call is for, if any, are among `modules`. -/
def LoadCall.Among (host : Host Comp) (modules : Set Bytes) (call : LoadCall) : Prop :=
  ∀ p bytes, call.target = some p → host.Holds p bytes → bytes ∈ modules

theorem loadStep_sound (hf : host.engine.Faithful) (hapart : host.Apart modules)
    (hs : Sound host modules s) {call : LoadCall} (hamong : call.Among host modules) :
    Sound host modules (loadStep host s call) := by
  cases call with
  | getOrLoad name io => exact (getOrLoad_spec hf hapart io hs fun b => hamong _ b rfl).2
  | getOrLoadModulePath p io =>
    exact (getOrLoadModulePath_spec hf hapart io hs fun b => hamong p b rfl).2
  | evict key =>
    refine ⟨fun k c hk => ?_, hs.aot⟩
    by_cases hkk : k = key
    · have hnone : (s.cache.erase key).lookup key = none := AList.lookup_erase key s.cache
      rw [hkk] at hk
      exact absurd (hnone.symm.trans hk) (by simp)
    · exact hs.cache k c ((AList.lookup_erase_ne hkk).symm.trans hk)

theorem run_loadStep_sound (hf : host.engine.Faithful) (hapart : host.Apart modules)
    (hs : Sound host modules s) {calls : List LoadCall}
    (hamong : ∀ call ∈ calls, call.Among host modules) :
    Sound host modules (run (loadStep host) s calls) := by
  have halong : Along (loadStep host) (fun _ call => call.Among host modules) s calls :=
    along_of_mem fun call hcall _ => hamong call hcall
  exact run_invariant hs (fun _ _ h hcall => loadStep_sound hf hapart h hcall) halong

end

/-- `c` was compiled from the file that `p` names, directly in the directory of `p`. -/
def FromOwnFile (host : Host Comp) (p : ModulePath) (c : Comp) : Prop :=
  ∃ dir path bytes, p.ownDir host.modulesDir host.userModulesDir = some dir ∧
    p.wasmPath host.modulesDir host.userModulesDir = some path ∧
    components path = dir ++ [.normal (p.name ++ ".wasm")] ∧
    host.fs path = some (.file bytes) ∧ host.engine.fromBinary bytes = some c

theorem fromOwnFile_of_compiledFrom {host : Host Comp} {p : ModulePath} {c : Comp}
    (hp : p.NamesAccepted) (h : CompiledFrom host p c) : FromOwnFile host p c := by
  obtain ⟨bytes, ⟨path, hpath, hfile⟩, hc⟩ := h
  obtain ⟨dir, hdir, hcomp⟩ := wasmPath_confined hp hpath
  exact ⟨dir, path, bytes, hdir, hpath, hcomp, hfile, hc⟩

/-- Module cache isolation. Start with an empty component cache over an AOT directory with
    artifacts of `earlier` modules, and make any calls and evictions, where no two of the modules
    that meet have one key. Then a call for `p` fails or returns the compilation of the file `p`
    names in its own directory. On accepted names the cache key determines the module, and no
    accepted platform name is a tenant key. -/
theorem module_cache_isolation (host : Host Comp) (hf : host.engine.Faithful)
    (s : SharedState Comp) (hempty : s.cache = ∅) (earlier : Set Bytes)
    (haot : AotSound host earlier s.aotCache) :
    (∀ (calls : List LoadCall) (call : LoadCall) (p : ModulePath) (c : Comp),
      host.Apart (earlier ∪ contentsOf host (calls ++ [call])) →
      call.target = some p →
      (loadCall host (run (loadStep host) s calls) call).1 = some (.ok c) →
      FromOwnFile host p c) ∧
    (∀ p q : ModulePath, p.NamesAccepted → q.NamesAccepted → p.cacheKey = q.cacheKey → p = q) ∧
    (∀ name tenantId other, Accepted name →
      name ≠ ModulePath.cacheKey (.tenant tenantId other)) := by
  refine ⟨fun calls call p c hapart htarget hres => ?_,
    fun p q hp hq => cacheKey_injective hp hq,
    fun name t n hacc => platform_ne_tenant_key hacc t n⟩
  let modules := earlier ∪ contentsOf host (calls ++ [call])
  have hs0 : Sound host modules s := by
    refine ⟨fun key c h => ?_, fun key artifact h => ?_⟩
    · rw [hempty] at h
      cases h
    · obtain ⟨bytes, hb, hmade⟩ := haot key artifact h
      exact ⟨bytes, .inl hb, hmade⟩
  have hamong : ∀ call' ∈ calls ++ [call], call'.Among host modules :=
    fun call' hcall' q bytes hq hholds => .inr ⟨call', hcall', q, hq, hholds⟩
  have hs := run_loadStep_sound hf hapart hs0 fun call' hcall' =>
    hamong call' (List.mem_append_left _ hcall')
  have hlast := hamong call (by simp)
  cases call with
  | getOrLoad name io =>
    cases htarget
    obtain ⟨hacc, hfrom⟩ :=
      (getOrLoad_spec hf hapart io hs fun b => hlast _ b rfl).1 c (Option.some.inj hres)
    exact fromOwnFile_of_compiledFrom (p := .platform name) hacc hfrom
  | getOrLoadModulePath q io =>
    cases htarget
    obtain ⟨hp, hfrom⟩ :=
      (getOrLoadModulePath_spec hf hapart io hs fun b => hlast p b rfl).1 c (Option.some.inj hres)
    exact fromOwnFile_of_compiledFrom hp hfrom
  | evict key => cases htarget

/-- BLAKE3 on the modules of `sampleHost`. -/
def sampleHash (bytes : Bytes) : Vector UInt8 32 :=
  if bytes = [0] then
    #v[0x2d, 0x3a, 0xde, 0xdf, 0xf1, 0x1b, 0x61, 0xf1,
      0x4c, 0x88, 0x6e, 0x35, 0xaf, 0xa0, 0x36, 0x73,
      0x6d, 0xcd, 0x87, 0xa7, 0x4d, 0x27, 0xb5, 0xc1,
      0x51, 0x02, 0x25, 0xd0, 0xf5, 0x92, 0xe2, 0x13]
  else if bytes = [0, 1] then
    #v[0x7b, 0x70, 0x15, 0xbb, 0x92, 0xcf, 0x0b, 0x31,
      0x80, 0x37, 0x70, 0x2a, 0x6c, 0xdd, 0x81, 0xde,
      0xe4, 0x12, 0x24, 0xf7, 0x34, 0x68, 0x4c, 0x2c,
      0x12, 0x2c, 0xd6, 0x35, 0x9c, 0xb1, 0xee, 0x63]
  else Vector.replicate 32 0

/-- A host whose components are their own binaries and artifacts, with a platform module and a
    tenant module of one name. -/
def sampleHost : Host Bytes where
  engine := ⟨some, some, some⟩
  blake3 := sampleHash
  fs := fun path =>
    if path = "modules/orders.wasm" then some (.file [0])
    else if path = "users/acme/orders.wasm" then some (.file [0, 1])
    else none
  modulesDir := "modules"
  userModulesDir := some "users"
  scriptsDir := none
  maxPerModuleRequests := 1
  maxBodySizeBytes := 10
  singleComponent := none

def sampleState : SharedState Bytes where
  cache := ∅
  aotCache := ⟨false, ∅⟩
  circuitBreaker := .withConfig .default
  moduleSemaphores := .empty

theorem sampleHost_faithful : sampleHost.engine.Faithful := by
  intro c c' artifact h h'
  have h : some c = some artifact := h
  have h' : some artifact = some c' := h'
  exact (Option.some.inj (h.trans h')).symm

/-- There are two modules, and their keys differ. -/
theorem sampleHost_apart (calls : List LoadCall) :
    sampleHost.Apart (∅ ∪ contentsOf sampleHost calls) := by
  have hfile : ∀ bytes ∈ ∅ ∪ contentsOf sampleHost calls, bytes = [0] ∨ bytes = [0, 1] := by
    intro bytes hb
    obtain hb | ⟨call, -, p, -, path, -, hfile⟩ := hb
    · cases hb
    · dsimp only [sampleHost] at hfile
      split at hfile
      · cases hfile
        exact .inl rfl
      · split at hfile
        · cases hfile
          exact .inr rfl
        · cases hfile
  have hkeys : AotCache.computeKey sampleHash [0] ≠ AotCache.computeKey sampleHash [0, 1] := by
    decide
  intro a ha b hb hkey
  rcases hfile a ha with rfl | rfl
  · rcases hfile b hb with rfl | rfl
    · rfl
    · exact absurd hkey hkeys
  · rcases hfile b hb with rfl | rfl
    · exact absurd hkey.symm hkeys
    · rfl

theorem module_cache_isolation_sample :
    (loadCall sampleHost (run (loadStep sampleHost) sampleState
        [.getOrLoad "orders" {}, .getOrLoadModulePath (.tenant "acme" "orders") {}])
      (.getOrLoadModulePath (.tenant "acme" "orders") {})).1 = some (.ok [0, 1]) ∧
    FromOwnFile sampleHost (.tenant "acme" "orders") [0, 1] := by
  have hres : (loadCall sampleHost (run (loadStep sampleHost) sampleState
        [.getOrLoad "orders" {}, .getOrLoadModulePath (.tenant "acme" "orders") {}])
      (.getOrLoadModulePath (.tenant "acme" "orders") {})).1 = some (.ok [0, 1]) := by rfl
  exact ⟨hres, (module_cache_isolation sampleHost sampleHost_faithful sampleState rfl ∅
    (fun key artifact h => by cases h)).1 _ _ _ _ (sampleHost_apart _) rfl hres⟩

end

end Mik.Runtime
