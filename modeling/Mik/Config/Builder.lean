/-
  The configuration of the host (`runtime/host_config.rs`) and how the runtime builder makes it
  from `mik.toml` (`runtime/builder.rs`).

  The builder has two ways in: `from_manifest_file` reads the file through `PartialManifest`, and
  `from_manifest` takes a `Manifest` that was read from it. Both tune what is left at 0 by what
  `SystemConfig::detect` finds. They are one computation, `hostConfigOf`, on the fields that the
  two records share. Where a size overflows `usize` it is undefined in a build that checks for
  overflow, and goes on with the size taken modulo `2 ^ 64` in one that does not.
-/
import Mik.Config.Validation
import Mik.Lib.Overflow

namespace Mik.Config

open Mik.Lib

/-! ## Host configuration -/

structure HostConfig where
  modulesPath : String
  userModulesPath : Option String
  cacheSize : UInt64
  maxCacheBytes : UInt64
  staticDir : Option String
  port : UInt16
  executionTimeoutSecs : UInt64
  memoryLimitBytes : UInt64
  maxConcurrentRequests : UInt64
  maxBodySizeBytes : UInt64
  maxPerModuleRequests : UInt64
  shutdownTimeoutSecs : UInt64
  loggingEnabled : Bool
  httpAllowed : List String
  scriptsDir : Option String
  hotReload : Bool
  aotCacheMaxMb : UInt64
  fuelBudget : Option UInt64
  deriving DecidableEq, Repr

inductive ConfigError where
  | timeout (value : UInt64) (reason : String)
  | memoryLimit (value : UInt64) (reason : String)
  | concurrency (reason : String)
  deriving DecidableEq, Repr

def maxExecutionTimeoutSecs : UInt64 := 300
def minMemoryLimitBytes : UInt64 := 1024 * 1024
def maxMemoryLimitBytes : UInt64 := 4 * 1024 * 1024 * 1024

/-- `HostConfig::validate`, whose warning about `modules_path` is no error. -/
def HostConfig.validate (c : HostConfig) : Except ConfigError Unit :=
  if c.executionTimeoutSecs = 0 then .error (.timeout 0 "must be greater than 0")
  else if maxExecutionTimeoutSecs < c.executionTimeoutSecs then
    .error (.timeout c.executionTimeoutSecs "must be <= 300 seconds (5 minutes)")
  else if c.memoryLimitBytes < minMemoryLimitBytes then
    .error (.memoryLimit c.memoryLimitBytes "must be >= 1MB (1048576 bytes)")
  else if maxMemoryLimitBytes < c.memoryLimitBytes then
    .error (.memoryLimit c.memoryLimitBytes "must be <= 4GB (4294967296 bytes)")
  else if c.maxConcurrentRequests = 0 then
    .error (.concurrency "max_concurrent_requests must be greater than 0")
  else if c.maxConcurrentRequests < c.maxPerModuleRequests then
    .error (.concurrency "max_per_module_requests cannot exceed max_concurrent_requests")
  else .ok ()

/-! ## The system -/

/-- What the system says about itself: `System::total_memory`, and
    `std::thread::available_parallelism` when it can be told. -/
structure System where
  totalMemory : UInt64
  availableParallelism : Option UInt64

def System.cpuCores (sys : System) : UInt64 := sys.availableParallelism.getD 4

/-- A product of sizes. -/
def sizeMul (o : Overflow) (a b : UInt64) : Option UInt64 :=
  (o.mul 64 a.toNat b.toNat).map UInt64.ofNat

/-- `Ord::clamp`. -/
def clamp (x lo hi : UInt64) : UInt64 := if x < lo then lo else if hi < x then hi else x

structure SystemConfig where
  totalMemoryBytes : UInt64
  cpuCores : UInt64
  cacheSize : UInt64
  maxCacheBytes : UInt64
  maxConcurrentRequests : UInt64
  maxPerModuleRequests : UInt64
  deriving DecidableEq, Repr

/-- `SystemConfig::detect`. -/
def SystemConfig.detect (o : Overflow) (sys : System) : Option SystemConfig := do
  let scaled ← sizeMul o sys.cpuCores 150
  let maxConcurrentRequests := clamp scaled 100 10000
  some {
    totalMemoryBytes := sys.totalMemory
    cpuCores := sys.cpuCores
    cacheSize := clamp (sys.totalMemory / (10 * 1024 * 1024)) 10 1000
    maxCacheBytes := clamp (sys.totalMemory / 10) (64 * 1024 * 1024) (1024 * 1024 * 1024)
    maxConcurrentRequests
    maxPerModuleRequests := clamp (maxConcurrentRequests / 10) 10 500 }

/-! ## From the file to the host -/

def defaultCacheSize : UInt64 := 100
def defaultMaxCacheMb : UInt64 := 256
def defaultMaxConcurrentRequests : UInt64 := 1000
def defaultMaxPerModuleRequests : UInt64 := 10

/-- The server settings that both records hold, and the memory limit that the host is given. -/
structure ServerFields where
  auto : Bool
  port : UInt16
  modules : String
  userModules : Option String
  scripts : Option String
  static : Option String
  cacheSize : UInt64
  maxCacheMb : UInt64
  maxBodySizeMb : UInt64
  executionTimeoutSecs : UInt64
  maxConcurrentRequests : UInt64
  maxPerModuleRequests : UInt64
  shutdownTimeoutSecs : UInt64
  logging : Bool
  httpAllowed : List String
  memoryLimitBytes : UInt64

/-- `mb * 1024 * 1024`. -/
def megabytes (o : Overflow) (mb : UInt64) : Option UInt64 :=
  (sizeMul o mb 1024).bind fun kb => sizeMul o kb 1024

/-- The configured value, or the other one where it is 0 (meaning "auto"). -/
def orAuto (configured auto : UInt64) : UInt64 := if 0 < configured then configured else auto

/-- The configured cache size in bytes, or the other one where it is 0. -/
def cacheBytesOr (o : Overflow) (configuredMb auto : UInt64) : Option UInt64 :=
  if 0 < configuredMb then megabytes o configuredMb else some auto

/-- What is used where a setting is 0: the detected values, or fixed ones. -/
structure Fallback where
  cacheSize : UInt64
  maxCacheBytes : UInt64
  maxConcurrentRequests : UInt64
  maxPerModuleRequests : UInt64

def fallback (o : Overflow) (sys : System) (auto : Bool) : Option Fallback :=
  if auto then
    (SystemConfig.detect o sys).map fun d =>
      ⟨d.cacheSize, d.maxCacheBytes, d.maxConcurrentRequests, d.maxPerModuleRequests⟩
  else
    (megabytes o defaultMaxCacheMb).map fun bytes =>
      ⟨defaultCacheSize, bytes, defaultMaxConcurrentRequests, defaultMaxPerModuleRequests⟩

/-- The configuration of the host for the given settings; nothing where a size overflows in a build
    that checks. -/
def hostConfigOf (o : Overflow) (sys : System) (f : ServerFields) : Option HostConfig := do
  let fb ← fallback o sys f.auto
  let maxCacheBytes ← cacheBytesOr o f.maxCacheMb fb.maxCacheBytes
  let maxBodySizeBytes ← megabytes o f.maxBodySizeMb
  some {
    modulesPath := f.modules
    userModulesPath := f.userModules
    cacheSize := orAuto f.cacheSize fb.cacheSize
    maxCacheBytes
    staticDir := f.static
    port := f.port
    executionTimeoutSecs := f.executionTimeoutSecs
    memoryLimitBytes := f.memoryLimitBytes
    maxConcurrentRequests := orAuto f.maxConcurrentRequests fb.maxConcurrentRequests
    maxBodySizeBytes
    maxPerModuleRequests := orAuto f.maxPerModuleRequests fb.maxPerModuleRequests
    shutdownTimeoutSecs := f.shutdownTimeoutSecs
    loggingEnabled := f.logging
    httpAllowed := f.httpAllowed
    scriptsDir := f.scripts
    hotReload := false
    aotCacheMaxMb := 0
    fuelBudget := none }

def ServerConfig.fields (s : ServerConfig) : ServerFields where
  auto := s.auto
  port := s.port
  modules := s.modules
  userModules := s.userModules
  scripts := s.scripts
  static := s.static
  cacheSize := s.cacheSize
  maxCacheMb := s.maxCacheMb
  maxBodySizeMb := s.maxBodySizeMb
  executionTimeoutSecs := s.executionTimeoutSecs
  maxConcurrentRequests := s.maxConcurrentRequests
  maxPerModuleRequests := s.maxPerModuleRequests
  shutdownTimeoutSecs := s.shutdownTimeoutSecs
  logging := s.logging
  httpAllowed := s.httpAllowed
  memoryLimitBytes := defaultMemoryLimitBytes

def TomlServerConfig.fields (s : TomlServerConfig) : ServerFields where
  auto := s.auto
  port := s.port
  modules := s.modules
  userModules := s.userModules
  scripts := s.scripts
  static := s.static
  cacheSize := s.cacheSize
  maxCacheMb := s.maxCacheMb
  maxBodySizeMb := s.maxBodySizeMb
  executionTimeoutSecs := s.executionTimeoutSecs
  maxConcurrentRequests := s.maxConcurrentRequests
  maxPerModuleRequests := s.maxPerModuleRequests
  shutdownTimeoutSecs := s.shutdownTimeoutSecs
  logging := s.logging
  httpAllowed := s.httpAllowed
  memoryLimitBytes := s.memoryLimitBytes

/-- `RuntimeBuilder::from_server_config`. -/
def fromServerConfig (o : Overflow) (sys : System) (server : ServerConfig) : Option HostConfig :=
  hostConfigOf o sys server.fields

/-- `RuntimeBuilder::from_manifest`. -/
def fromManifest (o : Overflow) (sys : System) (m : Manifest) : Option HostConfig :=
  fromServerConfig o sys m.server

/-- `RuntimeBuilder::apply_manifest_server_config`. -/
def applyManifestServerConfig (o : Overflow) (sys : System) (server : TomlServerConfig) :
    Option HostConfig :=
  hostConfigOf o sys server.fields

/-- `RuntimeBuilder::from_manifest_file`, for a file that holds the document `d`. -/
def fromManifestFile (o : Overflow) (sys : System) (d : Toml) :
    Except String (Option HostConfig) :=
  match PartialManifest.codec.read d with
  | none => .error "Failed to parse"
  | some p => .ok (applyManifestServerConfig o sys p.server)

/-! ## Overflow -/

/-- None of the products of the computation overflows: the two sizes in megabytes, and, with
    auto-detection, the cores times 150. -/
structure NoOverflow (sys : System) (f : ServerFields) : Prop where
  cores : f.auto = true → sys.cpuCores.toNat * 150 < 2 ^ 64
  cache : f.maxCacheMb.toNat * (1024 * 1024) < 2 ^ 64
  body : f.maxBodySizeMb.toNat * (1024 * 1024) < 2 ^ 64

theorem toNat_ofNat_of_lt {n : Nat} (h : n < 2 ^ 64) : (UInt64.ofNat n).toNat = n := by
  rw [UInt64.toNat_ofNat', Nat.mod_eq_of_lt h]

theorem sizeMul_eq_some_iff {a b c : UInt64} :
    sizeMul .panics a b = some c ↔ a.toNat * b.toNat < 2 ^ 64 ∧ c.toNat = a.toNat * b.toNat := by
  unfold sizeMul Overflow.mul
  rw [Option.map_eq_some_iff]
  constructor
  · rintro ⟨n, hfit, rfl⟩
    obtain ⟨hlt, rfl⟩ := Overflow.fit_panics_iff.mp hfit
    exact ⟨hlt, toNat_ofNat_of_lt hlt⟩
  · rintro ⟨hlt, hc⟩
    refine ⟨_, Overflow.fit_of_lt hlt, UInt64.toNat_inj.mp ?_⟩
    rw [toNat_ofNat_of_lt hlt, hc]

/-- A build that does not check always comes to a result. -/
theorem exists_sizeMul_wraps (a b : UInt64) : ∃ c, sizeMul .wraps a b = some c := by
  unfold sizeMul Overflow.mul
  rw [Overflow.fit_wraps]
  exact ⟨_, rfl⟩

theorem megabytes_eq_some_iff {mb bytes : UInt64} :
    megabytes .panics mb = some bytes ↔
      mb.toNat * (1024 * 1024) < 2 ^ 64 ∧ bytes.toNat = mb.toNat * (1024 * 1024) := by
  have hk : (1024 : UInt64).toNat = 1024 := rfl
  unfold megabytes
  simp only [Option.bind_eq_some_iff, sizeMul_eq_some_iff, hk]
  constructor
  · rintro ⟨kb, ⟨-, hkb⟩, hlt, hbytes⟩
    omega
  · rintro ⟨hlt, hbytes⟩
    refine ⟨UInt64.ofNat (mb.toNat * 1024), ?_⟩
    have hlt' : mb.toNat * 1024 < 2 ^ 64 :=
      Nat.lt_of_le_of_lt (Nat.mul_le_mul_left _ (by decide)) hlt
    have hkb := toNat_ofNat_of_lt hlt'
    rw [hkb, Nat.mul_assoc]
    exact ⟨⟨hlt', rfl⟩, hlt, hbytes⟩

theorem exists_megabytes (mb : UInt64) (h : mb.toNat * (1024 * 1024) < 2 ^ 64) :
    ∃ bytes, megabytes .panics mb = some bytes := by
  refine ⟨UInt64.ofNat (mb.toNat * (1024 * 1024)), megabytes_eq_some_iff.mpr ⟨h, ?_⟩⟩
  exact toNat_ofNat_of_lt h

/-- The requests at a time that are detected for a number of cores. -/
def detectedConcurrent (cores : Nat) : Nat := min 10000 (max 100 (cores * 150))

/-- The requests at a time to one module that are detected for a number of cores. -/
def detectedPerModule (cores : Nat) : Nat := min 500 (max 10 (cores * 15))

theorem toNat_clamp (x : UInt64) {lo hi : UInt64} (h : lo ≤ hi) :
    (clamp x lo hi).toNat = min hi.toNat (max lo.toNat x.toNat) := by
  unfold clamp
  rw [UInt64.le_iff_toNat_le] at h
  by_cases hlo : x < lo
  · rw [if_pos hlo]
    rw [UInt64.lt_iff_toNat_lt] at hlo
    omega
  · rw [if_neg hlo]
    by_cases hhi : hi < x
    · rw [if_pos hhi]
      rw [UInt64.lt_iff_toNat_lt] at hlo hhi
      omega
    · rw [if_neg hhi]
      rw [UInt64.lt_iff_toNat_lt] at hlo hhi
      omega

theorem detect_spec {sys : System} {d : SystemConfig} (h : SystemConfig.detect .panics sys = some d) :
    sys.cpuCores.toNat * 150 < 2 ^ 64 ∧
      d.maxConcurrentRequests.toNat = detectedConcurrent sys.cpuCores.toNat ∧
      d.maxPerModuleRequests.toNat = detectedPerModule sys.cpuCores.toNat := by
  obtain ⟨scaled, hscaled, hd⟩ := Option.bind_eq_some_iff.mp h
  obtain ⟨hlt, hval⟩ := sizeMul_eq_some_iff.mp hscaled
  cases hd
  have h150 : (150 : UInt64).toNat = 150 := rfl
  have hconc : (clamp scaled 100 10000).toNat = min 10000 (max 100 scaled.toNat) :=
    toNat_clamp scaled (by decide)
  have hper : (clamp (clamp scaled 100 10000 / 10) 10 500).toNat =
      min 500 (max 10 ((clamp scaled 100 10000).toNat / 10)) := by
    rw [toNat_clamp _ (by decide), UInt64.toNat_div]
    rfl
  rw [h150] at hlt hval
  refine ⟨hlt, ?_, ?_⟩
  · show (clamp scaled 100 10000).toNat = min 10000 (max 100 (sys.cpuCores.toNat * 150))
    omega
  · show (clamp (clamp scaled 100 10000 / 10) 10 500).toNat =
      min 500 (max 10 (sys.cpuCores.toNat * 15))
    omega

theorem exists_detect {sys : System} (h : sys.cpuCores.toNat * 150 < 2 ^ 64) :
    ∃ d, SystemConfig.detect .panics sys = some d := by
  have hscaled : sizeMul .panics sys.cpuCores 150 = some (UInt64.ofNat (sys.cpuCores.toNat * 150)) :=
    sizeMul_eq_some_iff.mpr ⟨h, toNat_ofNat_of_lt h⟩
  unfold SystemConfig.detect
  rw [hscaled]
  exact ⟨_, rfl⟩

/-- The fallback limits, in numbers. -/
def fallbackConcurrent (sys : System) (auto : Bool) : Nat :=
  if auto then detectedConcurrent sys.cpuCores.toNat else 1000

def fallbackPerModule (sys : System) (auto : Bool) : Nat :=
  if auto then detectedPerModule sys.cpuCores.toNat else 10

theorem fallback_spec {sys : System} {auto : Bool} {fb : Fallback}
    (h : fallback .panics sys auto = some fb) :
    (auto = true → sys.cpuCores.toNat * 150 < 2 ^ 64) ∧
      fb.maxConcurrentRequests.toNat = fallbackConcurrent sys auto ∧
      fb.maxPerModuleRequests.toNat = fallbackPerModule sys auto := by
  cases auto with
  | true =>
    obtain ⟨d, hd, rfl⟩ := Option.map_eq_some_iff.mp h
    obtain ⟨hlt, hconc, hper⟩ := detect_spec hd
    exact ⟨fun _ => hlt, hconc, hper⟩
  | false =>
    have h' : (megabytes .panics defaultMaxCacheMb).map (fun bytes =>
        (⟨defaultCacheSize, bytes, defaultMaxConcurrentRequests,
          defaultMaxPerModuleRequests⟩ : Fallback)) = some fb := h
    obtain ⟨bytes, -, rfl⟩ := Option.map_eq_some_iff.mp h'
    exact ⟨fun hauto => (by cases hauto), rfl, rfl⟩

theorem exists_fallback {sys : System} {auto : Bool}
    (h : auto = true → sys.cpuCores.toNat * 150 < 2 ^ 64) : ∃ fb, fallback .panics sys auto = some fb := by
  cases auto with
  | true =>
    obtain ⟨d, hd⟩ := exists_detect (h rfl)
    exact ⟨_, by rw [fallback, if_pos rfl, hd]; rfl⟩
  | false =>
    obtain ⟨bytes, hbytes⟩ := exists_megabytes defaultMaxCacheMb (by decide)
    exact ⟨_, by rw [fallback, if_neg (by simp), hbytes]; rfl⟩

/-- What the host is given, for settings that do not overflow. -/
theorem hostConfigOf_spec {sys : System} {f : ServerFields} {c : HostConfig}
    (h : hostConfigOf .panics sys f = some c) :
    NoOverflow sys f ∧ c.executionTimeoutSecs = f.executionTimeoutSecs ∧
      c.memoryLimitBytes = f.memoryLimitBytes ∧ c.port = f.port ∧ c.staticDir = f.static ∧
      c.maxConcurrentRequests.toNat =
        (if 0 < f.maxConcurrentRequests.toNat then f.maxConcurrentRequests.toNat
          else fallbackConcurrent sys f.auto) ∧
      c.maxPerModuleRequests.toNat =
        (if 0 < f.maxPerModuleRequests.toNat then f.maxPerModuleRequests.toNat
          else fallbackPerModule sys f.auto) := by
  obtain ⟨fb, hfb, h⟩ := Option.bind_eq_some_iff.mp h
  obtain ⟨cacheBytes, hcache, h⟩ := Option.bind_eq_some_iff.mp h
  obtain ⟨bodyBytes, hbody, h⟩ := Option.bind_eq_some_iff.mp h
  obtain ⟨hcores, hconc, hper⟩ := fallback_spec hfb
  have horAuto : ∀ x y : UInt64, (orAuto x y).toNat = if 0 < x.toNat then x.toNat else y.toNat := by
    intro x y
    unfold orAuto
    simp only [UInt64.lt_iff_toNat_lt]
    show (if 0 < x.toNat then x else y).toNat = _
    split <;> rfl
  have hcacheLt : f.maxCacheMb.toNat * (1024 * 1024) < 2 ^ 64 := by
    unfold cacheBytesOr at hcache
    by_cases hpos : 0 < f.maxCacheMb
    · rw [if_pos hpos] at hcache
      exact (megabytes_eq_some_iff.mp hcache).1
    · rw [UInt64.lt_iff_toNat_lt] at hpos
      have hzero : (0 : UInt64).toNat = 0 := rfl
      omega
  cases h
  refine ⟨⟨hcores, hcacheLt, (megabytes_eq_some_iff.mp hbody).1⟩, rfl, rfl, rfl, rfl, ?_, ?_⟩
  · rw [← hconc]
    exact horAuto _ _
  · rw [← hper]
    exact horAuto _ _

theorem exists_hostConfigOf {sys : System} {f : ServerFields} (h : NoOverflow sys f) :
    ∃ c, hostConfigOf .panics sys f = some c := by
  obtain ⟨fb, hfb⟩ := exists_fallback h.cores
  obtain ⟨cacheBytes, hcache⟩ :
      ∃ bytes, cacheBytesOr .panics f.maxCacheMb fb.maxCacheBytes = some bytes := by
    unfold cacheBytesOr
    split
    · exact exists_megabytes _ h.cache
    · exact ⟨_, rfl⟩
  obtain ⟨bodyBytes, hbody⟩ := exists_megabytes _ h.body
  unfold hostConfigOf
  rw [hfb, Option.bind_eq_bind, Option.bind_some, hcache, Option.bind_eq_bind, Option.bind_some,
    hbody]
  exact ⟨_, rfl⟩

/-- What is taken over as it is, in either build. -/
theorem hostConfigOf_taken {o : Overflow} {sys : System} {f : ServerFields} {c : HostConfig}
    (h : hostConfigOf o sys f = some c) :
    c.memoryLimitBytes = f.memoryLimitBytes ∧ c.port = f.port ∧ c.staticDir = f.static := by
  obtain ⟨fb, -, h⟩ := Option.bind_eq_some_iff.mp h
  obtain ⟨cacheBytes, -, h⟩ := Option.bind_eq_some_iff.mp h
  obtain ⟨bodyBytes, -, h⟩ := Option.bind_eq_some_iff.mp h
  cases h
  exact ⟨rfl, rfl, rfl⟩

/-- A build that does not check always comes to a configuration. -/
theorem exists_hostConfigOf_wraps (sys : System) (f : ServerFields) :
    ∃ c, hostConfigOf .wraps sys f = some c := by
  have hmegabytes (mb : UInt64) : ∃ bytes, megabytes .wraps mb = some bytes := by
    obtain ⟨kb, hkb⟩ := exists_sizeMul_wraps mb 1024
    unfold megabytes
    rw [hkb]
    exact exists_sizeMul_wraps kb 1024
  obtain ⟨fb, hfb⟩ : ∃ fb, fallback .wraps sys f.auto = some fb := by
    unfold fallback
    split
    · obtain ⟨scaled, hscaled⟩ := exists_sizeMul_wraps sys.cpuCores 150
      unfold SystemConfig.detect
      rw [hscaled]
      exact ⟨_, rfl⟩
    · obtain ⟨bytes, hbytes⟩ := hmegabytes defaultMaxCacheMb
      rw [hbytes]
      exact ⟨_, rfl⟩
  obtain ⟨cacheBytes, hcache⟩ :
      ∃ bytes, cacheBytesOr .wraps f.maxCacheMb fb.maxCacheBytes = some bytes := by
    unfold cacheBytesOr
    split
    · exact hmegabytes _
    · exact ⟨_, rfl⟩
  obtain ⟨bodyBytes, hbody⟩ := hmegabytes f.maxBodySizeMb
  unfold hostConfigOf
  rw [hfb, Option.bind_eq_bind, Option.bind_some, hcache, Option.bind_eq_bind, Option.bind_some,
    hbody]
  exact ⟨_, rfl⟩

/-- A host is configured, unless a size overflows in a build that checks. -/
theorem hostConfigOf_isSome_iff {o : Overflow} {sys : System} {f : ServerFields} :
    (∃ c, hostConfigOf o sys f = some c) ↔ (o = .panics → NoOverflow sys f) := by
  cases o with
  | panics =>
    exact ⟨fun ⟨_, hc⟩ _ => (hostConfigOf_spec hc).1, fun h => exists_hostConfigOf (h rfl)⟩
  | wraps => exact ⟨fun _ => nofun, fun _ => exists_hostConfigOf_wraps sys f⟩

/-! ## A validated manifest and the host -/

/-- The host can be configured without an overflow, and the configuration passes its own
    validation. -/
def Usable (sys : System) (server : ServerConfig) : Prop :=
  ∃ c, fromServerConfig .panics sys server = some c ∧ c.validate = .ok ()

/-- The limit for one module does not exceed that for all. A limit that is 0 is replaced by the
    detected one, or by 1000 and 10 without auto-detection. -/
def LimitsOrdered (sys : System) (s : ServerConfig) : Prop :=
  if s.maxPerModuleRequests.toNat = 0 then
    s.maxConcurrentRequests.toNat = 0 ∨
      (if s.auto then detectedPerModule sys.cpuCores.toNat else 10) ≤
        s.maxConcurrentRequests.toNat
  else if s.maxConcurrentRequests.toNat = 0 then
    s.maxPerModuleRequests.toNat ≤
      if s.auto then detectedConcurrent sys.cpuCores.toNat else 1000
  else s.maxPerModuleRequests.toNat ≤ s.maxConcurrentRequests.toNat

/-- The numbers of the `[server]` section that a host can be started with. -/
structure FitsHost (sys : System) (s : ServerConfig) : Prop where
  noOverflow : NoOverflow sys s.fields
  timeout : 0 < s.executionTimeoutSecs.toNat ∧ s.executionTimeoutSecs.toNat ≤ 300
  limits : LimitsOrdered sys s

theorem hostConfig_validate_iff (c : HostConfig) :
    c.validate = .ok () ↔
      (0 < c.executionTimeoutSecs.toNat ∧ c.executionTimeoutSecs.toNat ≤ 300) ∧
        (1048576 ≤ c.memoryLimitBytes.toNat ∧ c.memoryLimitBytes.toNat ≤ 4294967296) ∧
        0 < c.maxConcurrentRequests.toNat ∧
        c.maxPerModuleRequests.toNat ≤ c.maxConcurrentRequests.toNat := by
  have hzero : ∀ x : UInt64, x = 0 ↔ x.toNat = 0 := fun x => UInt64.toNat_inj.symm
  have h300 : maxExecutionTimeoutSecs.toNat = 300 := rfl
  have hmin : minMemoryLimitBytes.toNat = 1048576 := rfl
  have hmax : maxMemoryLimitBytes.toNat = 4294967296 := rfl
  unfold HostConfig.validate
  simp only [hzero, UInt64.lt_iff_toNat_lt, h300, hmin, hmax]
  split
  · simp; omega
  · split
    · simp; omega
    · split
      · simp; omega
      · split
        · simp; omega
        · split
          · simp; omega
          · split
            · simp; omega
            · simp; omega

/-- The fallback limits are in order, and the one for all is positive. -/
theorem fallback_ordered (sys : System) (auto : Bool) :
    fallbackPerModule sys auto ≤ fallbackConcurrent sys auto ∧ 0 < fallbackConcurrent sys auto := by
  cases auto with
  | true =>
    show min 500 (max 10 (sys.cpuCores.toNat * 15)) ≤
      min 10000 (max 100 (sys.cpuCores.toNat * 150)) ∧
        0 < min 10000 (max 100 (sys.cpuCores.toNat * 150))
    omega
  | false =>
    show 10 ≤ 1000 ∧ 0 < 1000
    decide

theorem usable_iff_fits (sys : System) (s : ServerConfig) : Usable sys s ↔ FitsHost sys s := by
  have hmem : s.fields.memoryLimitBytes.toNat = 134217728 := rfl
  obtain ⟨hord, hpos⟩ := fallback_ordered sys s.auto
  have hlimits : ∀ {c : HostConfig}, fromServerConfig .panics sys s = some c →
      ((0 < c.maxConcurrentRequests.toNat ∧
        c.maxPerModuleRequests.toNat ≤ c.maxConcurrentRequests.toNat) ↔ LimitsOrdered sys s) := by
    intro c hc
    obtain ⟨-, -, -, -, -, hconc, hper⟩ := hostConfigOf_spec hc
    have hconc' : c.maxConcurrentRequests.toNat =
        if 0 < s.maxConcurrentRequests.toNat then s.maxConcurrentRequests.toNat
          else fallbackConcurrent sys s.auto := hconc
    have hper' : c.maxPerModuleRequests.toNat =
        if 0 < s.maxPerModuleRequests.toNat then s.maxPerModuleRequests.toNat
          else fallbackPerModule sys s.auto := hper
    unfold LimitsOrdered
    rw [hconc', hper']
    change _ ↔ if s.maxPerModuleRequests.toNat = 0 then
        s.maxConcurrentRequests.toNat = 0 ∨
          fallbackPerModule sys s.auto ≤ s.maxConcurrentRequests.toNat
      else if s.maxConcurrentRequests.toNat = 0 then
        s.maxPerModuleRequests.toNat ≤ fallbackConcurrent sys s.auto
      else s.maxPerModuleRequests.toNat ≤ s.maxConcurrentRequests.toNat
    by_cases hc0 : s.maxConcurrentRequests.toNat = 0
    · by_cases hp0 : s.maxPerModuleRequests.toNat = 0
      · simp [hc0, hp0, hord, hpos]
      · simp [hc0, hp0, hpos, Nat.pos_of_ne_zero hp0]
    · by_cases hp0 : s.maxPerModuleRequests.toNat = 0
      · simp [hc0, hp0, Nat.pos_of_ne_zero hc0]
      · simp [hc0, hp0, Nat.pos_of_ne_zero hc0, Nat.pos_of_ne_zero hp0]
  constructor
  · rintro ⟨c, hc, hvalid⟩
    obtain ⟨hno, htimeout, -⟩ := hostConfigOf_spec hc
    obtain ⟨ht, -, hlim⟩ := (hostConfig_validate_iff c).mp hvalid
    rw [htimeout] at ht
    exact ⟨hno, ht, (hlimits hc).mp hlim⟩
  · rintro ⟨hno, ht, hlim⟩
    obtain ⟨c, hc⟩ := exists_hostConfigOf hno
    obtain ⟨-, htimeout, hmemory, -⟩ := hostConfigOf_spec hc
    refine ⟨c, hc, (hostConfig_validate_iff c).mpr ⟨?_, ?_, (hlimits hc).mpr hlim⟩⟩
    · rw [htimeout]
      exact ht
    · rw [hmemory, hmem]
      decide

/-- A manifest that validates yields a usable host configuration, computed without overflow and
    valid itself, exactly when the numbers of its `[server]` section fit the host: the timeout is
    between 1 and 300 seconds, the sizes do not overflow, and the limits are in order. -/
theorem validated_usable_iff (env : Env) (path : String) (sys : System) (m : Manifest) :
    (m.validate env path = .ok () → Usable sys m.server) ↔
      (m.validate env path = .ok () → FitsHost sys m.server) := by
  rw [usable_iff_fits]

/-- A manifest with a timeout of ten minutes validates, and the host refuses it. -/
theorem timeout_validates_unusable :
    ¬ ∀ (env : Env) (path : String) (sys : System) (m : Manifest),
      m.validate env path = .ok () → Usable sys m.server := by
  intro h
  have hvalid := h ⟨fun version => version == "0.1.0", fun _ => none, fun _ => false,
    fun _ => false⟩ "mik.toml" ⟨8000000000, some 8⟩
    ⟨⟨"app", "0.1.0", none, [], none⟩, { ServerConfig.default with executionTimeoutSecs := 600 },
      .default, .default, none, .empty, .empty⟩ (by decide)
  have hfits := (usable_iff_fits _ _).mp hvalid
  exact absurd hfits.timeout.2 (by decide)

end Mik.Config
