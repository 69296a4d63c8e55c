/-
  The data types of `mik.toml` (`manifest/types.rs`, `manifest/defaults.rs`), and the three that
  read the file: `Manifest`, the runtime builder's `PartialManifest` (`runtime/builder.rs`) and the
  scheduler's `SchedulesManifest` (`daemon/cron/manifest.rs`).

  Each record is given with its codec: the fields in the order of the declaration, under their
  names in the file, each with what stands for it when it is absent. `usize` and `u64` are 64 bits.
  A `body` of a schedule is kept as the TOML value that it is read from.
-/
import Mik.Lib.Toml

namespace Mik.Config

open Mik.Lib

/-! ## Defaults -/

def defaultTracingEnabled : Bool := true
def defaultServiceName : String := "mik"
def defaultAuto : Bool := true
def defaultPort : UInt16 := 3000
def defaultModulesDir : String := "modules/"
def defaultMaxBodySizeMb : UInt64 := 10
def defaultExecutionTimeout : UInt64 := 30
def defaultShutdownTimeout : UInt64 := 30
def defaultLogMaxSizeMb : UInt64 := 10
def defaultLogMaxFiles : UInt64 := 5
def defaultWatchDebounceMs : UInt64 := 300
def defaultHttpHandler : Bool := true
def defaultLbEnabled : Bool := false
def defaultHealthCheckType : String := "http"
def defaultHealthCheckIntervalMs : UInt64 := 5000
def defaultHealthCheckTimeoutMs : UInt64 := 2000
def defaultHealthCheckPath : String := "/health"
def defaultUnhealthyThreshold : UInt32 := 3
def defaultHealthyThreshold : UInt32 := 2
def defaultRequestTimeoutSecs : UInt64 := 30
def defaultMaxConnectionsPerBackend : UInt64 := 100
def defaultPoolIdleTimeoutSecs : UInt64 := 90
def defaultTcpKeepaliveSecs : UInt64 := 60
def defaultHttp2Only : Bool := false
def defaultVersion : String := "0.1.0"

/-! ## Manifest -/

structure Author where
  name : String
  email : Option String
  deriving DecidableEq, Repr

def Author.codec : Codec Author :=
  .record (Record.make Author.mk
    |>.field "name" (.required .string) Author.name
    |>.field "email" (.optional .string) Author.email) (fun _ => rfl) (by decide)

structure Project where
  name : String
  version : String
  description : Option String
  authors : List Author
  language : Option String
  deriving DecidableEq, Repr

def Project.codec : Codec Project :=
  .record (Record.make Project.mk
    |>.field "name" (.required .string) Project.name
    |>.field "version" (.orDefault .string defaultVersion) Project.version
    |>.field "description" (.optional .string) Project.description
    |>.field "authors" (.orDefault (.list Author.codec) []) Project.authors
    |>.field "language" (.optional .string) Project.language) (fun _ => rfl) (by decide)

structure ServerConfig where
  auto : Bool
  port : UInt16
  modules : String
  userModules : Option String
  scripts : Option String
  static : Option String
  cacheSize : UInt64
  maxCacheMb : UInt64
  maxBodySizeMb : UInt64
  executionTimeoutSecs : UInt64
  maxConcurrentRequests : UInt64
  maxPerModuleRequests : UInt64
  shutdownTimeoutSecs : UInt64
  logMaxSizeMb : UInt64
  logMaxFiles : UInt64
  watchDebounceMs : UInt64
  logging : Bool
  httpAllowed : List String
  deriving DecidableEq, Repr

/-- `ServerConfig::default`. -/
def ServerConfig.default : ServerConfig where
  auto := defaultAuto
  port := defaultPort
  modules := defaultModulesDir
  userModules := none
  scripts := none
  static := none
  cacheSize := 0
  maxCacheMb := 0
  maxBodySizeMb := defaultMaxBodySizeMb
  executionTimeoutSecs := defaultExecutionTimeout
  maxConcurrentRequests := 0
  maxPerModuleRequests := 0
  shutdownTimeoutSecs := defaultShutdownTimeout
  logMaxSizeMb := defaultLogMaxSizeMb
  logMaxFiles := defaultLogMaxFiles
  watchDebounceMs := defaultWatchDebounceMs
  logging := false
  httpAllowed := []

def ServerConfig.record : Record ServerConfig ServerConfig :=
  Record.make ServerConfig.mk
    |>.field "auto" (.orDefault .boolean defaultAuto) ServerConfig.auto
    |>.field "port" (.orDefault .uint16 defaultPort) ServerConfig.port
    |>.field "modules" (.orDefault .string defaultModulesDir) ServerConfig.modules
    |>.field "user_modules" (.optional .string) ServerConfig.userModules
    |>.field "scripts" (.optional .string) ServerConfig.scripts
    |>.field "static" (.optional .string) ServerConfig.static
    |>.field "cache_size" (.orDefault .uint64 0) ServerConfig.cacheSize
    |>.field "max_cache_mb" (.orDefault .uint64 0) ServerConfig.maxCacheMb
    |>.field "max_body_size_mb" (.orDefault .uint64 defaultMaxBodySizeMb)
      ServerConfig.maxBodySizeMb
    |>.field "execution_timeout_secs" (.orDefault .uint64 defaultExecutionTimeout)
      ServerConfig.executionTimeoutSecs
    |>.field "max_concurrent_requests" (.orDefault .uint64 0) ServerConfig.maxConcurrentRequests
    |>.field "max_per_module_requests" (.orDefault .uint64 0) ServerConfig.maxPerModuleRequests
    |>.field "shutdown_timeout_secs" (.orDefault .uint64 defaultShutdownTimeout)
      ServerConfig.shutdownTimeoutSecs
    |>.field "log_max_size_mb" (.orDefault .uint64 defaultLogMaxSizeMb) ServerConfig.logMaxSizeMb
    |>.field "log_max_files" (.orDefault .uint64 defaultLogMaxFiles) ServerConfig.logMaxFiles
    |>.field "watch_debounce_ms" (.orDefault .uint64 defaultWatchDebounceMs)
      ServerConfig.watchDebounceMs
    |>.field "logging" (.orDefault .boolean false) ServerConfig.logging
    |>.field "http_allowed" (.orDefault (.list .string) []) ServerConfig.httpAllowed

def ServerConfig.codec : Codec ServerConfig :=
  .record ServerConfig.record (fun _ => rfl) (by decide)

structure TracingConfig where
  enabled : Bool
  otlpEndpoint : Option String
  serviceName : String
  deriving DecidableEq, Repr

/-- `TracingConfig::default`. -/
def TracingConfig.default : TracingConfig := ⟨defaultTracingEnabled, none, defaultServiceName⟩

def TracingConfig.codec : Codec TracingConfig :=
  .record (Record.make TracingConfig.mk
    |>.field "enabled" (.orDefault .boolean defaultTracingEnabled) TracingConfig.enabled
    |>.field "otlp_endpoint" (.optional .string) TracingConfig.otlpEndpoint
    |>.field "service_name" (.orDefault .string defaultServiceName) TracingConfig.serviceName)
    (fun _ => rfl) (by decide)

structure CompositionConfig where
  httpHandler : Bool
  bridge : Option String
  deriving DecidableEq, Repr

/-- `CompositionConfig::default`. -/
def CompositionConfig.default : CompositionConfig := ⟨defaultHttpHandler, none⟩

def CompositionConfig.codec : Codec CompositionConfig :=
  .record (Record.make CompositionConfig.mk
    |>.field "http_handler" (.orDefault .boolean defaultHttpHandler) CompositionConfig.httpHandler
    |>.field "bridge" (.optional .string) CompositionConfig.bridge) (fun _ => rfl) (by decide)

structure LbConfig where
  enabled : Bool
  healthCheckType : String
  healthCheckIntervalMs : UInt64
  healthCheckTimeoutMs : UInt64
  healthCheckPath : String
  unhealthyThreshold : UInt32
  healthyThreshold : UInt32
  requestTimeoutSecs : UInt64
  maxConnectionsPerBackend : UInt64
  poolIdleTimeoutSecs : UInt64
  tcpKeepaliveSecs : UInt64
  http2Only : Bool
  deriving DecidableEq, Repr

def LbConfig.codec : Codec LbConfig :=
  .record (Record.make LbConfig.mk
    |>.field "enabled" (.orDefault .boolean defaultLbEnabled) LbConfig.enabled
    |>.field "health_check_type" (.orDefault .string defaultHealthCheckType)
      LbConfig.healthCheckType
    |>.field "health_check_interval_ms" (.orDefault .uint64 defaultHealthCheckIntervalMs)
      LbConfig.healthCheckIntervalMs
    |>.field "health_check_timeout_ms" (.orDefault .uint64 defaultHealthCheckTimeoutMs)
      LbConfig.healthCheckTimeoutMs
    |>.field "health_check_path" (.orDefault .string defaultHealthCheckPath)
      LbConfig.healthCheckPath
    |>.field "unhealthy_threshold" (.orDefault .uint32 defaultUnhealthyThreshold)
      LbConfig.unhealthyThreshold
    |>.field "healthy_threshold" (.orDefault .uint32 defaultHealthyThreshold)
      LbConfig.healthyThreshold
    |>.field "request_timeout_secs" (.orDefault .uint64 defaultRequestTimeoutSecs)
      LbConfig.requestTimeoutSecs
    |>.field "max_connections_per_backend" (.orDefault .uint64 defaultMaxConnectionsPerBackend)
      LbConfig.maxConnectionsPerBackend
    |>.field "pool_idle_timeout_secs" (.orDefault .uint64 defaultPoolIdleTimeoutSecs)
      LbConfig.poolIdleTimeoutSecs
    |>.field "tcp_keepalive_secs" (.orDefault .uint64 defaultTcpKeepaliveSecs)
      LbConfig.tcpKeepaliveSecs
    |>.field "http2_only" (.orDefault .boolean defaultHttp2Only) LbConfig.http2Only)
    (fun _ => rfl) (by decide)

structure DependencyDetail where
  version : Option String := none
  git : Option String := none
  branch : Option String := none
  tag : Option String := none
  rev : Option String := none
  path : Option String := none
  registry : Option String := none
  deriving DecidableEq, Repr

def DependencyDetail.codec : Codec DependencyDetail :=
  .record (Record.make DependencyDetail.mk
    |>.field "version" (.optional .string) DependencyDetail.version
    |>.field "git" (.optional .string) DependencyDetail.git
    |>.field "branch" (.optional .string) DependencyDetail.branch
    |>.field "tag" (.optional .string) DependencyDetail.tag
    |>.field "rev" (.optional .string) DependencyDetail.rev
    |>.field "path" (.optional .string) DependencyDetail.path
    |>.field "registry" (.optional .string) DependencyDetail.registry)
    (fun _ => rfl) (by decide)

inductive Dependency where
  | simple (version : String)
  | detailed (detail : DependencyDetail)
  deriving DecidableEq, Repr

def Dependency.ofSum : String ⊕ DependencyDetail → Dependency
  | .inl version => .simple version
  | .inr detail => .detailed detail

def Dependency.toSum : Dependency → String ⊕ DependencyDetail
  | .simple version => .inl version
  | .detailed detail => .inr detail

/-- `#[serde(untagged)]`: a text is a version, anything else a table of the detail. -/
def Dependency.codec : Codec Dependency :=
  (Codec.untagged .string DependencyDetail.codec (fun _ => rfl)).iso ofSum toSum
    (fun dep => by cases dep <;> rfl)

structure Manifest where
  project : Project
  server : ServerConfig
  tracing : TracingConfig
  composition : CompositionConfig
  lb : Option LbConfig
  dependencies : Table Dependency
  devDependencies : Table Dependency

def Manifest.record : Record Manifest Manifest :=
  Record.make Manifest.mk
    |>.field "project" (.required Project.codec) Manifest.project
    |>.field "server" (.orDefault ServerConfig.codec .default) Manifest.server
    |>.field "tracing" (.orDefault TracingConfig.codec .default) Manifest.tracing
    |>.field "composition" (.orDefault CompositionConfig.codec .default) Manifest.composition
    |>.field "lb" (.optional LbConfig.codec) Manifest.lb
    |>.field "dependencies" (.orDefault (.map Dependency.codec) .empty) Manifest.dependencies
    |>.field "dev-dependencies" (.orDefault (.map Dependency.codec) .empty)
      Manifest.devDependencies

def Manifest.codec : Codec Manifest := .record Manifest.record (fun _ => rfl) (by decide)

/-! ## The builder's reading of the file -/

/-- `runtime/builder.rs` gives the defaults of its fields again. -/
def tomlDefaultAuto : Bool := true
def tomlDefaultPort : UInt16 := 3000
def tomlDefaultModulesDir : String := "modules" ++ "/"
def tomlDefaultExecutionTimeoutSecs : UInt64 := 30
def defaultMemoryLimitBytes : UInt64 := 128 * 1024 * 1024
def tomlDefaultMaxBodySizeMb : UInt64 := 10 * 1024 * 1024 / (1024 * 1024)
def defaultShutdownTimeoutSecs : UInt64 := 30

structure TomlServerConfig where
  auto : Bool
  port : UInt16
  modules : String
  userModules : Option String
  static : Option String
  cacheSize : UInt64
  maxCacheMb : UInt64
  executionTimeoutSecs : UInt64
  memoryLimitBytes : UInt64
  maxConcurrentRequests : UInt64
  maxBodySizeMb : UInt64
  maxPerModuleRequests : UInt64
  shutdownTimeoutSecs : UInt64
  logging : Bool
  httpAllowed : List String
  scripts : Option String
  deriving DecidableEq, Repr

/-- The derived `Default`: the default of each field's type. -/
def TomlServerConfig.default : TomlServerConfig where
  auto := false
  port := 0
  modules := ""
  userModules := none
  static := none
  cacheSize := 0
  maxCacheMb := 0
  executionTimeoutSecs := 0
  memoryLimitBytes := 0
  maxConcurrentRequests := 0
  maxBodySizeMb := 0
  maxPerModuleRequests := 0
  shutdownTimeoutSecs := 0
  logging := false
  httpAllowed := []
  scripts := none

def TomlServerConfig.record : Record TomlServerConfig TomlServerConfig :=
  Record.make TomlServerConfig.mk
    |>.field "auto" (.orDefault .boolean tomlDefaultAuto) TomlServerConfig.auto
    |>.field "port" (.orDefault .uint16 tomlDefaultPort) TomlServerConfig.port
    |>.field "modules" (.orDefault .string tomlDefaultModulesDir) TomlServerConfig.modules
    |>.field "user_modules" (.optional .string) TomlServerConfig.userModules
    |>.field "static" (.optional .string) TomlServerConfig.static
    |>.field "cache_size" (.orDefault .uint64 0) TomlServerConfig.cacheSize
    |>.field "max_cache_mb" (.orDefault .uint64 0) TomlServerConfig.maxCacheMb
    |>.field "execution_timeout_secs" (.orDefault .uint64 tomlDefaultExecutionTimeoutSecs)
      TomlServerConfig.executionTimeoutSecs
    |>.field "memory_limit_bytes" (.orDefault .uint64 defaultMemoryLimitBytes)
      TomlServerConfig.memoryLimitBytes
    |>.field "max_concurrent_requests" (.orDefault .uint64 0)
      TomlServerConfig.maxConcurrentRequests
    |>.field "max_body_size_mb" (.orDefault .uint64 tomlDefaultMaxBodySizeMb)
      TomlServerConfig.maxBodySizeMb
    |>.field "max_per_module_requests" (.orDefault .uint64 0)
      TomlServerConfig.maxPerModuleRequests
    |>.field "shutdown_timeout_secs" (.orDefault .uint64 defaultShutdownTimeoutSecs)
      TomlServerConfig.shutdownTimeoutSecs
    |>.field "logging" (.orDefault .boolean false) TomlServerConfig.logging
    |>.field "http_allowed" (.orDefault (.list .string) []) TomlServerConfig.httpAllowed
    |>.field "scripts" (.optional .string) TomlServerConfig.scripts

def TomlServerConfig.codec : Codec TomlServerConfig :=
  .record TomlServerConfig.record (fun _ => rfl) (by decide)

structure PartialManifest where
  server : TomlServerConfig
  deriving DecidableEq, Repr

def PartialManifest.codec : Codec PartialManifest :=
  .record (Record.make PartialManifest.mk
    |>.field "server" (.orDefault TomlServerConfig.codec .default) PartialManifest.server)
    (fun _ => rfl) (by decide)

/-! ## The scheduler's reading of the file -/

/-- `daemon/cron/types.rs`, as it is read from the file. -/
structure ScheduleConfig where
  name : String
  module : String
  cron : String
  method : String
  path : String
  enabled : Bool
  port : UInt16
  body : Option Toml
  headers : Option (Table String)
  healthPath : String

/-- Any value, kept as it is. -/
def anyValue : Codec Toml := ⟨some, id, fun _ => rfl⟩

def ScheduleConfig.codec : Codec ScheduleConfig :=
  .record (Record.make ScheduleConfig.mk
    |>.field "name" (.required .string) ScheduleConfig.name
    |>.field "module" (.required .string) ScheduleConfig.module
    |>.field "cron" (.required .string) ScheduleConfig.cron
    |>.field "method" (.orDefault .string "GET") ScheduleConfig.method
    |>.field "path" (.orDefault .string "/") ScheduleConfig.path
    |>.field "enabled" (.orDefault .boolean true) ScheduleConfig.enabled
    |>.field "port" (.orDefault .uint16 3000) ScheduleConfig.port
    |>.field "body" (.optional anyValue) ScheduleConfig.body
    |>.field "headers" (.optional (.map .string)) ScheduleConfig.headers
    |>.field "health_path" (.orDefault .string "/health") ScheduleConfig.healthPath)
    (fun _ => rfl) (by decide)

structure SchedulesManifest where
  schedules : List ScheduleConfig

def SchedulesManifest.codec : Codec SchedulesManifest :=
  .record (Record.make SchedulesManifest.mk
    |>.field "schedules" (.orDefault (.list ScheduleConfig.codec) []) SchedulesManifest.schedules)
    (fun _ => rfl) (by decide)

end Mik.Config
