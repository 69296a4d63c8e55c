/-
  The two ways from `mik.toml` to the host compared: the builder's own reading of the file, and the
  `Manifest` read from it.

  The two records read the fields they share under the same names and with the same defaults, so a
  `[server]` table gives them the same values. They differ in three places: the builder's record
  has `memory_limit_bytes`, its derived `Default` stands for a missing section, and its fields come
  in another order, which shows when the section is written as an array.
-/
import Mik.Config.Builder

namespace Mik.Config

open Mik.Lib

/-- The `[server]` section from which both loaders read the same settings: it is there, and leaves
    the memory limit at its default. Written as an array it stops before the fields whose places
    differ. -/
def ReadsAlike (doc : List (String × Toml)) : Prop :=
  match doc.lookup "server" with
  | some (.table section_) =>
    section_.lookup "memory_limit_bytes" = none ∨
      section_.lookup "memory_limit_bytes" = some (.integer 134217728)
  | some (.array items) => items.length ≤ 4
  | _ => False

/-- Both loaders build the host's configuration, and it is the same. -/
def SameHost (o : Overflow) (sys : System) (p : PartialManifest) (m : Manifest) : Prop :=
  ∃ c, applyManifestServerConfig o sys p.server = some c ∧ fromManifest o sys m = some c

/-! ## What a reading of a section says -/

/-- The fields of a section as the builder's record reads them. -/
structure TomlServerConfig.ReadFrom (v : Toml) (s : TomlServerConfig) : Prop where
  auto : (FieldCodec.orDefault .boolean tomlDefaultAuto).read (v.field 0 "auto") = some s.auto
  port : (FieldCodec.orDefault .uint16 tomlDefaultPort).read (v.field 1 "port") = some s.port
  modules : (FieldCodec.orDefault .string tomlDefaultModulesDir).read (v.field 2 "modules") =
    some s.modules
  userModules : (FieldCodec.optional .string).read (v.field 3 "user_modules") = some s.userModules
  static : (FieldCodec.optional .string).read (v.field 4 "static") = some s.static
  cacheSize : (FieldCodec.orDefault .uint64 0).read (v.field 5 "cache_size") = some s.cacheSize
  maxCacheMb : (FieldCodec.orDefault .uint64 0).read (v.field 6 "max_cache_mb") = some s.maxCacheMb
  executionTimeoutSecs : (FieldCodec.orDefault .uint64 tomlDefaultExecutionTimeoutSecs).read
    (v.field 7 "execution_timeout_secs") = some s.executionTimeoutSecs
  memoryLimitBytes : (FieldCodec.orDefault .uint64 defaultMemoryLimitBytes).read
    (v.field 8 "memory_limit_bytes") = some s.memoryLimitBytes
  maxConcurrentRequests : (FieldCodec.orDefault .uint64 0).read
    (v.field 9 "max_concurrent_requests") = some s.maxConcurrentRequests
  maxBodySizeMb : (FieldCodec.orDefault .uint64 tomlDefaultMaxBodySizeMb).read
    (v.field 10 "max_body_size_mb") = some s.maxBodySizeMb
  maxPerModuleRequests : (FieldCodec.orDefault .uint64 0).read
    (v.field 11 "max_per_module_requests") = some s.maxPerModuleRequests
  shutdownTimeoutSecs : (FieldCodec.orDefault .uint64 defaultShutdownTimeoutSecs).read
    (v.field 12 "shutdown_timeout_secs") = some s.shutdownTimeoutSecs
  logging : (FieldCodec.orDefault .boolean false).read (v.field 13 "logging") = some s.logging
  httpAllowed : (FieldCodec.orDefault (.list .string) []).read (v.field 14 "http_allowed") =
    some s.httpAllowed
  scripts : (FieldCodec.optional .string).read (v.field 15 "scripts") = some s.scripts

theorem TomlServerConfig.readFrom {v : Toml} {s : TomlServerConfig}
    (h : TomlServerConfig.codec.read v = some s) : s.ReadFrom v := by
  obtain ⟨-, h⟩ := Codec.read_record.mp h
  obtain ⟨_, h, _, h15, e15⟩ := Record.read_field.mp h
  obtain ⟨_, h, _, h14, e14⟩ := Record.read_field.mp h
  obtain ⟨_, h, _, h13, e13⟩ := Record.read_field.mp h
  obtain ⟨_, h, _, h12, e12⟩ := Record.read_field.mp h
  obtain ⟨_, h, _, h11, e11⟩ := Record.read_field.mp h
  obtain ⟨_, h, _, h10, e10⟩ := Record.read_field.mp h
  obtain ⟨_, h, _, h9, e9⟩ := Record.read_field.mp h
  obtain ⟨_, h, _, h8, e8⟩ := Record.read_field.mp h
  obtain ⟨_, h, _, h7, e7⟩ := Record.read_field.mp h
  obtain ⟨_, h, _, h6, e6⟩ := Record.read_field.mp h
  obtain ⟨_, h, _, h5, e5⟩ := Record.read_field.mp h
  obtain ⟨_, h, _, h4, e4⟩ := Record.read_field.mp h
  obtain ⟨_, h, _, h3, e3⟩ := Record.read_field.mp h
  obtain ⟨_, h, _, h2, e2⟩ := Record.read_field.mp h
  obtain ⟨_, h, _, h1, e1⟩ := Record.read_field.mp h
  obtain ⟨_, h, _, h0, e0⟩ := Record.read_field.mp h
  have hmake := Option.some.inj h
  subst hmake e0 e1 e2 e3 e4 e5 e6 e7 e8 e9 e10 e11 e12 e13 e14 e15
  exact ⟨h0, h1, h2, h3, h4, h5, h6, h7, h8, h9, h10, h11, h12, h13, h14, h15⟩

/-- A record with such fields is what is read. -/
theorem TomlServerConfig.read_of_readFrom {v : Toml} {s : TomlServerConfig}
    (hrec : v.isRecord = true) (h : s.ReadFrom v) : TomlServerConfig.codec.read v = some s := by
  refine Codec.read_record.mpr ⟨hrec, ?_⟩
  -- from the last field to the first, so that each place in the record is known
  show Record.Reads _ v (TomlServerConfig.mk s.auto s.port s.modules s.userModules s.static
    s.cacheSize s.maxCacheMb s.executionTimeoutSecs s.memoryLimitBytes s.maxConcurrentRequests
    s.maxBodySizeMb s.maxPerModuleRequests s.shutdownTimeoutSecs s.logging s.httpAllowed s.scripts)
  refine Record.Reads.field ?_ h.scripts
  refine Record.Reads.field ?_ h.httpAllowed
  refine Record.Reads.field ?_ h.logging
  refine Record.Reads.field ?_ h.shutdownTimeoutSecs
  refine Record.Reads.field ?_ h.maxPerModuleRequests
  refine Record.Reads.field ?_ h.maxBodySizeMb
  refine Record.Reads.field ?_ h.maxConcurrentRequests
  refine Record.Reads.field ?_ h.memoryLimitBytes
  refine Record.Reads.field ?_ h.executionTimeoutSecs
  refine Record.Reads.field ?_ h.maxCacheMb
  refine Record.Reads.field ?_ h.cacheSize
  refine Record.Reads.field ?_ h.static
  refine Record.Reads.field ?_ h.userModules
  refine Record.Reads.field ?_ h.modules
  refine Record.Reads.field ?_ h.port
  refine Record.Reads.field ?_ h.auto
  exact Record.reads_make TomlServerConfig.mk v

/-- The fields that the builder uses, as the manifest's record reads them. -/
structure ServerConfig.ReadFrom (v : Toml) (s : ServerConfig) : Prop where
  auto : (FieldCodec.orDefault .boolean defaultAuto).read (v.field 0 "auto") = some s.auto
  port : (FieldCodec.orDefault .uint16 defaultPort).read (v.field 1 "port") = some s.port
  modules : (FieldCodec.orDefault .string defaultModulesDir).read (v.field 2 "modules") =
    some s.modules
  userModules : (FieldCodec.optional .string).read (v.field 3 "user_modules") = some s.userModules
  scripts : (FieldCodec.optional .string).read (v.field 4 "scripts") = some s.scripts
  static : (FieldCodec.optional .string).read (v.field 5 "static") = some s.static
  cacheSize : (FieldCodec.orDefault .uint64 0).read (v.field 6 "cache_size") = some s.cacheSize
  maxCacheMb : (FieldCodec.orDefault .uint64 0).read (v.field 7 "max_cache_mb") = some s.maxCacheMb
  maxBodySizeMb : (FieldCodec.orDefault .uint64 defaultMaxBodySizeMb).read
    (v.field 8 "max_body_size_mb") = some s.maxBodySizeMb
  executionTimeoutSecs : (FieldCodec.orDefault .uint64 defaultExecutionTimeout).read
    (v.field 9 "execution_timeout_secs") = some s.executionTimeoutSecs
  maxConcurrentRequests : (FieldCodec.orDefault .uint64 0).read
    (v.field 10 "max_concurrent_requests") = some s.maxConcurrentRequests
  maxPerModuleRequests : (FieldCodec.orDefault .uint64 0).read
    (v.field 11 "max_per_module_requests") = some s.maxPerModuleRequests
  shutdownTimeoutSecs : (FieldCodec.orDefault .uint64 defaultShutdownTimeout).read
    (v.field 12 "shutdown_timeout_secs") = some s.shutdownTimeoutSecs
  logging : (FieldCodec.orDefault .boolean false).read (v.field 16 "logging") = some s.logging
  httpAllowed : (FieldCodec.orDefault (.list .string) []).read (v.field 17 "http_allowed") =
    some s.httpAllowed

theorem ServerConfig.readFrom {v : Toml} {s : ServerConfig}
    (h : ServerConfig.codec.read v = some s) : s.ReadFrom v := by
  obtain ⟨-, h⟩ := Codec.read_record.mp h
  obtain ⟨_, h, _, h17, e17⟩ := Record.read_field.mp h
  obtain ⟨_, h, _, h16, e16⟩ := Record.read_field.mp h
  obtain ⟨_, h, _, -, e15⟩ := Record.read_field.mp h
  obtain ⟨_, h, _, -, e14⟩ := Record.read_field.mp h
  obtain ⟨_, h, _, -, e13⟩ := Record.read_field.mp h
  obtain ⟨_, h, _, h12, e12⟩ := Record.read_field.mp h
  obtain ⟨_, h, _, h11, e11⟩ := Record.read_field.mp h
  obtain ⟨_, h, _, h10, e10⟩ := Record.read_field.mp h
  obtain ⟨_, h, _, h9, e9⟩ := Record.read_field.mp h
  obtain ⟨_, h, _, h8, e8⟩ := Record.read_field.mp h
  obtain ⟨_, h, _, h7, e7⟩ := Record.read_field.mp h
  obtain ⟨_, h, _, h6, e6⟩ := Record.read_field.mp h
  obtain ⟨_, h, _, h5, e5⟩ := Record.read_field.mp h
  obtain ⟨_, h, _, h4, e4⟩ := Record.read_field.mp h
  obtain ⟨_, h, _, h3, e3⟩ := Record.read_field.mp h
  obtain ⟨_, h, _, h2, e2⟩ := Record.read_field.mp h
  obtain ⟨_, h, _, h1, e1⟩ := Record.read_field.mp h
  obtain ⟨_, h, _, h0, e0⟩ := Record.read_field.mp h
  have hmake := Option.some.inj h
  subst hmake e0 e1 e2 e3 e4 e5 e6 e7 e8 e9 e10 e11 e12 e13 e14 e15 e16 e17
  exact ⟨h0, h1, h2, h3, h4, h5, h6, h7, h8, h9, h10, h11, h12, h16, h17⟩

/-! ## Sections that read alike -/

/-- From the fifth field on the place of a field does not matter. -/
def PlaceFree (v : Toml) : Prop :=
  ∀ i j key, 4 ≤ i → 4 ≤ j → v.field i key = v.field j key

theorem placeFree_table (entries : List (String × Toml)) : PlaceFree (.table entries) :=
  fun _ _ _ _ _ => rfl

theorem placeFree_array {items : List Toml} (h : items.length ≤ 4) : PlaceFree (.array items) := by
  intro i j key hi hj
  show items[i]? = items[j]?
  rw [List.getElem?_eq_none (by omega), List.getElem?_eq_none (by omega)]

/-- The builder's record of the same settings, with the memory limit at its default. -/
def ServerConfig.toToml (s : ServerConfig) : TomlServerConfig where
  auto := s.auto
  port := s.port
  modules := s.modules
  userModules := s.userModules
  static := s.static
  cacheSize := s.cacheSize
  maxCacheMb := s.maxCacheMb
  executionTimeoutSecs := s.executionTimeoutSecs
  memoryLimitBytes := defaultMemoryLimitBytes
  maxConcurrentRequests := s.maxConcurrentRequests
  maxBodySizeMb := s.maxBodySizeMb
  maxPerModuleRequests := s.maxPerModuleRequests
  shutdownTimeoutSecs := s.shutdownTimeoutSecs
  logging := s.logging
  httpAllowed := s.httpAllowed
  scripts := s.scripts

/-- The field stands at its place, or at another one where that does not matter. -/
theorem PlaceFree.move {v : Toml} (h : PlaceFree v) {α : Type} {f : FieldCodec α} {i : Nat}
    (j : Nat) {key : String} {a : α} (hi : 4 ≤ i) (hj : 4 ≤ j)
    (hread : f.read (v.field i key) = some a) :
    f.read (v.field j key) = some a := by
  rw [h j i key hj hi]
  exact hread

/-- From such a section, with the memory limit at its default, the builder's record reads the same
    settings as the manifest's. -/
theorem readFrom_toToml {v : Toml} {s : ServerConfig} (h : PlaceFree v) (hs : s.ReadFrom v)
    (hmem : (FieldCodec.orDefault .uint64 defaultMemoryLimitBytes).read
      (v.field 8 "memory_limit_bytes") = some defaultMemoryLimitBytes) :
    s.toToml.ReadFrom v where
  auto := hs.auto
  port := hs.port
  modules := hs.modules
  userModules := hs.userModules
  static := h.move 4 (by decide) (by decide) hs.static
  cacheSize := h.move 5 (by decide) (by decide) hs.cacheSize
  maxCacheMb := h.move 6 (by decide) (by decide) hs.maxCacheMb
  executionTimeoutSecs := h.move 7 (by decide) (by decide) hs.executionTimeoutSecs
  memoryLimitBytes := hmem
  maxConcurrentRequests := h.move 9 (by decide) (by decide) hs.maxConcurrentRequests
  maxBodySizeMb := h.move 10 (by decide) (by decide) hs.maxBodySizeMb
  maxPerModuleRequests := hs.maxPerModuleRequests
  shutdownTimeoutSecs := hs.shutdownTimeoutSecs
  logging := h.move 13 (by decide) (by decide) hs.logging
  httpAllowed := h.move 14 (by decide) (by decide) hs.httpAllowed
  scripts := h.move 15 (by decide) (by decide) hs.scripts

/-- The memory limit reads as its default when it is absent, or written as just that. -/
theorem memoryLimit_default_iff {w : Option Toml} :
    (FieldCodec.orDefault .uint64 defaultMemoryLimitBytes).read w = some defaultMemoryLimitBytes ↔
      w = none ∨ w = some (.integer 134217728) := by
  constructor
  · intro hread
    match w with
    | none => exact Or.inl rfl
    | some (.integer n) =>
      have hn : (if 0 ≤ n ∧ n.toNat < UInt64.size then some (UInt64.ofNat n.toNat) else none) =
        some defaultMemoryLimitBytes := hread
      split at hn
      · next hrange =>
        have hval := congrArg UInt64.toNat (Option.some.inj hn)
        rw [toNat_ofNat_of_lt hrange.2] at hval
        have hn' : n.toNat = 134217728 := hval
        have hnum : n = 134217728 := by omega
        rw [hnum]
        exact Or.inr rfl
      · cases hn
  · rintro (rfl | rfl)
    · rfl
    · rfl

/-! ## The loaders compared -/

section

variable {doc : List (String × Toml)} {m : Manifest} {p : PartialManifest}

theorem Manifest.server_read (h : Manifest.codec.read (.table doc) = some m) :
    (FieldCodec.orDefault ServerConfig.codec .default).read (doc.lookup "server") =
      some m.server := by
  obtain ⟨-, h⟩ := Codec.read_record.mp h
  obtain ⟨_, h, _, -, e6⟩ := Record.read_field.mp h
  obtain ⟨_, h, _, -, e5⟩ := Record.read_field.mp h
  obtain ⟨_, h, _, -, e4⟩ := Record.read_field.mp h
  obtain ⟨_, h, _, -, e3⟩ := Record.read_field.mp h
  obtain ⟨_, h, _, -, e2⟩ := Record.read_field.mp h
  obtain ⟨_, h, _, hserver, e1⟩ := Record.read_field.mp h
  obtain ⟨_, h, _, -, e0⟩ := Record.read_field.mp h
  have hmake := Option.some.inj h
  subst hmake e0 e1 e2 e3 e4 e5 e6
  exact hserver

theorem PartialManifest.read_iff :
    PartialManifest.codec.read (.table doc) = some p ↔
      (FieldCodec.orDefault TomlServerConfig.codec .default).read (doc.lookup "server") =
        some p.server := by
  constructor
  · intro h
    obtain ⟨-, h⟩ := Codec.read_record.mp h
    obtain ⟨_, h, _, hserver, e0⟩ := Record.read_field.mp h
    have hmake := Option.some.inj h
    subst hmake e0
    exact hserver
  · intro h
    exact Codec.read_record.mpr ⟨rfl, Record.read_field.mpr ⟨_, rfl, _, h, rfl⟩⟩

/-- From a file that reads alike the builder's record is that of the manifest's settings. -/
theorem partial_read_of_readsAlike (hm : Manifest.codec.read (.table doc) = some m)
    (h : ReadsAlike doc) : PartialManifest.codec.read (.table doc) = some ⟨m.server.toToml⟩ := by
  have hms := Manifest.server_read hm
  rw [PartialManifest.read_iff]
  unfold ReadsAlike at h
  match hserver : doc.lookup "server" with
  | none => simp [hserver] at h
  | some (.table entries) =>
    rw [hserver] at h hms
    have hs : m.server.ReadFrom (.table entries) := ServerConfig.readFrom hms
    exact TomlServerConfig.read_of_readFrom rfl
      (readFrom_toToml (placeFree_table entries) hs (memoryLimit_default_iff.mpr h))
  | some (.array items) =>
    rw [hserver] at h hms
    have hs : m.server.ReadFrom (.array items) := ServerConfig.readFrom hms
    have hlen : items.length ≤ 4 := h
    have hmem : items[8]? = none := List.getElem?_eq_none (by omega)
    exact TomlServerConfig.read_of_readFrom rfl
      (readFrom_toToml (placeFree_array hlen) hs (memoryLimit_default_iff.mpr (Or.inl hmem)))
  | some (.boolean _) => simp [hserver] at h
  | some (.integer _) => simp [hserver] at h
  | some (.float _) => simp [hserver] at h
  | some (.string _) => simp [hserver] at h
  | some (.datetime _) => simp [hserver] at h

/-- The fifth value of an array is the directory of static files for one record and that of scripts
    for the other; a sixth value fits one of them only. -/
theorem static_ne_of_array {items : List Toml} {t : TomlServerConfig} {s : ServerConfig}
    (hlen : 4 < items.length) (ht : t.ReadFrom (.array items)) (hs : s.ReadFrom (.array items)) :
    t.static ≠ s.static := by
  have ht4 : (FieldCodec.optional .string).read items[4]? = some t.static := ht.static
  have hs5 : (FieldCodec.optional .string).read items[5]? = some s.static := hs.static
  have ht5 : (FieldCodec.orDefault .uint64 0).read items[5]? = some t.cacheSize := ht.cacheSize
  by_cases hlen' : items.length = 5
  · rw [List.getElem?_eq_none (by omega)] at hs5
    have hnone : s.static = none := (Option.some.inj hs5).symm
    rw [List.getElem?_eq_getElem hlen] at ht4
    obtain ⟨text, -, htext⟩ := Option.map_eq_some_iff.mp ht4
    rw [← htext, hnone]
    exact Option.some_ne_none text
  · have hlt : 5 < items.length := by omega
    rw [List.getElem?_eq_getElem hlt] at hs5 ht5
    obtain ⟨text, hread, -⟩ := Option.map_eq_some_iff.mp hs5
    have hread' : Codec.uint64.read items[5] = some t.cacheSize := ht5
    cases hitem : items[5] <;> rw [hitem] at hread hread' <;> first | cases hread' | cases hread

/-- Records that agree on the port and on the static files, with the memory limit at its default,
    come from a file that reads alike: a missing section shows in the port, a long array in the
    static files. -/
theorem readsAlike_of_agree (hm : Manifest.codec.read (.table doc) = some m)
    (hp : PartialManifest.codec.read (.table doc) = some p)
    (hport : p.server.port = m.server.port) (hstatic : p.server.static = m.server.static)
    (hmem : p.server.memoryLimitBytes = defaultMemoryLimitBytes) : ReadsAlike doc := by
  have hms := Manifest.server_read hm
  have hps := PartialManifest.read_iff.mp hp
  unfold ReadsAlike
  cases hserver : doc.lookup "server" with
  | none =>
    rw [hserver] at hms hps
    rw [← Option.some.inj hps, ← Option.some.inj hms] at hport
    exact absurd hport (by decide)
  | some v =>
    rw [hserver] at hms hps
    have hs := ServerConfig.readFrom hms
    have ht := TomlServerConfig.readFrom hps
    cases v with
    | table entries =>
      have hlimit := ht.memoryLimitBytes
      rw [hmem] at hlimit
      exact memoryLimit_default_iff.mp hlimit
    | array items =>
      by_contra hlen
      exact static_ne_of_array (Nat.lt_of_not_le hlen) ht hs hstatic
    | boolean b => cases hms
    | integer n => cases hms
    | float text => cases hms
    | string text => cases hms
    | datetime text => cases hms

end

/-- For every file that both records read, the two loaders build the same host configuration, field
    by field, exactly when the file has a `[server]` section that leaves the memory limit at its
    default (and, written as an array, has at most four values), and, in a build that checks, no
    size overflows. -/
theorem loaders_agree_iff (o : Overflow) (sys : System) (doc : List (String × Toml)) (m : Manifest)
    (p : PartialManifest) (hm : Manifest.codec.read (.table doc) = some m)
    (hp : PartialManifest.codec.read (.table doc) = some p) :
    SameHost o sys p m ↔ ReadsAlike doc ∧ (o = .panics → NoOverflow sys m.server.fields) := by
  constructor
  · rintro ⟨c, hcp, hcm⟩
    obtain ⟨hmemp, hportp, hstaticp⟩ := hostConfigOf_taken hcp
    obtain ⟨hmemm, hportm, hstaticm⟩ := hostConfigOf_taken hcm
    refine ⟨readsAlike_of_agree hm hp ?_ ?_ ?_, hostConfigOf_isSome_iff.mp ⟨c, hcm⟩⟩
    · exact hportp.symm.trans hportm
    · exact hstaticp.symm.trans hstaticm
    · exact hmemp.symm.trans hmemm
  · rintro ⟨halike, hno⟩
    have hp' : p = ⟨m.server.toToml⟩ :=
      Option.some.inj (hp.symm.trans (partial_read_of_readsAlike hm halike))
    obtain ⟨c, hc⟩ := hostConfigOf_isSome_iff.mpr hno
    rw [hp']
    exact ⟨c, hc, hc⟩

/-- A section that sets only the port gives both loaders the same host. -/
theorem loaders_agree_on_port :
    SameHost .panics ⟨8000000000, some 8⟩
      ⟨{ auto := true, port := 8080, modules := "modules/", userModules := none, static := none,
         cacheSize := 0, maxCacheMb := 0, executionTimeoutSecs := 30,
         memoryLimitBytes := 134217728, maxConcurrentRequests := 0, maxBodySizeMb := 10,
         maxPerModuleRequests := 0, shutdownTimeoutSecs := 30, logging := false,
         httpAllowed := [], scripts := none }⟩
      ⟨⟨"app", "0.1.0", none, [], none⟩, { ServerConfig.default with port := 8080 }, .default,
        .default, none, .empty, .empty⟩ :=
  (loaders_agree_iff .panics ⟨8000000000, some 8⟩
    [("project", .table [("name", .string "app")]),
      ("server", .table [("port", .integer 8080)])] _ _ (by rfl) (by rfl)).mpr
    ⟨Or.inl rfl, fun _ => ⟨fun _ => (by decide), (by decide), (by decide)⟩⟩

/-- A file without a `[server]` section. -/
theorem missing_section_disagrees :
    ¬ ∃ o, ∀ (sys : System) (doc : List (String × Toml)) (m : Manifest) (p : PartialManifest),
      Manifest.codec.read (.table doc) = some m → PartialManifest.codec.read (.table doc) = some p →
        SameHost o sys p m := by
  rintro ⟨o, h⟩
  have hsame := h ⟨8000000000, some 8⟩ [("project", .table [("name", .string "app")])]
    ⟨⟨"app", "0.1.0", none, [], none⟩, .default, .default, .default, none, .empty, .empty⟩
    ⟨.default⟩ (by rfl) (by rfl)
  obtain ⟨c, hcp, hcm⟩ := hsame
  obtain ⟨-, hportp, -⟩ := hostConfigOf_taken hcp
  obtain ⟨-, hportm, -⟩ := hostConfigOf_taken hcm
  exact absurd (hportp.symm.trans hportm) (by decide)

end Mik.Config
