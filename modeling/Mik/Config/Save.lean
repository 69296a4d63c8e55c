/-
  Rewriting `mik.toml`: `Manifest::load`, an edit of the dependency tables, `Manifest::save`
  (`commands/add.rs`, `manifest/mod.rs`), and what the three readers of the file find afterwards.

  The saved document holds the fields of `Manifest` and nothing else. `Manifest::load` reads back
  what was saved, if it validates. The builder finds every setting of the section written out
  (`partial_read_save`), and the scheduler finds no schedules (`schedules_read_save`).
-/
import Mik.Config.Loaders

namespace Mik.Config

open Mik.Lib

/-- An edit of one of the dependency tables. -/
inductive Edit where
  | insert (isDev : Bool) (name : String) (dep : Dependency)
  | remove (isDev : Bool) (name : String)

def Manifest.edit (m : Manifest) : Edit → Manifest
  | .insert true name dep => { m with devDependencies := m.devDependencies.insert name dep }
  | .insert false name dep => { m with dependencies := m.dependencies.insert name dep }
  | .remove true name => { m with devDependencies := m.devDependencies.remove name }
  | .remove false name => { m with dependencies := m.dependencies.remove name }

/-- `mik add` and `mik remove` make one edit for each package they are given. -/
def Manifest.editAll (m : Manifest) (edits : List Edit) : Manifest := edits.foldl Manifest.edit m

/-- The document that `Manifest::save` writes. -/
def Manifest.save (m : Manifest) : Toml := Manifest.codec.write m

/-- `parse_schedules_from_manifest`, for a file that holds the document `d`. -/
def parseSchedules (d : Toml) : Option (List ScheduleConfig) :=
  (SchedulesManifest.codec.read d).map SchedulesManifest.schedules

/-- After the edits are saved, every reader finds what it found before: `Manifest::load` the same
    manifest up to its dependency tables, the builder the same settings, and the scheduler the same
    schedules. -/
structure LosesNothing (env : Env) (doc : List (String × Toml)) (m : Manifest)
    (edits : List Edit) : Prop where
  manifest : Manifest.load env (m.editAll edits).save = .ok (m.editAll edits)
  settings : PartialManifest.codec.read (m.editAll edits).save =
    PartialManifest.codec.read (.table doc)
  schedules : parseSchedules (m.editAll edits).save = parseSchedules (.table doc)

/-- The document has no schedules to lose. -/
def NoSchedules (doc : List (String × Toml)) : Prop :=
  doc.lookup "schedules" = none ∨ doc.lookup "schedules" = some (.array [])

/-! ## What an edit keeps -/

theorem editAll_server (m : Manifest) (edits : List Edit) :
    (m.editAll edits).server = m.server := by
  unfold Manifest.editAll
  induction edits generalizing m with
  | nil => rfl
  | cons e edits ih =>
    rw [List.foldl_cons, ih]
    match e with
    | .insert true _ _ => rfl
    | .insert false _ _ => rfl
    | .remove true _ => rfl
    | .remove false _ => rfl

/-! ## What is found in a saved document -/

/-- What is loaded was read, and validates. -/
theorem load_ok_iff {env : Env} {d : Toml} {m : Manifest} :
    Manifest.load env d = .ok m ↔
      Manifest.codec.read d = some m ∧ m.validate env "mik.toml" = .ok () := by
  unfold Manifest.load Manifest.loadFrom
  constructor
  · intro h
    split at h
    · cases h
    · next m' hread =>
      cases hvalid : m'.validate env "mik.toml" with
      | error e =>
        rw [hvalid] at h
        cases h
      | ok u =>
        rw [hvalid] at h
        cases h
        exact ⟨hread, hvalid⟩
  · intro ⟨hread, hvalid⟩
    rw [hread]
    dsimp only
    rw [hvalid]
    rfl

theorem load_save_iff (env : Env) (m : Manifest) :
    Manifest.load env m.save = .ok m ↔ m.validate env "mik.toml" = .ok () := by
  rw [load_ok_iff, Manifest.save, Manifest.codec.read_write]
  exact ⟨fun h => h.2, fun h => ⟨rfl, h⟩⟩

/-- The section of a saved document, read by the builder. -/
theorem toml_read_server (s : ServerConfig) :
    TomlServerConfig.codec.read (ServerConfig.codec.write s) = some s.toToml := by
  have hs := ServerConfig.readFrom (ServerConfig.codec.read_write s)
  have hmem : (ServerConfig.codec.write s).field 8 "memory_limit_bytes" = none := by
    apply Toml.field_ofFields_of_notMem
    rw [ServerConfig.record.keys_write]
    decide
  refine TomlServerConfig.read_of_readFrom rfl (readFrom_toToml (placeFree_table _) hs ?_)
  rw [hmem]
  rfl

theorem save_eq (m : Manifest) : m.save = .ofFields (Manifest.record.write m) := rfl

theorem save_server (m : Manifest) :
    m.save.field 0 "server" = some (ServerConfig.codec.write m.server) := by
  have hnodup : ((Manifest.record.write m).map Prod.fst).Nodup := by
    rw [Manifest.record.keys_write]
    decide
  have hsecond : (Manifest.record.write m)[1]? =
      some ("server", some (ServerConfig.codec.write m.server)) := rfl
  rw [save_eq]
  exact Toml.field_ofFields hnodup hsecond 0

theorem partial_read_save (m : Manifest) :
    PartialManifest.codec.read m.save = some ⟨m.server.toToml⟩ := by
  refine Codec.read_record.mpr ⟨rfl, Record.read_field.mpr ⟨_, rfl, _, ?_, rfl⟩⟩
  show (FieldCodec.orDefault TomlServerConfig.codec .default).read (m.save.field 0 "server") = _
  rw [save_server, FieldCodec.read_orDefault_some, toml_read_server]

theorem save_schedules (m : Manifest) : m.save.field 0 "schedules" = none := by
  apply Toml.field_ofFields_of_notMem
  rw [Manifest.record.keys_write]
  decide

theorem parseSchedules_eq (d : Toml) (h : d.isRecord = true) :
    parseSchedules d =
      (FieldCodec.orDefault (.list ScheduleConfig.codec) []).read (d.field 0 "schedules") := by
  unfold parseSchedules
  cases hread : (FieldCodec.orDefault (.list ScheduleConfig.codec) []).read
    (d.field 0 "schedules") with
  | none =>
    cases hmanifest : SchedulesManifest.codec.read d with
    | none => rfl
    | some s =>
      obtain ⟨-, hs⟩ := Codec.read_record.mp hmanifest
      obtain ⟨g, -, a, ha, -⟩ := Record.read_field.mp hs
      cases hread.symm.trans ha
  | some schedules =>
    have hmanifest : SchedulesManifest.codec.read d = some ⟨schedules⟩ :=
      Codec.read_record.mpr ⟨h, Record.read_field.mpr ⟨_, rfl, _, hread, rfl⟩⟩
    rw [hmanifest]
    rfl

theorem parseSchedules_save (m : Manifest) : parseSchedules m.save = some [] := by
  rw [parseSchedules_eq _ rfl, save_schedules]
  rfl

theorem parseSchedules_nil_iff (doc : List (String × Toml)) :
    parseSchedules (.table doc) = some [] ↔ NoSchedules doc := by
  rw [parseSchedules_eq _ rfl]
  show (FieldCodec.orDefault (.list ScheduleConfig.codec) []).read (doc.lookup "schedules") = _ ↔ _
  unfold NoSchedules
  match doc.lookup "schedules" with
  | none => exact ⟨fun _ => Or.inl rfl, fun _ => rfl⟩
  | some (.array []) => exact ⟨fun _ => Or.inr rfl, fun _ => rfl⟩
  | some (.array (item :: items)) =>
    constructor
    · intro h
      have h' : (item :: items).mapM ScheduleConfig.codec.read = some [] := h
      rw [List.mapM_cons] at h'
      obtain ⟨a, -, hrest⟩ := Option.bind_eq_some_iff.mp h'
      obtain ⟨as, -, hcons⟩ := Option.bind_eq_some_iff.mp hrest
      cases hcons
    · rintro (h | h) <;> cases h
  | some (.table _) => exact ⟨fun h => (by cases h), fun h => (by rcases h with h | h <;> cases h)⟩
  | some (.boolean _) =>
    exact ⟨fun h => (by cases h), fun h => (by rcases h with h | h <;> cases h)⟩
  | some (.integer _) =>
    exact ⟨fun h => (by cases h), fun h => (by rcases h with h | h <;> cases h)⟩
  | some (.float _) => exact ⟨fun h => (by cases h), fun h => (by rcases h with h | h <;> cases h)⟩
  | some (.string _) =>
    exact ⟨fun h => (by cases h), fun h => (by rcases h with h | h <;> cases h)⟩
  | some (.datetime _) =>
    exact ⟨fun h => (by cases h), fun h => (by rcases h with h | h <;> cases h)⟩

/-- The builder finds the manifest's settings in the original file, as it does in the saved one,
    exactly when the file reads alike. -/
theorem partial_read_iff {doc : List (String × Toml)} {m : Manifest}
    (hm : Manifest.codec.read (.table doc) = some m) :
    PartialManifest.codec.read (.table doc) = some ⟨m.server.toToml⟩ ↔ ReadsAlike doc :=
  ⟨fun hp => readsAlike_of_agree hm hp rfl rfl rfl, partial_read_of_readsAlike hm⟩

/-- For every file that `Manifest::load` accepts and every edit of its dependencies, the text that
    is saved makes every reader of the file find the same values as before, up to the tables edited,
    exactly when the edited manifest still validates, the file has a `[server]` section that leaves
    the memory limit at its default, and no schedules. -/
theorem save_loses_nothing_iff (env : Env) (doc : List (String × Toml)) (m : Manifest)
    (edits : List Edit) (hload : Manifest.load env (.table doc) = .ok m) :
    LosesNothing env doc m edits ↔
      (m.editAll edits).validate env "mik.toml" = .ok () ∧ ReadsAlike doc ∧ NoSchedules doc := by
  have hm := (load_ok_iff.mp hload).1
  have hsettings : PartialManifest.codec.read (m.editAll edits).save =
      PartialManifest.codec.read (.table doc) ↔ ReadsAlike doc := by
    rw [partial_read_save, editAll_server, eq_comm]
    exact partial_read_iff hm
  have hschedules : parseSchedules (m.editAll edits).save = parseSchedules (.table doc) ↔
      NoSchedules doc := by
    rw [parseSchedules_save, eq_comm]
    exact parseSchedules_nil_iff doc
  rw [← load_save_iff, ← hsettings, ← hschedules]
  exact ⟨fun h => ⟨h.manifest, h.settings, h.schedules⟩, fun h => ⟨h.1, h.2.1, h.2.2⟩⟩

/-- A file with a `[server]` section and no schedules survives the removal of a dependency. -/
theorem removal_loses_nothing :
    LosesNothing ⟨fun version => version == "0.1.0", fun _ => none, fun _ => false, fun _ => false⟩
      [("project", .table [("name", .string "app")]), ("server", .table [])]
      ⟨⟨"app", "0.1.0", none, [], none⟩, .default, .default, .default, none, .empty, .empty⟩
      [.remove false "router"] :=
  (save_loses_nothing_iff _ _ _ _ (by rfl)).mpr ⟨(by rfl), Or.inl rfl, Or.inl rfl⟩

/-- A schedule in the file is gone after any edit. -/
theorem schedule_lost :
    ¬ ∀ (env : Env) (doc : List (String × Toml)) (m : Manifest) (edits : List Edit),
      Manifest.load env (.table doc) = .ok m → LosesNothing env doc m edits := by
  intro h
  have hkept := (h
    ⟨fun version => version == "0.1.0", fun _ => none, fun _ => false, fun _ => false⟩
    [("project", .table [("name", .string "app")]), ("server", .table []),
      ("schedules", .array [.table [("name", .string "cleanup"),
        ("module", .string "modules/cleanup.wasm"), ("cron", .string "0 0 0 * * * *")]])]
    ⟨⟨"app", "0.1.0", none, [], none⟩, .default, .default, .default, none, .empty, .empty⟩
    [.remove false "router"] (by rfl)).schedules
  rw [parseSchedules_save] at hkept
  rcases (parseSchedules_nil_iff _).mp hkept.symm with hnone | hempty
  · cases hnone
  · cases hempty

end Mik.Config
