/-
  Aggregation of the handlers' OpenAPI documents (`src/runtime/gateway/openapi.rs`).

  `aggregateSpecs` merges the documents of all handlers into one: a path goes under the route of
  its handler, a schema under the handler's name, an underscore and its own name, and the
  references to schemas are rewritten along with it. Every insertion replaces what stands under
  the same key.

  Routes are apart, since the name of a handler is a file stem and has no slash, up to a path that
  is written without its leading one. Schema keys are not: handler `a` with a schema `b_C` and
  handler `a_b` with a schema `C` share a key. This and the missing slash are the only ways to
  lose something (`aggregation_faithful_iff`).
-/
import Mik.Lib.Json

namespace Mik.Gateway

open Mik.Lib

/-! ## The aggregation -/

/-- The schema that a field refers to. -/
def schemaRef (key : String) : Json → Option String
  | .str text => if key = "$ref" then stripPrefix "#/components/schemas/" text else none
  | _ => none

mutual

/-- `update_schema_refs`. The keys stay as they are, so the new map has the same order. -/
def updateSchemaRefs (handlerName : String) : Json → Json
  | .obj fields => .obj (updateFields handlerName fields)
  | .arr items => .arr (updateItems handlerName items)
  | value => value
termination_by structural value => value

def updateItems (handlerName : String) : List Json → List Json
  | [] => []
  | item :: rest => updateSchemaRefs handlerName item :: updateItems handlerName rest
termination_by structural items => items

def updateFields (handlerName : String) : List (String × Json) → List (String × Json)
  | [] => []
  | field :: rest => updateField handlerName field :: updateFields handlerName rest
termination_by structural fields => fields

def updateField (handlerName : String) : String × Json → String × Json
  | (key, value) =>
    match schemaRef key value with
    | some schemaName =>
      (key, .str ("#/components/schemas/" ++ handlerName ++ "_" ++ schemaName))
    | none => (key, updateSchemaRefs handlerName value)
termination_by structural field => field

end

/-- The path, with the slash it must start with. -/
def normalizedPath (path : String) : String :=
  if startsWith "/" path then path else "/" ++ path

def fullPath (routePrefix handlerName path : String) : String :=
  routePrefix ++ "/" ++ handlerName ++ normalizedPath path

def mergePaths (aggregated handlerPaths : List (String × Json)) (handlerName routePrefix : String) :
    List (String × Json) :=
  handlerPaths.foldl (fun aggregated entry =>
    insertField (fullPath routePrefix handlerName entry.1) (updateSchemaRefs handlerName entry.2)
      aggregated) aggregated

def prefixedName (handlerName schemaName : String) : String := handlerName ++ "_" ++ schemaName

def mergeSchemas (aggregated handlerSchemas : List (String × Json)) (handlerName : String) :
    List (String × Json) :=
  handlerSchemas.foldl (fun aggregated entry =>
    insertField (prefixedName handlerName entry.1) (updateSchemaRefs handlerName entry.2)
      aggregated) aggregated

/-- The paths of a document; none if there is no such object. -/
def specPaths (spec : Json) : List (String × Json) :=
  ((spec.get "paths").map Json.fields).getD []

def specSchemas (spec : Json) : List (String × Json) :=
  (((spec.get "components").bind (Json.get "schemas")).map Json.fields).getD []

structure Merged where
  paths : List (String × Json)
  schemas : List (String × Json)

def Merged.add (routePrefix : String) (merged : Merged) (spec : String × Json) : Merged where
  paths := mergePaths merged.paths (specPaths spec.2) spec.1 routePrefix
  schemas := mergeSchemas merged.schemas (specSchemas spec.2) spec.1

def aggregateSpecs (title : String) (specs : List (String × Json)) (routePrefix : String) : Json :=
  let merged := specs.foldl (Merged.add routePrefix) ⟨[], []⟩
  .obj [("components", .obj [("schemas", .obj merged.schemas)]),
    ("info", .obj [("title", .str title), ("version", .str "1.0.0")]),
    ("openapi", .str "3.0.3"),
    ("paths", .obj merged.paths)]

/-! ## Handlers -/

/-- A discovered module with its document: the name is the stem of a file, the document what
    `serde_json` parses. -/
structure Handler where
  name : String
  spec : Json
  noSlash : '/' ∉ name.toList
  canonical : spec.Canonical

namespace Handler

def paths (h : Handler) : List (String × Json) := specPaths h.spec

def schemas (h : Handler) : List (String × Json) := specSchemas h.spec

def HasPath (h : Handler) (path : String) : Prop := ∃ item, (path, item) ∈ h.paths

def HasSchema (h : Handler) (name : String) : Prop := ∃ schema, (name, schema) ∈ h.schemas

/-- The values that are carried over: path items and schemas. -/
def parts (h : Handler) : List Json := h.paths.map Prod.snd ++ h.schemas.map Prod.snd

end Handler

def aggregate (title : String) (handlers : List Handler) (routePrefix : String) : Json :=
  aggregateSpecs title (handlers.map fun h => (h.name, h.spec)) routePrefix

/-- The entry of the aggregate under a path, and under the name of a schema. -/
def pathAt (doc : Json) (path : String) : Option Json := (doc.get "paths").bind (Json.get path)

def schemaAt (doc : Json) (name : String) : Option Json :=
  ((doc.get "components").bind (Json.get "schemas")).bind (Json.get name)

def rewriteRef (handlerName ref : String) : String :=
  match stripPrefix "#/components/schemas/" ref with
  | some schemaName => "#/components/schemas/" ++ handlerName ++ "_" ++ schemaName
  | none => ref

/-! ## What the rewriting keeps -/

theorem updateItems_eq (handlerName : String) (items : List Json) :
    updateItems handlerName items = items.map (updateSchemaRefs handlerName) := by
  induction items with
  | nil => rfl
  | cons item rest ih => rw [updateItems, ih, List.map_cons]

theorem updateFields_eq (handlerName : String) (fields : List (String × Json)) :
    updateFields handlerName fields = fields.map (updateField handlerName) := by
  induction fields with
  | nil => rfl
  | cons field rest ih => rw [updateFields, ih, List.map_cons]

theorem updateField_fst (handlerName : String) (field : String × Json) :
    (updateField handlerName field).1 = field.1 := by
  obtain ⟨key, value⟩ := field
  rw [updateField]
  split <;> rfl

/-- A value that is not a text is not a reference. -/
theorem schemaRef_eq_none {value : Json} (h : ∀ text, value ≠ .str text) (key : String) :
    schemaRef key value = none := by
  cases value with
  | str text => exact absurd rfl (h text)
  | null | bool _ | num _ | arr _ | obj _ => rfl

theorem updateField_of_not_str {value : Json} (h : ∀ text, value ≠ .str text)
    (handlerName key : String) :
    updateField handlerName (key, value) = (key, updateSchemaRefs handlerName value) := by
  rw [updateField, schemaRef_eq_none h]

theorem lookup_updateFields (handlerName key : String) (fields : List (String × Json)) :
    (updateFields handlerName fields).lookup key =
      (fields.lookup key).map fun value => (updateField handlerName (key, value)).2 := by
  induction fields with
  | nil => rfl
  | cons field rest ih =>
    rw [updateFields, lookup_cons_if, lookup_cons_if, updateField_fst, ih]
    by_cases hkey : key = field.1
    · subst hkey
      rw [if_pos rfl, if_pos rfl]
      rfl
    · rw [if_neg hkey, if_neg hkey]

/-- The rewritten value has the same members, so an operation of a path item stays one. -/
theorem keys_updateSchemaRefs (handlerName : String) (value : Json) :
    (updateSchemaRefs handlerName value).fields.map Prod.fst = value.fields.map Prod.fst := by
  cases value with
  | obj fields =>
    show (updateFields handlerName fields).map Prod.fst = fields.map Prod.fst
    rw [updateFields_eq, List.map_map]
    exact List.map_congr_left fun field _ => updateField_fst handlerName field
  | null | bool _ | num _ | str _ | arr _ => rfl

theorem get_updateSchemaRefs {value member : Json} {key : String} (h : value.get key = some member)
    (hmember : ∀ text, member ≠ .str text) (handlerName : String) :
    (updateSchemaRefs handlerName value).get key = some (updateSchemaRefs handlerName member) := by
  cases value with
  | obj fields =>
    show (updateFields handlerName fields).lookup key = _
    have hlookup : fields.lookup key = some member := h
    rw [lookup_updateFields, hlookup, Option.map_some, updateField_of_not_str hmember]
  | null | bool _ | num _ | str _ | arr _ => cases h

theorem refs_updateField {handlerName key : String} {value : Json}
    (ih : (updateSchemaRefs handlerName value).refs =
      value.refs.map (rewriteRef handlerName)) :
    fieldRefs (updateField handlerName (key, value)) =
      (fieldRefs (key, value)).map (rewriteRef handlerName) := by
  cases value with
  | str text =>
    by_cases hkey : key = "$ref"
    · subst hkey
      rw [updateField]
      cases htext : stripPrefix "#/components/schemas/" text with
      | none => simp [schemaRef, htext, updateSchemaRefs, fieldRefs, refOf, Json.refs, rewriteRef]
      | some schemaName =>
        simp [schemaRef, htext, fieldRefs, refOf, Json.refs, rewriteRef]
    · have hnone : schemaRef key (.str text) = none := if_neg hkey
      rw [updateField, hnone]
      simp [updateSchemaRefs, fieldRefs, refOf, hkey, Json.refs]
  | null | bool _ | num _ | arr _ | obj _ =>
    rw [updateField_of_not_str (by simp)]
    simpa [fieldRefs, refOf, updateSchemaRefs] using ih

/-- The references of the rewritten value are those of the value, rewritten. -/
theorem refs_updateSchemaRefs (handlerName : String) (value : Json) :
    (updateSchemaRefs handlerName value).refs = value.refs.map (rewriteRef handlerName) := by
  induction value using Json.induction with
  | null => rfl
  | bool b => rfl
  | num text => rfl
  | str text => rfl
  | arr items ih =>
    show itemsRefs (updateItems handlerName items) = (itemsRefs items).map _
    rw [updateItems_eq, itemsRefs_eq, itemsRefs_eq, List.flatMap_map, List.map_flatMap]
    exact List.flatMap_congr ih
  | obj fields ih =>
    show fieldsRefs (updateFields handlerName fields) = (fieldsRefs fields).map _
    rw [updateFields_eq, fieldsRefs_eq, fieldsRefs_eq, List.flatMap_map, List.map_flatMap]
    exact List.flatMap_congr fun field hfield => refs_updateField (ih field hfield)

/-! ## The aggregate as one series of insertions -/

namespace Handler

def pathEntries (routePrefix : String) (h : Handler) : List (String × Json) :=
  h.paths.map fun e => (fullPath routePrefix h.name e.1, updateSchemaRefs h.name e.2)

def schemaEntries (h : Handler) : List (String × Json) :=
  h.schemas.map fun e => (prefixedName h.name e.1, updateSchemaRefs h.name e.2)

end Handler

theorem mergePaths_eq (aggregated : List (String × Json)) (routePrefix : String) (h : Handler) :
    mergePaths aggregated h.paths h.name routePrefix =
      insertFields (h.pathEntries routePrefix) aggregated := by
  unfold mergePaths Handler.pathEntries insertFields
  rw [List.foldl_map]

theorem mergeSchemas_eq (aggregated : List (String × Json)) (h : Handler) :
    mergeSchemas aggregated h.schemas h.name = insertFields h.schemaEntries aggregated := by
  unfold mergeSchemas Handler.schemaEntries insertFields
  rw [List.foldl_map]

theorem merged_eq (routePrefix : String) (handlers : List Handler) (merged : Merged) :
    (handlers.map fun h => (h.name, h.spec)).foldl (Merged.add routePrefix) merged =
      ⟨insertFields (handlers.flatMap fun h => h.pathEntries routePrefix) merged.paths,
        insertFields (handlers.flatMap fun h => h.schemaEntries) merged.schemas⟩ := by
  induction handlers generalizing merged with
  | nil => rfl
  | cons h handlers ih =>
    rw [List.map_cons, List.foldl_cons, ih, List.flatMap_cons, List.flatMap_cons,
      insertFields_append, insertFields_append, ← mergePaths_eq, ← mergeSchemas_eq]
    rfl

theorem pathAt_aggregate (title : String) (handlers : List Handler) (routePrefix key : String) :
    pathAt (aggregate title handlers routePrefix) key =
      (insertFields (handlers.flatMap fun h => h.pathEntries routePrefix) []).lookup key := by
  unfold aggregate aggregateSpecs
  rw [merged_eq]
  rfl

theorem schemaAt_aggregate (title : String) (handlers : List Handler) (routePrefix key : String) :
    schemaAt (aggregate title handlers routePrefix) key =
      (insertFields (handlers.flatMap fun h => h.schemaEntries) []).lookup key := by
  unfold aggregate aggregateSpecs
  rw [merged_eq]
  rfl

/-! ## Keys -/

theorem startsWith_normalizedPath (path : String) :
    ∃ rest, normalizedPath path = "/" ++ rest := by
  unfold normalizedPath
  split
  · next h => exact startsWith_iff.mp h
  · exact ⟨path, rfl⟩

/-- Two paths are the same with their slash, if one is or one is the other without it. -/
theorem normalizedPath_eq {path path' : String} (h : normalizedPath path = normalizedPath path') :
    path = path' ∨ (startsWith "/" path = false ∧ path' = "/" ++ path) ∨
      (startsWith "/" path' = false ∧ path = "/" ++ path') := by
  unfold normalizedPath at h
  split at h
  · split at h
    · exact Or.inl h
    · next hslash => exact Or.inr (Or.inr ⟨Bool.eq_false_iff.mpr hslash, h⟩)
  · next hslash =>
    split at h
    · exact Or.inr (Or.inl ⟨Bool.eq_false_iff.mpr hslash, h.symm⟩)
    · have hlist := congrArg String.toList h
      rw [String.toList_append, String.toList_append] at hlist
      exact Or.inl (String.toList_inj.mp (List.append_cancel_left hlist))

/-- The route of a handler tells its name and the path. -/
theorem fullPath_inj {routePrefix path path' : String} {h h' : Handler}
    (heq : fullPath routePrefix h.name path = fullPath routePrefix h'.name path') :
    h.name = h'.name ∧ normalizedPath path = normalizedPath path' := by
  obtain ⟨rest, hrest⟩ := startsWith_normalizedPath path
  obtain ⟨rest', hrest'⟩ := startsWith_normalizedPath path'
  have hlist := congrArg String.toList heq
  simp only [fullPath, hrest, hrest', String.toList_append, List.append_assoc] at hlist
  have hnames := append_sep_inj h.noSlash h'.noSlash
    (List.append_cancel_left (List.append_cancel_left hlist))
  refine ⟨String.toList_inj.mp hnames.1, ?_⟩
  rw [hrest, hrest', String.toList_inj.mp hnames.2]

/-- Two schemas share a key if they are the same of one handler, or if the name of one handler
    continues that of the other with an underscore. -/
theorem prefixedName_eq {name name' schema schema' : String}
    (heq : prefixedName name schema = prefixedName name' schema') :
    (name = name' ∧ schema = schema') ∨
      (∃ t, name' = name ++ "_" ++ t ∧ schema = t ++ "_" ++ schema') ∨
      ∃ t, name = name' ++ "_" ++ t ∧ schema' = t ++ "_" ++ schema := by
  have hlist := congrArg String.toList heq
  simp only [prefixedName, String.toList_append] at hlist
  have hcontinues : ∀ {n n' s s' : String} {as : List Char}, n'.toList = n.toList ++ as →
      '_' :: s.toList = as ++ '_' :: s'.toList →
      (n = n' ∧ s = s') ∨ ∃ t, n' = n ++ "_" ++ t ∧ s = t ++ "_" ++ s' := by
    intro n n' s s' as hn has
    cases as with
    | nil =>
      refine Or.inl ⟨String.toList_inj.mp ?_, String.toList_inj.mp (List.cons.inj has).2⟩
      rw [hn, List.append_nil]
    | cons c as =>
      obtain ⟨rfl, hrest⟩ := List.cons.inj has
      refine Or.inr ⟨String.ofList as, String.toList_inj.mp ?_, String.toList_inj.mp ?_⟩
      · simp only [hn, String.toList_append, String.toList_ofList, List.append_assoc]
        rfl
      · simp only [String.toList_append, String.toList_ofList, List.append_assoc]
        exact hrest
  rw [List.append_assoc, List.append_assoc] at hlist
  rcases List.append_eq_append_iff.mp hlist with ⟨as, hn, has⟩ | ⟨as, hn, has⟩
  · rcases hcontinues hn has with hsame | hmore
    · exact Or.inl hsame
    · exact Or.inr (Or.inl hmore)
  · rcases hcontinues hn has with hsame | hmore
    · exact Or.inl ⟨hsame.1.symm, hsame.2.symm⟩
    · exact Or.inr (Or.inr hmore)

/-! ## Nothing lost, nothing confused -/

/-- The aggregate of `handlers` has everything of each of them in its own place. -/
structure Faithful (title routePrefix : String) (handlers : List Handler) : Prop where
  /-- Each path of each handler is there, with the same members, and each operation is the
      rewritten one. -/
  paths : ∀ h ∈ handlers, ∀ path item, (path, item) ∈ h.paths →
    ∃ item', pathAt (aggregate title handlers routePrefix) (fullPath routePrefix h.name path) =
        some item' ∧
      item'.fields.map Prod.fst = item.fields.map Prod.fst ∧
      (∀ method fields, item.get method = some (.obj fields) →
        item'.get method = some (updateSchemaRefs h.name (.obj fields))) ∧
      item' = updateSchemaRefs h.name item
  /-- Each schema of each handler is there. -/
  schemas : ∀ h ∈ handlers, ∀ name schema, (name, schema) ∈ h.schemas →
    schemaAt (aggregate title handlers routePrefix) (prefixedName h.name name) =
      some (updateSchemaRefs h.name schema)
  /-- There is nothing else. -/
  onlyPaths : ∀ key item, pathAt (aggregate title handlers routePrefix) key = some item →
    ∃ h ∈ handlers, ∃ path, h.HasPath path ∧ key = fullPath routePrefix h.name path
  onlySchemas : ∀ key schema, schemaAt (aggregate title handlers routePrefix) key = some schema →
    ∃ h ∈ handlers, ∃ name, h.HasSchema name ∧ key = prefixedName h.name name
  pathsApart : ∀ h ∈ handlers, ∀ h' ∈ handlers, ∀ path path', h.HasPath path → h'.HasPath path' →
    fullPath routePrefix h.name path = fullPath routePrefix h'.name path' → h = h' ∧ path = path'
  schemasApart : ∀ h ∈ handlers, ∀ h' ∈ handlers, ∀ name name', h.HasSchema name →
    h'.HasSchema name' → prefixedName h.name name = prefixedName h'.name name' →
    h = h' ∧ name = name'
  /-- The references in what comes from a handler are its own, rewritten, and a reference to one
      of its schemas names the key under which this schema is now. -/
  refs : ∀ h ∈ handlers, ∀ part ∈ h.parts,
    (updateSchemaRefs h.name part).refs = part.refs.map (rewriteRef h.name)
  targets : ∀ h ∈ handlers, ∀ name schema, (name, schema) ∈ h.schemas →
    ∃ key, rewriteRef h.name ("#/components/schemas/" ++ name) = "#/components/schemas/" ++ key ∧
      schemaAt (aggregate title handlers routePrefix) key =
        some (updateSchemaRefs h.name schema)

/-- No handler has a path both with and without the leading slash, and where the name of one
    handler is that of another, an underscore and more, the shorter one has no schema that starts
    with this rest and an underscore and goes on like a schema of the longer one. -/
structure KeysApart (handlers : List Handler) : Prop where
  slashes : ∀ h ∈ handlers, ∀ path, h.HasPath path → startsWith "/" path = false →
    ¬ h.HasPath ("/" ++ path)
  underscores : ∀ h ∈ handlers, ∀ h' ∈ handlers, ∀ t name, h'.name = h.name ++ "_" ++ t →
    h'.HasSchema name → ¬ h.HasSchema (t ++ "_" ++ name)

section

variable {title routePrefix : String} {handlers : List Handler}

theorem handler_eq_of_name (hnames : (handlers.map Handler.name).Nodup) {h h' : Handler}
    (hh : h ∈ handlers) (hh' : h' ∈ handlers) (heq : h.name = h'.name) : h = h' :=
  List.inj_on_of_nodup_map hnames hh hh' heq

theorem Handler.path_unique (h : Handler) {path : String} {item item' : Json}
    (hmem : (path, item) ∈ h.paths) (hmem' : (path, item') ∈ h.paths) : item = item' := by
  unfold Handler.paths specPaths at hmem hmem'
  cases hget : h.spec.get "paths" with
  | none =>
    rw [hget] at hmem
    cases hmem
  | some value =>
    rw [hget] at hmem hmem'
    exact (h.canonical.get hget).unique hmem hmem'

theorem Handler.schema_unique (h : Handler) {name : String} {schema schema' : Json}
    (hmem : (name, schema) ∈ h.schemas) (hmem' : (name, schema') ∈ h.schemas) :
    schema = schema' := by
  unfold Handler.schemas specSchemas at hmem hmem'
  cases hget : h.spec.get "components" with
  | none =>
    rw [hget] at hmem
    cases hmem
  | some components =>
    rw [hget, Option.bind_some] at hmem hmem'
    cases hget' : components.get "schemas" with
    | none =>
      rw [hget'] at hmem
      cases hmem
    | some value =>
      rw [hget'] at hmem hmem'
      exact ((h.canonical.get hget).get hget').unique hmem hmem'

theorem KeysApart.pathsApart (hapart : KeysApart handlers)
    (hnames : (handlers.map Handler.name).Nodup) {h h' : Handler} (hh : h ∈ handlers)
    (hh' : h' ∈ handlers) {path path' : String} (hpath : h.HasPath path)
    (hpath' : h'.HasPath path')
    (heq : fullPath routePrefix h.name path = fullPath routePrefix h'.name path') :
    h = h' ∧ path = path' := by
  obtain ⟨hname, hnormal⟩ := fullPath_inj heq
  have hsame := handler_eq_of_name hnames hh hh' hname
  subst hsame
  refine ⟨rfl, ?_⟩
  rcases normalizedPath_eq hnormal with hpaths | ⟨hslash, rfl⟩ | ⟨hslash, rfl⟩
  · exact hpaths
  · exact absurd hpath' (hapart.slashes h hh path hpath hslash)
  · exact absurd hpath (hapart.slashes h hh path' hpath' hslash)

theorem KeysApart.schemasApart (hapart : KeysApart handlers)
    (hnames : (handlers.map Handler.name).Nodup) {h h' : Handler} (hh : h ∈ handlers)
    (hh' : h' ∈ handlers) {name name' : String} (hschema : h.HasSchema name)
    (hschema' : h'.HasSchema name')
    (heq : prefixedName h.name name = prefixedName h'.name name') : h = h' ∧ name = name' := by
  rcases prefixedName_eq heq with ⟨hname, rfl⟩ | ⟨t, hname, rfl⟩ | ⟨t, hname, rfl⟩
  · exact ⟨handler_eq_of_name hnames hh hh' hname, rfl⟩
  · exact absurd hschema (hapart.underscores h hh h' hh' t name' hname hschema')
  · exact absurd hschema' (hapart.underscores h' hh' h hh t name hname hschema)

theorem pathAt_of_apart (hnames : (handlers.map Handler.name).Nodup)
    (hapart : KeysApart handlers) {h : Handler} (hh : h ∈ handlers) {path : String} {item : Json}
    (hpath : (path, item) ∈ h.paths) :
    pathAt (aggregate title handlers routePrefix) (fullPath routePrefix h.name path) =
      some (updateSchemaRefs h.name item) := by
  rw [pathAt_aggregate]
  refine lookup_insertFields_of_mem ?_ fun value' hmem' => ?_
  · exact List.mem_flatMap.mpr ⟨h, hh, List.mem_map.mpr ⟨(path, item), hpath, rfl⟩⟩
  · obtain ⟨h', hh', hentry⟩ := List.mem_flatMap.mp hmem'
    obtain ⟨⟨path', item'⟩, hpath', heq⟩ := List.mem_map.mp hentry
    obtain ⟨hkey, rfl⟩ := Prod.mk.inj heq
    obtain ⟨rfl, rfl⟩ := hapart.pathsApart hnames hh' hh ⟨item', hpath'⟩ ⟨item, hpath⟩ hkey
    rw [h'.path_unique hpath hpath']

theorem schemaAt_of_apart (hnames : (handlers.map Handler.name).Nodup)
    (hapart : KeysApart handlers) {h : Handler} (hh : h ∈ handlers) {name : String} {schema : Json}
    (hschema : (name, schema) ∈ h.schemas) :
    schemaAt (aggregate title handlers routePrefix) (prefixedName h.name name) =
      some (updateSchemaRefs h.name schema) := by
  rw [schemaAt_aggregate]
  refine lookup_insertFields_of_mem ?_ fun value' hmem' => ?_
  · exact List.mem_flatMap.mpr ⟨h, hh, List.mem_map.mpr ⟨(name, schema), hschema, rfl⟩⟩
  · obtain ⟨h', hh', hentry⟩ := List.mem_flatMap.mp hmem'
    obtain ⟨⟨name', schema'⟩, hschema', heq⟩ := List.mem_map.mp hentry
    obtain ⟨hkey, rfl⟩ := Prod.mk.inj heq
    obtain ⟨rfl, rfl⟩ := hapart.schemasApart hnames hh' hh ⟨schema', hschema'⟩ ⟨schema, hschema⟩
      hkey
    rw [h'.schema_unique hschema hschema']

theorem rewriteRef_schema (handlerName name : String) :
    rewriteRef handlerName ("#/components/schemas/" ++ name) =
      "#/components/schemas/" ++ prefixedName handlerName name := by
  unfold rewriteRef prefixedName
  rw [stripPrefix_eq_some_iff.mpr rfl]
  simp only [String.append_assoc]

theorem faithful_of_apart (hnames : (handlers.map Handler.name).Nodup)
    (hapart : KeysApart handlers) : Faithful title routePrefix handlers where
  paths := by
    intro h hh path item hpath
    refine ⟨_, pathAt_of_apart hnames hapart hh hpath, keys_updateSchemaRefs h.name item,
      fun method fields hget => ?_, rfl⟩
    exact get_updateSchemaRefs hget (fun text heq => by cases heq) h.name
  schemas := fun h hh name schema hschema => schemaAt_of_apart hnames hapart hh hschema
  onlyPaths := by
    intro key item hitem
    rw [pathAt_aggregate] at hitem
    rcases lookup_insertFields_cases hitem with hmem | hempty
    · obtain ⟨h, hh, hentry⟩ := List.mem_flatMap.mp hmem
      obtain ⟨⟨path, item'⟩, hpath, heq⟩ := List.mem_map.mp hentry
      exact ⟨h, hh, path, ⟨item', hpath⟩, (congrArg Prod.fst heq).symm⟩
    · cases hempty
  onlySchemas := by
    intro key schema hschema
    rw [schemaAt_aggregate] at hschema
    rcases lookup_insertFields_cases hschema with hmem | hempty
    · obtain ⟨h, hh, hentry⟩ := List.mem_flatMap.mp hmem
      obtain ⟨⟨name, schema'⟩, hname, heq⟩ := List.mem_map.mp hentry
      exact ⟨h, hh, name, ⟨schema', hname⟩, (congrArg Prod.fst heq).symm⟩
    · cases hempty
  pathsApart := fun h hh h' hh' path path' hpath hpath' heq =>
    hapart.pathsApart hnames hh hh' hpath hpath' heq
  schemasApart := fun h hh h' hh' name name' hname hname' heq =>
    hapart.schemasApart hnames hh hh' hname hname' heq
  refs := fun h _ part _ => refs_updateSchemaRefs h.name part
  targets := fun h hh name schema hschema =>
    ⟨_, rewriteRef_schema h.name name, schemaAt_of_apart hnames hapart hh hschema⟩

/-- Where a key is shared, two handlers are confused. -/
theorem Faithful.apart (hf : Faithful title routePrefix handlers) : KeysApart handlers where
  slashes := by
    intro h hh path hpath hslash hpath'
    have hslash' : startsWith "/" ("/" ++ path) = true := startsWith_iff.mpr ⟨path, rfl⟩
    have hfull : fullPath routePrefix h.name path = fullPath routePrefix h.name ("/" ++ path) := by
      unfold fullPath normalizedPath
      rw [hslash, hslash']
      rfl
    have hsame := (hf.pathsApart h hh h hh _ _ hpath hpath' hfull).2
    rw [← hsame, hslash] at hslash'
    cases hslash'
  underscores := by
    intro h hh h' hh' t name hname hschema' hschema
    have hkey : prefixedName h.name (t ++ "_" ++ name) = prefixedName h'.name name := by
      unfold prefixedName
      rw [hname]
      simp only [String.append_assoc]
    have hsame := (hf.schemasApart h hh h' hh' _ _ hschema hschema' hkey).2
    have hlength := congrArg String.length hsame
    simp only [String.length_append] at hlength
    have hone : "_".length = 1 := rfl
    omega

end

/-- Aggregation loses and confuses nothing exactly when no handler has a path both with and without
    its leading slash, and no handler's name continues another's with an underscore such that a
    schema of each gets the same key. -/
theorem aggregation_faithful_iff (title routePrefix : String) (handlers : List Handler)
    (hnames : (handlers.map Handler.name).Nodup) :
    Faithful title routePrefix handlers ↔ KeysApart handlers :=
  ⟨Faithful.apart, faithful_of_apart hnames⟩

/-- A document with one schema and one path that refers to it. -/
def smallSpec (schemaName : String) : Json :=
  .obj [("components", .obj [("schemas", .obj [(schemaName, .obj [("type", .str "object")])])]),
    ("info", .obj [("title", .str "small"), ("version", .str "1.0.0")]),
    ("openapi", .str "3.0.0"),
    ("paths", .obj [("/", .obj [("$ref", .str ("#/components/schemas/" ++ schemaName))])])]

theorem smallSpec_canonical (schemaName : String) : (smallSpec schemaName).Canonical := by
  simp only [smallSpec, Json.Canonical, fieldsCanonical, fieldCanonical, List.map_cons,
    List.map_nil, List.pairwise_cons, List.mem_cons, List.not_mem_nil, String.lt_iff_toList_lt,
    forall_eq_or_imp, false_implies, implies_true, List.Pairwise.nil, and_true, true_and]
  decide

/-- Handler `a` with a schema `b_C`, and handler `a_b` with a schema `C`. -/
theorem underscored_handlers_confused :
    ¬ Faithful "Platform API" "/run"
      [⟨"a", smallSpec "b_C", by decide, smallSpec_canonical _⟩,
        ⟨"a_b", smallSpec "C", by decide, smallSpec_canonical _⟩] := by
  intro hf
  have hsame := hf.schemasApart _ List.mem_cons_self _ (List.mem_cons_of_mem _ List.mem_cons_self)
    "b_C" "C" ⟨_, List.mem_cons_self⟩ ⟨_, List.mem_cons_self⟩ (by decide)
  exact absurd hsame.2 (by decide)

/-- Two handlers that both have a schema `User`. -/
theorem aggregation_faithful_iff_users :
    Faithful "Platform API" "/run"
      [⟨"auth", smallSpec "User", by decide, smallSpec_canonical _⟩,
        ⟨"users", smallSpec "User", by decide, smallSpec_canonical _⟩] := by
  refine (aggregation_faithful_iff _ _ _ (by decide)).mpr ⟨?_, ?_⟩
  · intro h hh path hpath hslash
    have hroot : path = "/" := by
      obtain ⟨item, hitem⟩ := hpath
      rcases List.mem_pair.mp hh with rfl | rfl
      · exact congrArg Prod.fst (List.mem_singleton.mp hitem)
      · exact congrArg Prod.fst (List.mem_singleton.mp hitem)
    rw [hroot] at hslash
    exact absurd hslash (by decide)
  · intro h hh h' hh' t name _ _ hschema
    have huser : t ++ "_" ++ name = "User" := by
      obtain ⟨schema, hmem⟩ := hschema
      rcases List.mem_pair.mp hh with rfl | rfl
      · exact congrArg Prod.fst (List.mem_singleton.mp hmem)
      · exact congrArg Prod.fst (List.mem_singleton.mp hmem)
    have hmem : '_' ∈ (t ++ "_" ++ name).toList := by simp
    rw [huser] at hmem
    exact absurd hmem (by decide)

end Mik.Gateway
