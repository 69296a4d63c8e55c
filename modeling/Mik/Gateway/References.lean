/-
  References in the aggregated document (`src/runtime/gateway/openapi.rs`).

  Of a handler's document the aggregation carries over the path items and the schemas, each to a
  new place (`Moved`), and leaves everything else behind. Only references that are written
  `#/components/schemas/…` are rewritten. So the references of a handler resolve in the aggregate,
  and to what they stood for, exactly when they are all of this kind, the handler's name stands for
  itself inside of a pointer, and no handler after it put a schema under the same key
  (`references_closed_iff`).
-/
import Mik.Gateway.OpenApi

namespace Mik.Gateway

open Mik.Lib

/-! ## Where things go -/

namespace Handler

/-- The references in what is carried over. -/
def carriedRefs (h : Handler) : List String := h.parts.flatMap Json.refs

/-- No handler after `h` puts a schema under the key of `name`. -/
def Keeps (handlers : List Handler) (h : Handler) (name : String) : Prop :=
  ∃ before after, handlers = before ++ h :: after ∧
    ∀ h' ∈ after, ∀ name', h'.HasSchema name' →
      prefixedName h'.name name' ≠ prefixedName h.name name

end Handler

/-- What stands at a place of the document of `h` is at another one in the aggregate. -/
inductive Moved (handlers : List Handler) (routePrefix : String) (h : Handler) :
    List String → List String → Prop where
  | schema (name : String) (tokens : List String) (has : h.HasSchema name)
      (keeps : h.Keeps handlers name) :
      Moved handlers routePrefix h ("components" :: "schemas" :: name :: tokens)
        ("components" :: "schemas" :: prefixedName h.name name :: tokens)
  | path (path : String) (tokens : List String) (has : h.HasPath path) :
      Moved handlers routePrefix h ("paths" :: path :: tokens)
        ("paths" :: fullPath routePrefix h.name path :: tokens)

structure RefsClosed (title routePrefix : String) (handlers : List Handler) : Prop where
  /-- Every local reference of the aggregate resolves. -/
  resolves : ∀ r ∈ (aggregate title handlers routePrefix).refs, isLocal r = true →
    ((aggregate title handlers routePrefix).resolve r).isSome = true
  /-- A reference that comes from a handler points to where the thing it pointed to was moved, and
      there is this thing, rewritten. -/
  targets : ∀ h ∈ handlers, ∀ r ∈ h.carriedRefs, isLocal r = true → ∀ place,
    pointer r = some place → ∃ place', Moved handlers routePrefix h place place' ∧
      pointer (rewriteRef h.name r) = some place' ∧
      ∀ target, h.spec.walk place = some target → ∃ target',
        (aggregate title handlers routePrefix).walk place' = some target' ∧
        ((∀ text, target ≠ .str text) → target' = updateSchemaRefs h.name target)

/-- The handler's local references are to its schemas, its name stands for itself in a pointer, and
    no later handler takes the key of a schema that is referred to. -/
def RefsToSchemas (handlers : List Handler) : Prop :=
  ∀ h ∈ handlers, ∀ r ∈ h.carriedRefs, isLocal r = true →
    startsWith "#/components/schemas/" r = true ∧ tokensOf h.name.toList = some [h.name.toList] ∧
    ∀ name tokens, pointer r = some ("components" :: "schemas" :: name :: tokens) →
      h.HasSchema name ∧ h.Keeps handlers name

/-- In every document every local reference resolves. -/
def Resolving (handlers : List Handler) : Prop :=
  ∀ h ∈ handlers, ∀ r ∈ h.spec.refs, isLocal r = true → (h.spec.resolve r).isSome = true

/-! ## Pointers to schemas -/

theorem pointer_schema (rest : String) :
    pointer ("#/components/schemas/" ++ rest) =
      (tokensOf rest.toList).map fun tokens =>
        "components" :: "schemas" :: tokens.map String.ofList := by
  have hcomponents : PlainToken "components".toList := ⟨by decide, by decide, by decide⟩
  have hschemas : PlainToken "schemas".toList := ⟨by decide, by decide, by decide⟩
  have hstrip : stripPrefix "#/" ("#/components/schemas/" ++ rest) =
      some ("components/schemas/" ++ rest) := by
    rw [stripPrefix_eq_some_iff, ← String.append_assoc]
    rfl
  have htext : ("components/schemas/" ++ rest).toList =
      "components".toList ++ '/' :: ("schemas".toList ++ '/' :: rest.toList) := by
    rw [String.toList_append]
    rfl
  unfold pointer
  rw [hstrip, Option.bind_some, htext, hcomponents.tokensOf_cons, hschemas.tokensOf_cons,
    Option.map_map, Option.map_map]
  rfl

theorem pointer_rewritten (handlerName rest : String) :
    pointer (rewriteRef handlerName ("#/components/schemas/" ++ rest)) =
      (tokensOf (handlerName.toList ++ '_' :: rest.toList)).map fun tokens =>
        "components" :: "schemas" :: tokens.map String.ofList := by
  rw [rewriteRef_schema, pointer_schema]
  unfold prefixedName
  rw [String.toList_append, String.toList_append, List.append_assoc]
  rfl

/-- A reference that is not rewritten. -/
theorem rewriteRef_of_not_schema {r : String}
    (h : startsWith "#/components/schemas/" r = false) (handlerName : String) :
    rewriteRef handlerName r = r := by
  unfold rewriteRef
  split
  · next schemaName hstrip =>
    rw [startsWith_iff.mpr ⟨schemaName, stripPrefix_eq_some_iff.mp hstrip⟩] at h
    cases h
  · rfl

theorem prefixedName_ne (handlerName name : String) : prefixedName handlerName name ≠ name := by
  intro heq
  have hlength := congrArg String.length heq
  unfold prefixedName at hlength
  simp only [String.length_append] at hlength
  have hone : "_".length = 1 := rfl
  omega

theorem fullPath_ne (routePrefix handlerName path : String) :
    fullPath routePrefix handlerName path ≠ path := by
  intro heq
  have hlength := congrArg String.length heq
  have hnormal : path.length ≤ (normalizedPath path).length := by
    unfold normalizedPath
    split
    · exact Nat.le_refl _
    · rw [String.length_append]
      exact Nat.le_add_left _ _
  unfold fullPath at hlength
  simp only [String.length_append] at hlength
  have hone : "/".length = 1 := rfl
  omega

theorem ofList_inj {cs cs' : List Char} (h : String.ofList cs = String.ofList cs') : cs = cs' := by
  have hlist := congrArg String.toList h
  rw [String.toList_ofList, String.toList_ofList] at hlist
  exact hlist

/-- A rewritten reference points to the key of the schema, and goes on as before, exactly when the
    handler's name stands for itself. -/
theorem pointer_rewritten_iff {handlerName rest name : String} {tokens : List String}
    (h : pointer ("#/components/schemas/" ++ rest) =
      some ("components" :: "schemas" :: name :: tokens)) :
    pointer (rewriteRef handlerName ("#/components/schemas/" ++ rest)) =
        some ("components" :: "schemas" :: prefixedName handlerName name :: tokens) ↔
      tokensOf handlerName.toList = some [handlerName.toList] := by
  rw [pointer_schema] at h
  obtain ⟨all, hall, heq⟩ := Option.map_eq_some_iff.mp h
  cases all with
  | nil => cases heq
  | cons first all =>
    obtain ⟨rfl, rfl⟩ : String.ofList first = name ∧ all.map String.ofList = tokens := by
      simpa using heq
    have hkey : prefixedName handlerName (String.ofList first) =
        String.ofList (handlerName.toList ++ '_' :: first) := by
      apply String.toList_inj.mp
      unfold prefixedName
      rw [String.toList_append, String.toList_append, List.append_assoc]
      simp only [String.toList_ofList]
      rfl
    rw [pointer_rewritten, ← tokensOf_front_iff hall, hkey]
    constructor
    · intro hmap
      obtain ⟨all', hall', heq'⟩ := Option.map_eq_some_iff.mp hmap
      rw [hall']
      have hlists : all'.map String.ofList =
          ((handlerName.toList ++ '_' :: first) :: all).map String.ofList := by
        simpa using heq'
      rw [List.map_injective_iff.mpr (fun _ _ => ofList_inj) hlists]
    · intro hall'
      rw [hall']
      rfl

/-! ## Walking in a rewritten value -/

theorem child_updateSchemaRefs {value member : Json} {token : String} (handlerName : String)
    (h : value.child token = some member) :
    ∃ member', (updateSchemaRefs handlerName value).child token = some member' ∧
      ((∀ text, member ≠ .str text) → member' = updateSchemaRefs handlerName member) := by
  cases value with
  | arr items =>
    obtain ⟨i, hi, hitem⟩ := Option.bind_eq_some_iff.mp h
    refine ⟨updateSchemaRefs handlerName member, ?_, fun _ => rfl⟩
    show ((tokenIndex token).bind fun i => (updateItems handlerName items)[i]?) = _
    rw [updateItems_eq, hi, Option.bind_some, List.getElem?_map, hitem]
    rfl
  | obj fields =>
    have hlookup : fields.lookup token = some member := h
    refine ⟨(updateField handlerName (token, member)).2, ?_, fun hmember => ?_⟩
    · show (updateFields handlerName fields).lookup token = _
      rw [lookup_updateFields, hlookup]
      rfl
    · rw [updateField_of_not_str hmember]
  | null | bool _ | num _ | str _ => cases h

/-- A place of a value is there in the rewritten one as well. -/
theorem walk_updateSchemaRefs (handlerName : String) (tokens : List String) {value target : Json}
    (h : value.walk tokens = some target) :
    ∃ target', (updateSchemaRefs handlerName value).walk tokens = some target' ∧
      ((∀ text, target ≠ .str text) → target' = updateSchemaRefs handlerName target) := by
  induction tokens generalizing value with
  | nil =>
    cases h
    exact ⟨_, rfl, fun _ => rfl⟩
  | cons token tokens ih =>
    obtain ⟨member, hmember, hwalk⟩ := Option.bind_eq_some_iff.mp h
    obtain ⟨member', hmember', heq⟩ := child_updateSchemaRefs handlerName hmember
    cases hm : member with
    | str text =>
      -- a text has no members, so the walk ends here
      cases tokens with
      | nil =>
        rw [hm] at hwalk
        cases hwalk
        refine ⟨member', ?_, fun hno => absurd rfl (hno text)⟩
        show ((updateSchemaRefs handlerName value).child token).bind _ = _
        rw [hmember']
        rfl
      | cons next tokens =>
        rw [hm] at hwalk
        cases hwalk
    | null | bool _ | num _ | arr _ | obj _ =>
      have hno : ∀ text, member ≠ .str text := by
        intro text hstr
        rw [hm] at hstr
        cases hstr
      obtain ⟨target', htarget', hsame⟩ := ih hwalk
      refine ⟨target', ?_, hsame⟩
      show ((updateSchemaRefs handlerName value).child token).bind _ = _
      rw [hmember', heq hno]
      exact htarget'

/-! ## The references of the aggregate -/

theorem fullPath_ne_ref (routePrefix handlerName path : String) :
    fullPath routePrefix handlerName path ≠ "$ref" := by
  intro heq
  have hmem : '/' ∈ (fullPath routePrefix handlerName path).toList := by
    unfold fullPath
    simp
  rw [heq] at hmem
  exact absurd hmem (by decide)

theorem prefixedName_ne_ref (handlerName name : String) :
    prefixedName handlerName name ≠ "$ref" := by
  intro heq
  have hmem : '_' ∈ (prefixedName handlerName name).toList := by
    unfold prefixedName
    simp
  rw [heq] at hmem
  exact absurd hmem (by decide)

section

variable {title routePrefix : String} {handlers : List Handler}

/-- A reference of the aggregate is one that was carried over from a handler, rewritten. -/
theorem mem_refs_aggregate {r : String} (hr : r ∈ (aggregate title handlers routePrefix).refs) :
    ∃ h ∈ handlers, ∃ r' ∈ h.carriedRefs, r = rewriteRef h.name r' := by
  have hentries : ∀ entries : List (String × Json),
      (∀ e ∈ entries, e.1 ≠ "$ref" ∧ ∃ h ∈ handlers, ∃ part ∈ h.parts,
        e.2 = updateSchemaRefs h.name part) →
      r ∈ fieldsRefs (insertFields entries []) →
      ∃ h ∈ handlers, ∃ r' ∈ h.carriedRefs, r = rewriteRef h.name r' := by
    intro entries hall hmem
    rw [fieldsRefs_eq] at hmem
    obtain ⟨⟨key, value⟩, hfield, hmem⟩ := List.mem_flatMap.mp hmem
    rcases mem_insertFields hfield with hentry | hempty
    · obtain ⟨hkey, h, hh, part, hpart, hvalue⟩ := hall _ hentry
      rw [fieldRefs_of_ne hkey] at hmem
      have hvalue' : value = updateSchemaRefs h.name part := hvalue
      rw [hvalue', refs_updateSchemaRefs] at hmem
      obtain ⟨r', hr', rfl⟩ := List.mem_map.mp hmem
      exact ⟨h, hh, r', List.mem_flatMap.mpr ⟨part, hpart, hr'⟩, rfl⟩
    · cases hempty
  unfold aggregate aggregateSpecs at hr
  rw [merged_eq] at hr
  have hparts : r ∈ fieldsRefs (insertFields (handlers.flatMap fun h => h.schemaEntries) []) ∨
      r ∈ fieldsRefs (insertFields (handlers.flatMap fun h => h.pathEntries routePrefix) []) := by
    simpa [Json.refs, fieldsRefs, fieldRefs, refOf] using hr
  rcases hparts with hmem | hmem
  · refine hentries _ (fun e he => ?_) hmem
    obtain ⟨h, hh, hentry⟩ := List.mem_flatMap.mp he
    obtain ⟨⟨name, schema⟩, hschema, rfl⟩ := List.mem_map.mp hentry
    exact ⟨prefixedName_ne_ref _ _, h, hh, schema,
      List.mem_append_right _ (List.mem_map_of_mem hschema), rfl⟩
  · refine hentries _ (fun e he => ?_) hmem
    obtain ⟨h, hh, hentry⟩ := List.mem_flatMap.mp he
    obtain ⟨⟨path, item⟩, hpath, rfl⟩ := List.mem_map.mp hentry
    exact ⟨fullPath_ne_ref _ _ _, h, hh, item,
      List.mem_append_left _ (List.mem_map_of_mem hpath), rfl⟩

/-- The last schema under a key is the one that is found. -/
theorem schemaAt_of_keeps {h : Handler} {name : String} {schema : Json}
    (hkeeps : h.Keeps handlers name) (hschema : (name, schema) ∈ h.schemas) :
    schemaAt (aggregate title handlers routePrefix) (prefixedName h.name name) =
      some (updateSchemaRefs h.name schema) := by
  obtain ⟨before, after, rfl, hafter⟩ := hkeeps
  rw [schemaAt_aggregate, List.flatMap_append, List.flatMap_cons, insertFields_append,
    insertFields_append]
  have hlater : ∀ fields, (insertFields (after.flatMap fun h => h.schemaEntries) fields).lookup
      (prefixedName h.name name) = fields.lookup (prefixedName h.name name) := by
    refine fun fields => lookup_insertFields_of_notMem fun value hmem => ?_
    obtain ⟨h', hh', hentry⟩ := List.mem_flatMap.mp hmem
    obtain ⟨⟨name', schema'⟩, hschema', heq⟩ := List.mem_map.mp hentry
    exact hafter h' hh' name' ⟨schema', hschema'⟩ (congrArg Prod.fst heq)
  rw [hlater]
  refine lookup_insertFields_of_mem (List.mem_map.mpr ⟨(name, schema), hschema, rfl⟩) ?_
  intro value' hmem'
  obtain ⟨⟨name', schema'⟩, hschema', heq⟩ := List.mem_map.mp hmem'
  obtain ⟨hkey, rfl⟩ := Prod.mk.inj heq
  have hname : name' = name := by
    have hlist := congrArg String.toList hkey
    simp only [prefixedName, String.toList_append] at hlist
    exact String.toList_inj.mp (List.append_cancel_left hlist)
  subst hname
  rw [h.schema_unique hschema hschema']

theorem walk_schemas (name : String) (tokens : List String) :
    (aggregate title handlers routePrefix).walk ("components" :: "schemas" :: name :: tokens) =
      (schemaAt (aggregate title handlers routePrefix) name).bind fun schema =>
        schema.walk tokens := rfl

theorem refs_subset_of_get {j value : Json} {key : String} (h : j.get key = some value) :
    ∀ r ∈ value.refs, r ∈ j.refs := by
  intro r hr
  cases j with
  | obj fields =>
    show r ∈ fieldsRefs fields
    rw [fieldsRefs_eq]
    exact List.mem_flatMap.mpr ⟨_, mem_of_lookup h, List.mem_append_right _ hr⟩
  | null | bool _ | num _ | str _ | arr _ => cases h

theorem refs_subset_of_mem {j value : Json} {key : String} (h : (key, value) ∈ j.fields) :
    ∀ r ∈ value.refs, r ∈ j.refs := by
  intro r hr
  cases j with
  | obj fields =>
    show r ∈ fieldsRefs fields
    rw [fieldsRefs_eq]
    exact List.mem_flatMap.mpr ⟨_, h, List.mem_append_right _ hr⟩
  | null | bool _ | num _ | str _ | arr _ => cases h

/-- What is carried over is part of the document. -/
theorem Handler.carriedRefs_subset (h : Handler) : ∀ r ∈ h.carriedRefs, r ∈ h.spec.refs := by
  intro r hr
  obtain ⟨part, hpart, hr⟩ := List.mem_flatMap.mp hr
  rcases List.mem_append.mp hpart with hpart | hpart
  · obtain ⟨⟨path, item⟩, hpath, rfl⟩ := List.mem_map.mp hpart
    unfold Handler.paths specPaths at hpath
    cases hget : h.spec.get "paths" with
    | none =>
      rw [hget] at hpath
      cases hpath
    | some value =>
      rw [hget] at hpath
      exact refs_subset_of_get hget r (refs_subset_of_mem hpath r hr)
  · obtain ⟨⟨name, schema⟩, hschema, rfl⟩ := List.mem_map.mp hpart
    unfold Handler.schemas specSchemas at hschema
    cases hget : h.spec.get "components" with
    | none =>
      rw [hget] at hschema
      cases hschema
    | some components =>
      rw [hget, Option.bind_some] at hschema
      cases hget' : components.get "schemas" with
      | none =>
        rw [hget'] at hschema
        cases hschema
      | some value =>
        rw [hget'] at hschema
        exact refs_subset_of_get hget r
          (refs_subset_of_get hget' r (refs_subset_of_mem hschema r hr))

/-- Walking to a schema of the handler leads through this schema. -/
theorem Handler.walk_schema {h : Handler} {name : String} {tokens : List String} {target : Json}
    (hhas : h.HasSchema name)
    (hwalk : h.spec.walk ("components" :: "schemas" :: name :: tokens) = some target) :
    ∃ schema, (name, schema) ∈ h.schemas ∧ schema.walk tokens = some target := by
  obtain ⟨schema, hschema⟩ := hhas
  have hschema' := hschema
  unfold Handler.schemas specSchemas at hschema
  obtain ⟨components, hcomponents, hbelow⟩ := Option.bind_eq_some_iff.mp hwalk
  obtain ⟨schemas, hschemas, hbelow'⟩ := Option.bind_eq_some_iff.mp hbelow
  obtain ⟨found, hfound, hfrom⟩ := Option.bind_eq_some_iff.mp hbelow'
  have hget : ∀ {j value : Json} {key : String}, tokenIndex key = none →
      j.child key = some value → j.get key = some value := by
    intro j value key hindex hchild
    cases j with
    | arr items =>
      unfold Json.child at hchild
      rw [hindex] at hchild
      cases hchild
    | obj fields => exact hchild
    | null | bool _ | num _ | str _ => cases hchild
  rw [hget (by decide) hcomponents, Option.bind_some, hget (by decide) hschemas] at hschema
  cases schemas with
  | obj fields =>
    have hmem : (name, found) ∈ fields := mem_of_lookup hfound
    refine ⟨found, ?_, hfrom⟩
    unfold Handler.schemas specSchemas
    rw [hget (by decide) hcomponents, Option.bind_some, hget (by decide) hschemas]
    exact hmem
  | null | bool _ | num _ | str _ | arr _ => cases hschema

theorem pointer_of_resolves {doc : Json} {r : String} (h : (doc.resolve r).isSome = true) :
    ∃ place target, pointer r = some place ∧ doc.walk place = some target := by
  obtain ⟨target, htarget⟩ := Option.isSome_iff_exists.mp h
  obtain ⟨place, hplace, hwalk⟩ := Option.bind_eq_some_iff.mp htarget
  exact ⟨place, target, hplace, hwalk⟩

/-- A reference to a schema has a pointer to a member of the schemas. -/
theorem place_of_schema {rest : String} {place : List String}
    (h : pointer ("#/components/schemas/" ++ rest) = some place) :
    ∃ name tokens, place = "components" :: "schemas" :: name :: tokens := by
  rw [pointer_schema] at h
  obtain ⟨all, hall, rfl⟩ := Option.map_eq_some_iff.mp h
  obtain ⟨decoded, -, htokens⟩ := Option.bind_eq_some_iff.mp hall
  cases all with
  | nil => exact absurd rfl (pointerTokens_ne_nil htokens)
  | cons first all => exact ⟨_, _, rfl⟩

theorem closed_of_refsToSchemas (hresolving : Resolving handlers)
    (hrefs : RefsToSchemas handlers) : RefsClosed title routePrefix handlers := by
  have htargets : ∀ h ∈ handlers, ∀ r ∈ h.carriedRefs, isLocal r = true → ∀ place,
      pointer r = some place → ∃ place', Moved handlers routePrefix h place place' ∧
        pointer (rewriteRef h.name r) = some place' ∧
        ∀ target, h.spec.walk place = some target → ∃ target',
          (aggregate title handlers routePrefix).walk place' = some target' ∧
          ((∀ text, target ≠ .str text) → target' = updateSchemaRefs h.name target) := by
    intro h hh r hr hlocal place hplace
    obtain ⟨hschema, hname, hown⟩ := hrefs h hh r hr hlocal
    obtain ⟨rest, rfl⟩ := startsWith_iff.mp hschema
    obtain ⟨name, tokens, rfl⟩ := place_of_schema hplace
    obtain ⟨hhas, hkeeps⟩ := hown name tokens hplace
    refine ⟨_, .schema name tokens hhas hkeeps, (pointer_rewritten_iff hplace).mpr hname,
      fun target htarget => ?_⟩
    obtain ⟨schema, hmem, hwalk⟩ := Handler.walk_schema hhas htarget
    obtain ⟨target', htarget', hsame⟩ := walk_updateSchemaRefs h.name tokens hwalk
    refine ⟨target', ?_, hsame⟩
    rw [walk_schemas, schemaAt_of_keeps hkeeps hmem]
    exact htarget'
  refine ⟨fun r hr hlocal => ?_, htargets⟩
  obtain ⟨h, hh, r', hr', rfl⟩ := mem_refs_aggregate hr
  have hlocal' : isLocal r' = true := by
    cases hschema : startsWith "#/components/schemas/" r' with
    | true =>
      obtain ⟨rest, rfl⟩ := startsWith_iff.mp hschema
      exact startsWith_iff.mpr ⟨"components/schemas/" ++ rest, by
        rw [← String.append_assoc]; rfl⟩
    | false =>
      rw [rewriteRef_of_not_schema hschema] at hlocal
      exact hlocal
  obtain ⟨place, target, hplace, hwalk⟩ :=
    pointer_of_resolves (hresolving h hh r' (h.carriedRefs_subset r' hr') hlocal')
  obtain ⟨place', -, hplace', hall⟩ := htargets h hh r' hr' hlocal' place hplace
  obtain ⟨target', htarget', -⟩ := hall target hwalk
  unfold Json.resolve
  rw [hplace', Option.bind_some, htarget']
  rfl

/-- A reference that is left as it is points to where nothing of the handler is. -/
theorem RefsClosed.refsToSchemas (hresolving : Resolving handlers)
    (hclosed : RefsClosed title routePrefix handlers) : RefsToSchemas handlers := by
  intro h hh r hr hlocal
  obtain ⟨place, target, hplace, -⟩ :=
    pointer_of_resolves (hresolving h hh r (h.carriedRefs_subset r hr) hlocal)
  obtain ⟨place', hmoved, hplace', -⟩ := hclosed.targets h hh r hr hlocal place hplace
  cases hschema : startsWith "#/components/schemas/" r with
  | false =>
    rw [rewriteRef_of_not_schema hschema, hplace] at hplace'
    cases hmoved with
    | schema name tokens =>
      have hsame : name = prefixedName h.name name := by simpa using hplace'
      exact absurd hsame.symm (prefixedName_ne _ _)
    | path path tokens =>
      have hsame : path = fullPath routePrefix h.name path := by simpa using hplace'
      exact absurd hsame.symm (fullPath_ne _ _ _)
  | true =>
    obtain ⟨rest, rfl⟩ := startsWith_iff.mp hschema
    cases hmoved with
    | schema name tokens hhas hkeeps =>
      refine ⟨rfl, (pointer_rewritten_iff hplace).mp hplace', fun name' tokens' hplace'' => ?_⟩
      rw [hplace] at hplace''
      obtain ⟨rfl, rfl⟩ : name = name' ∧ tokens = tokens' := by simpa using hplace''
      exact ⟨hhas, hkeeps⟩
    | path path tokens =>
      obtain ⟨name, tokens', heq⟩ := place_of_schema hplace
      exact absurd (List.cons.inj heq).1 (by decide)

end

/-- Reference closure: for documents whose local references all resolve, those of the aggregate
    resolve, and each to the place and the rewritten thing it stood for, exactly when all local
    references in path items and schemas are written `#/components/schemas/…`, their handlers'
    names stand for themselves in a pointer, and no later handler took the key. -/
theorem references_closed_iff (title routePrefix : String) (handlers : List Handler)
    (hresolving : Resolving handlers) :
    RefsClosed title routePrefix handlers ↔ RefsToSchemas handlers :=
  ⟨RefsClosed.refsToSchemas hresolving, closed_of_refsToSchemas hresolving⟩

/-- A path whose operation refers to a parameter of the document. -/
def parameterSpec : Json :=
  .obj [("components", .obj [("parameters", .obj [("Limit", .obj [("in", .str "query")])])]),
    ("paths", .obj [("/", .obj [("get", .obj [("parameters",
      .arr [.obj [("$ref", .str "#/components/parameters/Limit")]])])])])]

theorem parameterSpec_canonical : parameterSpec.Canonical := by
  simp only [parameterSpec, Json.Canonical, fieldsCanonical, fieldCanonical, itemsCanonical,
    List.map_cons, List.map_nil, List.pairwise_cons, List.mem_cons, List.not_mem_nil,
    String.lt_iff_toList_lt, forall_eq_or_imp, false_implies, implies_true, List.Pairwise.nil,
    and_true]
  decide

/-- The parameters are left behind, and the reference to one dangles. -/
theorem parameter_reference_dangles :
    Resolving [⟨"users", parameterSpec, by decide, parameterSpec_canonical⟩] ∧
      ¬ RefsClosed "Platform API" "/run"
        [⟨"users", parameterSpec, by decide, parameterSpec_canonical⟩] := by
  constructor
  · intro h hh r hr _
    rw [List.mem_singleton.mp hh] at hr ⊢
    have hr' : r = "#/components/parameters/Limit" := List.mem_singleton.mp hr
    rw [hr']
    decide +kernel
  · intro hclosed
    have hdangling := hclosed.resolves "#/components/parameters/Limit" (by decide)
      (by decide)
    exact absurd hdangling (by decide +kernel)

/-- Two handlers that refer to a schema `User` of their own. -/
theorem references_closed_iff_users :
    RefsClosed "Platform API" "/run"
      [⟨"auth", smallSpec "User", by decide, smallSpec_canonical _⟩,
        ⟨"users", smallSpec "User", by decide, smallSpec_canonical _⟩] := by
  have hrefs : ∀ h : Handler, h.spec = smallSpec "User" → ∀ r ∈ h.spec.refs,
      r = "#/components/schemas/User" := by
    intro h hspec r hr
    rw [hspec] at hr
    exact List.mem_singleton.mp hr
  have hpointer : pointer "#/components/schemas/User" =
      some ["components", "schemas", "User"] := by decide +kernel
  refine (references_closed_iff _ _ _ ?_).mpr ?_
  · intro h hh r hr _
    rcases List.mem_pair.mp hh with rfl | rfl
    · rw [hrefs _ rfl r hr]
      decide +kernel
    · rw [hrefs _ rfl r hr]
      decide +kernel
  · intro h hh r hr _
    have hr' := h.carriedRefs_subset r hr
    rcases List.mem_pair.mp hh with rfl | rfl
    · rw [hrefs _ rfl r hr']
      refine ⟨by decide, by decide +kernel, fun name tokens hplace => ?_⟩
      rw [hpointer] at hplace
      cases hplace
      refine ⟨⟨_, List.mem_cons_self⟩, [], _, rfl, fun h' hh' name' hname' => ?_⟩
      rw [List.mem_singleton] at hh'
      subst hh'
      obtain ⟨schema, hschema⟩ := hname'
      have huser : name' = "User" := congrArg Prod.fst (List.mem_singleton.mp hschema)
      subst huser
      decide
    · rw [hrefs _ rfl r hr']
      refine ⟨by decide, by decide +kernel, fun name tokens hplace => ?_⟩
      rw [hpointer] at hplace
      cases hplace
      refine ⟨⟨_, List.mem_cons_self⟩, [_], [], rfl, fun h' hh' => ?_⟩
      cases hh'

end Mik.Gateway
