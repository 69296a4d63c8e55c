/-
  The rewriting of schema references position by position (`update_schema_refs` in
  `src/runtime/gateway/openapi.rs`).

  The rewriting is an edit of the texts that objects hold: the text under a key `$ref` that points
  to a schema of the document gets the name of the handler, every other text stays
  (`updateSchemaRefs_eq_editTexts`). `Rewritten` says which node stands where afterwards, and a
  canonical value has one such result. The inserted text can be removed again (`restoreSchemaRefs`),
  so no two values have the same result.
-/
import Mik.Gateway.OpenApi
import Mik.Lib.JsonPositions

namespace Mik.Gateway

open Mik.Lib

/-! ## The rewriting as an edit of texts -/

/-- What becomes of a text under a key of an object. -/
def rewriteText (handlerName key text : String) : String :=
  if key = "$ref" then rewriteRef handlerName text else text

theorem updateField_eq_editField {handlerName key : String} {value : Json}
    (ih : updateSchemaRefs handlerName value = value.editTexts (rewriteText handlerName)) :
    updateField handlerName (key, value) = editField (rewriteText handlerName) (key, value) := by
  cases value with
  | str text =>
    show updateField handlerName (key, .str text) = (key, .str (rewriteText handlerName key text))
    rw [updateField]
    by_cases hkey : key = "$ref"
    · have href : schemaRef key (.str text) = stripPrefix "#/components/schemas/" text :=
        if_pos hkey
      rw [href, rewriteText, if_pos hkey, rewriteRef]
      cases stripPrefix "#/components/schemas/" text with
      | none => rfl
      | some schemaName => rfl
    · have href : schemaRef key (.str text) = none := if_neg hkey
      rw [href, rewriteText, if_neg hkey]
      rfl
  | null | bool _ | num _ | arr _ | obj _ =>
    rw [updateField_of_not_str (by simp), ih]
    rfl

theorem updateSchemaRefs_eq_editTexts (handlerName : String) (value : Json) :
    updateSchemaRefs handlerName value = value.editTexts (rewriteText handlerName) := by
  induction value using Json.induction with
  | null | bool b | num text | str text => rfl
  | arr items ih =>
    show Json.arr (updateItems handlerName items) = .arr (editItems _ items)
    rw [updateItems_eq, editItems_eq]
    exact congrArg Json.arr (List.map_congr_left ih)
  | obj fields ih =>
    show Json.obj (updateFields handlerName fields) = .obj (editFields _ fields)
    rw [updateFields_eq, editFields_eq]
    exact congrArg Json.obj (List.map_congr_left fun field hfield =>
      updateField_eq_editField (ih field hfield))

/-- The new object is the one that its fields give when they are inserted one after the other. -/
theorem updateSchemaRefs_inserted {fields : List (String × Json)}
    (h : (Json.obj fields).Canonical) (handlerName : String) :
    updateSchemaRefs handlerName (.obj fields) =
      .obj (insertFields (fields.map (updateField handlerName)) []) := by
  have hkeys : (updateFields handlerName fields).map Prod.fst = fields.map Prod.fst :=
    keys_updateSchemaRefs handlerName (.obj fields)
  rw [← updateFields_eq, insertFields_of_sorted (hkeys.symm ▸ h.1)]
  rfl

/-! ## What stands where -/

/-- What the rewriting makes of a value. -/
structure Rewritten (handlerName : String) (value value' : Json) : Prop where
  /-- No position is added and none is lost. -/
  positions : ∀ path, value'.nodeAt path = none ↔ value.nodeAt path = none
  /-- A reference to a schema of the document gets the name and an underscore. -/
  prefixed : ∀ path schemaName, path.getLast? = some (.key "$ref") →
    value.nodeAt path = some (.str ("#/components/schemas/" ++ schemaName)) →
    value'.nodeAt path = some (.str ("#/components/schemas/" ++ handlerName ++ "_" ++ schemaName))
  /-- Everything else stays as it is: leaves, lengths of arrays and keys of objects. -/
  kept : ∀ path node, value.nodeAt path = some node →
    (¬ ∃ schemaName, path.getLast? = some (.key "$ref") ∧
      node = .str ("#/components/schemas/" ++ schemaName)) →
    value'.nodeAt path = some node

theorem rewriteRef_append (handlerName schemaName : String) :
    rewriteRef handlerName ("#/components/schemas/" ++ schemaName) =
      "#/components/schemas/" ++ handlerName ++ "_" ++ schemaName := by
  unfold rewriteRef
  rw [stripPrefix_eq_some_iff.mpr rfl]

/-- The rewriting leaves a text alone that points elsewhere. -/
theorem rewriteRef_of_not {ref : String}
    (h : ¬ ∃ schemaName, ref = "#/components/schemas/" ++ schemaName) (handlerName : String) :
    rewriteRef handlerName ref = ref := by
  unfold rewriteRef
  split
  · next schemaName hprefix => exact absurd ⟨schemaName, stripPrefix_eq_some_iff.mp hprefix⟩ h
  · rfl

theorem edit_rewriteText_of_not {last : Option Json.Step} {node : Json.Node}
    (h : ¬ ∃ schemaName, last = some (.key "$ref") ∧
      node = .str ("#/components/schemas/" ++ schemaName)) (handlerName : String) :
    node.edit (rewriteText handlerName) last = node := by
  match last, node with
  | some (.key key), .str text =>
    show Json.Node.str (rewriteText handlerName key text) = .str text
    unfold rewriteText
    split
    · next hkey =>
      subst hkey
      refine congrArg Json.Node.str (rewriteRef_of_not ?_ handlerName)
      rintro ⟨schemaName, rfl⟩
      exact h ⟨schemaName, rfl, rfl⟩
    · rfl
  | none, _ => rfl
  | some (.index _), _ => rfl
  | some (.key _), .null => rfl
  | some (.key _), .bool _ => rfl
  | some (.key _), .num _ => rfl
  | some (.key _), .arr _ => rfl
  | some (.key _), .obj _ => rfl

theorem rewritten_updateSchemaRefs (handlerName : String) (value : Json) :
    Rewritten handlerName value (updateSchemaRefs handlerName value) := by
  have hnode := Json.nodeAt_editTexts (rewriteText handlerName) value
  rw [updateSchemaRefs_eq_editTexts]
  refine ⟨fun path => ?_, fun path schemaName hlast hvalue => ?_, fun path node hvalue h => ?_⟩
  · rw [hnode, Option.map_eq_none_iff]
  · rw [hnode, hvalue, hlast, Option.map_some, Json.Node.edit, rewriteText, if_pos rfl,
      rewriteRef_append]
  · rw [hnode, hvalue, Option.map_some, edit_rewriteText_of_not h]

/-- Two results of the rewriting have the same nodes. -/
theorem Rewritten.nodeAt_eq {handlerName : String} {value value₁ value₂ : Json}
    (h₁ : Rewritten handlerName value value₁) (h₂ : Rewritten handlerName value value₂)
    (path : List Json.Step) : value₁.nodeAt path = value₂.nodeAt path := by
  cases hvalue : value.nodeAt path with
  | none => rw [(h₁.positions path).mpr hvalue, (h₂.positions path).mpr hvalue]
  | some node =>
    by_cases href : ∃ schemaName, path.getLast? = some (.key "$ref") ∧
        node = .str ("#/components/schemas/" ++ schemaName)
    · obtain ⟨schemaName, hlast, rfl⟩ := href
      rw [h₁.prefixed path schemaName hlast hvalue, h₂.prefixed path schemaName hlast hvalue]
    · rw [h₁.kept path node hvalue href, h₂.kept path node hvalue href]

/-- A canonical value has one result. -/
theorem Rewritten.eq_updateSchemaRefs {handlerName : String} {value value' : Json}
    (hvalue : value.Canonical) (hvalue' : value'.Canonical)
    (h : Rewritten handlerName value value') : value' = updateSchemaRefs handlerName value := by
  refine hvalue'.ext ?_ (h.nodeAt_eq (rewritten_updateSchemaRefs handlerName value))
  rw [updateSchemaRefs_eq_editTexts]
  exact hvalue.editTexts _

/-! ## The way back -/

/-- A reference without the name of the handler. -/
def restoreRef (handlerName ref : String) : String :=
  match stripPrefix ("#/components/schemas/" ++ handlerName ++ "_") ref with
  | some schemaName => "#/components/schemas/" ++ schemaName
  | none => ref

def restoreText (handlerName key text : String) : String :=
  if key = "$ref" then restoreRef handlerName text else text

def restoreSchemaRefs (handlerName : String) : Json → Json :=
  Json.editTexts (restoreText handlerName)

theorem restoreRef_rewriteRef (handlerName ref : String) :
    restoreRef handlerName (rewriteRef handlerName ref) = ref := by
  by_cases h : ∃ schemaName, ref = "#/components/schemas/" ++ schemaName
  · obtain ⟨schemaName, rfl⟩ := h
    rw [rewriteRef_append, restoreRef, stripPrefix_eq_some_iff.mpr rfl]
  · rw [rewriteRef_of_not h, restoreRef]
    split
    · next schemaName hprefix =>
      refine absurd ⟨handlerName ++ "_" ++ schemaName, ?_⟩ h
      rw [stripPrefix_eq_some_iff.mp hprefix, String.append_assoc, String.append_assoc,
        String.append_assoc]
    · rfl

theorem restoreText_leftInverse (handlerName key : String) :
    Function.LeftInverse (restoreText handlerName key) (rewriteText handlerName key) := by
  intro text
  unfold restoreText rewriteText
  split
  · exact restoreRef_rewriteRef handlerName text
  · rfl

theorem restoreSchemaRefs_leftInverse (handlerName : String) :
    Function.LeftInverse (restoreSchemaRefs handlerName) (updateSchemaRefs handlerName) := by
  intro value
  rw [updateSchemaRefs_eq_editTexts]
  exact Json.editTexts_leftInverse (restoreText_leftInverse handlerName) value

/-- The rewriting changes the references to schemas and nothing else, and it can be undone. -/
theorem rewriting_exact_and_reversible (handlerName : String) :
    (∀ value, Rewritten handlerName value (updateSchemaRefs handlerName value)) ∧
      Function.Injective (updateSchemaRefs handlerName) ∧
      ∀ value, restoreSchemaRefs handlerName (updateSchemaRefs handlerName value) = value :=
  ⟨rewritten_updateSchemaRefs handlerName, (restoreSchemaRefs_leftInverse handlerName).injective,
    restoreSchemaRefs_leftInverse handlerName⟩

end Mik.Gateway
