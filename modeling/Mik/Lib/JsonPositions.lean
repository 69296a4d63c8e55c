/-
  Positions in a JSON value, and edits of the texts that its objects hold.

  A position is a path of keys and indices (`Step`), and `Json.node` is what stands there apart
  from what is further down: the leaf, the length of the array, the keys of the object. A
  canonical value is determined by its nodes (`Json.Canonical.ext`).

  `editTexts f` replaces every text under a key `k` of an object by `f k` of it and leaves the
  rest alone. Edits compose key by key, so an edit that can be undone on the texts can be undone
  on values (`editTexts_leftInverse`).
-/
import Mathlib.Logic.Function.Basic
import Mik.Lib.Json

namespace Mik.Lib

/-! ## Positions -/

namespace Json

inductive Step where
  | key (name : String)
  | index (i : Nat)
  deriving DecidableEq, Repr

/-- What stands at a position, without what is further down. -/
inductive Node where
  | null
  | bool (value : Bool)
  | num (text : String)
  | str (text : String)
  | arr (length : Nat)
  | obj (keys : List String)
  deriving DecidableEq, Repr

def node : Json → Node
  | null => .null
  | bool value => .bool value
  | num text => .num text
  | str text => .str text
  | arr items => .arr items.length
  | obj fields => .obj (fields.map Prod.fst)

/-- One step down. -/
def enter : Json → Step → Option Json
  | obj fields, .key name => fields.lookup name
  | arr items, .index i => items[i]?
  | _, _ => none

/-- What stands at a position, with all that is further down. -/
def reach : Json → List Step → Option Json
  | j, [] => some j
  | j, step :: path => (j.enter step).bind fun j => j.reach path

/-- The node at a position. -/
def nodeAt (j : Json) (path : List Step) : Option Node := (j.reach path).map node

end Json

/-! ## Edits of texts -/

mutual

/-- Every text under a key `k` of an object is replaced by `f k` of it. -/
def Json.editTexts (f : String → String → String) : Json → Json
  | .obj fields => .obj (editFields f fields)
  | .arr items => .arr (editItems f items)
  | value => value
termination_by structural value => value

def editItems (f : String → String → String) : List Json → List Json
  | [] => []
  | item :: rest => item.editTexts f :: editItems f rest
termination_by structural items => items

def editFields (f : String → String → String) : List (String × Json) → List (String × Json)
  | [] => []
  | field :: rest => editField f field :: editFields f rest
termination_by structural fields => fields

def editField (f : String → String → String) : String × Json → String × Json
  | (key, .str text) => (key, .str (f key text))
  | (key, value) => (key, value.editTexts f)
termination_by structural field => field

end

theorem editItems_eq (f : String → String → String) (items : List Json) :
    editItems f items = items.map (Json.editTexts f) := by
  induction items with
  | nil => rfl
  | cons item rest ih => rw [editItems, ih, List.map_cons]

theorem editFields_eq (f : String → String → String) (fields : List (String × Json)) :
    editFields f fields = fields.map (editField f) := by
  induction fields with
  | nil => rfl
  | cons field rest ih => rw [editFields, ih, List.map_cons]

namespace Json

variable {f g : String → String → String}

/-- What stands below a step after an edit. -/
def editUnder (f : String → String → String) : Step → Json → Json
  | .key key, .str text => .str (f key text)
  | _, value => value.editTexts f

theorem editField_eq (f : String → String → String) (key : String) (value : Json) :
    editField f (key, value) = (key, value.editUnder f (.key key)) := by
  cases value <;> rfl

theorem editField_fst (f : String → String → String) (field : String × Json) :
    (editField f field).1 = field.1 := by
  obtain ⟨key, value⟩ := field
  rw [editField_eq]

theorem keys_editFields (f : String → String → String) (fields : List (String × Json)) :
    (editFields f fields).map Prod.fst = fields.map Prod.fst := by
  rw [editFields_eq, List.map_map]
  exact List.map_congr_left fun field _ => editField_fst f field

/-! ## Composition -/

theorem editField_editField {key : String} {value : Json}
    (ih : (value.editTexts f).editTexts g = value.editTexts fun k text => g k (f k text)) :
    editField g (editField f (key, value)) =
      editField (fun k text => g k (f k text)) (key, value) := by
  cases value with
  | str text => rfl
  | null | bool _ | num _ | arr _ | obj _ => exact congrArg (Prod.mk key) ih

theorem editTexts_editTexts (f g : String → String → String) (j : Json) :
    (j.editTexts f).editTexts g = j.editTexts fun k text => g k (f k text) := by
  induction j using Json.induction with
  | null | bool b | num text | str text => rfl
  | arr items ih =>
    show arr (editItems g (editItems f items)) = arr (editItems _ items)
    rw [editItems_eq, editItems_eq, editItems_eq, List.map_map]
    exact congrArg arr (List.map_congr_left ih)
  | obj fields ih =>
    show obj (editFields g (editFields f fields)) = obj (editFields _ fields)
    rw [editFields_eq, editFields_eq, editFields_eq, List.map_map]
    exact congrArg obj (List.map_congr_left fun field hfield =>
      editField_editField (ih field hfield))

theorem editTexts_id (j : Json) : j.editTexts (fun _ text => text) = j := by
  induction j using Json.induction with
  | null | bool b | num text | str text => rfl
  | arr items ih =>
    show arr (editItems _ items) = arr items
    rw [editItems_eq, List.map_congr_left ih, List.map_id']
  | obj fields ih =>
    show obj (editFields _ fields) = obj fields
    have hfield : ∀ field ∈ fields, editField (fun _ text => text) field = field := by
      intro field hfield
      have hvalue := ih field hfield
      obtain ⟨key, value⟩ := field
      cases value with
      | str text => rfl
      | null | bool _ | num _ | arr _ | obj _ => exact congrArg (Prod.mk key) hvalue
    rw [editFields_eq, List.map_congr_left hfield, List.map_id']

/-- An edit that can be undone on the texts of every key can be undone on values. -/
theorem editTexts_leftInverse (h : ∀ key, Function.LeftInverse (g key) (f key)) :
    Function.LeftInverse (editTexts g) (editTexts f) := by
  intro j
  rw [editTexts_editTexts]
  have hid : (fun k text => g k (f k text)) = fun _ text => text :=
    funext fun k => funext fun text => h k text
  rw [hid, editTexts_id]

/-! ## What stands at a position after an edit -/

theorem node_editTexts (f : String → String → String) (j : Json) :
    (j.editTexts f).node = j.node := by
  cases j with
  | arr items =>
    show Node.arr (editItems f items).length = .arr items.length
    rw [editItems_eq, List.length_map]
  | obj fields =>
    exact congrArg Node.obj (keys_editFields f fields)
  | null | bool _ | num _ | str _ => rfl

theorem lookup_editFields (f : String → String → String) (fields : List (String × Json))
    (key : String) :
    (editFields f fields).lookup key = (fields.lookup key).map (editUnder f (.key key)) := by
  induction fields with
  | nil => rfl
  | cons field rest ih =>
    obtain ⟨k, value⟩ := field
    rw [editFields, editField_eq, lookup_cons_if, lookup_cons_if, ih]
    by_cases hkey : key = k
    · subst hkey
      rw [if_pos rfl, if_pos rfl, Option.map_some]
    · rw [if_neg hkey, if_neg hkey]

theorem enter_editTexts (f : String → String → String) (j : Json) (step : Step) :
    (j.editTexts f).enter step = (j.enter step).map (editUnder f step) := by
  cases j with
  | obj fields =>
    cases step with
    | key name => exact lookup_editFields f fields name
    | index i => rfl
  | arr items =>
    cases step with
    | key name => rfl
    | index i =>
      show (editItems f items)[i]? = items[i]?.map (editUnder f (.index i))
      rw [editItems_eq, List.getElem?_map]
      rfl
  | null | bool _ | num _ | str _ => rfl

/-- A text has nothing below it, so further down an edit does the same under every step. -/
theorem reach_editUnder (f : String → String → String) (step next : Step) (path : List Step)
    (j : Json) :
    (j.editUnder f step).reach (next :: path) = (j.editTexts f).reach (next :: path) := by
  cases step with
  | index i => rfl
  | key name => cases j <;> rfl

/-- What an edit makes of the node at the end of a path with this last step. -/
def Node.edit (f : String → String → String) : Option Step → Node → Node
  | some (.key key), .str text => .str (f key text)
  | _, node => node

theorem node_editUnder (f : String → String → String) (step : Step) (j : Json) :
    (j.editUnder f step).node = j.node.edit f (some step) := by
  cases step with
  | index i => exact node_editTexts f j
  | key name =>
    cases j with
    | str text => rfl
    | null | bool _ | num _ | arr _ | obj _ => exact node_editTexts f _

theorem nodeAt_cons (j : Json) (step : Step) (path : List Step) :
    j.nodeAt (step :: path) = (j.enter step).bind fun j => j.nodeAt path := by
  unfold nodeAt
  rw [reach, Option.map_bind]
  rfl

/-- An edit keeps the positions of a value and what stands there, up to the edited texts. -/
theorem nodeAt_editTexts (f : String → String → String) (j : Json) (path : List Step) :
    (j.editTexts f).nodeAt path = (j.nodeAt path).map (Node.edit f path.getLast?) := by
  induction path generalizing j with
  | nil => exact congrArg some (node_editTexts f j)
  | cons step path ih =>
    rw [nodeAt_cons, nodeAt_cons, enter_editTexts]
    cases j.enter step with
    | none => rfl
    | some below =>
      show (below.editUnder f step).nodeAt path = (below.nodeAt path).map _
      cases path with
      | nil => exact congrArg some (node_editUnder f step below)
      | cons next path =>
        have hbelow : (below.editUnder f step).nodeAt (next :: path) =
            (below.editTexts f).nodeAt (next :: path) :=
          congrArg (Option.map node) (reach_editUnder f step next path below)
        rw [hbelow, ih, List.getLast?_cons_cons]

/-! ## A value from its nodes -/

theorem fields_ext {fields fields' : List (String × Json)}
    (hkeys : fields.map Prod.fst = fields'.map Prod.fst) (hnodup : (fields.map Prod.fst).Nodup)
    (h : ∀ field ∈ fields, fields'.lookup field.1 = some field.2) : fields = fields' := by
  induction fields generalizing fields' with
  | nil => exact (List.map_eq_nil_iff.mp hkeys.symm).symm
  | cons field rest ih =>
    cases fields' with
    | nil => cases hkeys
    | cons field' rest' =>
      obtain ⟨hkey, hrest⟩ := List.cons.inj hkeys
      obtain ⟨hnotMem, hnodup⟩ := List.nodup_cons.mp hnodup
      have hfirst := h field List.mem_cons_self
      rw [lookup_cons_if, if_pos hkey] at hfirst
      have hsame : field = field' := Prod.ext hkey (Option.some.inj hfirst).symm
      subst hsame
      refine congrArg (List.cons field) (ih hrest hnodup fun field₁ hmem => ?_)
      have hne : field₁.1 ≠ field.1 := fun he => hnotMem (he ▸ List.mem_map_of_mem hmem)
      have hlookup := h field₁ (List.mem_cons_of_mem _ hmem)
      rwa [lookup_cons_if, if_neg hne] at hlookup

theorem Canonical.item {items : List Json} (h : (arr items).Canonical) {item : Json}
    (hmem : item ∈ items) : item.Canonical :=
  (itemsCanonical_iff items).mp h item hmem

theorem Canonical.member {fields : List (String × Json)} (h : (obj fields).Canonical)
    {field : String × Json} (hmem : field ∈ fields) : field.2.Canonical :=
  (fieldsCanonical_iff fields).mp h.2 field hmem

/-- A member of a canonical object is what stands under its key. -/
theorem Canonical.lookup {fields : List (String × Json)} (h : (obj fields).Canonical)
    {field : String × Json} (hmem : field ∈ fields) :
    fields.lookup field.1 = some field.2 := by
  cases hlookup : fields.lookup field.1 with
  | none => exact absurd rfl (bne_iff_ne.mp (List.lookup_eq_none_iff.mp hlookup field hmem))
  | some value =>
    have hvalue : value = field.2 := Canonical.unique h (mem_of_lookup hlookup) hmem
    rw [hvalue]

theorem Canonical.editTexts {j : Json} (h : j.Canonical) (f : String → String → String) :
    (j.editTexts f).Canonical := by
  induction j using Json.induction with
  | null | bool b | num text | str text => trivial
  | arr items ih =>
    show itemsCanonical (editItems f items)
    rw [editItems_eq, itemsCanonical_iff]
    intro edited hedited
    obtain ⟨item, hmem, rfl⟩ := List.mem_map.mp hedited
    exact ih item hmem (h.item hmem)
  | obj fields ih =>
    refine ⟨(keys_editFields f fields).symm ▸ h.1, (fieldsCanonical_iff _).mpr ?_⟩
    rw [editFields_eq]
    intro edited hedited
    obtain ⟨⟨key, value⟩, hmem, rfl⟩ := List.mem_map.mp hedited
    have hvalue := ih _ hmem (h.member hmem)
    rw [editField_eq]
    cases value with
    | str text => trivial
    | null | bool _ | num _ | arr _ | obj _ => exact hvalue

/-- A canonical value is determined by its nodes. -/
theorem Canonical.ext {j j' : Json} (hj : j.Canonical) (hj' : j'.Canonical)
    (h : ∀ path, j.nodeAt path = j'.nodeAt path) : j = j' := by
  induction j using Json.induction generalizing j' with
  | null | bool b | num text | str text =>
    have hroot := Option.some.inj (h [])
    cases j' <;> cases hroot
    rfl
  | arr items ih =>
    have hroot : Node.arr items.length = j'.node := Option.some.inj (h [])
    cases j' with
    | arr items' =>
      have hlength : items.length = items'.length := Node.arr.inj hroot
      refine congrArg arr (List.ext_getElem hlength fun i hi hi' => ?_)
      refine ih _ (List.getElem_mem hi) (hj.item (List.getElem_mem hi))
        (hj'.item (List.getElem_mem hi')) fun path => ?_
      have hpath := h (.index i :: path)
      rw [nodeAt_cons, nodeAt_cons, enter, enter, List.getElem?_eq_getElem hi,
        List.getElem?_eq_getElem hi'] at hpath
      exact hpath
    | null | bool _ | num _ | str _ | obj _ => cases hroot
  | obj fields ih =>
    have hroot : Node.obj (fields.map Prod.fst) = j'.node := Option.some.inj (h [])
    cases j' with
    | obj fields' =>
      have hkeys : fields.map Prod.fst = fields'.map Prod.fst := Node.obj.inj hroot
      refine congrArg obj (fields_ext hkeys hj.nodup fun field hmem => ?_)
      have hkey : field.1 ∈ fields'.map Prod.fst := hkeys ▸ List.mem_map_of_mem hmem
      obtain ⟨field', hmem', heq⟩ := List.mem_map.mp hkey
      have hlookup : fields'.lookup field.1 = some field'.2 := heq ▸ hj'.lookup hmem'
      have hvalue : field.2 = field'.2 := by
        refine ih field hmem (hj.member hmem) (hj'.member hmem') fun path => ?_
        have hpath := h (.key field.1 :: path)
        rw [nodeAt_cons, nodeAt_cons, enter, enter, hj.lookup hmem, hlookup] at hpath
        exact hpath
      rw [hlookup, hvalue]
    | null | bool _ | num _ | str _ | arr _ => cases hroot

end Json

end Mik.Lib
