/-
  JavaScript values as JSON (`js_to_json` of `src/runtime/script/context.rs`).

  A value is a primitive or a reference into a heap. The heap is any function on references of any
  type: a script can have its getters make new objects for ever, so a graph need not be finite. A
  getter that throws leaves an element or a property out, and only string keys are read.

  `js_to_json` calls itself for every element and property. `jsToJson frames` has room for `frames`
  nested calls, and is `none` when they are used up, which a native stack answers by ending the
  process. It never returns an error, so what it does on cyclic values is not to finish
  (`js_to_json_finishes_iff`).
-/
import Mik.Lib.Binary64
import Mik.Lib.Json
import Mik.Lib.Unfolding

namespace Mik.Runtime

open Mik.Lib Mik.Lib.Unfolding

/-! ## Values -/

inductive JsValue (Ref : Type) where
  | null
  | undefined
  | bool (b : Bool)
  | int (i : Int32)
  | float (bits : UInt64)
  /-- A string without a text has a lone surrogate. -/
  | string (text : Option String)
  | object (ref : Ref)
  | symbol
  | bigInt (value : Int)
  deriving DecidableEq, Repr

/-- What a reference leads to; `none` stands for what cannot be read. -/
inductive JsObject (Ref : Type) where
  | array (items : List (Option (JsValue Ref)))
  | object (props : List (Option (String × JsValue Ref)))

abbrev Heap (Ref : Type) := Ref → JsObject Ref

section

variable {Ref : Type}

/-- The values in an object. -/
def JsObject.members : JsObject Ref → List (JsValue Ref)
  | .array items => items.filterMap id
  | .object props => (props.filterMap id).map Prod.snd

def children (heap : Heap Ref) : JsValue Ref → List (JsValue Ref)
  | .object ref => (heap ref).members
  | _ => []

/-! ## The conversion -/

/-- The loop over an array; the first failure ends it. -/
def convertItems (convert : JsValue Ref → Option (Except String Json)) :
    List (Option (JsValue Ref)) → Option (Except String (List Json))
  | [] => some (.ok [])
  | none :: rest => convertItems convert rest
  | some item :: rest =>
    match convert item with
    | none => none
    | some (.error e) => some (.error e)
    | some (.ok j) =>
      match convertItems convert rest with
      | none => none
      | some (.error e) => some (.error e)
      | some (.ok js) => some (.ok (j :: js))

/-- The loop over the properties of an object, with the map built so far. -/
def convertProps (convert : JsValue Ref → Option (Except String Json)) :
    List (Option (String × JsValue Ref)) → List (String × Json) →
      Option (Except String (List (String × Json)))
  | [], fields => some (.ok fields)
  | none :: rest, fields => convertProps convert rest fields
  | some (key, val) :: rest, fields =>
    match convert val with
    | none => none
    | some (.error e) => some (.error e)
    | some (.ok j) => convertProps convert rest (insertField key j fields)

/-- `js_to_json`; `floatText` is how `serde_json` writes a finite number. -/
def jsToJson (floatText : UInt64 → String) (heap : Heap Ref) :
    Nat → JsValue Ref → Option (Except String Json)
  | 0, _ => none
  | _ + 1, .null => some (.ok .null)
  | _ + 1, .undefined => some (.ok .null)
  | _ + 1, .bool b => some (.ok (.bool b))
  | _ + 1, .int i => some (.ok (.num (toString i.toInt)))
  | _ + 1, .float bits =>
    some (.ok (if Binary64.IsFinite bits then .num (floatText bits) else .null))
  | _ + 1, .string (some text) => some (.ok (.str text))
  | _ + 1, .string none => some (.ok .null)
  | _ + 1, .symbol => some (.ok .null)
  | _ + 1, .bigInt _ => some (.ok .null)
  | frames + 1, .object ref =>
    match heap ref with
    | .array items =>
      (convertItems (jsToJson floatText heap frames) items).map fun r => r.map Json.arr
    | .object props =>
      (convertProps (jsToJson floatText heap frames) props []).map fun r => r.map Json.obj

/-- `j` is the JSON of a value. -/
inductive JsonOf (floatText : UInt64 → String) (heap : Heap Ref) : JsValue Ref → Json → Prop
  | null : JsonOf floatText heap .null .null
  | undefined : JsonOf floatText heap .undefined .null
  | bool (b : Bool) : JsonOf floatText heap (.bool b) (.bool b)
  | int (i : Int32) : JsonOf floatText heap (.int i) (.num (toString i.toInt))
  | float {bits : UInt64} (h : Binary64.IsFinite bits) :
      JsonOf floatText heap (.float bits) (.num (floatText bits))
  | notFinite {bits : UInt64} (h : ¬ Binary64.IsFinite bits) :
      JsonOf floatText heap (.float bits) .null
  | string (text : String) : JsonOf floatText heap (.string (some text)) (.str text)
  | malformed : JsonOf floatText heap (.string none) .null
  | symbol : JsonOf floatText heap .symbol .null
  | bigInt (value : Int) : JsonOf floatText heap (.bigInt value) .null
  | array {ref : Ref} {items : List (Option (JsValue Ref))} {js : List Json}
      (h : heap ref = .array items)
      (hitems : List.Forall₂ (JsonOf floatText heap) (items.filterMap id) js) :
      JsonOf floatText heap (.object ref) (.arr js)
  | object {ref : Ref} {props : List (Option (String × JsValue Ref))}
      {fields : List (String × Json)} (h : heap ref = .object props)
      (hkeys : fields.map Prod.fst = (props.filterMap id).map Prod.fst)
      (hvalues : List.Forall₂ (JsonOf floatText heap) ((props.filterMap id).map Prod.snd)
        (fields.map Prod.snd)) :
      JsonOf floatText heap (.object ref) (.obj (insertFields fields []))

/-! ## The loops -/

/-- A conversion that returns no error. -/
def NoError (convert : JsValue Ref → Option (Except String Json)) : Prop :=
  ∀ v e, convert v ≠ some (.error e)

/-- The conversion returns this. -/
def Yields (convert : JsValue Ref → Option (Except String Json)) (v : JsValue Ref) (j : Json) :
    Prop := convert v = some (.ok j)

variable {convert : JsValue Ref → Option (Except String Json)}

theorem yields_or_none (hno : NoError convert) (v : JsValue Ref) :
    (∃ j, Yields convert v j) ∨ convert v = none := by
  unfold Yields
  cases h : convert v with
  | none => exact Or.inr rfl
  | some r =>
    cases r with
    | error e => exact absurd h (hno v e)
    | ok j => exact Or.inl ⟨j, rfl⟩

theorem convertItems_cases (hno : NoError convert) (items : List (Option (JsValue Ref))) :
    (∃ js, convertItems convert items = some (.ok js) ∧
      List.Forall₂ (Yields convert) (items.filterMap id) js) ∨
    convertItems convert items = none ∧ ∃ v ∈ items.filterMap id, convert v = none := by
  induction items with
  | nil => exact Or.inl ⟨[], rfl, .nil⟩
  | cons item items ih =>
    cases item with
    | none => exact ih
    | some v =>
      have hrest : (some v :: items).filterMap id = v :: items.filterMap id := rfl
      rw [hrest]
      unfold convertItems
      rcases yields_or_none hno v with ⟨j, hj⟩ | hnone
      · rw [show convert v = _ from hj]
        dsimp only
        rcases ih with ⟨js, heq, hall⟩ | ⟨heq, w, hw, hwnone⟩
        · rw [heq]
          exact Or.inl ⟨j :: js, rfl, .cons hj hall⟩
        · rw [heq]
          exact Or.inr ⟨rfl, w, List.mem_cons_of_mem _ hw, hwnone⟩
      · rw [hnone]
        exact Or.inr ⟨rfl, v, List.mem_cons_self, hnone⟩

theorem convertProps_cases (hno : NoError convert) (props : List (Option (String × JsValue Ref)))
    (acc : List (String × Json)) :
    (∃ fields, convertProps convert props acc = some (.ok (insertFields fields acc)) ∧
      fields.map Prod.fst = (props.filterMap id).map Prod.fst ∧
      List.Forall₂ (Yields convert) ((props.filterMap id).map Prod.snd)
        (fields.map Prod.snd)) ∨
    convertProps convert props acc = none ∧
      ∃ v ∈ (props.filterMap id).map Prod.snd, convert v = none := by
  induction props generalizing acc with
  | nil => exact Or.inl ⟨[], rfl, rfl, .nil⟩
  | cons prop props ih =>
    cases prop with
    | none => exact ih acc
    | some p =>
      obtain ⟨key, v⟩ := p
      have hrest : (some (key, v) :: props).filterMap id = (key, v) :: props.filterMap id := rfl
      rw [hrest]
      unfold convertProps
      rcases yields_or_none hno v with ⟨j, hj⟩ | hnone
      · rw [show convert v = _ from hj]
        dsimp only
        rcases ih (insertField key j acc) with ⟨fields, heq, hkeys, hall⟩ | ⟨heq, w, hw, hwnone⟩
        · rw [heq]
          exact Or.inl ⟨(key, j) :: fields, rfl, congrArg (List.cons key) hkeys, .cons hj hall⟩
        · rw [heq]
          exact Or.inr ⟨rfl, w, List.mem_cons_of_mem _ hw, hwnone⟩
      · rw [hnone]
        exact Or.inr ⟨rfl, v, List.mem_cons_self, hnone⟩

theorem exists_of_forall₂ {l : List (JsValue Ref)} {js : List Json}
    (h : List.Forall₂ (Yields convert) l js) : ∀ v ∈ l, ∃ j, Yields convert v j := by
  induction h with
  | nil => exact fun _ hv => absurd hv List.not_mem_nil
  | cons hhead _ ih => exact List.forall_mem_cons.mpr ⟨⟨_, hhead⟩, ih⟩

/-! ## The recursion -/

variable {floatText : UInt64 → String} {heap : Heap Ref}

theorem children_array {ref : Ref} {items : List (Option (JsValue Ref))}
    (h : heap ref = .array items) : children heap (.object ref) = items.filterMap id := by
  show (heap ref).members = _
  rw [h]
  rfl

theorem children_object {ref : Ref} {props : List (Option (String × JsValue Ref))}
    (h : heap ref = .object props) :
    children heap (.object ref) = (props.filterMap id).map Prod.snd := by
  show (heap ref).members = _
  rw [h]
  rfl

theorem jsToJson_array {ref : Ref} {items : List (Option (JsValue Ref))}
    (h : heap ref = .array items) (frames : Nat) :
    jsToJson floatText heap (frames + 1) (.object ref) =
      (convertItems (jsToJson floatText heap frames) items).map fun r => r.map Json.arr := by
  unfold jsToJson
  rw [h]

theorem jsToJson_object {ref : Ref} {props : List (Option (String × JsValue Ref))}
    (h : heap ref = .object props) (frames : Nat) :
    jsToJson floatText heap (frames + 1) (.object ref) =
      (convertProps (jsToJson floatText heap frames) props []).map fun r => r.map Json.obj := by
  unfold jsToJson
  rw [h]

/-- With this room the conversion returns the JSON of the values that are nested no deeper, and
    nothing for the others. -/
def Faithful (floatText : UInt64 → String) (heap : Heap Ref) (frames : Nat) : Prop :=
  ∀ v, (Fits (children heap) frames v ∧
      ∃ j, jsToJson floatText heap frames v = some (.ok j) ∧ JsonOf floatText heap v j) ∨
    ¬ Fits (children heap) frames v ∧ jsToJson floatText heap frames v = none

theorem Faithful.noError {frames : Nat} (h : Faithful floatText heap frames) :
    NoError (jsToJson floatText heap frames) := by
  intro v e herror
  rcases h v with ⟨-, j, hj, -⟩ | ⟨-, hnone⟩
  · cases hj.symm.trans herror
  · cases hnone.symm.trans herror

theorem Faithful.of_yields {frames : Nat} (h : Faithful floatText heap frames) {v : JsValue Ref}
    {j : Json} (hj : Yields (jsToJson floatText heap frames) v j) :
    Fits (children heap) frames v ∧ JsonOf floatText heap v j := by
  rcases h v with ⟨hfits, j', hj', hof⟩ | ⟨-, hnone⟩
  · cases hj'.symm.trans hj
    exact ⟨hfits, hof⟩
  · cases hnone.symm.trans hj

theorem Faithful.not_fits {frames : Nat} (h : Faithful floatText heap frames) {v : JsValue Ref}
    (hnone : jsToJson floatText heap frames v = none) : ¬ Fits (children heap) frames v := by
  rcases h v with ⟨-, j, hj, -⟩ | ⟨hnot, -⟩
  · cases hnone.symm.trans hj
  · exact hnot

theorem Faithful.fits_of_forall₂ {frames : Nat} (h : Faithful floatText heap frames)
    {l : List (JsValue Ref)} {js : List Json}
    (hall : List.Forall₂ (Yields (jsToJson floatText heap frames)) l js) :
    ∀ v ∈ l, Fits (children heap) frames v := by
  intro v hv
  obtain ⟨j, hj⟩ := exists_of_forall₂ hall v hv
  exact (h.of_yields hj).1

/-- Room for one more call. -/
theorem Faithful.succ {frames : Nat} (h : Faithful floatText heap frames) :
    Faithful floatText heap (frames + 1) := by
  intro v
  have hleaf : children heap v = [] → Fits (children heap) (frames + 1) v := by
    intro hempty b hb
    rw [hempty] at hb
    cases hb
  cases v with
  | null => exact Or.inl ⟨hleaf rfl, _, rfl, .null⟩
  | undefined => exact Or.inl ⟨hleaf rfl, _, rfl, .undefined⟩
  | bool b => exact Or.inl ⟨hleaf rfl, _, rfl, .bool b⟩
  | int i => exact Or.inl ⟨hleaf rfl, _, rfl, .int i⟩
  | float bits =>
    refine Or.inl ⟨hleaf rfl, _, rfl, ?_⟩
    split
    · next h => exact .float h
    · next h => exact .notFinite h
  | string text =>
    cases text with
    | none => exact Or.inl ⟨hleaf rfl, _, rfl, .malformed⟩
    | some text => exact Or.inl ⟨hleaf rfl, _, rfl, .string text⟩
  | symbol => exact Or.inl ⟨hleaf rfl, _, rfl, .symbol⟩
  | bigInt value => exact Or.inl ⟨hleaf rfl, _, rfl, .bigInt value⟩
  | object ref =>
    cases hobj : heap ref with
    | array items =>
      have hmembers := children_array hobj
      rw [jsToJson_array hobj]
      rcases convertItems_cases h.noError items with ⟨js, heq, hall⟩ | ⟨heq, w, hw, hnone⟩
      · rw [heq]
        exact Or.inl ⟨fun w hw => h.fits_of_forall₂ hall w (hmembers ▸ hw), .arr js, rfl,
          .array hobj (hall.imp fun w j hj => (h.of_yields hj).2)⟩
      · rw [heq]
        exact Or.inr ⟨fun hfits => h.not_fits hnone (hfits w (hmembers ▸ hw)), rfl⟩
    | object props =>
      have hmembers := children_object hobj
      rw [jsToJson_object hobj]
      rcases convertProps_cases h.noError props [] with
        ⟨fields, heq, hkeys, hall⟩ | ⟨heq, w, hw, hnone⟩
      · rw [heq]
        exact Or.inl ⟨fun w hw => h.fits_of_forall₂ hall w (hmembers ▸ hw),
          .obj (insertFields fields []), rfl,
          .object hobj hkeys (hall.imp fun w j hj => (h.of_yields hj).2)⟩
      · rw [heq]
        exact Or.inr ⟨fun hfits => h.not_fits hnone (hfits w (hmembers ▸ hw)), rfl⟩

theorem jsToJson_cases (frames : Nat) : Faithful floatText heap frames := by
  induction frames with
  | zero => exact fun v => Or.inr ⟨id, rfl⟩
  | succ frames ih => exact ih.succ

theorem jsToJson_isSome_iff (frames : Nat) (v : JsValue Ref) :
    (jsToJson floatText heap frames v).isSome = true ↔ Fits (children heap) frames v := by
  rcases @jsToJson_cases _ floatText heap frames v with ⟨hfits, j, hj, -⟩ | ⟨hnot, hnone⟩
  · rw [hj]
    exact iff_of_true rfl hfits
  · rw [hnone]
    exact iff_of_false Bool.false_ne_true hnot

/-- It returns no error. -/
theorem jsToJson_ok {frames : Nat} {v : JsValue Ref} {r : Except String Json}
    (h : jsToJson floatText heap frames v = some r) : ∃ j, r = .ok j ∧ JsonOf floatText heap v j := by
  rcases @jsToJson_cases _ floatText heap frames v with ⟨-, j, hj, hof⟩ | ⟨-, hnone⟩
  · exact ⟨j, Option.some.inj (h.symm.trans hj), hof⟩
  · cases hnone.symm.trans h

theorem convertItems_of_yields {items : List (Option (JsValue Ref))} {js : List Json}
    (h : List.Forall₂ (Yields convert) (items.filterMap id) js) :
    convertItems convert items = some (.ok js) := by
  induction items generalizing js with
  | nil =>
    cases h
    rfl
  | cons item items ih =>
    cases item with
    | none => exact ih h
    | some v =>
      rcases h with _ | ⟨hv, hrest⟩
      unfold convertItems
      rw [show convert v = _ from hv, ih hrest]

theorem convertProps_of_yields {props : List (Option (String × JsValue Ref))}
    {fields : List (String × Json)} (acc : List (String × Json))
    (hkeys : fields.map Prod.fst = (props.filterMap id).map Prod.fst)
    (h : List.Forall₂ (Yields convert) ((props.filterMap id).map Prod.snd)
      (fields.map Prod.snd)) :
    convertProps convert props acc = some (.ok (insertFields fields acc)) := by
  induction props generalizing fields acc with
  | nil =>
    rw [List.map_eq_nil_iff.mp hkeys]
    rfl
  | cons prop props ih =>
    cases prop with
    | none => exact ih acc hkeys h
    | some p =>
      obtain ⟨key, v⟩ := p
      cases fields with
      | nil => cases hkeys
      | cons field fields =>
        obtain ⟨hkey, hkeys'⟩ := List.cons_eq_cons.mp hkeys
        rcases h with _ | ⟨hv, hrest⟩
        unfold convertProps
        rw [show convert v = _ from hv]
        dsimp only
        rw [show key = field.1 from hkey.symm]
        exact ih (insertField field.1 field.2 acc) hkeys' hrest

/-- With room for the nesting, the JSON of a value is what the conversion returns. -/
theorem jsToJson_eq {frames : Nat} {v : JsValue Ref} {j : Json} (hj : JsonOf floatText heap v j)
    (hfits : Fits (children heap) frames v) : jsToJson floatText heap frames v = some (.ok j) := by
  induction frames generalizing v j with
  | zero => exact hfits.elim
  | succ frames ih =>
    -- the members of an object one after the other
    have hmembers : ∀ l js, (∀ w ∈ l, w ∈ children heap v) →
        List.Forall₂ (JsonOf floatText heap) l js →
        List.Forall₂ (Yields (jsToJson floatText heap frames)) l js := by
      intro l js hsub hall
      induction hall with
      | nil => exact .nil
      | cons hhead _ ih' =>
        obtain ⟨hfirst, hrest⟩ := List.forall_mem_cons.mp hsub
        exact .cons (ih hhead (hfits _ hfirst)) (ih' hrest)
    cases hj with
    | null => rfl
    | undefined => rfl
    | bool b => rfl
    | int i => rfl
    | float h =>
      unfold jsToJson
      rw [if_pos h]
    | notFinite h =>
      unfold jsToJson
      rw [if_neg h]
    | string text => rfl
    | malformed => rfl
    | symbol => rfl
    | bigInt value => rfl
    | array h hitems =>
      have hyields := hmembers _ _ (fun w hw => children_array h ▸ hw) hitems
      rw [jsToJson_array h, convertItems_of_yields hyields]
      rfl
    | object h hkeys hvalues =>
      have hyields := hmembers _ _ (fun w hw => children_object h ▸ hw) hvalues
      rw [jsToJson_object h, convertProps_of_yields [] hkeys hyields]
      rfl

/-- The conversion finishes on a value, with its JSON where the graph is finite and acyclic, and with
    an error elsewhere. -/
def Converts (floatText : UInt64 → String) (heap : Heap Ref) (v : JsValue Ref) : Prop :=
  ∃ frames r, jsToJson floatText heap frames v = some r ∧
    (FiniteAcyclic (children heap) v → ∃ j, r = .ok j ∧ JsonOf floatText heap v j) ∧
    (¬ FiniteAcyclic (children heap) v → ∃ e, r = .error e)

end

/-- Conversion finishes as it should exactly on finite and acyclic graphs; with room for so many
    nested calls, it finishes exactly on the values that are nested no deeper. -/
theorem js_to_json_finishes_iff {Ref : Type} (floatText : UInt64 → String) (heap : Heap Ref)
    (v : JsValue Ref) :
    (Converts floatText heap v ↔ FiniteAcyclic (children heap) v) ∧
      ∀ frames, (jsToJson floatText heap frames v).isSome = true ↔
        Fits (children heap) frames v := by
  refine ⟨?_, fun frames => jsToJson_isSome_iff frames v⟩
  rw [← fits_iff]
  constructor
  · rintro ⟨frames, r, hr, -, -⟩
    refine ⟨frames, (@jsToJson_isSome_iff _ floatText heap frames v).mp ?_⟩
    rw [hr]
    rfl
  · intro hfits
    have hgraph := fits_iff.mp hfits
    obtain ⟨frames, h⟩ := hfits
    obtain ⟨r, hr⟩ := Option.isSome_iff_exists.mp
      ((@jsToJson_isSome_iff _ floatText heap frames v).mpr h)
    exact ⟨frames, r, hr, fun _ => jsToJson_ok hr, fun hnot => absurd hgraph hnot⟩

/-- An object that holds itself. -/
def selfHeap : Heap Unit := fun _ => .object [some ("self", .object ())]

/-- No room is enough for it. -/
theorem cyclic_not_converted :
    (∀ frames, jsToJson (fun _ => "0.5") selfHeap frames (.object ()) = none) ∧
      ¬ Converts (fun _ => "0.5") selfHeap (.object ()) := by
  have hnone : ∀ frames, jsToJson (fun _ => "0.5") selfHeap frames (.object ()) = none := by
    intro frames
    induction frames with
    | zero => rfl
    | succ frames ih =>
      show (convertProps (jsToJson (fun _ => "0.5") selfHeap frames)
        [some ("self", .object ())] []).map _ = none
      unfold convertProps
      rw [ih]
      rfl
  refine ⟨hnone, ?_⟩
  rintro ⟨frames, r, hr, -⟩
  cases (hnone frames).symm.trans hr

end Mik.Runtime
