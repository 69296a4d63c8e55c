/-
  TOML values and the reading and writing of records, the way `serde` derives them.

  A `Codec` reads and writes one type and carries the proof that it reads back what it wrote. The
  same holds for a `FieldCodec` of a record, which may be absent: `FieldCodec.orDefault` is
  `#[serde(default)]`, and `FieldCodec.optional` an `Option` that is written only when it is there.
  A derived reader takes its fields from a table by name or from an array by position
  (`Toml.field`); a derived writer makes a table (`Toml.ofFields`), from which every field reads
  back what was written (`field_ofFields`).

  Integers are unbounded here, and the codec of a fixed-width type reads those that fit.
-/
import Mathlib.Data.List.Nodup
import Mik.Lib.OrderedTable

namespace Mik.Lib

inductive Toml where
  | boolean (value : Bool)
  | integer (value : Int)
  | float (text : String)
  | string (value : String)
  | datetime (text : String)
  | array (items : List Toml)
  | table (fields : List (String × Toml))
  deriving Repr

namespace Toml

/-- The value of the field `key`, the `i`-th of a record. -/
def field (v : Toml) (i : Nat) (key : String) : Option Toml :=
  match v with
  | table fields => fields.lookup key
  | array items => items[i]?
  | _ => none

/-- The value can be read as a record. -/
def isRecord : Toml → Bool
  | table _ => true
  | array _ => true
  | _ => false

/-- The table of the fields that are there. -/
def ofFields (fields : List (String × Option Toml)) : Toml :=
  table (fields.filterMap fun f => f.2.map fun v => (f.1, v))

@[simp] theorem isRecord_ofFields (fields : List (String × Option Toml)) :
    (ofFields fields).isRecord = true := rfl

theorem lookup_filterMap_of_notMem {fields : List (String × Option Toml)} {key : String}
    (h : key ∉ fields.map Prod.fst) :
    (fields.filterMap fun f => f.2.map fun v => (f.1, v)).lookup key = none := by
  rw [List.lookup_eq_none_iff]
  intro entry hentry
  obtain ⟨f, hf, hv⟩ := List.mem_filterMap.mp hentry
  obtain ⟨v, -, rfl⟩ := Option.map_eq_some_iff.mp hv
  rw [bne_iff_ne]
  intro hkey
  apply h
  rw [hkey]
  exact List.mem_map_of_mem hf

/-- A table that a derived writer made gives back the fields it was made of, wherever they are
    looked for. -/
theorem field_ofFields {fields : List (String × Option Toml)} {i : Nat} {key : String}
    {v : Option Toml} (hnodup : (fields.map Prod.fst).Nodup) (h : fields[i]? = some (key, v))
    (j : Nat) : (ofFields fields).field j key = v := by
  show (fields.filterMap fun f => f.2.map fun v => (f.1, v)).lookup key = v
  induction fields generalizing i with
  | nil => cases h
  | cons f fields ih =>
    rw [List.map_cons, List.nodup_cons] at hnodup
    cases i with
    | zero =>
      rw [List.getElem?_cons_zero] at h
      cases h
      cases v with
      | none =>
        have hnone := lookup_filterMap_of_notMem hnodup.1
        exact hnone
      | some v => exact List.lookup_cons_self
    | succ i =>
      rw [List.getElem?_cons_succ] at h
      have hrest := ih hnodup.2 h
      have hne : key ≠ f.1 := by
        intro hkey
        apply hnodup.1
        rw [← hkey]
        exact List.mem_map_of_mem (List.mem_of_getElem? h)
      rw [List.filterMap_cons]
      cases f.2 with
      | none => exact hrest
      | some w =>
        show ((f.1, w) :: _).lookup key = v
        rw [List.lookup_cons, beq_eq_false_iff_ne.mpr hne]
        exact hrest

/-- The fields that are not among those of the record are not read. -/
theorem field_ofFields_of_notMem {fields : List (String × Option Toml)} {i : Nat} {key : String}
    (h : key ∉ fields.map Prod.fst) : (ofFields fields).field i key = none :=
  lookup_filterMap_of_notMem h

end Toml

/-! ## Codecs -/

structure Codec (α : Type) where
  read : Toml → Option α
  write : α → Toml
  read_write : ∀ a, read (write a) = some a

structure FieldCodec (α : Type) where
  read : Option Toml → Option α
  write : α → Option Toml
  read_write : ∀ a, read (write a) = some a

namespace Codec

def boolean : Codec Bool where
  read
    | .boolean b => some b
    | _ => none
  write := .boolean
  read_write _ := rfl

def string : Codec String where
  read
    | .string s => some s
    | _ => none
  write := .string
  read_write _ := rfl

def uint64 : Codec UInt64 where
  read
    | .integer n => if 0 ≤ n ∧ n.toNat < UInt64.size then some (UInt64.ofNat n.toNat) else none
    | _ => none
  write n := .integer n.toNat
  read_write n := by
    simp only
    rw [Int.toNat_natCast, if_pos ⟨Int.natCast_nonneg _, n.toNat_lt_size⟩, UInt64.ofNat_toNat]

def uint32 : Codec UInt32 where
  read
    | .integer n => if 0 ≤ n ∧ n.toNat < UInt32.size then some (UInt32.ofNat n.toNat) else none
    | _ => none
  write n := .integer n.toNat
  read_write n := by
    simp only
    rw [Int.toNat_natCast, if_pos ⟨Int.natCast_nonneg _, n.toNat_lt_size⟩, UInt32.ofNat_toNat]

def uint16 : Codec UInt16 where
  read
    | .integer n => if 0 ≤ n ∧ n.toNat < UInt16.size then some (UInt16.ofNat n.toNat) else none
    | _ => none
  write n := .integer n.toNat
  read_write n := by
    simp only
    rw [Int.toNat_natCast, if_pos ⟨Int.natCast_nonneg _, n.toNat_lt_size⟩, UInt16.ofNat_toNat]

section

variable {α β : Type}

/-- A `Vec`. -/
def list (c : Codec α) : Codec (List α) where
  read
    | .array items => items.mapM c.read
    | _ => none
  write items := .array (items.map c.write)
  read_write items := by
    show (items.map c.write).mapM c.read = some items
    induction items with
    | nil => rfl
    | cons a items ih => simp [List.mapM_cons, c.read_write, ih]

/-- The readings of the values of a table, under their keys. -/
def readEntries (c : Codec α) (fields : List (String × Toml)) : Option (List (String × α)) :=
  fields.mapM fun f => (c.read f.2).map fun a => (f.1, a)

theorem readEntries_write (c : Codec α) (entries : List (String × α)) :
    c.readEntries (entries.map fun e => (e.1, c.write e.2)) = some entries := by
  unfold readEntries
  induction entries with
  | nil => rfl
  | cons e entries ih => simp [List.mapM_cons, c.read_write, ih]

/-- A `BTreeMap` with text keys. -/
def map (c : Codec α) : Codec (Table α) where
  read
    | .table fields => (c.readEntries fields).map Table.ofEntries
    | _ => none
  write t := .table (t.entries.map fun e => (e.1, c.write e.2))
  read_write t := by
    show (c.readEntries (t.entries.map fun e => (e.1, c.write e.2))).map Table.ofEntries = some t
    rw [readEntries_write, Option.map_some, Table.ofEntries_entries]

/-- An untagged enumeration of two variants; the first one that reads wins. What the second one
    writes must not read as the first. -/
def untagged (c : Codec α) (c' : Codec β) (h : ∀ b, c.read (c'.write b) = none) :
    Codec (α ⊕ β) where
  read v := ((c.read v).map .inl).or ((c'.read v).map .inr)
  write
    | .inl a => c.write a
    | .inr b => c'.write b
  read_write
    | .inl a => by simp [c.read_write]
    | .inr b => by simp [h, c'.read_write]

end

end Codec

namespace FieldCodec

variable {α : Type}

/-- A field that has to be there. -/
def required (c : Codec α) : FieldCodec α where
  read v := v.bind c.read
  write a := some (c.write a)
  read_write a := c.read_write a

/-- `#[serde(default = …)]`. -/
def orDefault (c : Codec α) (default : α) : FieldCodec α where
  read
    | none => some default
    | some v => c.read v
  write a := some (c.write a)
  read_write a := c.read_write a

theorem read_orDefault_some (c : Codec α) (default : α) (v : Toml) :
    (orDefault c default).read (some v) = c.read v := rfl

/-- `#[serde(default)]` on an `Option`; `None` is not written. -/
def optional (c : Codec α) : FieldCodec (Option α) where
  read
    | none => some none
    | some v => (c.read v).map some
  write a := a.map c.write
  read_write
    | none => rfl
    | some a => by simp [c.read_write]

end FieldCodec

/-! ## Records -/

/-- The fields of a record of type `σ` up to some point, in the order of its declaration, with what
    is still to be given the later ones: `read` makes the value from a TOML value, `value` from a
    record. `reads` connects the two. -/
structure Record (σ α : Type) where
  keys : List String
  read : Toml → Option α
  write : σ → List (String × Option Toml)
  value : σ → α
  keys_write : ∀ s, (write s).map Prod.fst = keys
  reads : ∀ s v, (∀ i key w, (write s)[i]? = some (key, w) → v.field i key = w) →
    read v = some (value s)

namespace Record

variable {σ α β : Type}

def make (f : α) : Record σ α where
  keys := []
  read _ := some f
  write _ := []
  value _ := f
  keys_write _ := rfl
  reads _ _ _ := rfl

/-- The record with one more field. -/
def field (r : Record σ (α → β)) (key : String) (f : FieldCodec α) (get : σ → α) : Record σ β where
  keys := r.keys ++ [key]
  read v := (r.read v).bind fun g => (f.read (v.field r.keys.length key)).map g
  write s := r.write s ++ [(key, f.write (get s))]
  value s := r.value s (get s)
  keys_write s := by rw [List.map_append, r.keys_write]; rfl
  reads s v h := by
    have hlen : r.keys.length = (r.write s).length := by rw [← r.keys_write s, List.length_map]
    have hbefore : r.read v = some (r.value s) := by
      apply r.reads
      intro i key' w hw
      have hi : i < (r.write s).length := (List.getElem?_eq_some_iff.mp hw).1
      apply h
      rw [List.getElem?_append_left hi, hw]
    have hlast : v.field r.keys.length key = f.write (get s) := by
      apply h
      rw [hlen, List.getElem?_concat_length]
    rw [hbefore, hlast, Option.bind_some, f.read_write]
    rfl

theorem read_field {r : Record σ (α → β)} {key : String} {f : FieldCodec α} {get : σ → α} {v : Toml}
    {b : β} :
    (r.field key f get).read v = some b ↔
      ∃ g, r.read v = some g ∧ ∃ a, f.read (v.field r.keys.length key) = some a ∧ g a = b := by
  show ((r.read v).bind fun g => (f.read (v.field r.keys.length key)).map g) = some b ↔ _
  simp only [Option.bind_eq_some_iff, Option.map_eq_some_iff]

/-- The fields up to this point read as `a`. -/
def Reads (r : Record σ α) (v : Toml) (a : α) : Prop := r.read v = some a

theorem reads_make (f : α) (v : Toml) : (make f : Record σ α).Reads v f := rfl

theorem Reads.field {r : Record σ (α → β)} {key : String} {f : FieldCodec α} {get : σ → α}
    {v : Toml} {g : α → β} {a : α} (h : r.Reads v g)
    (ha : f.read (v.field r.keys.length key) = some a) :
    (r.field key f get).Reads v (g a) :=
  read_field.mpr ⟨g, h, a, ha, rfl⟩

end Record

/-- The codec that is derived for a record. -/
def Codec.record {σ : Type} (r : Record σ σ) (hvalue : ∀ s, r.value s = s)
    (hnodup : r.keys.Nodup) : Codec σ where
  read v := if v.isRecord then r.read v else none
  write s := .ofFields (r.write s)
  read_write s := by
    show (if (Toml.ofFields (r.write s)).isRecord then r.read (.ofFields (r.write s)) else none) =
      some s
    rw [Toml.isRecord_ofFields, if_pos rfl, r.reads s, hvalue]
    intro i key w hw
    refine Toml.field_ofFields ?_ hw i
    rw [r.keys_write]
    exact hnodup

theorem Codec.read_record {σ : Type} {r : Record σ σ} {hvalue : ∀ s, r.value s = s}
    {hnodup : r.keys.Nodup} {v : Toml} {s : σ} :
    (Codec.record r hvalue hnodup).read v = some s ↔ v.isRecord = true ∧ r.read v = some s := by
  show (if v.isRecord then r.read v else none) = some s ↔ _
  by_cases h : v.isRecord = true
  · rw [if_pos h]
    simp [h]
  · rw [if_neg h]
    simp [h]

/-- A codec for values that stand for those of another type. -/
def Codec.iso {α β : Type} (c : Codec α) (f : α → β) (g : β → α) (h : ∀ b, f (g b) = b) :
    Codec β where
  read v := (c.read v).map f
  write b := c.write (g b)
  read_write b := by rw [c.read_write, Option.map_some, h]

end Mik.Lib
