/-
  A table with text keys in increasing order, as an embedded database keeps it.

  The order of the keys is a field of `Table`, so every operation keeps it by construction. A scan
  of a range of keys is a filter of the entries; the range from `p ++ c` to `p ++ c'`, where no
  character lies between `c` and `c'`, holds exactly the keys that start with `p ++ c`
  (`between_iff_prefix`).
-/
import Mathlib.Data.List.Nodup
import Mathlib.Data.List.Perm.Lattice
import Mathlib.Data.String.Basic
import Mik.Lib.Text

namespace Mik.Lib

structure Table (α : Type) where
  entries : List (String × α)
  sorted : (entries.map Prod.fst).Pairwise (· < ·)

namespace Table

variable {α : Type}

def empty : Table α := ⟨[], List.Pairwise.nil⟩

def values (t : Table α) : List α := t.entries.map Prod.snd

/-! ## Insertion -/

def insertEntry (key : String) (value : α) : List (String × α) → List (String × α)
  | [] => [(key, value)]
  | entry :: rest =>
    if key < entry.1 then (key, value) :: entry :: rest
    else if key = entry.1 then (key, value) :: rest
    else entry :: insertEntry key value rest

theorem mem_keys_insertEntry {key key' : String} {value : α} {entries : List (String × α)}
    (h : key' ∈ (insertEntry key value entries).map Prod.fst) :
    key' = key ∨ key' ∈ entries.map Prod.fst := by
  induction entries with
  | nil => exact Or.inl (List.mem_singleton.mp h)
  | cons entry rest ih =>
    unfold insertEntry at h
    split at h
    · exact List.mem_cons.mp h
    · split at h
      · exact (List.mem_cons.mp h).imp_right (List.mem_cons_of_mem _)
      · rcases List.mem_cons.mp h with rfl | h
        · exact Or.inr List.mem_cons_self
        · exact (ih h).imp_right (List.mem_cons_of_mem _)

theorem sorted_insertEntry (key : String) (value : α) {entries : List (String × α)}
    (h : (entries.map Prod.fst).Pairwise (· < ·)) :
    ((insertEntry key value entries).map Prod.fst).Pairwise (· < ·) := by
  induction entries with
  | nil => exact List.pairwise_singleton _ _
  | cons entry rest ih =>
    obtain ⟨hentry, hrest⟩ := List.pairwise_cons.mp h
    unfold insertEntry
    split
    · next hlt =>
      refine List.pairwise_cons.mpr ⟨fun key' hkey' => ?_, h⟩
      rcases List.mem_cons.mp hkey' with rfl | hkey'
      · exact hlt
      · exact lt_trans hlt (hentry key' hkey')
    · split
      · next heq =>
        refine List.pairwise_cons.mpr ⟨fun key' hkey' => ?_, hrest⟩
        show key < key'
        rw [heq]
        exact hentry key' hkey'
      · next hlt hne =>
        refine List.pairwise_cons.mpr ⟨fun key' hkey' => ?_, ih hrest⟩
        rcases mem_keys_insertEntry hkey' with rfl | hkey'
        · exact lt_of_le_of_ne (not_lt.mp hlt) (Ne.symm hne)
        · exact hentry key' hkey'

/-- Inserts a value; what was under the key before is replaced. -/
def insert (t : Table α) (key : String) (value : α) : Table α :=
  ⟨insertEntry key value t.entries, sorted_insertEntry key value t.sorted⟩

theorem insertEntry_of_mem {key : String} {value : α} {entries : List (String × α)}
    (h : (entries.map Prod.fst).Pairwise (· < ·)) (hmem : (key, value) ∈ entries) :
    insertEntry key value entries = entries := by
  induction entries with
  | nil => exact absurd hmem List.not_mem_nil
  | cons entry rest ih =>
    obtain ⟨hentry, hrest⟩ := List.pairwise_cons.mp h
    unfold insertEntry
    rcases List.mem_cons.mp hmem with heq | hmem
    · rw [← heq, if_neg (lt_irrefl key), if_pos rfl]
    · have hlt : entry.1 < key := hentry key (List.mem_map_of_mem hmem)
      rw [if_neg (lt_asymm hlt), if_neg (ne_of_gt hlt), ih hrest hmem]

/-! ## Removal and scans -/

def remove (t : Table α) (key : String) : Table α where
  entries := t.entries.filter fun entry => entry.1 ≠ key
  sorted := t.sorted.sublist (List.filter_sublist.map Prod.fst)

def contains (t : Table α) (key : String) : Bool := t.entries.any fun entry => entry.1 == key

/-- The entries from the key `first` on and before the key `last`. -/
def range (t : Table α) (first last : String) : List (String × α) :=
  t.entries.filter fun entry => first ≤ entry.1 ∧ entry.1 < last

def lookup (t : Table α) (key : String) : Option α := t.entries.lookup key

/-! ## What the operations do -/

theorem nodup_keys (t : Table α) : (t.entries.map Prod.fst).Nodup :=
  t.sorted.imp fun hlt => ne_of_lt hlt

theorem unique (t : Table α) {entry entry' : String × α} (h : entry ∈ t.entries)
    (h' : entry' ∈ t.entries) (hkey : entry.1 = entry'.1) : entry = entry' :=
  List.inj_on_of_nodup_map t.nodup_keys h h' hkey

theorem perm_insertEntry (key : String) (value : α) {entries : List (String × α)}
    (h : (entries.map Prod.fst).Pairwise (· < ·)) :
    (insertEntry key value entries).Perm
      ((key, value) :: entries.filter fun entry => entry.1 ≠ key) := by
  induction entries with
  | nil => exact List.Perm.refl _
  | cons entry rest ih =>
    obtain ⟨hentry, hrest⟩ := List.pairwise_cons.mp h
    have hlater : ∀ {key'}, key' ≤ entry.1 →
        rest.filter (fun e => decide (e.1 ≠ key')) = rest := by
      intro key' hle
      refine List.filter_eq_self.mpr fun e he => decide_eq_true ?_
      exact ne_of_gt (lt_of_le_of_lt hle (hentry e.1 (List.mem_map_of_mem he)))
    unfold insertEntry
    split
    · next hlt =>
      have hne : entry.1 ≠ key := ne_of_gt hlt
      rw [List.filter_cons_of_pos (by simp [hne]), hlater (le_of_lt hlt)]
    · split
      · next heq =>
        rw [List.filter_cons_of_neg (by simp [heq]), hlater (le_of_eq heq)]
      · next hlt hne =>
        rw [List.filter_cons_of_pos (by simp [Ne.symm hne])]
        exact ((ih hrest).cons entry).trans (List.Perm.swap _ _ _)

theorem insert_perm (t : Table α) (key : String) (value : α) :
    (t.insert key value).entries.Perm
      ((key, value) :: t.entries.filter fun entry => entry.1 ≠ key) :=
  perm_insertEntry key value t.sorted

theorem mem_insert {t : Table α} {key : String} {value : α} {entry : String × α} :
    entry ∈ (t.insert key value).entries ↔
      entry = (key, value) ∨ entry ∈ t.entries ∧ entry.1 ≠ key := by
  rw [(t.insert_perm key value).mem_iff, List.mem_cons, List.mem_filter, decide_eq_true_eq]

theorem mem_remove {t : Table α} {key : String} {entry : String × α} :
    entry ∈ (t.remove key).entries ↔ entry ∈ t.entries ∧ entry.1 ≠ key := by
  show entry ∈ t.entries.filter _ ↔ _
  rw [List.mem_filter, decide_eq_true_eq]

theorem lookup_eq_some_iff {t : Table α} {key : String} {value : α} :
    t.lookup key = some value ↔ (key, value) ∈ t.entries := by
  constructor
  · intro h
    obtain ⟨before, after, heq, -⟩ := List.lookup_eq_some_iff.mp h
    rw [heq]
    exact List.mem_append_right _ List.mem_cons_self
  · intro hmem
    obtain ⟨before, after, heq⟩ := List.append_of_mem hmem
    refine List.lookup_eq_some_iff.mpr ⟨before, after, heq, fun entry hentry => ?_⟩
    have hnodup := t.nodup_keys
    rw [heq, List.map_append, List.map_cons] at hnodup
    have hnotMem := (List.nodup_append'.mp hnodup).2.2
    refine bne_iff_ne.mpr fun hkey => ?_
    exact hnotMem (List.mem_map_of_mem hentry) (hkey ▸ List.mem_cons_self)

theorem lookup_insert (t : Table α) (key key' : String) (value : α) :
    (t.insert key value).lookup key' = if key' = key then some value else t.lookup key' := by
  apply Option.ext
  intro value'
  rw [lookup_eq_some_iff, mem_insert]
  by_cases hkey : key' = key
  · subst hkey
    rw [if_pos rfl, Option.some.injEq, Prod.mk.injEq]
    constructor
    · rintro (⟨-, rfl⟩ | ⟨-, hne⟩)
      · rfl
      · exact absurd rfl hne
    · rintro rfl
      exact Or.inl ⟨rfl, rfl⟩
  · rw [if_neg hkey, lookup_eq_some_iff]
    constructor
    · rintro (heq | ⟨hmem, -⟩)
      · exact absurd (congrArg Prod.fst heq) hkey
      · exact hmem
    · intro hmem
      exact Or.inr ⟨hmem, hkey⟩

theorem lookup_remove (t : Table α) (key key' : String) :
    (t.remove key).lookup key' = if key' = key then none else t.lookup key' := by
  apply Option.ext
  intro value'
  rw [lookup_eq_some_iff, mem_remove]
  by_cases hkey : key' = key
  · rw [if_pos hkey]
    constructor
    · rintro ⟨-, hne⟩
      exact absurd hkey hne
    · intro h
      cases h
  · rw [if_neg hkey, lookup_eq_some_iff]
    exact ⟨fun h => h.1, fun h => ⟨h, hkey⟩⟩

/-! ## Tables of given entries -/

/-- The entries inserted one after the other. -/
def insertAll (t : Table α) (entries : List (String × α)) : Table α :=
  entries.foldl (fun t entry => t.insert entry.1 entry.2) t

/-- The table of the entries; of those with one key the last one stays. -/
def ofEntries (entries : List (String × α)) : Table α := empty.insertAll entries

theorem insertEntry_last {key : String} {value : α} {entries : List (String × α)}
    (h : ∀ entry ∈ entries, entry.1 < key) :
    insertEntry key value entries = entries ++ [(key, value)] := by
  induction entries with
  | nil => rfl
  | cons entry rest ih =>
    have hlt := h entry List.mem_cons_self
    unfold insertEntry
    rw [if_neg (lt_asymm hlt), if_neg (ne_of_gt hlt),
      ih fun entry' hentry' => h entry' (List.mem_cons_of_mem _ hentry'), List.cons_append]

theorem entries_insertAll (t : Table α) (entries : List (String × α))
    (h : ((t.entries ++ entries).map Prod.fst).Pairwise (· < ·)) :
    (t.insertAll entries).entries = t.entries ++ entries := by
  induction entries generalizing t with
  | nil => exact (List.append_nil _).symm
  | cons entry rest ih =>
    have hinsert : (t.insert entry.1 entry.2).entries = t.entries ++ [entry] := by
      refine insertEntry_last fun entry' hentry' => ?_
      rw [List.map_append, List.pairwise_append] at h
      exact h.2.2 _ (List.mem_map_of_mem hentry') _ List.mem_cons_self
    have hrest := ih (t.insert entry.1 entry.2) (by
      rw [hinsert, List.append_assoc]
      exact h)
    rw [hinsert, List.append_assoc] at hrest
    exact hrest

/-- A table is the table of its entries. -/
theorem ofEntries_entries (t : Table α) : ofEntries t.entries = t := by
  have hentries := entries_insertAll empty t.entries t.sorted
  cases t with
  | mk entries sorted =>
    show (⟨(ofEntries entries).entries, (ofEntries entries).sorted⟩ : Table α) = _
    congr 1

end Table

/-! ## Records under their own keys -/

/-- A table in which every record is under its key. -/
structure Records {α : Type} (key : α → String) where
  table : Table α
  keyed : ∀ entry ∈ table.entries, entry.1 = key entry.2

namespace Records

variable {α : Type} {key : α → String}

def empty : Records key := ⟨.empty, fun _ h => absurd h List.not_mem_nil⟩

def values (r : Records key) : List α := r.table.values

def lookup (r : Records key) (k : String) : Option α := r.table.lookup k

def put (r : Records key) (value : α) : Records key where
  table := r.table.insert (key value) value
  keyed := by
    intro entry hentry
    rcases Table.mem_insert.mp hentry with rfl | ⟨hentry, -⟩
    · rfl
    · exact r.keyed entry hentry

def remove (r : Records key) (k : String) : Records key where
  table := r.table.remove k
  keyed := fun entry hentry => r.keyed entry (Table.mem_remove.mp hentry).1

variable {r : Records key}

theorem mem_values {value : α} : value ∈ r.values ↔ (key value, value) ∈ r.table.entries := by
  unfold values Table.values
  rw [List.mem_map]
  constructor
  · rintro ⟨entry, hentry, rfl⟩
    rw [← r.keyed entry hentry]
    exact hentry
  · intro hentry
    exact ⟨_, hentry, rfl⟩

theorem mem_values_iff_lookup {value : α} :
    value ∈ r.values ↔ r.lookup (key value) = some value := by
  rw [mem_values]
  exact Table.lookup_eq_some_iff.symm

theorem key_of_lookup {k : String} {value : α} (h : r.lookup k = some value) : key value = k :=
  (r.keyed _ (Table.lookup_eq_some_iff.mp h)).symm

theorem map_key_values : r.values.map key = r.table.entries.map Prod.fst := by
  unfold values Table.values
  rw [List.map_map]
  exact List.map_congr_left fun entry hentry => (r.keyed entry hentry).symm

theorem nodup_values (r : Records key) : r.values.Nodup := by
  have hkeys := r.table.nodup_keys
  rw [← map_key_values] at hkeys
  exact hkeys.of_map

theorem eq_of_key {value value' : α} (h : value ∈ r.values) (h' : value' ∈ r.values)
    (hkey : key value = key value') : value = value' :=
  congrArg Prod.snd (r.table.unique (mem_values.mp h) (mem_values.mp h') hkey)

/-- What a filter of the entries by their record leaves of the records. -/
theorem map_filter_entries (r : Records key) (p : String × α → Bool) (q : α → Bool)
    (hpq : ∀ entry ∈ r.table.entries, p entry = q entry.2) :
    (r.table.entries.filter p).map Prod.snd = r.values.filter q := by
  unfold values Table.values
  rw [List.filter_map, List.filter_congr hpq]
  rfl

theorem values_remove (k : String) : (r.remove k).values = r.values.filter fun v => key v ≠ k := by
  refine map_filter_entries r _ _ fun entry hentry => ?_
  rw [r.keyed entry hentry]

theorem values_put (value : α) :
    (r.put value).values.Perm (value :: r.values.filter fun v => key v ≠ key value) := by
  rw [← values_remove]
  exact (r.table.insert_perm (key value) value).map Prod.snd

/-- Putting a record that is there changes nothing. -/
theorem put_of_lookup {value : α} (h : r.lookup (key value) = some value) : r.put value = r := by
  have hentries := Table.insertEntry_of_mem r.table.sorted (Table.lookup_eq_some_iff.mp h)
  obtain ⟨⟨entries, sorted⟩, keyed⟩ := r
  unfold put Table.insert
  congr 2

@[simp] theorem lookup_put (value : α) (k : String) :
    (r.put value).lookup k = if k = key value then some value else r.lookup k :=
  Table.lookup_insert _ _ _ _

@[simp] theorem lookup_remove (k k' : String) :
    (r.remove k).lookup k' = if k' = k then none else r.lookup k' :=
  Table.lookup_remove _ _ _

end Records

/-! ## Ranges of texts -/

theorem between_singleton {c c' : Char} (hnext : ∀ x : Char, c ≤ x → x < c' → x = c)
    (hlt : c < c') (cs : List Char) : ([c] ≤ cs ∧ cs < [c']) ↔ [c] <+: cs := by
  cases cs with
  | nil => simp
  | cons x cs =>
    rw [List.cons_prefix_cons, List.cons_lt_cons_iff]
    constructor
    · rintro ⟨hle, hx | ⟨-, hnil⟩⟩
      · have hcx : c ≤ x := by
          rw [← not_lt]
          intro hxc
          exact absurd (List.cons_lt_cons_iff.mpr (Or.inl hxc)) (not_lt.mpr hle)
        exact ⟨(hnext x hcx hx).symm, List.nil_prefix⟩
      · exact absurd hnil (List.not_lt_nil _)
    · rintro ⟨rfl, -⟩
      refine ⟨?_, Or.inl hlt⟩
      rw [← not_lt, List.cons_lt_cons_iff]
      rintro (hcc | ⟨-, hnil⟩)
      · exact lt_irrefl _ hcc
      · exact List.not_lt_nil _ hnil

/-- Between a text ended by one character and by the next one are the continuations. -/
theorem between_iff_prefix {c c' : Char} (hnext : ∀ x : Char, c ≤ x → x < c' → x = c)
    (hlt : c < c') (p cs : List Char) :
    (p ++ [c] ≤ cs ∧ cs < p ++ [c']) ↔ (p ++ [c]) <+: cs := by
  induction p generalizing cs with
  | nil => exact between_singleton hnext hlt cs
  | cons a p ih =>
    cases cs with
    | nil => simp
    | cons x cs =>
      simp only [List.cons_append, List.cons_prefix_cons]
      rw [← ih cs, ← not_lt, ← not_lt, List.cons_lt_cons_iff, List.cons_lt_cons_iff]
      constructor
      · rintro ⟨hge, hxa | ⟨rfl, hlast⟩⟩
        · exact absurd (Or.inl hxa) hge
        · exact ⟨rfl, fun hfirst => hge (Or.inr ⟨rfl, hfirst⟩), hlast⟩
      · rintro ⟨rfl, hfirst, hlast⟩
        refine ⟨?_, Or.inr ⟨rfl, hlast⟩⟩
        rintro (haa | ⟨-, hbefore⟩)
        · exact lt_irrefl _ haa
        · exact hfirst hbefore

end Mik.Lib
