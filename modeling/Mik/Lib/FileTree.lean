/-
  A directory tree, as the system calls on it see it.

  A path is the list of its names below the root directory, which is always there. `FileTree`
  carries the one invariant of a tree: whatever exists lies in a directory. `mkdir`, `write` and
  `removeFile` are the calls of the same names and answer `none` where the system answers with
  an error that follows from the tree; the lookup lemmas say what they change.
  `createDirAll` is `std::fs::create_dir_all`, with a bound on how many directories it is
  allowed to make.
-/
import Mathlib.Data.List.AList
import Mathlib.Data.List.Induction

namespace Mik.Lib

inductive Node (α : Type) where
  | dir
  | file (content : α)
  deriving DecidableEq, Repr

structure FileTree (α : Type) where
  nodes : AList fun _ : List String => Node α
  root_notMem : [] ∉ nodes
  parents : ∀ q ∈ nodes, q.dropLast ≠ [] → nodes.lookup q.dropLast = some .dir

namespace FileTree

variable {α : Type}

def empty : FileTree α := ⟨∅, AList.notMem_empty [], fun q hq => absurd hq (AList.notMem_empty q)⟩

def lookup (t : FileTree α) (q : List String) : Option (Node α) :=
  if q = [] then some .dir else t.nodes.lookup q

theorem lookup_empty_file (q : List String) (content : α) :
    (empty : FileTree α).lookup q ≠ some (.file content) := by
  unfold lookup empty
  split
  · simp
  · rw [AList.lookup_empty]
    simp

theorem lookup_of_ne {t : FileTree α} {q : List String} (h : q ≠ []) :
    t.lookup q = t.nodes.lookup q := if_neg h

theorem dropLast_ne_self {q : List String} (h : q ≠ []) : q.dropLast ≠ q := by
  intro heq
  have hlen := congrArg List.length heq
  rw [List.length_dropLast] at hlen
  have := List.length_pos_iff.mpr h
  omega

/-- A node put at `q`: its parent is a directory, and no directory is replaced by a file. -/
def setNode (t : FileTree α) (q : List String) (node : Node α) (hq : q ≠ [])
    (hparent : t.lookup q.dropLast = some .dir) (hkeep : node = .dir ∨ t.lookup q ≠ some .dir) :
    FileTree α where
  nodes := t.nodes.insert q node
  root_notMem := by
    rw [AList.mem_insert]
    rintro (h | h)
    · exact hq h.symm
    · exact t.root_notMem h
  parents := by
    intro q' hq' hne
    by_cases hparent' : q'.dropLast = q
    · rw [hparent', AList.lookup_insert]
      rcases hkeep with rfl | hnot
      · rfl
      · -- the parent of `q'` would have been a directory before
        have hmem : q' ∈ t.nodes := by
          rcases AList.mem_insert t.nodes |>.mp hq' with rfl | h
          · exact absurd hparent' (dropLast_ne_self hq)
          · exact h
        have := t.parents q' hmem hne
        rw [hparent', ← lookup_of_ne hq] at this
        exact absurd this hnot
    · rw [AList.lookup_insert_ne hparent']
      rcases AList.mem_insert t.nodes |>.mp hq' with rfl | h
      · rw [← lookup_of_ne hne]
        exact hparent
      · exact t.parents q' h hne

@[simp] theorem lookup_setNode (t : FileTree α) (q : List String) (node : Node α) (hq : q ≠ [])
    (hparent : t.lookup q.dropLast = some .dir) (hkeep : node = .dir ∨ t.lookup q ≠ some .dir)
    (q' : List String) :
    (t.setNode q node hq hparent hkeep).lookup q' = if q' = q then some node else t.lookup q' := by
  by_cases heq : q' = q
  · rw [if_pos heq, heq, lookup_of_ne hq]
    exact AList.lookup_insert t.nodes
  · rw [if_neg heq]
    unfold lookup
    by_cases hnil : q' = []
    · rw [if_pos hnil, if_pos hnil]
    · rw [if_neg hnil, if_neg hnil]
      exact AList.lookup_insert_ne heq

/-- `unlink`: a file is there. -/
def removeFile (t : FileTree α) (q : List String) : Option (FileTree α) :=
  match h : t.lookup q with
  | some (.file _) => some
    { nodes := t.nodes.erase q
      root_notMem := fun hmem => t.root_notMem (AList.mem_erase.mp hmem).2
      parents := by
        intro q' hq' hne
        have hdir := t.parents q' (AList.mem_erase.mp hq').2 hne
        have hother : q'.dropLast ≠ q := by
          rintro rfl
          rw [lookup_of_ne hne, hdir] at h
          cases h
        rw [AList.lookup_erase_ne hother]
        exact hdir }
  | _ => none

theorem removeFile_of_file {t : FileTree α} {q : List String} {content : α}
    (h : t.lookup q = some (.file content)) :
    ∃ t', t.removeFile q = some t' ∧
      ∀ q', t'.lookup q' = if q' = q then none else t.lookup q' := by
  have hq : q ≠ [] := by
    rintro rfl
    cases h
  unfold removeFile
  split
  · refine ⟨_, rfl, fun q' => ?_⟩
    by_cases heq : q' = q
    · rw [if_pos heq, heq, lookup_of_ne hq]
      exact AList.lookup_erase q t.nodes
    · rw [if_neg heq]
      unfold lookup
      by_cases hnil : q' = []
      · rw [if_pos hnil, if_pos hnil]
      · rw [if_neg hnil, if_neg hnil]
        exact AList.lookup_erase_ne heq
  · next hno => exact absurd h (hno content)

theorem removeFile_of_not_file {t : FileTree α} {q : List String}
    (h : ∀ content, t.lookup q ≠ some (.file content)) : t.removeFile q = none := by
  unfold removeFile
  split
  · next content hfile => exact absurd hfile (h content)
  · rfl

/-! ## Walking the tree -/

/-- The names in a directory. -/
def children (t : FileTree α) (dir : List String) : List String :=
  t.nodes.keys.filterMap fun q => if q.dropLast = dir then q.getLast? else none

/-- No path of the tree is longer. -/
def depth (t : FileTree α) : Nat := (t.nodes.keys.map List.length).foldr max 0

theorem lookup_eq_none_iff {t : FileTree α} {q : List String} :
    t.lookup q = none ↔ q ≠ [] ∧ q ∉ t.nodes.keys := by
  unfold lookup
  by_cases hnil : q = []
  · simp [hnil]
  · rw [if_neg hnil, AList.lookup_eq_none, AList.mem_keys]
    exact ⟨fun h => ⟨hnil, h⟩, fun h => h.2⟩

theorem mem_children_iff {t : FileTree α} {dir : List String} {name : String} :
    name ∈ t.children dir ↔ t.lookup (dir ++ [name]) ≠ none := by
  have hne : dir ++ [name] ≠ [] := by simp
  rw [ne_eq, lookup_eq_none_iff, not_and_not_right]
  unfold children
  rw [List.mem_filterMap]
  constructor
  · rintro ⟨q, hq, hname⟩ -
    split at hname
    · next hdir =>
      rw [← hdir, List.dropLast_append_getLast? name hname]
      exact hq
    · cases hname
  · intro h
    exact ⟨dir ++ [name], h hne, by simp⟩

/-- What has something below it is a directory. -/
theorem lookup_of_append {t : FileTree α} {dir rest : List String} (hrest : rest ≠ [])
    (h : t.lookup (dir ++ rest) ≠ none) : t.lookup dir = some .dir := by
  induction rest using List.reverseRecOn with
  | nil => exact absurd rfl hrest
  | append_singleton rest name ih =>
    rw [← List.append_assoc] at h
    have hmem : dir ++ rest ++ [name] ∈ t.nodes.keys := by
      by_contra hno
      exact h (lookup_eq_none_iff.mpr ⟨by simp, hno⟩)
    have hparent : t.lookup (dir ++ rest) = some .dir := by
      by_cases hnil : dir ++ rest = []
      · rw [hnil]
        rfl
      · have hdir := t.parents _ (AList.mem_keys.mpr hmem) (by simpa using hnil)
        rw [List.dropLast_concat] at hdir
        rw [lookup_of_ne hnil]
        exact hdir
    by_cases hend : rest = []
    · rw [hend, List.append_nil] at hparent
      exact hparent
    · exact ih hend (by rw [hparent]; simp)

theorem length_le_depth {t : FileTree α} {q : List String} (h : t.lookup q ≠ none) :
    q.length ≤ t.depth := by
  by_cases hnil : q = []
  · simp [hnil]
  · have hmem : q ∈ t.nodes.keys := by
      by_contra hno
      exact h (lookup_eq_none_iff.mpr ⟨hnil, hno⟩)
    unfold depth
    generalize t.nodes.keys = keys at hmem
    induction keys with
    | nil => cases hmem
    | cons q' keys ih =>
      rw [List.map_cons, List.foldr_cons]
      rcases List.mem_cons.mp hmem with rfl | hmem
      · exact le_max_left _ _
      · exact le_trans (ih hmem) (le_max_right _ _)

/-- A name of the path is missing in a directory that is there. -/
def Missing (t : FileTree α) (base names : List String) : Prop :=
  ∃ front name, front ++ [name] <+: names ∧ t.lookup (base ++ front) = some .dir ∧
    t.lookup (base ++ front ++ [name]) = none

theorem missing_cons {t : FileTree α} {base names : List String} {name : String}
    (hdir : t.lookup (base ++ [name]) = some .dir) :
    Missing t base (name :: names) ↔ Missing t (base ++ [name]) names := by
  constructor
  · rintro ⟨front, last, hpre, hfront, hnone⟩
    cases front with
    | nil =>
      obtain ⟨rfl, -⟩ := List.cons_prefix_cons.mp hpre
      rw [List.append_nil, hdir] at hnone
      cases hnone
    | cons first front =>
      obtain ⟨rfl, hrest⟩ := List.cons_prefix_cons.mp hpre
      have hsplit : base ++ first :: front = base ++ [first] ++ front := by simp
      rw [hsplit] at hfront hnone
      exact ⟨front, last, hrest, hfront, hnone⟩
  · rintro ⟨front, last, hpre, hfront, hnone⟩
    have hsplit : base ++ name :: front = base ++ [name] ++ front := by simp
    refine ⟨name :: front, last, List.cons_prefix_cons.mpr ⟨rfl, hpre⟩, ?_, ?_⟩
    · rw [hsplit]
      exact hfront
    · rw [hsplit]
      exact hnone

variable [DecidableEq α]

/-- `mkdir`: the parent is a directory and nothing is there yet. -/
def mkdir (t : FileTree α) (q : List String) : Option (FileTree α) :=
  if h : q ≠ [] ∧ t.lookup q.dropLast = some .dir ∧ t.lookup q = none then
    some (t.setNode q .dir h.1 h.2.1 (Or.inl rfl))
  else none

/-- Opening for writing, with truncation, and writing `content`: the parent is a directory and
    no directory is there. -/
def write (t : FileTree α) (q : List String) (content : α) : Option (FileTree α) :=
  if h : q ≠ [] ∧ t.lookup q.dropLast = some .dir ∧ t.lookup q ≠ some .dir then
    some (t.setNode q (.file content) h.1 h.2.1 (Or.inr h.2.2))
  else none

theorem lookup_mkdir {t t' : FileTree α} {q : List String} (h : t.mkdir q = some t')
    (q' : List String) : t'.lookup q' = if q' = q then some .dir else t.lookup q' := by
  unfold mkdir at h
  split at h
  · cases h
    exact lookup_setNode ..
  · cases h

theorem lookup_write {t t' : FileTree α} {q : List String} {content : α}
    (h : t.write q content = some t') (q' : List String) :
    t'.lookup q' = if q' = q then some (.file content) else t.lookup q' := by
  unfold write at h
  split at h
  · cases h
    exact lookup_setNode ..
  · cases h

theorem isSome_write {t : FileTree α} {q : List String} (content : α) :
    (t.write q content).isSome ↔
      q ≠ [] ∧ t.lookup q.dropLast = some .dir ∧ t.lookup q ≠ some .dir := by
  unfold write
  split
  · next h => exact ⟨fun _ => h, fun _ => rfl⟩
  · next h => exact ⟨fun hno => absurd hno (by simp), fun hyes => absurd hyes h⟩

/-! ## Creating all directories of a path -/

/-- `create_dir_all` from the directory `base` down `names`, making at most `limit` directories;
    whether it got there, and the tree it leaves. -/
def createDirAll (limit : Nat) (base : List String) :
    (names : List String) → FileTree α → Bool × FileTree α
  | [], t => (true, t)
  | name :: names, t =>
    match t.lookup (base ++ [name]) with
    | some .dir => createDirAll limit (base ++ [name]) names t
    | some (.file _) => (false, t)
    | none =>
      match limit, t.mkdir (base ++ [name]) with
      | limit + 1, some t' => createDirAll limit (base ++ [name]) names t'
      | _, _ => (false, t)

/-- Directories of the path may appear, and nothing else changes. -/
theorem lookup_createDirAll (limit : Nat) (base names : List String) (t : FileTree α)
    (q : List String) :
    (createDirAll limit base names t).2.lookup q = t.lookup q ∨
      (q <+: base ++ names ∧ t.lookup q = none ∧
        (createDirAll limit base names t).2.lookup q = some .dir) := by
  induction names generalizing limit base t with
  | nil => exact Or.inl rfl
  | cons name names ih =>
    have happend : base ++ name :: names = base ++ [name] ++ names := by simp
    rw [happend]
    unfold createDirAll
    split
    · exact ih limit _ t
    · exact Or.inl rfl
    · next hnone =>
      split
      · next limit t' hmk =>
        have hstep := lookup_mkdir hmk q
        rcases ih limit (base ++ [name]) t' with h | ⟨hpre, h, h'⟩
        · rw [h, hstep]
          by_cases hq : q = base ++ [name]
          · rw [if_pos hq, hq]
            exact Or.inr ⟨List.prefix_append _ _, hnone, rfl⟩
          · rw [if_neg hq]
            exact Or.inl rfl
        · rw [hstep] at h
          split at h
          · cases h
          · exact Or.inr ⟨hpre, h, h'⟩
      · exact Or.inl rfl

theorem createDirAll_file_iff (limit : Nat) (base names : List String) (t : FileTree α)
    (q : List String) (content : α) :
    (createDirAll limit base names t).2.lookup q = some (.file content) ↔
      t.lookup q = some (.file content) := by
  rcases lookup_createDirAll limit base names t q with h | ⟨-, h, h'⟩
  · rw [h]
  · rw [h, h']
    simp

/-- Where it gets through, the path is a directory. -/
theorem createDirAll_dir {limit : Nat} {base names : List String} {t : FileTree α}
    (hbase : t.lookup base = some .dir) (h : (createDirAll limit base names t).1 = true) :
    (createDirAll limit base names t).2.lookup (base ++ names) = some .dir := by
  induction names generalizing limit base t with
  | nil =>
    rw [List.append_nil]
    exact hbase
  | cons name names ih =>
    have happend : base ++ name :: names = base ++ [name] ++ names := by simp
    rw [happend]
    unfold createDirAll at h ⊢
    split at h
    · next hdir => exact ih hdir h
    · cases h
    · split at h
      · next hmk =>
        have hdir := lookup_mkdir hmk (base ++ [name])
        rw [if_pos rfl] at hdir
        exact ih hdir h
      · cases h

/-- It gets through when no file is in the way and it may make what is missing. -/
theorem createDirAll_of_no_file {limit : Nat} {base names : List String} {t : FileTree α}
    (hbase : t.lookup base = some .dir) (hlimit : names.length ≤ limit)
    (hfree : ∀ pre content, pre <+: names → t.lookup (base ++ pre) ≠ some (.file content)) :
    (createDirAll limit base names t).1 = true := by
  induction names generalizing limit base t with
  | nil => rfl
  | cons name names ih =>
    have hlen : names.length + 1 ≤ limit := by simpa using hlimit
    have hrest : ∀ pre content, pre <+: names →
        t.lookup (base ++ [name] ++ pre) ≠ some (.file content) := by
      intro pre content hpre
      rw [List.append_assoc]
      exact hfree (name :: pre) content (List.cons_prefix_cons.mpr ⟨rfl, hpre⟩)
    unfold createDirAll
    split
    · next hdir => exact ih hdir (by omega) hrest
    · next content hfile => exact absurd hfile (hfree [name] content ⟨names, rfl⟩)
    · next hnone =>
      obtain ⟨t', hmk⟩ : ∃ t', t.mkdir (base ++ [name]) = some t' := by
        unfold mkdir
        rw [dif_pos ⟨by simp, by simpa using hbase, hnone⟩]
        exact ⟨_, rfl⟩
      obtain ⟨limit', rfl⟩ : ∃ limit', limit = limit' + 1 := ⟨limit - 1, by omega⟩
      rw [hmk]
      have hlookup := lookup_mkdir hmk
      refine ih (by rw [hlookup, if_pos rfl]) (by omega) fun pre content hpre => ?_
      rw [hlookup]
      split
      · simp
      · exact hrest pre content hpre

/-- No directory appears exactly where none may be made or none is missing. -/
theorem createDirAll_same_iff {limit : Nat} {base names : List String} {t : FileTree α}
    (hbase : t.lookup base = some .dir) :
    (∀ q, (createDirAll limit base names t).2.lookup q = t.lookup q) ↔
      limit = 0 ∨ ¬ Missing t base names := by
  induction names generalizing limit base t with
  | nil =>
    refine ⟨fun _ => Or.inr ?_, fun _ _ => rfl⟩
    rintro ⟨front, name, hpre, -⟩
    exact absurd (List.prefix_nil.mp hpre) (by simp)
  | cons name names ih =>
    unfold createDirAll
    split
    · next hdir => rw [missing_cons hdir, ih hdir]
    · next content hfile =>
      refine ⟨fun _ => Or.inr ?_, fun _ _ => rfl⟩
      -- nothing is below a file
      rintro ⟨front, last, hpre, hfront, hnone⟩
      cases front with
      | nil =>
        obtain ⟨rfl, -⟩ := List.cons_prefix_cons.mp hpre
        rw [List.append_nil, hfile] at hnone
        cases hnone
      | cons first front =>
        obtain ⟨rfl, -⟩ := List.cons_prefix_cons.mp hpre
        have hsplit : base ++ first :: front = base ++ [first] ++ front := by simp
        rw [hsplit] at hfront
        by_cases hnil : front = []
        · rw [hnil, List.append_nil, hfile] at hfront
          cases hfront
        · have hdir := lookup_of_append hnil (by rw [hfront]; simp)
          rw [hfile] at hdir
          cases hdir
    · next hnone =>
      have hmissing : Missing t base (name :: names) :=
        ⟨[], name, List.cons_prefix_cons.mpr ⟨rfl, List.nil_prefix⟩, by simpa using hbase,
          by simpa using hnone⟩
      split
      · next limit t' hmk =>
        refine ⟨fun hsame => ?_, fun h => absurd hmissing (h.resolve_left (by simp))⟩
        have hmade := lookup_mkdir hmk (base ++ [name])
        rw [if_pos rfl] at hmade
        rcases lookup_createDirAll limit (base ++ [name]) names t' (base ++ [name]) with h | h
        · rw [hsame, hmade, hnone] at h
          cases h
        · rw [hmade] at h
          cases h.2.1
      · next hno =>
        refine ⟨fun _ => Or.inl ?_, fun _ _ => rfl⟩
        obtain ⟨t', hmk⟩ : ∃ t', t.mkdir (base ++ [name]) = some t' := by
          unfold mkdir
          rw [dif_pos ⟨by simp, by simpa using hbase, hnone⟩]
          exact ⟨_, rfl⟩
        by_contra hpos
        obtain ⟨limit', hlimit⟩ := Nat.exists_eq_succ_of_ne_zero hpos
        exact hno limit' t' hlimit hmk

end FileTree

end Mik.Lib
