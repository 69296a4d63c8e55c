/-
  The files of one directory, by name and by inode.

  A name leads to an inode, and the bytes are the inode's: who has opened a file keeps it, whatever
  happens to its name. `Directory` has no two names for one file, and only names allocated inodes,
  as fields. `create` is an open with O_CREAT and O_TRUNC, `writeAt` a write at an offset of an open
  file, `rename` and `unlink` are the system calls; the last two answer `none` where the name is
  missing. The lookup lemmas say what each does to the names.
-/
import Mathlib.Logic.Function.Basic
import Mik.Lib.OrderedTable

namespace Mik.Lib

open Function

structure Directory where
  names : Table Nat
  content : Nat → List UInt8
  /-- The inodes from here on are not used yet. -/
  next : Nat
  allocated : ∀ {name ino}, names.lookup name = some ino → ino < next
  unshared : ∀ {name name' ino}, names.lookup name = some ino → names.lookup name' = some ino →
    name = name'

namespace Directory

def empty : Directory where
  names := .empty
  content _ := []
  next := 0
  allocated h := nomatch h
  unshared h := nomatch h

def lookup (d : Directory) (name : String) : Option Nat := d.names.lookup name

variable {d : Directory} {name name' : String} {ino : Nat}

/-! ## Opening for writing -/

/-- The inode that a create opens. -/
def createdInode (d : Directory) (name : String) : Nat := (d.lookup name).getD d.next

/-- A name of a created inode is the one it was created under. -/
theorem name_of_createdInode (h : d.lookup name' = some (d.createdInode name)) : name' = name := by
  unfold createdInode at h
  cases hold : d.lookup name with
  | some ino =>
    rw [hold] at h
    exact d.unshared h hold
  | none =>
    rw [hold] at h
    exact absurd (d.allocated h) (Nat.lt_irrefl _)

/-- The file is empty afterwards, whether it was there or not. -/
def create (d : Directory) (name : String) : Directory where
  names := d.names.insert name (d.createdInode name)
  content := update d.content (d.createdInode name) []
  next := max d.next (d.createdInode name + 1)
  allocated := by
    intro name' ino h
    rw [Table.lookup_insert] at h
    split at h
    · have := Option.some.inj h
      omega
    · have := d.allocated h
      omega
  unshared := by
    intro name₁ name₂ ino h₁ h₂
    rw [Table.lookup_insert] at h₁ h₂
    split at h₁
    · next heq₁ =>
      split at h₂
      · next heq₂ => exact heq₁.trans heq₂.symm
      · rw [← h₁] at h₂
        exact heq₁.trans (name_of_createdInode h₂).symm
    · split at h₂
      · next heq₂ =>
        rw [← h₂] at h₁
        exact (name_of_createdInode h₁).trans heq₂.symm
      · exact d.unshared h₁ h₂

@[simp] theorem lookup_create (d : Directory) (name name' : String) :
    (d.create name).lookup name' =
      if name' = name then some (d.createdInode name) else d.lookup name' :=
  Table.lookup_insert _ _ _ _

theorem content_create (d : Directory) (name : String) :
    (d.create name).content = update d.content (d.createdInode name) [] := rfl

theorem next_le_create (d : Directory) (name : String) : d.next ≤ (d.create name).next :=
  Nat.le_max_left _ _

/-- A created inode is new, or that of the name. -/
theorem createdInode_cases (d : Directory) (name : String) :
    d.next ≤ d.createdInode name ∨ d.lookup name = some (d.createdInode name) := by
  unfold createdInode
  cases d.lookup name with
  | none => exact Or.inl (Nat.le_refl _)
  | some ino => exact Or.inr rfl

/-! ## Writing -/

/-- The bytes with others put at an offset; a gap before them is filled with zeros. -/
def patch (content : List UInt8) (offset : Nat) (bytes : List UInt8) : List UInt8 :=
  content.take offset ++ List.replicate (offset - content.length) 0 ++ bytes ++
    content.drop (offset + bytes.length)

theorem patch_end (content bytes : List UInt8) :
    patch content content.length bytes = content ++ bytes := by
  unfold patch
  rw [List.take_length, Nat.sub_self, List.replicate_zero, List.append_nil,
    List.drop_eq_nil_of_le (by omega), List.append_nil]

def writeAt (d : Directory) (ino offset : Nat) (bytes : List UInt8) : Directory :=
  { d with content := update d.content ino (patch (d.content ino) offset bytes) }

theorem content_writeAt (d : Directory) (ino offset : Nat) (bytes : List UInt8) :
    (d.writeAt ino offset bytes).content =
      update d.content ino (patch (d.content ino) offset bytes) := rfl

theorem lookup_writeAt (d : Directory) (ino offset : Nat) (bytes : List UInt8) (name : String) :
    (d.writeAt ino offset bytes).lookup name = d.lookup name := rfl

/-- A write at the end of a file. -/
theorem writeAt_end {offset : Nat} (h : (d.content ino).length = offset) (bytes : List UInt8) :
    d.writeAt ino offset bytes =
      { d with content := update d.content ino (d.content ino ++ bytes) } := by
  unfold writeAt
  rw [← h, patch_end]

/-- Nothing written at the end. -/
theorem writeAt_nil {offset : Nat} (h : (d.content ino).length = offset) :
    d.writeAt ino offset [] = d := by
  rw [writeAt_end h, List.append_nil, update_eq_self]

/-- Two writes, the second where the first has ended. -/
theorem writeAt_writeAt {offset : Nat} (h : (d.content ino).length = offset)
    (bytes bytes' : List UInt8) :
    (d.writeAt ino offset bytes).writeAt ino (offset + bytes.length) bytes' =
      d.writeAt ino offset (bytes ++ bytes') := by
  have hcontent : (d.writeAt ino offset bytes).content ino = d.content ino ++ bytes := by
    rw [writeAt_end h]
    exact update_self _ _ _
  have hlength : ((d.writeAt ino offset bytes).content ino).length = offset + bytes.length := by
    rw [hcontent, List.length_append, h]
  rw [writeAt_end hlength, hcontent, writeAt_end h, writeAt_end h]
  dsimp only
  rw [update_idem, List.append_assoc]

/-! ## Names -/

def unlink (d : Directory) (name : String) : Directory where
  names := d.names.remove name
  content := d.content
  next := d.next
  allocated := by
    intro name' ino h
    rw [Table.lookup_remove] at h
    split at h
    · cases h
    · exact d.allocated h
  unshared := by
    intro name₁ name₂ ino h₁ h₂
    rw [Table.lookup_remove] at h₁ h₂
    split at h₁
    · cases h₁
    · split at h₂
      · cases h₂
      · exact d.unshared h₁ h₂

@[simp] theorem lookup_unlink (d : Directory) (name name' : String) :
    (d.unlink name).lookup name' = if name' = name then none else d.lookup name' :=
  Table.lookup_remove _ _ _

/-- The file of `name` under `name'`, in the place of what was there. -/
def link (d : Directory) (name name' : String) (ino : Nat) (h : d.lookup name = some ino) :
    Directory where
  names := (d.names.remove name).insert name' ino
  content := d.content
  next := d.next
  allocated := by
    intro name₁ ino₁ h₁
    rw [Table.lookup_insert] at h₁
    split at h₁
    · rw [← Option.some.inj h₁]
      exact d.allocated h
    · exact (d.unlink name).allocated h₁
  unshared := by
    have hother : ∀ {name₁}, (d.names.remove name).lookup name₁ ≠ some ino := by
      intro name₁ h₁
      rw [Table.lookup_remove] at h₁
      split at h₁
      · cases h₁
      · next hne => exact hne (d.unshared h₁ h)
    intro name₁ name₂ ino' h₁ h₂
    rw [Table.lookup_insert] at h₁ h₂
    split at h₁
    · next heq₁ =>
      split at h₂
      · next heq₂ => exact heq₁.trans heq₂.symm
      · exact absurd (h₂.trans h₁.symm) hother
    · split at h₂
      · exact absurd (h₁.trans h₂.symm) hother
      · exact (d.unlink name).unshared h₁ h₂

def rename (d : Directory) (name name' : String) : Option Directory :=
  match h : d.lookup name with
  | none => none
  | some ino => some (d.link name name' ino h)

theorem rename_of_lookup (h : d.lookup name = some ino) :
    d.rename name name' = some (d.link name name' ino h) := by
  unfold rename
  split
  · next hnone =>
    rw [hnone] at h
    cases h
  · next ino' hsome =>
    cases hsome.symm.trans h
    rfl

@[simp] theorem lookup_link {h : d.lookup name = some ino} (name₁ : String) :
    (d.link name name' ino h).lookup name₁ =
      if name₁ = name' then some ino else if name₁ = name then none else d.lookup name₁ := by
  show ((d.names.remove name).insert name' ino).lookup name₁ = _
  rw [Table.lookup_insert, Table.lookup_remove]
  rfl

end Directory

end Mik.Lib
