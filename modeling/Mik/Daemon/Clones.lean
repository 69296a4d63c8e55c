/-
  Clones of the storage backends (`daemon/services/kv`, `daemon/services/storage`).

  All four are documented as `Clone` and shareable. `RedbBackend` and `FilesystemBackend` hold their
  database in an `Arc`, and the files of the second are the directory's, so their clones share one
  store. `MemoryBackend` and `MemoryStorageBackend` hold a `DashMap` itself, whose clone is a copy.
  `clones_one_store_iff` says what this means for sequences of operations on clones.
-/
import Mathlib.Data.Fintype.EquivFin
import Mik.Kv.Substitution
import Mik.Lib.Handles
import Mik.Storage.Memory

namespace Mik.Daemon

open Mik.Lib

abbrev KvData := AList fun _ : String => Kv.Entry

/-- A call of a key-value backend that runs alone, at a time and with what happens during its
    sections. -/
structure KvOp where
  now : Nat
  sections : List Kv.Env
  call : Kv.Call

def kvAct (kind : Kv.Kind) (data : KvData) (op : KvOp) : Kv.Client × KvData :=
  let reached := op.sections.foldl (fun s env => s.1.step kind env s.2)
    (Kv.Client.start op.call, ⟨op.now, data⟩)
  (reached.1, reached.2.data)

/-- What the memory backends return: to an operation that all backends have, or to their own. -/
inductive MemoryReply (R : Type) where
  | trait (reply : R)
  | count (n : Nat)
  | flag (b : Bool)
  | unit

inductive MemoryKvOp where
  | trait (op : KvOp)
  | len
  | isEmpty
  | cleanupExpired (now : Nat)
  | clear

/-- `MemoryBackend`. -/
def memoryKvAct (shards : Nat) (shardOf : String → Nat) (data : KvData) :
    MemoryKvOp → MemoryReply Kv.Client × KvData
  | .trait op =>
    let (reply, data) := kvAct (.memory shards shardOf) data op
    (.trait reply, data)
  | .len => (.count data.entries.length, data)
  | .isEmpty => (.flag data.entries.isEmpty, data)
  | .clear => (.unit, ∅)
  | .cleanupExpired now =>
    (.unit, Kv.eraseAll data ((data.entries.filter fun entry =>
      Kv.MemoryEntry.isExpired entry.2 now).map Sigma.fst))

/-- `RedbBackend`. -/
def redbAct : KvData → KvOp → Kv.Client × KvData := kvAct .redb

inductive MemoryStorageOp where
  | trait (now : Nat) (op : Storage.Op)
  | len
  | isEmpty
  | clear

/-- `MemoryStorageBackend`. -/
def memoryStorageAct (mime : Storage.MimeGuess) (b : Storage.MemoryStorageBackend) :
    MemoryStorageOp → MemoryReply Storage.Reply × Storage.MemoryStorageBackend
  | .trait now op =>
    let (reply, b) := b.call mime now op
    (.trait reply, b)
  | .len => (.count b.data.entries.length, b)
  | .isEmpty => (.flag b.data.entries.isEmpty, b)
  | .clear => (.unit, .new)

/-- `FilesystemBackend`, with what the host does during the operation. -/
def filesystemAct (mime : Storage.MimeGuess) (b : Storage.FilesystemBackend)
    (op : Storage.Host × Storage.Op) : Storage.Reply × Storage.FilesystemBackend :=
  b.call mime op.1 op.2

/-! ## Operations that tell copies apart -/

/-- A key that is not there is set, and got. -/
theorem tells_kv (shards : Nat) (shardOf : String → Nat) (data : KvData) :
    ∃ write read, Tells (memoryKvAct shards shardOf) data write read := by
  obtain ⟨key, hkey⟩ := Infinite.exists_notMem_finset data.keys.toFinset
  have habsent : data.lookup key = none :=
    AList.lookup_eq_none.mpr fun hmem => hkey (List.mem_toFinset.mpr (AList.mem_keys.mp hmem))
  refine ⟨.trait ⟨0, [⟨0, none⟩, ⟨0, none⟩], .set key [] none⟩,
    .trait ⟨0, [⟨0, none⟩], .lookup .get key⟩, ?_, fun h => ?_⟩
  · simp [memoryKvAct, kvAct, Kv.Client.start, Kv.Client.step, Kv.Kind.fails, habsent]
  · simp [memoryKvAct, kvAct, Kv.Client.start, Kv.Client.step, Kv.Kind.fails, Kv.Kind.newEntry,
      Kv.Kind.isExpired, Kv.MemoryEntry.new, Kv.MemoryEntry.isExpired, Kv.Lookup.reply,
      habsent] at h

/-- An object is put whose data are not what is there, and got. -/
theorem tells_storage (mime : Storage.MimeGuess) (b : Storage.MemoryStorageBackend) :
    ∃ write read, Tells (memoryStorageAct mime) b write read := by
  obtain ⟨data, hdata⟩ : ∃ data, ∀ obj, b.data.lookup (Storage.memoryKey ["a"]) = some obj →
      data ≠ obj.data := by
    cases b.data.lookup (Storage.memoryKey ["a"]) with
    | none => exact ⟨[], nofun⟩
    | some obj =>
      refine ⟨0 :: obj.data, fun obj' h => ?_⟩
      rw [← Option.some.inj h]
      exact List.cons_ne_self 0 obj.data
  have hvalid : Storage.validatePath "a" = .ok ["a"] := by decide
  refine ⟨.trait 0 (.put "a" data none), .trait 0 (.get "a"), rfl, fun h => ?_⟩
  simp only [memoryStorageAct, Storage.MemoryStorageBackend.call,
    Storage.MemoryStorageBackend.put, Storage.MemoryStorageBackend.get, hvalid,
    AList.lookup_insert] at h
  cases hobj : b.data.lookup (Storage.memoryKey ["a"]) with
  | none =>
    rw [hobj] at h
    cases h
  | some obj =>
    rw [hobj] at h
    simp only [Option.map_some, MemoryReply.trait.injEq, Storage.Reply.get.injEq,
      Except.ok.injEq, Option.some.injEq, Prod.mk.injEq] at h
    exact hdata obj hobj h.1

/-! ## Clones -/

/-- Clones of the database backends answer as one handle does. Clones of a memory backend do so,
    whatever the operations, exactly when each operation goes through a value that has seen all
    operations before it, itself or through what it was cloned from. -/
theorem clones_one_store_iff (mime : Storage.MimeGuess) (shards : Nat) (shardOf : String → Nat)
    (pattern : List (Use Unit)) :
    (∀ data (uses : List (Use KvOp)), OneStore redbAct .shares data uses) ∧
    (∀ b (uses : List (Use (Storage.Host × Storage.Op))),
      OneStore (filesystemAct mime) .shares b uses) ∧
    (∀ data, (∀ uses, uses.map Use.shape = pattern →
        OneStore (memoryKvAct shards shardOf) .copies data uses) ↔ Threaded pattern) ∧
    ∀ b, (∀ uses, uses.map Use.shape = pattern →
        OneStore (memoryStorageAct mime) .copies b uses) ↔ Threaded pattern := by
  refine ⟨fun _ => oneStore_of_shares, fun _ => oneStore_of_shares, ?_, ?_⟩
  · intro data
    obtain ⟨write, read, htells⟩ := tells_kv shards shardOf data
    exact oneStore_of_copies_iff htells pattern
  · intro b
    obtain ⟨write, read, htells⟩ := tells_storage mime b
    exact oneStore_of_copies_iff htells pattern

/-- A value that one clone has set is not there for another. -/
theorem clone_misses_set :
    ¬ OneStore (memoryKvAct 1 fun _ => 0) .copies ∅
      [.clone 0 1, .call 0 (.trait ⟨0, [⟨0, none⟩, ⟨0, none⟩], .set "k" [1] none⟩),
        .call 1 (.trait ⟨0, [⟨0, none⟩], .lookup .get "k"⟩)] := by
  rintro ⟨-, -, hreply, -⟩
  exact absurd hreply nofun

end Mik.Daemon
