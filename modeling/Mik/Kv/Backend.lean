/-
  The key-value backends (`src/daemon/services/kv/memory.rs`, `redb.rs`, `types.rs`).

  Both are a map from keys to entries with an optional expiry, and both remove an expired entry
  lazily: a reader that finds one first lets go of its lock section or read transaction and then
  removes the key in another. What differs is a `Kind`: the memory backend counts `Instant`s in
  nanoseconds and lists shard by shard, the redb backend counts whole seconds of the system time,
  lists in one transaction, and every transaction of it can fail.

  A client is where its call stands between two of these sections (`Client`), and
  `Client.step` is its next section. Clocks are nanoseconds and do not go back. Sums of seconds
  wrap at 64 bits, as in a release build; an `Instant` that overflows panics.
-/
import Mathlib.Data.List.AList
import Mik.Lib.Run
import Mik.Lib.Text
import Mik.Lib.Txn

namespace Mik.Kv

open Mik.Lib

abbrev Bytes := List UInt8

/-! ## Entries -/

/-- `MemoryEntry` (expiry in nanoseconds) and `KvEntry` (expiry in seconds). -/
structure Entry where
  value : Bytes
  expiresAt : Option Nat
  deriving DecidableEq, Repr

/-- `MemoryEntry::new`; `none` is the panic of an `Instant` beyond the `i64` seconds. -/
def MemoryEntry.new (value : Bytes) (ttl : Option Nat) (now : Nat) : Option Entry :=
  match ttl with
  | none => some ⟨value, none⟩
  | some d =>
    if (now + d) / 1000000000 ≤ 0x7fffffffffffffff then some ⟨value, some (now + d)⟩ else none

def MemoryEntry.isExpired (entry : Entry) (now : Nat) : Bool :=
  entry.expiresAt.any fun expiresAt => expiresAt ≤ now

def KvEntry.new (value : Bytes) : Entry := ⟨value, none⟩

def KvEntry.withTtl (value : Bytes) (ttlSecs now : Nat) : Entry :=
  ⟨value, some ((now / 1000000000 + ttlSecs) % 0x10000000000000000)⟩

def KvEntry.isExpired (entry : Entry) (now : Nat) : Bool :=
  entry.expiresAt.any fun expiresAt => expiresAt ≤ now / 1000000000

/-! ## The two backends -/

inductive Kind where
  /-- `MemoryBackend`, over a map of so many shards. -/
  | memory (shards : Nat) (shardOf : String → Nat)
  /-- `RedbBackend`. -/
  | redb

/-- What happens during one section: how much time has passed, and where a transaction fails. -/
structure Env where
  elapsed : Nat
  fault : Option TxnStage
  deriving DecidableEq, Repr

namespace Kind

/-- The entry a `set` makes, from the clock it read. -/
def newEntry : Kind → (value : Bytes) → (ttl : Option Nat) → (now : Nat) → Option Entry
  | memory _ _, value, ttl, now => MemoryEntry.new value ttl now
  | redb, value, some ttl, now => some (KvEntry.withTtl value (ttl / 1000000000) now)
  | redb, value, none, _ => some (KvEntry.new value)

def isExpired : Kind → Entry → Nat → Bool
  | memory _ _ => MemoryEntry.isExpired
  | redb => KvEntry.isExpired

/-- Where a section fails; the locks of the map never do. -/
def fails : Kind → Env → Option TxnStage
  | memory _ _, _ => none
  | redb, env => env.fault

/-- The number of sections a listing takes. -/
def scans : Kind → Nat
  | memory shards _ => shards
  | redb => 1

/-- The keys a listing sees in its `i`-th section. -/
def inScan : Kind → Nat → String → Bool
  | memory _ shardOf, i, key => shardOf key = i
  | redb, _, _ => true

end Kind

def readTexts (key : String) : TxnTexts where
  beginTxn := "Failed to begin read transaction"
  openTable := "Failed to open KV table"
  access := "Failed to read key '" ++ key ++ "'"
  finish := "Failed to deserialize entry for key '" ++ key ++ "'"

def setTexts (key : String) : TxnTexts where
  beginTxn := "Failed to begin write transaction"
  openTable := "Failed to open KV table"
  access := "Failed to insert key '" ++ key ++ "'"
  finish := "Failed to commit set transaction"

def deleteTexts (key : String) : TxnTexts where
  beginTxn := "Failed to begin write transaction"
  openTable := "Failed to open KV table"
  access := "Failed to remove key '" ++ key ++ "'"
  finish := "Failed to commit delete transaction"

def listTexts : TxnTexts where
  beginTxn := "Failed to begin read transaction"
  openTable := "Failed to open KV table"
  access := "Failed to iterate KV table"
  finish := "Failed to read KV entry"

/-! ## Calls -/

/-- The two calls that look one key up. -/
inductive Lookup where
  | get
  | existsKey
  deriving DecidableEq, Repr

inductive Call where
  | lookup (which : Lookup) (key : String)
  | set (key : String) (value : Bytes) (ttl : Option Nat)
  | delete (key : String)
  | list (pre : Option String)
  deriving DecidableEq, Repr

inductive Reply where
  | value (result : Except String (Option Bytes))
  | flag (result : Except String Bool)
  | unit (result : Except String Unit)
  | keys (result : Except String (List String))

/-- `exists` says whether a `get` would find something. -/
def Lookup.reply : Lookup → Except String (Option Bytes) → Reply
  | get, result => .value result
  | existsKey, result => .flag (result.map Option.isSome)

/-- Where a call stands. -/
inductive Client where
  | looking (which : Lookup) (key : String)
  /-- It saw `key` expired and will remove it. -/
  | dropping (which : Lookup) (key : String)
  | setting (key : String) (value : Bytes) (ttl : Option Nat)
  /-- It has read the clock and will insert. -/
  | stamped (key : String) (value : Bytes) (ttl : Option Nat) (readAt : Nat)
  | deleting (key : String)
  | listing (pre : Option String) (scan : Nat) (keys expired : List String)
  /-- It has listed and will remove what it saw expired. -/
  | cleaning (expired keys : List String)
  | done (reply : Reply)
  | panicked

def Client.start : Call → Client
  | .lookup which key => .looking which key
  | .set key value ttl => .setting key value ttl
  | .delete key => .deleting key
  | .list pre => .listing pre 0 [] []

/-- The keys a client has seen expired and not removed yet. -/
def Client.pending : Client → List String
  | dropping _ key => [key]
  | listing _ _ _ expired => expired
  | cleaning expired _ => expired
  | _ => []

structure Store where
  now : Nat
  data : AList fun _ : String => Entry

/-- The keys of one section of a listing, by whether they have expired. -/
def Store.scan (kind : Kind) (store : Store) (pre : Option String) (i : Nat) (expired : Bool) :
    List String :=
  (store.data.entries.filter fun entry => kind.inScan i entry.1 &&
    (pre.map fun p => startsWith p entry.1).getD true &&
      kind.isExpired entry.2 store.now == expired).map Sigma.fst

/-- The next section of a call. -/
def Client.step (kind : Kind) (env : Env) (client : Client) (before : Store) : Client × Store :=
  let store : Store := { before with now := before.now + env.elapsed }
  match client with
  | looking which key =>
    match kind.fails env with
    | some stage => (.done (which.reply (.error ((readTexts key).error stage))), store)
    | none =>
      match store.data.lookup key with
      | none => (.done (which.reply (.ok none)), store)
      | some entry =>
        if kind.isExpired entry store.now then (.dropping which key, store)
        else (.done (which.reply (.ok (some entry.value))), store)
  | dropping which key =>
    match kind.fails env with
    | some stage => (.done (which.reply (.error ((deleteTexts key).error stage))), store)
    | none => (.done (which.reply (.ok none)), { store with data := store.data.erase key })
  | setting key value ttl => (.stamped key value ttl store.now, store)
  | stamped key value ttl readAt =>
    match kind.newEntry value ttl readAt with
    | none => (.panicked, store)
    | some entry =>
      match kind.fails env with
      | some stage => (.done (.unit (.error ((setTexts key).error stage))), store)
      | none => (.done (.unit (.ok ())), { store with data := store.data.insert key entry })
  | deleting key =>
    match kind.fails env with
    | some stage => (.done (.flag (.error ((deleteTexts key).error stage))), store)
    | none =>
      (.done (.flag (.ok (store.data.lookup key).isSome)),
        { store with data := store.data.erase key })
  | listing pre scan keys expired =>
    if scan < kind.scans then
      match kind.fails env with
      | some stage => (.done (.keys (.error (listTexts.error stage))), store)
      | none =>
        (.listing pre (scan + 1) (keys ++ store.scan kind pre scan false)
          (expired ++ store.scan kind pre scan true), store)
    else (.cleaning expired keys, store)
  | cleaning [] keys => (.done (.keys (.ok keys)), store)
  | cleaning (key :: expired) keys =>
    -- errors while cleaning up are ignored
    match kind.fails env with
    | some _ => (.cleaning expired keys, store)
    | none => (.cleaning expired keys, { store with data := store.data.erase key })
  | done reply => (.done reply, store)
  | panicked => (.panicked, store)

end Mik.Kv
