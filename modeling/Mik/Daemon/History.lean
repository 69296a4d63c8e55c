/-
  The history of job executions (`src/daemon/state/history.rs`).

  All executions are in one table under the key `job:second:id`, and those of a job are found by
  scanning the keys from `job:` up to `job;`. These are the keys that start with `job:`, which is
  right for the job itself, but also takes in a job whose name goes on after a colon: the jobs of
  an instance are named `instance:job`, and nothing keeps a job from being named like the instance.

  `Spec` says what the three calls should do to the executions that are kept, as a collection. The
  table does exactly that as long as no other job's key starts with the name that is listed or
  cleaned up and a colon (`history_refines`).
-/
import Mik.Lib.Newest
import Mik.Lib.OrderedTable
import Mik.Lib.Run
import Mik.Lib.Txn

namespace Mik.Daemon

open Mik.Lib

/-! ## Executions and their keys -/

/-- `JobExecution`; times are nanoseconds, the id is the text of a UUID. -/
structure JobExecution where
  id : String
  jobName : String
  startedAt : Int
  completedAt : Option Int
  durationMs : Option Nat
  success : Bool
  error : Option String
  manual : Bool
  noColon : ':' ∉ id.toList
  deriving DecidableEq

namespace JobExecution

/-- `started_at.timestamp()`, in whole seconds. -/
def timestamp (e : JobExecution) : Int := e.startedAt / 1000000000

/-- The key of an execution in the table. -/
def key (e : JobExecution) : String :=
  e.jobName ++ ":" ++ toString e.timestamp ++ ":" ++ e.id

/-- The same execution, saved again. -/
def SameRun (e e' : JobExecution) : Prop :=
  e.jobName = e'.jobName ∧ e.timestamp = e'.timestamp ∧ e.id = e'.id

instance (e e' : JobExecution) : Decidable (e.SameRun e') :=
  inferInstanceAs (Decidable (_ ∧ _ ∧ _))

end JobExecution

/-! ## The calls -/

/-- The table `cron_history`: every execution is under its key. -/
abbrev HistoryTable := Records JobExecution.key

/-- Where the transactions of a call fail; `cause` is the text of a storage error. -/
structure HistoryFaults where
  read : Option TxnStage
  write : Option TxnStage
  cause : String
  deriving DecidableEq, Repr

def saveTexts : TxnTexts where
  beginTxn := "Failed to begin write transaction"
  openTable := "Failed to open cron_history table"
  access := "Failed to insert job execution"
  finish := "Failed to commit job execution transaction"

def listTexts : TxnTexts where
  beginTxn := "Failed to begin read transaction"
  openTable := "Failed to open cron_history table"
  access := "Failed to query cron_history table"
  finish := "Failed to read cron_history entry"

/-- The removals themselves have no text of their own. -/
def cleanupTexts (cause : String) : TxnTexts where
  beginTxn := "Failed to begin write transaction"
  openTable := "Failed to open cron_history table"
  access := cause
  finish := "Failed to commit cleanup transaction"

def saveJobExecution (faults : HistoryFaults) (h : HistoryTable) (execution : JobExecution) :
    Except String Unit × HistoryTable :=
  match faults.write with
  | some stage => (.error (saveTexts.error stage), h)
  | none => (.ok (), h.put execution)

/-- `limit` is none for `usize::MAX`, which no vector reaches. -/
def listJobExecutions (faults : HistoryFaults) (h : HistoryTable) (jobName : String)
    (limit : Option Nat) : Except String (List JobExecution) :=
  match faults.read with
  | some stage => .error (listTexts.error stage)
  | none =>
    let executions := newestFirst JobExecution.startedAt
      ((h.table.range (jobName ++ ":") (jobName ++ ";")).map Prod.snd)
    .ok ((limit.map executions.take).getD executions)

/-- Removes executions by their keys, and counts those that were there. -/
def removeExecutions : List JobExecution → Nat × HistoryTable → Nat × HistoryTable
  | [], r => r
  | e :: rest, (removed, h) =>
    removeExecutions rest (if h.table.contains e.key then removed + 1 else removed, h.remove e.key)

def cleanupJobExecutions (faults : HistoryFaults) (h : HistoryTable) (jobName : String)
    (keep : Nat) : Except String Nat × HistoryTable :=
  match listJobExecutions faults h jobName none with
  | .error e => (.error e, h)
  | .ok executions =>
    if executions.length ≤ keep then (.ok 0, h)
    else
      match faults.write with
      | some stage => (.error ((cleanupTexts faults.cause).error stage), h)
      | none =>
        let r := removeExecutions (executions.drop keep) (0, h)
        (.ok r.1, r.2)

/-! ## What they should do -/

inductive HistoryCall where
  | save (execution : JobExecution)
  | list (jobName : String) (limit : Nat)
  | cleanup (jobName : String) (keep : Nat)
  deriving DecidableEq

inductive HistoryReply where
  | saved
  | listed (executions : List JobExecution)
  | cleaned (removed : Nat)
  | failed (error : String)
  deriving DecidableEq

def HistoryTable.call (h : HistoryTable) (e : HistoryFaults × HistoryCall) :
    HistoryReply × HistoryTable :=
  match e.2 with
  | .save execution =>
    match saveJobExecution e.1 h execution with
    | (.ok _, h') => (.saved, h')
    | (.error error, h') => (.failed error, h')
  | .list jobName limit =>
    match listJobExecutions e.1 h jobName (some limit) with
    | .ok executions => (.listed executions, h)
    | .error error => (.failed error, h)
  | .cleanup jobName keep =>
    match cleanupJobExecutions e.1 h jobName keep with
    | (.ok removed, h') => (.cleaned removed, h')
    | (.error error, h') => (.failed error, h')

/-- The executions of one job. -/
def ofJob (jobName : String) (es : List JobExecution) : List JobExecution :=
  es.filter fun e => e.jobName = jobName

/-- What a call should return and do to the executions `es` that were saved and not cleaned up. -/
def Spec (es : List JobExecution) (call : HistoryCall) (reply : HistoryReply)
    (es' : List JobExecution) : Prop :=
  match call, reply with
  | _, .failed _ => es' = es
  | .save e, .saved => es'.Perm (e :: es.filter fun e' => ¬ e'.SameRun e)
  | .list jobName limit, .listed result =>
    es' = es ∧ Newest JobExecution.startedAt (ofJob jobName es) result limit
  | .cleanup jobName keep, .cleaned removed =>
    ∃ kept, Newest JobExecution.startedAt (ofJob jobName es) kept keep ∧
      es'.Perm (kept ++ es.filter fun e => e.jobName ≠ jobName) ∧
      removed = (ofJob jobName es).length - kept.length
  | _, _ => False

/-- No key of another job starts with the name of the job in question and a colon. -/
def OwnKeys (h : HistoryTable) (e : HistoryFaults × HistoryCall) : Prop :=
  match e.2 with
  | .save _ => True
  | .list jobName _ | .cleanup jobName _ =>
    ∀ execution ∈ h.values, execution.jobName ≠ jobName →
      startsWith (jobName ++ ":") execution.key = false

instance (h : HistoryTable) (e : HistoryFaults × HistoryCall) : Decidable (OwnKeys h e) :=
  match e with
  | (_, .save _) => isTrue trivial
  | (_, .list jobName _) | (_, .cleanup jobName _) =>
    inferInstanceAs (Decidable (∀ execution ∈ h.values, execution.jobName ≠ jobName →
      startsWith (jobName ++ ":") execution.key = false))

def HistoryTable.step (h : HistoryTable) (e : HistoryFaults × HistoryCall) : HistoryTable :=
  (h.call e).2

/-- The call does what it should. -/
def MeetsSpec (h : HistoryTable) (e : HistoryFaults × HistoryCall) : Prop :=
  Spec h.values e.2 (h.call e).1 (h.step e).values

/-! ## Keys -/

theorem isDigit_of_mem_repr {n : Nat} {c : Char} (h : c ∈ (Nat.repr n).toList) :
    c.isDigit = true := by
  rw [Nat.toList_repr] at h
  exact Nat.isDigit_of_mem_toDigits (by decide) (by decide) h

theorem repr_inj {m n : Nat} (h : Nat.repr m = Nat.repr n) : m = n := by
  have hdigits : Nat.toDigits 10 m = Nat.toDigits 10 n := by
    rw [← Nat.toList_repr, ← Nat.toList_repr, h]
  rw [← @Nat.ofDigitChars_ten_toDigits m, ← @Nat.ofDigitChars_ten_toDigits n, hdigits]

theorem toList_toString_negSucc (n : Nat) :
    (toString (Int.negSucc n)).toList = '-' :: (Nat.repr (n + 1)).toList := by
  show ("-" ++ Nat.repr (n + 1)).toList = _
  rw [String.toList_append]
  rfl

/-- The text of a number has no colon. -/
theorem colon_notMem_toString (n : Int) : ':' ∉ (toString n).toList := by
  intro hmem
  cases n with
  | ofNat n => exact absurd (isDigit_of_mem_repr hmem) (by decide)
  | negSucc n =>
    rw [toList_toString_negSucc, List.mem_cons] at hmem
    rcases hmem with hmem | hmem
    · exact absurd hmem (by decide)
    · exact absurd (isDigit_of_mem_repr hmem) (by decide)

/-- The text of a number tells the number. -/
theorem toString_int_inj {m n : Int} (h : toString m = toString n) : m = n := by
  have hsign : ∀ a b : Nat, toString (Int.ofNat a) ≠ toString (Int.negSucc b) := by
    intro a b heq
    have hmem : '-' ∈ (toString (Int.ofNat a)).toList := by
      rw [heq, toList_toString_negSucc]
      exact List.mem_cons_self
    exact absurd (isDigit_of_mem_repr hmem) (by decide)
  cases m with
  | ofNat m =>
    cases n with
    | ofNat n => rw [repr_inj h]
    | negSucc n => exact absurd h (hsign m n)
  | negSucc m =>
    cases n with
    | ofNat n => exact absurd h.symm (hsign n m)
    | negSucc n =>
      have hlist := congrArg String.toList h
      rw [toList_toString_negSucc, toList_toString_negSucc] at hlist
      have hrest := repr_inj (String.toList_inj.mp (List.cons.inj hlist).2)
      rw [Nat.succ.inj hrest]

theorem toList_key (e : JobExecution) :
    e.key.toList =
      (e.jobName.toList ++ ':' :: (toString e.timestamp).toList) ++ ':' :: e.id.toList := by
  simp [JobExecution.key]

/-- A key tells the job, the second and the id. -/
theorem key_eq_iff {e e' : JobExecution} : e.key = e'.key ↔ e.SameRun e' := by
  constructor
  · intro h
    have hlist := congrArg String.toList h
    rw [toList_key, toList_key] at hlist
    obtain ⟨hfront, hid⟩ := append_last_sep_inj e.noColon e'.noColon hlist
    obtain ⟨hname, hsecond⟩ := append_last_sep_inj (colon_notMem_toString _)
      (colon_notMem_toString _) hfront
    exact ⟨String.toList_inj.mp hname, toString_int_inj (String.toList_inj.mp hsecond),
      String.toList_inj.mp hid⟩
  · rintro ⟨hname, hsecond, hid⟩
    unfold JobExecution.key
    rw [hname, hsecond, hid]

theorem startsWith_key (e : JobExecution) : startsWith (e.jobName ++ ":") e.key = true := by
  refine startsWith_iff.mpr ⟨toString e.timestamp ++ ":" ++ e.id, ?_⟩
  unfold JobExecution.key
  simp only [String.append_assoc]

/-- The range that is scanned for a job is that of the keys that start with its name and a
    colon. -/
theorem inRange_iff (jobName key : String) :
    (jobName ++ ":" ≤ key ∧ key < jobName ++ ";") ↔ startsWith (jobName ++ ":") key = true := by
  have hnext : ∀ x : Char, ':' ≤ x → x < ';' → x = ':' := by
    intro x hle hlt
    have hle' : (':' : Char).toNat ≤ x.toNat := Char.le_def.mp hle
    have hlt' : x.toNat < (';' : Char).toNat := Char.lt_def.mp hlt
    have hval : x.toNat = (':' : Char).toNat := by
      have h58 : (':' : Char).toNat = 58 := rfl
      have h59 : (';' : Char).toNat = 59 := rfl
      omega
    exact Char.toNat_inj.mp hval
  have hrange := between_iff_prefix hnext (by decide) jobName.toList key.toList
  unfold startsWith
  rw [List.isPrefixOf_iff_prefix, String.toList_append, String.le_iff_toList_le,
    String.lt_iff_toList_lt, String.toList_append, String.toList_append]
  exact hrange

/-! ## The calls on the executions -/

namespace HistoryTable

variable {h : HistoryTable} {jobName : String}

theorem values_unsave (e : JobExecution) :
    (h.remove e.key).values = h.values.filter fun e' => ¬ e'.SameRun e := by
  rw [Records.values_remove]
  exact List.filter_congr fun e' _ => decide_eq_decide.mpr (not_congr key_eq_iff)

theorem values_save (e : JobExecution) :
    (h.put e).values.Perm (e :: h.values.filter fun e' => ¬ e'.SameRun e) := by
  rw [← values_unsave, Records.values_remove]
  exact Records.values_put e

/-- Without foreign keys the scan finds the executions of the job. -/
theorem scan_eq (hown : ∀ e ∈ h.values, e.jobName ≠ jobName →
      startsWith (jobName ++ ":") e.key = false) :
    (h.table.range (jobName ++ ":") (jobName ++ ";")).map Prod.snd =
      ofJob jobName h.values := by
  refine Records.map_filter_entries h _ _ fun entry hentry => ?_
  rw [decide_eq_decide, inRange_iff, h.keyed entry hentry]
  constructor
  · intro hstart
    by_contra hne
    have hforeign := hown entry.2 (List.mem_map_of_mem hentry) hne
    rw [hstart] at hforeign
    cases hforeign
  · rintro rfl
    exact startsWith_key entry.2

theorem listJobExecutions_eq {faults : HistoryFaults} (hread : faults.read = none)
    (hown : ∀ e ∈ h.values, e.jobName ≠ jobName →
      startsWith (jobName ++ ":") e.key = false) (limit : Option Nat) :
    listJobExecutions faults h jobName limit =
      .ok ((limit.map (newestFirst JobExecution.startedAt (ofJob jobName h.values)).take).getD
        (newestFirst JobExecution.startedAt (ofJob jobName h.values))) := by
  unfold listJobExecutions
  rw [hread, scan_eq hown]

theorem contains_iff {e : JobExecution} :
    h.table.contains e.key = true ↔ ∃ e' ∈ h.values, e'.SameRun e := by
  unfold Table.contains
  rw [List.any_eq_true]
  constructor
  · rintro ⟨entry, hentry, hkey⟩
    refine ⟨entry.2, List.mem_map_of_mem hentry, key_eq_iff.mp ?_⟩
    rw [← h.keyed entry hentry]
    exact beq_iff_eq.mp hkey
  · rintro ⟨e', he', hsame⟩
    refine ⟨_, Records.mem_values.mp he', beq_iff_eq.mpr (key_eq_iff.mpr hsame)⟩

/-- Two executions in the table are the same run only if they are the same. -/
theorem sameRun_iff {e e' : JobExecution} (he : e ∈ h.values) (he' : e' ∈ h.values) :
    e.SameRun e' ↔ e = e' := by
  constructor
  · intro hsame
    exact Records.eq_of_key he he' (key_eq_iff.mpr hsame)
  · rintro rfl
    exact ⟨rfl, rfl, rfl⟩

/-- Removing executions that are there removes these and counts them all. -/
theorem removeExecutions_spec (es : List JobExecution) (removed : Nat)
    (hes : ∀ e ∈ es, e ∈ h.values) (hnodup : es.Nodup) :
    (removeExecutions es (removed, h)).1 = removed + es.length ∧
      (removeExecutions es (removed, h)).2.values =
        h.values.filter fun e => e ∉ es := by
  induction es generalizing removed h with
  | nil =>
    refine ⟨rfl, ?_⟩
    rw [List.filter_eq_self.mpr fun e _ => decide_eq_true List.not_mem_nil]
    rfl
  | cons e es ih =>
    obtain ⟨hnotMem, hnodup'⟩ := List.nodup_cons.mp hnodup
    have he := hes e List.mem_cons_self
    have hcontains : h.table.contains e.key = true :=
      contains_iff.mpr ⟨e, he, rfl, rfl, rfl⟩
    have hremove : (h.remove e.key).values = h.values.filter fun e' => e' ≠ e := by
      rw [values_unsave]
      exact List.filter_congr fun e' he' => decide_eq_decide.mpr (not_congr (sameRun_iff he' he))
    have hrest : ∀ e' ∈ es, e' ∈ (h.remove e.key).values := by
      intro e' he'
      rw [hremove, List.mem_filter, decide_eq_true_eq]
      refine ⟨hes e' (List.mem_cons_of_mem _ he'), ?_⟩
      rintro rfl
      exact hnotMem he'
    obtain ⟨hcount, hleft⟩ := ih (removed + 1) hrest hnodup'
    unfold removeExecutions
    rw [hcontains, if_pos rfl, hcount, hleft, hremove, List.filter_filter]
    refine ⟨by rw [List.length_cons]; omega, List.filter_congr fun e' _ => ?_⟩
    rw [Bool.eq_iff_iff]
    simp only [Bool.and_eq_true, decide_eq_true_eq, List.mem_cons, not_or]
    exact and_comm

theorem mem_ofJob {es : List JobExecution} {e : JobExecution} :
    e ∈ ofJob jobName es ↔ e ∈ es ∧ e.jobName = jobName := by
  rw [ofJob, List.mem_filter, decide_eq_true_eq]

/-- The executions fall into those that are cut off, those that are kept and those of others. -/
theorem perm_kept (h : HistoryTable) (jobName : String) (keep : Nat) :
    (h.values.filter fun e =>
        e ∉ (newestFirst JobExecution.startedAt (ofJob jobName h.values)).drop keep).Perm
      ((newestFirst JobExecution.startedAt (ofJob jobName h.values)).take keep ++
        h.values.filter fun e => e.jobName ≠ jobName) := by
  have hperm : (newestFirst JobExecution.startedAt (ofJob jobName h.values)).Perm _ :=
    newestFirst_perm
  generalize newestFirst JobExecution.startedAt (ofJob jobName h.values) = sorted at hperm ⊢
  have hnodup : (sorted.take keep ++ sorted.drop keep).Nodup := by
    rw [List.take_append_drop]
    exact hperm.nodup_iff.mpr (h.nodup_values.filter _)
  have hmem : ∀ {e}, e ∈ sorted.take keep ∨ e ∈ sorted.drop keep ↔
      e ∈ h.values ∧ e.jobName = jobName := by
    intro e
    rw [← List.mem_append, List.take_append_drop, hperm.mem_iff, mem_ofJob]
  obtain ⟨htake, -, hdisjoint⟩ := List.nodup_append'.mp hnodup
  refine (List.perm_ext_iff_of_nodup (h.nodup_values.filter _) ?_).mpr fun e => ?_
  · refine List.nodup_append'.mpr ⟨htake, h.nodup_values.filter _, fun e he he' => ?_⟩
    rw [List.mem_filter, decide_eq_true_eq] at he'
    exact he'.2 (hmem.mp (Or.inl he)).2
  · rw [List.mem_append, List.mem_filter, List.mem_filter, decide_eq_true_eq, decide_eq_true_eq]
    constructor
    · rintro ⟨he, hcut⟩
      by_cases hjob : e.jobName = jobName
      · exact Or.inl ((hmem.mpr ⟨he, hjob⟩).resolve_right hcut)
      · exact Or.inr ⟨he, hjob⟩
    · rintro (he | ⟨he, hjob⟩)
      · exact ⟨(hmem.mp (Or.inl he)).1, fun hcut => hdisjoint he hcut⟩
      · exact ⟨he, fun hcut => hjob (hmem.mp (Or.inr hcut)).2⟩

/-- A cleanup whose transactions succeed, as far as it needs them. -/
theorem cleanup_ok {faults : HistoryFaults} (hread : faults.read = none) (keep : Nat)
    (hwrite : faults.write = none ∨ (ofJob jobName h.values).length ≤ keep)
    (hown : ∀ e ∈ h.values, e.jobName ≠ jobName →
      startsWith (jobName ++ ":") e.key = false) :
    ∃ h', cleanupJobExecutions faults h jobName keep =
        (.ok ((ofJob jobName h.values).length - keep), h') ∧
      h'.values.Perm
        ((newestFirst JobExecution.startedAt (ofJob jobName h.values)).take keep ++
          h.values.filter fun e => e.jobName ≠ jobName) := by
  have hlength : (newestFirst JobExecution.startedAt (ofJob jobName h.values)).length =
      (ofJob jobName h.values).length := newestFirst_perm.length_eq
  have hperm := perm_kept h jobName keep
  unfold cleanupJobExecutions
  rw [listJobExecutions_eq hread hown]
  dsimp only [Option.map_none, Option.getD_none]
  by_cases hfew : (ofJob jobName h.values).length ≤ keep
  · rw [hlength, if_pos hfew, Nat.sub_eq_zero_of_le hfew]
    refine ⟨h, rfl, ?_⟩
    rw [List.drop_eq_nil_of_le (by omega), List.filter_eq_self.mpr (by simp)] at hperm
    exact hperm
  · rw [hlength, if_neg hfew, hwrite.resolve_right hfew]
    have hcut : ∀ e ∈ (newestFirst JobExecution.startedAt (ofJob jobName h.values)).drop keep,
        e ∈ h.values := by
      intro e he
      have he' := newestFirst_perm.mem_iff.mp (List.mem_of_mem_drop he)
      exact (mem_ofJob.mp he').1
    have hnodup : ((newestFirst JobExecution.startedAt
        (ofJob jobName h.values)).drop keep).Nodup :=
      (newestFirst_perm.nodup_iff.mpr (h.nodup_values.filter _)).sublist
        (List.drop_sublist _ _)
    obtain ⟨hcount, hleft⟩ := removeExecutions_spec _ 0 hcut hnodup
    rw [List.length_drop, hlength] at hcount
    refine ⟨(removeExecutions ((newestFirst JobExecution.startedAt
      (ofJob jobName h.values)).drop keep) (0, h)).2, ?_, ?_⟩
    · dsimp only
      rw [hcount, Nat.zero_add]
    · rw [hleft]
      exact hperm

/-- A cleanup that fails changes nothing. -/
theorem cleanup_error {faults : HistoryFaults} {keep : Nat} {error : String} {h' : HistoryTable}
    (herror : cleanupJobExecutions faults h jobName keep = (.error error, h')) : h' = h := by
  unfold cleanupJobExecutions at herror
  split at herror
  · exact (congrArg Prod.snd herror).symm
  · split at herror
    · cases herror
    · split at herror
      · exact (congrArg Prod.snd herror).symm
      · cases herror

theorem cleanup_write {faults : HistoryFaults} {keep removed : Nat} {h' : HistoryTable}
    (hok : cleanupJobExecutions faults h jobName keep = (.ok removed, h'))
    (hown : ∀ e ∈ h.values, e.jobName ≠ jobName →
      startsWith (jobName ++ ":") e.key = false) :
    faults.read = none ∧
      (faults.write = none ∨ (ofJob jobName h.values).length ≤ keep) := by
  have hread : faults.read = none := by
    cases hread : faults.read with
    | none => rfl
    | some stage =>
      unfold cleanupJobExecutions listJobExecutions at hok
      rw [hread] at hok
      cases hok
  refine ⟨hread, ?_⟩
  unfold cleanupJobExecutions at hok
  rw [listJobExecutions_eq hread hown] at hok
  dsimp only [Option.map_none, Option.getD_none] at hok
  rw [newestFirst_perm.length_eq] at hok
  by_cases hfew : (ofJob jobName h.values).length ≤ keep
  · exact Or.inr hfew
  · rw [if_neg hfew] at hok
    cases hwrite : faults.write with
    | none => exact Or.inl rfl
    | some stage =>
      rw [hwrite] at hok
      cases hok

/-- One call does what it should, as long as the keys of the job are its own. -/
theorem call_spec (e : HistoryFaults × HistoryCall) (hown : OwnKeys h e) :
    MeetsSpec h e := by
  obtain ⟨faults, call⟩ := e
  unfold MeetsSpec HistoryTable.step
  cases call with
  | save execution =>
    unfold HistoryTable.call saveJobExecution
    dsimp only
    cases faults.write with
    | some stage => rfl
    | none => exact values_save execution
  | list jobName limit =>
    unfold HistoryTable.call
    dsimp only
    cases hread : faults.read with
    | some stage =>
      unfold listJobExecutions
      rw [hread]
      rfl
    | none =>
      rw [listJobExecutions_eq hread hown]
      exact ⟨rfl, newest_take_sort limit⟩
  | cleanup jobName keep =>
    unfold HistoryTable.call
    dsimp only
    cases hresult : cleanupJobExecutions faults h jobName keep with
    | mk result h' =>
      cases result with
      | error error =>
        dsimp only
        rw [cleanup_error hresult]
        rfl
      | ok removed =>
        obtain ⟨hread, hwrite⟩ := cleanup_write hresult hown
        obtain ⟨h'', hok, hperm⟩ := cleanup_ok hread keep hwrite hown
        rw [hresult] at hok
        obtain ⟨hremoved, rfl⟩ := Prod.mk.inj hok
        have hkept : Newest JobExecution.startedAt (ofJob jobName h.values) _ keep :=
          newest_take_sort keep
        refine ⟨_, hkept, hperm, ?_⟩
        rw [Except.ok.inj hremoved, hkept.length]
        omega

end HistoryTable

/-- Job history isolation over whole runs: from any table on, every call of a run returns and does
    exactly what it should to the executions that are kept, as long as no key of another job
    starts with the name that is listed or cleaned up and a colon. -/
theorem history_refines (h : HistoryTable) (calls : List (HistoryFaults × HistoryCall))
    (hown : Along HistoryTable.step OwnKeys h calls) :
    Along HistoryTable.step MeetsSpec h calls :=
  along_of_invariant (fun _ => True) trivial
    (fun _ e _ hok => ⟨HistoryTable.call_spec e hok, trivial⟩) hown

/-- An execution of `jobName` with the id `id` that started at `second`. -/
def sampleExecution (jobName id : String) (second : Int) (hid : ':' ∉ id.toList) :
    JobExecution where
  id := id
  jobName := jobName
  startedAt := second * 1000000000
  completedAt := none
  durationMs := none
  success := true
  error := none
  manual := true
  noColon := hid

def noFaults : HistoryFaults := ⟨none, none, ""⟩

/-- The history of a job named like an instance shows the runs of the jobs of the instance. -/
theorem instance_job_in_history :
    ¬ Along HistoryTable.step MeetsSpec .empty
      [(noFaults, .save (sampleExecution "web:backup" "1" 7 (by decide))),
        (noFaults, .list "web" 10)] := by
  rintro ⟨-, hlist, -⟩
  have hreply : ((HistoryTable.step .empty
      (noFaults, .save (sampleExecution "web:backup" "1" 7 (by decide)))).call
        (noFaults, .list "web" 10)).1 =
      .listed [sampleExecution "web:backup" "1" 7 (by decide)] := by decide
  have hnone : ofJob "web" (HistoryTable.step .empty
      (noFaults, .save (sampleExecution "web:backup" "1" 7 (by decide)))).values = [] := by
    decide
  unfold MeetsSpec at hlist
  rw [hreply] at hlist
  have hlength := hlist.2.length
  rw [hnone] at hlength
  exact absurd hlength (by decide)

/-- Two jobs with names of their own, saved, listed and cleaned up. -/
theorem history_refines_two_jobs :
    Along HistoryTable.step MeetsSpec .empty
      [(noFaults, .save (sampleExecution "web:backup" "1" 7 (by decide))),
        (noFaults, .save (sampleExecution "db" "2" 8 (by decide))),
        (noFaults, .list "db" 10), (noFaults, .cleanup "web:backup" 0)] := by
  refine history_refines .empty _ ⟨trivial, trivial, ?_, ?_, trivial⟩
  · decide
  · decide

end Mik.Daemon
