/-
  Cleaning up the cache of compiled modules (`AotCache::cleanup` in `src/runtime/aot_cache.rs`).

  `cleanupIn` is `cleanup` with what it reports, and with its sums in 64 bits: what they come to
  when they do not fit depends on the build. On sizes that fit it removes what `cleanup` removes
  (`evict_removeOldest`). It is run alone on a directory, in `Surroundings` that decide which
  actions fail and in which order the directory is listed.

  `runOn_evict` says what the loop does, in either build: the files that are tried are those of
  `Eviction.Tried`, and the counters are exact modulo `2 ^ 64`. `cleanupIn_iff` says when the
  cleanup is minimal, oldest first, and its report right: when the sizes add up to less than
  `2 ^ 64`.
-/
import Mik.Lib.Eviction
import Mik.Lib.Overflow
import Mik.Runtime.AotCache

namespace Mik.Runtime.Aot

open Mik.Lib Prog Eviction

/-! ## The operation, with its report -/

structure CleanupStats where
  entriesRemoved : Nat
  bytesFreed : Nat
  currentSizeBytes : Nat
  deriving DecidableEq, Repr

/-- The bytes of an artifact of a listing. -/
def entrySize (a : String × Nat × Nat) : Nat := a.2.1

/-- The loop of `cleanup`; nothing is returned if it panics. -/
def evict (o : Overflow) (maxSize : Nat) :
    List (String × Nat × Nat) → CleanupStats → Task (Option CleanupStats)
  | [], stats => ret (some stats)
  | oldest :: rest, stats =>
    if maxSize < stats.currentSizeBytes then
      onDir (.removeFile oldest.1) >>= fun
        | .error _ => evict o maxSize rest stats
        | .ok _ =>
          match o.add 64 stats.bytesFreed (entrySize oldest),
            o.sub 64 stats.currentSizeBytes (entrySize oldest) with
          | some bytesFreed, some currentSizeBytes =>
            evict o maxSize rest ⟨stats.entriesRemoved + 1, bytesFreed, currentSizeBytes⟩
          | _, _ => ret none
    else ret (some stats)

/-- The artifacts of a listing, the one first that was not used for longest. -/
def oldestFirst (listed : List DirEntry) : List (String × Nat × Nat) :=
  (artifacts listed).mergeSort fun a b => a.2.2 ≤ b.2.2

/-- What `cleanup` does with the listing of the directory. -/
def cleanupListed (o : Overflow) (config : AotCacheConfig) :
    Except String (List DirEntry) → Task (Option (Except String CleanupStats))
  | .error _ => ret (some (.error "Failed to read cache directory"))
  | .ok listed =>
    match o.sum 64 ((oldestFirst listed).map entrySize) with
    | none => ret none
    | some total =>
      evict o config.maxSizeBytes (oldestFirst listed) ⟨0, 0, total⟩ >>= fun stats =>
        ret (stats.map .ok)

def cleanupIn (o : Overflow) (config : AotCacheConfig) :
    Task (Option (Except String CleanupStats)) :=
  if config.bypass then ret (some (.ok ⟨0, 0, 0⟩))
  else onDir .readDir >>= cleanupListed o config

/-! ## Run alone -/

/-- What the outside world contributes to a run: to each action, and to each listing. -/
structure Surroundings where
  outside : FileAction → Outside
  /-- What the listings meet, by number. -/
  listing : Nat → Outside
  /-- A directory is listed in any order. -/
  order : Nat → List DirEntry → List DirEntry
  order_perm : ∀ n l, (order n l).Perm l

/-- The directory, and how often it has been listed. -/
abbrev World := Shared × Nat

def answerIn (env : Surroundings) : (a : FileAction) → World → FileReply a × World
  | .readDir, w =>
    ((answer (env.listing w.2) .readDir w.1).1.map (env.order w.2), (w.1, w.2 + 1))
  | a, w => ((answer (env.outside a) a w.1).1, ((answer (env.outside a) a w.1).2, w.2))

/-- The removal of an artifact does not fail. -/
def Surroundings.removable (env : Surroundings) (a : String × Nat × Nat) : Bool :=
  (env.outside (.removeFile a.1)).fault.isNone

/-- The directory without the files of these names. -/
def unlinkAll (d : Directory) (names : List String) : Directory := names.foldl Directory.unlink d

/-- The answer to the removal of a file that is there. -/
def Surroundings.removal (env : Surroundings) (name : String) : Except String Unit :=
  match (env.outside (.removeFile name)).fault with
  | some text => .error text
  | none => .ok ()

section

variable {o : Overflow} {env : Surroundings} {config : AotCacheConfig} {maxSize : Nat}

theorem answerIn_removeFile {a : String × Nat × Nat} {w : World}
    (h : (w.1.dir.lookup a.1).isSome) :
    answerIn env (.removeFile a.1) w =
      (env.removal a.1,
        if env.removable a then ({ w.1 with dir := w.1.dir.unlink a.1 }, w.2) else w) := by
  obtain ⟨ino, hino⟩ := Option.isSome_iff_exists.mp h
  unfold answerIn answer Surroundings.removal Surroundings.removable
  dsimp only
  cases (env.outside (.removeFile a.1)).fault with
  | some text => rfl
  | none => simp only [hino, Option.isNone_none, if_true]

theorem removal_of_removable {a : String × Nat × Nat} (h : env.removable a = true) :
    env.removal a.1 = .ok () := by
  unfold Surroundings.removal
  rw [Option.isNone_iff_eq_none.mp h]

theorem removal_of_not_removable {a : String × Nat × Nat} (h : env.removable a = false) :
    ∃ text, env.removal a.1 = .error text := by
  unfold Surroundings.removable at h
  unfold Surroundings.removal
  cases hfault : (env.outside (.removeFile a.1)).fault with
  | some text => exact ⟨text, rfl⟩
  | none =>
    rw [hfault] at h
    cases h

theorem lookup_unlinkAll (d : Directory) (names : List String) (name : String) :
    (unlinkAll d names).lookup name = if name ∈ names then none else d.lookup name := by
  induction names generalizing d with
  | nil => rfl
  | cons n rest ih =>
    refine (ih (d.unlink n)).trans ?_
    rw [Directory.lookup_unlink]
    by_cases hrest : name ∈ rest
    · rw [if_pos hrest, if_pos (List.mem_cons_of_mem _ hrest)]
    · by_cases hn : name = n
      · rw [if_neg hrest, if_pos hn, if_pos (List.mem_cons.mpr (Or.inl hn))]
      · rw [if_neg hrest, if_neg hn, if_neg fun hmem => (List.mem_cons.mp hmem).elim hn hrest]

theorem content_unlinkAll (d : Directory) (names : List String) :
    (unlinkAll d names).content = d.content := by
  induction names generalizing d with
  | nil => rfl
  | cons n rest ih => exact ih (d.unlink n)

/-- The directory without these artifacts. -/
def World.without (w : World) (gone : List (String × Nat × Nat)) : World :=
  ({ w.1 with dir := unlinkAll w.1.dir (gone.map Prod.fst) }, w.2)

/-- What the counters come to: `freed` bytes had been removed before, and `kept` bytes could not
    be. -/
def counted (stats : CleanupStats) (freed kept : Nat) (gone stay : List (String × Nat × Nat)) :
    CleanupStats :=
  ⟨stats.entriesRemoved + gone.length, (freed + weight entrySize gone) % 2 ^ 64,
    (kept + weight entrySize stay) % 2 ^ 64⟩

section

variable {oldest : String × Nat × Nat} {rest l : List (String × Nat × Nat)} {stats : CleanupStats}
  {w : World} {kept freed : Nat}

theorem counted_nil (hcurrent : stats.currentSizeBytes = (kept + weight entrySize l) % 2 ^ 64)
    (hfreed : stats.bytesFreed = freed % 2 ^ 64) : counted stats freed kept [] l = stats := by
  unfold counted
  rw [← hcurrent, weight_nil, Nat.add_zero, ← hfreed]
  rfl

theorem evict_stop (hunder : ¬ maxSize < stats.currentSizeBytes) :
    evict o maxSize l stats = ret (some stats) := by
  cases l with
  | nil => rfl
  | cons oldest rest => exact if_neg hunder

theorem evict_over (hover : maxSize < stats.currentSizeBytes) :
    evict o maxSize (oldest :: rest) stats =
      onDir (.removeFile oldest.1) >>= fun
        | .error _ => evict o maxSize rest stats
        | .ok _ =>
          match o.add 64 stats.bytesFreed (entrySize oldest),
            o.sub 64 stats.currentSizeBytes (entrySize oldest) with
          | some bytesFreed, some currentSizeBytes =>
            evict o maxSize rest ⟨stats.entriesRemoved + 1, bytesFreed, currentSizeBytes⟩
          | _, _ => ret none := if_pos hover

/-- A removal that fails changes neither the directory nor the counters. -/
theorem evict_failed (hover : maxSize < stats.currentSizeBytes)
    (hthere : (w.1.dir.lookup oldest.1).isSome) (hfails : env.removable oldest = false) :
    runOn (answerIn env) (evict o maxSize (oldest :: rest) stats) w
        = runOn (answerIn env) (evict o maxSize rest stats) w ∧
      traceOn (answerIn env) (evict o maxSize (oldest :: rest) stats) w
        = ⟨.removeFile oldest.1, env.removal oldest.1⟩ ::
          traceOn (answerIn env) (evict o maxSize rest stats) w := by
  obtain ⟨text, htext⟩ := removal_of_not_removable hfails
  have hanswer := @answerIn_removeFile env oldest w hthere
  rw [if_neg (Bool.eq_false_iff.mp hfails), htext] at hanswer
  rw [evict_over hover, htext]
  unfold onDir
  rw [act_bind, runOn_act, traceOn, hanswer]
  exact ⟨rfl, rfl⟩

theorem evict_removed (hover : maxSize < stats.currentSizeBytes)
    (hthere : (w.1.dir.lookup oldest.1).isSome) (hworks : env.removable oldest = true)
    {bytesFreed currentSizeBytes : Nat}
    (hadd : o.add 64 stats.bytesFreed (entrySize oldest) = some bytesFreed)
    (hsub : o.sub 64 stats.currentSizeBytes (entrySize oldest) = some currentSizeBytes) :
    runOn (answerIn env) (evict o maxSize (oldest :: rest) stats) w
        = runOn (answerIn env)
          (evict o maxSize rest ⟨stats.entriesRemoved + 1, bytesFreed, currentSizeBytes⟩)
          (w.without [oldest]) ∧
      traceOn (answerIn env) (evict o maxSize (oldest :: rest) stats) w
        = ⟨.removeFile oldest.1, env.removal oldest.1⟩ ::
          traceOn (answerIn env)
            (evict o maxSize rest ⟨stats.entriesRemoved + 1, bytesFreed, currentSizeBytes⟩)
            (w.without [oldest]) := by
  have hanswer := @answerIn_removeFile env oldest w hthere
  rw [if_pos hworks, removal_of_removable hworks] at hanswer
  rw [evict_over hover, removal_of_removable hworks]
  unfold onDir
  rw [act_bind, runOn_act, traceOn, hanswer]
  dsimp only [ret_bind]
  rw [hadd, hsub]
  exact ⟨rfl, rfl⟩

/-- What the loop comes to, in either build. -/
theorem runOn_evict (hcurrent : stats.currentSizeBytes = (kept + weight entrySize l) % 2 ^ 64)
    (hfreed : stats.bytesFreed = freed % 2 ^ 64)
    (hfit : o = .panics → freed + (kept + weight entrySize l) < 2 ^ 64)
    (hnames : (l.map Prod.fst).Nodup) (hthere : ∀ a ∈ l, (w.1.dir.lookup a.1).isSome) :
    ∃ n, Tried entrySize env.removable (2 ^ 64) maxSize kept l n ∧
      runOn (answerIn env) (evict o maxSize l stats) w
        = (some (counted stats freed kept (removed env.removable l n) (left env.removable l n)),
          w.without (removed env.removable l n)) ∧
      traceOn (answerIn env) (evict o maxSize l stats) w
        = (l.take n).map fun a => ⟨.removeFile a.1, env.removal a.1⟩ := by
  induction l generalizing stats w kept freed with
  | nil =>
    refine ⟨0, tried_nil, ?_, rfl⟩
    rw [left_zero, removed_zero, counted_nil hcurrent hfreed]
    rfl
  | cons oldest rest ih =>
    obtain ⟨hnew, hrestNames⟩ := List.nodup_cons.mp hnames
    have hfirst := hthere oldest List.mem_cons_self
    have hrestThere : ∀ a ∈ rest, (w.1.dir.lookup a.1).isSome := fun a ha =>
      hthere a (List.mem_cons_of_mem _ ha)
    by_cases hover : maxSize < stats.currentSizeBytes
    · have hover' : ¬ (kept + weight entrySize (oldest :: rest)) % 2 ^ 64 ≤ maxSize := by
        rw [← hcurrent]
        exact Nat.not_le.mpr hover
      rw [weight_cons] at hcurrent hfit
      cases hremoves : env.removable oldest with
      | false =>
        obtain ⟨hstep, hevent⟩ :=
          @evict_failed o env maxSize oldest rest stats w hover hfirst hremoves
        obtain ⟨n, htried, hrun, htrace⟩ := @ih stats w (kept + entrySize oldest) freed
          (by rw [hcurrent, Nat.add_assoc]) hfreed (by rwa [Nat.add_assoc]) hrestNames hrestThere
        refine ⟨n + 1, tried_failed hover' hremoves htried, ?_, ?_⟩
        · rw [hstep, hrun, removed_cons_neg hremoves, left_cons_neg hremoves]
          unfold counted
          rw [weight_cons, Nat.add_assoc]
        · rw [hevent, htrace]
          rfl
      | true =>
        have hadd : o.add 64 stats.bytesFreed (entrySize oldest)
            = some ((freed + entrySize oldest) % 2 ^ 64) := by
          rw [hfreed]
          refine Overflow.add_mod fun ho => ?_
          have := hfit ho
          omega
        have hsub : o.sub 64 stats.currentSizeBytes (entrySize oldest)
            = some ((kept + weight entrySize rest) % 2 ^ 64) := by
          rw [hcurrent, Overflow.sub_mod (by omega) fun ho => by have := hfit ho; omega]
          congr 2
          omega
        have hthere' : ∀ a ∈ rest, ((w.without [oldest]).1.dir.lookup a.1).isSome := by
          intro a ha
          have hne : a.1 ≠ oldest.1 := fun heq => hnew (heq ▸ List.mem_map_of_mem ha)
          show ((w.1.dir.unlink oldest.1).lookup a.1).isSome
          rw [Directory.lookup_unlink, if_neg hne]
          exact hrestThere a ha
        have hfit' (ho : o = .panics) :
            freed + entrySize oldest + (kept + weight entrySize rest) < 2 ^ 64 := by
          have := hfit ho
          omega
        obtain ⟨hstep, hevent⟩ :=
          @evict_removed o env maxSize oldest rest stats w hover hfirst hremoves _ _ hadd hsub
        obtain ⟨n, htried, hrun, htrace⟩ :=
          @ih ⟨stats.entriesRemoved + 1, _, _⟩ (w.without [oldest]) kept (freed + entrySize oldest)
            rfl rfl hfit' hrestNames hthere'
        refine ⟨n + 1, tried_removed hover' hremoves htried, ?_, ?_⟩
        · rw [hstep, hrun, removed_cons_pos hremoves, left_cons_pos hremoves]
          unfold counted
          rw [weight_cons, List.length_cons, Nat.add_assoc freed, Nat.add_assoc, Nat.add_comm 1]
          rfl
        · rw [hevent, htrace]
          rfl
    · refine ⟨0, tried_stop (by rw [← hcurrent]; exact Nat.not_lt.mp hover), ?_, ?_⟩
      · rw [evict_stop hover, left_zero, removed_zero, counted_nil hcurrent hfreed]
        rfl
      · rw [evict_stop hover]
        rfl

end

/-! ## Listings -/

theorem totalSize_eq (l : List (String × Nat × Nat)) : totalSize l = weight entrySize l := by
  unfold totalSize weight
  rw [List.sum_eq_foldl, List.foldl_map]
  rfl

variable {e : Outside} {d : Directory}

/-- An artifact is a file whose metadata can be read. -/
theorem mem_artifacts {a : String × Nat × Nat} :
    a ∈ artifacts (entries e d) ↔ (splitExtension a.1).2 = some "aot" ∧ a.1 ∉ e.unreadable ∧
      ∃ ino, d.lookup a.1 = some ino ∧ a.2 = ((d.content ino).length, e.accessed a.1) := by
  unfold artifacts entries
  rw [List.mem_filterMap]
  constructor
  · rintro ⟨entry, hentry, ha⟩
    obtain ⟨⟨name, ino⟩, hmem, rfl⟩ := List.mem_map.mp hentry
    dsimp only at ha
    split at ha
    · rename_i hext
      split at ha
      · cases ha
      · rename_i hreadable
        cases ha
        exact ⟨hext, hreadable, ino, Table.lookup_eq_some_iff.mpr hmem, rfl⟩
    · cases ha
  · obtain ⟨name, size⟩ := a
    rintro ⟨hext, hreadable, ino, hino, hsize⟩
    dsimp only at hext hreadable hino hsize
    refine ⟨_, List.mem_map.mpr ⟨(name, ino), Table.lookup_eq_some_iff.mp hino, rfl⟩, ?_⟩
    dsimp only
    rw [if_pos hext, if_neg hreadable, hsize]
    rfl

theorem names_artifacts_sublist (listed : List DirEntry) :
    ((artifacts listed).map Prod.fst).Sublist (listed.map DirEntry.name) := by
  induction listed with
  | nil => exact List.Sublist.refl _
  | cons entry rest ih =>
    unfold artifacts
    rw [List.filterMap_cons]
    split
    · exact ih.cons _
    · rename_i a ha
      have hname : a.1 = entry.name := by
        split at ha
        · obtain ⟨m, -, rfl⟩ := Option.map_eq_some_iff.mp ha
          rfl
        · cases ha
      rw [List.map_cons, List.map_cons, hname]
      exact ih.cons_cons _

theorem nodup_artifacts (e : Outside) (d : Directory) :
    ((artifacts (entries e d)).map Prod.fst).Nodup := by
  refine (names_artifacts_sublist _).nodup ?_
  unfold entries
  rw [List.map_map]
  exact d.names.nodup_keys

/-- Without an artifact there are the others. -/
theorem artifacts_perm_unlink {a : String × Nat × Nat} (ha : a ∈ artifacts (entries e d)) :
    (artifacts (entries e d)).Perm (a :: artifacts (entries e (d.unlink a.1))) := by
  have hnotMem : a ∉ artifacts (entries e (d.unlink a.1)) := by
    intro hmem
    obtain ⟨-, -, ino, hino, -⟩ := mem_artifacts.mp hmem
    rw [Directory.lookup_unlink, if_pos rfl] at hino
    cases hino
  refine (List.perm_ext_iff_of_nodup (nodup_artifacts e d).of_map
    (List.nodup_cons.mpr ⟨hnotMem, (nodup_artifacts e _).of_map⟩)).mpr fun b => ?_
  rw [List.mem_cons, mem_artifacts, mem_artifacts, Directory.lookup_unlink]
  obtain ⟨hext, hreadable, ino, hino, hsize⟩ := mem_artifacts.mp ha
  constructor
  · rintro ⟨hext', hreadable', ino', hino', hsize'⟩
    by_cases hname : b.1 = a.1
    · rw [hname, hino] at hino'
      cases hino'
      refine Or.inl (Prod.ext hname ?_)
      rw [hsize', hsize, hname]
    · rw [if_neg hname]
      exact Or.inr ⟨hext', hreadable', ino', hino', hsize'⟩
  · rintro (rfl | ⟨hext', hreadable', ino', hino', hsize'⟩)
    · exact ⟨hext, hreadable, ino, hino, hsize⟩
    · split at hino'
      · cases hino'
      · exact ⟨hext', hreadable', ino', hino', hsize'⟩

/-- Removed artifacts and those that are left weigh as much as there were. -/
theorem weight_unlinkAll {gone : List (String × Nat × Nat)} (hnames : (gone.map Prod.fst).Nodup)
    (hgone : ∀ a ∈ gone, a ∈ artifacts (entries e d)) :
    weight entrySize gone +
        weight entrySize (artifacts (entries e (unlinkAll d (gone.map Prod.fst))))
      = weight entrySize (artifacts (entries e d)) := by
  induction gone generalizing d with
  | nil => exact Nat.zero_add _
  | cons a rest ih =>
    obtain ⟨hnew, hrestNames⟩ := List.nodup_cons.mp hnames
    have hperm := artifacts_perm_unlink (hgone a List.mem_cons_self)
    have hrest : ∀ b ∈ rest, b ∈ artifacts (entries e (d.unlink a.1)) := by
      intro b hb
      have hthere := hperm.mem_iff.mp (hgone b (List.mem_cons_of_mem _ hb))
      rcases List.mem_cons.mp hthere with rfl | hb'
      · exact absurd (List.mem_map_of_mem hb) hnew
      · exact hb'
    rw [weight_perm hperm, weight_cons, weight_cons, ← ih hrestNames hrest, Nat.add_assoc]
    rfl

/-- The files of a listing, as the cleanup goes through them. -/
theorem oldestFirst_perm (env : Surroundings) (n : Nat) (listed : List DirEntry) :
    (oldestFirst (env.order n listed)).Perm (artifacts listed) :=
  (List.mergeSort_perm _ _).trans ((env.order_perm n listed).filterMap _)

theorem oldestFirst_sorted (listed : List DirEntry) :
    (oldestFirst listed).Pairwise fun a b => a.2.2 ≤ b.2.2 := by
  have hsorted := @List.pairwise_mergeSort _
    (fun a b : String × Nat × Nat => decide (a.2.2 ≤ b.2.2))
    (fun a b c hab hbc => decide_eq_true
      (Nat.le_trans (of_decide_eq_true hab) (of_decide_eq_true hbc)))
    (fun a b => by
      rw [Bool.or_eq_true, decide_eq_true_eq, decide_eq_true_eq]
      exact Nat.le_total _ _)
    (artifacts listed)
  exact hsorted.imp of_decide_eq_true

/-! ## The whole cleanup -/

/-- The files that a cleanup goes through when it lists the directory next. -/
def Surroundings.files (env : Surroundings) (w : World) : List (String × Nat × Nat) :=
  oldestFirst (env.order w.2 (entries (env.listing w.2) w.1.dir))

theorem files_perm (env : Surroundings) (w : World) :
    (env.files w).Perm (artifacts (entries (env.listing w.2) w.1.dir)) := oldestFirst_perm env _ _

theorem nodup_files (env : Surroundings) (w : World) : ((env.files w).map Prod.fst).Nodup :=
  ((files_perm env w).map Prod.fst).nodup_iff.mpr (nodup_artifacts _ _)

theorem lookup_of_mem_files {w : World} {a : String × Nat × Nat} (h : a ∈ env.files w) :
    (w.1.dir.lookup a.1).isSome := by
  obtain ⟨-, -, ino, hino, -⟩ := mem_artifacts.mp ((files_perm env w).mem_iff.mp h)
  exact Option.isSome_of_eq_some hino

theorem answerIn_readDir {w : World} (h : (env.listing w.2).fault = none) :
    answerIn env .readDir w =
      (.ok (env.order w.2 (entries (env.listing w.2) w.1.dir)), (w.1, w.2 + 1)) := by
  unfold answerIn answer
  dsimp only
  rw [h]
  rfl

theorem answerIn_readDir_fault {w : World} {text : String}
    (h : (env.listing w.2).fault = some text) :
    answerIn env .readDir w = (.error text, (w.1, w.2 + 1)) := by
  unfold answerIn answer
  dsimp only
  rw [h]
  rfl

/-- The sum of the sizes panics. -/
theorem runOn_cleanupListed_panics {w : World}
    (hover : ¬ weight entrySize (env.files w) < 2 ^ 64) (w' : World) :
    runOn (answerIn env) (cleanupListed .panics config
      (.ok (env.order w.2 (entries (env.listing w.2) w.1.dir)))) w' = (none, w') := by
  have hsum : Overflow.panics.sum 64 ((env.files w).map entrySize) = none := by
    rw [Overflow.sum_eq]
    exact Overflow.fit_panics_eq_none_iff.mpr hover
  unfold cleanupListed
  dsimp only
  unfold Surroundings.files at hsum
  rw [hsum]
  rfl

/-- What the loop comes to, from its start. -/
theorem runOn_cleanupListed {w w' : World} (hdir : w'.1 = w.1)
    (hfit : o = .panics → weight entrySize (env.files w) < 2 ^ 64) :
    ∃ n, Tried entrySize env.removable (2 ^ 64) config.maxSizeBytes 0 (env.files w) n ∧
      runOn (answerIn env) (cleanupListed o config
          (.ok (env.order w.2 (entries (env.listing w.2) w.1.dir)))) w'
        = (some (.ok (counted ⟨0, 0, 0⟩ 0 0 (removed env.removable (env.files w) n)
            (left env.removable (env.files w) n))),
          w'.without (removed env.removable (env.files w) n)) ∧
      traceOn (answerIn env) (cleanupListed o config
          (.ok (env.order w.2 (entries (env.listing w.2) w.1.dir)))) w'
        = ((env.files w).take n).map fun a => ⟨.removeFile a.1, env.removal a.1⟩ := by
  have hsum : o.sum 64 ((env.files w).map entrySize)
      = some (weight entrySize (env.files w) % 2 ^ 64) := by
    rw [Overflow.sum_eq]
    cases o with
    | panics =>
      rw [Nat.mod_eq_of_lt (hfit rfl)]
      exact Overflow.fit_of_lt (hfit rfl)
    | wraps => exact Overflow.fit_wraps
  have hthere : ∀ a ∈ env.files w, (w'.1.dir.lookup a.1).isSome := by
    rw [hdir]
    exact fun a ha => lookup_of_mem_files ha
  obtain ⟨n, htried, hrun, htrace⟩ :=
    @runOn_evict o env config.maxSizeBytes (env.files w)
      ⟨0, 0, weight entrySize (env.files w) % 2 ^ 64⟩ w' 0 0 (by rw [Nat.zero_add]) rfl
      (by rwa [Nat.zero_add, Nat.zero_add]) (nodup_files env w) hthere
  have hlisted : cleanupListed o config
      (.ok (env.order w.2 (entries (env.listing w.2) w.1.dir)))
        = evict o config.maxSizeBytes (env.files w)
            ⟨0, 0, weight entrySize (env.files w) % 2 ^ 64⟩ >>= fun stats =>
          ret (stats.map .ok) := by
    unfold cleanupListed
    dsimp only
    unfold Surroundings.files at hsum ⊢
    rw [hsum]
  refine ⟨n, htried, ?_, ?_⟩
  · rw [hlisted, runOn_bind, hrun]
    rfl
  · rw [hlisted, traceOn_bind, htrace, hrun]
    exact List.append_nil _

/-- Where the sizes fit, it is the `cleanup` of `Mik.Runtime.AotCache`. -/
theorem evict_removeOldest {l : List (String × Nat × Nat)} {stats : CleanupStats}
    (hfreed : stats.bytesFreed + weight entrySize l < 2 ^ 64)
    (hcurrent : weight entrySize l ≤ stats.currentSizeBytes) :
    (evict o maxSize l stats >>= fun _ => ret ())
      = removeOldest maxSize l stats.currentSizeBytes := by
  induction l generalizing stats with
  | nil => rfl
  | cons oldest rest ih =>
    rw [weight_cons] at hfreed hcurrent
    by_cases hover : maxSize < stats.currentSizeBytes
    · have hadd : o.add 64 stats.bytesFreed (entrySize oldest)
          = some (stats.bytesFreed + entrySize oldest) := Overflow.fit_of_lt (by omega)
      have hsub : o.sub 64 stats.currentSizeBytes (entrySize oldest)
          = some (stats.currentSizeBytes - entrySize oldest) := if_pos (by omega)
      rw [evict_over hover, hadd, hsub, Prog.bind_assoc]
      unfold removeOldest
      rw [if_pos hover]
      congr 1
      funext r
      cases r with
      | error text => exact ih (by omega) (by omega)
      | ok _ => exact @ih ⟨_, _, _⟩ (by dsimp only; omega) (by dsimp only; omega)
    · rw [evict_stop hover]
      exact (if_neg hover).symm

theorem cleanupListed_unit (listed : List DirEntry) (h : totalSize (artifacts listed) < 2 ^ 64) :
    (cleanupListed o config (.ok listed) >>= fun _ => ret ()) =
      removeOldest config.maxSizeBytes (oldestFirst listed) (totalSize (oldestFirst listed)) := by
  have htotal : totalSize (oldestFirst listed) = totalSize (artifacts listed) := by
    rw [totalSize_eq, totalSize_eq]
    exact weight_perm (List.mergeSort_perm _ _)
  have hsum : o.sum 64 ((oldestFirst listed).map entrySize)
      = some (totalSize (oldestFirst listed)) := by
    rw [← htotal, totalSize_eq] at h
    rw [Overflow.sum_eq, totalSize_eq]
    exact Overflow.fit_of_lt h
  unfold cleanupListed
  dsimp only
  rw [hsum]
  dsimp only
  rw [Prog.bind_assoc]
  refine evict_removeOldest ?_ ?_
  · rwa [Nat.zero_add, ← totalSize_eq, htotal]
  · exact Nat.le_of_eq (totalSize_eq _).symm

/-! ## What a cleanup should do -/

/-- Every removal that was tried in the run worked. -/
def RemovalsWorked (tr : List (Prog.Event FileAction FileReply)) : Prop :=
  ∀ name r, (⟨.removeFile name, r⟩ : Prog.Event FileAction FileReply) ∈ tr → r = .ok ()

/-- The first `n` of the files, in an order of their times of access, are the shortest prefix
that has to go, and they are what is gone. -/
structure Minimal (limit : Nat) (found files : List (String × Nat × Nat)) (n : Nat)
    (before after : Directory) : Prop where
  perm : files.Perm found
  sorted : files.Pairwise fun a b => a.2.2 ≤ b.2.2
  shortest : IsLeast {n | totalSize (files.drop n) ≤ limit} n
  names : ∀ name, after.lookup name =
    if name ∈ (files.take n).map Prod.fst then none else before.lookup name
  content : after.content = before.content

/-- The cleanup ends. If it reports, what it gives as the current size is the size of the files
there are; and all removals having worked, it is minimal, and its report right. -/
def CleansUp (o : Overflow) (env : Surroundings) (config : AotCacheConfig) (w : World) : Prop :=
  ∃ result w', runOn (answerIn env) (cleanupIn o config) w = (some result, w') ∧
    ∀ stats, result = .ok stats →
      stats.currentSizeBytes
          = totalSize (artifacts (entries (env.listing w.2) w'.1.dir)) ∧
        (RemovalsWorked (traceOn (answerIn env) (cleanupIn o config) w) →
          ∃ files n, Minimal config.maxSizeBytes
              (artifacts (entries (env.listing w.2) w.1.dir)) files n w.1.dir w'.1.dir ∧
            stats.entriesRemoved = n ∧ stats.bytesFreed = totalSize (files.take n))

/-- If no removal of the run failed, none of the files tried could not be removed. -/
theorem removable_of_worked {l : List (String × Nat × Nat)}
    (h : RemovalsWorked (l.map fun a => ⟨.removeFile a.1, env.removal a.1⟩)) :
    ∀ a ∈ l, env.removable a = true := by
  intro a ha
  cases hremovable : env.removable a with
  | true => rfl
  | false =>
    obtain ⟨text, htext⟩ := removal_of_not_removable hremovable
    have hok := h a.1 (env.removal a.1) (List.mem_map_of_mem ha)
    rw [htext] at hok
    cases hok

theorem cleanupIn_of_not_bypass (h : config.bypass = false) :
    cleanupIn o config = onDir .readDir >>= cleanupListed o config := by
  unfold cleanupIn
  rw [h, if_neg Bool.false_ne_true]

/-- A directory that can be read is cleaned up after one listing. -/
theorem cleanupIn_listed {w : World} (hbypass : config.bypass = false)
    (hlist : (env.listing w.2).fault = none) :
    runOn (answerIn env) (cleanupIn o config) w
        = runOn (answerIn env) (cleanupListed o config
          (.ok (env.order w.2 (entries (env.listing w.2) w.1.dir)))) (w.1, w.2 + 1) ∧
      traceOn (answerIn env) (cleanupIn o config) w
        = ⟨.readDir, .ok (env.order w.2 (entries (env.listing w.2) w.1.dir))⟩ ::
          traceOn (answerIn env) (cleanupListed o config
            (.ok (env.order w.2 (entries (env.listing w.2) w.1.dir)))) (w.1, w.2 + 1) := by
  rw [cleanupIn_of_not_bypass hbypass]
  unfold onDir
  rw [act_bind, runOn_act, traceOn, answerIn_readDir hlist]
  exact ⟨rfl, rfl⟩

/-- The directory can be read, and its sizes do not fit. -/
theorem not_cleansUp_panics {w : World} (hbypass : config.bypass = false)
    (hlist : (env.listing w.2).fault = none)
    (hover : ¬ totalSize (artifacts (entries (env.listing w.2) w.1.dir)) < 2 ^ 64) :
    ¬ CleansUp .panics env config w := by
  rintro ⟨result, w', hrun, -⟩
  rw [totalSize_eq, ← weight_perm (files_perm env w)] at hover
  rw [(cleanupIn_listed hbypass hlist).1, runOn_cleanupListed_panics hover] at hrun
  cases hrun

/-- The sizes fit. -/
theorem cleansUp_of_fits {w : World} (hbypass : config.bypass = false)
    (hlist : (env.listing w.2).fault = none)
    (hfits : totalSize (artifacts (entries (env.listing w.2) w.1.dir)) < 2 ^ 64) :
    CleansUp o env config w := by
  have hperm := files_perm env w
  rw [totalSize_eq, ← weight_perm hperm] at hfits
  obtain ⟨n, htried, hrun, htrace⟩ :=
    @runOn_cleanupListed o env config w (w.1, w.2 + 1) rfl fun _ => hfits
  have hwhole := @weight_removed_left _ entrySize env.removable (env.files w) n
  have hgone : ∀ a ∈ removed env.removable (env.files w) n,
      a ∈ artifacts (entries (env.listing w.2) w.1.dir) := fun a ha =>
    hperm.mem_iff.mp (List.mem_of_mem_take (List.mem_filter.mp ha).1)
  have hnames : ((removed env.removable (env.files w) n).map Prod.fst).Nodup :=
    ((List.filter_sublist.trans (List.take_sublist _ _)).map Prod.fst).nodup (nodup_files env w)
  have hleft := weight_unlinkAll hnames hgone
  rw [← weight_perm hperm] at hleft
  obtain ⟨hrunIn, htraceIn⟩ := @cleanupIn_listed o env config w hbypass hlist
  refine ⟨_, _, hrunIn.trans hrun, fun stats hstats => ?_⟩
  cases hstats
  refine ⟨?_, fun hworked => ?_⟩
  · show (0 + weight entrySize (left env.removable (env.files w) n)) % 2 ^ 64 = _
    rw [totalSize_eq, Nat.zero_add, Nat.mod_eq_of_lt (by omega)]
    exact Nat.add_left_cancel (hwhole.trans hleft.symm)
  · have hworks : ∀ a ∈ (env.files w).take n, env.removable a = true := by
      refine removable_of_worked fun name r hmem => hworked name r ?_
      rw [htraceIn, htrace]
      exact List.mem_cons_of_mem _ hmem
    have hremoved : removed env.removable (env.files w) n = (env.files w).take n :=
      removed_of_works hworks
    refine ⟨env.files w, n, ⟨hperm, oldestFirst_sorted _, ?_, ?_, content_unlinkAll _ _⟩, ?_, ?_⟩
    · simp only [totalSize_eq]
      exact htried.isLeast_drop hfits hworks
    · rw [← hremoved]
      exact lookup_unlinkAll _ _
    · show 0 + (removed env.removable (env.files w) n).length = n
      rw [hremoved, Nat.zero_add, List.length_take, Nat.min_eq_left htried.le_length]
    · show (0 + weight entrySize (removed env.removable (env.files w) n)) % 2 ^ 64 = _
      rw [totalSize_eq, ← hremoved, Nat.zero_add, Nat.mod_eq_of_lt (by omega)]

/-- What happens without a cache: nothing. -/
theorem cleansUp_bypass {w : World} (hbypass : config.bypass = true) :
    CleansUp o env config w ↔
      totalSize (artifacts (entries (env.listing w.2) w.1.dir)) = 0 := by
  have hprogram : cleanupIn o config = ret (some (.ok ⟨0, 0, 0⟩)) := by
    unfold cleanupIn
    rw [hbypass, if_pos rfl]
  unfold CleansUp
  rw [hprogram]
  constructor
  · rintro ⟨result, w', hrun, hstats⟩
    cases hrun
    exact ((hstats _ rfl).1).symm
  · intro hzero
    refine ⟨_, _, rfl, fun stats hstats => ?_⟩
    cases hstats
    refine ⟨hzero.symm, fun _ => ⟨env.files w, 0, ⟨files_perm env w, oldestFirst_sorted _, ?_, ?_,
      rfl⟩, rfl, rfl⟩⟩
    · refine ⟨?_, fun _ _ => Nat.zero_le _⟩
      rw [totalSize_eq, ← weight_perm (files_perm env w), ← totalSize_eq] at hzero
      show totalSize (env.files w) ≤ _
      rw [hzero]
      exact Nat.zero_le _
    · intro name
      exact (if_neg List.not_mem_nil).symm

/-- A cleanup is minimal, oldest first, and reports rightly, in either build, exactly where the
sizes add up to less than 64 bits hold; without a cache, where there are no bytes at all. -/
theorem cleanupIn_iff (env : Surroundings) (config : AotCacheConfig) (w : World) :
    (∀ o, CleansUp o env config w) ↔
      if config.bypass then totalSize (artifacts (entries (env.listing w.2) w.1.dir)) = 0
      else (env.listing w.2).fault = none →
        totalSize (artifacts (entries (env.listing w.2) w.1.dir)) < 2 ^ 64 := by
  cases hbypass : config.bypass with
  | true =>
    rw [if_pos rfl]
    exact ⟨fun h => (cleansUp_bypass hbypass).mp (h .panics),
      fun h o => (cleansUp_bypass hbypass).mpr h⟩
  | false =>
    rw [if_neg Bool.false_ne_true]
    constructor
    · intro h hlist
      by_contra hover
      exact not_cleansUp_panics hbypass hlist hover (h .panics)
    · intro h o
      cases hlist : (env.listing w.2).fault with
      | none => exact cleansUp_of_fits hbypass hlist (h hlist)
      | some text =>
        have hrun : runOn (answerIn env) (cleanupIn o config) w
            = (some (.error "Failed to read cache directory"), (w.1, w.2 + 1)) := by
          rw [cleanupIn_of_not_bypass hbypass]
          unfold onDir
          rw [act_bind, runOn_act, answerIn_readDir_fault hlist]
          rfl
        exact ⟨_, _, hrun, nofun⟩

end

/-- Nothing fails, and a directory is listed by name. -/
def Surroundings.calm : Surroundings where
  outside _ := ⟨none, 2, [], fun _ => 0⟩
  listing _ := ⟨none, 2, [], fun _ => 0⟩
  order _ l := l
  order_perm _ l := List.Perm.refl l

/-- Three sparse files, each as long as a file can be. -/
def sparseFiles : Directory where
  names := ⟨[("a.aot", 0), ("b.aot", 1), ("c.aot", 2)], by decide⟩
  content _ := List.replicate (2 ^ 63 - 1) 0
  next := 3
  allocated {name ino} h := by
    have hmem := Table.lookup_eq_some_iff.mp h
    simp only [List.mem_cons, Prod.mk.injEq, List.not_mem_nil] at hmem
    grind
  unshared {name name' ino} h h' := by
    have hmem := Table.lookup_eq_some_iff.mp h
    have hmem' := Table.lookup_eq_some_iff.mp h'
    simp only [List.mem_cons, Prod.mk.injEq, List.not_mem_nil] at hmem hmem'
    grind

theorem sparseFiles_not_cleaned_up :
    ¬ ∀ (o : Overflow) (env : Surroundings) (config : AotCacheConfig) (w : World),
      CleansUp o env config w := by
  intro h
  refine @not_cleansUp_panics .calm ⟨1000, false⟩ (⟨sparseFiles, []⟩, 0) rfl rfl ?_ (h _ _ _ _)
  have hlisted : artifacts (entries (Surroundings.calm.listing 0) sparseFiles)
      = ["a.aot", "b.aot", "c.aot"].map fun name =>
        (name, (List.replicate (2 ^ 63 - 1) (0 : UInt8)).length, 0) := rfl
  show ¬ totalSize (artifacts (entries (Surroundings.calm.listing 0) sparseFiles)) < 2 ^ 64
  rw [hlisted, List.length_replicate]
  decide

end Mik.Runtime.Aot
