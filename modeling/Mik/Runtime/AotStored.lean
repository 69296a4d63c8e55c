/-
  Fetching from the cache what was just put there (`AotCache::put` and `get` in
  `src/runtime/aot_cache.rs`).

  A put that returns a path has stored its bytes under it (`stored`) and has cleaned up then, as
  far as it came to that: `due` are the files that the cleanup has gone through. The file of the put
  is one of them, so the cleanup may remove it too, and does so whenever it is larger than the whole
  cache may be.

  `fetched_iff` says when a get finds the file again and the cache is within its limit. Where
  nothing fails, and no other file was used as late, that is when the file is not larger than the
  whole cache may be (`spared_iff_of_ordinary`, `trimmed_of_ordinary`).
-/
import Mik.Lib.Hoare
import Mik.Runtime.AotEviction

namespace Mik.Runtime.Aot

open Mik.Lib Prog Eviction Function

/-! ## The operations, with their sums in 64 bits -/

/-- What `maybe_cleanup` does with the listing of the directory; its errors are only logged. -/
def maybeCleanupListed (o : Overflow) (config : AotCacheConfig) :
    Except String (List DirEntry) → Task (Option Unit)
  | .error _ => ret (some ())
  | .ok listed =>
    match o.sum 64 ((artifacts listed).map entrySize) with
    | none => ret none
    | some total =>
      if config.maxSizeBytes < total then
        cleanupIn o config >>= fun result => ret (result.map fun _ => ())
      else ret (some ())

def maybeCleanupIn (o : Overflow) (config : AotCacheConfig) : Task (Option Unit) :=
  onDir .readDir >>= maybeCleanupListed o config

section

variable (computeKey : List UInt8 → String)

/-- What a put does to the directory; it is `Aot.put` up to its cleanup. -/
def store (wasm compiled : List UInt8) : Task (Except String Unit) :=
  fsWrite (tempName (computeKey wasm)) compiled >>= fun
    | .error _ => ret (.error "Failed to write cache temp file")
    | .ok _ =>
      onDir (.rename (tempName (computeKey wasm)) (aotName (computeKey wasm))) >>= fun
        | .error _ => ret (.error "Failed to rename cache file")
        | .ok _ => ret (.ok ())

/-- `put`; nothing is returned if it panics. -/
def putIn (o : Overflow) (config : AotCacheConfig) (wasm compiled : List UInt8) :
    Task (Option (Except String String)) :=
  if config.bypass then ret (some (.error "Cannot store in cache when bypass is enabled"))
  else
    store computeKey wasm compiled >>= fun
      | .error text => ret (some (.error text))
      | .ok _ => maybeCleanupIn o config >>= fun done =>
        ret (done.map fun _ => .ok (aotName (computeKey wasm)))

end

/-! ## Storing -/

/-- The directory in which the bytes have got their place. -/
def stored (d : Directory) (key : String) (bytes : List UInt8) : Directory :=
  ((d.create (tempName key)).writeAt (d.createdInode (tempName key)) 0 bytes).link (tempName key)
    (aotName key) (d.createdInode (tempName key))
    (by rw [Directory.lookup_writeAt, Directory.lookup_create, if_pos rfl])

theorem lookup_stored (d : Directory) (key : String) (bytes : List UInt8) :
    (stored d key bytes).lookup (aotName key) = some (d.createdInode (tempName key)) := by
  unfold stored
  rw [Directory.lookup_link, if_pos rfl]

theorem content_stored (d : Directory) (key : String) (bytes : List UInt8) :
    (stored d key bytes).content (d.createdInode (tempName key)) = bytes := by
  have hempty : ((d.create (tempName key)).content (d.createdInode (tempName key))) = [] := by
    rw [Directory.content_create, update_self]
  show ((d.create (tempName key)).writeAt (d.createdInode (tempName key)) 0 bytes).content _ = _
  rw [Directory.writeAt_end (by rw [hempty, List.length_nil])]
  dsimp only
  rw [update_self, hempty, List.nil_append]

section

variable {computeKey : List UInt8 → String} {o : Overflow} {env : Surroundings}
  {config : AotCacheConfig} {wasm compiled : List UInt8} {w w' : World}

/-- Writes that go on to the end have written all, one after another. -/
theorem runOn_writeFrom {ino fuel offset : Nat} {bytes : List UInt8}
    (hfuel : bytes.length ≤ fuel) (hoffset : (w.1.dir.content ino).length = offset)
    (h : runOn (answerIn env) (writeFrom ino fuel offset bytes) w = (.ok (), w')) :
    w' = ({ w.1 with dir := w.1.dir.writeAt ino offset bytes }, w.2) := by
  induction fuel generalizing offset bytes w with
  | zero =>
    obtain rfl := List.eq_nil_of_length_eq_zero (Nat.le_zero.mp hfuel)
    rw [Directory.writeAt_nil hoffset]
    exact (Prod.mk.inj h).2.symm
  | succ fuel ih =>
    unfold writeFrom at h
    split at h
    · rename_i hnil
      rw [hnil, Directory.writeAt_nil hoffset]
      exact (Prod.mk.inj h).2.symm
    · unfold onDir at h
      rw [act_bind, runOn_act] at h
      unfold answerIn answer at h
      dsimp only at h
      cases hfault : (env.outside (.write ino offset bytes)).fault with
      | some text =>
        rw [hfault] at h
        cases h
      | none =>
        rw [hfault] at h
        dsimp only [ret_bind] at h
        cases hwritten : min (env.outside (.write ino offset bytes)).written bytes.length with
        | zero =>
          rw [hwritten] at h
          cases h
        | succ n =>
          rw [hwritten] at h
          have htake : bytes.take (env.outside (.write ino offset bytes)).written
              = bytes.take (n + 1) := by
            rw [List.take_eq_take_min, hwritten]
          have hlength : (bytes.take (n + 1)).length = n + 1 := by
            rw [← htake, List.length_take, hwritten]
          rw [htake] at h
          have hend : ((w.1.dir.writeAt ino offset (bytes.take (n + 1))).content ino).length
              = offset + (n + 1) := by
            rw [Directory.writeAt_end hoffset]
            dsimp only
            rw [update_self, List.length_append, hoffset, hlength]
          have hdrop : (bytes.drop (n + 1)).length ≤ fuel := by
            rw [List.length_drop]
            omega
          have hrest := ih hdrop hend h
          have hwhole := Directory.writeAt_writeAt hoffset (bytes.take (n + 1)) (bytes.drop (n + 1))
          rw [hlength, List.take_append_drop] at hwhole
          rw [hrest]
          dsimp only
          rw [hwhole]

theorem runOn_fsWrite {name : String} {bytes : List UInt8}
    (h : runOn (answerIn env) (fsWrite name bytes) w = (.ok (), w')) :
    w' = ({ w.1 with dir := (w.1.dir.create name).writeAt (w.1.dir.createdInode name) 0 bytes },
      w.2) := by
  unfold fsWrite onDir at h
  rw [act_bind, runOn_act] at h
  unfold answerIn answer at h
  dsimp only at h
  cases hfault : (env.outside (.create name)).fault with
  | some text =>
    rw [hfault] at h
    cases h
  | none =>
    rw [hfault] at h
    dsimp only [ret_bind] at h
    refine @runOn_writeFrom env ({ w.1 with dir := w.1.dir.create name }, w.2) w' _ _ 0 bytes
      (Nat.le_refl _) ?_ h
    dsimp only
    rw [Directory.content_create, update_self, List.length_nil]

/-- What a put leaves before its cleanup. -/
def World.storing (w : World) (key : String) (bytes : List UInt8) : World :=
  ({ w.1 with dir := stored w.1.dir key bytes }, w.2)

theorem runOn_store (h : runOn (answerIn env) (store computeKey wasm compiled) w = (.ok (), w')) :
    w' = w.storing (computeKey wasm) compiled := by
  unfold store at h
  rw [runOn_bind] at h
  rcases hwrite : runOn (answerIn env) (fsWrite (tempName (computeKey wasm)) compiled) w with
    ⟨result, w₁⟩
  rw [hwrite] at h
  cases result with
  | error text => cases h
  | ok _ =>
    have hw₁ := runOn_fsWrite hwrite
    subst hw₁
    unfold onDir at h
    dsimp only at h
    rw [act_bind, runOn_act] at h
    unfold answerIn answer at h
    dsimp only at h
    cases hfault :
        (env.outside (.rename (tempName (computeKey wasm)) (aotName (computeKey wasm)))).fault with
    | some text =>
      rw [hfault] at h
      cases h
    | none =>
      rw [hfault] at h
      dsimp only at h
      have hlookup : ((w.1.dir.create (tempName (computeKey wasm))).writeAt
          (w.1.dir.createdInode (tempName (computeKey wasm))) 0 compiled).lookup
            (tempName (computeKey wasm))
          = some (w.1.dir.createdInode (tempName (computeKey wasm))) := by
        rw [Directory.lookup_writeAt, Directory.lookup_create, if_pos rfl]
      rw [Directory.rename_of_lookup hlookup] at h
      exact (Prod.mk.inj h).2.symm

/-- What stores a file removes none. -/
def RemovesNone (a : FileAction) : Prop := ∀ name, a ≠ .removeFile name

theorem within_writeFrom (ino fuel offset : Nat) (bytes : List UInt8) :
    (writeFrom ino fuel offset bytes).Within (fun _ _ => True) RemovesNone fun _ => True := by
  induction fuel generalizing offset bytes with
  | zero => trivial
  | succ fuel ih =>
    unfold writeFrom
    split
    · trivial
    · refine ⟨fun _ h => (by cases h), fun r _ => ?_⟩
      cases r with
      | error text => trivial
      | ok n =>
        cases n with
        | zero => trivial
        | succ n => exact ih _ _

theorem within_store (computeKey : List UInt8 → String) (wasm compiled : List UInt8) :
    (store computeKey wasm compiled).Within (fun _ _ => True) RemovesNone fun _ => True := by
  have hwrite : (fsWrite (tempName (computeKey wasm)) compiled).Within (fun _ _ => True)
      RemovesNone fun _ => True := by
    refine ⟨nofun, fun r _ => ?_⟩
    cases r with
    | error text => trivial
    | ok ino => exact within_writeFrom _ _ _ _
  refine hwrite.bind fun result _ => ?_
  cases result with
  | error text => trivial
  | ok _ =>
    refine ⟨nofun, fun r _ => ?_⟩
    cases r with
    | error text => trivial
    | ok _ => trivial

/-- A put that returns a path has stored the file, and its cleanup has not panicked. -/
theorem putIn_ok {path : String}
    (h : runOn (answerIn env) (putIn computeKey o config wasm compiled) w
      = (some (.ok path), w')) :
    config.bypass = false ∧ path = aotName (computeKey wasm) ∧
      runOn (answerIn env) (maybeCleanupIn o config) (w.storing (computeKey wasm) compiled)
        = (some (), w') ∧
      (RemovalsWorked (traceOn (answerIn env) (putIn computeKey o config wasm compiled) w) ↔
        RemovalsWorked (traceOn (answerIn env) (maybeCleanupIn o config)
          (w.storing (computeKey wasm) compiled))) := by
  unfold putIn at h ⊢
  cases hbypass : config.bypass with
  | true =>
    rw [hbypass, if_pos rfl] at h
    cases h
  | false =>
    rw [hbypass, if_neg Bool.false_ne_true, runOn_bind] at h
    rw [if_neg Bool.false_ne_true, traceOn_bind]
    rcases hstore : runOn (answerIn env) (store computeKey wasm compiled) w with ⟨result, w₁⟩
    rw [hstore] at h
    cases result with
    | error text => cases h
    | ok _ =>
      have hw₁ := runOn_store hstore
      subst hw₁
      dsimp only at h ⊢
      rw [runOn_bind] at h
      rcases hclean : runOn (answerIn env) (maybeCleanupIn o config)
        (w.storing (computeKey wasm) compiled) with ⟨done, w₂⟩
      rw [hclean] at h
      cases done with
      | none => cases h
      | some _ =>
        cases h
        refine ⟨rfl, rfl, rfl, ?_⟩
        rw [traceOn_bind]
        constructor
        · intro hworked name r hmem
          exact hworked name r (List.mem_append_right _ (List.mem_append_left _ hmem))
        · intro hworked name r hmem
          rcases List.mem_append.mp hmem with hmem | hmem
          · exact absurd rfl ((within_store computeKey wasm compiled).of_traceOn _ hmem name)
          · rcases List.mem_append.mp hmem with hmem | hmem
            · exact hworked name r hmem
            · cases hmem

/-! ## The cleanup of a put -/

/-- The files that the cleanup goes through; none where it does not come to that. -/
def Surroundings.due (env : Surroundings) (config : AotCacheConfig) (w : World) :
    List (String × Nat × Nat) :=
  if (env.listing w.2).fault = none ∧
      config.maxSizeBytes
        < totalSize (artifacts (entries (env.listing w.2) w.1.dir)) % 2 ^ 64 ∧
      (env.listing (w.2 + 1)).fault = none then env.files (w.1, w.2 + 1)
  else []

/-- So many of the files that are due have been tried, and what could be removed is gone. -/
structure Cleaned (env : Surroundings) (config : AotCacheConfig) (w w' : World)
    (tr : List (Prog.Event FileAction FileReply)) (n : Nat) : Prop where
  tried : Tried entrySize env.removable (2 ^ 64) config.maxSizeBytes 0 (env.due config w) n
  left : w'.1 = (w.without (removed env.removable (env.due config w) n)).1
  worked : RemovalsWorked tr ↔ ∀ a ∈ (env.due config w).take n, env.removable a = true

theorem cleaned_nothing {tr : List (Prog.Event FileAction FileReply)}
    (hdue : env.due config w = []) (hsame : w'.1 = w.1)
    (hreads : ∀ ev ∈ tr, ev.1 = .readDir) : ∃ n, Cleaned env config w w' tr n := by
  have hworked : RemovalsWorked tr := fun name r hmem => by cases hreads _ hmem
  refine ⟨0, ?_, ?_, ?_⟩
  · rw [hdue]
    exact tried_nil
  · rw [hdue, hsame]
    rfl
  · rw [hdue]
    exact iff_of_true hworked nofun

theorem worked_removals {l : List (String × Nat × Nat)} :
    RemovalsWorked (l.map fun a => ⟨.removeFile a.1, env.removal a.1⟩) ↔
      ∀ a ∈ l, env.removable a = true := by
  constructor
  · exact removable_of_worked
  · intro hworks name r hmem
    obtain ⟨a, ha, heq⟩ := List.mem_map.mp hmem
    cases heq
    exact removal_of_removable (hworks a ha)

/-- A listing removes nothing. -/
theorem worked_readDir {r : FileReply .readDir} {tr : List (Prog.Event FileAction FileReply)} :
    RemovalsWorked (⟨.readDir, r⟩ :: tr) ↔ RemovalsWorked tr := by
  constructor
  · exact fun h name r' hmem => h name r' (List.mem_cons_of_mem _ hmem)
  · intro h name r' hmem
    rcases List.mem_cons.mp hmem with heq | hmem
    · cases heq
    · exact h name r' hmem

theorem runOn_maybeCleanupIn :
    runOn (answerIn env) (maybeCleanupIn o config) w
        = runOn (answerIn env) (maybeCleanupListed o config (answerIn env .readDir w).1)
          (answerIn env .readDir w).2 ∧
      traceOn (answerIn env) (maybeCleanupIn o config) w
        = ⟨.readDir, (answerIn env .readDir w).1⟩ ::
          traceOn (answerIn env) (maybeCleanupListed o config (answerIn env .readDir w).1)
            (answerIn env .readDir w).2 := ⟨rfl, rfl⟩

/-- The first listing gives the size, modulo `2 ^ 64`; it goes on if that is over the limit. -/
theorem maybeCleanupListed_cases {listed : List DirEntry}
    (h : runOn (answerIn env) (maybeCleanupListed o config (.ok listed)) w = (some (), w')) :
    (¬ config.maxSizeBytes < totalSize (artifacts listed) % 2 ^ 64 ∧ w' = w ∧
      traceOn (answerIn env) (maybeCleanupListed o config (.ok listed)) w = []) ∨
    (config.maxSizeBytes < totalSize (artifacts listed) % 2 ^ 64 ∧
      (∃ result, runOn (answerIn env) (cleanupIn o config) w = (some result, w')) ∧
      traceOn (answerIn env) (maybeCleanupListed o config (.ok listed)) w
        = traceOn (answerIn env) (cleanupIn o config) w) := by
  unfold maybeCleanupListed at h ⊢
  dsimp only at h ⊢
  cases hsum : o.sum 64 ((artifacts listed).map entrySize) with
  | none =>
    rw [hsum] at h
    cases h
  | some total =>
    have htotal : total = totalSize (artifacts listed) % 2 ^ 64 := by
      rw [totalSize_eq]
      rw [Overflow.sum_eq] at hsum
      exact Overflow.eq_of_fit hsum
    rw [hsum] at h
    dsimp only at h ⊢
    rw [← htotal]
    by_cases hover : config.maxSizeBytes < total
    · rw [if_pos hover, runOn_bind] at h
      rw [if_pos hover, traceOn_bind]
      rcases hrun : runOn (answerIn env) (cleanupIn o config) w with ⟨result, w₁⟩
      rw [hrun] at h
      cases result with
      | none => cases h
      | some result =>
        cases h
        exact Or.inr ⟨hover, ⟨result, rfl⟩, List.append_nil _⟩
    · rw [if_neg hover] at h
      rw [if_neg hover]
      cases h
      exact Or.inl ⟨hover, rfl, rfl⟩

/-- The cleanup of a put, once the first listing has been over the limit. -/
theorem cleanupIn_done {result : Except String CleanupStats} (hbypass : config.bypass = false)
    (hfirst : (env.listing w.2).fault = none)
    (hover : config.maxSizeBytes
      < totalSize (artifacts (entries (env.listing w.2) w.1.dir)) % 2 ^ 64)
    (hrun : runOn (answerIn env) (cleanupIn o config) (w.1, w.2 + 1) = (some result, w'))
    (r : FileReply .readDir) :
    ∃ n, Cleaned env config w w'
      (⟨.readDir, r⟩ :: traceOn (answerIn env) (cleanupIn o config) (w.1, w.2 + 1)) n := by
  cases hsecond : (env.listing (w.2 + 1)).fault with
  | some text =>
    have hdue : env.due config w = [] := if_neg fun hdue => by
      rw [hsecond] at hdue
      cases hdue.2.2
    rw [cleanupIn_of_not_bypass hbypass] at hrun ⊢
    unfold onDir at hrun ⊢
    rw [act_bind, runOn_act, answerIn_readDir_fault hsecond] at hrun
    rw [act_bind, traceOn, answerIn_readDir_fault hsecond]
    cases hrun
    refine cleaned_nothing hdue rfl fun ev hev => ?_
    rcases List.mem_cons.mp hev with rfl | hev
    · rfl
    · rw [List.mem_singleton.mp hev]
  | none =>
    have hdue : env.due config w = env.files (w.1, w.2 + 1) := if_pos ⟨hfirst, hover, hsecond⟩
    obtain ⟨hrunIn, htraceIn⟩ := @cleanupIn_listed o env config (w.1, w.2 + 1) hbypass hsecond
    have hfit : o = .panics → weight entrySize (env.files (w.1, w.2 + 1)) < 2 ^ 64 := by
      rintro rfl
      by_contra hno
      rw [hrunIn, runOn_cleanupListed_panics hno] at hrun
      cases hrun
    obtain ⟨n, htried, hlistedRun, hlistedTrace⟩ :=
      @runOn_cleanupListed o env config (w.1, w.2 + 1) (w.1, w.2 + 1 + 1) rfl hfit
    rw [hrunIn, hlistedRun] at hrun
    cases hrun
    refine ⟨n, ?_, ?_, ?_⟩
    · rw [hdue]
      exact htried
    · rw [hdue]
      rfl
    · rw [hdue, htraceIn, hlistedTrace, worked_readDir, worked_readDir]
      exact worked_removals

theorem maybeCleanupIn_done (hbypass : config.bypass = false)
    (h : runOn (answerIn env) (maybeCleanupIn o config) w = (some (), w')) :
    ∃ n, Cleaned env config w w' (traceOn (answerIn env) (maybeCleanupIn o config) w) n := by
  obtain ⟨hrunFirst, htraceFirst⟩ := @runOn_maybeCleanupIn o env config w
  rw [hrunFirst] at h
  rw [htraceFirst]
  cases hfirst : (env.listing w.2).fault with
  | some text =>
    have hdue : env.due config w = [] := if_neg fun hdue => by
      rw [hfirst] at hdue
      cases hdue.1
    rw [answerIn_readDir_fault hfirst] at h ⊢
    cases h
    refine cleaned_nothing hdue rfl fun ev hev => ?_
    rw [List.mem_singleton.mp hev]
  | none =>
    rw [answerIn_readDir hfirst] at h ⊢
    have hsize : totalSize (artifacts (env.order w.2 (entries (env.listing w.2) w.1.dir)))
        = totalSize (artifacts (entries (env.listing w.2) w.1.dir)) := by
      rw [totalSize_eq, totalSize_eq]
      exact weight_perm ((env.order_perm _ _).filterMap _)
    rcases maybeCleanupListed_cases h with ⟨hunder, rfl, htrace⟩ | ⟨hover, ⟨result, hrun⟩, htrace⟩
    · rw [hsize] at hunder
      have hdue : env.due config w = [] := if_neg fun hdue => hunder hdue.2.1
      rw [htrace]
      refine cleaned_nothing hdue rfl fun ev hev => ?_
      rw [List.mem_singleton.mp hev]
    · rw [hsize] at hover
      rw [htrace]
      exact cleanupIn_done hbypass hfirst hover hrun _

/-! ## What a put should do -/

/-- The size of the cache: of all its artifacts. -/
def cacheSize (d : Directory) : Nat := totalSize (artifacts (entries ⟨none, 0, [], fun _ => 0⟩ d))

/-- A get after the put finds the file with the bytes, and the cache is within its limit, if no
removal has failed. -/
structure Fetched (computeKey : List UInt8 → String) (o : Overflow) (env : Surroundings)
    (config : AotCacheConfig) (wasm compiled : List UInt8) (path : String) (w w' : World) :
    Prop where
  found : (runOn (answerIn env) (get computeKey config wasm) w').1 = some path
  holds : ∃ ino, w'.1.dir.lookup path = some ino ∧ w'.1.dir.content ino = compiled
  within : RemovalsWorked (traceOn (answerIn env) (putIn computeKey o config wasm compiled) w) →
    cacheSize w'.1.dir ≤ config.maxSizeBytes

/-- Before it is the turn of that file, what is left, as it is counted, is within the limit; or the
file cannot be removed. -/
def Spared (env : Surroundings) (limit : Nat) (files : List (String × Nat × Nat)) (name : String) :
    Prop :=
  ∀ before a rest, files = before ++ a :: rest → a.1 = name → env.removable a = true →
    ∃ j ≤ before.length, weight entrySize (left env.removable files j) % 2 ^ 64 ≤ limit

/-- Whenever what is left of the files, as it is counted, is within the limit, then enough of the
whole cache is gone. -/
def Trimmed (env : Surroundings) (limit : Nat) (files : List (String × Nat × Nat))
    (d : Directory) : Prop :=
  ∀ n, (∀ a ∈ files.take n, env.removable a = true) →
    weight entrySize (files.drop n) % 2 ^ 64 ≤ limit →
      cacheSize d ≤ limit + weight entrySize (files.take n)

/-- What is removed is what the cache is smaller by. -/
theorem cacheSize_unlinkAll {e : Outside} {d : Directory} {gone : List (String × Nat × Nat)}
    (hnames : (gone.map Prod.fst).Nodup) (hgone : ∀ a ∈ gone, a ∈ artifacts (entries e d)) :
    weight entrySize gone + cacheSize (unlinkAll d (gone.map Prod.fst)) = cacheSize d := by
  have hmap : (gone.map fun a => (a.1, entrySize a, 0)).map Prod.fst = gone.map Prod.fst := by
    rw [List.map_map]
    rfl
  have hweight : weight entrySize (gone.map fun a => (a.1, entrySize a, 0))
      = weight entrySize gone := by
    unfold weight
    rw [List.map_map]
    rfl
  have hplain : ∀ a ∈ gone.map fun a => (a.1, entrySize a, 0),
      a ∈ artifacts (entries ⟨none, 0, [], fun _ => 0⟩ d) := by
    intro a ha
    obtain ⟨b, hb, rfl⟩ := List.mem_map.mp ha
    obtain ⟨hext, -, ino, hino, hsize⟩ := mem_artifacts.mp (hgone b hb)
    refine mem_artifacts.mpr ⟨hext, List.not_mem_nil, ino, hino, ?_⟩
    unfold entrySize
    rw [hsize]
  have hwhole := weight_unlinkAll (hmap ▸ hnames) hplain
  rw [hmap, hweight] at hwhole
  unfold cacheSize
  rw [totalSize_eq, totalSize_eq]
  exact hwhole

theorem mem_due {a : String × Nat × Nat} (h : a ∈ env.due config w) :
    a ∈ artifacts (entries (env.listing (w.2 + 1)) w.1.dir) := by
  unfold Surroundings.due at h
  split at h
  · exact (files_perm env _).mem_iff.mp h
  · cases h

theorem nodup_due (env : Surroundings) (config : AotCacheConfig) (w : World) :
    ((env.due config w).map Prod.fst).Nodup := by
  unfold Surroundings.due
  split
  · exact nodup_files env _
  · exact List.nodup_nil

section

variable {tr : List (Prog.Event FileAction FileReply)} {n : Nat}

theorem Cleaned.size (h : Cleaned env config w w' tr n) :
    weight entrySize (removed env.removable (env.due config w) n) + cacheSize w'.1.dir
      = cacheSize w.1.dir := by
  have hgone : ∀ a ∈ removed env.removable (env.due config w) n,
      a ∈ artifacts (entries (env.listing (w.2 + 1)) w.1.dir) := fun a ha =>
    mem_due (List.mem_of_mem_take (List.mem_filter.mp ha).1)
  have hnames : ((removed env.removable (env.due config w) n).map Prod.fst).Nodup :=
    ((List.filter_sublist.trans (List.take_sublist _ _)).map Prod.fst).nodup
      (nodup_due env config w)
  rw [h.left]
  exact cacheSize_unlinkAll hnames hgone

/-- The cleanup comes within the limit. -/
theorem Cleaned.within_iff (h : Cleaned env config w w' tr n) :
    (RemovalsWorked tr → cacheSize w'.1.dir ≤ config.maxSizeBytes) ↔
      Trimmed env config.maxSizeBytes (env.due config w) w.1.dir := by
  rw [h.worked]
  have hsize := h.size
  constructor
  · intro hwithin j hworks hcount
    by_cases hall : ∀ a ∈ (env.due config w).take n, env.removable a = true
    · have hle := hwithin hall
      have hj : n ≤ j := (h.tried.isLeast_drop_mod hall).2 hcount
      have hmore := @weight_take_le _ entrySize (env.due config w) n j hj
      rw [removed_of_works hall] at hsize
      omega
    · -- A removal has failed, so not all up to there have been tried.
      have hj : j < n := Nat.not_le.mp fun hle => hall fun a ha =>
        hworks a ((List.take_prefix_take_left hle).mem ha)
      have hover := (h.tried.lt_iff (Nat.lt_of_lt_of_le hj h.tried.le_length)).mp hj j
        (Nat.le_refl j)
      rw [Nat.zero_add, left_of_works hworks] at hover
      exact absurd hcount (Nat.not_le.mpr hover)
  · intro htrimmed hall
    have hle := htrimmed n hall (h.tried.isLeast_drop_mod hall).1
    rw [removed_of_works hall] at hsize
    omega

/-- The file of the put is still there. -/
theorem Cleaned.lookup_iff {d : Directory} {key : String} {bytes : List UInt8}
    (h : Cleaned env config w w' tr n) (hdir : w.1.dir = stored d key bytes) :
    (∃ ino, w'.1.dir.lookup (aotName key) = some ino ∧ w'.1.dir.content ino = bytes) ↔
      Spared env config.maxSizeBytes (env.due config w) (aotName key) := by
  have hlookup : w'.1.dir.lookup (aotName key) =
      if aotName key ∈ (removed env.removable (env.due config w) n).map Prod.fst then none
      else some (d.createdInode (tempName key)) := by
    rw [h.left]
    show (unlinkAll w.1.dir _).lookup _ = _
    rw [lookup_unlinkAll, hdir, lookup_stored]
  have hcontent : w'.1.dir.content = (stored d key bytes).content := by
    rw [h.left, ← hdir]
    exact content_unlinkAll _ _
  refine Iff.trans ?_ (h.tried.notMem_removed_iff fun a => a.1 = aotName key)
  rw [hlookup, hcontent]
  constructor
  · rintro ⟨ino, hino, -⟩ a ha hname
    rw [if_pos (hname ▸ List.mem_map_of_mem ha)] at hino
    cases hino
  · intro hnot
    have hnotMem : aotName key ∉ (removed env.removable (env.due config w) n).map Prod.fst := by
      intro hmem
      obtain ⟨a, ha, hname⟩ := List.mem_map.mp hmem
      exact hnot a ha hname
    rw [if_neg hnotMem]
    exact ⟨_, rfl, content_stored d key bytes⟩

end

theorem runOn_get (hbypass : config.bypass = false) :
    (runOn (answerIn env) (get computeKey config wasm) w).1 = some (aotName (computeKey wasm)) ↔
      (env.outside (.pathExists (aotName (computeKey wasm)))).fault = none ∧
        (w.1.dir.lookup (aotName (computeKey wasm))).isSome := by
  unfold get
  rw [hbypass, if_neg Bool.false_ne_true]
  unfold onDir
  rw [act_bind, runOn_act]
  show (if (_ && _) = true then some _ else none) = some _ ↔ _
  rw [← Option.isNone_iff_eq_none, ← Bool.and_eq_true]
  split
  · rename_i hthere
    exact iff_of_true rfl hthere
  · rename_i hno
    exact iff_of_false nofun hno

/-- A put that has returned a path can be fetched and leaves the cache within its limit exactly if
its file is spared by the cleanup and the counted sizes do not mislead it. -/
theorem fetched_iff {path : String}
    (h : runOn (answerIn env) (putIn computeKey o config wasm compiled) w
      = (some (.ok path), w')) :
    Fetched computeKey o env config wasm compiled path w w' ↔
      (env.outside (.pathExists path)).fault = none ∧
        Spared env config.maxSizeBytes
          (env.due config (w.storing (computeKey wasm) compiled)) path ∧
        Trimmed env config.maxSizeBytes (env.due config (w.storing (computeKey wasm) compiled))
          (stored w.1.dir (computeKey wasm) compiled) := by
  obtain ⟨hbypass, rfl, hclean, hworked⟩ := putIn_ok h
  obtain ⟨n, hcleaned⟩ := maybeCleanupIn_done hbypass hclean
  have hlookup := hcleaned.lookup_iff rfl
  have hwithin := hcleaned.within_iff
  rw [← hworked] at hwithin
  rw [← hlookup]
  constructor
  · rintro ⟨hfound, hholds, hle⟩
    exact ⟨((runOn_get hbypass).mp hfound).1, hholds, hwithin.mp hle⟩
  · rintro ⟨hfault, hholds, htrimmed⟩
    have hthere := hholds.elim fun ino hino => Option.isSome_of_eq_some hino.1
    exact ⟨(runOn_get hbypass).mpr ⟨hfault, hthere⟩, hholds, hwithin.mpr htrimmed⟩

/-! ## The put of `Mik.Runtime.AotCache` -/

/-- A put stores, and then cleans up. -/
theorem put_eq :
    Aot.put computeKey config wasm compiled =
      if config.bypass then ret (.error "Cannot store in cache when bypass is enabled")
      else
        store computeKey wasm compiled >>= fun
          | .error text => ret (.error text)
          | .ok _ => maybeCleanup config >>= fun _ => ret (.ok (aotName (computeKey wasm))) := by
  unfold Aot.put store
  rw [Prog.bind_assoc]
  congr 2
  funext r
  cases r with
  | error text => rfl
  | ok _ =>
    show onDir _ >>= _ = (onDir _ >>= _) >>= _
    rw [Prog.bind_assoc]
    congr 1
    funext r
    cases r with
    | error text => rfl
    | ok _ => rfl

/-- Where the sizes fit, the cleanup does the same. -/
theorem runOn_maybeCleanup (hbypass : config.bypass = false)
    (hfits : ∀ n, totalSize (artifacts (entries (env.listing n) w.1.dir)) < 2 ^ 64) :
    runOn (answerIn env) (maybeCleanupIn o config >>= fun _ => ret ()) w
      = runOn (answerIn env) (maybeCleanup config) w := by
  have hsize (n : Nat) : totalSize (artifacts (env.order n (entries (env.listing n) w.1.dir)))
      = totalSize (artifacts (entries (env.listing n) w.1.dir)) := by
    rw [totalSize_eq, totalSize_eq]
    exact weight_perm ((env.order_perm _ _).filterMap _)
  have hclean : runOn (answerIn env) (cleanupIn o config >>= fun _ => ret ()) (w.1, w.2 + 1)
      = runOn (answerIn env) (cleanup config) (w.1, w.2 + 1) := by
    rw [cleanupIn_of_not_bypass hbypass]
    unfold cleanup onDir
    rw [act_bind, act_bind, act_bind, runOn_act, runOn_act]
    cases hsecond : (env.listing (w.2 + 1)).fault with
    | some text =>
      rw [@answerIn_readDir_fault env (w.1, w.2 + 1) text hsecond]
      rfl
    | none =>
      rw [@answerIn_readDir env (w.1, w.2 + 1) hsecond]
      dsimp only [ret_bind]
      rw [cleanupListed_unit _ (by rw [hsize]; exact hfits _)]
      rfl
  unfold maybeCleanupIn maybeCleanup onDir
  rw [act_bind, act_bind, act_bind, runOn_act, runOn_act]
  cases hfirst : (env.listing w.2).fault with
  | some text =>
    rw [answerIn_readDir_fault hfirst]
    rfl
  | none =>
    have hsum : o.sum 64 ((artifacts (env.order w.2 (entries (env.listing w.2) w.1.dir))).map
        entrySize) = some (totalSize (artifacts (env.order w.2
          (entries (env.listing w.2) w.1.dir)))) := by
      rw [Overflow.sum_eq, totalSize_eq]
      exact Overflow.fit_of_lt (((totalSize_eq _).symm.trans (hsize _)).trans_lt (hfits _))
    rw [answerIn_readDir hfirst]
    dsimp only [ret_bind]
    unfold maybeCleanupListed
    dsimp only
    rw [hsum]
    dsimp only
    split
    · rw [Prog.bind_assoc]
      exact hclean
    · rfl

/-! ## Ordinary surroundings -/

/-- Nothing fails, the sizes fit, and the file of that name was used last. -/
structure Ordinary (env : Surroundings) (d : Directory) (name : String) : Prop where
  listed : ∀ n, (env.listing n).fault = none
  readable : ∀ n, (env.listing n).unreadable = []
  removable : ∀ a, env.removable a = true
  newest : ∀ n other, other ≠ name →
    (env.listing n).accessed other < (env.listing n).accessed name
  fits : cacheSize d < 2 ^ 64

theorem cacheSize_of_readable {e : Outside} {d : Directory} (h : e.unreadable = []) :
    totalSize (artifacts (entries e d)) = cacheSize d := by
  unfold cacheSize
  rw [totalSize_eq, totalSize_eq]
  unfold weight artifacts entries
  rw [List.filterMap_map, List.filterMap_map, List.map_filterMap, List.map_filterMap]
  congr 1
  refine List.filterMap_congr fun entry _ => ?_
  dsimp only [Function.comp]
  rw [h, if_neg List.not_mem_nil, if_neg List.not_mem_nil]
  split
  · rfl
  · rfl

/-- Then the cleanup goes through all artifacts, if they are over the limit. -/
theorem due_of_ordinary {name : String} (h : Ordinary env w.1.dir name) :
    env.due config w = if config.maxSizeBytes < cacheSize w.1.dir then env.files (w.1, w.2 + 1)
      else [] := by
  unfold Surroundings.due
  rw [cacheSize_of_readable (h.readable w.2), Nat.mod_eq_of_lt h.fits]
  refine if_congr ?_ rfl rfl
  exact ⟨fun hdue => hdue.2.1, fun hover => ⟨h.listed _, hover, h.listed _⟩⟩

theorem weight_files_of_ordinary {name : String} (h : Ordinary env w.1.dir name) :
    weight entrySize (env.files (w.1, w.2 + 1)) = cacheSize w.1.dir := by
  rw [weight_perm (files_perm env _), ← totalSize_eq]
  exact cacheSize_of_readable (h.readable (w.2 + 1))

/-- It removes enough of them. -/
theorem trimmed_of_ordinary {name : String} (h : Ordinary env w.1.dir name) :
    Trimmed env config.maxSizeBytes (env.due config w) w.1.dir := by
  intro n _ hcount
  rw [due_of_ordinary h] at hcount ⊢
  split at hcount
  · rename_i hover
    have hfits := h.fits
    have hsplit := @weight_append _ entrySize ((env.files (w.1, w.2 + 1)).take n)
      ((env.files (w.1, w.2 + 1)).drop n)
    rw [List.take_append_drop, weight_files_of_ordinary h] at hsplit
    rw [Nat.mod_eq_of_lt (by omega)] at hcount
    rw [if_pos hover]
    omega
  · rename_i hunder
    exact Nat.le_trans (Nat.not_lt.mp hunder) (Nat.le_add_right _ _)

theorem splitExtension_aotName {key : String} (h : key ≠ "") :
    splitExtension (aotName key) = (key, some "aot") :=
  splitExtension_eq_iff.mpr ⟨by unfold aotName; rw [String.append_assoc]; rfl, h, by decide⟩

/-- The file that was used last is the last that the cleanup comes to. -/
theorem last_of_newest {name : String} (h : Ordinary env w.1.dir name)
    {before rest : List (String × Nat × Nat)} {a : String × Nat × Nat}
    (hfiles : env.files w = before ++ a :: rest) (ha : a.1 = name) : rest = [] := by
  have hsorted : (env.files w).Pairwise fun a b => a.2.2 ≤ b.2.2 := oldestFirst_sorted _
  have hnames := nodup_files env w
  have haccessed (b : String × Nat × Nat) (hb : b ∈ env.files w) :
      b.2.2 = (env.listing w.2).accessed b.1 := by
    obtain ⟨-, -, ino, -, hsize⟩ := mem_artifacts.mp ((files_perm env w).mem_iff.mp hb)
    rw [hsize]
  cases rest with
  | nil => rfl
  | cons b rest =>
    have hmem : b ∈ env.files w := by
      rw [hfiles]
      exact List.mem_append_right _ (List.mem_cons_of_mem _ List.mem_cons_self)
    have hmem' : a ∈ env.files w := by
      rw [hfiles]
      exact List.mem_append_right _ List.mem_cons_self
    rw [hfiles] at hsorted hnames
    have hle : a.2.2 ≤ b.2.2 :=
      (List.pairwise_cons.mp (List.pairwise_append.mp hsorted).2.1).1 b List.mem_cons_self
    have hne : b.1 ≠ a.1 := by
      rw [List.map_append, List.map_cons, List.map_cons] at hnames
      have hnotMem := (List.nodup_cons.mp (List.nodup_append'.mp hnames).2.1).1
      exact fun heq => hnotMem (heq ▸ List.mem_cons_self)
    have hlt := h.newest w.2 b.1 (ha ▸ hne)
    rw [haccessed a hmem', haccessed b hmem, ha] at hle
    omega

/-- And the file of the put is spared if it is not larger than the whole cache may be. -/
theorem spared_iff_of_ordinary {key : String} {bytes : List UInt8} {d : Directory}
    (hkey : key ≠ "") (hdir : w.1.dir = stored d key bytes)
    (h : Ordinary env w.1.dir (aotName key)) :
    Spared env config.maxSizeBytes (env.due config w) (aotName key) ↔
      bytes.length ≤ config.maxSizeBytes := by
  have hsize {a : String × Nat × Nat}
      (ha : a ∈ artifacts (entries (env.listing (w.2 + 1)) w.1.dir)) (hname : a.1 = aotName key) :
      entrySize a = bytes.length := by
    obtain ⟨-, -, ino, hino, hsize⟩ := mem_artifacts.mp ha
    rw [hname, hdir, lookup_stored] at hino
    cases hino
    unfold entrySize
    rw [hsize, hdir, content_stored]
  have hthere : (aotName key, bytes.length, (env.listing (w.2 + 1)).accessed (aotName key))
      ∈ artifacts (entries (env.listing (w.2 + 1)) w.1.dir) := by
    refine mem_artifacts.mpr ⟨?_, ?_, d.createdInode (tempName key), ?_, ?_⟩
    · rw [splitExtension_aotName hkey]
    · rw [h.readable]
      exact List.not_mem_nil
    · rw [hdir, lookup_stored]
    · rw [hdir, content_stored]
  rw [due_of_ordinary h]
  split
  · have hperm := files_perm env (w.1, w.2 + 1)
    have hleft (j : Nat) :
        weight entrySize (left env.removable (env.files (w.1, w.2 + 1)) j) % 2 ^ 64
          = weight entrySize ((env.files (w.1, w.2 + 1)).drop j) := by
      rw [left_of_works fun a _ => h.removable a]
      refine Nat.mod_eq_of_lt (Nat.lt_of_le_of_lt (weight_drop_le _ j) ?_)
      exact (weight_files_of_ordinary h).trans_lt h.fits
    unfold Spared
    simp only [hleft]
    constructor
    · intro hspared
      obtain ⟨before, rest, hfiles⟩ := List.append_of_mem (hperm.mem_iff.mpr hthere)
      obtain ⟨j, hj, hle⟩ := hspared before _ rest hfiles rfl (h.removable _)
      have hmem : (aotName key, bytes.length, (env.listing (w.2 + 1)).accessed (aotName key))
          ∈ (env.files (w.1, w.2 + 1)).drop j := by
        rw [hfiles, List.drop_append_of_le_length hj]
        exact List.mem_append_right _ List.mem_cons_self
      have hsmall := @size_le_weight _ entrySize _ _ hmem
      exact Nat.le_trans hsmall hle
    · intro hle before a rest hfiles hname _
      have ha : a ∈ env.files (w.1, w.2 + 1) := by
        rw [hfiles]
        exact List.mem_append_right _ List.mem_cons_self
      obtain rfl : rest = [] := @last_of_newest env (w.1, w.2 + 1) _ h before rest a hfiles hname
      refine ⟨before.length, Nat.le_refl _, ?_⟩
      rw [hfiles, List.drop_left, weight_cons, weight_nil, hsize (hperm.mem_iff.mp ha) hname]
      exact hle
  · rename_i hunder
    refine iff_of_true (fun before a rest hnil => ?_) ?_
    · exact absurd hnil (List.append_ne_nil_of_right_ne_nil _ (List.cons_ne_nil _ _)).symm
    · have hsmall := @size_le_weight _ entrySize _ _ hthere
      rw [← totalSize_eq, cacheSize_of_readable (h.readable _)] at hsmall
      exact Nat.le_trans hsmall (Nat.not_lt.mp hunder)

end

/-- Two bytes, in a cache of a thousand. -/
theorem fetched_small :
    Fetched (fun _ => "k") .panics .calm ⟨1000, false⟩ [0] [1, 2] "k.aot" (⟨.empty, []⟩, 0)
      (runOn (answerIn .calm) (putIn (fun _ => "k") .panics ⟨1000, false⟩ [0] [1, 2])
        (⟨.empty, []⟩, 0)).2 := by
  refine (fetched_iff (Prod.ext (by decide) rfl)).mpr ⟨rfl, ?_, ?_⟩
  · intro before a rest h
    exact absurd h (List.append_ne_nil_of_right_ne_nil _ (List.cons_ne_nil _ _)).symm
  · intro n _ _
    have hsmall : cacheSize (stored .empty "k" [1, 2]) ≤ 1000 := by decide
    exact Nat.le_trans hsmall (Nat.le_add_right _ _)

/-- Two bytes, in a cache of one: the put returns the path of the file that it has removed. -/
theorem stored_and_removed :
    ¬ ∀ (computeKey : List UInt8 → String) (o : Overflow) (env : Surroundings)
      (config : AotCacheConfig) (wasm compiled : List UInt8) (path : String) (w w' : World),
      runOn (answerIn env) (putIn computeKey o config wasm compiled) w = (some (.ok path), w') →
        Fetched computeKey o env config wasm compiled path w w' := by
  intro h
  have hput : (runOn (answerIn .calm) (putIn (fun _ => "k") .panics ⟨1, false⟩ [0] [1, 2])
      (⟨.empty, []⟩, 0)).1 = some (.ok "k.aot") := by decide +kernel
  have hget := (h (fun _ => "k") .panics .calm ⟨1, false⟩ [0] [1, 2] "k.aot" (⟨.empty, []⟩, 0) _
    (Prod.ext hput rfl)).found
  revert hget
  decide +kernel

end Mik.Runtime.Aot
