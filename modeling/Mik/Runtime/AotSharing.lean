/-
  Cache directories that several puts share.

  The temporary file of a put is named after its key alone. Two puts of one key share it: the
  second truncates what the first has written, and the first renames it (`reader_finds_empty`). As
  long as no put creates a temporary file that another one is still writing or about to rename, all
  is well (`only_complete`): every put then has the file it writes for itself (`Stored.apart`), and
  a file that has got its name is written no more.
-/
import Mik.Runtime.AotCache

namespace Mik.Runtime.Aot

open Mik.Lib Prog Function

/-! ## What is stored -/

section

variable {puts : List (String × List UInt8)} {q : Nat → Stage} {s : Shared} {i : Nat}
  {key name : String} {bytes : List UInt8} {ino n : Nat}

/-- Every put has the file it writes for itself; what is not a temporary file is complete, and so
    is what was opened, which is not a temporary file any more. -/
structure Stored (puts : List (String × List UInt8)) (q : Nat → Stage) (s : Shared) : Prop where
  written : ∀ {i key bytes ino n}, q i = .writing key bytes ino n →
    s.dir.lookup (tempName key) = some ino ∧ n ≤ bytes.length ∧
      s.dir.content ino = bytes.take n
  apart : ∀ {i j key key' bytes bytes' ino n n'}, q i = .writing key bytes ino n →
    q j = .writing key' bytes' ino n' → i = j
  named : ∀ {name ino}, s.dir.lookup name = some ino → Kept name →
    Complete puts name (s.dir.content ino)
  opened : ∀ {name ino}, (name, ino) ∈ s.opened →
    ino < s.dir.next ∧ (∀ key, s.dir.lookup (tempName key) ≠ some ino) ∧
      Complete puts name (s.dir.content ino)

/-- The inode is that of a temporary file, or new. -/
def Temporary (d : Directory) (ino : Nat) : Prop :=
  (∃ key, d.lookup (tempName key) = some ino) ∨ d.next ≤ ino

theorem temporary_createdInode (d : Directory) (key : String) :
    Temporary d (d.createdInode (tempName key)) :=
  (d.createdInode_cases (tempName key)).symm.imp (fun h => ⟨key, h⟩) id

namespace Stored

/-- What is written is no file that was opened. -/
theorem ne_of_opened (h : Stored puts q s) (htemp : Temporary s.dir ino) {ino' : Nat}
    (hmem : (name, ino') ∈ s.opened) : ino' ≠ ino := by
  rintro rfl
  obtain ⟨hlt, hnot, -⟩ := h.opened hmem
  rcases htemp with ⟨key, hlookup⟩ | hle
  · exact hnot key hlookup
  · omega

/-- Nor one that has another name than a temporary file. -/
theorem ne_of_named (htemp : Temporary s.dir ino) {ino' : Nat}
    (hlookup : s.dir.lookup name = some ino') (hkept : Kept name) : ino' ≠ ino := by
  rintro rfl
  rcases htemp with ⟨key, htemp⟩ | hle
  · exact hkept key (s.dir.unshared hlookup htemp)
  · have := s.dir.allocated hlookup
    omega

theorem mono {puts' : List (String × List UInt8)} (h : Stored puts q s) (hsub : puts ⊆ puts') :
    Stored puts' q s := by
  have hcomplete : ∀ {name bytes}, Complete puts name bytes → Complete puts' name bytes := by
    rintro name bytes ⟨key, hput, hname⟩
    exact ⟨key, hsub hput, hname⟩
  refine ⟨h.written, h.apart, fun hlookup hkept => hcomplete (h.named hlookup hkept), ?_⟩
  intro name ino hmem
  obtain ⟨hlt, hnot, hold⟩ := h.opened hmem
  exact ⟨hlt, hnot, hcomplete hold⟩

/-- A task that writes nothing any more. -/
theorem rest {stage : Stage} (h : Stored puts q s) (hstage : stage.Resting) :
    Stored puts (update q i stage) s := by
  have hold : ∀ {j key bytes ino n}, update q i stage j = .writing key bytes ino n →
      q j = .writing key bytes ino n := by
    intro j key bytes ino n hj
    by_cases hji : j = i
    · rw [hji, update_self] at hj
      rw [hj] at hstage
      exact hstage.elim
    · rw [update_of_ne hji] at hj
      exact hj
  exact ⟨fun hj => h.written (hold hj), fun hj hj' => h.apart (hold hj) (hold hj'), h.named,
    h.opened⟩

theorem create (h : Stored puts q s)
    (hfree : ∀ j key' bytes' n',
      q j ≠ .writing key' bytes' (s.dir.createdInode (tempName key)) n') :
    Stored puts
      (update q i (.writing key bytes (s.dir.createdInode (tempName key)) 0))
      { s with dir := s.dir.create (tempName key) } := by
  have htemp := temporary_createdInode s.dir key
  refine ⟨?_, ?_, ?_, ?_⟩
  · intro j key' bytes' ino n hj
    by_cases hji : j = i
    · rw [hji, update_self] at hj
      cases hj
      refine ⟨?_, Nat.zero_le _, ?_⟩
      · rw [Directory.lookup_create, if_pos rfl]
      · rw [Directory.content_create, update_self, List.take_zero]
    · rw [update_of_ne hji] at hj
      obtain ⟨hlookup, hle, hcontent⟩ := h.written hj
      have hino : ino ≠ s.dir.createdInode (tempName key) := by
        rintro rfl
        exact hfree j _ _ _ hj
      have hname : tempName key' ≠ tempName key := by
        intro heq
        rw [heq] at hlookup
        refine hino ?_
        rw [Directory.createdInode, hlookup]
        rfl
      refine ⟨?_, hle, ?_⟩
      · rw [Directory.lookup_create, if_neg hname, hlookup]
      · rw [Directory.content_create, update_of_ne hino, hcontent]
  · intro j j' key₁ key₂ bytes₁ bytes₂ ino n n' hj hj'
    by_cases hji : j = i
    · by_cases hji' : j' = i
      · exact hji.trans hji'.symm
      · rw [hji, update_self] at hj
        rw [update_of_ne hji'] at hj'
        cases hj
        exact absurd hj' (hfree _ _ _ _)
    · rw [update_of_ne hji] at hj
      by_cases hji' : j' = i
      · rw [hji', update_self] at hj'
        cases hj'
        exact absurd hj (hfree _ _ _ _)
      · rw [update_of_ne hji'] at hj'
        exact h.apart hj hj'
  · intro name ino hlookup hkept
    rw [Directory.lookup_create, if_neg (hkept key)] at hlookup
    rw [Directory.content_create, update_of_ne (ne_of_named htemp hlookup hkept)]
    exact h.named hlookup hkept
  · intro name ino hmem
    have hne := h.ne_of_opened htemp hmem
    obtain ⟨hlt, hnot, hcomplete⟩ := h.opened hmem
    refine ⟨Nat.lt_of_lt_of_le hlt (Directory.next_le_create _ _), fun key' => ?_, ?_⟩
    · rw [Directory.lookup_create]
      split
      · exact fun heq => hne (Option.some.inj heq).symm
      · exact hnot key'
    · rw [Directory.content_create, update_of_ne hne]
      exact hcomplete

theorem write (h : Stored puts q s) (hq : q i = .writing key bytes ino n) {m : Nat}
    (hm : m ≤ (bytes.drop n).length) :
    Stored puts (update q i (.writing key bytes ino (n + m)))
      { s with dir := s.dir.writeAt ino n ((bytes.drop n).take m) } := by
  obtain ⟨hlookup, hle, hcontent⟩ := h.written hq
  have htemp : Temporary s.dir ino := Or.inl ⟨key, hlookup⟩
  have hlength : (bytes.take n).length = n := by
    rw [List.length_take]
    omega
  have hpatch : Directory.patch (s.dir.content ino) n ((bytes.drop n).take m) =
      bytes.take (n + m) := by
    have hend := Directory.patch_end (bytes.take n) ((bytes.drop n).take m)
    rw [hlength] at hend
    rw [hcontent, hend, List.take_add]
  rw [List.length_drop] at hm
  refine ⟨?_, ?_, ?_, ?_⟩
  · intro j key' bytes' ino' n' hj
    by_cases hji : j = i
    · rw [hji, update_self] at hj
      cases hj
      refine ⟨hlookup, by omega, ?_⟩
      rw [Directory.content_writeAt, update_self, hpatch]
    · rw [update_of_ne hji] at hj
      have hino : ino' ≠ ino := by
        rintro rfl
        exact hji (h.apart hj hq)
      rw [Directory.content_writeAt, update_of_ne hino]
      exact h.written hj
  · intro j j' key₁ key₂ bytes₁ bytes₂ ino' n₁ n₂ hj hj'
    have hold : ∀ {j key' bytes' n'},
        update q i (.writing key bytes ino (n + m)) j = .writing key' bytes' ino' n' →
        ∃ key'' bytes'' n'', q j = .writing key'' bytes'' ino' n'' := by
      intro j key' bytes' n' hj
      by_cases hji : j = i
      · rw [hji, update_self] at hj
        cases hj
        rw [hji]
        exact ⟨_, _, _, hq⟩
      · rw [update_of_ne hji] at hj
        exact ⟨_, _, _, hj⟩
    obtain ⟨_, _, _, hj⟩ := hold hj
    obtain ⟨_, _, _, hj'⟩ := hold hj'
    exact h.apart hj hj'
  · intro name ino' hlookup' hkept
    rw [Directory.content_writeAt, update_of_ne (ne_of_named htemp hlookup' hkept)]
    exact h.named hlookup' hkept
  · intro name ino' hmem
    rw [Directory.content_writeAt, update_of_ne (h.ne_of_opened htemp hmem)]
    exact h.opened hmem

/-- The put of a file that is written gives it its name. -/
theorem rename (h : Stored puts q s) (hq : q i = .writing key bytes ino bytes.length)
    (hlookup : s.dir.lookup (tempName key) = some ino)
    (hcomplete : Complete puts (aotName key) bytes) :
    Stored puts (update q i .idle)
      { s with dir := s.dir.link (tempName key) (aotName key) ino hlookup } := by
  obtain ⟨-, -, hcontent⟩ := h.written hq
  rw [List.take_length] at hcontent
  have haot : ∀ key', tempName key' ≠ aotName key := fun key' heq => kept_aotName key key' heq.symm
  refine ⟨?_, ?_, ?_, ?_⟩
  · intro j key' bytes' ino' n' hj
    by_cases hji : j = i
    · rw [hji, update_self] at hj
      cases hj
    · rw [update_of_ne hji] at hj
      obtain ⟨hlookup', hle, hcontent'⟩ := h.written hj
      have hname : tempName key' ≠ tempName key := by
        intro heq
        rw [heq, hlookup] at hlookup'
        cases hlookup'
        exact hji (h.apart hj hq)
      refine ⟨?_, hle, hcontent'⟩
      rw [Directory.lookup_link, if_neg (haot key'), if_neg hname, hlookup']
  · intro j j' key₁ key₂ bytes₁ bytes₂ ino' n₁ n₂ hj hj'
    exact (h.rest (i := i) (show Stage.idle.Resting from trivial)).apart hj hj'
  · intro name ino' hlookup' hkept
    rw [Directory.lookup_link] at hlookup'
    split at hlookup'
    · next heq =>
      cases hlookup'
      rw [heq]
      show Complete _ _ (s.dir.content ino)
      rw [hcontent]
      exact hcomplete
    · rw [if_neg (hkept key)] at hlookup'
      exact h.named hlookup' hkept
  · intro name ino' hmem
    obtain ⟨hlt, hnot, hold⟩ := h.opened hmem
    refine ⟨hlt, fun key' => ?_, hold⟩
    rw [Directory.lookup_link, if_neg (haot key')]
    split
    · nofun
    · exact hnot key'

theorem unlink (h : Stored puts q s) (hkept : Kept name) :
    Stored puts q { s with dir := s.dir.unlink name } := by
  have hsame : ∀ key, (s.dir.unlink name).lookup (tempName key) = s.dir.lookup (tempName key) := by
    intro key
    rw [Directory.lookup_unlink, if_neg fun heq => hkept key heq.symm]
  refine ⟨fun hj => ?_, h.apart, ?_, fun hmem => ?_⟩
  · rw [hsame]
    exact h.written hj
  · intro name' ino hlookup hkept'
    rw [Directory.lookup_unlink] at hlookup
    split at hlookup
    · cases hlookup
    · exact h.named hlookup hkept'
  · obtain ⟨hlt, hnot, hold⟩ := h.opened hmem
    refine ⟨hlt, fun key => ?_, hold⟩
    rw [hsame]
    exact hnot key

theorem openFile (h : Stored puts q s) (hkept : Kept name)
    (hlookup : s.dir.lookup name = some ino) :
    Stored puts q { s with opened := (name, ino) :: s.opened } := by
  refine ⟨h.written, h.apart, h.named, fun hmem => ?_⟩
  rcases List.mem_cons.mp hmem with heq | hmem
  · cases heq
    refine ⟨s.dir.allocated hlookup, fun key hkey => ?_, h.named hlookup hkept⟩
    exact hkept key (s.dir.unshared hlookup hkey)
  · exact h.opened hmem

end Stored

/-- Whatever action a task performs at its stage, what is stored stays so. -/
theorem stored_answer (e : Outside) {a : FileAction} (h : Stored puts q s)
    (hallows : (q i).Allows a)
    (hcomplete : ∀ key bytes ino n, q i = .writing key bytes ino n →
      Complete puts (aotName key) bytes)
    (hfree : ∀ name, a = .create name →
      ∀ j key bytes n, q j ≠ .writing key bytes (s.dir.createdInode name) n) :
    Stored puts (update q i ((q i).next a (answer e a s).1)) (answer e a s).2 := by
  have hrest : (q i).Resting → Rests a → ∀ s', Stored puts q s' →
      Stored puts (update q i ((q i).next a (answer e a s).1)) s' := by
    intro hresting ha s' hs'
    rw [next_of_rests hresting ha, update_eq_self]
    exact hs'
  cases a with
  | create name =>
    obtain ⟨key, bytes, hq, rfl⟩ := hallows
    rw [hq]
    unfold answer
    cases e.fault with
    | some text => exact h.rest (show Stage.idle.Resting from trivial)
    | none => exact h.create fun j key' bytes' n' => hfree _ rfl j key' bytes' n'
  | write ino offset rest =>
    obtain ⟨key, bytes, hq, rfl⟩ := hallows
    rw [hq]
    unfold answer
    cases e.fault with
    | some text => exact h.rest (show Stage.idle.Resting from trivial)
    | none =>
      have hwrite := h.write hq (Nat.min_le_right e.written (bytes.drop offset).length)
      rw [← List.take_eq_take_min] at hwrite
      dsimp only
      cases hm : min e.written (bytes.drop offset).length with
      | zero =>
        have hidle := hwrite.rest (i := i) (show Stage.idle.Resting from trivial)
        rw [update_idem] at hidle
        exact hidle
      | succ m =>
        rw [hm] at hwrite
        exact hwrite
  | rename name name' =>
    obtain ⟨key, bytes, ino, hq, rfl, rfl⟩ := hallows
    have hlookup := (h.written hq).1
    have hdone := h.rename hq hlookup (hcomplete _ _ _ _ hq)
    rw [hq]
    unfold answer
    cases e.fault with
    | some text => exact h.rest (show Stage.idle.Resting from trivial)
    | none =>
      simp only [Directory.rename_of_lookup hlookup]
      exact hdone
  | removeFile name =>
    refine hrest hallows.1 hallows.2 _ ?_
    unfold answer
    cases e.fault with
    | some text => exact h
    | none =>
      dsimp only
      cases s.dir.lookup name with
      | none => exact h
      | some ino => exact h.unlink hallows.2
  | openFile name =>
    refine hrest hallows.1 hallows.2 _ ?_
    unfold answer
    cases e.fault with
    | some text => exact h
    | none =>
      dsimp only
      cases hlookup : s.dir.lookup name with
      | none => exact h
      | some ino => exact h.openFile hallows.2 hlookup
  | pathExists name => exact hrest hallows trivial _ h
  | readDir =>
    refine hrest hallows trivial _ ?_
    unfold answer
    cases e.fault with
    | some text => exact h
    | none => exact h
  | deserialize ino =>
    refine hrest hallows trivial _ ?_
    unfold answer
    cases e.fault with
    | some text => exact h
    | none => exact h

end

/-! ## Every interleaving -/

section

variable {computeKey : List UInt8 → String} {w : System} {q : Nat → Stage}

/-- Who writes performs a write or a rename. -/
theorem allows_writing {a : FileAction} {key : String} {bytes : List UInt8} {ino n : Nat}
    (h : Stage.Allows (.writing key bytes ino n) a) :
    (∃ offset rest, a = .write ino offset rest) ∨ ∃ name', a = .rename (tempName key) name' := by
  cases a with
  | write ino' offset rest =>
    obtain ⟨_, _, heq, -⟩ := h
    cases heq
    exact Or.inl ⟨_, _, rfl⟩
  | rename name name' =>
    obtain ⟨_, _, _, heq, rfl, -⟩ := h
    cases heq
    exact Or.inr ⟨_, rfl⟩
  | create name =>
    obtain ⟨_, _, heq, -⟩ := h
    cases heq
  | removeFile name => exact h.1.elim
  | openFile name => exact h.1.elim
  | pathExists name => exact h.elim
  | readDir => exact h.elim
  | deserialize ino' => exact h.elim

/-- A put that has not created its file has not done so before. -/
theorem ready_of_next {stage : Stage} {a : FileAction} {r : FileReply a} {key : String}
    {bytes : List UInt8} (hallows : stage.Allows a) (h : stage.next a r = .ready key bytes) :
    stage = .ready key bytes := by
  cases stage with
  | idle => exact h
  | ready key' bytes' =>
    cases a with
    | create name =>
      cases r with
      | error e => cases h
      | ok ino => cases h
    | _ => exact h
  | writing key' bytes' ino n =>
    rcases allows_writing hallows with ⟨_, _, rfl⟩ | ⟨_, rfl⟩
    · cases r with
      | error e => cases h
      | ok m =>
        cases m with
        | zero => cases h
        | succ m => cases h
    · cases h

/-- Who writes has written before, or has just created the file. -/
theorem writing_of_next {stage : Stage} {a : FileAction} {r : FileReply a} {key : String}
    {bytes : List UInt8} {ino n : Nat} (hallows : stage.Allows a)
    (h : stage.next a r = .writing key bytes ino n) :
    (∃ n', stage = .writing key bytes ino n') ∨
      stage = .ready key bytes ∧ ∃ name, a = .create name := by
  cases stage with
  | idle => cases h
  | ready key' bytes' =>
    cases a with
    | create name =>
      cases r with
      | error e => cases h
      | ok ino' =>
        cases h
        exact Or.inr ⟨rfl, name, rfl⟩
    | _ => cases h
  | writing key' bytes' ino' n' =>
    rcases allows_writing hallows with ⟨_, _, rfl⟩ | ⟨_, rfl⟩
    · cases r with
      | error e => cases h
      | ok m =>
        cases m with
        | zero => cases h
        | succ m =>
          cases h
          exact Or.inl ⟨_, rfl⟩
    · cases h

theorem answered_answer (e : Outside) (a : FileAction) (s : Shared) :
    Answered a (answer e a s).1 := by
  cases a with
  | write ino offset bytes =>
    intro n hn
    unfold answer at hn
    cases hfault : e.fault with
    | some text =>
      rw [hfault] at hn
      cases hn
    | none =>
      rw [hfault] at hn
      cases hn
      exact Nat.min_le_right _ _
  | _ => trivial

/-- The invariant of a run; `q` says where each task is. -/
structure Sound (computeKey : List UInt8 → String) (w : System) (q : Nat → Stage) : Prop where
  tracked : Pool.Tracked putting Answered (fun q _ => q.Resting) Stage.Resting w.pool q
  source : ∀ {i key bytes}, q i = .ready key bytes →
    (w.calls i).bind (Call.stores computeKey) = some (key, bytes)
  begun : ∀ {i key bytes ino n}, q i = .writing key bytes ino n → (key, bytes) ∈ w.puts
  stored : Stored w.puts q w.pool.state

namespace Sound

/-- A task that writes a file is busy with it. -/
theorem busy (h : Sound computeKey w q) {j : Nat} {key : String} {bytes : List UInt8} {ino n : Nat}
    (hj : q j = .writing key bytes ino n) : Busy w j (tempName key) := by
  have hnot : ¬ (q j).Resting := by
    rw [hj]
    exact id
  cases hp : w.pool.tasks j with
  | none => exact absurd (h.tracked.gone j hp) hnot
  | some p =>
    have hobeys := h.tracked.obeying j p hp
    cases p with
    | ret x => exact absurd hobeys hnot
    | act a k =>
      have hnext : nextAction w j = some a := by
        unfold nextAction
        rw [hp]
      have hallows := hobeys.1
      rw [hj] at hallows
      rcases allows_writing hallows with ⟨offset, rest, rfl⟩ | ⟨name', rfl⟩
      · exact Or.inl ⟨_, _, _, hnext, (h.stored.written hj).1⟩
      · exact Or.inr ⟨_, hnext⟩

theorem onlyComplete (h : Sound computeKey w q) : OnlyComplete w :=
  fun _ _ hmem => (h.stored.opened hmem).2.2

end Sound

theorem sound_new (computeKey : List UInt8 → String) :
    Sound computeKey newSystem fun _ => .idle where
  tracked := ⟨nofun, fun _ _ => trivial⟩
  source h := nomatch h
  begun h := nomatch h
  stored := ⟨nofun, nofun, nofun, nofun⟩

theorem tracked_eq (q : Nat → Stage) (i : Nat) (stage : Stage) :
    (fun j => if j = i then stage else q j) = update q i stage := by
  funext j
  exact (update_apply q i stage j).symm

/-- A call begins under a free number. -/
theorem sound_start (h : Sound computeKey w q) {i : Nat} (hi : w.pool.tasks i = none)
    (call : Call) :
    Sound computeKey (step computeKey w (.start i call)) (update q i (call.begins computeKey)) := by
  have htracked := h.tracked.step (fun _ _ hq => hq) answer (call.begins computeKey)
    (.spawn i (call.program computeKey)) (fun j p hp => by cases hp; exact obeys_call _ _) nofun
  have hpool : (step computeKey w (.start i call)).pool =
      { w.pool with
        tasks := fun j => if j = i then some (call.program computeKey) else w.pool.tasks j } := by
    show Pool.step answer w.pool (.spawn i (call.program computeKey)) = _
    exact Pool.step_spawn_of_none _ hi
  rw [Pool.step_spawn_of_none _ hi, Pool.track_spawn_of_none _ _ hi, tracked_eq] at htracked
  have hcalls : ∀ j, (step computeKey w (.start i call)).calls j =
      if j = i then some call else w.calls j := by
    intro j
    show (if j = i ∧ (w.pool.tasks i).isNone then some call else w.calls j) = _
    simp [hi]
  refine ⟨?_, fun {j key bytes} hready => ?_, fun {j key bytes ino n} hwriting => ?_, ?_⟩
  · rw [hpool]
    exact htracked
  · rw [hcalls]
    by_cases hji : j = i
    · rw [hji, update_self] at hready
      rw [if_pos hji]
      show call.stores computeKey = _
      unfold Call.begins at hready
      cases hstores : call.stores computeKey with
      | none =>
        rw [hstores] at hready
        cases hready
      | some stored =>
        rw [hstores] at hready
        cases hready
        rfl
    · rw [update_of_ne hji] at hready
      rw [if_neg hji]
      exact h.source hready
  · by_cases hji : j = i
    · have hresting := resting_begins computeKey call
      rw [hji, update_self] at hwriting
      rw [hwriting] at hresting
      exact hresting.elim
    · rw [update_of_ne hji] at hwriting
      exact h.begun hwriting
  · rw [hpool]
    exact h.stored.rest (resting_begins computeKey call)

/-- A task performs an action. -/
theorem sound_perform (h : Sound computeKey w q) {i : Nat} {e : Outside} {a : FileAction}
    {k : FileReply a → Task Unit} (hi : w.pool.tasks i = some (.act a k))
    (hok : CreatesUndisturbed w (.advance i e)) :
    Sound computeKey (step computeKey w (.advance i e))
      (update q i ((q i).next a (answer e a w.pool.state).1)) := by
  have htracked := h.tracked.step (fun _ _ hq => hq) answer Stage.idle (.advance i e) nofun
    fun _ _ _ _ _ _ => answered_answer _ _ _
  have hallows : (q i).Allows a := (h.tracked.obeying i _ hi).1
  have hpool : (step computeKey w (.advance i e)).pool =
      { tasks := fun j =>
          if j = i then some (k (answer e a w.pool.state).1) else w.pool.tasks j
        state := (answer e a w.pool.state).2 } := Pool.step_advance_act e hi
  rw [Pool.step_advance_act _ hi, Pool.track_advance_act _ _ hi, tracked_eq] at htracked
  have hnext : nextAction w i = some a := by
    unfold nextAction
    rw [hi]
  have hputs : w.puts ⊆ (step computeKey w (.advance i e)).puts := by
    unfold step
    dsimp only
    rw [hnext]
    split
    · exact List.subset_append_right _ _
    · exact List.Subset.refl _
  have hbegun : ∀ {key bytes ino n}, (q i).next a (answer e a w.pool.state).1 =
      .writing key bytes ino n → (key, bytes) ∈ (step computeKey w (.advance i e)).puts := by
    intro key bytes ino n hwriting
    rcases writing_of_next hallows hwriting with ⟨n', hold⟩ | ⟨hready, name, rfl⟩
    · exact hputs (h.begun hold)
    · unfold step
      dsimp only
      rw [hnext]
      dsimp only
      rw [h.source hready]
      exact List.mem_cons_self
  refine ⟨?_, fun {j key bytes} hready => ?_, fun {j key bytes ino n} hwriting => ?_, ?_⟩
  · rw [hpool]
    exact htracked
  · by_cases hji : j = i
    · rw [hji, update_self] at hready
      rw [hji]
      exact h.source (ready_of_next hallows hready)
    · rw [update_of_ne hji] at hready
      exact h.source hready
  · by_cases hji : j = i
    · rw [hji, update_self] at hwriting
      exact hbegun hwriting
    · rw [update_of_ne hji] at hwriting
      exact hputs (h.begun hwriting)
  · rw [hpool]
    refine stored_answer e (h.stored.mono hputs) hallows (fun key bytes ino n hq => ?_) ?_
    · exact ⟨key, hputs (h.begun hq), rfl⟩
    · -- Whoever else wrote the file that is created would be busy with it.
      rintro name rfl j key bytes n hj
      have hbusy := h.busy hj
      have hname : tempName key = name := Directory.name_of_createdInode (h.stored.written hj).1
      rw [hname] at hbusy
      refine hok name hnext j ?_ hbusy
      rintro rfl
      obtain ⟨_, _, hready, -⟩ := hallows
      rw [hready] at hj
      cases hj

theorem sound_step {e : Event} (h : Sound computeKey w q) (hok : CreatesUndisturbed w e) :
    ∃ q', Sound computeKey (step computeKey w e) q' := by
  cases e with
  | start i call =>
    cases hi : w.pool.tasks i with
    | none => exact ⟨_, sound_start h hi call⟩
    | some p =>
      have hcalls : (fun j => if j = i ∧ (w.pool.tasks i).isNone then some call
          else w.calls j) = w.calls := by
        funext j
        simp [hi]
      have hsame : step computeKey w (.start i call) = w := by
        unfold step
        dsimp only
        rw [Pool.step_spawn_of_some _ hi, hcalls]
      rw [hsame]
      exact ⟨q, h⟩
  | advance i e =>
    have hpool : ∀ pool, nextAction w i = none →
        Pool.step answer w.pool (.advance i e) = pool →
        step computeKey w (.advance i e) = { w with pool } := by
      intro pool hnext hmoved
      unfold step
      dsimp only
      rw [hnext, hmoved]
    cases hi : w.pool.tasks i with
    | none =>
      have hnext : nextAction w i = none := by
        unfold nextAction
        rw [hi]
      rw [hpool _ hnext (Pool.step_advance_of_none e hi)]
      exact ⟨q, h⟩
    | some p =>
      cases p with
      | act a k => exact ⟨_, sound_perform h hi hok⟩
      | ret x =>
        have htracked := h.tracked.step (fun _ _ hq => hq) answer Stage.idle (.advance i e) nofun
          fun _ _ _ _ _ _ => answered_answer _ _ _
        rw [Pool.step_advance_ret _ hi, Pool.track_advance_ret _ _ hi] at htracked
        have hnext : nextAction w i = none := by
          unfold nextAction
          rw [hi]
        rw [hpool _ hnext (Pool.step_advance_ret e hi)]
        exact ⟨q, htracked, h.source, h.begun, h.stored⟩

/-- No put opening a temporary file that another one is busy with, whatever is opened for
    deserialisation is complete, in every state of every interleaving. -/
theorem only_complete (computeKey : List UInt8 → String) (events : List Event)
    (h : Along (step computeKey) CreatesUndisturbed newSystem events) :
    ∀ pre, pre <+: events → OnlyComplete (run (step computeKey) newSystem pre) := by
  intro pre hpre
  have hsound : ∃ q, Sound computeKey (run (step computeKey) newSystem pre) q := by
    refine @run_invariant _ _ (step computeKey) CreatesUndisturbed
      (fun w => ∃ q, Sound computeKey w q) _ _ ⟨_, sound_new computeKey⟩ ?_ (along_upto h hpre)
    rintro w e ⟨q, hq⟩ hok
    exact sound_step hq hok
  obtain ⟨q, hq⟩ := hsound
  exact hq.onlyComplete

end

/-- Nothing fails, and a write takes two bytes. -/
def Outside.calm : Outside := ⟨none, 2, [], fun _ => 0⟩

def smallCache : AotCacheConfig := ⟨1000, false⟩

/-- A module is stored by two at once: the second truncates the file that the first has written and
    renames, and a reader opens it. -/
def sharedTemp : List Event :=
  [.start 0 (.put smallCache [0] [1, 2]), .advance 0 .calm, .advance 0 .calm,
    .start 1 (.put smallCache [0] [1, 2]), .advance 1 .calm, .advance 0 .calm,
    .start 2 (.load smallCache [0] none), .advance 2 .calm, .advance 2 .calm]

theorem reader_finds_empty :
    ¬ ∀ (computeKey : List UInt8 → String) (events : List Event),
      OnlyComplete (run (step computeKey) newSystem events) := by
  intro h
  obtain ⟨key, hput, -⟩ := h (fun _ => "k") sharedTemp "k.aot" 0 (by decide)
  have hnone : ∀ put ∈ (run (step fun _ => "k") newSystem sharedTemp).puts, put.2 ≠
      (run (step fun _ => "k") newSystem sharedTemp).pool.state.dir.content 0 := by
    decide
  exact hnone _ hput rfl

theorem not_busy {w : System} {j : Nat} (h : w.pool.tasks j = none) (name : String) :
    ¬ Busy w j name := by
  have hnext : nextAction w j = none := by
    unfold nextAction
    rw [h]
  rintro (⟨_, _, _, hwrite, -⟩ | ⟨_, hrename⟩)
  · rw [hnext] at hwrite
    cases hwrite
  · rw [hnext] at hrename
    cases hrename

/-- A put that nobody disturbs, and a reader after it. -/
def onePut : List Event :=
  [.start 0 (.put smallCache [0] [1, 2]), .advance 0 .calm, .advance 0 .calm, .advance 0 .calm,
    .start 2 (.load smallCache [0] none), .advance 2 .calm, .advance 2 .calm]

theorem only_complete_one_put :
    ("k.aot", 0) ∈ (run (step fun _ => "k") newSystem onePut).pool.state.opened ∧
      OnlyComplete (run (step fun _ => "k") newSystem onePut) := by
  refine ⟨by decide, only_complete _ onePut ?_ onePut List.prefix_rfl⟩
  refine ⟨trivial, fun name _ j hj => not_busy (if_neg hj) name, ?_, ?_, trivial, ?_, ?_, trivial⟩
  · intro name hname
    cases hname
  · intro name hname
    cases hname
  · intro name hname
    cases hname
  · intro name hname
    cases hname

end Mik.Runtime.Aot
