/-
  Sanitising a path that has been sanitised.

  `sanitize_file_path` checks its input as a text and then resolves its segments, and what is left
  need not pass the same checks: `keptNames` finds the segments that are left, from the last to
  the first, and each is a segment of the input. Null bytes, devices and leading `..` are looked
  for in every segment, so none is left. But the beginning of the text and its first colon are
  those of the first segment that is kept, which need not be the first one there was
  (`sanitize_idempotent_iff`).
-/
import Mik.Runtime.WindowsPath

namespace Mik.Runtime

open Mik.Lib

/-! ## The segments that are kept -/

/-- Of segments from the last to the first, those that so many `..` behind them and the ones among
    them leave, from the first to the last. -/
def keptFrom : Nat → List String → List String
  | _, [] => []
  | pops, segment :: front =>
    if segment = "" ∨ segment = "." then keptFrom pops front
    else if segment = ".." then keptFrom (pops + 1) front
    else
      match pops with
      | 0 => keptFrom 0 front ++ [segment]
      | pops + 1 => keptFrom pops front

def keptNames (segments : List String) : List String := keptFrom 0 segments.reverse

/-- What is left on the stack, but for its last names. -/
theorem keptFrom_eq {segments stack : List String} (h : resolveSegments segments = some stack)
    (pops : Nat) : keptFrom pops segments.reverse = stack.take (stack.length - pops) := by
  induction segments using List.reverseRecOn generalizing stack pops with
  | nil =>
    cases h
    rw [List.take_nil]
    rfl
  | append_singleton segments segment ih =>
    unfold resolveSegments at h ih
    rw [List.foldlM_append] at h
    obtain ⟨before, hbefore, hstep⟩ := Option.bind_eq_some_iff.mp h
    have hlast : stackStep before segment = some stack := by
      simpa [List.foldlM_cons, List.foldlM_nil] using hstep
    rw [List.reverse_append, List.reverse_singleton, List.singleton_append]
    unfold stackStep at hlast
    unfold keptFrom
    by_cases hskip : segment = "" ∨ segment = "."
    · rw [if_pos hskip] at hlast ⊢
      cases hlast
      exact ih hbefore pops
    · rw [if_neg hskip] at hlast ⊢
      by_cases hpop : segment = ".."
      · rw [if_pos hpop] at hlast ⊢
        by_cases hnil : before = []
        · rw [if_pos hnil] at hlast
          cases hlast
        · rw [if_neg hnil] at hlast
          cases hlast
          rw [ih hbefore, List.dropLast_eq_take, List.take_take, List.length_take]
          congr 1
          omega
      · rw [if_neg hpop] at hlast ⊢
        cases hlast
        rw [List.length_append, List.length_singleton]
        cases pops with
        | zero =>
          have hall := ih hbefore 0
          rw [Nat.sub_zero, List.take_length] at hall
          have hlen : before.length + 1 - 0 = (before ++ [segment]).length := by simp
          rw [hlen, List.take_length]
          exact congrArg (· ++ [segment]) hall
        | succ pops =>
          have hrest := ih hbefore pops
          have hle : before.length + 1 - (pops + 1) ≤ before.length := by omega
          rw [List.take_append_of_le_length hle]
          have hsame : before.length + 1 - (pops + 1) = before.length - pops := by omega
          rw [hsame]
          exact hrest

theorem keptNames_eq {segments stack : List String}
    (h : resolveSegments segments = some stack) : keptNames segments = stack := by
  have hall := keptFrom_eq h 0
  rw [Nat.sub_zero, List.take_length] at hall
  exact hall

/-- Every name on the stack has been a segment. -/
theorem mem_of_resolveSegments {segments stack : List String}
    (h : resolveSegments segments = some stack) : ∀ name ∈ stack, name ∈ segments := by
  rw [← keptNames_eq h]
  have hmem : ∀ pops (rev : List String), ∀ name ∈ keptFrom pops rev, name ∈ rev := by
    intro pops rev
    fun_induction keptFrom pops rev with
    | case1 => exact fun name hname => hname
    | case2 pops segment front _ ih =>
      exact fun name hname => List.mem_cons_of_mem _ (ih name hname)
    | case3 pops front _ ih =>
      exact fun name hname => List.mem_cons_of_mem _ (ih name hname)
    | case4 segment front _ _ ih =>
      intro name hname
      rcases List.mem_append.mp hname with hname | hname
      · exact List.mem_cons_of_mem _ (ih name hname)
      · rw [List.mem_singleton.mp hname]
        exact List.mem_cons_self
    | case5 segment front _ _ pops ih =>
      exact fun name hname => List.mem_cons_of_mem _ (ih name hname)
  intro name hname
  exact List.mem_reverse.mp (hmem 0 _ name hname)

/-! ## The names that are left -/

/-- What sanitising a path leaves. -/
structure Sanitized (path : String) (names : List String) : Prop where
  nonempty : names ≠ []
  ok : NamesOk names
  noDots : ∀ name ∈ names, startsWith ".." name = false
  noDevice : ∀ name ∈ names, ∀ component ∈ windowsComponents name, ¬ NamesDevice component
  kept : keptNames (splitChar '/' path) = names

/-- The loop looks at every name. -/
theorem noDots_of_pushComponents {normalized q : String} {cs : List Component}
    (h : pushComponents normalized cs = .ok q) :
    ∀ name, .normal name ∈ cs → startsWith ".." name = false := by
  fun_induction pushComponents normalized cs with
  | case1 => exact fun name hname => absurd hname List.not_mem_nil
  | case2 => cases h
  | case3 => cases h
  | case4 normalized part rest _ hdots ih =>
    intro name hname
    rcases List.mem_cons.mp hname with heq | hname
    · cases heq
      exact eq_false_of_ne_true hdots
    · exact ih h name hname
  | case5 normalized rest ih =>
    intro name hname
    exact ih h name ((List.mem_cons.mp hname).resolve_left (by simp))
  | case6 => cases h
  | case7 normalized rest popped _ ih =>
    intro name hname
    exact ih h name ((List.mem_cons.mp hname).resolve_left (by simp))
  | case8 => cases h

theorem mem_of_foldlM {stack names : List String} {cs : List Component}
    (h : cs.foldlM stackComponent stack = some names) :
    ∀ name ∈ names, name ∈ stack ∨ .normal name ∈ cs := by
  induction cs generalizing stack with
  | nil =>
    cases h
    exact fun name hname => Or.inl hname
  | cons c cs ih =>
    rw [List.foldlM_cons] at h
    obtain ⟨next, hnext, hrest⟩ := Option.bind_eq_some_iff.mp h
    intro name hname
    rcases ih hrest name hname with hmem | hmem
    · cases c with
      | rootDir => cases hnext
      | curDir =>
        cases hnext
        exact Or.inl hmem
      | parentDir =>
        simp only [stackComponent] at hnext
        split at hnext
        · cases hnext
        · cases hnext
          exact Or.inl (List.dropLast_subset _ hmem)
      | normal part =>
        cases hnext
        rcases List.mem_append.mp hmem with hmem | hmem
        · exact Or.inl hmem
        · rw [List.mem_singleton.mp hmem]
          exact Or.inr List.mem_cons_self
    · exact Or.inr (List.mem_cons_of_mem _ hmem)

/-- Cutting at more characters cuts the pieces. -/
theorem mem_splitOnP_intercalate {p : Char → Bool} {c : Char} (hc : p c = true)
    {segs : List (List Char)} (hne : segs ≠ []) {piece : List Char} :
    piece ∈ ([c].intercalate segs).splitOnP p ↔ ∃ seg ∈ segs, piece ∈ seg.splitOnP p := by
  induction segs with
  | nil => exact absurd rfl hne
  | cons seg segs ih =>
    by_cases hnil : segs = []
    · rw [hnil, List.intercalate_singleton]
      simp
    · rw [List.intercalate_cons_of_ne_nil hnil, List.append_assoc, List.singleton_append,
        List.splitOnP_append_cons _ _ hc, List.mem_append, ih hnil]
      simp

theorem sanitized_of_ok {path q : String} (h : sanitizeFilePath path = .ok q) :
    ∃ names, q = pathOfNames names ∧ Sanitized path names := by
  obtain ⟨habs, names, rfl, hne, hok, hfold⟩ := sanitizeFilePath_ok h
  have hresolve : resolveSegments (splitChar '/' path) = some names := by
    rw [resolveSegments_splitChar habs, hfold]
  -- what the other checks have said
  unfold sanitizeFilePath at h
  split at h
  · cases h
  split at h
  · cases h
  split at h
  · cases h
  next hwindows =>
  split at h
  · cases h
  split at h
  · cases h
  next normalized hloop =>
  refine ⟨names, rfl, hne, hok, fun name hname => ?_, fun name hname component hmem => ?_,
    keptNames_eq hresolve⟩
  · rcases mem_of_foldlM hfold name hname with hmem | hmem
    · exact absurd hmem List.not_mem_nil
    · exact noDots_of_pushComponents hloop name hmem
  · obtain ⟨-, -, hnames⟩ := validateWindowsPath_ok_iff.mp hwindows
    refine hnames component ?_
    obtain ⟨seg, hseg, rfl⟩ := List.mem_map.mp (mem_of_resolveSegments hresolve name hname)
    unfold windowsComponents at hmem ⊢
    rw [String.toList_ofList] at hmem
    rw [← @List.intercalate_splitOn _ path.toList _ _ '/']
    exact (mem_splitOnP_intercalate (by decide) (List.splitOn_ne_nil '/' _)).mpr ⟨seg, hseg, hmem⟩

/-! ## The output as an input -/

theorem pushComponents_names {front back : List String} (hok : NamesOk back)
    (hdots : ∀ name ∈ back, startsWith ".." name = false) :
    pushComponents (pathOfNames front) (back.map .normal) = .ok (pathOfNames (front ++ back)) := by
  induction back generalizing front with
  | nil => rw [List.append_nil, List.map_nil, pushComponents]
  | cons name back ih =>
    have hnull : containsChar (Char.ofNat 0) name = false := by
      have hno := (hok name List.mem_cons_self).2
      simp [containsChar, hno]
    have hname := hdots name List.mem_cons_self
    have hrest := @ih (front ++ [name]) (fun n hn => hok n (List.mem_cons_of_mem _ hn))
      fun n hn => hdots n (List.mem_cons_of_mem _ hn)
    rw [List.append_assoc, List.singleton_append] at hrest
    rw [List.map_cons, pushComponents, hnull, hname, ← pathOfNames_snoc]
    exact hrest

/-- Of the text that is left only the Windows checks can say anything. -/
theorem sanitizeFilePath_names {path : String} {names : List String} (h : Sanitized path names) :
    sanitizeFilePath (pathOfNames names) =
      match validateWindowsPath (pathOfNames names) with
      | .error e => .error e
      | .ok _ => .ok (pathOfNames names) := by
  have hconfined := confined_pathOfNames h.nonempty h.ok
  have hnull : containsChar (Char.ofNat 0) (pathOfNames names) = false := by
    have hno := hconfined.noNull
    simp [containsChar, hno]
  have hloop := @pushComponents_names [] names h.ok h.noDots
  rw [pathOfNames_nil, List.nil_append] at hloop
  unfold sanitizeFilePath
  rw [hnull, if_neg Bool.false_ne_true, if_neg hconfined.nonempty, hconfined.relative,
    if_neg Bool.false_ne_true, components_pathOfNames h.ok.plain, hloop]
  cases validateWindowsPath (pathOfNames names) with
  | error e => rfl
  | ok _ => exact if_neg hconfined.nonempty

/-- The text of names begins with the first of them, alone or before a separator. -/
theorem pathOfNames_cons {first : String} {more : List String}
    (h : ∀ name ∈ first :: more, Plain name) :
    ∃ tail, (pathOfNames (first :: more)).toList = first.toList ++ tail ∧
      (tail = [] ∨ ∃ rest, tail = '/' :: rest) := by
  rw [pathOfNames_eq_intercalate h]
  cases more with
  | nil => exact ⟨[], by simp, Or.inl rfl⟩
  | cons name more =>
    refine ⟨'/' :: ("/".intercalate (name :: more)).toList, ?_, Or.inr ⟨_, rfl⟩⟩
    rw [String.intercalate_cons_cons, String.toList_append, String.toList_append,
      List.append_assoc]
    rfl

/-- The first name does not look like a share, and has a drive's colon if any name has one. -/
def StaysClean (names : List String) : Prop :=
  (∀ first ∈ names.head?, startsWith "\\\\" first = false) ∧
    ∀ name ∈ names, ':' ∈ name.toList →
      ∃ first ∈ names.head?, ':' ∈ first.toList ∧ ColonSecond first.toList

theorem uncStart_pathOfNames {first : String} {more : List String}
    (h : ∀ name ∈ first :: more, Plain name) :
    startsWith "\\\\" (pathOfNames (first :: more)) = startsWith "\\\\" first := by
  obtain ⟨tail, hcut, htail⟩ := pathOfNames_cons h
  have hne := (h first List.mem_cons_self).toList_ne.1
  unfold startsWith
  rw [hcut]
  rcases hfirst : first.toList with _ | ⟨c, _ | ⟨d, rest⟩⟩
  · exact absurd hfirst hne
  · rcases htail with rfl | ⟨rest, rfl⟩
    · simp
    · simp [List.isPrefixOf]
  · simp [List.isPrefixOf]

theorem colonSecond_pathOfNames {first : String} {more : List String}
    (h : ∀ name ∈ first :: more, Plain name) :
    ColonSecond (pathOfNames (first :: more)).toList ↔
      ∀ name ∈ first :: more, ':' ∈ name.toList →
        ':' ∈ first.toList ∧ ColonSecond first.toList := by
  obtain ⟨tail, hcut, htail⟩ := pathOfNames_cons h
  have hne := (h first List.mem_cons_self).toList_ne.1
  constructor
  · intro hsecond name hname hcolon
    have hmem : ':' ∈ (pathOfNames (first :: more)).toList := by
      rw [pathOfNames_eq_intercalate h]
      exact (mem_intercalate_iff (by decide)).mpr ⟨name, hname, hcolon⟩
    obtain ⟨c, rest, heq, hc, hsize⟩ := hsecond hmem
    rw [hcut] at heq
    rcases hfirst : first.toList with _ | ⟨a, _ | ⟨b, front⟩⟩
    · exact absurd hfirst hne
    · -- the second byte is a separator
      rw [hfirst] at heq
      rcases htail with rfl | ⟨rest', rfl⟩
      · cases heq
      · exact absurd (List.cons.inj (List.cons.inj heq).2).1 (by decide)
    · rw [hfirst] at heq
      obtain ⟨rfl, hback⟩ := List.cons.inj heq
      obtain ⟨rfl, -⟩ := List.cons.inj hback
      exact ⟨by simp, fun _ => ⟨a, front, rfl, hc, hsize⟩⟩
  · intro hnames hmem
    obtain ⟨name, hname, hcolon⟩ := mem_pathOfNames (by decide) hmem
    obtain ⟨hin, hsecond⟩ := hnames name hname hcolon
    obtain ⟨c, rest, heq, hc, hsize⟩ := hsecond hin
    exact ⟨c, rest ++ tail, by rw [hcut, heq]; rfl, hc, hsize⟩

theorem validateWindowsPath_names {path : String} {names : List String}
    (h : Sanitized path names) :
    validateWindowsPath (pathOfNames names) = .ok () ↔ StaysClean names := by
  obtain ⟨first, more, rfl⟩ := List.exists_cons_of_ne_nil h.nonempty
  have hrelative : startsWith "//" (pathOfNames (first :: more)) = false := by
    by_contra hno
    obtain ⟨rest, heq⟩ := startsWith_iff.mp (eq_true_of_ne_false hno)
    have habs : isAbsolute (pathOfNames (first :: more)) = true :=
      startsWith_iff.mpr ⟨"/" ++ rest, by rw [heq, ← String.append_assoc]; rfl⟩
    rw [pathOfNames_relative h.ok.plain] at habs
    cases habs
  have hdevice : ∀ component ∈ windowsComponents (pathOfNames (first :: more)),
      ¬ NamesDevice component := by
    intro component hmem
    unfold windowsComponents at hmem
    rw [pathOfNames_eq_intercalate h.ok.plain, String.toList_intercalate] at hmem
    obtain ⟨seg, hseg, hpiece⟩ := (mem_splitOnP_intercalate (by decide) (by simp)).mp hmem
    obtain ⟨name, hname, rfl⟩ := List.mem_map.mp hseg
    exact h.noDevice name hname component hpiece
  rw [validateWindowsPath_ok_iff, uncStart_pathOfNames h.ok.plain,
    colonSecond_pathOfNames h.ok.plain]
  unfold StaysClean
  simp only [List.head?_cons, Option.mem_some_iff, forall_eq', exists_eq_left']
  exact ⟨fun hok => ⟨hok.1.1, hok.2.1⟩, fun hok => ⟨⟨hok.1, hrelative⟩, hok.2, hdevice⟩⟩

/-- Nothing is in the path that the checks reject. -/
structure NothingRejected (path : String) : Prop where
  noNull : Char.ofNat 0 ∉ path.toList
  nonempty : path ≠ ""
  windows : validateWindowsPath path = .ok ()
  relative : isAbsolute path = false
  names : ∀ c ∈ components path, ∃ name, c = .normal name ∧ startsWith ".." name = false

/-- A path that has been sanitised stays as it is when it is sanitised again, and has nothing in
    it that is rejected, exactly when of the segments that are kept the first one does not begin
    with two backslashes and has, if any of them has a colon, its own first colon at byte index 1.
    It is rejected otherwise. -/
theorem sanitize_idempotent_iff (path q : String) (h : sanitizeFilePath path = .ok q) :
    ((sanitizeFilePath q = .ok q ∧ NothingRejected q) ↔
        StaysClean (keptNames (splitChar '/' path))) ∧
      (¬ StaysClean (keptNames (splitChar '/' path)) → ∃ e, sanitizeFilePath q = .error e) := by
  obtain ⟨names, rfl, hnames⟩ := sanitized_of_ok h
  have hconfined := confined_pathOfNames hnames.nonempty hnames.ok
  rw [hnames.kept, sanitizeFilePath_names hnames, ← validateWindowsPath_names hnames]
  cases hwindows : validateWindowsPath (pathOfNames names) with
  | error e =>
    refine ⟨⟨fun hok => ?_, fun hok => ?_⟩, fun _ => ⟨e, rfl⟩⟩
    · cases hok.1
    · cases hok
  | ok _ =>
    refine ⟨⟨fun _ => rfl, fun _ => ⟨rfl, ?_⟩⟩, fun hno => absurd rfl hno⟩
    refine ⟨hconfined.noNull, hconfined.nonempty, hwindows, hconfined.relative, fun c hc => ?_⟩
    rw [components_pathOfNames hnames.ok.plain] at hc
    obtain ⟨name, hname, rfl⟩ := List.mem_map.mp hc
    exact ⟨name, rfl, hnames.noDots name hname⟩

theorem sanitize_idempotent_dots :
    sanitizeFilePath "a/c" = .ok "a/c" ∧ NothingRejected "a/c" := by
  have hkept : keptNames (splitChar '/' "./a//b/../c/.") = ["a", "c"] := by decide
  have hcolon : ∀ name ∈ ["a", "c"], ':' ∉ name.toList := by decide
  refine (sanitize_idempotent_iff "./a//b/../c/." "a/c" (by decide)).1.mpr ?_
  rw [hkept]
  exact ⟨by decide, fun name hname hmem => absurd hmem (hcolon name hname)⟩

/-- A share behind `./`, and a stream behind a drive that `..` takes out. -/
theorem sanitized_twice :
    (sanitizeFilePath "./\\\\server\\share" = .ok "\\\\server\\share" ∧
        sanitizeFilePath "\\\\server\\share" = .error .uncPath) ∧
      sanitizeFilePath "c:/../file.txt:stream" = .ok "file.txt:stream" ∧
        sanitizeFilePath "file.txt:stream" = .error .alternateDataStream := by
  decide

end Mik.Runtime
