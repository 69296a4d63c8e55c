/-
  Unix paths as text: `std::path` on `/`-separated strings.

  `components` follows `Path::components`: repeated and trailing separators are ignored, `.`
  survives only as the first component, and a leading `/` is a root component. `join` is
  `Path::join`. A name without `/` that is not empty, `.` or `..` is `Plain`; joining a
  plain name appends exactly that one normal component (`components_join`).
-/
import Mathlib.Data.List.Induction
import Mik.Lib.Text

namespace Mik.Lib

/-- `std::path::Component` (there are no prefixes on Unix). -/
inductive Component where
  | rootDir
  | curDir
  | parentDir
  | normal (name : String)
  deriving DecidableEq, Repr

/-- A segment after the first one; empty segments and `.` disappear. -/
def innerComponent (seg : List Char) : Option Component :=
  if seg = [] ∨ seg = ['.'] then none
  else if seg = ['.', '.'] then some .parentDir
  else some (.normal (String.ofList seg))

/-- The first segment: the empty text before a leading `/` is the root, `.` is kept. -/
def firstComponent (seg : List Char) (segs : List (List Char)) : Option Component :=
  if seg = [] then (if segs = [] then none else some .rootDir)
  else if seg = ['.'] then some .curDir
  else innerComponent seg

/-- `Path::components`. -/
def components (p : String) : List Component :=
  match p.toList.splitOn '/' with
  | [] => []
  | seg :: segs => (firstComponent seg segs).toList ++ segs.filterMap innerComponent

theorem components_empty : components "" = [] := by decide

theorem toList_separator : "/".toList = ['/'] := by decide

/-- `Path::is_absolute` on Unix. -/
def isAbsolute (p : String) : Bool := startsWith "/" p

/-- `Path::join`: an absolute right side replaces the left one. -/
def join (base p : String) : String :=
  if isAbsolute p then p
  else if base = "" ∨ base.toList.getLast? = some '/' then base ++ p
  else base ++ "/" ++ p

/-- `Path::file_name`. -/
def fileName (p : String) : Option String :=
  match (components p).getLast? with
  | some (.normal name) => some name
  | _ => none

/-- A file name cut at its last dot, which is not its first character. -/
def splitExtension (name : String) : String × Option String :=
  match name.toList.reverse.span (· ≠ '.') with
  | (_, []) => (name, none)
  | (_, [_]) => (name, none)
  | (ext, _ :: stem) => (String.ofList stem.reverse, some (String.ofList ext.reverse))

/-- `Path::extension`. -/
def extension (p : String) : Option String := (fileName p).bind fun name => (splitExtension name).2

/-- `Path::file_stem`. -/
def fileStem (p : String) : Option String := (fileName p).map fun name => (splitExtension name).1

/-- `Path::starts_with`: whole components. -/
def startsWithPath (p base : String) : Bool := (components base).isPrefixOf (components p)

/-- `Component::as_os_str`. -/
def Component.text : Component → String
  | .rootDir => "/"
  | .curDir => "."
  | .parentDir => ".."
  | .normal name => name

/-- The path of some components, as `Components::as_path` gives it (with single separators). -/
def pathOf (cs : List Component) : String := cs.foldl (fun p c => join p c.text) ""

/-- `Path::parent`. -/
def parent (p : String) : Option String :=
  match (components p).getLast? with
  | none => none
  | some .rootDir => none
  | some _ => some (pathOf (components p).dropLast)

/-- A name that is one normal component. -/
structure Plain (name : String) : Prop where
  noSlash : '/' ∉ name.toList
  nonempty : name ≠ ""
  notDot : name ≠ "."
  notDotDot : name ≠ ".."

instance (name : String) : Decidable (Plain name) :=
  decidable_of_iff ('/' ∉ name.toList ∧ name ≠ "" ∧ name ≠ "." ∧ name ≠ "..")
    ⟨fun ⟨h1, h2, h3, h4⟩ => ⟨h1, h2, h3, h4⟩, fun ⟨h1, h2, h3, h4⟩ => ⟨h1, h2, h3, h4⟩⟩

theorem toList_ne_nil {s : String} (h : s ≠ "") : s.toList ≠ [] :=
  fun h' => h (String.toList_inj.mp (by simpa using h'))

theorem Plain.toList_ne {name : String} (h : Plain name) :
    name.toList ≠ [] ∧ name.toList ≠ ['.'] ∧ name.toList ≠ ['.', '.'] := by
  refine ⟨toList_ne_nil h.nonempty, fun h' => h.notDot ?_, fun h' => h.notDotDot ?_⟩
  · exact String.toList_inj.mp (h'.trans (by decide))
  · exact String.toList_inj.mp (h'.trans (by decide))

theorem Plain.innerComponent_eq {name : String} (h : Plain name) :
    innerComponent name.toList = some (.normal name) := by
  obtain ⟨h1, h2, h3⟩ := h.toList_ne
  simp [innerComponent, h1, h2, h3]

theorem Plain.not_absolute {name : String} (h : Plain name) : isAbsolute name = false := by
  unfold isAbsolute startsWith
  cases hl : name.toList with
  | nil => exact absurd hl h.toList_ne.1
  | cons c cs =>
    have hc : c ≠ '/' := fun hc => h.noSlash (by rw [hl, hc]; exact List.mem_cons_self)
    rw [toList_separator, List.isPrefixOf_cons_cons, beq_false_of_ne (Ne.symm hc), Bool.false_and]

theorem Plain.splitOn_eq {name : String} (h : Plain name) :
    name.toList.splitOn '/' = [name.toList] := List.splitOn_eq_singleton h.noSlash

theorem components_plain {name : String} (h : Plain name) :
    components name = [.normal name] := by
  obtain ⟨h1, h2, h3⟩ := h.toList_ne
  unfold components
  rw [h.splitOn_eq]
  simp [firstComponent, h1, h2, h.innerComponent_eq]

theorem innerComponent_ne_curDir (seg : List Char) : innerComponent seg ≠ some .curDir := by
  unfold innerComponent
  split
  · simp
  split
  · simp
  · simp

/-- A text without a `/` in front starts with a segment that is not empty, or has no other. -/
theorem splitOn_of_relative {p : String} (h : isAbsolute p = false) :
    ∃ seg segs, p.toList.splitOn '/' = seg :: segs ∧ (seg = [] → segs = []) := by
  cases hl : p.toList with
  | nil => exact ⟨[], [], List.splitOn_nil _, fun _ => rfl⟩
  | cons c cs =>
    have hc : (c == '/') = false := by
      unfold isAbsolute startsWith at h
      rw [hl, toList_separator, List.isPrefixOf_cons_cons] at h
      refine beq_false_of_ne fun heq => ?_
      rw [heq] at h
      simp at h
    obtain ⟨first, rest, hsplit⟩ := List.exists_cons_of_ne_nil (List.splitOn_ne_nil '/' cs)
    rw [List.splitOn_cons_eq_if_modifyHead, hc, hsplit]
    exact ⟨c :: first, rest, rfl, fun hnil => by cases hnil⟩

/-- The segments of a relative path, read as components; `.` counts for nothing. -/
theorem components_relative {p : String} (h : isAbsolute p = false) :
    (components p).filter (· ≠ .curDir) = (p.toList.splitOn '/').filterMap innerComponent := by
  obtain ⟨seg, segs, hsplit, hseg⟩ := splitOn_of_relative h
  have hrest : (segs.filterMap innerComponent).filter (· ≠ Component.curDir) =
      segs.filterMap innerComponent := by
    refine List.filter_eq_self.mpr fun c hc => ?_
    obtain ⟨seg', -, hseg'⟩ := List.mem_filterMap.mp hc
    refine decide_eq_true fun heq => innerComponent_ne_curDir seg' ?_
    rw [hseg', heq]
  unfold components
  rw [hsplit]
  dsimp only
  rw [List.filter_append, hrest, List.filterMap_cons]
  unfold firstComponent
  by_cases hnil : seg = []
  · rw [if_pos hnil, if_pos (hseg hnil), hnil]
    rfl
  rw [if_neg hnil]
  by_cases hdot : seg = ['.']
  · rw [if_pos hdot, hdot]
    rfl
  rw [if_neg hdot]
  cases hinner : innerComponent seg with
  | none => rfl
  | some c =>
    have hc : c ≠ .curDir := by
      rintro rfl
      exact innerComponent_ne_curDir seg hinner
    simp [hc]

theorem filter_components_plain {name : String} (h : Plain name) :
    (components name).filter (· ≠ .curDir) = [.normal name] := by
  rw [components_plain h]
  rfl

/-- Components of a text cut at one of its separators. -/
theorem components_append_relative (p : String) {rest : String} (hp : p ≠ "")
    (h : isAbsolute rest = false) :
    components (p ++ "/" ++ rest) = components p ++ (components rest).filter (· ≠ .curDir) := by
  have hl : (p ++ "/" ++ rest).toList.splitOn '/' =
      p.toList.splitOn '/' ++ rest.toList.splitOn '/' := by
    have : (p ++ "/" ++ rest).toList = p.toList ++ '/' :: rest.toList := by
      rw [String.toList_append, String.toList_append, toList_separator]
      simp
    rw [this, List.splitOn_append_cons_self]
  rw [components_relative h]
  unfold components
  rw [hl]
  cases hs : p.toList.splitOn '/' with
  | nil => exact absurd hs (List.splitOn_ne_nil '/' p.toList)
  | cons seg segs =>
    have hfirst : firstComponent seg (segs ++ rest.toList.splitOn '/') =
        firstComponent seg segs := by
      -- the later segments only matter for the empty path, which `hp` excludes
      by_cases hseg : seg = []
      · subst hseg
        cases segs with
        | nil =>
          have := @List.intercalate_splitOn _ p.toList _ _ '/'
          rw [hs] at this
          exact absurd this.symm (toList_ne_nil hp)
        | cons _ _ => simp [firstComponent]
      · simp [firstComponent, hseg]
    simp only [List.cons_append, hfirst, List.filterMap_append, List.append_assoc]

theorem components_append_slash (p name : String) (hp : p ≠ "") (h : Plain name) :
    components (p ++ "/" ++ name) = components p ++ [.normal name] := by
  rw [components_append_relative p hp h.not_absolute, filter_components_plain h]

/-- A trailing separator does not count. -/
theorem components_trailing_relative {p rest : String} (hp : p.toList.getLast? = some '/')
    (h : isAbsolute rest = false) :
    components (p ++ rest) = components p ++ (components rest).filter (· ≠ .curDir) := by
  obtain ⟨init, hinit⟩ : ∃ init, p.toList = init ++ ['/'] :=
    (List.getLast?_eq_some_iff).mp hp
  have hp' : p.toList.splitOn '/' = init.splitOn '/' ++ [[]] := by
    rw [hinit, List.splitOn_append_cons_self]
    rfl
  have hpn : (p ++ rest).toList.splitOn '/' = init.splitOn '/' ++ rest.toList.splitOn '/' := by
    rw [String.toList_append, hinit, List.append_assoc, List.singleton_append,
      List.splitOn_append_cons_self]
  rw [components_relative h]
  unfold components
  rw [hp', hpn]
  cases hs : init.splitOn '/' with
  | nil => exact absurd hs (List.splitOn_ne_nil '/' init)
  | cons seg segs =>
    have hempty : innerComponent [] = none := by simp [innerComponent]
    have hfirst : firstComponent seg (segs ++ rest.toList.splitOn '/') =
        firstComponent seg (segs ++ [[]]) := by
      simp [firstComponent, List.splitOn_ne_nil]
    simp only [List.cons_append, hfirst, List.filterMap_append, List.filterMap_cons, hempty,
      List.filterMap_nil, List.append_nil, List.append_assoc]

/-- Joining a relative path adds its components, but for a `.` in front. -/
theorem components_join_relative {base p : String} (hbase : base ≠ "")
    (hp : isAbsolute p = false) :
    components (join base p) = components base ++ (components p).filter (· ≠ .curDir) := by
  unfold join
  rw [hp]
  by_cases hlast : base.toList.getLast? = some '/'
  · simp only [Bool.false_eq_true, if_false, hlast, or_true, if_true]
    exact components_trailing_relative hlast hp
  · simp only [Bool.false_eq_true, if_false, hbase, hlast, or_self]
    exact components_append_relative base hbase hp

/-- Joining a plain name adds exactly that component. -/
theorem components_join (base : String) {name : String} (h : Plain name) :
    components (join base name) = components base ++ [.normal name] := by
  by_cases hb : base = ""
  · subst hb
    simp [join, h.not_absolute, components_plain h, components_empty]
  · rw [components_join_relative hb h.not_absolute, filter_components_plain h]

theorem fileName_join (base : String) {name : String} (h : Plain name) :
    fileName (join base name) = some name := by
  unfold fileName
  rw [components_join base h, List.getLast?_concat]

/-- A name is cut at its last dot, after something. -/
theorem splitExtension_eq_iff {name stem ext : String} :
    splitExtension name = (stem, some ext) ↔
      name = stem ++ "." ++ ext ∧ stem ≠ "" ∧ '.' ∉ ext.toList := by
  have hdot : ".".toList = ['.'] := by decide
  unfold splitExtension
  constructor
  · intro h
    by_cases hmem : '.' ∈ name.toList.reverse
    · obtain ⟨after, before, hl, hnot⟩ := List.eq_append_cons_of_mem hmem
      rw [hl, span_append hnot] at h
      have hname : name.toList = before.reverse ++ '.' :: after.reverse := by
        rw [← List.reverse_reverse name.toList, hl, List.reverse_append, List.reverse_cons,
          List.append_assoc, List.singleton_append]
      cases before with
      | nil => cases h
      | cons c cs =>
        obtain ⟨hstem, hext⟩ := Prod.mk.inj h
        rw [← hstem, ← Option.some.inj hext]
        refine ⟨String.toList_inj.mp ?_, fun hempty => ?_, ?_⟩
        · rw [String.toList_append, String.toList_append, hdot, String.toList_ofList,
            String.toList_ofList, hname, List.append_assoc, List.singleton_append]
        · have hlength := congrArg (fun s => s.toList.length) hempty
          simp at hlength
        · rw [String.toList_ofList, List.mem_reverse]
          exact hnot
    · rw [span_of_notMem hmem] at h
      cases h
  · intro ⟨hname, hstem, hext⟩
    have hl : name.toList.reverse = ext.toList.reverse ++ '.' :: stem.toList.reverse := by
      rw [hname, String.toList_append, String.toList_append, hdot, List.reverse_append,
        List.reverse_append]
      rfl
    rw [hl, span_append (fun h => hext (List.mem_reverse.mp h))]
    cases hrev : stem.toList.reverse with
    | nil => exact absurd (List.reverse_eq_nil_iff.mp hrev) (toList_ne_nil hstem)
    | cons c cs =>
      dsimp only
      rw [← hrev, List.reverse_reverse, List.reverse_reverse, String.ofList_toList,
        String.ofList_toList]

/-! ## Names and their text -/

theorem slash_notMem_of_mem_splitOn {cs seg : List Char} (h : seg ∈ cs.splitOn '/') :
    '/' ∉ seg := by
  induction cs generalizing seg with
  | nil =>
    rw [List.splitOn_nil, List.mem_singleton] at h
    rw [h]
    exact List.not_mem_nil
  | cons c cs ih =>
    rw [List.splitOn_cons_eq_if_modifyHead] at h
    split at h
    · rcases List.mem_cons.mp h with rfl | h
      · exact List.not_mem_nil
      · exact ih h
    · next hc =>
      obtain ⟨first, rest, hsplit⟩ := List.exists_cons_of_ne_nil (List.splitOn_ne_nil '/' cs)
      rw [hsplit, List.modifyHead_cons] at h
      rcases List.mem_cons.mp h with rfl | h
      · have hfirst : '/' ∉ first := ih (by rw [hsplit]; exact List.mem_cons_self)
        rw [List.mem_cons, not_or]
        exact ⟨fun heq => hc (beq_iff_eq.mpr heq.symm), hfirst⟩
      · exact ih (by rw [hsplit]; exact List.mem_cons_of_mem _ h)

/-- A text without separators belongs to the last piece. -/
theorem splitOn_append_of_notMem {c : Char} {ys : List Char} (hc : c ∉ ys) (xs : List Char) :
    ∃ init last, xs.splitOn c = init ++ [last] ∧ (xs ++ ys).splitOn c = init ++ [last ++ ys] := by
  induction xs with
  | nil => exact ⟨[], [], List.splitOn_nil _, List.splitOn_eq_singleton hc⟩
  | cons x xs ih =>
    obtain ⟨init, last, hxs, hboth⟩ := ih
    rw [List.cons_append, List.splitOn_cons_eq_if_modifyHead, List.splitOn_cons_eq_if_modifyHead,
      hxs, hboth]
    by_cases hx : (x == c) = true
    · rw [if_pos hx, if_pos hx]
      exact ⟨[] :: init, last, rfl, rfl⟩
    · rw [if_neg hx, if_neg hx]
      cases init with
      | nil => exact ⟨[], x :: last, rfl, rfl⟩
      | cons seg init => exact ⟨(x :: seg) :: init, last, rfl, rfl⟩

theorem plain_of_innerComponent {seg : List Char} {name : String} (hseg : '/' ∉ seg)
    (h : innerComponent seg = some (.normal name)) : Plain name := by
  unfold innerComponent at h
  split at h
  · cases h
  split at h
  · cases h
  · next h1 h2 =>
    cases h
    rw [not_or] at h1
    refine ⟨by simpa using hseg, fun h' => h1.1 ?_, fun h' => h1.2 ?_, fun h' => h2 ?_⟩
    · simpa using congrArg String.toList h'
    · simpa using congrArg String.toList h'
    · simpa using congrArg String.toList h'

/-- The normal components of a path are plain names. -/
theorem plain_of_mem_components {p name : String} (h : .normal name ∈ components p) :
    Plain name := by
  unfold components at h
  cases hs : p.toList.splitOn '/' with
  | nil =>
    rw [hs] at h
    cases h
  | cons seg segs =>
    rw [hs] at h
    have hslash : ∀ seg' ∈ seg :: segs, '/' ∉ seg' := by
      intro seg' hseg'
      rw [← hs] at hseg'
      exact slash_notMem_of_mem_splitOn hseg'
    rcases List.mem_append.mp h with h | h
    · rw [Option.mem_toList] at h
      have hfirst : firstComponent seg segs = some (.normal name) := h
      unfold firstComponent at hfirst
      split at hfirst
      · split at hfirst
        · cases hfirst
        · cases hfirst
      split at hfirst
      · cases hfirst
      · exact plain_of_innerComponent (hslash seg List.mem_cons_self) hfirst
    · obtain ⟨seg', hmem, hseg'⟩ := List.mem_filterMap.mp h
      exact plain_of_innerComponent (hslash seg' (List.mem_cons_of_mem _ hmem)) hseg'

theorem plain_of_fileName {p name : String} (h : fileName p = some name) : Plain name := by
  unfold fileName at h
  split at h
  · next n hlast =>
    cases h
    exact plain_of_mem_components (List.mem_of_getLast? hlast)
  · cases h

theorem mem_of_mem_splitOnP {p : Char → Bool} {cs seg : List Char} (h : seg ∈ cs.splitOnP p)
    {c : Char} (hc : c ∈ seg) : c ∈ cs := by
  induction cs generalizing seg with
  | nil =>
    rw [List.splitOnP_nil, List.mem_singleton] at h
    rwa [← h]
  | cons x cs ih =>
    rw [List.splitOnP_cons_eq_if_modifyHead] at h
    obtain ⟨first, rest, heq⟩ := List.exists_cons_of_ne_nil (List.splitOnP_ne_nil p cs)
    have hfirst : first ∈ cs.splitOnP p := by
      rw [heq]
      exact List.mem_cons_self
    have hrest : ∀ s ∈ rest, s ∈ cs.splitOnP p := by
      rw [heq]
      exact fun s hs => List.mem_cons_of_mem _ hs
    rw [heq, List.modifyHead_cons] at h
    by_cases hx : p x
    · rw [if_pos hx] at h
      rcases List.mem_cons.mp h with rfl | h
      · exact absurd hc List.not_mem_nil
      · rw [← heq] at h
        exact List.mem_cons_of_mem _ (ih h hc)
    · rw [if_neg hx] at h
      rcases List.mem_cons.mp h with rfl | h
      · rcases List.mem_cons.mp hc with rfl | hc
        · exact List.mem_cons_self
        · exact List.mem_cons_of_mem _ (ih hfirst hc)
      · exact List.mem_cons_of_mem _ (ih (hrest seg h) hc)

/-- A character that is no separator belongs to the first piece. -/
theorem mem_of_mem_splitOn {sep : Char} {cs seg : List Char} (h : seg ∈ cs.splitOn sep) {c : Char}
    (hc : c ∈ seg) : c ∈ cs :=
  mem_of_mem_splitOnP h hc

/-- A path has the characters of its components. -/
theorem mem_of_mem_components {p name : String} (h : .normal name ∈ components p) {c : Char}
    (hc : c ∈ name.toList) : c ∈ p.toList := by
  have hinner : ∀ seg, innerComponent seg = some (.normal name) → seg = name.toList := by
    intro seg hseg
    unfold innerComponent at hseg
    split at hseg
    · cases hseg
    split at hseg
    · cases hseg
    · cases hseg
      exact (String.toList_ofList).symm
  have hseg : ∃ seg ∈ p.toList.splitOn '/', seg = name.toList := by
    unfold components at h
    cases hs : p.toList.splitOn '/' with
    | nil =>
      rw [hs] at h
      cases h
    | cons seg segs =>
      rw [hs] at h
      rcases List.mem_append.mp h with h | h
      · rw [Option.mem_toList] at h
        have hfirst : firstComponent seg segs = some (.normal name) := h
        unfold firstComponent at hfirst
        split at hfirst
        · split at hfirst
          · cases hfirst
          · cases hfirst
        split at hfirst
        · cases hfirst
        · exact ⟨seg, List.mem_cons_self, hinner seg hfirst⟩
      · obtain ⟨seg', hmem, hseg'⟩ := List.mem_filterMap.mp h
        exact ⟨seg', List.mem_cons_of_mem _ hmem, hinner seg' hseg'⟩
  obtain ⟨seg, hmem, rfl⟩ := hseg
  exact mem_of_mem_splitOn hmem hc

/-- Plain names, written one after the other, are the components of that text. -/
theorem components_intercalate {names : List String} (hne : names ≠ [])
    (h : ∀ name ∈ names, Plain name) :
    components ("/".intercalate names) = names.map .normal := by
  have hsplit : ("/".intercalate names).toList.splitOn '/' = names.map String.toList := by
    rw [String.toList_intercalate, toList_separator]
    apply List.splitOn_intercalate
    · intro seg hseg
      obtain ⟨name, hname, rfl⟩ := List.mem_map.mp hseg
      exact (h name hname).noSlash
    · simpa using hne
  have hinner : ∀ l : List String, (∀ name ∈ l, Plain name) →
      (l.map String.toList).filterMap innerComponent = l.map .normal := by
    intro l hl
    induction l with
    | nil => rfl
    | cons name l ih =>
      rw [List.map_cons, List.filterMap_cons, (hl name List.mem_cons_self).innerComponent_eq,
        ih fun name' h' => hl name' (List.mem_cons_of_mem _ h')]
      rfl
  unfold components
  rw [hsplit]
  cases names with
  | nil => exact absurd rfl hne
  | cons name names =>
    obtain ⟨h1, h2, -⟩ := (h name List.mem_cons_self).toList_ne
    rw [List.map_cons]
    dsimp only
    rw [hinner names fun name' h' => h name' (List.mem_cons_of_mem _ h'), firstComponent,
      if_neg h1, if_neg h2, (h name List.mem_cons_self).innerComponent_eq]
    rfl

theorem intercalate_ne_empty {names : List String} (hne : names ≠ [])
    (h : ∀ name ∈ names, Plain name) : "/".intercalate names ≠ "" := by
  intro hempty
  have hcomponents := components_intercalate hne h
  rw [hempty, components_empty] at hcomponents
  exact hne (List.map_eq_nil_iff.mp hcomponents.symm)

/-- An absolute path starts with the root component. -/
theorem rootDir_mem_of_isAbsolute {p : String} (h : isAbsolute p = true) :
    .rootDir ∈ components p := by
  unfold isAbsolute startsWith at h
  cases hl : p.toList with
  | nil =>
    rw [hl] at h
    exact absurd h (by decide)
  | cons c cs =>
    rw [hl, toList_separator, List.isPrefixOf_cons_cons, Bool.and_eq_true,
      beq_iff_eq] at h
    have hsplit : p.toList.splitOn '/' = [] :: cs.splitOn '/' := by
      rw [hl, ← h.1]
      exact List.splitOn_append_cons_self [] cs
    unfold components
    rw [hsplit]
    simp [firstComponent, List.splitOn_ne_nil]

theorem innerComponent_ne_rootDir (seg : List Char) : innerComponent seg ≠ some .rootDir := by
  unfold innerComponent
  split
  · simp
  split
  · simp
  · simp

/-- No other path has one. -/
theorem rootDir_notMem_of_relative {p : String} (h : isAbsolute p = false) :
    .rootDir ∉ components p := by
  intro hmem
  have hfilter : .rootDir ∈ (components p).filter (· ≠ .curDir) :=
    List.mem_filter.mpr ⟨hmem, rfl⟩
  rw [components_relative h] at hfilter
  obtain ⟨seg, -, hseg⟩ := List.mem_filterMap.mp hfilter
  exact innerComponent_ne_rootDir seg hseg

theorem isAbsolute_iff (p : String) : isAbsolute p = true ↔ .rootDir ∈ components p := by
  constructor
  · exact rootDir_mem_of_isAbsolute
  · intro hmem
    by_contra habs
    exact rootDir_notMem_of_relative (eq_false_of_ne_true habs) hmem

theorem intercalate_not_absolute {names : List String} (hne : names ≠ [])
    (h : ∀ name ∈ names, Plain name) : isAbsolute ("/".intercalate names) = false := by
  by_contra habs
  have hmem := rootDir_mem_of_isAbsolute (eq_true_of_ne_false habs)
  rw [components_intercalate hne h] at hmem
  obtain ⟨name, -, hname⟩ := List.mem_map.mp hmem
  cases hname

theorem components_ne_nil {p : String} (hp : p ≠ "") : components p ≠ [] := by
  unfold components
  cases hs : p.toList.splitOn '/' with
  | nil => exact absurd hs (List.splitOn_ne_nil '/' p.toList)
  | cons seg segs =>
    have hfirst : firstComponent seg segs ≠ none := by
      intro h
      unfold firstComponent innerComponent at h
      split at h
      · next hseg =>
        split at h
        · next hsegs =>
          have := @List.intercalate_splitOn _ p.toList _ _ '/'
          rw [hs, hseg, hsegs] at this
          exact absurd this.symm (toList_ne_nil hp)
        · cases h
      next hseg =>
      split at h
      · cases h
      next hdot =>
      rw [if_neg (not_or.mpr ⟨hseg, hdot⟩)] at h
      split at h
      · cases h
      · cases h
    intro hnil
    obtain ⟨first, hsome⟩ := Option.ne_none_iff_exists'.mp hfirst
    dsimp only at hnil
    rw [hsome] at hnil
    cases hnil

theorem isAbsolute_append {p : String} (hp : p ≠ "") (rest : String) :
    isAbsolute (p ++ rest) = isAbsolute p := by
  unfold isAbsolute startsWith
  rw [String.toList_append]
  cases hl : p.toList with
  | nil => exact absurd hl (toList_ne_nil hp)
  | cons c cs =>
    rw [toList_separator, List.cons_append, List.isPrefixOf_cons_cons,
      List.isPrefixOf_cons_cons]
    rfl

theorem isAbsolute_join {base : String} (h : isAbsolute base = true) (p : String) :
    isAbsolute (join base p) = true := by
  have hbase : base ≠ "" := by
    rintro rfl
    exact absurd h (by decide)
  unfold join
  split
  · assumption
  · split
    · rw [isAbsolute_append hbase]
      exact h
    · rw [String.append_assoc, isAbsolute_append hbase]
      exact h

theorem join_empty {p : String} (h : isAbsolute p = false) : join "" p = p := by
  simp [join, h]

theorem join_assoc {base p rest : String} (hp : p ≠ "") (h : isAbsolute p = false)
    (hrest : isAbsolute rest = false) : join base (join p rest) = join (join base p) rest := by
  have hlast : ∀ front : String, (front ++ p).toList.getLast? = p.toList.getLast? := by
    intro front
    rw [String.toList_append, List.getLast?_append_of_ne_nil _ (toList_ne_nil hp)]
  have hne : ∀ front : String, front ++ p ≠ "" := by
    intro front hempty
    have := congrArg String.toList hempty
    rw [String.toList_append] at this
    exact toList_ne_nil hp (List.append_eq_nil_iff.mp this).2
  by_cases htrail : p.toList.getLast? = some '/'
  · have hinner : join p rest = p ++ rest := by simp [join, hrest, htrail]
    rw [hinner]
    unfold join
    rw [isAbsolute_append hp, h, hrest]
    simp only [Bool.false_eq_true, if_false]
    split
    · rw [if_pos (Or.inr ((hlast base).trans htrail)), String.append_assoc]
    · rw [if_pos (Or.inr ((hlast _).trans htrail))]
      simp only [String.append_assoc]
  · have hinner : join p rest = p ++ "/" ++ rest := by simp [join, hrest, htrail, hp]
    rw [hinner]
    unfold join
    rw [String.append_assoc, isAbsolute_append hp, h, hrest]
    simp only [Bool.false_eq_true, if_false]
    split
    · rw [if_neg (by rw [not_or, hlast]; exact ⟨hne _, htrail⟩)]
      simp only [String.append_assoc]
    · rw [if_neg (by rw [not_or, hlast]; exact ⟨hne _, htrail⟩)]
      simp only [String.append_assoc]

/-! ## The text of some names -/

/-- The path of some names, one below the other. -/
def pathOfNames (names : List String) : String := pathOf (names.map .normal)

@[simp] theorem pathOfNames_nil : pathOfNames [] = "" := rfl

theorem pathOfNames_snoc (names : List String) (name : String) :
    pathOfNames (names ++ [name]) = join (pathOfNames names) name := by
  unfold pathOfNames pathOf
  rw [List.map_append, List.foldl_append]
  rfl

/-- The text of plain names has one separator between any two of them. -/
theorem pathOfNames_eq_intercalate {names : List String} (h : ∀ name ∈ names, Plain name) :
    pathOfNames names = "/".intercalate names := by
  induction names using List.reverseRecOn with
  | nil => rfl
  | append_singleton names name ih =>
    have hname : Plain name := h name (by simp)
    have hinit : ∀ n ∈ names, Plain n := fun n hn => h n (by simp [hn])
    rw [pathOfNames_snoc, ih hinit]
    by_cases hnil : names = []
    · rw [hnil, String.intercalate_nil, join_empty hname.not_absolute, List.nil_append,
        String.intercalate_singleton]
    obtain ⟨init, last, rfl⟩ := List.eq_nil_or_concat names |>.resolve_left hnil
    rw [List.concat_eq_append] at hinit ih ⊢
    have hlast : Plain last := hinit last (by simp)
    -- the text before ends in a character of its last name
    have hend : ("/".intercalate (init ++ [last])).toList.getLast? ≠ some '/' := by
      rw [← ih hinit, pathOfNames_snoc]
      have hmem : ∀ front : String, (front ++ last).toList.getLast? ≠ some '/' := by
        intro front hgetLast
        rw [String.toList_append, List.getLast?_append_of_ne_nil _ hlast.toList_ne.1] at hgetLast
        exact hlast.noSlash (List.mem_of_getLast? hgetLast)
      unfold join
      rw [hlast.not_absolute]
      split
      · contradiction
      split
      · exact hmem _
      · exact hmem _
    have hne : "/".intercalate (init ++ [last]) ≠ "" := intercalate_ne_empty (by simp) hinit
    rw [@String.intercalate_append_of_ne_nil (init ++ [last]) [name] "/" (by simp) (by simp),
      String.intercalate_singleton]
    unfold join
    rw [hname.not_absolute, if_neg Bool.false_ne_true, if_neg (not_or.mpr ⟨hne, hend⟩)]

theorem components_pathOfNames {names : List String} (h : ∀ name ∈ names, Plain name) :
    components (pathOfNames names) = names.map .normal := by
  induction names using List.reverseRecOn with
  | nil => decide
  | append_singleton names name ih =>
    have hname : Plain name := h name (by simp)
    rw [pathOfNames_snoc, components_join _ hname, ih fun n hn => h n (by simp [hn]),
      List.map_append]
    rfl

theorem pathOfNames_relative {names : List String} (h : ∀ name ∈ names, Plain name) :
    isAbsolute (pathOfNames names) = false := by
  by_contra habs
  have hmem := rootDir_mem_of_isAbsolute (eq_true_of_ne_false habs)
  rw [components_pathOfNames h] at hmem
  obtain ⟨name, -, hname⟩ := List.mem_map.mp hmem
  cases hname

theorem pathOfNames_eq_empty_iff {names : List String} (h : ∀ name ∈ names, Plain name) :
    pathOfNames names = "" ↔ names = [] := by
  constructor
  · intro hempty
    have hcomponents := components_pathOfNames h
    rw [hempty, components_empty] at hcomponents
    exact List.map_eq_nil_iff.mp hcomponents.symm
  · rintro rfl
    rfl

theorem parent_pathOfNames {names : List String} (h : ∀ name ∈ names, Plain name) :
    parent (pathOfNames names) =
      if names = [] then none else some (pathOfNames names.dropLast) := by
  unfold parent
  rw [components_pathOfNames h, List.getLast?_map]
  by_cases hnil : names = []
  · rw [if_pos hnil, hnil]
    rfl
  · rw [if_neg hnil, List.getLast?_eq_some_getLast hnil, ← List.map_dropLast]
    rfl

/-- The components below `base` of a path made of names. -/
theorem components_join_names {base : String} {names : List String} (hbase : base ≠ "")
    (h : ∀ name ∈ names, Plain name) :
    components (join base (pathOfNames names)) = components base ++ names.map .normal := by
  rw [components_join_relative hbase (pathOfNames_relative h), components_pathOfNames h]
  congr 1
  refine List.filter_eq_self.mpr fun c hc => ?_
  obtain ⟨name, -, rfl⟩ := List.mem_map.mp hc
  simp

theorem mem_pathOfNames {c : Char} (hc : c ≠ '/') {names : List String}
    (h : c ∈ (pathOfNames names).toList) : ∃ name ∈ names, c ∈ name.toList := by
  induction names using List.reverseRecOn with
  | nil => cases h
  | append_singleton names name ih =>
    have hcases : c ∈ (pathOfNames names).toList ∨ c ∈ name.toList := by
      rw [pathOfNames_snoc] at h
      unfold join at h
      split at h
      · exact Or.inr h
      split at h
      · rwa [String.toList_append, List.mem_append] at h
      · rw [String.toList_append, String.toList_append, toList_separator] at h
        simpa [hc] using h
    rcases hcases with h | h
    · obtain ⟨n, hn, hcn⟩ := ih h
      exact ⟨n, by simp [hn], hcn⟩
    · exact ⟨name, by simp, h⟩

/-! ## The text of some components -/

theorem pathOf_snoc (cs : List Component) (c : Component) :
    pathOf (cs ++ [c]) = join (pathOf cs) c.text := by
  unfold pathOf
  rw [List.foldl_append]
  rfl

/-- The components after the first of a path. -/
def Inner (c : Component) : Prop := c = .parentDir ∨ ∃ name, c = .normal name ∧ Plain name

theorem inner_of_innerComponent {seg : List Char} {c : Component} (hseg : '/' ∉ seg)
    (h : innerComponent seg = some c) : Inner c := by
  cases c with
  | normal name => exact Or.inr ⟨name, rfl, plain_of_innerComponent hseg h⟩
  | parentDir => exact Or.inl rfl
  | curDir => exact absurd h (innerComponent_ne_curDir seg)
  | rootDir =>
    unfold innerComponent at h
    split at h
    · cases h
    split at h
    · cases h
    · cases h

/-- The first component may be any, the others are inner ones. -/
theorem inner_of_components {p : String} {c : Component} {cs : List Component}
    (h : components p = c :: cs) : (∀ name, c = .normal name → Plain name) ∧ ∀ d ∈ cs, Inner d := by
  have hplain : ∀ name, .normal name ∈ components p → Plain name :=
    fun name hname => plain_of_mem_components hname
  refine ⟨fun name hname => hplain name (by rw [h, hname]; exact List.mem_cons_self), ?_⟩
  unfold components at h
  cases hs : p.toList.splitOn '/' with
  | nil => exact absurd hs (List.splitOn_ne_nil '/' p.toList)
  | cons seg segs =>
    rw [hs] at h
    have hinner : ∀ d ∈ segs.filterMap innerComponent, Inner d := by
      intro d hd
      obtain ⟨seg', hmem, hseg'⟩ := List.mem_filterMap.mp hd
      have hslash : '/' ∉ seg' := by
        refine @slash_notMem_of_mem_splitOn p.toList seg' ?_
        rw [hs]
        exact List.mem_cons_of_mem _ hmem
      exact inner_of_innerComponent hslash hseg'
    dsimp only at h
    cases hfirst : firstComponent seg segs with
    | none =>
      rw [hfirst, Option.toList_none, List.nil_append] at h
      intro d hd
      exact hinner d (by rw [h]; exact List.mem_cons_of_mem _ hd)
    | some first =>
      rw [hfirst, Option.toList_some, List.singleton_append] at h
      obtain ⟨-, rfl⟩ := List.cons.inj h
      exact hinner

theorem Inner.filter_components {c : Component} (h : Inner c) :
    isAbsolute c.text = false ∧ (components c.text).filter (· ≠ .curDir) = [c] := by
  rcases h with rfl | ⟨name, rfl, hname⟩
  · decide
  · exact ⟨hname.not_absolute, filter_components_plain hname⟩

/-- The text of components has these components. -/
theorem components_pathOf {c : Component} {cs : List Component}
    (hc : ∀ name, c = .normal name → Plain name) (hcs : ∀ d ∈ cs, Inner d) :
    components (pathOf (c :: cs)) = c :: cs := by
  induction cs using List.reverseRecOn with
  | nil =>
    cases c with
    | normal name =>
      have hname := hc name rfl
      show components (join "" name) = _
      rw [components_join "" hname, components_empty]
      rfl
    | rootDir => decide
    | curDir => decide
    | parentDir => decide
  | append_singleton cs d ih =>
    have hhead := ih fun d' hd' => hcs d' (by simp [hd'])
    have hd := (hcs d (by simp)).filter_components
    have hne : pathOf (c :: cs) ≠ "" := by
      intro hempty
      rw [hempty, components_empty] at hhead
      cases hhead
    rw [← List.cons_append, pathOf_snoc, components_join_relative hne hd.1, hhead, hd.2]

/-- The text of the first components of a path has these components. -/
theorem components_pathOf_front {p : String} {cs rest : List Component}
    (h : components p = cs ++ rest) : components (pathOf cs) = cs := by
  cases cs with
  | nil => decide
  | cons c cs =>
    obtain ⟨hc, hinner⟩ := inner_of_components h
    exact components_pathOf hc fun d hd => hinner d (List.mem_append_left _ hd)

theorem components_pathOf_components (p : String) :
    components (pathOf (components p)) = components p :=
  components_pathOf_front (List.append_nil _).symm

theorem components_of_parent {p dir : String} (h : parent p = some dir) :
    components dir = (components p).dropLast ∧ (components p).getLast? ≠ some .rootDir := by
  unfold parent at h
  split at h
  · cases h
  · cases h
  · next last hroot hlast =>
    have hcs := List.dropLast_append_getLast? last hlast
    refine ⟨?_, fun heq => hroot (Option.some.inj (hlast.symm.trans heq))⟩
    rw [← Option.some.inj h]
    exact components_pathOf_front hcs.symm

theorem isAbsolute_of_parent {p dir : String} (h : parent p = some dir)
    (habs : isAbsolute p = true) : isAbsolute dir = true := by
  obtain ⟨hdir, hlast⟩ := components_of_parent h
  rw [isAbsolute_iff] at habs ⊢
  rw [hdir]
  exact List.mem_dropLast_of_mem_of_ne_getLast? habs fun heq => hlast heq.symm

/-- The parent of names below `base`, and the last of them. -/
theorem parent_join_names {base name : String} {names : List String} (hbase : base ≠ "")
    (h : ∀ n ∈ names ++ [name], Plain n) :
    parent (join base (pathOfNames (names ++ [name]))) =
        some (pathOf (components base ++ names.map .normal)) ∧
      fileName (join base (pathOfNames (names ++ [name]))) = some name := by
  have hcomponents := components_join_names hbase h
  rw [List.map_append, List.map_cons, List.map_nil, ← List.append_assoc] at hcomponents
  unfold parent fileName
  rw [hcomponents, List.getLast?_concat, List.dropLast_concat]
  exact ⟨rfl, rfl⟩

/-- The absolute path of some names below the root. -/
def absolutePath (names : List String) : String := pathOf (.rootDir :: names.map .normal)

theorem components_absolutePath {names : List String} (h : ∀ name ∈ names, Plain name) :
    components (absolutePath names) = .rootDir :: names.map .normal := by
  refine components_pathOf (fun name hname => by cases hname) fun d hd => ?_
  obtain ⟨name, hname, rfl⟩ := List.mem_map.mp hd
  exact Or.inr ⟨name, rfl, h name hname⟩

theorem absolutePath_snoc (names : List String) (name : String) :
    absolutePath (names ++ [name]) = join (absolutePath names) name := by
  unfold absolutePath
  rw [List.map_append, ← List.cons_append]
  exact pathOf_snoc _ _

/-! ## Files directly in a directory -/

/-- The path is a file's, with the ending `ext`, whose parent is `dir`. -/
structure DirectlyIn (dir ext path : String) : Prop where
  inDir : (parent path).map components = some (components dir)
  named : ∃ stem, fileName path = some (stem ++ ext)

/-- From `dir`, the directory part of a name leads to no other directory: it has no component but
    `.`, or it is all of the path and spells `dir`. -/
def StaysIn (dir front : String) : Prop :=
  if isAbsolute front ∨ dir = "" then components front = components dir
  else (components front).filter (· ≠ .curDir) = []

instance (dir front : String) : Decidable (StaysIn dir front) := by
  unfold StaysIn
  infer_instance

theorem plain_append_ext {stem ext : String} (hstem : '/' ∉ stem.toList) (hext : '/' ∉ ext.toList)
    (hlength : 2 < ext.toList.length) : Plain (stem ++ ext) := by
  have hlong : ∀ other : String, other.toList.length ≤ 2 → stem ++ ext ≠ other := by
    intro other hother heq
    have hsum := congrArg (fun s => s.toList.length) heq
    rw [String.toList_append, List.length_append] at hsum
    omega
  refine ⟨?_, hlong _ (by decide), hlong _ (by decide), hlong _ (by decide)⟩
  rw [String.toList_append, List.mem_append]
  exact fun h => h.elim hstem hext

/-- A path with a name at its end: its parent and its file name. -/
theorem parent_of_components {p name : String} {cs : List Component}
    (h : components p = cs ++ [.normal name]) :
    (parent p).map components = some cs ∧ fileName p = some name := by
  unfold parent fileName
  rw [h, List.getLast?_concat, List.dropLast_concat]
  exact ⟨congrArg some (components_pathOf_front h), rfl⟩

/-- What is in front of a plain name ends in a separator, or there is nothing. -/
def Front (front : String) : Prop := front = "" ∨ front.toList.getLast? = some '/'

theorem components_front {front name : String} (h : Front front) (hname : Plain name) :
    components (front ++ name) = components front ++ [.normal name] ∧
      isAbsolute (front ++ name) = isAbsolute front := by
  rcases h with rfl | h
  · rw [show "" ++ name = name by simp, components_plain hname, hname.not_absolute]
    exact ⟨rfl, rfl⟩
  · have hne : front ≠ "" := by
      rintro rfl
      cases h
    rw [components_trailing_relative h hname.not_absolute, filter_components_plain hname,
      isAbsolute_append hne]
    exact ⟨rfl, rfl⟩

theorem front_append {base front : String} (hbase : Front base) (hfront : Front front) :
    Front (base ++ front) := by
  rcases hfront with rfl | hlast
  · rwa [String.append_empty]
  · have hne : front.toList ≠ [] := by
      intro hnil
      rw [hnil] at hlast
      cases hlast
    refine Or.inr ?_
    rw [String.toList_append, List.getLast?_append_of_ne_nil _ hne, hlast]

/-- What is in front of a name is still a front when the path is joined to another. -/
theorem join_front (base : String) {front name : String} (hfront : Front front)
    (hname : Plain name) :
    ∃ front', join base (front ++ name) = front' ++ name ∧ Front front' := by
  unfold join
  rw [(components_front hfront hname).2]
  split
  · exact ⟨front, rfl, hfront⟩
  split
  · next hbase =>
    exact ⟨base ++ front, (String.append_assoc ..).symm, front_append hbase hfront⟩
  · have hslash : Front (base ++ "/") := by
      refine Or.inr ?_
      rw [String.toList_append, toList_separator, List.getLast?_concat]
    exact ⟨base ++ "/" ++ front, (String.append_assoc ..).symm, front_append hslash hfront⟩

/-- The components of a front and a name, joined to a directory. -/
theorem components_join_front {dir front name : String} (hname : Plain name)
    (hfront : Front front) :
    components (join dir (front ++ name)) =
      (if isAbsolute front ∨ dir = "" then components front
        else components dir ++ (components front).filter (· ≠ .curDir)) ++ [.normal name] := by
  obtain ⟨hcomponents, habs⟩ := components_front hfront hname
  by_cases hself : isAbsolute front = true ∨ dir = ""
  · have hjoin : join dir (front ++ name) = front ++ name := by
      unfold join
      rw [habs]
      rcases hself with h | rfl
      · rw [h, if_pos rfl]
      · simp
    rw [if_pos hself, hjoin, hcomponents]
  · rw [if_neg hself]
    rw [not_or, Bool.not_eq_true] at hself
    rw [components_join_relative hself.2 (habs.trans hself.1), hcomponents, List.filter_append,
      List.append_assoc]
    rfl

/-- A front that stays in the directory adds no components. -/
theorem components_join_staysIn {dir front name : String} (hname : Plain name)
    (hfront : Front front) (h : StaysIn dir front) :
    components (join dir (front ++ name)) = components dir ++ [.normal name] := by
  rw [components_join_front hname hfront]
  unfold StaysIn at h
  split
  · next hself =>
    rw [if_pos hself] at h
    rw [h]
  · next hself =>
    rw [if_neg hself] at h
    rw [h, List.append_nil]

/-- A name with an ending, joined to a directory, is directly in it exactly when its directory
    part stays there. -/
theorem directlyIn_join_iff {dir name ext : String} (hext : '/' ∉ ext.toList)
    (hlength : 2 < ext.toList.length) :
    DirectlyIn dir ext (join dir (name ++ ext)) ↔ StaysIn dir (upToLast '/' name) := by
  have hfront : Front (upToLast '/' name) := upToLast_cases '/' name
  have hplain : Plain (lastPiece '/' name ++ ext) :=
    plain_append_ext (notMem_lastPiece '/' name) hext hlength
  have hname : name ++ ext = upToLast '/' name ++ (lastPiece '/' name ++ ext) := by
    rw [← String.append_assoc, upToLast_append_lastPiece]
  obtain ⟨hparent, hfile⟩ := parent_of_components (@components_join_front dir _ _ hplain hfront)
  have hiff : DirectlyIn dir ext (join dir (name ++ ext)) ↔
      (if isAbsolute (upToLast '/' name) ∨ dir = "" then components (upToLast '/' name)
        else components dir ++ (components (upToLast '/' name)).filter (· ≠ .curDir)) =
      components dir := by
    rw [hname]
    constructor
    · exact fun h => Option.some.inj (hparent.symm.trans h.inDir)
    · exact fun h => ⟨by rw [hparent, h], _, hfile⟩
  rw [hiff]
  unfold StaysIn
  split
  · exact Iff.rfl
  · exact List.append_right_eq_self

end Mik.Lib
