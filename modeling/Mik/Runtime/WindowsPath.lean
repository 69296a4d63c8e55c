/-
  What the Windows checks of a path let through (`src/runtime/security/path/windows.rs`).

  `validate_windows_path` looks at three things: how the text begins, where its first colon is, and
  the stems of its components (`validateWindowsPath_ok_iff`). It takes a first colon at byte index
  1 for that of a drive, whatever stands before it, and no other colon is looked at. So an
  alternate data stream passes behind such a colon, and no other way (`windows_streams_iff`).
-/
import Mik.Runtime.FilePath

namespace Mik.Runtime

open Mik.Lib

/-- The components of a path, cut at `/` and at `\`. -/
def windowsComponents (path : String) : List (List Char) :=
  path.toList.splitOnP fun c => c == '/' || c == '\\'

/-- A component whose stem is a reserved name, in upper or lower case. -/
def NamesDevice (component : List Char) : Prop :=
  ∃ name ∈ windowsReservedNames,
    (component.takeWhile (· ≠ '.')).map Char.toUpper = name.toList.map Char.toUpper

instance (component : List Char) : Decidable (NamesDevice component) :=
  inferInstanceAs (Decidable (∃ name ∈ windowsReservedNames, _))

/-- No device, no share of another host and no stream. The one colon there may be is that of a
    drive. -/
structure WindowsClean (path : String) : Prop where
  notUnc : startsWith "\\\\" path = false ∧ startsWith "//" path = false
  noDevice : ∀ component ∈ windowsComponents path, ¬ NamesDevice component
  colon : ':' ∈ path.toList →
    ∃ drive rest, path.toList = drive :: ':' :: rest ∧ drive.isAlpha ∧ ':' ∉ rest
  noStream : ∀ component ∈ (windowsComponents path).tail, ':' ∉ component

/-- The first colon, if there is one, is the second byte. -/
def ColonSecond (cs : List Char) : Prop :=
  ':' ∈ cs → ∃ first rest, cs = first :: ':' :: rest ∧ first ≠ ':' ∧ first.utf8Size = 1

/-! ## The checks -/

theorem isReservedName_iff {component : List Char} :
    isReservedName component = true ↔ NamesDevice component := by
  have hupper : ∀ name ∈ windowsReservedNames, name.toList.map Char.toUpper = name.toList := by
    decide
  unfold isReservedName NamesDevice
  rw [List.contains_iff_mem]
  constructor
  · intro h
    refine ⟨_, h, ?_⟩
    rw [hupper _ h, String.toList_ofList]
  · rintro ⟨name, hname, heq⟩
    rwa [heq, hupper name hname, String.ofList_toList]

/-- A text of one byte is one character. -/
theorem utf8ByteSize_eq_one_iff {cs : List Char} :
    (String.ofList cs).utf8ByteSize = 1 ↔ ∃ c, cs = [c] ∧ c.utf8Size = 1 := by
  have hcons : ∀ (c : Char) (rest : List Char), (String.ofList (c :: rest)).utf8ByteSize =
      c.utf8Size + (String.ofList rest).utf8ByteSize := fun c rest => by
    rw [← List.singleton_append, String.ofList_append, String.utf8ByteSize_append,
      ← String.utf8ByteSize_singleton]
    rfl
  cases cs with
  | nil => simp
  | cons c rest =>
    rw [hcons]
    have hpos := Char.utf8Size_pos c
    constructor
    · intro h
      have hrest : (String.ofList rest).utf8ByteSize = 0 := by omega
      have hnil : rest = [] := by
        rw [String.utf8ByteSize_eq_zero_iff, ← String.toList_inj, String.toList_ofList] at hrest
        exact hrest
      rw [hnil]
      exact ⟨c, rfl, by omega⟩
    · rintro ⟨c', heq, hsize⟩
      cases heq
      rw [hsize]
      rfl

theorem colonSecond_iff {path : String} :
    ((splitOnce ':' path).any fun cut => cut.1.utf8ByteSize ≠ 1) = false ↔
      ColonSecond path.toList := by
  unfold splitOnce ColonSecond
  by_cases hmem : ':' ∈ path.toList
  · obtain ⟨before, rest, heq, hbefore⟩ := List.eq_append_cons_of_mem hmem
    rw [heq, span_append hbefore]
    simp only [Option.any_some, decide_eq_false_iff_not, ne_eq, not_not, utf8ByteSize_eq_one_iff]
    constructor
    · rintro ⟨c, rfl, hsize⟩ -
      refine ⟨c, rest, rfl, fun hc => hbefore ?_, hsize⟩
      rw [hc]
      exact List.mem_cons_self
    · intro h
      obtain ⟨first, rest', hcut, hfirst, hsize⟩ := h (List.mem_append_right _ List.mem_cons_self)
      have hone : ':' ∉ [first] := fun h => hfirst (List.mem_singleton.mp h).symm
      exact ⟨first, (append_sep_inj hbefore hone hcut).1, hsize⟩
  · rw [span_of_notMem hmem]
    simp [hmem]

theorem validateWindowsPath_ok_iff {path : String} :
    validateWindowsPath path = .ok () ↔
      (startsWith "\\\\" path = false ∧ startsWith "//" path = false) ∧ ColonSecond path.toList ∧
        ∀ component ∈ windowsComponents path, ¬ NamesDevice component := by
  have hunc : (startsWith "\\\\" path || startsWith "//" path) = false ↔
      startsWith "\\\\" path = false ∧ startsWith "//" path = false := Bool.or_eq_false_iff
  have hnames : ((windowsComponents path).any isReservedName) = false ↔
      ∀ component ∈ windowsComponents path, ¬ NamesDevice component := by
    rw [List.any_eq_false]
    simp only [isReservedName_iff]
  rw [← hunc, ← colonSecond_iff, ← hnames]
  unfold validateWindowsPath windowsComponents
  cases startsWith "\\\\" path || startsWith "//" path with
  | true => simp
  | false =>
    cases (splitOnce ':' path).any fun cut => cut.1.utf8ByteSize ≠ 1 with
    | true => simp
    | false =>
      cases (path.toList.splitOnP fun c => c == '/' || c == '\\').any isReservedName with
      | true => simp
      | false => simp

/-! ## Streams -/

theorem tail_splitOnP_cons {p : Char → Bool} {x : Char} (hx : p x = false) (cs : List Char) :
    ((x :: cs).splitOnP p).tail = (cs.splitOnP p).tail := by
  rw [List.splitOnP_cons_eq_if_modifyHead, if_neg (by simp [hx]), List.tail_modifyHead]

/-- Where only a drive has a colon, the components behind the first one have none. -/
theorem noStream_of_colon {path : String}
    (h : ':' ∈ path.toList →
      ∃ drive rest, path.toList = drive :: ':' :: rest ∧ drive.isAlpha ∧ ':' ∉ rest) :
    ∀ component ∈ (windowsComponents path).tail, ':' ∉ component := by
  intro component hcomponent hmem
  unfold windowsComponents at hcomponent
  obtain ⟨drive, rest, heq, halpha, hrest⟩ :=
    h (mem_of_mem_splitOnP (List.mem_of_mem_tail hcomponent) hmem)
  have hdrive : (drive == '/' || drive == '\\') = false := by
    rw [Bool.or_eq_false_iff, beq_eq_false_iff_ne, beq_eq_false_iff_ne]
    constructor
    · rintro rfl
      exact absurd halpha (by decide)
    · rintro rfl
      exact absurd halpha (by decide)
  rw [heq, tail_splitOnP_cons hdrive, tail_splitOnP_cons (by decide)] at hcomponent
  exact hrest (mem_of_mem_splitOnP (List.mem_of_mem_tail hcomponent) hmem)

/-- The checks keep streams out exactly where a first colon at byte index 1 is that of a drive and
    the only one; a path with a device in it does not pass in any case. -/
theorem windows_streams_iff (path : String) :
    (validateWindowsPath path = .ok () → WindowsClean path) ↔
      ∀ first rest, path.toList = first :: ':' :: rest → first ≠ ':' → first.utf8Size = 1 →
        (∃ component ∈ windowsComponents path, NamesDevice component) ∨
          (first.isAlpha ∧ ':' ∉ rest) := by
  constructor
  · intro h first rest hpath hfirst hsize
    by_cases hdevice : ∃ component ∈ windowsComponents path, NamesDevice component
    · exact Or.inl hdevice
    · refine Or.inr ?_
      have hstart : startsWith "\\\\" path = false ∧ startsWith "//" path = false := by
        unfold startsWith
        rw [hpath]
        constructor
        · simp [List.isPrefixOf]
        · simp [List.isPrefixOf]
      have hclean := h (validateWindowsPath_ok_iff.mpr
        ⟨hstart, fun _ => ⟨first, rest, hpath, hfirst, hsize⟩,
          fun component hmem hnames => hdevice ⟨component, hmem, hnames⟩⟩)
      obtain ⟨drive, rest', heq, halpha, hrest⟩ := hclean.colon (by simp [hpath])
      rw [hpath] at heq
      cases heq
      exact ⟨halpha, hrest⟩
  · intro h hok
    obtain ⟨hunc, hcolon, hnames⟩ := validateWindowsPath_ok_iff.mp hok
    have hdrive : ':' ∈ path.toList →
        ∃ drive rest, path.toList = drive :: ':' :: rest ∧ drive.isAlpha ∧ ':' ∉ rest := by
      intro hmem
      obtain ⟨first, rest, hpath, hfirst, hsize⟩ := hcolon hmem
      rcases h first rest hpath hfirst hsize with ⟨component, hcomponent, hdevice⟩ | hletter
      · exact absurd hdevice (hnames component hcomponent)
      · exact ⟨first, rest, hpath, hletter⟩
    exact ⟨hunc, hnames, hdrive, noStream_of_colon hdrive⟩

/-- A stream on a file whose path begins with a drive. -/
theorem stream_behind_drive :
    validateWindowsPath "C:file.txt:hidden" = .ok () ∧ ¬ WindowsClean "C:file.txt:hidden" := by
  refine ⟨by decide, fun h => ?_⟩
  obtain ⟨drive, rest, heq, -, hrest⟩ := h.colon (by decide)
  cases heq
  exact hrest (by decide)

end Mik.Runtime
