/-
  OCI references (`parse_oci_reference` in `commands/add.rs`).

  The last segment of a reference is cut at its last colon into a name and a tag. What comes in
  front is kept, and the default registry is put before it unless the first segment has a dot
  (`parseOciReference_eq`). So a digest, of which only the part after its colon is cut off, stays
  in the name, and a registry without a dot, such as `localhost:5000`, becomes part of a path at
  the default one.

  `parseOciReference_canonical_iff` says for which references, and which explicit tags, the result
  is what it should be.
-/
import Mathlib.Data.List.TakeWhile
import Mik.Config.Add

namespace Mik.Config

open Mik.Lib

/-- The last segment without its tag. -/
def repoName (spec : String) : String :=
  ((rsplitOnce ':' (lastPiece '/' spec)).map Prod.fst).getD (lastPiece '/' spec)

/-- The tag of the last segment. -/
def tagOf (spec : String) : Option String := (rsplitOnce ':' (lastPiece '/' spec)).map Prod.snd

/-- A reference of this registry part, path and tag. -/
def canonicalRef (spec : String) (explicitTag : Option String) : String :=
  (if isFullRef spec then "" else "ghcr.io/") ++ upToLast '/' spec ++ repoName spec ++ ":" ++
    explicitTag.getD ((tagOf spec).getD "latest")

theorem slash_front (a : String) : (a ++ "/").toList.getLast? = some '/' := by
  rw [String.toList_append]
  exact List.getLast?_concat

theorem splitTag_eq (spec : String) :
    splitTag spec = (upToLast '/' spec ++ repoName spec, tagOf spec) := by
  have hcolon (last : String) :
      (∃ piece tag, rsplitOnce ':' last = some (piece, tag)) ∨ rsplitOnce ':' last = none := by
    cases h : rsplitOnce ':' last with
    | none => exact Or.inr rfl
    | some cut => exact Or.inl ⟨cut.1, cut.2, rfl⟩
  unfold splitTag repoName tagOf
  rcases @rsplitOnce_cases '/' "/" rfl spec with hnone | ⟨a, b, rfl, hb⟩
  · rw [rsplitOnce_of_notMem hnone, upToLast_of_notMem hnone, lastPiece_of_notMem hnone]
    rcases hcolon spec with ⟨piece, tag, h⟩ | h
    · simp only [h, String.empty_append, Option.map_some, Option.getD_some]
    · simp only [h, String.empty_append, Option.map_none, Option.getD_none]
  · rw [rsplitOnce_append rfl hb, lastPiece_append (Or.inr (slash_front a)),
      upToLast_append (Or.inr (slash_front a)), upToLast_of_notMem hb, lastPiece_of_notMem hb]
    rcases hcolon b with ⟨piece, tag, h⟩ | h
    · simp only [h, String.append_empty, Option.map_some, Option.getD_some]
    · simp only [h, String.append_empty, Option.map_none, Option.getD_none]

/-- The last segment is its name, or that and a tag. -/
theorem lastPiece_eq (spec : String) :
    (tagOf spec = none ∧ lastPiece '/' spec = repoName spec ∧ ':' ∉ (repoName spec).toList) ∨
    ∃ tag, tagOf spec = some tag ∧ lastPiece '/' spec = repoName spec ++ ":" ++ tag ∧
      ':' ∉ tag.toList := by
  unfold repoName tagOf
  rcases @rsplitOnce_cases ':' ":" rfl (lastPiece '/' spec) with hnone | ⟨a, b, hcut, hb⟩
  · rw [rsplitOnce_of_notMem hnone]
    exact Or.inl ⟨rfl, rfl, hnone⟩
  · rw [hcut, rsplitOnce_append rfl hb]
    exact Or.inr ⟨b, rfl, rfl, hb⟩

theorem slash_notMem_repoName (spec : String) : '/' ∉ (repoName spec).toList := by
  intro hmem
  refine notMem_lastPiece '/' spec ?_
  rcases lastPiece_eq spec with ⟨-, heq, -⟩ | ⟨tag, -, heq, -⟩
  · rw [heq]
    exact hmem
  · rw [heq, String.toList_append, String.toList_append]
    exact List.mem_append_left _ (List.mem_append_left _ hmem)

theorem lastPiece_front (spec : String) :
    lastPiece '/' (upToLast '/' spec ++ repoName spec) = repoName spec := by
  rw [lastPiece_append (upToLast_cases '/' spec), lastPiece_of_notMem (slash_notMem_repoName spec)]

/-- What `parse_oci_reference` comes to, for every reference. -/
theorem parseOciReference_eq (spec : String) (explicitTag : Option String) :
    parseOciReference spec explicitTag = .ok (repoName spec, canonicalRef spec explicitTag) := by
  unfold parseOciReference canonicalRef
  rw [splitTag_eq]
  by_cases hfull : isFullRef spec = true
  · rcases @splitOnce_cases '/' "/" rfl spec with hnone | ⟨first, rest, rfl, hfirst⟩
    · unfold isFullRef at hfull
      rw [splitOnce_of_notMem hnone] at hfull
      cases hfull
    · have hfront := slash_front first
      have hsplit : splitOnce '/' (upToLast '/' (first ++ "/" ++ rest) ++
          repoName (first ++ "/" ++ rest))
          = some (first, upToLast '/' rest ++ repoName (first ++ "/" ++ rest)) := by
        rw [upToLast_append (Or.inr hfront), @String.append_assoc (first ++ "/")]
        exact splitOnce_append rfl hfirst
      have hname : lastPiece '/' (upToLast '/' rest ++ repoName (first ++ "/" ++ rest))
          = repoName (first ++ "/" ++ rest) := by
        rw [lastPiece_append (upToLast_cases '/' rest),
          lastPiece_of_notMem (slash_notMem_repoName _)]
      rw [if_pos hfull, if_pos hfull]
      dsimp only
      rw [hsplit, upToLast_append (Or.inr hfront)]
      show Except.ok (lastPiece '/' _, _) = _
      rw [hname]
      simp only [String.empty_append, String.append_assoc]
  · rw [if_neg hfull, if_neg hfull]
    show Except.ok (lastPiece '/' _, _) = _
    rw [lastPiece_front]
    simp only [String.append_assoc]
    rfl

/-! ## What canonical means -/

/-- Registries are told from path segments this way: by a dot, a port or the local host. -/
def namesRegistry (segment : String) : Prop :=
  '.' ∈ segment.toList ∨ ':' ∈ segment.toList ∨ segment = "localhost"

/-- The tag or the digest of the last segment, with the character that starts it. -/
def tagOrDigest (spec : String) : String :=
  String.ofList ((lastPiece '/' spec).toList.dropWhile fun c => c ≠ ':' ∧ c ≠ '@')

/-- What a result for a reference should be. -/
structure Canonical (spec : String) (explicitTag : Option String) (result : String × String) :
    Prop where
  name_ne : result.1 ≠ ""
  name_plain : ∀ c ∈ ['/', ':', '@'], c ∉ result.1.toList
  registry : ∀ first rest, splitOnce '/' spec = some (first, rest) → namesRegistry first →
    ∃ path, result.2 = first ++ "/" ++ path
  tag : explicitTag = none → tagOrDigest spec ≠ "" → ∃ front, result.2 = front ++ tagOrDigest spec
  stable : parseOciReference result.2 none = .ok result

/-- The last segment is a name, or that and a tag. -/
def LastSegment (spec name : String) : Prop :=
  (lastPiece '/' spec = name ∧ ':' ∉ name.toList) ∨
  ∃ tag, lastPiece '/' spec = name ++ ":" ++ tag ∧ ':' ∉ tag.toList

/-- A tag cannot contain a slash or a colon. If one does, the reference comes out the same again
only where what follows its last slash has the name and one colon in front. -/
def TagFits (name tag : String) : Prop :=
  ('/' ∉ tag.toList ∧ ':' ∉ tag.toList) ∨
  ('/' ∈ tag.toList ∧ ∃ rest, lastPiece '/' tag = name ++ ":" ++ rest ∧ ':' ∉ rest.toList)

/-- The references, with the explicit tags, that are made canonical. -/
structure Fits (spec : String) (explicitTag : Option String) (name : String) : Prop where
  last : LastSegment spec name
  name_ne : name ≠ ""
  name_plain : ':' ∉ name.toList ∧ '@' ∉ name.toList
  registry : ∀ first rest, splitOnce '/' spec = some (first, rest) → namesRegistry first →
    '.' ∈ first.toList
  explicit : ∀ tag, explicitTag = some tag → TagFits name tag

theorem repoName_of_last {spec name : String} (h : LastSegment spec name) :
    repoName spec = name := by
  unfold repoName
  rcases h with ⟨heq, hcolon⟩ | ⟨tag, heq, hcolon⟩
  · rw [heq, rsplitOnce_of_notMem hcolon]
    rfl
  · rw [heq, @rsplitOnce_append ':' ":" name tag rfl hcolon]
    rfl

theorem last_repoName (spec : String) : LastSegment spec (repoName spec) := by
  rcases lastPiece_eq spec with ⟨-, heq, hcolon⟩ | ⟨tag, -, heq, hcolon⟩
  · exact Or.inl ⟨heq, hcolon⟩
  · exact Or.inr ⟨tag, heq, hcolon⟩

/-! ## Registries -/

theorem isFullRef_append {first rest : String} (h : '/' ∉ first.toList) :
    isFullRef (first ++ "/" ++ rest) = true ↔ '.' ∈ first.toList := by
  unfold isFullRef
  rw [@splitOnce_append '/' "/" first rest rfl h]
  exact List.contains_iff_mem

theorem canonicalRef_append {first rest : String} {explicitTag : Option String}
    (h : '/' ∉ first.toList) (hdot : '.' ∈ first.toList) :
    ∃ path, canonicalRef (first ++ "/" ++ rest) explicitTag = first ++ "/" ++ path := by
  unfold canonicalRef
  rw [if_pos ((isFullRef_append h).mpr hdot), upToLast_append (Or.inr (slash_front first))]
  simp only [String.empty_append, String.append_assoc]
  exact ⟨_, rfl⟩

theorem canonicalRef_default {spec : String} {explicitTag : Option String}
    (h : isFullRef spec = false) :
    ∃ path, canonicalRef spec explicitTag = "ghcr.io" ++ "/" ++ path := by
  unfold canonicalRef
  rw [h, if_neg Bool.false_ne_true]
  simp only [String.append_assoc]
  exact ⟨_, rfl⟩

/-- Every result names a registry, with a dot in it. -/
theorem isFullRef_canonicalRef (spec : String) (explicitTag : Option String) :
    isFullRef (canonicalRef spec explicitTag) = true := by
  cases hfull : isFullRef spec with
  | false =>
    obtain ⟨path, hpath⟩ := canonicalRef_default hfull
    rw [hpath]
    exact (isFullRef_append (by decide)).mpr (by decide)
  | true =>
    rcases @splitOnce_cases '/' "/" rfl spec with hnone | ⟨first, rest, rfl, hfirst⟩
    · unfold isFullRef at hfull
      rw [splitOnce_of_notMem hnone] at hfull
      cases hfull
    · have hdot := (isFullRef_append hfirst).mp hfull
      obtain ⟨path, hpath⟩ := canonicalRef_append hfirst hdot
      rw [hpath]
      exact (isFullRef_append hfirst).mpr hdot

/-- The registry is kept exactly where the first segment has a dot. -/
theorem registry_kept_iff {first rest : String} {explicitTag : Option String}
    (h : '/' ∉ first.toList) :
    (∃ path, canonicalRef (first ++ "/" ++ rest) explicitTag = first ++ "/" ++ path) ↔
      '.' ∈ first.toList := by
  constructor
  · rintro ⟨path, hpath⟩
    have hfull := isFullRef_canonicalRef (first ++ "/" ++ rest) explicitTag
    rw [hpath] at hfull
    exact (isFullRef_append h).mp hfull
  · exact canonicalRef_append h

/-! ## Tags -/

theorem lastPiece_canonicalRef (spec : String) (explicitTag : Option String) :
    lastPiece '/' (canonicalRef spec explicitTag)
      = lastPiece '/' (repoName spec ++ ":" ++ explicitTag.getD ((tagOf spec).getD "latest")) := by
  have hfront : (if isFullRef spec then "" else "ghcr.io/") ++ upToLast '/' spec = "" ∨
      ((if isFullRef spec then "" else "ghcr.io/") ++ upToLast '/' spec).toList.getLast?
        = some '/' := by
    rcases upToLast_cases '/' spec with hempty | hlast
    · rw [hempty, String.append_empty]
      split
      · exact Or.inl rfl
      · exact Or.inr (by decide)
    · rw [String.toList_append, List.getLast?_append, hlast]
      exact Or.inr rfl
  refine Eq.trans (congrArg (lastPiece '/') ?_) (lastPiece_append hfront _)
  unfold canonicalRef
  simp only [String.append_assoc]

/-- A full reference comes out the same where its last segment is the name and a tag. -/
theorem parse_same_iff {ref name : String} (hfull : isFullRef ref = true) :
    parseOciReference ref none = .ok (name, ref) ↔
      ∃ tag, lastPiece '/' ref = name ++ ":" ++ tag ∧ ':' ∉ tag.toList := by
  rw [parseOciReference_eq, Except.ok.injEq, Prod.mk.injEq]
  unfold canonicalRef
  rw [hfull, if_pos rfl, String.empty_append]
  constructor
  · rintro ⟨hname, href⟩
    rw [Option.getD_none] at href
    have hlast : repoName ref ++ ":" ++ (tagOf ref).getD "latest" = lastPiece '/' ref := by
      refine (String.append_right_inj (upToLast '/' ref)).mp ?_
      rw [upToLast_append_lastPiece, ← String.append_assoc, ← String.append_assoc]
      exact href
    rcases lastPiece_eq ref with ⟨-, heq, hcolon⟩ | ⟨tag, -, heq, hcolon⟩
    · rw [heq] at hlast
      rw [← hlast, String.toList_append, String.toList_append] at hcolon
      exact absurd (List.mem_append_left _ (List.mem_append_right _ (List.mem_singleton_self ':')))
        hcolon
    · exact ⟨tag, hname ▸ heq, hcolon⟩
  · rintro ⟨tag, heq, hcolon⟩
    have hname : repoName ref = name := repoName_of_last (Or.inr ⟨tag, heq, hcolon⟩)
    have htag : tagOf ref = some tag := by
      unfold tagOf
      rw [heq, @rsplitOnce_append ':' ":" name tag rfl hcolon]
      rfl
    refine ⟨hname, ?_⟩
    rw [hname, htag]
    show upToLast '/' ref ++ name ++ ":" ++ tag = ref
    rw [String.append_assoc, String.append_assoc, ← @String.append_assoc name, ← heq]
    exact upToLast_append_lastPiece '/' ref

/-- The same, of a name and a tag. -/
theorem cut_iff {name tag : String} (hname : '/' ∉ name.toList) :
    (∃ rest, lastPiece '/' (name ++ ":" ++ tag) = name ++ ":" ++ rest ∧ ':' ∉ rest.toList) ↔
      TagFits name tag := by
  have hpre : '/' ∉ (name ++ ":").toList := by
    rw [String.toList_append]
    exact fun hmem => (List.mem_append.mp hmem).elim hname (by decide)
  unfold TagFits
  rcases @rsplitOnce_cases '/' "/" rfl tag with hnone | ⟨before, last, rfl, hlast⟩
  · have hwhole : '/' ∉ (name ++ ":" ++ tag).toList := by
      rw [String.toList_append]
      exact fun hmem => (List.mem_append.mp hmem).elim hpre hnone
    rw [lastPiece_of_notMem hwhole]
    constructor
    · rintro ⟨rest, heq, hcolon⟩
      have htag : tag = rest := (String.append_right_inj _).mp heq
      exact Or.inl ⟨hnone, htag ▸ hcolon⟩
    · rintro (⟨-, hcolon⟩ | ⟨hslash, -⟩)
      · exact ⟨tag, rfl, hcolon⟩
      · exact absurd hslash hnone
  · have hslash : '/' ∈ (before ++ "/" ++ last).toList := by
      rw [String.toList_append, String.toList_append]
      exact List.mem_append_left _ (List.mem_append_right _ (List.mem_singleton_self '/'))
    have hpieces : lastPiece '/' (name ++ ":" ++ (before ++ "/" ++ last))
        = lastPiece '/' (before ++ "/" ++ last) := by
      rw [← String.append_assoc, ← String.append_assoc, lastPiece_append (Or.inr (slash_front _)),
        lastPiece_append (Or.inr (slash_front _))]
    rw [hpieces]
    constructor
    · intro h
      exact Or.inr ⟨hslash, h⟩
    · rintro (⟨hno, -⟩ | ⟨-, h⟩)
      · exact absurd hslash hno
      · exact h

/-- The tag that a reference has of itself, or the one it gets, is a tag. -/
theorem tagFits_own (spec : String) : TagFits (repoName spec) ((tagOf spec).getD "latest") := by
  rcases lastPiece_eq spec with ⟨htag, -, -⟩ | ⟨tag, htag, heq, hcolon⟩
  · rw [htag]
    exact Or.inl (by decide)
  · have hslash : '/' ∉ tag.toList := by
      intro hmem
      refine notMem_lastPiece '/' spec ?_
      rw [heq, String.toList_append]
      exact List.mem_append_right _ hmem
    rw [htag]
    exact Or.inl ⟨hslash, hcolon⟩

theorem stable_iff (spec : String) (explicitTag : Option String) :
    parseOciReference (canonicalRef spec explicitTag) none
        = .ok (repoName spec, canonicalRef spec explicitTag) ↔
      ∀ tag, explicitTag = some tag → TagFits (repoName spec) tag := by
  rw [parse_same_iff (isFullRef_canonicalRef spec explicitTag), lastPiece_canonicalRef,
    cut_iff (slash_notMem_repoName spec)]
  cases explicitTag with
  | none =>
    rw [Option.getD_none]
    exact iff_of_true (tagFits_own spec) (fun _ h => nomatch h)
  | some tag =>
    rw [Option.getD_some]
    exact ⟨fun h _ htag => Option.some.inj htag ▸ h, fun h => h tag rfl⟩

/-- Without an explicit tag the tag stays, when the name has neither a tag nor a digest in it. -/
theorem tag_kept {spec : String} (hat : '@' ∉ (repoName spec).toList)
    (hne : tagOrDigest spec ≠ "") :
    ∃ front, canonicalRef spec none = front ++ tagOrDigest spec := by
  rcases lastPiece_eq spec with ⟨-, heq, hcolon⟩ | ⟨tag, htag, heq, -⟩
  · refine absurd ?_ hne
    unfold tagOrDigest
    rw [heq]
    refine String.toList_inj.mp ?_
    rw [String.toList_ofList]
    refine List.dropWhile_eq_nil_iff.mpr fun c hc => decide_eq_true ⟨?_, ?_⟩
    · rintro rfl
      exact hcolon hc
    · rintro rfl
      exact hat hc
  · obtain ⟨front, hfront⟩ : ∃ front, lastPiece '/' spec = front ++ tagOrDigest spec := by
      refine ⟨String.ofList ((lastPiece '/' spec).toList.takeWhile fun c => c ≠ ':' ∧ c ≠ '@'), ?_⟩
      unfold tagOrDigest
      rw [← String.ofList_append, List.takeWhile_append_dropWhile, String.ofList_toList]
    refine ⟨(if isFullRef spec then "" else "ghcr.io/") ++ upToLast '/' spec ++ front, ?_⟩
    unfold canonicalRef
    rw [htag, @String.append_assoc _ front, ← hfront, heq, Option.getD_none, Option.getD_some]
    simp only [String.append_assoc]

/-- References come out canonical exactly where the last segment is a name without a digest, or
that and a tag; the registry has a dot; and an explicit tag is one. -/
theorem parseOciReference_canonical_iff (spec : String) (explicitTag : Option String) :
    (∀ result, parseOciReference spec explicitTag = .ok result →
      Canonical spec explicitTag result) ↔ ∃ name, Fits spec explicitTag name := by
  rw [parseOciReference_eq]
  constructor
  · intro h
    obtain ⟨hne, hplain, hregistry, -, hstable⟩ :=
      h (repoName spec, canonicalRef spec explicitTag) rfl
    dsimp only at hne hplain hregistry hstable
    refine ⟨repoName spec, last_repoName spec, hne,
      ⟨hplain ':' (by decide), hplain '@' (by decide)⟩, ?_,
      (stable_iff spec explicitTag).mp hstable⟩
    intro first rest hcut hnames
    rcases @splitOnce_cases '/' "/" rfl spec with hnone | ⟨a, b, rfl, ha⟩
    · rw [splitOnce_of_notMem hnone] at hcut
      cases hcut
    · rw [@splitOnce_append '/' "/" a b rfl ha] at hcut
      cases hcut
      exact (registry_kept_iff ha).mp
        (hregistry first rest (@splitOnce_append '/' "/" first rest rfl ha) hnames)
  · rintro ⟨name, hlast, hne, ⟨hcolon, hat⟩, hregistry, hexplicit⟩ result hresult
    have hname : repoName spec = name := repoName_of_last hlast
    subst hname
    obtain rfl : (repoName spec, canonicalRef spec explicitTag) = result :=
      Except.ok.inj hresult
    have hstable := (stable_iff spec explicitTag).mpr hexplicit
    refine ⟨?_, ?_, ?_, ?_, ?_⟩ <;> dsimp only
    · exact hne
    · rw [List.forall_mem_cons, List.forall_mem_cons, List.forall_mem_singleton]
      exact ⟨slash_notMem_repoName spec, hcolon, hat⟩
    · intro first rest hcut hnames
      have hdot := hregistry first rest hcut hnames
      rcases @splitOnce_cases '/' "/" rfl spec with hnone | ⟨a, b, rfl, ha⟩
      · rw [splitOnce_of_notMem hnone] at hcut
        cases hcut
      · rw [@splitOnce_append '/' "/" a b rfl ha] at hcut
        cases hcut
        exact canonicalRef_append ha hdot
    · rintro rfl htag
      exact tag_kept hat htag
    · exact hstable

/-- The digest stays in the name, and the local registry does not stay the registry. -/
theorem digest_in_name :
    parseOciReference "user/repo@sha256:abc" none
        = .ok ("repo@sha256", "ghcr.io/user/repo@sha256:abc") ∧
      parseOciReference "localhost:5000/app" none = .ok ("app", "ghcr.io/localhost:5000/app:latest")
      ∧ ¬ ∀ spec explicitTag result, parseOciReference spec explicitTag = .ok result →
        Canonical spec explicitTag result := by
  refine ⟨by decide, by decide, fun h => ?_⟩
  have hresult : parseOciReference "user/repo@sha256:abc" none
      = .ok ("repo@sha256", "ghcr.io/user/repo@sha256:abc") := by decide
  exact (h _ _ _ hresult).name_plain '@' (by decide) (by decide)

end Mik.Config
