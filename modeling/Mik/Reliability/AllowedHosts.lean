/-
  Which hosts outgoing requests may go to (`src/reliability/security.rs`).

  `is_http_host_allowed` compares texts: `"*"` is any host, `"*.s"` a host that is `s` or ends with
  a dot and `s`, and any other pattern is the host itself, all in lower case. `PatternAllows` says
  the same of labels, and `allowed_hosts` that the two agree for every host and list of patterns.
  The guest's requests pass here (`sendRequest`).
-/
import Mik.Config.Manifest
import Mik.Lib.HostName

namespace Mik.Reliability

open Mik.Lib Mik.Config

/-- One round of the loop over the patterns. -/
def patternMatches (hostLower pattern : String) : Bool :=
  if pattern = "*" then true
  else
    match stripPrefix "*." (toAsciiLowercase pattern) with
    | some suffix => endsWith ("." ++ suffix) hostLower || hostLower == suffix
    | none => toAsciiLowercase pattern == hostLower

def isHttpHostAllowed (host : String) (allowedPatterns : List String) : Bool :=
  if allowedPatterns = [] then false
  else allowedPatterns.any (patternMatches (toAsciiLowercase host))

/-! ## The callers -/

inductive ErrorCode where
  | httpRequestDenied
  deriving DecidableEq, Repr

/-- `HostState::send_request`, up to where the request goes out; a request without a host has the
    empty one. -/
def sendRequest (httpAllowed : List String) (host : Option String) : Except ErrorCode Unit :=
  if httpAllowed = [] then .error .httpRequestDenied
  else if !isHttpHostAllowed (host.getD "") httpAllowed then .error .httpRequestDenied
  else .ok ()

/-- `ServerConfig::http_enabled`. -/
def httpEnabled (config : ServerConfig) : Bool := !config.httpAllowed.isEmpty

/-- `ServerConfig::http_allows_all`. -/
def httpAllowsAll (config : ServerConfig) : Bool := config.httpAllowed.any (· == "*")

/-- `ServerConfig::is_host_allowed`. -/
def isHostAllowed (config : ServerConfig) (host : String) : Bool :=
  isHttpHostAllowed host config.httpAllowed

/-! ## Patterns -/

/-- What a pattern allows, in terms of labels and without regard to case. -/
def PatternAllows (pattern host : String) : Prop :=
  pattern = "*" ∨ (∃ s, pattern = "*." ++ s ∧ IsWithin s host) ∨
    toAsciiLowercase pattern = toAsciiLowercase host

/-- The prefix of a wildcard has no letters. -/
theorem lowercase_wildcard_iff {pattern suffix : String} :
    toAsciiLowercase pattern = "*." ++ suffix ↔
      ∃ s, pattern = "*." ++ s ∧ toAsciiLowercase s = suffix := by
  have hwild : toAsciiLowercase "*." = "*." := by decide
  constructor
  · intro h
    have hchars := congrArg String.toList h
    rw [toList_toAsciiLowercase, String.toList_append] at hchars
    obtain ⟨front, back, hsplit, hfront, hback⟩ := List.map_eq_append_iff.mp hchars
    have hsame : front = "*.".toList := by
      obtain ⟨a, rest, rfl, ha, hrest⟩ := List.map_eq_cons_iff.mp hfront
      obtain ⟨b, rest, rfl, hb, hnil⟩ := List.map_eq_cons_iff.mp hrest
      rw [(toLower_eq_iff (by decide)).mp ha, (toLower_eq_iff (by decide)).mp hb,
        List.map_eq_nil_iff.mp hnil]
      rfl
    refine ⟨String.ofList back, String.toList_inj.mp ?_, String.toList_inj.mp ?_⟩
    · rw [hsplit, hsame, String.toList_append]
      exact congrArg _ String.toList_ofList.symm
    · rw [toList_toAsciiLowercase, String.toList_ofList, hback]
  · rintro ⟨s, rfl, rfl⟩
    rw [toAsciiLowercase_append, hwild]

theorem patternMatches_iff {host pattern : String} :
    patternMatches (toAsciiLowercase host) pattern = true ↔ PatternAllows pattern host := by
  unfold patternMatches PatternAllows
  by_cases hany : pattern = "*"
  · simp [hany]
  · rw [if_neg hany]
    split
    · next suffix hstrip =>
      rw [stripPrefix_eq_some_iff] at hstrip
      obtain ⟨s, rfl, rfl⟩ := lowercase_wildcard_iff.mp hstrip
      have hwithin : (endsWith ("." ++ toAsciiLowercase s) (toAsciiLowercase host) ||
          toAsciiLowercase host == toAsciiLowercase s) = true ↔ IsWithin s host := by
        rw [isWithin_iff, Bool.or_eq_true, beq_iff_eq]
        exact or_comm
      rw [hwithin]
      constructor
      · exact fun h => Or.inr (Or.inl ⟨s, rfl, h⟩)
      · rintro (heq | ⟨s', heq, h⟩ | heq)
        · exact absurd heq hany
        · rwa [(String.append_right_inj _).mp heq]
        · -- the pattern itself is within what it stands for
          rw [isWithin_iff, ← heq, hstrip, endsWith_iff]
          refine Or.inr ⟨['*'], ?_⟩
          rw [String.toList_append, String.toList_append]
          rfl
    · next hstrip =>
      have hother : ¬ ∃ s, pattern = "*." ++ s ∧ IsWithin s host := by
        rintro ⟨s, rfl, -⟩
        have hlower := lowercase_wildcard_iff.mpr ⟨s, rfl, rfl⟩
        rw [← stripPrefix_eq_some_iff, hstrip] at hlower
        cases hlower
      rw [beq_iff_eq]
      exact ⟨fun h => Or.inr (Or.inr h), fun h => (h.resolve_left hany).resolve_left hother⟩

theorem isHttpHostAllowed_iff {host : String} {patterns : List String} :
    isHttpHostAllowed host patterns = true ↔ ∃ p ∈ patterns, PatternAllows p host := by
  unfold isHttpHostAllowed
  by_cases hnil : patterns = []
  · simp [hnil]
  · rw [if_neg hnil, List.any_eq_true]
    simp only [patternMatches_iff]

theorem sendRequest_ok_iff {httpAllowed : List String} {host : Option String} :
    sendRequest httpAllowed host = .ok () ↔
      ∃ p ∈ httpAllowed, PatternAllows p (host.getD "") := by
  rw [← isHttpHostAllowed_iff]
  unfold sendRequest
  by_cases hnil : httpAllowed = []
  · simp [hnil, isHttpHostAllowed]
  · rw [if_neg hnil]
    cases isHttpHostAllowed (host.getD "") httpAllowed with
    | true => simp
    | false => simp

/-- The wildcard of a `ServerConfig` allows every host. -/
theorem isHostAllowed_of_httpAllowsAll {config : ServerConfig} (h : httpAllowsAll config = true)
    (host : String) : isHostAllowed config host = true := by
  obtain ⟨p, hp, heq⟩ := List.any_eq_true.mp h
  exact isHttpHostAllowed_iff.mpr ⟨p, hp, Or.inl (beq_iff_eq.mp heq)⟩

theorem lowercase_star_iff {pattern : String} :
    toAsciiLowercase pattern = "*" ↔ pattern = "*" := by
  rw [← String.toList_inj, ← String.toList_inj, toList_toAsciiLowercase]
  constructor
  · intro h
    obtain ⟨a, rest, hsplit, ha, hnil⟩ := List.map_eq_cons_iff.mp h
    rw [hsplit, (toLower_eq_iff (by decide)).mp ha, List.map_eq_nil_iff.mp hnil]
    rfl
  · intro h
    rw [h]
    rfl

/-- Only the lower case of a pattern and a host counts. -/
theorem patternMatches_lowercase {host pattern host' pattern' : String}
    (hhost : toAsciiLowercase host' = toAsciiLowercase host)
    (hpattern : toAsciiLowercase pattern' = toAsciiLowercase pattern) :
    patternMatches (toAsciiLowercase host') pattern' =
      patternMatches (toAsciiLowercase host) pattern := by
  have hstar : pattern' = "*" ↔ pattern = "*" := by
    rw [← lowercase_star_iff, hpattern, lowercase_star_iff]
  unfold patternMatches
  simp only [hstar, hhost, hpattern]

theorem isHttpHostAllowed_lowercase {host host' : String} {patterns patterns' : List String}
    (hhost : toAsciiLowercase host' = toAsciiLowercase host)
    (hpatterns : patterns'.map toAsciiLowercase = patterns.map toAsciiLowercase) :
    isHttpHostAllowed host' patterns' = isHttpHostAllowed host patterns := by
  induction patterns generalizing patterns' with
  | nil =>
    rw [List.map_eq_nil_iff.mp hpatterns]
    rfl
  | cons p ps ih =>
    obtain ⟨p', ps', rfl, hp, hps⟩ := List.map_eq_cons_iff.mp hpatterns
    have hrest := ih hps
    have hany : ∀ (h : String) (q : String) (qs : List String),
        isHttpHostAllowed h (q :: qs) =
          (patternMatches (toAsciiLowercase h) q || isHttpHostAllowed h qs) := fun h q qs => by
      unfold isHttpHostAllowed
      rw [if_neg (List.cons_ne_nil _ _), List.any_cons]
      by_cases hnil : qs = []
      · rw [hnil]
        rfl
      · rw [if_neg hnil]
    rw [hany, hany, patternMatches_lowercase hhost hp, hrest]

/-- The allow list, for every host and every list of patterns: the hosts that are allowed are those
    a pattern allows by labels; case, the order of the patterns and patterns that are added take
    nothing away; and behind anything but a dot the characters of `s` are not enough for `*.s`. -/
theorem allowed_hosts (host : String) (patterns : List String) :
    (isHttpHostAllowed host patterns = true ↔ ∃ p ∈ patterns, PatternAllows p host) ∧
      (∀ host' patterns', toAsciiLowercase host' = toAsciiLowercase host →
        patterns'.map toAsciiLowercase = patterns.map toAsciiLowercase →
        isHttpHostAllowed host' patterns' = isHttpHostAllowed host patterns) ∧
      (∀ patterns', patterns'.Perm patterns →
        isHttpHostAllowed host patterns' = isHttpHostAllowed host patterns) ∧
      (∀ patterns', patterns ⊆ patterns' → isHttpHostAllowed host patterns = true →
        isHttpHostAllowed host patterns' = true) ∧
      (∀ s front c, c ≠ '.' →
        (toAsciiLowercase host).toList = front ++ c :: (toAsciiLowercase s).toList →
        isHttpHostAllowed host ["*." ++ s] = false) ∧
      ∀ config : ServerConfig,
        isHostAllowed config host = true ↔ ∃ p ∈ config.httpAllowed, PatternAllows p host := by
  refine ⟨isHttpHostAllowed_iff, fun host' patterns' => isHttpHostAllowed_lowercase,
    fun patterns' hperm => ?_, fun patterns' hsub h => ?_, fun s front c hc hend => ?_,
    fun config => isHttpHostAllowed_iff⟩
  · rw [Bool.eq_iff_iff, isHttpHostAllowed_iff, isHttpHostAllowed_iff]
    simp only [hperm.mem_iff]
  · obtain ⟨p, hp, hallows⟩ := isHttpHostAllowed_iff.mp h
    exact isHttpHostAllowed_iff.mpr ⟨p, hsub hp, hallows⟩
  · rw [Bool.eq_false_iff, Ne, isHttpHostAllowed_iff]
    rintro ⟨p, hp, hallows⟩
    rw [List.mem_singleton.mp hp] at hallows
    have hwithin := not_isWithin_of_boundary hc hend
    rcases hallows with heq | ⟨s', heq, h⟩ | heq
    · have := congrArg String.toList heq
      rw [String.toList_append] at this
      cases this
    · rw [← (String.append_right_inj _).mp heq] at h
      exact hwithin h
    · refine hwithin (isWithin_iff.mpr (Or.inr ?_))
      rw [endsWith_iff, ← heq, lowercase_wildcard_iff.mpr ⟨s, rfl, rfl⟩]
      refine ⟨['*'], ?_⟩
      rw [String.toList_append, String.toList_append]
      rfl

end Mik.Reliability
