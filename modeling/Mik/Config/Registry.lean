/-
  The requests of a download (`registry.rs`, `reliability/retry.rs`).

  `is_github_url` searches the text of the URL for the two domains. A URL is cut into its parts
  here (`Uri.split`), and since the domains contain no delimiter, the search finds them exactly
  where they stand in one of the parts, which need not be the host. The token goes into every
  attempt of the download or into none (`mem_retrySync`).
-/
import Mik.Config.PullFiles
import Mik.Lib.HostName
import Mik.Lib.Uri

namespace Mik.Config

open Mik.Lib

/-- `GITHUB_DOMAINS`. -/
def githubDomains : List String := ["github.com", "githubusercontent.com"]

def isGithubUrl (url : String) : Bool := githubDomains.any fun domain => containsText domain url

/-! ## The token -/

/-- `char::is_whitespace`. -/
def isWhitespace (c : Char) : Bool :=
  (9 ≤ c.toNat && c.toNat ≤ 13) || (0x2000 ≤ c.toNat && c.toNat ≤ 0x200A) ||
    [0x20, 0x85, 0xA0, 0x1680, 0x2028, 0x2029, 0x202F, 0x205F, 0x3000].contains c.toNat

/-- `str::trim`. -/
def trim (s : String) : String :=
  String.ofList ((s.toList.dropWhile isWhitespace).reverse.dropWhile isWhitespace).reverse

/-- What `gh auth token` comes to. -/
structure Output where
  success : Bool
  stdout : List UInt8

/-- Where a token may come from: the command, unless it cannot be run, and the variable
    `GITHUB_TOKEN`. -/
structure TokenSources where
  gh : Option Output
  env : Option String

def getGithubToken (sources : TokenSources) : Option String :=
  ((sources.gh.filter Output.success).bind fun o =>
    let token := trim (String.ofList (fromUtf8Lossy o.stdout))
    if token = "" then none else some token).or sources.env

/-! ## The requests -/

/-- A GET request. -/
structure GetRequest where
  url : String
  headers : List (String × String)
  deriving DecidableEq

/-- The phrases that mark an error as transient. -/
def transientPhrases : List String :=
  ["connection refused", "connection reset", "connection closed", "broken pipe",
    "network unreachable", "host unreachable", "timed out", "timeout", "deadline exceeded",
    "status: 5", "500", "502", "503", "504", "408", "429", "too many requests",
    "service unavailable", "gateway timeout", "bad gateway", "resource temporarily unavailable",
    "try again", "interrupted", "would block", "database is locked", "busy"]

/-- `is_transient_error`, on the text of an error, whose capitals are ASCII letters. -/
def isTransientError (error : String) : Bool :=
  let msg := toAsciiLowercase error
  transientPhrases.any (fun phrase => containsText phrase msg) ||
    containsText "dns" msg && (containsText "temporary" msg || containsText "again" msg)

/-- `retry_sync`, without the delays: the requests, and the last result. An operation is a request
    and what comes of it at each attempt; `retries` are left. -/
def retrySync {α : Type} (operation : Nat → GetRequest × Except String α) (attempt : Nat) :
    Nat → List GetRequest × Except String α
  | 0 => ([(operation attempt).1], (operation attempt).2)
  | retries + 1 =>
    match operation attempt with
    | (request, .ok result) => ([request], .ok result)
    | (request, .error e) =>
      if isTransientError e then
        let (requests, result) := retrySync operation (attempt + 1) retries
        (request :: requests, result)
      else ([request], .error e)

/-- The request of an attempt. -/
def downloadRequest (url : String) (token : Option String) : GetRequest :=
  { url := url
    headers := ("Accept", "application/octet-stream") ::
      match token with
      | some t => [("Authorization", "Bearer " ++ t)]
      | none => [] }

/-- `max_retries` of `RetryConfig::network`. -/
def networkRetries : Nat := 3

/-- `download_from_url`. `call` says what body a request gets at each attempt, if any. -/
def downloadFromUrl {Body : Type} (sources : TokenSources) (call : Nat → GetRequest → Option Body)
    (url : String) : List GetRequest × Except String Body :=
  let token := if isGithubUrl url then getGithubToken sources else none
  retrySync (fun attempt =>
    (downloadRequest url token,
      match call attempt (downloadRequest url token) with
      | some body => .ok body
      | none => .error "HTTP request failed")) 0 networkRetries

/-! ## What is to hold -/

/-- The request carries the token that the sources have. -/
def CarriesToken (sources : TokenSources) (request : GetRequest) : Prop :=
  ∃ token, getGithubToken sources = some token ∧
    ("Authorization", "Bearer " ++ token) ∈ request.headers

/-- The URL has a host, which is within one of the domains. -/
def HasGithubHost (url : String) : Prop :=
  ∃ a ∈ (Uri.split url.toList).authority,
    ∃ domain ∈ githubDomains, IsWithin domain (String.ofList a.host)

instance (url : String) : Decidable (HasGithubHost url) :=
  inferInstanceAs (Decidable (∃ a ∈ _, _))

/-- None of the parts of the URL has the text of a domain in it. -/
def NamesNoDomain (url : String) : Prop :=
  ∀ part ∈ (Uri.split url.toList).parts, ∀ domain ∈ githubDomains, ¬ domain.toList <:+: part

/-! ## Which requests carry it -/

theorem domains_delimited {domain : String} (h : domain ∈ githubDomains) :
    ∀ c ∈ Uri.delimiters, c ∉ domain.toList := by
  rcases List.mem_pair.mp h with rfl | rfl
  · simp [Uri.delimiters]
  · simp [Uri.delimiters]

theorem isGithubUrl_iff (url : String) : isGithubUrl url = true ↔ ¬ NamesNoDomain url := by
  unfold isGithubUrl NamesNoDomain containsText
  simp only [List.any_eq_true, decide_eq_true_eq]
  constructor
  · rintro ⟨domain, hdomain, hinfix⟩ hnone
    obtain ⟨part, hpart, hin⟩ := (Uri.infix_split_iff (domains_delimited hdomain) _).mp hinfix
    exact hnone part hpart domain hdomain hin
  · intro h
    push Not at h
    obtain ⟨part, hpart, domain, hdomain, hin⟩ := h
    exact ⟨domain, hdomain,
      (Uri.infix_split_iff (domains_delimited hdomain) _).mpr ⟨part, hpart, hin⟩⟩

/-- Every attempt makes the same request, and there is one. -/
theorem mem_retrySync {α : Type} {operation : Nat → GetRequest × Except String α}
    {request : GetRequest} (h : ∀ attempt, (operation attempt).1 = request) (attempt retries : Nat)
    (r : GetRequest) : r ∈ (retrySync operation attempt retries).1 ↔ r = request := by
  induction retries generalizing attempt with
  | zero =>
    unfold retrySync
    rw [h attempt, List.mem_singleton]
  | succ retries ih =>
    have hattempt := h attempt
    unfold retrySync
    split
    · next request' result heq =>
      rw [heq] at hattempt
      rw [← hattempt, List.mem_singleton]
    · next request' e heq =>
      rw [heq] at hattempt
      split
      · dsimp only at hattempt ⊢
        rw [List.mem_cons, ih (attempt + 1), hattempt, or_self]
      · rw [← hattempt, List.mem_singleton]

theorem mem_downloadFromUrl {Body : Type} (sources : TokenSources)
    (call : Nat → GetRequest → Option Body) (url : String) (r : GetRequest) :
    r ∈ (downloadFromUrl sources call url).1 ↔
      r = downloadRequest url (if isGithubUrl url then getGithubToken sources else none) := by
  unfold downloadFromUrl
  refine mem_retrySync ?_ 0 networkRetries r
  intro attempt
  rfl

theorem carriesToken_downloadRequest_iff (sources : TokenSources) (url : String) :
    CarriesToken sources
        (downloadRequest url (if isGithubUrl url then getGithubToken sources else none)) ↔
      isGithubUrl url = true ∧ getGithubToken sources ≠ none := by
  unfold CarriesToken downloadRequest
  by_cases hurl : isGithubUrl url = true
  · rw [if_pos hurl]
    cases htoken : getGithubToken sources with
    | none => simp
    | some t => simp [hurl]
  · rw [if_neg hurl]
    simp [hurl]

/-! ## The law -/

/-- The requests of a download keep the token to GitHub exactly when there is no token, the host is
    one of GitHub's, or no part of the URL has the text of a domain in it. -/
theorem credentials_confined_iff {Body : Type} (sources : TokenSources)
    (call : Nat → GetRequest → Option Body) (url : String) :
    (∀ request ∈ (downloadFromUrl sources call url).1,
        CarriesToken sources request → HasGithubHost url) ↔
      getGithubToken sources = none ∨ HasGithubHost url ∨ NamesNoDomain url := by
  have hall : (∀ request ∈ (downloadFromUrl sources call url).1,
      CarriesToken sources request → HasGithubHost url) ↔
        (isGithubUrl url = true ∧ getGithubToken sources ≠ none → HasGithubHost url) := by
    rw [← carriesToken_downloadRequest_iff]
    constructor
    · exact fun h => h _ ((mem_downloadFromUrl sources call url _).mpr rfl)
    · intro h request hrequest
      rw [(mem_downloadFromUrl sources call url request).mp hrequest]
      exact h
  rw [hall, isGithubUrl_iff]
  constructor
  · intro h
    by_cases htoken : getGithubToken sources = none
    · exact Or.inl htoken
    · by_cases hnames : NamesNoDomain url
      · exact Or.inr (Or.inr hnames)
      · exact Or.inr (Or.inl (h ⟨hnames, htoken⟩))
  · rintro (htoken | hhost | hnames) ⟨hsome, hsometoken⟩
    · exact absurd htoken hsometoken
    · exact hhost
    · exact absurd hnames hsome

/-- A path that names GitHub takes the token to any host. So do user information, and names of hosts
    that only begin or end in the same way. -/
theorem credentials_strayed :
    (downloadFromUrl ⟨some ⟨true, [103, 104, 111, 10]⟩, none⟩ (fun _ _ => (none : Option Unit))
        "https://evil.example/github.com/x.wasm").1 =
      [⟨"https://evil.example/github.com/x.wasm",
        [("Accept", "application/octet-stream"), ("Authorization", "Bearer gho")]⟩] ∧
    ¬ HasGithubHost "https://evil.example/github.com/x.wasm" ∧
    ∀ url ∈ ["https://github.com@evil.example/x.wasm", "https://github.com.evil.example/x.wasm",
        "https://notgithub.com/x.wasm"],
      isGithubUrl url = true ∧ ¬ HasGithubHost url := by
  refine ⟨?_, ?_, ?_⟩
  · decide
  · decide
  · decide +kernel

end Mik.Config
