/-
  The parts of a URI, as RFC 3986 cuts them.

  The delimiters decide: the fragment goes from the first `#`, the query from the first `?` in front
  of it, the scheme up to a `:` in front of any `/`, the authority from `//` to the next `/`, and in
  the authority the user information up to `@` and the port from the last `:` that is not within
  brackets. Nothing is lost (`recompose_split`), so that a text without delimiters stands in a URI
  exactly where it stands in one of the parts (`infix_split_iff`).
-/
import Mathlib.Data.List.Infix
import Mik.Lib.Text

namespace Mik.Lib

structure Uri.Authority where
  userinfo : Option (List Char)
  host : List Char
  port : Option (List Char)

/-- The five components. Behind an authority the path is empty or begins with a slash. -/
structure Uri where
  scheme : Option (List Char)
  authority : Option Uri.Authority
  path : List Char
  query : Option (List Char)
  fragment : Option (List Char)
  rooted : authority ≠ none → path = [] ∨ ∃ rest, path = '/' :: rest

namespace Uri

/-! ## Cutting in two -/

/-- The text in front of the first `c`, and what is behind it. -/
def cutFirst (c : Char) (xs : List Char) : List Char × Option (List Char) :=
  match xs.span (· ≠ c) with
  | (front, []) => (front, none)
  | (front, _ :: back) => (front, some back)

/-- The text behind the last `c`, and what is in front of it. -/
def cutLast (c : Char) (xs : List Char) : Option (List Char) × List Char :=
  match xs.reverse.span (· ≠ c) with
  | (back, []) => (none, back.reverse)
  | (back, _ :: front) => (some front.reverse, back.reverse)

/-- A part that follows `c`, if it is there. -/
def behind (c : Char) : Option (List Char) → List Char
  | none => []
  | some part => c :: part

/-- A part that `c` follows, if it is there. -/
def inFront (c : Char) : Option (List Char) → List Char
  | none => []
  | some part => part ++ [c]

theorem span_append_eq (p : Char → Bool) (xs : List Char) :
    (xs.span p).1 ++ (xs.span p).2 = xs := by
  rw [List.span_eq_takeWhile_dropWhile]
  exact List.takeWhile_append_dropWhile

/-- The rest after a span begins with the character that has stopped it. -/
theorem span_rest {p : Char → Bool} {xs front back : List Char} {d : Char}
    (h : xs.span p = (front, d :: back)) : p d = false := by
  rw [List.span_eq_takeWhile_dropWhile] at h
  have hdrop : xs.dropWhile p = d :: back := congrArg Prod.snd h
  have hhead := List.head_dropWhile_not p (by rw [hdrop]; exact List.cons_ne_nil d back)
  simpa only [hdrop, List.head_cons] using hhead

theorem cutFirst_append (c : Char) (xs : List Char) :
    (cutFirst c xs).1 ++ behind c (cutFirst c xs).2 = xs := by
  have hspan := span_append_eq (· ≠ c) xs
  unfold cutFirst
  split
  · next front heq =>
    rw [heq] at hspan
    exact hspan
  · next front d back heq =>
    have hd : d = c := by simpa using span_rest heq
    rw [heq, hd] at hspan
    exact hspan

theorem cutFirst_of_notMem {c : Char} {xs : List Char} (h : c ∉ xs) :
    cutFirst c xs = (xs, none) := by
  unfold cutFirst
  rw [span_of_notMem h]

theorem notMem_cutFirst (c : Char) (xs : List Char) : c ∉ (cutFirst c xs).1 := by
  have hfront : c ∉ (xs.span (· ≠ c)).1 := by
    rw [List.span_eq_takeWhile_dropWhile]
    intro hmem
    have hall := List.all_takeWhile (p := fun x => decide (x ≠ c)) (l := xs)
    exact absurd rfl (of_decide_eq_true (List.all_eq_true.mp hall c hmem))
  unfold cutFirst
  split
  · next front heq =>
    rw [heq] at hfront
    exact hfront
  · next front d back heq =>
    rw [heq] at hfront
    exact hfront

theorem span_prepend {p : Char → Bool} {xs : List Char} (h : ∀ c ∈ xs, p c = true)
    (ys : List Char) : (xs ++ ys).span p = (xs ++ (ys.span p).1, (ys.span p).2) := by
  rw [List.span_eq_takeWhile_dropWhile, List.span_eq_takeWhile_dropWhile,
    List.takeWhile_append_of_pos h, List.dropWhile_append_of_pos h]

theorem cutFirst_prepend {c : Char} {xs : List Char} (h : c ∉ xs) (ys : List Char) :
    cutFirst c (xs ++ ys) = (xs ++ (cutFirst c ys).1, (cutFirst c ys).2) := by
  have hne : ∀ d ∈ xs, decide (d ≠ c) = true := fun d hd =>
    decide_eq_true fun heq => h (heq ▸ hd)
  unfold cutFirst
  rw [span_prepend hne]
  cases ys.span (· ≠ c) with
  | mk front back =>
    cases back with
    | nil => rfl
    | cons d back => rfl

theorem cutLast_append (c : Char) (xs : List Char) :
    inFront c (cutLast c xs).1 ++ (cutLast c xs).2 = xs := by
  have hspan := span_append_eq (· ≠ c) xs.reverse
  unfold cutLast
  split
  · next back heq =>
    rw [heq] at hspan
    have hback : back = xs.reverse := (List.append_nil back).symm.trans hspan
    rw [hback]
    exact List.reverse_reverse xs
  · next back d front heq =>
    have hd : d = c := by simpa using span_rest heq
    rw [heq, hd] at hspan
    have hreverse := congrArg List.reverse hspan
    rw [List.reverse_append, List.reverse_cons, List.reverse_reverse] at hreverse
    exact hreverse

/-! ## Splitting -/

/-- Host and port. A colon within brackets belongs to the host. -/
def splitPort (xs : List Char) : List Char × Option (List Char) :=
  match cutLast ':' xs with
  | (none, _) => (xs, none)
  | (some host, port) => if ']' ∈ port then (xs, none) else (host, some port)

def splitAuthority (xs : List Char) : Authority :=
  let (userinfo, hostport) := cutLast '@' xs
  let (host, port) := splitPort hostport
  ⟨userinfo, host, port⟩

/-- The scheme, and the rest. -/
def splitScheme (xs : List Char) : Option (List Char) × List Char :=
  match xs.span (fun c => c ≠ ':' ∧ c ≠ '/') with
  | (d :: scheme, ':' :: rest) => (some (d :: scheme), rest)
  | _ => (none, xs)

/-- The text of the authority, and the path. -/
def cutAuthority : List Char → Option (List Char) × List Char
  | '/' :: '/' :: rest => (some (rest.span (· ≠ '/')).1, (rest.span (· ≠ '/')).2)
  | xs => (none, xs)

theorem cutAuthority_rooted (xs : List Char) (h : (cutAuthority xs).1 ≠ none) :
    (cutAuthority xs).2 = [] ∨ ∃ rest, (cutAuthority xs).2 = '/' :: rest := by
  unfold cutAuthority at h ⊢
  split at h
  · next rest =>
    cases hspan : rest.span (· ≠ '/') with
    | mk front back =>
    cases back with
    | nil => exact Or.inl rfl
    | cons d back =>
      have hd : d = '/' := by simpa using span_rest hspan
      rw [hd]
      exact Or.inr ⟨back, rfl⟩
  · exact absurd rfl h

def split (url : List Char) : Uri :=
  let unfragmented := cutFirst '#' url
  let unqueried := cutFirst '?' unfragmented.1
  let unschemed := splitScheme unqueried.1
  let hierarchical := cutAuthority unschemed.2
  { scheme := unschemed.1
    authority := hierarchical.1.map splitAuthority
    path := hierarchical.2
    query := unqueried.2
    fragment := unfragmented.2
    rooted := fun h => cutAuthority_rooted _ fun hnone => h (by rw [hnone]; rfl) }

/-- Up to a scheme and its colon nothing is a delimiter. -/
theorem splitScheme_append_colon {scheme : List Char} (hne : scheme ≠ [])
    (hscheme : ∀ c ∈ scheme, c ≠ ':' ∧ c ≠ '/') (rest : List Char) :
    splitScheme (scheme ++ ':' :: rest) = (some scheme, rest) := by
  have hspan : (scheme ++ ':' :: rest).span (fun c => decide (c ≠ ':' ∧ c ≠ '/')) =
      (scheme, ':' :: rest) := by
    rw [span_prepend fun c hc => decide_eq_true (hscheme c hc)]
    simp [List.span_eq_takeWhile_dropWhile]
  unfold splitScheme
  rw [hspan]
  obtain ⟨c, cs, rfl⟩ := List.exists_cons_of_ne_nil hne
  rfl

/-- Behind a scheme and a host: what follows goes to the authority up to the first `/`. -/
theorem split_behind_host {scheme host : List Char} (hne : scheme ≠ [])
    (hscheme : ∀ c ∈ scheme, c ∉ [':', '/', '?', '#']) (hhost : ∀ c ∈ host, c ∉ ['/', '?', '#'])
    (rest : List Char) {front : List Char} {query fragment : Option (List Char)}
    (hfragment : (cutFirst '#' rest).2 = fragment)
    (hquery : cutFirst '?' (cutFirst '#' rest).1 = (front, query)) :
    let uri := split (scheme ++ ':' :: '/' :: '/' :: (host ++ rest))
    uri.scheme = some scheme ∧
      uri.authority = some (splitAuthority (host ++ (front.span (· ≠ '/')).1)) ∧
      uri.path = (front.span (· ≠ '/')).2 ∧ uri.query = query ∧ uri.fragment = fragment := by
  have hclean : ∀ c, c = '#' ∨ c = '?' → c ∉ scheme ++ ':' :: '/' :: '/' :: host := by
    rintro c hc hmem
    rcases List.mem_append.mp hmem with hmem | hmem
    · exact hscheme c hmem (by rcases hc with rfl | rfl <;> simp)
    · simp only [List.mem_cons] at hmem
      rcases hc with rfl | rfl
      · exact hhost _ (by simpa using hmem) (by simp)
      · exact hhost _ (by simpa using hmem) (by simp)
  have htext : scheme ++ ':' :: '/' :: '/' :: (host ++ rest) =
      (scheme ++ ':' :: '/' :: '/' :: host) ++ rest := by simp
  have hhier : splitScheme (scheme ++ ':' :: '/' :: '/' :: host ++ front) =
      (some scheme, '/' :: '/' :: (host ++ front)) := by
    have := splitScheme_append_colon hne (fun c hc => ⟨fun heq => hscheme c hc (by simp [heq]),
      fun heq => hscheme c hc (by simp [heq])⟩) ('/' :: '/' :: (host ++ front))
    simpa using this
  have hauthority : cutAuthority ('/' :: '/' :: (host ++ front)) =
      (some (host ++ (front.span (· ≠ '/')).1), (front.span (· ≠ '/')).2) := by
    have hslash : ∀ c ∈ host, decide (c ≠ '/') = true := fun c hc =>
      decide_eq_true fun heq => hhost c hc (by simp [heq])
    show (some ((host ++ front).span (· ≠ '/')).1, ((host ++ front).span (· ≠ '/')).2) = _
    rw [span_prepend hslash]
  unfold split
  dsimp only
  rw [htext, cutFirst_prepend (hclean '#' (Or.inl rfl)), cutFirst_prepend (hclean '?' (Or.inr rfl)),
    hquery]
  dsimp only
  rw [hhier]
  dsimp only
  rw [hauthority]
  exact ⟨rfl, rfl, rfl, rfl, hfragment⟩
/-! ## Putting them together -/

def Authority.recompose (a : Authority) : List Char :=
  inFront '@' a.userinfo ++ (a.host ++ behind ':' a.port)

/-- An authority behind its two slashes, if it is there. -/
def behindSlashes : Option Authority → List Char
  | none => []
  | some a => '/' :: '/' :: a.recompose

def recompose (u : Uri) : List Char :=
  inFront ':' u.scheme ++ (behindSlashes u.authority ++ u.path) ++ behind '?' u.query ++
    behind '#' u.fragment

theorem splitPort_append (xs : List Char) :
    (splitPort xs).1 ++ behind ':' (splitPort xs).2 = xs := by
  have hcut := cutLast_append ':' xs
  unfold splitPort
  split
  · exact List.append_nil xs
  · next host port heq =>
    split
    · exact List.append_nil xs
    · rw [heq] at hcut
      dsimp only [inFront] at hcut
      rw [List.append_assoc] at hcut
      exact hcut

theorem recompose_splitAuthority (xs : List Char) : (splitAuthority xs).recompose = xs := by
  unfold splitAuthority Authority.recompose
  dsimp only
  rw [splitPort_append, cutLast_append]

theorem splitScheme_append (xs : List Char) :
    inFront ':' (splitScheme xs).1 ++ (splitScheme xs).2 = xs := by
  have hspan := span_append_eq (fun c => c ≠ ':' ∧ c ≠ '/') xs
  unfold splitScheme
  split
  · next d scheme rest heq =>
    rw [heq] at hspan
    dsimp only [inFront]
    rw [List.append_assoc]
    exact hspan
  · rfl

theorem cutAuthority_append (xs : List Char) :
    behindSlashes ((cutAuthority xs).1.map splitAuthority) ++ (cutAuthority xs).2 = xs := by
  unfold cutAuthority
  split
  · next rest =>
    dsimp only [Option.map_some, behindSlashes]
    rw [recompose_splitAuthority, List.cons_append, List.cons_append, span_append_eq]
  · rfl

/-- The parts are all of the text. -/
theorem recompose_split (url : List Char) : (split url).recompose = url := by
  unfold recompose split
  dsimp only
  rw [cutAuthority_append, splitScheme_append, cutFirst_append, cutFirst_append]

/-! ## Searching -/

def Authority.parts (a : Authority) : List (List Char) :=
  a.userinfo.toList ++ (a.host :: a.port.toList)

/-- The texts of the parts. -/
def parts (u : Uri) : List (List Char) :=
  u.scheme.toList ++ (u.authority.toList.flatMap Authority.parts ++ [u.path]) ++ u.query.toList ++
    u.fragment.toList

section

variable {p : List Char} {c : Char}

/-- A text without `c` does not reach over one. -/
theorem infix_sep_iff (hc : c ∉ p) (xs ys : List Char) :
    p <:+: xs ++ c :: ys ↔ p <:+: xs ∨ p <:+: ys := by
  constructor
  · intro h
    rcases List.infix_append_iff.mp h with hxs | hys | ⟨front, back, rfl, hfront, hback⟩
    · exact Or.inl hxs
    · rcases List.infix_cons_iff.mp hys with hprefix | hys
      · cases p with
        | nil => exact Or.inl (List.nil_infix)
        | cons d p =>
          have hd := (List.cons_prefix_cons.mp hprefix).1
          exact absurd (hd ▸ List.mem_cons_self) hc
      · exact Or.inr hys
    · cases back with
      | nil =>
        rw [List.append_nil]
        exact Or.inl hfront.isInfix
      | cons d back =>
        have hd := (List.cons_prefix_cons.mp hback).1
        exact absurd (List.mem_append_right _ (hd ▸ List.mem_cons_self)) hc
  · rintro (hxs | hys)
    · exact List.infix_append_of_infix_left hxs
    · exact List.infix_append_of_infix_right (List.infix_cons hys)

theorem infix_cons_iff_of_notMem (hc : c ∉ p) (ys : List Char) :
    p <:+: c :: ys ↔ p <:+: ys := by
  refine ⟨fun h => ?_, fun h => List.infix_cons h⟩
  rcases (infix_sep_iff hc [] ys).mp h with hnil | hys
  · rw [List.infix_nil.mp hnil]
    exact List.nil_infix
  · exact hys

theorem infix_behind_iff (hc : c ∉ p) (xs : List Char) (part : Option (List Char)) :
    p <:+: xs ++ behind c part ↔ p <:+: xs ∨ ∃ ys ∈ part.toList, p <:+: ys := by
  cases part with
  | none => simp [behind]
  | some ys => simp [behind, infix_sep_iff hc]

theorem infix_inFront_iff (hc : c ∉ p) (part : Option (List Char)) (ys : List Char) :
    p <:+: inFront c part ++ ys ↔ (∃ xs ∈ part.toList, p <:+: xs) ∨ p <:+: ys := by
  cases part with
  | none => simp [inFront]
  | some xs => simp [inFront, infix_sep_iff hc]

end

/-- The characters that separate the parts. -/
def delimiters : List Char := [':', '/', '?', '#', '@']

theorem exists_mem_append_iff {α : Type} {P : α → Prop} {xs ys : List α} :
    (∃ x ∈ xs ++ ys, P x) ↔ (∃ x ∈ xs, P x) ∨ ∃ x ∈ ys, P x := by
  simp only [List.mem_append, or_and_right, exists_or]

section

variable {p : List Char} (hp : ∀ c ∈ delimiters, c ∉ p)

include hp

theorem infix_authority_iff (a : Authority) :
    p <:+: a.recompose ↔ ∃ part ∈ a.parts, p <:+: part := by
  unfold Authority.recompose Authority.parts
  rw [infix_inFront_iff (hp '@' (by decide)), infix_behind_iff (hp ':' (by decide)),
    exists_mem_append_iff, List.exists_mem_cons_iff]

theorem infix_hierarchical_iff (u : Uri) :
    p <:+: behindSlashes u.authority ++ u.path ↔
      (∃ part ∈ u.authority.toList.flatMap Authority.parts, p <:+: part) ∨ p <:+: u.path := by
  have hslash : '/' ∉ p := hp '/' (by decide)
  have hrooted := u.rooted
  cases hauthority : u.authority with
  | none => simp [behindSlashes]
  | some a =>
    rw [hauthority] at hrooted
    simp only [behindSlashes, List.cons_append, Option.toList_some, List.flatMap_singleton]
    rw [infix_cons_iff_of_notMem hslash, infix_cons_iff_of_notMem hslash, ← infix_authority_iff hp]
    rcases hrooted (by simp) with hpath | ⟨rest, hpath⟩
    · rw [hpath, List.append_nil, List.infix_nil]
      refine ⟨Or.inl, fun h => h.elim id fun hnil => ?_⟩
      rw [hnil]
      exact List.nil_infix
    · rw [hpath, infix_sep_iff hslash, infix_cons_iff_of_notMem hslash]

theorem infix_recompose_iff (u : Uri) : p <:+: u.recompose ↔ ∃ part ∈ u.parts, p <:+: part := by
  unfold recompose parts
  rw [infix_behind_iff (hp '#' (by decide)), infix_behind_iff (hp '?' (by decide)),
    infix_inFront_iff (hp ':' (by decide)), infix_hierarchical_iff hp]
  simp only [exists_mem_append_iff, List.mem_singleton, exists_eq_left]

/-- A text without delimiters stands in a URI where it stands in one of the parts. -/
theorem infix_split_iff (url : List Char) :
    p <:+: url ↔ ∃ part ∈ (split url).parts, p <:+: part := by
  rw [← infix_recompose_iff hp, recompose_split]

end

end Uri

end Mik.Lib
