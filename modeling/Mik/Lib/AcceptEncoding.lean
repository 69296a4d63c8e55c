/-
  `Accept-Encoding` as RFC 9110 has it: codings separated by commas, each with a weight between 0
  and 1 of at most three decimals, which is 1 where none is given. Weights are kept in thousandths.

  An element that is no coding with a weight is skipped, as is an empty one. Codings and the `q` are
  compared without their case.
-/
import Mik.Lib.HostName
import Mik.Lib.Uri

namespace Mik.Lib.AcceptEncoding

/-- Optional whitespace. -/
def isOws (c : Char) : Bool := c = ' ' ∨ c = '\t'

def trimOws (cs : List Char) : List Char :=
  ((cs.dropWhile isOws).reverse.dropWhile isOws).reverse

/-- The decimals behind a leading digit, as thousandths. -/
def decimals : List Char → Option Nat
  | [] => some 0
  | '.' :: ds =>
    if ds.length ≤ 3 ∧ ds.all Char.isDigit then
      some (((ds ++ ['0', '0', '0']).take 3).foldl (fun n c => 10 * n + (c.toNat - '0'.toNat)) 0)
    else none
  | _ => none

/-- A weight in thousandths. -/
def qvalue : List Char → Option Nat
  | '0' :: rest => decimals rest
  | '1' :: rest => (decimals rest).bind fun n => if n = 0 then some 1000 else none
  | _ => none

/-- The characters of a token, besides letters and digits. -/
def tokenMarks : List Char := "!#$%&'*+-.^_`|~".toList

def isToken (cs : List Char) : Bool :=
  cs ≠ [] && cs.all fun c => c.isAlphanum || c ∈ tokenMarks

structure Entry where
  coding : String
  weight : Nat
  deriving DecidableEq, Repr

/-- The weight behind a semicolon. -/
def weightOf (cs : List Char) : Option Nat :=
  match (trimOws cs).map Char.toLower with
  | 'q' :: '=' :: value => qvalue value
  | _ => none

/-- An element of the list as a coding with its weight. -/
def entryOf (element : List Char) : Option Entry :=
  let (front, behind) := Uri.cutFirst ';' element
  let coding := (trimOws front).map Char.toLower
  if isToken coding then
    match behind with
    | none => some ⟨String.ofList coding, 1000⟩
    | some params => (weightOf params).map fun weight => ⟨String.ofList coding, weight⟩
  else none

def elements (value : String) : List (List Char) := value.toList.splitOn ','

def entries (value : String) : List Entry := (elements value).filterMap entryOf

/-- Gzip may be sent: under one of its names or the asterisk it has a weight, and it is not refused
    by name. -/
structure AcceptsGzip (value : String) : Prop where
  listed : ∃ e ∈ entries value, e.coding ∈ ["gzip", "x-gzip", "*"] ∧ 0 < e.weight
  notRefused : ∀ e ∈ entries value, e.coding = "gzip" → e.weight ≠ 0

instance (value : String) : Decidable (AcceptsGzip value) :=
  decidable_of_iff ((∃ e ∈ entries value, e.coding ∈ ["gzip", "x-gzip", "*"] ∧ 0 < e.weight) ∧
    ∀ e ∈ entries value, e.coding = "gzip" → e.weight ≠ 0)
    ⟨fun h => ⟨h.1, h.2⟩, fun h => ⟨h.listed, h.notRefused⟩⟩

/-- Joined by a separator, lists hold a text without it exactly where one of them does. -/
theorem infix_intercalate_iff {needle : List Char} {c : Char} (hc : c ∉ needle)
    (pieces : List (List Char)) (hne : pieces ≠ []) :
    needle <:+: List.intercalate [c] pieces ↔ ∃ piece ∈ pieces, needle <:+: piece := by
  induction pieces with
  | nil => exact absurd rfl hne
  | cons piece pieces ih =>
    cases pieces with
    | nil => simp
    | cons next pieces =>
      have hjoin : List.intercalate [c] (piece :: next :: pieces) =
          piece ++ c :: List.intercalate [c] (next :: pieces) := by
        rw [List.intercalate_cons_cons, List.append_assoc, List.singleton_append]
      rw [hjoin, Uri.infix_sep_iff hc, ih (List.cons_ne_nil _ _)]
      simp only [List.mem_cons, or_and_right, exists_or, exists_eq_left]

/-- A text without a comma stands in a list exactly where it stands in one of its elements. -/
theorem infix_iff_elements {needle : List Char} (hc : ',' ∉ needle) (value : String) :
    needle <:+: value.toList ↔ ∃ element ∈ elements value, needle <:+: element := by
  unfold elements
  rw [← infix_intercalate_iff hc _ (List.splitOn_ne_nil _ _)]
  exact iff_of_eq (congrArg (needle <:+: ·) (List.intercalate_splitOn ',').symm)

example : entries "gzip;q=0, X-Gzip ; Q=0.25,br;level=9,*" =
    [⟨"gzip", 0⟩, ⟨"x-gzip", 250⟩, ⟨"*", 1000⟩] := by decide

end Mik.Lib.AcceptEncoding
