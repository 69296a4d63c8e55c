/-
  W3C trace context (`src/runtime/trace_context.rs`): reading and writing a `traceparent` header.

  `parse` cuts the text at the dashes, tests lengths in bytes and digits in characters. Hexadecimal
  digits have one byte each and are no dashes, so this is the grammar of the header
  (`parse_eq_some_iff`). What it reads is in lower case and so in the form that is written
  (`wellFormed_of_parse`), and what is written in that form is read as it was (`parse_toTraceparent`).

  `to_lowercase` is applied to hexadecimal digits only, where it is the one of ASCII. A fresh context
  is made of two random UUIDs.
-/
import Mik.Lib.HexText
import Mik.Runtime.HeaderText

namespace Mik.Runtime

open Mik.Lib

structure TraceContext where
  traceId : String
  parentId : String
  sampled : Bool
  deriving DecidableEq, Repr

/-! ## Reading and writing -/

def isValidHex (s : String) : Bool := s.toList.all isAsciiHexdigit

def isAllZeros (s : String) : Bool := s.toList.all (· = '0')

/-- `u8::from_str_radix(_, 16)`, which allows a sign in front. -/
def u8FromStrRadix16 (s : String) : Option Nat :=
  let digits := match s.toList with
    | '+' :: rest => rest
    | cs => cs
  if digits = [] then none
  else (digitsValue digits).bind fun n => if n < 0x100 then some n else none

namespace TraceContext

def parse (traceparent : String) : Option TraceContext :=
  match splitChar '-' traceparent with
  | [version, traceId, parentId, traceFlags] =>
    if version ≠ "00" then none
    else if traceId.utf8ByteSize ≠ 32 || !isValidHex traceId || isAllZeros traceId then none
    else if parentId.utf8ByteSize ≠ 16 || !isValidHex parentId || isAllZeros parentId then none
    else if traceFlags.utf8ByteSize ≠ 2 || !isValidHex traceFlags then none
    else
      (u8FromStrRadix16 traceFlags).map fun flags =>
        ⟨toAsciiLowercase traceId, toAsciiLowercase parentId, flags.testBit 0⟩
  | _ => none

def toTraceparent (c : TraceContext) : String :=
  let flags := if c.sampled then 1 else 0
  "00-" ++ c.traceId ++ "-" ++ c.parentId ++ "-" ++ String.ofList (hexByte flags)

end TraceContext

/-! ## The grammar -/

/-- `s` is a `traceparent` with the trace id `t`, the parent id `p` and the flags `f`. -/
structure Traceparent (s t p f : String) : Prop where
  text : s = "00-" ++ t ++ "-" ++ p ++ "-" ++ f
  traceId : HexOf 32 t
  traceId_ne : ∃ c ∈ t.toList, c ≠ '0'
  parentId : HexOf 16 p
  parentId_ne : ∃ c ∈ p.toList, c ≠ '0'
  flags : HexOf 2 f

/-- The context that these fields write. -/
def contextOf (t p f : String) : TraceContext :=
  ⟨toAsciiLowercase t, toAsciiLowercase p, ((digitsValue f.toList).getD 0).testBit 0⟩

/-- A context in the form in which it is written. -/
structure TraceContext.WellFormed (c : TraceContext) : Prop where
  traceId : HexOf 32 c.traceId
  traceId_lower : toAsciiLowercase c.traceId = c.traceId
  traceId_ne : ∃ d ∈ c.traceId.toList, d ≠ '0'
  parentId : HexOf 16 c.parentId
  parentId_lower : toAsciiLowercase c.parentId = c.parentId
  parentId_ne : ∃ d ∈ c.parentId.toList, d ≠ '0'

theorem isAllZeros_eq_false_iff {s : String} :
    isAllZeros s = false ↔ ∃ c ∈ s.toList, c ≠ '0' := by
  unfold isAllZeros
  rw [List.all_eq_false]
  simp

/-- An identifier passes its checks exactly when it is hexadecimal of its length and not zero. -/
theorem checked_iff {n : Nat} {s : String} :
    (s.utf8ByteSize ≠ n || !isValidHex s || isAllZeros s) = false ↔
      HexOf n s ∧ ∃ c ∈ s.toList, c ≠ '0' := by
  rw [Bool.or_eq_false_iff, Bool.or_eq_false_iff, isAllZeros_eq_false_iff, hexOf_iff,
    decide_eq_false_iff_not, not_not, Bool.not_eq_false']
  exact Iff.rfl

theorem flags_checked_iff {n : Nat} {s : String} :
    (s.utf8ByteSize ≠ n || !isValidHex s) = false ↔ HexOf n s := by
  rw [Bool.or_eq_false_iff, hexOf_iff, decide_eq_false_iff_not, not_not, Bool.not_eq_false']
  exact Iff.rfl

/-- Two digits write a byte. -/
theorem u8FromStrRadix16_of_hex {s : String} (h : HexOf 2 s) :
    ∃ n, u8FromStrRadix16 s = some n ∧ digitsValue s.toList = some n := by
  obtain ⟨c, d, hcd⟩ := List.length_eq_two.mp h.length
  have hc : isAsciiHexdigit c = true := h.digits c (by rw [hcd]; exact List.mem_cons_self)
  have hd : isAsciiHexdigit d = true :=
    h.digits d (by rw [hcd]; exact List.mem_cons_of_mem _ List.mem_cons_self)
  obtain ⟨x, hx⟩ := Option.isSome_iff_exists.mp hc
  obtain ⟨y, hy⟩ := Option.isSome_iff_exists.mp hd
  have hxlt := toDigit16_lt hx
  have hylt := toDigit16_lt hy
  have hvalue : digitsValue [c, d] = some (16 * x + y) := by
    simp [digitsValue, hx, hy]
  have hsign : c ≠ '+' := by
    rintro rfl
    exact absurd hc (by decide)
  refine ⟨16 * x + y, ?_, by rw [hcd, hvalue]⟩
  unfold u8FromStrRadix16
  have hdigits : (match s.toList with
    | '+' :: rest => rest
    | cs => cs) = [c, d] := by
    rw [hcd]
    split
    · next rest heq => exact absurd (List.cons.inj heq).1 hsign
    · rfl
  dsimp only
  rw [hdigits, if_neg (List.cons_ne_nil _ _), hvalue, Option.bind_some, if_pos (by omega)]

theorem dash_notMem {n : Nat} {s : String} (h : HexOf n s) : '-' ∉ s.toList :=
  h.notMem (by decide)

/-- A text in four parts is cut at its three dashes. -/
theorem splitChar_four {t p f : String} (ht : '-' ∉ t.toList) (hp : '-' ∉ p.toList)
    (hf : '-' ∉ f.toList) :
    splitChar '-' ("00-" ++ t ++ "-" ++ p ++ "-" ++ f) = ["00", t, p, f] := by
  have htext : ("00-" ++ t ++ "-" ++ p ++ "-" ++ f).toList =
      "00".toList ++ '-' :: (t.toList ++ '-' :: (p.toList ++ '-' :: f.toList)) := by
    simp [String.toList_append]
  unfold splitChar
  rw [htext, List.splitOn_append_cons_self, List.splitOn_append_cons_self,
    List.splitOn_append_cons_self, List.splitOn_eq_singleton ht, List.splitOn_eq_singleton hp,
    List.splitOn_eq_singleton hf, List.splitOn_eq_singleton (by decide)]
  simp [String.ofList_toList]

/-- The parts of a text, put together with dashes, are the text. -/
theorem eq_of_splitChar {s v t p f : String} (h : splitChar '-' s = [v, t, p, f]) :
    s = v ++ "-" ++ t ++ "-" ++ p ++ "-" ++ f := by
  have hparts : s.toList.splitOn '-' = [v.toList, t.toList, p.toList, f.toList] := by
    have hmap := congrArg (List.map String.toList) h
    unfold splitChar at hmap
    rw [List.map_map] at hmap
    have hid : String.toList ∘ String.ofList = id := by
      funext cs
      exact String.toList_ofList
    rw [hid, List.map_id] at hmap
    exact hmap
  have hjoin := @List.intercalate_splitOn _ s.toList _ _ '-'
  rw [hparts] at hjoin
  refine String.toList_inj.mp ?_
  rw [← hjoin]
  simp [String.toList_append]

namespace TraceContext

theorem parse_of_traceparent {s t p f : String} (h : Traceparent s t p f) :
    parse s = some (contextOf t p f) := by
  obtain ⟨n, hn, hvalue⟩ := u8FromStrRadix16_of_hex h.flags
  unfold parse
  rw [h.text, splitChar_four (dash_notMem h.traceId) (dash_notMem h.parentId)
    (dash_notMem h.flags)]
  dsimp only
  rw [if_neg (by decide), checked_iff.mpr ⟨h.traceId, h.traceId_ne⟩,
    checked_iff.mpr ⟨h.parentId, h.parentId_ne⟩, flags_checked_iff.mpr h.flags, hn]
  unfold contextOf
  rw [hvalue]
  rfl

/-- What is read is what the grammar says. -/
theorem parse_eq_some_iff {s : String} {c : TraceContext} :
    parse s = some c ↔ ∃ t p f, Traceparent s t p f ∧ c = contextOf t p f := by
  constructor
  · intro h
    have hread := h
    unfold parse at h
    split at h
    · next v t p f hsplit =>
      split at h
      · cases h
      next hv =>
      split at h
      · cases h
      next ht =>
      split at h
      · cases h
      next hp =>
      split at h
      · cases h
      next hf =>
      rw [Bool.not_eq_true] at ht hp hf
      have hversion : v = "00" := not_not.mp hv
      have htext := eq_of_splitChar hsplit
      rw [hversion] at htext
      obtain ⟨htrace, htrace'⟩ := checked_iff.mp ht
      obtain ⟨hparent, hparent'⟩ := checked_iff.mp hp
      have hgrammar : Traceparent s t p f :=
        ⟨htext, htrace, htrace', hparent, hparent', flags_checked_iff.mp hf⟩
      rw [parse_of_traceparent hgrammar] at hread
      exact ⟨t, p, f, hgrammar, (Option.some.inj hread).symm⟩
    · cases h
  · rintro ⟨t, p, f, h, rfl⟩
    exact parse_of_traceparent h

theorem toAsciiLowercase_ne {s : String} (h : ∃ c ∈ s.toList, c ≠ '0') :
    ∃ c ∈ (toAsciiLowercase s).toList, c ≠ '0' := by
  obtain ⟨c, hc, hne⟩ := h
  refine ⟨c.toLower, ?_, fun heq => hne ((toLower_eq_iff (by decide)).mp heq)⟩
  rw [toList_toAsciiLowercase]
  exact List.mem_map_of_mem hc

theorem wellFormed_contextOf {s t p f : String} (h : Traceparent s t p f) :
    (contextOf t p f).WellFormed where
  traceId := h.traceId.toAsciiLowercase
  traceId_lower := toAsciiLowercase_idem t
  traceId_ne := toAsciiLowercase_ne h.traceId_ne
  parentId := h.parentId.toAsciiLowercase
  parentId_lower := toAsciiLowercase_idem p
  parentId_ne := toAsciiLowercase_ne h.parentId_ne

/-- What is read is in the form in which it is written. -/
theorem wellFormed_of_parse {s : String} {c : TraceContext} (h : parse s = some c) :
    c.WellFormed := by
  obtain ⟨t, p, f, hgrammar, rfl⟩ := parse_eq_some_iff.mp h
  exact wellFormed_contextOf hgrammar

/-- What is written in that form is read as it was. -/
theorem parse_toTraceparent {c : TraceContext} (h : c.WellFormed) :
    parse c.toTraceparent = some c := by
  obtain ⟨traceId, parentId, sampled⟩ := c
  have hgrammar : Traceparent (toTraceparent ⟨traceId, parentId, sampled⟩) traceId parentId
      (String.ofList (hexByte (if sampled then 1 else 0))) :=
    { text := rfl
      traceId := h.traceId
      traceId_ne := h.traceId_ne
      parentId := h.parentId
      parentId_ne := h.parentId_ne
      flags := by cases sampled <;> decide }
  rw [parse_of_traceparent hgrammar]
  have hbit : ((digitsValue (String.ofList (hexByte (if sampled then 1 else 0))).toList).getD
      0).testBit 0 = sampled := by
    cases sampled <;> decide
  unfold contextOf
  rw [hbit, h.traceId_lower, h.parentId_lower]

end TraceContext

/-- The codec of `traceparent`: what is read are the texts of the grammar, with the lowered
    identifiers and the lowest bit of the flags; what is written is read as it was; and what was read
    and written is read again as the same. -/
theorem traceparent_codec (s : String) (c : TraceContext) :
    ((TraceContext.parse s).isSome = true ↔ ∃ t p f, Traceparent s t p f) ∧
      (∀ t p f, Traceparent s t p f → TraceContext.parse s = some (contextOf t p f)) ∧
      (c.WellFormed → TraceContext.parse c.toTraceparent = some c) ∧
      (TraceContext.parse s = some c → TraceContext.parse c.toTraceparent = some c) := by
  refine ⟨?_, fun t p f => TraceContext.parse_of_traceparent, TraceContext.parse_toTraceparent,
    fun h => TraceContext.parse_toTraceparent (TraceContext.wellFormed_of_parse h)⟩
  rw [Option.isSome_iff_exists]
  constructor
  · rintro ⟨c, hc⟩
    obtain ⟨t, p, f, h, -⟩ := TraceContext.parse_eq_some_iff.mp hc
    exact ⟨t, p, f, h⟩
  · rintro ⟨t, p, f, h⟩
    exact ⟨_, TraceContext.parse_of_traceparent h⟩

example : TraceContext.parse "00-4BF92F3577B34DA6A3CE929D0E0E4736-00f067aa0ba902b7-03" =
    some ⟨"4bf92f3577b34da6a3ce929d0e0e4736", "00f067aa0ba902b7", true⟩ := by decide

end Mik.Runtime
