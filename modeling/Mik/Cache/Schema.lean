/-
  The schema cache (`src/cache/schema.rs`).

  A schema is kept in a file that is named after the hash of the module path followed by the
  content. Nothing says where the path ends, so all pairs with one concatenation share a file, and
  what is read back for one of them is the content of the last one put (`get_filesAfter`).

  BLAKE3 is a parameter, injective on the bytes it is given. The file system may let every step of
  a put fail; a write that fails may leave the beginning of the content in the temporary file.
-/
import Mik.Lib.Json
import Mik.Runtime.TracePropagation

namespace Mik.Cache

open Mik.Lib Mik.Runtime

/-- The files of the cache directory, by name. -/
abbrev Files := String → Option (List UInt8)

def Files.set (files : Files) (name : String) (content : Option (List UInt8)) : Files :=
  fun name' => if name' = name then content else files name'

/-- How the file system answers a put. -/
structure PutIo where
  createDirFails : Bool
  /-- A write that fails leaves the temporary file as it was, or with so many bytes. -/
  writeFails : Option (Option Nat)
  renameFails : Bool
  deriving DecidableEq, Repr

section

variable (blake3 : List UInt8 → List UInt8)

def computeKey (modulePath content : String) : String :=
  hexText (blake3 (utf8 modulePath ++ utf8 content))

def tempName (key : String) : String := key ++ ".tmp"

def get (readFails : Bool) (files : Files) (modulePath content : String) : Option String :=
  match files (computeKey blake3 modulePath content) with
  | none => none
  | some bytes => if readFails then none else (decodeRun bytes).map String.ofList

def put (io : PutIo) (files : Files) (modulePath content : String) :
    Except String Unit × Files :=
  if io.createDirFails then (.error "Failed to create schema cache directory", files)
  else
    let key := computeKey blake3 modulePath content
    match io.writeFails with
    | some none => (.error "Failed to write schema cache temp file", files)
    | some (some n) =>
      (.error "Failed to write schema cache temp file",
        files.set (tempName key) (some ((utf8 content).take n)))
    | none =>
      let written := files.set (tempName key) (some (utf8 content))
      if io.renameFails then (.error "Failed to rename schema cache file", written)
      else (.ok (), (written.set key (written (tempName key))).set (tempName key) none)

/-- A call of `put`. -/
structure PutCall where
  io : PutIo
  modulePath : String
  content : String
  deriving DecidableEq, Repr

/-- The files after some puts, on an empty directory. -/
def filesAfter (calls : List PutCall) : Files :=
  run (fun files p => (put blake3 p.io files p.modulePath p.content).2) (fun _ => none) calls

end

/-- The put gets through. -/
def PutCall.stored (p : PutCall) : Bool :=
  !p.io.createDirFails && p.io.writeFails.isNone && !p.io.renameFails

/-- The last pair put whose path and content make up the text together. -/
def lastStored (calls : List PutCall) (text : String) : Option (String × String) :=
  (calls.filter fun p => p.stored && p.modulePath ++ p.content == text).getLast?.map fun p =>
    (p.modulePath, p.content)

/-! ## Keys -/

section

variable {blake3 : List UInt8 → List UInt8}

theorem computeKey_eq_iff (hinj : Function.Injective blake3) {m c m' c' : String} :
    computeKey blake3 m c = computeKey blake3 m' c' ↔ m ++ c = m' ++ c' := by
  unfold computeKey
  rw [← utf8_append, ← utf8_append]
  constructor
  · intro h
    exact utf8_injective (hinj (hexText_injective h))
  · intro h
    rw [h]

/-- A key has only digits, and the name of a temporary file a dot. -/
theorem computeKey_ne_tempName (m c key : String) : computeKey blake3 m c ≠ tempName key := by
  intro h
  have hdot : '.' ∈ (computeKey blake3 m c).toList := by
    rw [h]
    unfold tempName
    rw [String.toList_append]
    exact List.mem_append_right _ (by decide)
  exact absurd (hexText_digits hdot).1 (by decide)

/-! ## What is read back -/

/-- A put that gets through writes the file of its key, and no put writes another one but for its
    temporary file. -/
theorem put_file (hinj : Function.Injective blake3) (p : PutCall) (files : Files) (m c : String) :
    (put blake3 p.io files p.modulePath p.content).2 (computeKey blake3 m c)
      = if p.stored = true ∧ p.modulePath ++ p.content = m ++ c then some (utf8 p.content)
        else files (computeKey blake3 m c) := by
  have htemp (key : String) : computeKey blake3 m c ≠ tempName key := computeKey_ne_tempName m c key
  unfold put PutCall.stored
  cases p.io.createDirFails with
  | true => simp
  | false =>
    cases p.io.writeFails with
    | some left =>
      cases left with
      | none => simp
      | some n => simp [Files.set, htemp]
    | none =>
      cases p.io.renameFails with
      | true => simp [Files.set, htemp]
      | false => simp [Files.set, htemp, computeKey_eq_iff hinj, eq_comm]

theorem lastStored_snoc (calls : List PutCall) (p : PutCall) (text : String) :
    lastStored (calls ++ [p]) text
      = if p.stored = true ∧ p.modulePath ++ p.content = text then some (p.modulePath, p.content)
        else lastStored calls text := by
  unfold lastStored
  rw [List.filter_append]
  by_cases h : p.stored = true ∧ p.modulePath ++ p.content = text
  · rw [if_pos h, List.filter_cons_of_pos (by simpa using h)]
    simp
  · rw [if_neg h, List.filter_cons_of_neg (by simpa using h)]
    simp

theorem file_filesAfter (hinj : Function.Injective blake3) (calls : List PutCall) (m c : String) :
    filesAfter blake3 calls (computeKey blake3 m c)
      = (lastStored calls (m ++ c)).map fun p => utf8 p.2 := by
  induction calls using List.reverseRecOn with
  | nil => rfl
  | append_singleton calls p ih =>
    unfold filesAfter at ih ⊢
    rw [run_snoc, put_file hinj, lastStored_snoc, ih]
    split
    · rfl
    · rfl

theorem decodeRun_utf8 (s : String) : (decodeRun (utf8 s)).map String.ofList = some s := by
  unfold decodeRun
  dsimp only
  rw [lossy_utf8, show s.toList.flatMap String.utf8EncodeChar = utf8 s from rfl, if_pos rfl,
    Option.map_some, String.ofList_toList]

/-- What is read back for a pair is the content of the last one put with the same concatenation. -/
theorem get_filesAfter (hinj : Function.Injective blake3) (readFails : Bool)
    (calls : List PutCall) (m c : String) :
    get blake3 readFails (filesAfter blake3 calls) m c
      = if readFails then none else (lastStored calls (m ++ c)).map Prod.snd := by
  unfold get
  rw [file_filesAfter hinj]
  cases lastStored calls (m ++ c) with
  | none => cases readFails with
    | true => rfl
    | false => rfl
  | some p =>
    cases readFails with
    | true => rfl
    | false => exact decodeRun_utf8 p.2

theorem mem_of_lastStored {calls : List PutCall} {text : String} {q : String × String}
    (h : lastStored calls text = some q) :
    q.1 ++ q.2 = text ∧
      ∃ p ∈ calls, p.stored = true ∧ p.modulePath = q.1 ∧ p.content = q.2 := by
  obtain ⟨p, hp, rfl⟩ := Option.map_eq_some_iff.mp h
  obtain ⟨hmem, hkept⟩ := List.mem_filter.mp (List.mem_of_getLast? hp)
  rw [Bool.and_eq_true, beq_iff_eq] at hkept
  exact ⟨hkept.2, p, hmem, hkept.1, rfl, rfl⟩

/-- Whatever is answered for the pair is its own content, which was put for it. -/
def AnswersOwn (blake3 : List UInt8 → List UInt8) (calls : List PutCall) (m c : String) : Prop :=
  ∀ readFails s, get blake3 readFails (filesAfter blake3 calls) m c = some s →
    (∃ p ∈ calls, p.stored = true ∧ p.modulePath = m ∧ p.content = c) ∧ s = c

/-- The cache answers for the pair itself exactly when no other pair with the same concatenation
    has been put since. -/
theorem answersOwn_iff (hinj : Function.Injective blake3) (calls : List PutCall) (m c : String) :
    AnswersOwn blake3 calls m c ↔ ∀ q, lastStored calls (m ++ c) = some q → q = (m, c) := by
  constructor
  · intro h q hq
    have hget := get_filesAfter hinj false calls m c
    rw [hq] at hget
    obtain ⟨-, hcontent⟩ := h false q.2 hget
    have hpath : q.1 = m := by
      have htext := (mem_of_lastStored hq).1
      rw [hcontent] at htext
      exact String.append_left_inj c |>.mp htext
    exact Prod.ext hpath hcontent
  · intro h readFails s hs
    rw [get_filesAfter hinj] at hs
    cases readFails with
    | true => nomatch hs
    | false =>
      obtain ⟨q, hq, rfl⟩ := Option.map_eq_some_iff.mp hs
      obtain rfl := h q hq
      exact ⟨(mem_of_lastStored hq).2, rfl⟩

end

/-- A function that is BLAKE3 on the bytes of `abc`, and injective. -/
def sampleBlake3 (bytes : List UInt8) : List UInt8 :=
  if bytes = [0x61, 0x62, 0x63] then
    [0x64, 0x37, 0xb3, 0xac, 0x38, 0x46, 0x51, 0x33,
      0xff, 0xb6, 0x3b, 0x75, 0x27, 0x3a, 0x8d, 0xb5,
      0x48, 0xc5, 0x58, 0x46, 0x5d, 0x79, 0xdb, 0x03,
      0xfd, 0x35, 0x9c, 0x6c, 0xd5, 0xbd, 0x9d, 0x85]
  else 0 :: bytes

theorem sampleBlake3_injective : Function.Injective sampleBlake3 := by
  intro bytes bytes' h
  unfold sampleBlake3 at h
  split at h
  · split at h
    · simp_all
    · nomatch (List.cons.inj h).1
  · split at h
    · nomatch (List.cons.inj h).1
    · exact (List.cons.inj h).2

/-- A put that succeeds. -/
def PutIo.works : PutIo := ⟨false, none, false⟩

theorem answersOwn_same : AnswersOwn sampleBlake3 [⟨.works, "a", "bc"⟩] "a" "bc" :=
  (answersOwn_iff sampleBlake3_injective [⟨.works, "a", "bc"⟩] "a" "bc").mpr fun q hq => by
    have hlast : lastStored [⟨.works, "a", "bc"⟩] ("a" ++ "bc") = some ("a", "bc") := by decide
    rw [hlast] at hq
    exact (Option.some.inj hq).symm

/-- The path may end anywhere. -/
theorem other_pair_answered :
    get sampleBlake3 false (filesAfter sampleBlake3 [⟨.works, "a", "bc"⟩]) "ab" "c" = some "bc" ∧
      ¬ AnswersOwn sampleBlake3 [⟨.works, "a", "bc"⟩] "ab" "c" := by
  have hget : get sampleBlake3 false (filesAfter sampleBlake3 [⟨.works, "a", "bc"⟩]) "ab" "c"
      = some "bc" := by
    rw [get_filesAfter sampleBlake3_injective]
    decide
  exact ⟨hget, fun h => absurd (h false "bc" hget).2 (by decide)⟩

end Mik.Cache
