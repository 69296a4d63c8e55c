/-
  JSON values the way `serde_json` holds them, JSON Pointers into them, and JSON References.

  An object is the list of its fields in the order of the `BTreeMap` behind it: `insertField`
  replaces the value of a key or puts the field where it belongs, and `Canonical` says that the
  keys of every object increase.

  A local reference `#/…` is resolved by undoing the percent-escapes of the fragment
  (`decodeFragment`), cutting it into tokens (`pointerTokens`) and walking down (`Json.walk`).
  Both decoders are strict: a `%` or a `~` that starts no escape is an error. An underscore ends
  every escape and every run of them, so a pointer can be cut in two there
  (`tokensOf_underscore`).
-/
import Mathlib.Data.List.Induction
import Mathlib.Data.List.Nodup
import Mathlib.Data.String.Basic
import Mik.Lib.Text

namespace Mik.Lib

/-! ## Values -/

inductive Json where
  | null
  | bool (value : Bool)
  | num (text : String)
  | str (text : String)
  | arr (items : List Json)
  | obj (fields : List (String × Json))
  deriving Repr

namespace Json

theorem induction {P : Json → Prop} (null : P .null) (bool : ∀ b, P (.bool b))
    (num : ∀ text, P (.num text)) (str : ∀ text, P (.str text))
    (arr : ∀ items, (∀ item ∈ items, P item) → P (.arr items))
    (obj : ∀ fields, (∀ field ∈ fields, P field.2) → P (.obj fields)) (j : Json) : P j := by
  refine @Json.rec P (fun items => ∀ item ∈ items, P item)
    (fun fields => ∀ field ∈ fields, P field.2) (fun field => P field.2)
    null bool num str arr obj ?_ ?_ ?_ ?_ (fun _ _ h => h) j
  · intro item hitem
    cases hitem
  · intro head tail hhead htail
    exact List.forall_mem_cons.mpr ⟨hhead, htail⟩
  · intro field hfield
    cases hfield
  · intro head tail hhead htail
    exact List.forall_mem_cons.mpr ⟨hhead, htail⟩

/-- `Value::get` with a string index. -/
def get (key : String) : Json → Option Json
  | obj fields => fields.lookup key
  | _ => none

/-- `Value::as_str`. -/
def asStr : Json → Option String
  | str text => some text
  | _ => none

/-- `Value::as_object`, empty for anything else. -/
def fields : Json → List (String × Json)
  | obj fields => fields
  | _ => []

end Json

/-! ## Fields -/

/-- `BTreeMap::insert`. -/
def insertField (key : String) (value : Json) : List (String × Json) → List (String × Json)
  | [] => [(key, value)]
  | field :: rest =>
    if key < field.1 then (key, value) :: field :: rest
    else if key = field.1 then (key, value) :: rest
    else field :: insertField key value rest

/-- The entries of `es` inserted one after the other. -/
def insertFields (es : List (String × Json)) (fields : List (String × Json)) :
    List (String × Json) :=
  es.foldl (fun fields e => insertField e.1 e.2 fields) fields

theorem lookup_cons_if (field : String × Json) (rest : List (String × Json)) (key : String) :
    (field :: rest).lookup key = if key = field.1 then some field.2 else rest.lookup key := by
  rw [List.lookup_cons]
  by_cases h : key = field.1
  · rw [if_pos h, beq_iff_eq.mpr h]
  · rw [if_neg h, beq_eq_false_iff_ne.mpr h]

theorem lookup_insertField (key key' : String) (value : Json) (fields : List (String × Json)) :
    (insertField key value fields).lookup key' =
      if key' = key then some value else fields.lookup key' := by
  induction fields with
  | nil => exact lookup_cons_if (key, value) [] key'
  | cons field rest ih =>
    unfold insertField
    split
    · exact lookup_cons_if (key, value) (field :: rest) key'
    · split
      · next hkey =>
        rw [lookup_cons_if, lookup_cons_if, ← hkey]
        split <;> rfl
      · next hkey =>
        rw [lookup_cons_if, lookup_cons_if, ih]
        by_cases h : key' = field.1
        · rw [if_pos h, if_pos h, if_neg fun he => hkey (he.symm.trans h)]
        · rw [if_neg h, if_neg h]

theorem insertFields_append (es es' fields : List (String × Json)) :
    insertFields (es ++ es') fields = insertFields es' (insertFields es fields) :=
  List.foldl_append

/-- What is found after inserting entries comes from one of them, or was there before. -/
theorem lookup_insertFields_cases {es fields : List (String × Json)} {key : String} {value : Json}
    (h : (insertFields es fields).lookup key = some value) :
    (key, value) ∈ es ∨ fields.lookup key = some value := by
  induction es generalizing fields with
  | nil => exact Or.inr h
  | cons e es ih =>
    rcases ih h with hmem | hlookup
    · exact Or.inl (List.mem_cons_of_mem _ hmem)
    · rw [lookup_insertField] at hlookup
      by_cases hkey : key = e.1
      · rw [if_pos hkey] at hlookup
        cases hlookup
        subst hkey
        exact Or.inl List.mem_cons_self
      · rw [if_neg hkey] at hlookup
        exact Or.inr hlookup

theorem lookup_insertFields_of_notMem {es fields : List (String × Json)} {key : String}
    (h : ∀ value, (key, value) ∉ es) :
    (insertFields es fields).lookup key = fields.lookup key := by
  induction es generalizing fields with
  | nil => rfl
  | cons e es ih =>
    have hkey : key ≠ e.1 := by
      rintro rfl
      exact h e.2 List.mem_cons_self
    show (insertFields es (insertField e.1 e.2 fields)).lookup key = _
    rw [ih fun value hmem => h value (List.mem_cons_of_mem _ hmem), lookup_insertField,
      if_neg hkey]

/-- An entry is found after inserting it with others, if none of them has its key and another
    value. -/
theorem lookup_insertFields_of_mem {es fields : List (String × Json)} {key : String} {value : Json}
    (hmem : (key, value) ∈ es) (hsame : ∀ value', (key, value') ∈ es → value' = value) :
    (insertFields es fields).lookup key = some value := by
  induction es using List.reverseRecOn with
  | nil => cases hmem
  | append_singleton es e ih =>
    rw [insertFields_append]
    show (insertField e.1 e.2 (insertFields es fields)).lookup key = some value
    rw [lookup_insertField]
    by_cases hkey : key = e.1
    · subst hkey
      rw [if_pos rfl, hsame e.2 (List.mem_append_right _ List.mem_cons_self)]
    · rw [if_neg hkey]
      refine ih ?_ fun value' hmem' => hsame value' (List.mem_append_left _ hmem')
      rcases List.mem_append.mp hmem with hmem | hmem
      · exact hmem
      · rw [List.mem_singleton] at hmem
        exact absurd (congrArg Prod.fst hmem) hkey

/-- The key of an inserted entry is there. -/
theorem exists_lookup_insertFields {es : List (String × Json)} (fields : List (String × Json))
    {e : String × Json} (h : e ∈ es) :
    ∃ value, (insertFields es fields).lookup e.1 = some value := by
  induction es using List.reverseRecOn with
  | nil => cases h
  | append_singleton es e' ih =>
    rw [insertFields_append]
    show ∃ value, (insertField e'.1 e'.2 (insertFields es fields)).lookup e.1 = some value
    rw [lookup_insertField]
    by_cases hkey : e.1 = e'.1
    · exact ⟨e'.2, if_pos hkey⟩
    · rw [if_neg hkey]
      rcases List.mem_append.mp h with hmem | hmem
      · exact ih hmem
      · exact absurd (congrArg Prod.fst (List.mem_singleton.mp hmem)) hkey

theorem mem_insertField {key : String} {value : Json} {e : String × Json}
    {fields : List (String × Json)} (h : e ∈ insertField key value fields) :
    e = (key, value) ∨ e ∈ fields := by
  induction fields with
  | nil => exact Or.inl (List.mem_singleton.mp h)
  | cons field rest ih =>
    unfold insertField at h
    split at h
    · exact List.mem_cons.mp h
    · split at h
      · rcases List.mem_cons.mp h with rfl | hmem
        · exact Or.inl rfl
        · exact Or.inr (List.mem_cons_of_mem _ hmem)
      · rcases List.mem_cons.mp h with rfl | hmem
        · exact Or.inr List.mem_cons_self
        · rcases ih hmem with heq | hmem
          · exact Or.inl heq
          · exact Or.inr (List.mem_cons_of_mem _ hmem)

theorem mem_insertFields {es fields : List (String × Json)} {e : String × Json}
    (h : e ∈ insertFields es fields) : e ∈ es ∨ e ∈ fields := by
  induction es generalizing fields with
  | nil => exact Or.inr h
  | cons e' es ih =>
    rcases ih h with hmem | hmem
    · exact Or.inl (List.mem_cons_of_mem _ hmem)
    · rcases mem_insertField hmem with rfl | hmem
      · exact Or.inl List.mem_cons_self
      · exact Or.inr hmem

/-! ## Canonical values -/

mutual

/-- The keys of every object in the value increase, so that no key occurs twice. -/
def Json.Canonical : Json → Prop
  | .arr items => itemsCanonical items
  | .obj fields => (fields.map Prod.fst).Pairwise (· < ·) ∧ fieldsCanonical fields
  | _ => True
termination_by structural j => j

def itemsCanonical : List Json → Prop
  | [] => True
  | item :: rest => item.Canonical ∧ itemsCanonical rest
termination_by structural items => items

def fieldsCanonical : List (String × Json) → Prop
  | [] => True
  | field :: rest => fieldCanonical field ∧ fieldsCanonical rest
termination_by structural fields => fields

def fieldCanonical : String × Json → Prop
  | (_, value) => value.Canonical
termination_by structural field => field

end

theorem fieldsCanonical_iff (fields : List (String × Json)) :
    fieldsCanonical fields ↔ ∀ field ∈ fields, field.2.Canonical := by
  induction fields with
  | nil => simp [fieldsCanonical]
  | cons field rest ih =>
    rw [fieldsCanonical, fieldCanonical, ih, List.forall_mem_cons]

theorem itemsCanonical_iff (items : List Json) :
    itemsCanonical items ↔ ∀ item ∈ items, item.Canonical := by
  induction items with
  | nil => simp [itemsCanonical]
  | cons item rest ih => rw [itemsCanonical, ih, List.forall_mem_cons]

theorem mem_of_lookup {fields : List (String × Json)} {key : String} {value : Json}
    (h : fields.lookup key = some value) : (key, value) ∈ fields := by
  obtain ⟨before, after, rfl, -⟩ := List.lookup_eq_some_iff.mp h
  exact List.mem_append_right _ List.mem_cons_self

theorem Json.Canonical.get {j value : Json} {key : String} (h : j.Canonical)
    (hget : j.get key = some value) : value.Canonical := by
  cases j with
  | obj fields => exact (fieldsCanonical_iff fields).mp h.2 _ (mem_of_lookup hget)
  | null | bool _ | num _ | str _ | arr _ => cases hget

theorem Json.Canonical.nodup {fields : List (String × Json)} (h : (Json.obj fields).Canonical) :
    (fields.map Prod.fst).Nodup := by
  refine h.1.imp fun {a b} hlt heq => ?_
  subst heq
  exact String.lt_irrefl a hlt

/-- A key of a canonical object has one value. -/
theorem Json.Canonical.unique {j value value' : Json} {key : String} (h : j.Canonical)
    (hmem : (key, value) ∈ j.fields) (hmem' : (key, value') ∈ j.fields) : value = value' := by
  cases j with
  | obj fields =>
    have hfields : (key, value) = (key, value') :=
      List.inj_on_of_nodup_map h.nodup hmem hmem' rfl
    exact congrArg Prod.snd hfields
  | null | bool _ | num _ | str _ | arr _ => cases hmem

/-- A field whose key is past all others goes to the end. -/
theorem insertField_of_last {key : String} {fields : List (String × Json)}
    (h : ∀ field ∈ fields, field.1 < key) (value : Json) :
    insertField key value fields = fields ++ [(key, value)] := by
  induction fields with
  | nil => rfl
  | cons field rest ih =>
    have hlt := h field List.mem_cons_self
    have hnot : ¬ key < field.1 := fun hkey => String.lt_irrefl key (String.lt_trans hkey hlt)
    have hne : key ≠ field.1 := by
      rintro rfl
      exact String.lt_irrefl field.1 hlt
    unfold insertField
    rw [if_neg hnot, if_neg hne, ih fun field' hmem => h field' (List.mem_cons_of_mem _ hmem),
      List.cons_append]

/-- Fields in the order of their keys, inserted one after the other, stay as they are. -/
theorem insertFields_of_sorted {fields : List (String × Json)}
    (h : (fields.map Prod.fst).Pairwise (· < ·)) : insertFields fields [] = fields := by
  induction fields using List.reverseRecOn with
  | nil => rfl
  | append_singleton fields field ih =>
    rw [List.map_append, List.pairwise_append] at h
    obtain ⟨hfields, -, hlast⟩ := h
    rw [insertFields_append, ih hfields]
    refine insertField_of_last (fun field' hmem => ?_) field.2
    exact hlast _ (List.mem_map_of_mem hmem) _ List.mem_cons_self

/-! ## Pointers -/

/-- The bytes of a run of escapes, when they are UTF-8. -/
def decodeRun (bytes : List UInt8) : Option (List Char) :=
  let cs := fromUtf8Lossy bytes
  if cs.flatMap String.utf8EncodeChar = bytes then some cs else none

def hexDigit (c : Char) : Option Nat :=
  if c.toNat < 128 then hexValue (UInt8.ofNat c.toNat) else none

/-- Percent-decoding of a URI fragment; `run` is the run of escapes just read. -/
def decodeFragment (run : List UInt8) : List Char → Option (List Char)
  | [] => decodeRun run
  | c :: rest =>
    if c = '%' then
      match rest with
      | a :: b :: rest =>
        match hexDigit a, hexDigit b with
        | some x, some y => decodeFragment (run ++ [UInt8.ofNat (16 * x + y)]) rest
        | _, _ => none
      | _ => none
    else do
      let before ← decodeRun run
      let after ← decodeFragment [] rest
      return before ++ c :: after

/-- The tokens of a pointer without its first slash: cut at `/`, with `~1` for `/` and `~0` for
    `~` inside of a token. -/
def pointerTokens : List Char → Option (List (List Char))
  | [] => some [[]]
  | c :: rest =>
    if c = '/' then (pointerTokens rest).map ([] :: ·)
    else if c = '~' then
      match rest with
      | '0' :: rest => (pointerTokens rest).map (List.modifyHead ('~' :: ·))
      | '1' :: rest => (pointerTokens rest).map (List.modifyHead ('/' :: ·))
      | _ => none
    else (pointerTokens rest).map (List.modifyHead (c :: ·))

def tokensOf (text : List Char) : Option (List (List Char)) :=
  (decodeFragment [] text).bind pointerTokens

/-- The tokens of a local reference. -/
def pointer (ref : String) : Option (List String) :=
  (stripPrefix "#/" ref).bind fun text => (tokensOf text.toList).map (List.map String.ofList)

/-- A token that is an index: digits without a leading zero. -/
def tokenIndex (token : String) : Option Nat :=
  let digits := token.toList
  if digits ≠ [] ∧ digits.all Char.isDigit ∧ (digits.head? = some '0' → digits.length = 1) then
    some (digits.foldl (fun n c => 10 * n + (c.toNat - 48)) 0)
  else none

namespace Json

def child (token : String) : Json → Option Json
  | arr items => (tokenIndex token).bind fun i => items[i]?
  | obj fields => fields.lookup token
  | _ => none

def walk : Json → List String → Option Json
  | j, [] => some j
  | j, token :: tokens => (j.child token).bind fun j => j.walk tokens

/-- What a local reference points to in the document `doc`. -/
def resolve (doc : Json) (ref : String) : Option Json := (pointer ref).bind doc.walk

end Json

def isLocal (ref : String) : Bool := startsWith "#/" ref

/-! ## References -/

/-- The reference that a field `$ref` holds. -/
def refOf (key : String) : Json → List String
  | .str text => if key = "$ref" then [text] else []
  | _ => []

mutual

/-- All references in a value: the texts of the fields `$ref`. -/
def Json.refs : Json → List String
  | .arr items => itemsRefs items
  | .obj fields => fieldsRefs fields
  | _ => []
termination_by structural j => j

def itemsRefs : List Json → List String
  | [] => []
  | item :: rest => item.refs ++ itemsRefs rest
termination_by structural items => items

def fieldsRefs : List (String × Json) → List String
  | [] => []
  | field :: rest => fieldRefs field ++ fieldsRefs rest
termination_by structural fields => fields

def fieldRefs : String × Json → List String
  | (key, value) => refOf key value ++ value.refs
termination_by structural field => field

end

theorem itemsRefs_eq (items : List Json) : itemsRefs items = items.flatMap Json.refs := by
  induction items with
  | nil => rfl
  | cons item rest ih => rw [itemsRefs, ih, List.flatMap_cons]

theorem fieldsRefs_eq (fields : List (String × Json)) :
    fieldsRefs fields = fields.flatMap fieldRefs := by
  induction fields with
  | nil => rfl
  | cons field rest ih => rw [fieldsRefs, ih, List.flatMap_cons]

theorem fieldRefs_of_ne {key : String} (h : key ≠ "$ref") (value : Json) :
    fieldRefs (key, value) = value.refs := by
  cases value with
  | str text =>
    have hnone : refOf key (.str text) = [] := if_neg h
    show refOf key (.str text) ++ [] = []
    rw [hnone]
    rfl
  | null | bool _ | num _ | arr _ | obj _ => rfl

/-! ## Parts of a pointer -/

/-- Characters that start no escape are kept by the decoder. -/
theorem decodeFragment_append {cs : List Char} (h : '%' ∉ cs) (rest : List Char) :
    decodeFragment [] (cs ++ rest) = (decodeFragment [] rest).map (cs ++ ·) := by
  induction cs with
  | nil => simp
  | cons c cs ih =>
    have hc : c ≠ '%' := fun he => h (he ▸ List.mem_cons_self)
    have hcs : '%' ∉ cs := fun he => h (List.mem_cons_of_mem _ he)
    have hrun : decodeRun [] = some [] := rfl
    rw [List.cons_append, decodeFragment.eq_def]
    dsimp only
    rw [if_neg hc, hrun, ih hcs]
    cases decodeFragment [] rest with
    | none => rfl
    | some decoded => rfl

theorem pointerTokens_append {cs : List Char} (htilde : '~' ∉ cs) (hslash : '/' ∉ cs)
    (rest : List Char) :
    pointerTokens (cs ++ rest) = (pointerTokens rest).map (List.modifyHead (cs ++ ·)) := by
  induction cs with
  | nil =>
    rw [List.nil_append]
    cases pointerTokens rest with
    | none => rfl
    | some tokens => cases tokens <;> rfl
  | cons c cs ih =>
    have hc : c ≠ '~' := fun he => htilde (he ▸ List.mem_cons_self)
    have hc' : c ≠ '/' := fun he => hslash (he ▸ List.mem_cons_self)
    rw [List.cons_append, pointerTokens.eq_def]
    dsimp only
    rw [if_neg hc', if_neg hc, ih (fun he => htilde (List.mem_cons_of_mem _ he))
      (fun he => hslash (List.mem_cons_of_mem _ he)), Option.map_map]
    refine congrArg (fun f => (pointerTokens rest).map f) (funext fun tokens => ?_)
    exact List.modifyHead_modifyHead ..

/-- Characters that mean nothing in a pointer. -/
structure PlainToken (cs : List Char) : Prop where
  percent : '%' ∉ cs
  tilde : '~' ∉ cs
  slash : '/' ∉ cs

/-- The first token of a pointer. -/
theorem PlainToken.tokensOf_cons {cs : List Char} (h : PlainToken cs) (rest : List Char) :
    tokensOf (cs ++ '/' :: rest) = (tokensOf rest).map (cs :: ·) := by
  have hslash : '%' ∉ cs ++ ['/'] := by
    rw [List.mem_append, List.mem_singleton]
    exact fun he => he.elim h.percent (by decide)
  have hdecode := decodeFragment_append hslash rest
  rw [List.append_assoc, List.singleton_append] at hdecode
  unfold tokensOf
  rw [hdecode]
  cases decodeFragment [] rest with
  | none => rfl
  | some decoded =>
    show pointerTokens (cs ++ ['/'] ++ decoded) = (pointerTokens decoded).map (cs :: ·)
    rw [List.append_assoc, pointerTokens_append h.tilde h.slash, List.singleton_append,
      pointerTokens.eq_def]
    dsimp only
    rw [if_pos rfl, Option.map_map]
    refine congrArg (fun f => (pointerTokens decoded).map f) (funext fun tokens => ?_)
    show (cs ++ []) :: tokens = cs :: tokens
    rw [List.append_nil]

/-! ## A pointer in two halves -/

/-- The tokens of two texts, with the last of the first and the first of the second in one. -/
def glue : List (List Char) → List (List Char) → List (List Char)
  | [], tokens' => tokens'
  | [last], tokens' => tokens'.modifyHead (last ++ ·)
  | token :: next :: tokens, tokens' => token :: glue (next :: tokens) tokens'

/-- An underscore ends a run of escapes. -/
theorem decodeFragment_underscore (run : List UInt8) (cs rest : List Char) :
    decodeFragment run (cs ++ '_' :: rest) =
      (decodeFragment run cs).bind fun decoded =>
        (decodeFragment [] rest).map fun decoded' => decoded ++ '_' :: decoded' := by
  have hunderscore : hexDigit '_' = none := by decide
  induction hn : cs.length using Nat.strongRecOn generalizing run cs with
  | ind n ih =>
    subst hn
    match cs with
    | [] =>
      rw [List.nil_append, decodeFragment.eq_def]
      dsimp only
      rw [if_neg (by decide)]
      show _ = (decodeRun run).bind _
      cases decodeRun run with
      | none => rfl
      | some before => cases decodeFragment [] rest <;> rfl
    | c :: cs =>
      by_cases hc : c = '%'
      · subst hc
        match cs with
        | [] =>
          cases rest with
          | nil => rfl
          | cons b rest => simp [decodeFragment, hunderscore]
        | [a] =>
          simp only [List.cons_append, List.nil_append, decodeFragment, if_true, hunderscore]
          cases hexDigit a <;> rfl
        | a :: b :: cs =>
          simp only [List.cons_append, decodeFragment, if_true]
          cases hexDigit a with
          | none => rfl
          | some x =>
            cases hexDigit b with
            | none => rfl
            | some y => exact ih cs.length (by simp; omega) _ cs rfl
      · rw [List.cons_append, decodeFragment.eq_def, decodeFragment.eq_def _ (c :: cs)]
        dsimp only
        rw [if_neg hc, if_neg hc, ih cs.length (by simp) [] cs rfl]
        cases decodeRun run with
        | none => rfl
        | some before =>
          cases decodeFragment [] cs with
          | none => rfl
          | some decoded =>
            cases decodeFragment [] rest with
            | none => rfl
            | some after =>
              show some (before ++ c :: (decoded ++ '_' :: after)) =
                some (before ++ c :: decoded ++ '_' :: after)
              rw [List.append_assoc, List.cons_append]

theorem pointerTokens_ne_nil {cs : List Char} {tokens : List (List Char)}
    (h : pointerTokens cs = some tokens) : tokens ≠ [] := by
  rintro rfl
  induction hn : cs.length using Nat.strongRecOn generalizing cs with
  | ind n ih =>
    subst hn
    have hhead : ∀ {rest : List Char} {c : Char}, rest.length < cs.length →
        (pointerTokens rest).map (List.modifyHead (c :: ·)) ≠ some [] := by
      intro rest c hlength heq
      obtain ⟨tokens, htokens, hnil⟩ := Option.map_eq_some_iff.mp heq
      rw [List.modifyHead_eq_nil_iff] at hnil
      subst hnil
      exact ih rest.length hlength htokens rfl
    match cs with
    | [] => cases h
    | c :: rest =>
      rw [pointerTokens.eq_def] at h
      dsimp only at h
      split at h
      · obtain ⟨tokens, -, hcons⟩ := Option.map_eq_some_iff.mp h
        cases hcons
      · split at h
        · split at h
          · exact hhead (by simp only [List.length_cons]; omega) h
          · exact hhead (by simp only [List.length_cons]; omega) h
          · cases h
        · exact hhead (by simp) h

theorem glue_nil_cons {tokens : List (List Char)} (h : tokens ≠ []) (tokens' : List (List Char)) :
    glue ([] :: tokens) tokens' = [] :: glue tokens tokens' := by
  cases tokens with
  | nil => exact absurd rfl h
  | cons token tokens => rfl

theorem glue_modifyHead {tokens : List (List Char)} (h : tokens ≠ []) (c : Char)
    (tokens' : List (List Char)) :
    glue (tokens.modifyHead (c :: ·)) tokens' = (glue tokens tokens').modifyHead (c :: ·) := by
  match tokens with
  | [] => exact absurd rfl h
  | [last] => cases tokens' <;> rfl
  | token :: next :: tokens => rfl

/-- An underscore ends an escape in a token. -/
theorem pointerTokens_underscore (cs rest : List Char) :
    pointerTokens (cs ++ '_' :: rest) =
      (pointerTokens cs).bind fun tokens =>
        (pointerTokens rest).map fun tokens' => glue tokens (tokens'.modifyHead ('_' :: ·)) := by
  induction hn : cs.length using Nat.strongRecOn generalizing cs with
  | ind n ih =>
    subst hn
    have hhead : ∀ (cs' : List Char) (c : Char), cs'.length < cs.length →
        (pointerTokens (cs' ++ '_' :: rest)).map (List.modifyHead (c :: ·)) =
          ((pointerTokens cs').map (List.modifyHead (c :: ·))).bind fun tokens =>
            (pointerTokens rest).map fun tokens' =>
              glue tokens (tokens'.modifyHead ('_' :: ·)) := by
      intro cs' c hlength
      rw [ih cs'.length hlength cs' rfl]
      cases htokens : pointerTokens cs' with
      | none => rfl
      | some tokens =>
        have hne := pointerTokens_ne_nil htokens
        cases pointerTokens rest with
        | none => rfl
        | some tokens' => exact congrArg some (glue_modifyHead hne c _).symm
    cases cs with
    | nil =>
      rw [List.nil_append, pointerTokens.eq_def]
      dsimp only
      rw [if_neg (by decide), if_neg (by decide)]
      show _ = (pointerTokens rest).map _
      refine congrArg (fun f => (pointerTokens rest).map f) (funext fun tokens => ?_)
      cases tokens <;> rfl
    | cons c cs =>
      rw [List.cons_append, pointerTokens.eq_def, pointerTokens.eq_def (c :: cs)]
      dsimp only
      split
      · rw [ih cs.length (Nat.lt_succ_self _) cs rfl]
        cases htokens : pointerTokens cs with
        | none => rfl
        | some tokens =>
          have hne := pointerTokens_ne_nil htokens
          cases pointerTokens rest with
          | none => rfl
          | some tokens' => exact congrArg some (glue_nil_cons hne _).symm
      · split
        · cases cs with
          | nil => rfl
          | cons c cs =>
            by_cases h0 : c = '0'
            · subst h0
              exact hhead cs '~' (Nat.lt_succ_of_lt (Nat.lt_succ_self _))
            · by_cases h1 : c = '1'
              · subst h1
                exact hhead cs '/' (Nat.lt_succ_of_lt (Nat.lt_succ_self _))
              · simp [h0, h1]
        · exact hhead cs c (Nat.lt_succ_self _)

/-- A pointer is cut in two at an underscore. -/
theorem tokensOf_underscore (cs rest : List Char) :
    tokensOf (cs ++ '_' :: rest) =
      (tokensOf cs).bind fun tokens =>
        (tokensOf rest).map fun tokens' => glue tokens (tokens'.modifyHead ('_' :: ·)) := by
  unfold tokensOf
  rw [decodeFragment_underscore]
  cases decodeFragment [] cs with
  | none => rfl
  | some decoded =>
    cases decodeFragment [] rest with
    | none =>
      show none = (pointerTokens decoded).bind fun _ => none
      cases pointerTokens decoded <;> rfl
    | some decoded' => exact pointerTokens_underscore decoded decoded'

theorem length_glue {tokens : List (List Char)} (h : tokens ≠ []) (token : List Char)
    (tokens' : List (List Char)) :
    (glue tokens (token :: tokens')).length = tokens.length + tokens'.length := by
  induction tokens with
  | nil => exact absurd rfl h
  | cons first tokens ih =>
    cases tokens with
    | nil => simp [glue, Nat.add_comm]
    | cons next tokens =>
      have hrest := ih (List.cons_ne_nil _ _)
      simp only [glue, List.length_cons] at hrest ⊢
      omega

/-- A text in front of an underscore joins the first token and changes nothing else, exactly when
    it stands for itself. -/
theorem tokensOf_front_iff {cs rest name : List Char} {tokens : List (List Char)}
    (hrest : tokensOf rest = some (name :: tokens)) :
    tokensOf (cs ++ '_' :: rest) = some ((cs ++ '_' :: name) :: tokens) ↔
      tokensOf cs = some [cs] := by
  rw [tokensOf_underscore, hrest]
  constructor
  · intro h
    cases hcs : tokensOf cs with
    | none =>
      rw [hcs] at h
      cases h
    | some front =>
      rw [hcs] at h
      have hglue : glue front (('_' :: name) :: tokens) = (cs ++ '_' :: name) :: tokens :=
        Option.some.inj h
      have hne : front ≠ [] := by
        obtain ⟨decoded, -, htokens⟩ := Option.bind_eq_some_iff.mp hcs
        exact pointerTokens_ne_nil htokens
      have hlength := congrArg List.length hglue
      rw [length_glue hne, List.length_cons] at hlength
      match front with
      | [] => exact absurd rfl hne
      | [last] =>
        have hlast : last ++ '_' :: name = cs ++ '_' :: name := (List.cons.inj hglue).1
        rw [List.append_cancel_right hlast]
      | first :: next :: front =>
        simp only [List.length_cons] at hlength
        omega
  · intro hcs
    rw [hcs]
    rfl

end Mik.Lib
