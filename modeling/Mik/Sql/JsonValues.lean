/-
  SQL values as JSON in the SQL requests (`daemon/http/handlers/sql.rs`).

  A value that has been read is written as JSON into the response (`sqlToJsonValue`), and a
  parameter of a later statement is made from JSON (`jsonToSqlValue`). Blobs go out as an object
  with their hexadecimal digits, which comes back as a text: no arm takes the object apart again.
  Every other value comes back, if the reader of the JSON text gets the bits of a floating point
  number right. Of the integers, those from 2^63 to 2^64 - 1 become floating point numbers, and
  `as_f64` rounds, so that the arm for the numbers that are none is never reached.
-/
import Mik.Lib.Binary64
import Mik.Sql.Backend

namespace Mik.Sql

open Mik.Lib

/-! ## JSON values -/

/-- A finite floating point number, by its bits. -/
abbrev Finite64 := { bits : UInt64 // Binary64.IsFinite bits }

/-- `serde_json::Number`. -/
inductive Number where
  | posInt (n : UInt64)
  | negInt (i : Int64) (neg : i < 0)
  | float (f : Finite64)

def Number.asI64 : Number → Option Int64
  | .posInt n => if n.toNat < 2 ^ 63 then some (.ofInt n.toNat) else none
  | .negInt i _ => some i
  | .float _ => none

def Number.asF64 : Number → Option UInt64
  | .posInt n => some (Binary64.ofNat n.toNat)
  | .negInt i _ => some (Binary64.ofInt i.toInt)
  | .float f => some f.val

/-- `serde_json::Value`. -/
inductive JsonValue where
  | null
  | bool (b : Bool)
  | number (n : Number)
  | string (s : String)
  | array (items : List JsonValue)
  | object (fields : List (String × JsonValue))

/-- `json!` of an `i64`. -/
def JsonValue.ofI64 (i : Int64) : JsonValue :=
  if h : i < 0 then .number (.negInt i h) else .number (.posInt i.toUInt64)

/-- `json!` of an `f64`. -/
def JsonValue.ofF64 (bits : UInt64) : JsonValue :=
  if h : Binary64.IsFinite bits then .number (.float ⟨bits, h⟩) else .null

/-- `{byte:02x}`. -/
def hexByte (byte : UInt8) : String :=
  .ofList [Nat.digitChar (byte.toNat / 16), Nat.digitChar (byte.toNat % 16)]

/-- `json_to_sql_value`. `display` is `to_string` on a JSON value. -/
def jsonToSqlValue (display : JsonValue → String) : JsonValue → Value
  | .null => .null
  | .bool b => .integer (if b then 1 else 0)
  | .number n =>
    match n.asI64 with
    | some i => .integer i
    | none =>
      match n.asF64 with
      | some bits => .real bits
      | none => .text (display (.number n))
  | .string s => .text s
  | v => .text (display v)

/-- `sql_to_json_value`. -/
def sqlToJsonValue : Value → JsonValue
  | .null => .null
  | .integer i => .ofI64 i
  | .real bits => .ofF64 bits
  | .text s => .string s
  | .blob b => .object [("hex", .string (b.foldl (fun acc byte => acc ++ hexByte byte) ""))]

/-! ## The handlers -/

/-- `Row`, whose constructor asserts that there is a value for each column. -/
structure Row where
  columns : List String
  values : List Value
  lengths : columns.length = values.length

/-- `SqlService`, by what its calls do to the database. -/
structure SqlService (E D : Type) where
  query : String → List Value → D → Except E (List Row) × D
  execute : String → List Value → D → Except E Nat × D

/-- The errors of the handlers: the service is disabled, or what it has answered. -/
inductive AppError (E : Type) where
  | serviceUnavailable (message : String)
  | internal (err : E)

/-- `SqlQueryRequest` and `SqlExecuteRequest`. -/
structure SqlRequest where
  sql : String
  params : List JsonValue

structure SqlQueryResponse where
  columns : List String
  rows : List (List JsonValue)

structure SqlExecuteResponse where
  rowsAffected : Nat

section

variable {E D : Type} (display : JsonValue → String)

/-- `get_sql`. -/
def getSql (sql : Option (SqlService E D)) : Except (AppError E) (SqlService E D) :=
  match sql with
  | some service => .ok service
  | none => .error (.serviceUnavailable "SQL service is disabled. Enable it in ~/.mik/daemon.toml")

/-- `sql_query`. -/
def sqlQuery (sql : Option (SqlService E D)) (req : SqlRequest) (db : D) :
    Except (AppError E) SqlQueryResponse × D :=
  match getSql sql with
  | .error err => (.error err, db)
  | .ok service =>
    match service.query req.sql (req.params.map (jsonToSqlValue display)) db with
    | (.error err, db) => (.error (.internal err), db)
    | (.ok rows, db) =>
      (.ok
        { columns := (rows.head?.map Row.columns).getD []
          rows := rows.map fun row => row.values.map sqlToJsonValue }, db)

/-- The answer of `sql_execute`, from that of the service. -/
def executeResponse : Except E Nat × D → Except (AppError E) SqlExecuteResponse × D
  | (.error err, db) => (.error (.internal err), db)
  | (.ok affected, db) => (.ok ⟨affected⟩, db)

/-- `sql_execute`. -/
def sqlExecute (sql : Option (SqlService E D)) (req : SqlRequest) (db : D) :
    Except (AppError E) SqlExecuteResponse × D :=
  match getSql sql with
  | .error err => (.error err, db)
  | .ok service =>
    executeResponse (service.execute req.sql (req.params.map (jsonToSqlValue display)) db)

end

/-! ## The texts in between -/

mutual

/-- A value that has been written as text and read again: `reread` says which floating point number
    its digits are taken for. -/
def JsonValue.sent (reread : Finite64 → Finite64) : JsonValue → JsonValue
  | .number (.float f) => .number (.float (reread f))
  | .array items => .array (sentItems reread items)
  | .object fields => .object (sentFields reread fields)
  | v => v

def sentItems (reread : Finite64 → Finite64) : List JsonValue → List JsonValue
  | [] => []
  | v :: rest => v.sent reread :: sentItems reread rest

def sentFields (reread : Finite64 → Finite64) :
    List (String × JsonValue) → List (String × JsonValue)
  | [] => []
  | (key, v) :: rest => (key, v.sent reread) :: sentFields reread rest

end

/-- A number in a JSON text: digits, times a power of ten where there is a fraction or an
    exponent. -/
structure Literal where
  negative : Bool
  digits : Nat
  scale : Option Int

def Literal.signed (l : Literal) : Int := if l.negative then -(l.digits : Int) else l.digits

/-- The number is the integer `n`. -/
def Literal.Denotes (l : Literal) (n : Int) : Prop :=
  match l.scale with
  | none => l.signed = n
  | some (.ofNat k) => l.signed * 10 ^ k = n
  | some (.negSucc k) => l.signed = n * 10 ^ (k + 1)

/-- An integer of 64 bits, with a sign or without one, written plainly. -/
def Literal.IsPlain (l : Literal) : Prop :=
  l.scale = none ∧ (l.negative = true → 0 < l.digits ∧ l.digits ≤ 2 ^ 63) ∧
    (l.negative = false → l.digits < 2 ^ 64)

instance (l : Literal) : Decidable l.IsPlain := inferInstanceAs (Decidable (_ ∧ _))

theorem Literal.toInt_neg {l : Literal} (h : l.IsPlain) (hneg : l.negative = true) :
    (Int64.ofInt (-l.digits)).toInt = -l.digits := by
  have hdigits := h.2.1 hneg
  exact Int64.toInt_ofInt_of_le (by omega) (by omega)

theorem Literal.neg_lt {l : Literal} (h : l.IsPlain) (hneg : l.negative = true) :
    Int64.ofInt (-l.digits) < 0 := by
  have hdigits := h.2.1 hneg
  rw [Int64.lt_iff_toInt_lt, toInt_neg h hneg, Int64.toInt_zero]
  omega

/-- What the reader of the request makes of a number. One that is not plain becomes a floating point
    number, by `double`, or is rejected. -/
def readNumber (double : Literal → Option Finite64) (l : Literal) : Option Number :=
  if h : l.IsPlain then
    if hneg : l.negative = true then some (.negInt (.ofInt (-l.digits)) (Literal.neg_lt h hneg))
    else some (.posInt (.ofNat l.digits))
  else (double l).map .float

/-! ## What is to hold -/

/-- `Value` without the infinities and NaNs. -/
def Value.IsFinite : Value → Prop
  | .real bits => Binary64.IsFinite bits
  | _ => True

/-- The value is the integer `n`. -/
def Value.Denotes (n : Int) : Value → Prop
  | .integer i => i.toInt = n
  | .real bits => Binary64.Denotes bits n
  | _ => False

/-- The value at a place of a result. -/
def cell {α : Type} (rows : List (List α)) (i j : Nat) : Option α := rows[i]?.bind (·[j]?)

/-- `x`, wherever it is read, and wherever what has been read is sent back among other parameters,
    makes the statement do what it does with `x`. -/
def ComesBack (reread : Finite64 → Finite64) (display : JsonValue → String) (x : Value) : Prop :=
  ∀ (E D : Type) (service : SqlService E D) (req : SqlRequest) (db db' : D) (rows : List Row)
    (i j : Nat),
    service.query req.sql (req.params.map (jsonToSqlValue display)) db = (.ok rows, db') →
    cell (rows.map Row.values) i j = some x →
    ∃ response v, sqlQuery display (some service) req db = (.ok response, db') ∧
      cell response.rows i j = some v ∧
      ∀ sql before after db,
        sqlExecute display (some service) ⟨sql, before ++ v.sent reread :: after⟩ db =
          executeResponse (service.execute sql (before.map (jsonToSqlValue display) ++ x ::
            after.map (jsonToSqlValue display)) db)

/-- `n`, as `l` says it, is read and kept exactly. -/
def Literal.IsExact (double : Literal → Option Finite64) (n : Int) (l : Literal) : Prop :=
  if l.IsPlain then n < 2 ^ 63 ∨ 2048 ∣ n
  else ∀ f, double l = some f → Binary64.Denotes f.val n

/-! ## Numbers -/

section

variable (display : JsonValue → String)

theorem jsonToSqlValue_posInt (n : UInt64) :
    jsonToSqlValue display (.number (.posInt n)) =
      if n.toNat < 2 ^ 63 then .integer (.ofInt n.toNat) else .real (Binary64.ofNat n.toNat) := by
  by_cases hsmall : n.toNat < 2 ^ 63
  · simp only [jsonToSqlValue, Number.asI64, if_pos hsmall]
  · simp only [jsonToSqlValue, Number.asI64, Number.asF64, if_neg hsmall]

theorem jsonToSqlValue_ofI64 (i : Int64) : jsonToSqlValue display (.ofI64 i) = .integer i := by
  unfold JsonValue.ofI64
  by_cases hneg : i < 0
  · rw [dif_pos hneg]
    rfl
  · rw [dif_neg hneg, jsonToSqlValue_posInt]
    rw [Int64.lt_iff_toInt_lt, Int64.toInt_zero] at hneg
    have hle : 0 ≤ i := Int64.le_iff_toInt_le.mpr (by rw [Int64.toInt_zero]; omega)
    have hnat : i.toUInt64.toNat = i.toInt.toNat := Int64.toNat_toUInt64_of_le hle
    have hcast : (i.toInt.toNat : Int) = i.toInt := Int.toNat_of_nonneg (by omega)
    have hlt := i.toInt_lt
    rw [hnat, if_pos (by omega), hcast, Int64.ofInt_toInt]

theorem jsonToSqlValue_ofF64 {bits : UInt64} (h : Binary64.IsFinite bits) :
    jsonToSqlValue display (.ofF64 bits) = .real bits := by
  unfold JsonValue.ofF64
  rw [dif_pos h]
  rfl

/-- An integer without a sign is kept when it fits with one, or ends in eleven zero bits. -/
theorem posInt_denotes_iff (n : UInt64) :
    (jsonToSqlValue display (.number (.posInt n))).Denotes n.toNat ↔
      n.toNat < 2 ^ 63 ∨ 2048 ∣ n.toNat := by
  rw [jsonToSqlValue_posInt]
  by_cases hsmall : n.toNat < 2 ^ 63
  · rw [if_pos hsmall]
    exact ⟨fun _ => Or.inl hsmall, fun _ => Int64.toInt_ofInt_of_le (by omega) (by omega)⟩
  · have hlt := n.toNat_lt
    have hlog : n.toNat.log2 = 63 := (Nat.log2_eq_iff (by omega)).mpr (by omega)
    have hexact := Binary64.ofNat_denotes_iff hlt
    rw [hlog] at hexact
    rw [if_neg hsmall]
    exact hexact.trans (or_iff_right hsmall).symm

/-- A number of a JSON text that is the integer `n` is kept exactly when it is plain and small or
    ends in eleven zero bits, or its floating point number is right. -/
theorem literal_exact_iff (double : Literal → Option Finite64) {l : Literal} {n : Int}
    (hl : l.Denotes n) :
    (∀ num, readNumber double l = some num → (jsonToSqlValue display (.number num)).Denotes n) ↔
      l.IsExact double n := by
  unfold Literal.IsExact readNumber
  by_cases hplain : l.IsPlain
  · rw [dif_pos hplain, if_pos hplain]
    have hsigned : l.signed = n := by
      unfold Literal.Denotes at hl
      rw [hplain.1] at hl
      exact hl
    unfold Literal.signed at hsigned
    by_cases hneg : l.negative = true
    · have hdigits := hplain.2.1 hneg
      rw [if_pos hneg] at hsigned
      rw [dif_pos hneg]
      refine ⟨fun _ => Or.inl (by omega), fun _ num hnum => ?_⟩
      rw [← Option.some.inj hnum]
      exact (Literal.toInt_neg hplain hneg).trans hsigned
    · have hdigits := hplain.2.2 (Bool.eq_false_iff.mpr hneg)
      rw [if_neg hneg] at hsigned
      rw [dif_neg hneg]
      have hnat : (UInt64.ofNat l.digits).toNat = l.digits := UInt64.toNat_ofNat_of_lt' hdigits
      have hkept := posInt_denotes_iff display (.ofNat l.digits)
      rw [hnat, hsigned] at hkept
      have hbound : l.digits < 2 ^ 63 ∨ 2048 ∣ l.digits ↔ n < 2 ^ 63 ∨ 2048 ∣ n := by omega
      rw [← hbound, ← hkept]
      exact ⟨fun h => h _ rfl, fun h num hnum => Option.some.inj hnum ▸ h⟩
  · rw [dif_neg hplain, if_neg hplain]
    constructor
    · intro h f hf
      exact h (.float f) (by rw [hf]; rfl)
    · intro h num hnum
      obtain ⟨f, hf, rfl⟩ := Option.map_eq_some_iff.mp hnum
      exact h f hf

end

/-! ## Values -/

/-- Without the texts in between, exactly the blobs do not come back. -/
theorem jsonToSqlValue_sqlToJsonValue_iff (display : JsonValue → String) {x : Value}
    (hx : x.IsFinite) :
    jsonToSqlValue display (sqlToJsonValue x) = x ↔ ∀ b, x ≠ .blob b := by
  cases x with
  | null => exact ⟨nofun, fun _ => rfl⟩
  | integer i => exact ⟨nofun, fun _ => jsonToSqlValue_ofI64 display i⟩
  | real bits => exact ⟨nofun, fun _ => jsonToSqlValue_ofF64 display hx⟩
  | text s => exact ⟨nofun, fun _ => rfl⟩
  | blob b => exact ⟨nofun, fun h => absurd rfl (h b)⟩

theorem sent_ofI64 (reread : Finite64 → Finite64) (i : Int64) :
    (JsonValue.ofI64 i).sent reread = .ofI64 i := by
  unfold JsonValue.ofI64
  split
  · rfl
  · rfl

/-- With them, neither do the floating point numbers that are read wrong. -/
theorem jsonToSqlValue_sent_iff (reread : Finite64 → Finite64) (display : JsonValue → String)
    {x : Value} (hx : x.IsFinite) :
    jsonToSqlValue display ((sqlToJsonValue x).sent reread) = x ↔
      (∀ b, x ≠ .blob b) ∧ ∀ f : Finite64, x = .real f.val → reread f = f := by
  cases x with
  | null => exact ⟨fun _ => ⟨nofun, nofun⟩, fun _ => rfl⟩
  | integer i =>
    refine ⟨fun _ => ⟨nofun, nofun⟩, fun _ => ?_⟩
    unfold sqlToJsonValue
    rw [sent_ofI64]
    exact jsonToSqlValue_ofI64 display i
  | real bits =>
    have hfinite : Binary64.IsFinite bits := hx
    have hjson : sqlToJsonValue (.real bits) = .number (.float ⟨bits, hfinite⟩) := dif_pos hfinite
    have hsent : jsonToSqlValue display ((sqlToJsonValue (.real bits)).sent reread) =
        .real (reread ⟨bits, hfinite⟩).val := by
      rw [hjson]
      rfl
    rw [hsent]
    constructor
    · intro h
      refine ⟨nofun, fun f hf => ?_⟩
      have hbits : bits = f.val := Value.real.inj hf
      subst hbits
      exact Subtype.ext (Value.real.inj h)
    · intro h
      rw [h.2 ⟨bits, hfinite⟩ rfl]
  | text s => exact ⟨fun _ => ⟨nofun, nofun⟩, fun _ => rfl⟩
  | blob b => exact ⟨nofun, fun h => absurd rfl (h.1 b)⟩

theorem cell_map {α β : Type} (f : α → β) (rows : List (List α)) (i j : Nat) :
    cell (rows.map (List.map f)) i j = (cell rows i j).map f := by
  unfold cell
  rw [List.getElem?_map]
  cases rows[i]? with
  | none => rfl
  | some row => exact List.getElem?_map

/-- A value comes back when the one parameter it turns into is the value. -/
theorem comesBack_iff (reread : Finite64 → Finite64) (display : JsonValue → String) (x : Value) :
    ComesBack reread display x ↔ jsonToSqlValue display ((sqlToJsonValue x).sent reread) = x := by
  constructor
  · intro h
    -- a table with `x` alone, and a database that becomes the parameters of the last statement
    let service : SqlService Unit (List Value) :=
      { query := fun _ _ db => (.ok [⟨["x"], [x], rfl⟩], db)
        execute := fun _ params _ => (.ok 0, params) }
    obtain ⟨response, v, hquery, hv, hexecute⟩ :=
      h Unit (List Value) service ⟨"", []⟩ [] [] [⟨["x"], [x], rfl⟩] 0 0 rfl rfl
    have hresponse := Except.ok.inj (congrArg Prod.fst hquery)
    rw [← hresponse] at hv
    have hjson : sqlToJsonValue x = v := Option.some.inj hv
    have hparams : [jsonToSqlValue display (v.sent reread)] = [x] :=
      congrArg Prod.snd (hexecute "" [] [] [])
    rw [hjson]
    exact (List.cons.inj hparams).1
  · intro hback E D service req db db' rows i j hrows hcell
    refine ⟨⟨(rows.head?.map Row.columns).getD [],
      rows.map fun row => row.values.map sqlToJsonValue⟩, sqlToJsonValue x, ?_, ?_, ?_⟩
    · simp only [sqlQuery, getSql, hrows]
    · have hrow := cell_map sqlToJsonValue (rows.map Row.values) i j
      rw [hcell, List.map_map] at hrow
      exact hrow
    · intro sql before after db
      simp only [sqlExecute, getSql, List.map_append, List.map_cons, hback]

/-! ## The law -/

/-- Without the texts in between, the finite values that do not come back are the blobs. With them,
    there are also the floating point numbers that are read wrong. Of the integers in JSON texts,
    those that fit with 64 bits are kept exactly if they fit with a sign or end in eleven zero bits,
    and the others exactly if their floating point number is right. -/
theorem json_values_iff (reread : Finite64 → Finite64) (double : Literal → Option Finite64)
    (display : JsonValue → String) :
    (∀ x : Value, x.IsFinite →
      (jsonToSqlValue display (sqlToJsonValue x) = x ↔ ∀ b, x ≠ .blob b)) ∧
    (∀ x : Value, x.IsFinite → (ComesBack reread display x ↔
      (∀ b, x ≠ .blob b) ∧ ∀ f : Finite64, x = .real f.val → reread f = f)) ∧
    ∀ (l : Literal) (n : Int), l.Denotes n →
      ((∀ num, readNumber double l = some num →
        (jsonToSqlValue display (.number num)).Denotes n) ↔ l.IsExact double n) := by
  refine ⟨fun x hx => jsonToSqlValue_sqlToJsonValue_iff display hx, fun x hx => ?_,
    fun l n hl => literal_exact_iff display double hl⟩
  rw [comesBack_iff]
  exact jsonToSqlValue_sent_iff reread display hx

/-- A blob of one byte comes back as the text of an object, and 2^63 + 1 as 2^63. -/
theorem json_values_differ :
    jsonToSqlValue (fun _ => "\x7b\"hex\":\"01\"\x7d") (sqlToJsonValue (.blob [1])) =
        .text "\x7b\"hex\":\"01\"\x7d" ∧
      ¬ ComesBack id (fun _ => "\x7b\"hex\":\"01\"\x7d") (.blob [1]) ∧
      readNumber (fun _ => none) ⟨false, 9223372036854775809, none⟩ =
        some (.posInt 9223372036854775809) ∧
      ¬ (jsonToSqlValue (fun _ => "") (.number (.posInt 9223372036854775809))).Denotes
        9223372036854775809 := by
  refine ⟨rfl, ?_, rfl, ?_⟩
  · rw [comesBack_iff]
    exact nofun
  · exact fun h => absurd ((posInt_denotes_iff _ 9223372036854775809).mp h) (by decide)

end Mik.Sql
