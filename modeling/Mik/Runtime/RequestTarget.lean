/-
  The request target a component sees (`parse_module_route`, `parse_module_path_route` and
  `rewrite_request_path` of `src/runtime/request_handler.rs`).

  The platform route decodes what follows the module name and keeps its slashes; the tenant route
  keeps the escapes and drops empty segments. Both are read segment by segment here: a rest that
  starts with `/` is `slashed` of its segments (`slashed_splitOn`), and what the tenant route
  makes of it is `slashed` of those it keeps. `handler_paths_agree_iff`: the two routes agree on
  the rests in which there is nothing to decode and nothing to drop. `target_preserved_iff`: the
  rewrite loses every query, and a rest that is still encoded after one decoding.

  What `http` accepts as a path and a query is `PathAndQueryLaws`.
-/
import Mathlib.Data.List.TakeWhile
import Mik.Lib.Escapes
import Mik.Runtime.Embedded

namespace Mik.Runtime

open Mik.Lib Mik.Lib.Prog

/-! ## Segments -/

/-- The segments of a path, each behind a slash. -/
def slashed (segs : List (List Char)) : List Char := segs.flatMap fun seg => '/' :: seg

theorem slashed_cons (seg : List Char) (segs : List (List Char)) :
    slashed (seg :: segs) = '/' :: seg ++ slashed segs := rfl

theorem slashed_splitOn (cs : List Char) : slashed (cs.splitOn '/') = '/' :: cs := by
  induction cs with
  | nil => rfl
  | cons c cs ih =>
    rw [List.splitOn_cons_eq_if_modifyHead]
    split
    · next hc =>
      rw [slashed_cons, ih, beq_iff_eq.mp hc]
      rfl
    · obtain ⟨seg, segs, hsplit⟩ := List.exists_cons_of_ne_nil (List.splitOn_ne_nil '/' cs)
      rw [hsplit, slashed_cons] at ih
      rw [hsplit, List.modifyHead_cons, slashed_cons]
      have htail : seg ++ slashed segs = cs := (List.cons.inj ih).2
      rw [List.cons_append, List.cons_append, htail]

/-- The segments a tenant route keeps: those that are not empty, or one for the root. -/
def keptSegments (segs : List (List Char)) : List (List Char) :=
  if segs.filter (· ≠ []) = [] then [[]] else segs.filter (· ≠ [])

theorem mem_of_mem_keptSegments {segs : List (List Char)} {seg : List Char}
    (h : seg ∈ keptSegments segs) : seg = [] ∨ seg ∈ segs := by
  unfold keptSegments at h
  split at h
  · exact Or.inl (List.mem_singleton.mp h)
  · exact Or.inr (List.mem_of_mem_filter h)

theorem keptSegments_ne_nil (segs : List (List Char)) : keptSegments segs ≠ [] := by
  unfold keptSegments
  split
  · simp
  · next hkept => exact hkept

/-- Empty segments count one each, whatever the segments are turned into. -/
theorem length_keptSegments {f : List Char → List UInt8} (hf : (f []).length = 1)
    (segs : List (List Char)) :
    ((keptSegments segs).flatMap f).length + segs.length =
      (segs.flatMap f).length + (keptSegments segs).length := by
  have hfilter : ∀ l : List (List Char), ((l.filter (· ≠ [])).flatMap f).length + l.length =
      (l.flatMap f).length + (l.filter (· ≠ [])).length := by
    intro l
    induction l with
    | nil => rfl
    | cons seg l ih =>
      rw [List.flatMap_cons, List.length_append, List.length_cons]
      by_cases hseg : seg = []
      · rw [List.filter_cons_of_neg (by simp [hseg]), hseg, hf]
        omega
      · rw [List.filter_cons_of_pos (by simp [hseg]), List.flatMap_cons, List.length_append,
          List.length_cons]
        omega
  have hsegs := hfilter segs
  unfold keptSegments
  split
  · next hnil =>
    simp only [hnil, List.flatMap_nil, List.length_nil] at hsegs
    rw [List.flatMap_singleton, hf, List.length_singleton]
    omega
  · exact hsegs

theorem keptSegments_eq_iff {segs : List (List Char)} (hne : segs ≠ []) :
    keptSegments segs = segs ↔ segs = [[]] ∨ [] ∉ segs := by
  unfold keptSegments
  split
  · next hnil =>
    refine ⟨fun h => Or.inl h.symm, fun h => ?_⟩
    rcases h with h | h
    · exact h.symm
    · obtain ⟨seg, hseg⟩ := List.exists_mem_of_ne_nil segs hne
      have hempty := List.filter_eq_nil_iff.mp hnil seg hseg
      rw [decide_eq_true_iff, not_not] at hempty
      exact absurd (hempty ▸ hseg) h
  · next hkept =>
    rw [List.filter_eq_self]
    constructor
    · exact fun h => Or.inr fun hmem => of_decide_eq_true (h [] hmem) rfl
    · intro h seg hseg
      refine decide_eq_true ?_
      rintro rfl
      rcases h with rfl | h
      · exact hkept rfl
      · exact h hseg

theorem keptSegments_of_length {segs : List (List Char)} (hne : segs ≠ [])
    (h : segs.length ≤ (keptSegments segs).length) : keptSegments segs = segs := by
  unfold keptSegments at h ⊢
  split
  · next hnil =>
    rw [if_pos hnil, List.length_singleton] at h
    obtain ⟨seg, rfl⟩ := List.length_eq_one_iff.mp (Nat.le_antisymm h (List.length_pos_iff.mpr hne))
    have hempty := List.filter_eq_nil_iff.mp hnil seg List.mem_cons_self
    rw [decide_eq_true_iff, not_not] at hempty
    rw [hempty]
  · next hkept =>
    rw [if_neg hkept] at h
    exact List.filter_sublist.eq_of_length_le h

theorem filter_map_ofList (segs : List (List Char)) :
    (segs.map String.ofList).filter (· ≠ "") = (segs.filter (· ≠ [])).map String.ofList := by
  induction segs with
  | nil => rfl
  | cons seg segs ih =>
    by_cases hseg : seg = []
    · rw [hseg, List.map_cons, List.filter_cons_of_neg (by simp), ih,
        List.filter_cons_of_neg (by simp)]
    · have hne : String.ofList seg ≠ "" := fun h => hseg <| by
        rw [← String.toList_ofList (l := seg), h]
        rfl
      rw [List.map_cons, List.filter_cons_of_pos (by simp [hne]), ih,
        List.filter_cons_of_pos (by simp [hseg]), List.map_cons]

theorem slashed_of_ne_nil {segs : List (List Char)} (hne : segs ≠ []) :
    String.ofList (slashed segs) = "/" ++ "/".intercalate (segs.map String.ofList) := by
  refine String.toList_inj.mp ?_
  rw [String.toList_ofList, String.toList_append, String.toList_intercalate,
    toList_separator, List.map_map]
  have hid : String.toList ∘ String.ofList = id := by
    funext cs
    exact String.toList_ofList
  rw [hid, List.map_id, List.singleton_append]
  induction segs with
  | nil => exact absurd rfl hne
  | cons seg segs ih =>
    cases segs with
    | nil => simp [slashed]
    | cons seg' segs =>
      rw [slashed_cons, ih (by simp), List.intercalate_cons_cons, List.append_assoc]
      rfl

/-! ## The handler path of a route -/

theorem decodeSegment_eq (s : String) : decodeSegment s = percentDecodeStr s := by
  unfold decodeSegment
  split
  · rfl
  · next hplain =>
    -- a text without `%` has no escapes
    have hno : ∀ b ∈ utf8 s, b ≠ 0x25 := by
      rintro b hb rfl
      have hmem : '%' ∈ s.toList := mem_of_low_mem_utf8 (by decide) hb
      exact hplain (by simp [containsChar, hmem])
    have hdecoded := percentDecode_append hno []
    rw [List.append_nil, show percentDecode [] = [] from rfl, List.append_nil] at hdecoded
    unfold percentDecodeStr
    rw [hdecoded, lossy_utf8, String.ofList_toList]

/-- A tenant or a module name, as a path has it. -/
def PathSegment (s : String) : Prop := s ≠ "" ∧ '/' ∉ s.toList

/-- What follows the module name: nothing, or a path. -/
def PathRest (rest : String) : Prop := rest = "" ∨ startsWith "/" rest = true

/-- The path that stands for the rest; nothing stands for the root. -/
def restPath (rest : String) : String := if rest = "" then "/" else rest

def restSegments (rest : String) : List (List Char) := rest.toList.tail.splitOn '/'

/-- No segment of the rest is empty, or the rest is the root. -/
def NothingDropped (rest : String) : Prop :=
  rest = "" ∨ rest = "/" ∨ "" ∉ (splitChar '/' rest).tail

section

variable {name tenantId rest : String}

theorem restSegments_ne_nil : restSegments rest ≠ [] := List.splitOn_ne_nil '/' _

theorem PathRest.cases (h : PathRest rest) :
    rest = "" ∨ ∃ r : List Char, rest.toList = '/' :: r := by
  refine h.imp_right fun hslash => ?_
  obtain ⟨r, rfl⟩ := startsWith_iff.mp hslash
  exact ⟨r.toList, String.toList_append⟩

theorem slashed_restSegments (h : PathRest rest) :
    String.ofList (slashed (restSegments rest)) = restPath rest := by
  refine String.toList_inj.mp ?_
  unfold restSegments restPath
  rw [slashed_splitOn, String.toList_ofList]
  rcases h.cases with rfl | ⟨r, hr⟩
  · rfl
  · have hne : rest ≠ "" := by
      rintro rfl
      cases hr
    rw [if_neg hne, hr]
    rfl

theorem nothingDropped_iff (h : PathRest rest) :
    NothingDropped rest ↔ keptSegments (restSegments rest) = restSegments rest := by
  rw [keptSegments_eq_iff restSegments_ne_nil]
  unfold NothingDropped restSegments splitChar
  rcases h.cases with rfl | ⟨r, hr⟩
  · simp
  · have hne : rest ≠ "" := by
      rintro rfl
      cases hr
    have hroot : rest = "/" ↔ r.splitOn '/' = [[]] := by
      rw [← String.toList_inj, hr, toList_separator]
      constructor
      · intro heq
        rw [(List.cons.inj heq).2]
        rfl
      · intro heq
        have hjoin := slashed_splitOn r
        rw [heq] at hjoin
        exact hjoin.symm
    have hsplit : rest.toList.splitOn '/' = [] :: r.splitOn '/' := by
      rw [hr]
      exact List.splitOn_append_cons_self [] r
    have hempty : "" ∈ (r.splitOn '/').map String.ofList ↔ [] ∈ r.splitOn '/' := by
      rw [List.mem_map]
      constructor
      · rintro ⟨seg, hseg, heq⟩
        rwa [← String.toList_ofList (l := seg), heq] at hseg
      · exact fun hmem => ⟨[], hmem, rfl⟩
    rw [hsplit, List.map_cons, List.tail_cons, hempty, hr, List.tail_cons, hroot]
    simp [hne]

/-- The handler path of the platform route. -/
theorem parseModuleRoute_rest (hname : PathSegment name) (hrest : PathRest rest) :
    (parseModuleRoute (name ++ rest)).2 = percentDecodeStr (restPath rest) := by
  unfold parseModuleRoute restPath
  rcases hrest.cases with rfl | ⟨r, hr⟩
  · rw [String.append_empty, if_neg hname.1, splitAtChar_of_notMem hname.2, if_pos rfl]
    exact (by decide : "/" = percentDecodeStr "/")
  · have htext : name ++ rest = String.ofList (name.toList ++ '/' :: r) := by
      refine String.toList_inj.mp ?_
      rw [String.toList_append, String.toList_ofList, hr]
    have hrestText : rest = String.ofList ('/' :: r) := by
      rw [← hr, String.ofList_toList]
    have hne : String.ofList (name.toList ++ '/' :: r) ≠ "" := fun h => by
      have := congrArg String.toList h
      simp at this
    have hne' : rest ≠ "" := by
      rintro rfl
      cases hr
    rw [htext, if_neg hne, splitAtChar_append hname.2, if_neg hne']
    dsimp only
    rw [decodeSegment_eq, ← hrestText]

/-- The handler path of the tenant route. -/
theorem parseModulePathRoute_rest (htenant : PathSegment tenantId) (hname : PathSegment name)
    (hrest : PathRest rest) :
    (parseModulePathRoute (tenantId ++ "/" ++ name ++ rest)).map Prod.snd =
      some (String.ofList (slashed (keptSegments (restSegments rest)))) := by
  have hlist : (tenantId ++ "/" ++ name ++ rest).toList =
      tenantId.toList ++ '/' :: (name.toList ++ rest.toList) := by
    rw [String.toList_append, String.toList_append, String.toList_append,
      toList_separator]
    simp
  have hsplit : (splitChar '/' (tenantId ++ "/" ++ name ++ rest)).filter (· ≠ "") =
      tenantId :: name :: ((restSegments rest).filter (· ≠ [])).map String.ofList := by
    have hfront : ∀ segs, (tenantId.toList :: name.toList :: segs).map String.ofList =
        tenantId :: name :: segs.map String.ofList := fun segs => by
      rw [List.map_cons, List.map_cons, String.ofList_toList, String.ofList_toList]
    unfold splitChar
    rw [hlist, List.splitOn_append_cons_self, List.splitOn_eq_singleton htenant.2,
      List.singleton_append]
    rcases hrest.cases with rfl | ⟨r, hr⟩
    · rw [show "".toList = [] by decide, List.append_nil, List.splitOn_eq_singleton hname.2, hfront,
        List.filter_cons_of_pos (by simp [htenant.1]), List.filter_cons_of_pos (by simp [hname.1])]
      rfl
    · rw [hr, List.splitOn_append_cons_self, List.splitOn_eq_singleton hname.2,
        List.singleton_append, hfront, List.filter_cons_of_pos (by simp [htenant.1]),
        List.filter_cons_of_pos (by simp [hname.1]), filter_map_ofList]
      unfold restSegments
      rw [hr, List.tail_cons]
  have hne : tenantId ++ "/" ++ name ++ rest ≠ "" := fun h => by
    rw [h] at hlist
    simp at hlist
  unfold parseModulePathRoute
  rw [if_neg hne, hsplit]
  unfold keptSegments
  by_cases hnil : (restSegments rest).filter (· ≠ []) = []
  · rw [if_pos hnil, hnil]
    rfl
  · rw [if_neg hnil, slashed_of_ne_nil hnil]
    dsimp only
    rw [if_neg (by rwa [List.map_eq_nil_iff])]
    rfl

/-! ## The two routes -/

theorem utf8_slashed (segs : List (List Char)) :
    utf8 (String.ofList (slashed segs)) =
      segs.flatMap fun seg => 0x2F :: seg.flatMap String.utf8EncodeChar := by
  rw [utf8_ofList, slashed, List.flatMap_assoc]
  rfl

/-- Segments are decoded one by one. -/
theorem percentDecode_slashed (segs : List (List Char)) :
    percentDecode (utf8 (String.ofList (slashed segs))) =
      segs.flatMap fun seg => 0x2F :: percentDecode (seg.flatMap String.utf8EncodeChar) := by
  rw [utf8_slashed]
  induction segs with
  | nil => rfl
  | cons seg segs ih =>
    rw [List.flatMap_cons, List.flatMap_cons, List.cons_append,
      percentDecode_cons_of_ne (by decide), List.cons_append, ← ih]
    congr 1
    cases segs with
    | nil => rw [List.flatMap_nil, List.append_nil, percentDecode, List.append_nil]
    | cons seg' segs =>
      rw [List.flatMap_cons, List.cons_append, percentDecode_slash,
        percentDecode_cons_of_ne (by decide)]

theorem slash_notMem_of_mem_keptSegments {seg : List Char}
    (h : seg ∈ keptSegments (restSegments rest)) : '/' ∉ seg := by
  rcases mem_of_mem_keptSegments h with rfl | hmem
  · exact List.not_mem_nil
  · exact slash_notMem_of_mem_splitOn hmem

/-- A text of segments has a slash for each of them. -/
theorem count_slash_slashed {segs : List (List Char)} (h : ∀ seg ∈ segs, '/' ∉ seg) :
    (utf8 (String.ofList (slashed segs))).count 0x2F = segs.length := by
  rw [utf8_slashed]
  induction segs with
  | nil => rfl
  | cons seg segs ih =>
    have hno : 0x2F ∉ seg.flatMap String.utf8EncodeChar := fun hmem => by
      have hslash := @mem_of_low_mem_utf8 (String.ofList seg) 0x2F (by decide)
        (by rwa [utf8_ofList])
      rw [String.toList_ofList] at hslash
      exact h seg List.mem_cons_self hslash
    rw [List.flatMap_cons, List.cons_append, List.count_cons_self, List.count_append,
      List.count_eq_zero_of_not_mem hno, ih fun s hs => h s (List.mem_cons_of_mem _ hs),
      List.length_cons, Nat.zero_add]

theorem length_le_count_slash (segs : List (List Char)) :
    segs.length ≤ (percentDecode (utf8 (String.ofList (slashed segs)))).count 0x2F := by
  rw [percentDecode_slashed]
  induction segs with
  | nil => exact Nat.zero_le _
  | cons seg segs ih =>
    rw [List.flatMap_cons, List.cons_append, List.count_cons_self, List.count_append,
      List.length_cons]
    omega

/-- The handler sees the same path on both routes. -/
def HandlerPathsAgree (tenantId name rest : String) : Prop :=
  (parseModulePathRoute (tenantId ++ "/" ++ name ++ rest)).map Prod.snd =
    some (parseModuleRoute (name ++ rest)).2

/-- The two routes hand over the same path for the rests without escapes whose segments are not
    empty, and for no others: the tenant route decodes nothing and drops empty segments. -/
theorem handler_paths_agree_iff (htenant : PathSegment tenantId) (hname : PathSegment name)
    (hrest : PathRest rest) :
    HandlerPathsAgree tenantId name rest ↔
      NothingDropped rest ∧ hasEscape (utf8 rest) = false := by
  have hescape : hasEscape (utf8 rest) = hasEscape (utf8 (restPath rest)) := by
    unfold restPath
    split
    · next hempty =>
      rw [hempty]
      decide
    · rfl
  unfold HandlerPathsAgree
  rw [parseModulePathRoute_rest htenant hname hrest, parseModuleRoute_rest hname hrest,
    Option.some_inj, nothingDropped_iff hrest, hescape, ← percentDecodeStr_eq_self_iff]
  constructor
  · intro h
    have hslashes := congrArg (fun s => (utf8 s).count 0x2F) h
    rw [count_slash_slashed fun seg hseg => slash_notMem_of_mem_keptSegments hseg] at hslashes
    have hdecoded : (utf8 (percentDecodeStr (restPath rest))).count 0x2F =
        (percentDecode (utf8 (restPath rest))).count 0x2F := by
      have hcount := count_lossy (by decide : (0x2F : UInt8).toNat < 0x80)
        (percentDecode (utf8 (restPath rest)))
      rw [utf8_percentDecodeStr, hcount]
    have hall := length_le_count_slash (restSegments rest)
    rw [slashed_restSegments hrest, ← hdecoded, ← hslashes] at hall
    have hkept := keptSegments_of_length restSegments_ne_nil hall
    rw [hkept, slashed_restSegments hrest] at h
    exact ⟨hkept, h.symm⟩
  · intro ⟨hkept, hsame⟩
    rw [hkept, slashed_restSegments hrest, hsame]

theorem handler_paths_agree_items :
    HandlerPathsAgree "acme" "orders" "/items/7" ↔
      NothingDropped "/items/7" ∧ hasEscape (utf8 "/items/7") = false :=
  handler_paths_agree_iff ⟨by decide, by decide⟩ ⟨by decide, by decide⟩ (Or.inr (by decide))

/-- An escape is decoded on one route only. -/
theorem escape_decoded_on_one_route :
    parseModuleRoute "orders/a%20b" = ("orders", "/a b") ∧
      parseModulePathRoute "acme/orders/a%20b" = some (.tenant "acme" "orders", "/a%20b") ∧
      ¬ HandlerPathsAgree "acme" "orders" "/a%20b" := by
  have hplatform : parseModuleRoute "orders/a%20b" = ("orders", "/a b") := by decide +kernel
  have htenant : parseModulePathRoute "acme/orders/a%20b" =
      some (.tenant "acme" "orders", "/a%20b") := by decide
  refine ⟨hplatform, htenant, fun h => ?_⟩
  have h' : (parseModulePathRoute "acme/orders/a%20b").map Prod.snd =
      some (parseModuleRoute "orders/a%20b").2 := h
  rw [hplatform, htenant] at h'
  exact absurd (Option.some.inj h') (by decide)

end

/-! ## The rewritten request -/

/-- What `http` makes of the text of a path and a query; `pathByte` are the bytes of a path. -/
structure PathAndQueryLaws (http : HttpLib) (pathByte : UInt8 → Bool) : Prop where
  delimiters : pathByte 0x3F = false ∧ pathByte 0x23 = false
  /-- A text of path bytes is a path without a query. -/
  accepts : ∀ uri text, uri.scheme.isSome = uri.authority.isSome → startsWith "/" text = true →
    (∀ b ∈ utf8 text, pathByte b = true) →
    http.withPathAndQuery uri text = some { uri with path := text, query := none }
  /-- A path ends at the first `?` or `#`, and is one of path bytes. -/
  reads : ∀ uri text uri', startsWith "/" text = true → http.withPathAndQuery uri text = some uri' →
    (∀ b ∈ utf8 uri'.path, pathByte b = true) ∧
      (uri'.path = text ∧ uri'.query = none ∨
        ∃ after, text = uri'.path ++ "?" ++ after ∨ text = uri'.path ++ "#" ++ after)

/-- The handler path a request is routed with. -/
def handlerPathOf (path : String) : Option String :=
  match stripPrefix "/tenant/" path with
  | some tenantPath => (parseModulePathRoute tenantPath).map Prod.snd
  | none => (stripPrefix "/run/" path).map fun runPath => (parseModuleRoute runPath).2

/-- The URI of the request, rewritten to its handler path. -/
def IsRewritten (http : HttpLib) (req : Request) (uri : Uri) : Prop :=
  ∃ handlerPath rewritten, handlerPathOf req.uri.path = some handlerPath ∧
    rewriteRequestPath http req handlerPath = .ok rewritten ∧ uri = rewritten.uri

/-- The rewrite succeeds, and what it makes has the query of the request and decodes to what the
    rest of its path decodes to. -/
def TargetPreserved (http : HttpLib) (req : Request) (rest : String) : Prop :=
  ∃ uri, IsRewritten http req uri ∧ uri.query = req.uri.query ∧
    percentDecode (utf8 uri.path) = percentDecode (utf8 (restPath rest))

def IsUtf8 (bs : List UInt8) : Prop := ∃ s : String, utf8 s = bs

/-- One decoding is the last: the decoded rest is a text of path bytes without escapes. -/
structure DecodedOnce (pathByte : UInt8 → Bool) (rest : String) : Prop where
  isUtf8 : IsUtf8 (percentDecode (utf8 (restPath rest)))
  noEscape : hasEscape (percentDecode (utf8 (restPath rest))) = false
  pathBytes : ∀ b ∈ percentDecode (utf8 (restPath rest)), pathByte b = true

section

variable {http : HttpLib} {pathByte : UInt8 → Bool} {req : Request} {text rest : String}

theorem isRewritten_iff {handlerPath : String} (h : handlerPathOf req.uri.path = some handlerPath)
    {uri : Uri} :
    IsRewritten http req uri ↔ http.withPathAndQuery req.uri handlerPath = some uri := by
  unfold IsRewritten rewriteRequestPath
  constructor
  · rintro ⟨handlerPath', rewritten, hpath, hok, rfl⟩
    obtain rfl := Option.some.inj (h.symm.trans hpath)
    cases hparsed : http.withPathAndQuery req.uri handlerPath with
    | none =>
      rw [hparsed] at hok
      cases hok
    | some uri =>
      rw [hparsed] at hok
      cases hok
      rfl
  · intro huri
    refine ⟨handlerPath, { req with uri := uri }, h, ?_, rfl⟩
    rw [huri]

/-- A text with no more ASCII bytes than what it has to decode to is not cut. -/
theorem preserved_iff_of_lowBytes (laws : PathAndQueryLaws http pathByte)
    (hpath : handlerPathOf req.uri.path = some text) (hslash : startsWith "/" text = true)
    (hparts : req.uri.scheme.isSome = req.uri.authority.isSome)
    (hlow : (lowBytes (utf8 text)).length ≤
      (lowBytes (percentDecode (utf8 (restPath rest)))).length) :
    TargetPreserved http req rest ↔ req.uri.query = none ∧
      (∀ b ∈ utf8 text, pathByte b = true) ∧
        percentDecode (utf8 text) = percentDecode (utf8 (restPath rest)) := by
  unfold TargetPreserved
  constructor
  · rintro ⟨uri, huri, hquery, hdecoded⟩
    rw [isRewritten_iff hpath] at huri
    obtain ⟨hbytes, ⟨rfl, hnone⟩ | ⟨after, hcut⟩⟩ := laws.reads _ _ _ hslash huri
    · exact ⟨hquery ▸ hnone, hbytes, hdecoded⟩
    · -- the delimiter is an ASCII byte that is lost
      have hshort : (lowBytes (utf8 uri.path)).length < (lowBytes (utf8 text)).length := by
        rcases hcut with rfl | rfl
        · rw [utf8_append, utf8_append, lowBytes_append, lowBytes_append, List.length_append,
            List.length_append, show (lowBytes (utf8 "?")).length = 1 by decide]
          omega
        · rw [utf8_append, utf8_append, lowBytes_append, lowBytes_append, List.length_append,
            List.length_append, show (lowBytes (utf8 "#")).length = 1 by decide]
          omega
      have hle := length_lowBytes_percentDecode_le (utf8 uri.path)
      rw [hdecoded] at hle
      omega
  · intro ⟨hquery, hbytes, hdecoded⟩
    have haccepted := laws.accepts req.uri text hparts hslash hbytes
    exact ⟨_, (isRewritten_iff hpath).mpr haccepted, hquery.symm, hdecoded⟩

/-- A decoded text decodes to the bytes it was decoded from only if these are its own and have no
    escape. -/
theorem percentDecode_lossy_iff {bs : List UInt8} :
    percentDecode ((fromUtf8Lossy bs).flatMap String.utf8EncodeChar) = bs ↔
      IsUtf8 bs ∧ hasEscape bs = false := by
  constructor
  · intro h
    have hlow : hasEscape ((fromUtf8Lossy bs).flatMap String.utf8EncodeChar) = false := by
      refine hasEscape_of_lowBytes ?_
      rw [h, lowBytes_lossy]
    rw [percentDecode_of_hasEscape hlow] at h
    rw [h] at hlow
    exact ⟨⟨String.ofList (fromUtf8Lossy bs), by rw [utf8_ofList, h]⟩, hlow⟩
  · rintro ⟨⟨s, rfl⟩, hescape⟩
    rw [lossy_utf8]
    exact percentDecode_of_hasEscape hescape

theorem utf8_lossy_of_isUtf8 {bs : List UInt8} (h : IsUtf8 bs) :
    (fromUtf8Lossy bs).flatMap String.utf8EncodeChar = bs := by
  obtain ⟨s, rfl⟩ := h
  rw [lossy_utf8]
  rfl

variable {name tenantId : String}

theorem handlerPathOf_platform (hname : PathSegment name) (hrest : PathRest rest)
    (hpath : req.uri.path = "/run/" ++ (name ++ rest)) :
    handlerPathOf req.uri.path = some (percentDecodeStr (restPath rest)) := by
  have htenant : stripPrefix "/tenant/" ("/run/" ++ (name ++ rest)) = none := by
    unfold stripPrefix
    rw [String.toList_append]
    exact if_neg (by simp)
  have hrun : stripPrefix "/run/" ("/run/" ++ (name ++ rest)) = some (name ++ rest) :=
    stripPrefix_eq_some_iff.mpr rfl
  unfold handlerPathOf
  rw [hpath, htenant, hrun]
  dsimp only
  rw [Option.map_some, parseModuleRoute_rest hname hrest]

theorem handlerPathOf_tenant (htenant : PathSegment tenantId) (hname : PathSegment name)
    (hrest : PathRest rest)
    (hpath : req.uri.path = "/tenant/" ++ (tenantId ++ "/" ++ name ++ rest)) :
    handlerPathOf req.uri.path =
      some (String.ofList (slashed (keptSegments (restSegments rest)))) := by
  have hstrip : stripPrefix "/tenant/" ("/tenant/" ++ (tenantId ++ "/" ++ name ++ rest)) =
      some (tenantId ++ "/" ++ name ++ rest) := stripPrefix_eq_some_iff.mpr rfl
  unfold handlerPathOf
  rw [hpath, hstrip]
  dsimp only
  rw [parseModulePathRoute_rest htenant hname hrest]

theorem startsWith_slash_restPath (hrest : PathRest rest) :
    ∃ cs, (restPath rest).toList = '/' :: cs := by
  unfold restPath
  rcases hrest.cases with rfl | ⟨r, hr⟩
  · exact ⟨[], by decide⟩
  · split
    · exact ⟨[], by decide⟩
    · exact ⟨r, hr⟩

/-- The platform route keeps the target of a request without a query whose rest is decoded by one
    decoding. -/
theorem platform_preserved_iff (laws : PathAndQueryLaws http pathByte) (hname : PathSegment name)
    (hrest : PathRest rest) (hparts : req.uri.scheme.isSome = req.uri.authority.isSome)
    (hpath : req.uri.path = "/run/" ++ (name ++ rest)) :
    TargetPreserved http req rest ↔ req.uri.query = none ∧ DecodedOnce pathByte rest := by
  have hlow : lowBytes (utf8 (percentDecodeStr (restPath rest))) =
      lowBytes (percentDecode (utf8 (restPath rest))) := by
    rw [utf8_percentDecodeStr, lowBytes_lossy]
  have hslash : startsWith "/" (percentDecodeStr (restPath rest)) = true := by
    obtain ⟨cs, hcs⟩ := startsWith_slash_restPath hrest
    have hbytes : utf8 (restPath rest) = 0x2F :: cs.flatMap String.utf8EncodeChar := by
      unfold utf8
      rw [hcs]
      rfl
    unfold startsWith percentDecodeStr
    rw [hbytes, percentDecode_cons_of_ne (by decide), lossy_one (by decide),
      toList_separator, String.toList_ofList]
    rfl
  rw [preserved_iff_of_lowBytes laws (handlerPathOf_platform hname hrest hpath) hslash hparts
    (Nat.le_of_eq (congrArg List.length hlow)), utf8_percentDecodeStr, percentDecode_lossy_iff]
  constructor
  · rintro ⟨hquery, hbytes, hutf8, hescape⟩
    rw [utf8_lossy_of_isUtf8 hutf8] at hbytes
    exact ⟨hquery, hutf8, hescape, hbytes⟩
  · rintro ⟨hquery, hutf8, hescape, hbytes⟩
    rw [utf8_lossy_of_isUtf8 hutf8]
    exact ⟨hquery, hbytes, hutf8, hescape⟩

/-- The bytes of the tenant handler path are bytes of the path. -/
theorem mem_utf8_kept {path : String} {b : UInt8} (hsuffix : ∃ front, path = front ++ rest)
    (hslash : 0x2F ∈ utf8 path) (hrest : PathRest rest)
    (h : b ∈ utf8 (String.ofList (slashed (keptSegments (restSegments rest))))) :
    b ∈ utf8 path := by
  rw [utf8_slashed] at h
  obtain ⟨seg, hseg, hb⟩ := List.mem_flatMap.mp h
  rcases List.mem_cons.mp hb with rfl | hb
  · exact hslash
  rcases mem_of_mem_keptSegments hseg with rfl | hmem
  · exact absurd hb List.not_mem_nil
  · obtain ⟨front, rfl⟩ := hsuffix
    have hall : b ∈ utf8 (restPath rest) := by
      rw [← slashed_restSegments hrest, utf8_slashed]
      exact List.mem_flatMap.mpr ⟨seg, hmem, List.mem_cons_of_mem _ hb⟩
    unfold restPath at hall
    split at hall
    · rw [show utf8 "/" = [0x2F] by decide, List.mem_singleton] at hall
      rw [hall]
      exact hslash
    · rw [utf8_append]
      exact List.mem_append_right _ hall

theorem tenant_preserved_iff (laws : PathAndQueryLaws http pathByte)
    (htenant : PathSegment tenantId) (hname : PathSegment name) (hrest : PathRest rest)
    (hparts : req.uri.scheme.isSome = req.uri.authority.isSome)
    (haccepted : ∀ b ∈ utf8 req.uri.path, pathByte b = true)
    (hpath : req.uri.path = "/tenant/" ++ (tenantId ++ "/" ++ name ++ rest)) :
    TargetPreserved http req rest ↔ req.uri.query = none ∧ NothingDropped rest := by
  have hhandler := handlerPathOf_tenant htenant hname hrest hpath
  have hslash : 0x2F ∈ utf8 req.uri.path := by
    rw [hpath, utf8_append]
    exact List.mem_append_left _ (by decide)
  have hsuffix : ∃ front, req.uri.path = front ++ rest := by
    refine ⟨"/tenant/" ++ (tenantId ++ "/" ++ name), ?_⟩
    simp only [hpath, String.append_assoc]
  have hstarts : startsWith "/" (String.ofList (slashed (keptSegments (restSegments rest)))) =
      true := by
    obtain ⟨seg, segs, hsegs⟩ :=
      List.exists_cons_of_ne_nil (keptSegments_ne_nil (restSegments rest))
    unfold startsWith
    rw [hsegs, slashed_cons, toList_separator, String.toList_ofList]
    rfl
  have hread := laws.accepts req.uri _ hparts hstarts fun b hb =>
    haccepted b (mem_utf8_kept hsuffix hslash hrest hb)
  have hpreserved : TargetPreserved http req rest ↔ req.uri.query = none ∧
      percentDecode (utf8 (String.ofList (slashed (keptSegments (restSegments rest))))) =
        percentDecode (utf8 (restPath rest)) := by
    unfold TargetPreserved
    simp only [isRewritten_iff hhandler, hread, Option.some_inj]
    constructor
    · rintro ⟨uri, rfl, hquery, hdecoded⟩
      exact ⟨hquery.symm, hdecoded⟩
    · rintro ⟨hquery, hdecoded⟩
      exact ⟨_, rfl, hquery.symm, hdecoded⟩
  rw [hpreserved, nothingDropped_iff hrest]
  refine and_congr_right fun _ => ⟨fun h => ?_, fun h => by rw [h, slashed_restSegments hrest]⟩
  rw [← slashed_restSegments hrest, percentDecode_slashed, percentDecode_slashed] at h
  have hlength := length_keptSegments
    (f := fun seg => 0x2F :: percentDecode (seg.flatMap String.utf8EncodeChar)) rfl
    (restSegments rest)
  rw [h] at hlength
  exact keptSegments_of_length restSegments_ne_nil (by omega)

end

/-! ## What is executed -/

section

variable {Comp : Type} {http : HttpLib} {req : Request}

/-- Every request a program hands to a component has the rewritten URI. -/
abbrev HandsRewritten {α : Type} (http : HttpLib) (req : Request) (Q : α → Prop)
    (p : Handler Comp α) : Prop :=
  p.Within (fun _ _ => True)
    (fun a => ∀ component req', a = .execute component req' → IsRewritten http req req'.uri) Q

/-- A resolution goes on with the handler path of the request. -/
def RoutedAs (path : String) : ModuleResolution Comp → Prop
  | .response _ => True
  | .success _ handlerPath _ _ => handlerPathOf path = some handlerPath

theorem handsRewritten_call {a : Action Comp} (h : ∀ component req', a ≠ .execute component req') :
    HandsRewritten http req (fun _ => True) (call a) :=
  ⟨fun component req' heq => absurd heq (h component req'), fun _ _ => trivial⟩

theorem handsRewritten_getModuleSemaphore (key : String) :
    HandsRewritten http req (fun _ => True) (getModuleSemaphore key : Handler Comp Nat) := by
  refine (handsRewritten_call (by simp)).bind fun found _ => ?_
  cases found with
  | some semaphore => trivial
  | none => exact handsRewritten_call (by simp)

theorem handsRewritten_resolveKeyed (host : Host Comp) (key shown : String)
    {load : Handler Comp (Except Error Comp)}
    (hload : HandsRewritten http req (fun _ => True) load) {path handlerPath : String}
    (h : handlerPathOf path = some handlerPath) :
    HandsRewritten http req (RoutedAs path) (resolveKeyed host key shown load handlerPath) := by
  unfold resolveKeyed passGate
  refine (handsRewritten_call (by simp)).bind fun checked _ => ?_
  cases checked with
  | error e => trivial
  | ok u =>
    refine (handsRewritten_getModuleSemaphore key).bind fun semaphore _ => ?_
    refine (handsRewritten_call (by simp)).bind fun acquired _ => ?_
    cases acquired with
    | false => trivial
    | true =>
      refine hload.bind fun loaded _ => ?_
      cases loaded with
      | ok component => exact h
      | error e =>
        exact (handsRewritten_call (by simp)).bind fun _ _ =>
          (handsRewritten_call (by simp)).bind fun _ _ => trivial

theorem handsRewritten_resolveModule (host : Host Comp) (path : String) :
    HandsRewritten http req (RoutedAs path) (resolveModule host path) := by
  unfold resolveModule
  cases hrun : stripPrefix "/run/" path with
  | none => trivial
  | some runPath =>
    have hpath : handlerPathOf path = some (parseModuleRoute runPath).2 := by
      have htenant : stripPrefix "/tenant/" path = none := by
        have hstarts := (startsWith_of_run hrun).2.2.2.2.2
        unfold startsWith at hstarts
        unfold stripPrefix
        rw [hstarts, if_neg Bool.false_ne_true]
      unfold handlerPathOf
      rw [htenant, hrun]
      rfl
    dsimp only
    split
    · trivial
    split
    · split
      · exact hpath
      · trivial
    · exact handsRewritten_resolveKeyed host _ _ (handsRewritten_call (by simp)) hpath

theorem handsRewritten_loadOf (p : ModulePath) :
    HandsRewritten http req (fun _ => True) (loadOf p : Handler Comp (Except Error Comp)) := by
  cases p with
  | platform name => exact handsRewritten_call (by simp)
  | tenant tenantId name => exact handsRewritten_call (by simp)

theorem handsRewritten_resolvePath (host : Host Comp) (path : String) :
    HandsRewritten http req (RoutedAs path) (resolvePath host path) := by
  unfold resolvePath
  split
  · rcases resolveTenantModule_cases host path with
      ⟨p, handlerPath, hgate, hres⟩ | ⟨-, resp, hres⟩
    · have hpath : handlerPathOf path = some handlerPath := by
        unfold tenantGate at hgate
        unfold handlerPathOf
        cases hstrip : stripPrefix "/tenant/" path with
        | none =>
          rw [hstrip] at hgate
          cases hgate
        | some tenantPath =>
          rw [hstrip] at hgate
          dsimp only at hgate ⊢
          split at hgate
          · cases hgate
          split at hgate
          · next hparse =>
            cases hgate
            rw [hparse]
            rfl
          · cases hgate
      rw [hres]
      exact handsRewritten_resolveKeyed host _ _ (handsRewritten_loadOf p) hpath
    · rw [hres]
      trivial
  · exact handsRewritten_resolveModule host path

theorem handsRewritten_dropPermit (permit : Option Nat) :
    HandsRewritten http req (fun _ => True) (dropPermit permit : Handler Comp Unit) := by
  cases permit with
  | none => trivial
  | some semaphore => exact handsRewritten_call (by simp)

theorem handsRewritten_recordOutcome (moduleName : Option String)
    (result : Except Error Response) :
    HandsRewritten http req (fun _ => True)
      (recordOutcome moduleName result : Handler Comp Unit) := by
  cases moduleName with
  | none => trivial
  | some name =>
    cases result with
    | ok resp => exact handsRewritten_call (by simp)
    | error e => exact handsRewritten_call (by simp)

theorem handsRewritten_executeResolved (host : Host Comp) (gzip : Bool) (component : Comp)
    {handlerPath : String} (moduleName : Option String) (permit : Option Nat)
    (h : handlerPathOf req.uri.path = some handlerPath) :
    HandsRewritten http req (fun _ => True)
      (executeResolved host http req gzip component handlerPath moduleName permit) := by
  unfold executeResolved
  split
  · exact (handsRewritten_dropPermit permit).bind fun _ _ => trivial
  next rewritten hok =>
  split
  · exact (handsRewritten_dropPermit permit).bind fun _ _ => trivial
  · exact (handsRewritten_dropPermit permit).bind fun _ _ => trivial
  · refine ⟨fun component' req' heq => ?_, fun x _ => ?_⟩
    · cases heq
      exact ⟨handlerPath, rewritten, h, hok, rfl⟩
    · refine (handsRewritten_recordOutcome moduleName x.result).bind fun _ _ =>
        (handsRewritten_dropPermit permit).bind fun _ _ => ?_
      split
      · trivial
      · trivial

theorem handsRewritten_handleModuleRequest (host : Host Comp) (gzip : Bool) :
    HandsRewritten http req (fun _ => True) (handleModuleRequest host http req gzip) := by
  unfold handleModuleRequest
  refine (handsRewritten_resolvePath host req.uri.path).bind fun res hres => ?_
  cases res with
  | response resp => trivial
  | success component handlerPath moduleName permit =>
    exact handsRewritten_executeResolved host gzip component moduleName permit hres

theorem handsRewritten_executeFull {full : FullRequest} (gzip : Bool) (component : Comp)
    {handlerPath : String} (moduleName : Option String) (permit : Option Nat)
    (h : handlerPathOf full.uri.path = some handlerPath) :
    HandsRewritten http full.toRequest (fun _ => True)
      (executeFull http full gzip component handlerPath moduleName permit) := by
  unfold executeFull
  split
  · exact (handsRewritten_dropPermit permit).bind fun _ _ => trivial
  · next rewritten hok =>
    refine ⟨fun component' req' heq => ?_, fun x _ => ?_⟩
    · cases heq
      exact ⟨handlerPath, rewritten, h, hok, rfl⟩
    · refine (handsRewritten_recordOutcome moduleName x.result).bind fun _ _ =>
        (handsRewritten_dropPermit permit).bind fun _ _ => ?_
      split
      · trivial
      · trivial

theorem handsRewritten_handleRequestInternal (host : Host Comp) (full : FullRequest) :
    HandsRewritten http full.toRequest (fun _ => True)
      (handleRequestInternal host http full) := by
  unfold handleRequestInternal
  dsimp only
  split
  · exact handsRewritten_call (by simp)
  split
  · trivial
  split
  · trivial
  split
  · exact handsRewritten_call (by simp)
  split
  · trivial
  · next runPath hrun =>
    rw [handleRun_eq host http full hrun]
    refine (handsRewritten_resolveModule host full.uri.path).bind fun res hres => ?_
    cases res with
    | response resp => trivial
    | success component handlerPath moduleName permit =>
      exact handsRewritten_executeFull _ component moduleName permit hres

/-- Whatever is executed in a run of such a program. -/
theorem executions_rewritten {α : Type} {p : Handler Comp α} {Q : α → Prop}
    (hp : HandsRewritten http req Q p) {tr : List (HandlerEvent Comp)} {out : α}
    (h : Exec p tr out) : ∀ e ∈ executions tr, IsRewritten http req e.2.uri := by
  intro e he
  obtain ⟨ev, hev, hexec⟩ := List.mem_filterMap.mp he
  have hall := Within.of_exec hp h ev hev
  split at hexec
  · next component req' heq =>
    cases hexec
    exact hall component req' heq
  · cases hexec

end

/-! ## The target of a request -/

/-- A request without a query keeps its target on the platform route exactly when its rest is
    decoded by one decoding, and on the tenant route exactly when nothing is dropped from its
    rest; a query is always lost. What either handler executes has the URI this is about. -/
theorem target_preserved_iff {http : HttpLib} {pathByte : UInt8 → Bool}
    (laws : PathAndQueryLaws http pathByte) {req : Request} {tenantId name rest : String}
    (htenant : PathSegment tenantId) (hname : PathSegment name) (hrest : PathRest rest)
    (hparts : req.uri.scheme.isSome = req.uri.authority.isSome)
    (haccepted : ∀ b ∈ utf8 req.uri.path, pathByte b = true) :
    (req.uri.path = "/run/" ++ (name ++ rest) →
      (TargetPreserved http req rest ↔ req.uri.query = none ∧ DecodedOnce pathByte rest)) ∧
    (req.uri.path = "/tenant/" ++ (tenantId ++ "/" ++ name ++ rest) →
      (TargetPreserved http req rest ↔ req.uri.query = none ∧ NothingDropped rest)) ∧
    (∀ (Comp : Type) (host : Host Comp) (gzip : Bool) (tr : List (HandlerEvent Comp))
      (out : Except Error Response), Exec (handleModuleRequest host http req gzip) tr out →
      ∀ e ∈ executions tr, IsRewritten http req e.2.uri) ∧
    (∀ (Comp : Type) (host : Host Comp) (full : FullRequest) (tr : List (HandlerEvent Comp))
      (out : Except Error Response), Exec (handleRequestInternal host http full) tr out →
      ∀ e ∈ executions tr, IsRewritten http full.toRequest e.2.uri) :=
  ⟨platform_preserved_iff laws hname hrest hparts,
    tenant_preserved_iff laws htenant hname hrest hparts haccepted,
    fun _ host gzip _ _ h => executions_rewritten (handsRewritten_handleModuleRequest host gzip) h,
    fun _ host full _ _ h =>
      executions_rewritten (handsRewritten_handleRequestInternal host full) h⟩

/-- The bytes of a path that `http` takes as they are. -/
def uriPathByte (b : UInt8) : Bool :=
  let n := b.toNat
  n == 0x21 || n == 0x22 || (0x24 ≤ n && n ≤ 0x3B) || n == 0x3D || (0x40 ≤ n && n ≤ 0x5F) ||
    (0x61 ≤ n && n ≤ 0xFF)

/-- A path up to the first `?` or `#`, then a query up to a `#`. -/
def parsePathAndQuery (text : String) : Option (String × Option String) :=
  let path := String.ofList (text.toList.takeWhile fun c => c != '?' && c != '#')
  if (utf8 path).all uriPathByte then
    match text.toList.dropWhile fun c => c != '?' && c != '#' with
    | '?' :: query => some (path, some (String.ofList (query.takeWhile (· ≠ '#'))))
    | _ => some (path, none)
  else none

/-- A server that reads its URIs so. -/
def plainHttp : HttpLib where
  withPathAndQuery uri text :=
    if uri.scheme.isSome = uri.authority.isSome then
      (parsePathAndQuery text).map fun read => { uri with path := read.1, query := read.2 }
    else none
  parseUri _ := none
  parseMethod := some
  parseHeaderName := some
  headerValueOk _ := true
  compress := id

theorem parsePathAndQuery_of_bytes {text : String} (h : ∀ b ∈ utf8 text, uriPathByte b = true) :
    parsePathAndQuery text = some (text, none) := by
  have hchars : ∀ c ∈ text.toList, (c != '?' && c != '#') = true := by
    intro c hc
    have hbytes : ∀ b ∈ String.utf8EncodeChar c, uriPathByte b = true :=
      fun b hb => h b (List.mem_flatMap.mpr ⟨c, hc, hb⟩)
    rw [Bool.and_eq_true, bne_iff_ne, bne_iff_ne]
    refine ⟨?_, ?_⟩
    · rintro rfl
      exact absurd (hbytes 0x3F (by decide)) (by decide)
    · rintro rfl
      exact absurd (hbytes 0x23 (by decide)) (by decide)
  have htake : text.toList.takeWhile (fun c => c != '?' && c != '#') = text.toList :=
    List.takeWhile_eq_self_iff.mpr hchars
  have hdrop : text.toList.dropWhile (fun c => c != '?' && c != '#') = [] :=
    List.dropWhile_eq_nil_iff.mpr hchars
  unfold parsePathAndQuery
  rw [htake, hdrop, String.ofList_toList]
  exact if_pos (List.all_eq_true.mpr h)

theorem parsePathAndQuery_some {text path : String} {query : Option String}
    (h : parsePathAndQuery text = some (path, query)) :
    (∀ b ∈ utf8 path, uriPathByte b = true) ∧
      (path = text ∧ query = none ∨
        ∃ after, text = path ++ "?" ++ after ∨ text = path ++ "#" ++ after) := by
  have hcut : ∀ {c : Char} {after : List Char},
      text.toList.dropWhile (fun c => c != '?' && c != '#') = c :: after →
      text = String.ofList (text.toList.takeWhile fun c => c != '?' && c != '#') ++
        String.ofList [c] ++ String.ofList after := by
    intro c after hdrop
    refine String.toList_inj.mp ?_
    rw [String.toList_append, String.toList_append, String.toList_ofList, String.toList_ofList,
      String.toList_ofList, List.append_assoc, List.singleton_append, ← hdrop,
      List.takeWhile_append_dropWhile]
  unfold parsePathAndQuery at h
  dsimp only at h
  split at h
  · next hbytes =>
    rw [List.all_eq_true] at hbytes
    split at h
    · next after hdrop =>
      cases h
      exact ⟨hbytes, Or.inr ⟨String.ofList after, Or.inl (hcut hdrop)⟩⟩
    · next hno =>
      cases h
      refine ⟨hbytes, ?_⟩
      cases hdrop : text.toList.dropWhile fun c => c != '?' && c != '#' with
      | nil =>
        refine Or.inl ⟨String.toList_inj.mp ?_, rfl⟩
        have hjoin := @List.takeWhile_append_dropWhile _ (fun c => c != '?' && c != '#')
          text.toList
        rw [hdrop, List.append_nil] at hjoin
        rw [String.toList_ofList, hjoin]
      | cons c after =>
        have hhead := List.head_dropWhile_not (fun c => c != '?' && c != '#')
          (by rw [hdrop]; exact List.cons_ne_nil c after)
        simp only [hdrop, List.head_cons, Bool.and_eq_false_iff, bne_eq_false_iff_eq] at hhead
        rcases hhead with rfl | rfl
        · exact absurd hdrop (hno after)
        · exact Or.inr ⟨String.ofList after, Or.inr (hcut hdrop)⟩
  · cases h

theorem plainHttp_laws : PathAndQueryLaws plainHttp uriPathByte where
  delimiters := by decide
  accepts := by
    intro uri text hparts _ hbytes
    unfold plainHttp
    dsimp only
    rw [if_pos hparts, parsePathAndQuery_of_bytes hbytes]
    rfl
  reads := by
    intro uri text uri' _ huri
    unfold plainHttp at huri
    dsimp only at huri
    split at huri
    · obtain ⟨⟨path, query⟩, hread, rfl⟩ := Option.map_eq_some_iff.mp huri
      exact parsePathAndQuery_some hread
    · cases huri

/-- `/run/orders/items/7` keeps its target. -/
def itemRequest : Request := ⟨"GET", ⟨none, none, "/run/orders/items/7", none⟩, [], ⟨[], none⟩⟩

theorem target_preserved_items :
    TargetPreserved plainHttp itemRequest "/items/7" ↔
      itemRequest.uri.query = none ∧ DecodedOnce uriPathByte "/items/7" :=
  (@target_preserved_iff plainHttp uriPathByte plainHttp_laws itemRequest "acme" "orders" "/items/7"
    ⟨by decide, by decide⟩ ⟨by decide, by decide⟩ (Or.inr (by decide)) rfl
    (by decide +kernel)).1 (by decide)

/-- The query is not handed over, a blank cannot be put into the new URI, and an encoded `?` cuts
    the path. -/
theorem target_not_preserved :
    ¬ TargetPreserved plainHttp
        ⟨"GET", ⟨none, none, "/run/orders/items", some "limit=5"⟩, [], ⟨[], none⟩⟩ "/items" ∧
      rewriteRequestPath plainHttp
        ⟨"GET", ⟨none, none, "/run/orders/a%20b", none⟩, [], ⟨[], none⟩⟩ "/a b" =
          .error (.other "invalid uri") ∧
      plainHttp.withPathAndQuery ⟨none, none, "/run/orders/a%3Fb", none⟩ "/a?b" =
        some ⟨none, none, "/a", some "b"⟩ := by
  refine ⟨?_, by decide +kernel, by decide⟩
  rintro ⟨uri, huri, hquery, -⟩
  have hpath : handlerPathOf "/run/orders/items" = some "/items" := by decide +kernel
  rw [isRewritten_iff hpath] at huri
  have hread : plainHttp.withPathAndQuery ⟨none, none, "/run/orders/items", some "limit=5"⟩
      "/items" = some ⟨none, none, "/items", none⟩ := by decide
  rw [hread] at huri
  obtain rfl := Option.some.inj huri
  cases hquery

end Mik.Runtime
