/-
  The source of a script before it runs (`preprocess_script` of `src/runtime/script/context.rs`).

  Four patterns, all beginning with `export default`, are replaced wherever they occur, and the call
  that is put behind depends on whether `export default async` occurs anywhere. The export itself is
  the first place where one of them can begin (`rewrite_form`). What goes wrong, and when: an arrow
  function gets the word `function` in front of its parameters, and the texts may occur in the body,
  in a string or a comment (`preprocess_exact_iff`).
-/
import Mik.Lib.Rewrite
import Mik.Runtime.Http

namespace Mik.Runtime

open Mik.Lib Mik.Lib.Rewrite

/-! ## The source -/

/-- `str::replace`. -/
def strReplace (p r s : String) : String := String.ofList (replace p.toList r.toList s.toList)

/-- The replacements in their order. -/
def replacements : List (String × String) :=
  [("export default async function", "var __default__ = async function"),
    ("export default function", "var __default__ = function"),
    ("export default async (", "var __default__ = async function("),
    ("export default (", "var __default__ = function(")]

def asyncCall : String :=
  "\nvar __async_result__ = \x7b resolved: false, value: null, error: null \x7d;\n" ++
  "__default__(input).then(\n" ++
  "function(r) \x7b __async_result__.resolved = true; __async_result__.value = r; \x7d,\n" ++
  "function(e) \x7b __async_result__.resolved = true; " ++
  "__async_result__.error = e ? e.toString() : 'Unknown error'; \x7d\n" ++
  ");\n" ++
  "__async_result__;"

def syncCall : String := "\n__default__(input);"

/-- The call put behind a script. -/
def callSuffix (isAsync : Bool) : String := if isAsync then asyncCall else syncCall

def preprocessScript (script : String) : String :=
  let isAsync := containsText "export default async" script
  let transformed := replacements.foldl (fun s rule => strReplace rule.1 rule.2 s) script
  transformed ++ callSuffix isAsync

/-! ## What is exported -/

/-- A function or an arrow function, `async` or not. -/
structure Exported (f : String) : Prop where
  form : startsWith "function" f = true ∨ startsWith "async function" f = true ∨
    startsWith "(" f = true ∨ startsWith "async (" f = true

/-- The export is written with `function`, and mentions no text that is looked for. -/
structure Unmentioned (f : String) : Prop where
  form : startsWith "function" f = true ∨ startsWith "async function" f = true
  patterns : ∀ rule ∈ replacements, containsText rule.1 f = false
  flag : startsWith "async" f = true ∨ containsText "export default async" f = false

/-- Only the words of the export are rewritten, and the call is of its kind. -/
def RewrittenExactly (a f : String) : Prop :=
  preprocessScript (a ++ "export default " ++ f) =
    a ++ "var __default__ = " ++ f ++ callSuffix (startsWith "async" f)

instance (a f : String) : Decidable (RewrittenExactly a f) := inferInstanceAs (Decidable (_ = _))

/-! ## The rules as lists -/

def rules : List (List Char × List Char) :=
  replacements.map fun rule => (rule.1.toList, rule.2.toList)

/-- What every pattern begins with. -/
def exportDefault : List Char := "export default".toList

theorem toList_transformed (script : String) :
    (replacements.foldl (fun s rule => strReplace rule.1 rule.2 s) script).toList =
      rewrite rules script.toList := by
  unfold rewrite rules
  rw [List.foldl_map]
  induction replacements generalizing script with
  | nil => rfl
  | cons rule rest ih =>
    rw [List.foldl_cons, List.foldl_cons, ih]
    unfold strReplace
    rw [String.toList_ofList]

theorem rules_grow : ∀ rule ∈ rules, rule.1 ≠ [] ∧ rule.1.length < rule.2.length := by decide

theorem exportDefault_prefix : ∀ rule ∈ rules, exportDefault <+: rule.1 := by decide

section

variable {a : List Char}

/-- A text that mentions no export, and one behind it where no pattern begins: none begins in the
    two. -/
theorem notStarting_front (ha : ¬ exportDefault <:+: a) {p w : List Char}
    (hp : exportDefault <+: p) (hapart : Apart exportDefault w) (hclear : Clear p w)
    (t : List Char) : NotStarting p (a ++ w) t :=
  NotStarting.append ((notStarting_of_apart ha hapart t).of_longer hp) (hclear.notStarting t)

/-- The export is rewritten by the rule of its form, what follows by all of them. -/
theorem rewrite_form (ha : ¬ exportDefault <:+: a) {before after : List (List Char × List Char)}
    {p r : List Char} (hrules : rules = before ++ (p, r) :: after)
    (hp : Apart exportDefault p) (hr : Apart exportDefault r)
    (hbefore : ∀ rule ∈ before, Clear rule.1 p) (hafter : ∀ rule ∈ after, Clear rule.1 r)
    (t : List Char) : rewrite rules (a ++ p ++ t) = a ++ r ++ rewrite rules t := by
  have hfront := exportDefault_prefix
  have hne := (rules_grow (p, r) (by rw [hrules]; exact List.mem_append_right _ List.mem_cons_self)).1
  rw [hrules] at hfront ⊢
  refine rewrite_occurrence hne (fun rule hrule t => ?_) (fun t => ?_) (fun rule hrule t => ?_) t
  · exact notStarting_front ha (hfront rule (List.mem_append_left _ hrule)) hp
      (hbefore rule hrule) t
  · exact (notStarting_of_apart ha hp t).of_longer
      (hfront (p, r) (List.mem_append_right _ List.mem_cons_self))
  · exact notStarting_front ha
      (hfront rule (List.mem_append_right _ (List.mem_cons_of_mem _ hrule))) hr
      (hafter rule hrule) t

theorem rewrite_function (ha : ¬ exportDefault <:+: a) (t : List Char) :
    rewrite rules (a ++ "export default function".toList ++ t) =
      a ++ "var __default__ = function".toList ++ rewrite rules t :=
  @rewrite_form a ha [_] [_, _] _ _ rfl (by decide) (by decide) (by decide) (by decide) t

theorem rewrite_asyncFunction (ha : ¬ exportDefault <:+: a) (t : List Char) :
    rewrite rules (a ++ "export default async function".toList ++ t) =
      a ++ "var __default__ = async function".toList ++ rewrite rules t :=
  @rewrite_form a ha [] [_, _, _] _ _ rfl (by decide) (by decide) (by decide) (by decide) t

theorem rewrite_arrow (ha : ¬ exportDefault <:+: a) (t : List Char) :
    rewrite rules (a ++ "export default (".toList ++ t) =
      a ++ "var __default__ = function(".toList ++ rewrite rules t :=
  @rewrite_form a ha [_, _, _] [] _ _ rfl (by decide) (by decide) (by decide) (by decide) t

theorem rewrite_asyncArrow (ha : ¬ exportDefault <:+: a) (t : List Char) :
    rewrite rules (a ++ "export default async (".toList ++ t) =
      a ++ "var __default__ = async function(".toList ++ rewrite rules t :=
  @rewrite_form a ha [_, _] [_] _ _ rfl (by decide) (by decide) (by decide) (by decide) t

end

/-! ## The call -/

/-- The two calls end differently, so the text in front can be told. -/
theorem append_callSuffix_inj {x y : List Char} {b b' : Bool} :
    x ++ (callSuffix b).toList = y ++ (callSuffix b').toList ↔ b = b' ∧ x = y := by
  have hdiff : ∀ x y : List Char, x ++ asyncCall.toList ≠ y ++ syncCall.toList := by
    intro x y heq
    have hlast : "__async_result__;".toList <:+ asyncCall.toList := by
      unfold asyncCall
      rw [String.toList_append]
      exact List.suffix_append _ _
    have hend : ['_', ';'] <:+ "__async_result__;".toList := by decide
    obtain ⟨u, hu⟩ := hend.trans hlast
    obtain ⟨v, hv⟩ : [')', ';'] <:+ syncCall.toList := by decide
    rw [← hu, ← hv, ← List.append_assoc, ← List.append_assoc] at heq
    exact absurd (List.append_inj_right' heq rfl) (by decide)
  constructor
  · intro h
    have hflag : b = b' := by
      cases b with
      | true =>
        cases b' with
        | true => rfl
        | false => exact absurd h (hdiff x y)
      | false =>
        cases b' with
        | true => exact absurd h.symm (hdiff y x)
        | false => rfl
    subst hflag
    exact ⟨rfl, List.append_cancel_right h⟩
  · rintro ⟨rfl, rfl⟩
    rfl

/-- The rewriting is exact when the kind of the call is right and the text is. -/
theorem rewrittenExactly_iff (a f : String) :
    RewrittenExactly a f ↔
      containsText "export default async" (a ++ "export default " ++ f) = startsWith "async" f ∧
        rewrite rules (a.toList ++ ("export default ".toList ++ f.toList)) =
          a.toList ++ ("var __default__ = ".toList ++ f.toList) := by
  have htext : (a ++ "export default " ++ f).toList =
      a.toList ++ ("export default ".toList ++ f.toList) := by
    simp only [String.toList_append, List.append_assoc]
  have htarget : (a ++ "var __default__ = " ++ f).toList =
      a.toList ++ ("var __default__ = ".toList ++ f.toList) := by
    simp only [String.toList_append, List.append_assoc]
  have hsuffix : ∀ (x : String) (b : Bool),
      (x ++ callSuffix b).toList = x.toList ++ (callSuffix b).toList :=
    fun _ _ => String.toList_append
  unfold RewrittenExactly preprocessScript
  dsimp only
  rw [← String.toList_inj, hsuffix, hsuffix, toList_transformed, htext, htarget,
    append_callSuffix_inj]

/-! ## The four forms -/

section

variable {a g : String}

/-- A word of the export, in which no pattern begins, hides nothing that follows. -/
theorem containsText_word {p w : String} (hclear : Clear p.toList w.toList) (g : String) :
    containsText p (w ++ g) = false ↔ ¬ p.toList <:+: g.toList := by
  rw [← Bool.not_eq_true, containsText_iff, String.toList_append,
    (hclear.notStarting g.toList).infix_append_iff]

/-- A text that ends with the word of the export, between what is in front and behind. -/
theorem toList_word {x w p : String} (h : x.toList ++ w.toList = p.toList) (a g : String) :
    a.toList ++ (x.toList ++ (w ++ g).toList) = a.toList ++ p.toList ++ g.toList := by
  rw [String.toList_append, ← h]
  simp only [List.append_assoc]

/-- An export whose word is kept by its rule. -/
theorem exactly_word_iff {w p r : String} (hp : "export default ".toList ++ w.toList = p.toList)
    (hr : "var __default__ = ".toList ++ w.toList = r.toList)
    (hclear : ∀ rule ∈ replacements, Clear rule.1.toList w.toList)
    (hrewrite : ∀ t, rewrite rules (a.toList ++ p.toList ++ t) =
      a.toList ++ r.toList ++ rewrite rules t) (g : String) :
    RewrittenExactly a (w ++ g) ↔
      containsText "export default async" (a ++ "export default " ++ (w ++ g)) =
          startsWith "async" (w ++ g) ∧
        ∀ rule ∈ replacements, containsText rule.1 (w ++ g) = false := by
  have hpatterns : (∀ rule ∈ replacements, containsText rule.1 (w ++ g) = false) ↔
      ∀ rule ∈ rules, ¬ rule.1 <:+: g.toList := by
    unfold rules
    rw [List.forall_mem_map]
    exact forall₂_congr fun rule hrule => containsText_word (hclear rule hrule) g
  rw [rewrittenExactly_iff, toList_word hp, toList_word hr, hrewrite, List.append_cancel_left_eq,
    rewrite_eq_self_iff rules_grow, hpatterns]

theorem exactly_function_iff (ha : ¬ exportDefault <:+: a.toList) (g : String) :
    RewrittenExactly a ("function" ++ g) ↔ Unmentioned ("function" ++ g) := by
  have hstarts : startsWith "function" ("function" ++ g) = true := startsWith_iff.mpr ⟨g, rfl⟩
  have hasync : startsWith "async" ("function" ++ g) = false := by
    unfold startsWith
    rw [String.toList_append]
    rfl
  have hp : "export default ".toList ++ "function".toList =
      "export default function".toList := by decide
  have hflag : containsText "export default async" (a ++ "export default " ++ ("function" ++ g)) =
      false ↔ containsText "export default async" ("function" ++ g) = false := by
    have hfront : NotStarting "export default async".toList
        (a.toList ++ "export default function".toList) g.toList :=
      notStarting_front ha (by decide) (by decide) (by decide) g.toList
    have htext : (a ++ "export default " ++ ("function" ++ g)).toList =
        a.toList ++ "export default function".toList ++ g.toList := by
      rw [String.toList_append, String.toList_append, List.append_assoc, toList_word hp]
    rw [@containsText_word "export default async" "function" (by decide), ← Bool.not_eq_true,
      containsText_iff, htext, hfront.infix_append_iff]
  have hr : "var __default__ = ".toList ++ "function".toList =
      "var __default__ = function".toList := by decide
  rw [exactly_word_iff hp hr (by decide) (rewrite_function ha) g, hasync, hflag]
  constructor
  · rintro ⟨hno, hall⟩
    exact ⟨Or.inl hstarts, hall, Or.inr hno⟩
  · intro h
    refine ⟨h.flag.resolve_left ?_, h.patterns⟩
    rw [hasync]
    exact Bool.false_ne_true

theorem exactly_asyncFunction_iff (ha : ¬ exportDefault <:+: a.toList) (g : String) :
    RewrittenExactly a ("async function" ++ g) ↔ Unmentioned ("async function" ++ g) := by
  have hstarts : startsWith "async function" ("async function" ++ g) = true :=
    startsWith_iff.mpr ⟨g, rfl⟩
  have hasync : startsWith "async" ("async function" ++ g) = true :=
    startsWith_iff.mpr ⟨" function" ++ g, by rw [← String.append_assoc]; rfl⟩
  have hp : "export default ".toList ++ "async function".toList =
      "export default async function".toList := by decide
  have hflag : containsText "export default async"
      (a ++ "export default " ++ ("async function" ++ g)) = true := by
    have hmention : "export default async".toList ++ " function".toList =
        "export default async function".toList := by decide
    rw [containsText_iff, String.toList_append, String.toList_append, List.append_assoc,
      toList_word hp, ← hmention, ← List.append_assoc, List.append_assoc]
    exact List.infix_append _ _ _
  have hr : "var __default__ = ".toList ++ "async function".toList =
      "var __default__ = async function".toList := by decide
  rw [exactly_word_iff hp hr (by decide) (rewrite_asyncFunction ha) g, hasync, hflag]
  exact ⟨fun h => ⟨Or.inr hstarts, h.2, Or.inl hasync⟩, fun h => ⟨rfl, h.patterns⟩⟩

/-- An arrow function gets the word `function` in front of its parameters. -/
theorem not_exactly_arrow (ha : ¬ exportDefault <:+: a.toList) (g : String) :
    ¬ RewrittenExactly a ("(" ++ g) := by
  intro h
  obtain ⟨-, heq⟩ := (rewrittenExactly_iff a ("(" ++ g)).mp h
  have hp : "export default ".toList ++ "(".toList = "export default (".toList := by decide
  rw [toList_word hp, rewrite_arrow ha, List.append_assoc, List.append_cancel_left_eq,
    String.toList_append] at heq
  simp at heq

theorem not_exactly_asyncArrow (ha : ¬ exportDefault <:+: a.toList) (g : String) :
    ¬ RewrittenExactly a ("async (" ++ g) := by
  intro h
  obtain ⟨-, heq⟩ := (rewrittenExactly_iff a ("async (" ++ g)).mp h
  have hp : "export default ".toList ++ "async (".toList =
      "export default async (".toList := by decide
  rw [toList_word hp, rewrite_asyncArrow ha, List.append_assoc, List.append_cancel_left_eq,
    String.toList_append] at heq
  simp at heq

end

/-- The export is all that is rewritten exactly when it is written with `function` and neither the
    patterns nor, for a synchronous one, `export default async` occur in it. -/
theorem preprocess_exact_iff (a f : String) (ha : containsText "export default" a = false)
    (hf : Exported f) : RewrittenExactly a f ↔ Unmentioned f := by
  have hfront : ¬ exportDefault <:+: a.toList := by
    rw [← Bool.not_eq_true, containsText_iff] at ha
    exact ha
  rcases hf.form with h | h | h | h
  · obtain ⟨g, rfl⟩ := startsWith_iff.mp h
    exact exactly_function_iff hfront g
  · obtain ⟨g, rfl⟩ := startsWith_iff.mp h
    exact exactly_asyncFunction_iff hfront g
  · obtain ⟨g, rfl⟩ := startsWith_iff.mp h
    refine iff_of_false (not_exactly_arrow hfront g) fun hu => ?_
    have hform := hu.form
    unfold startsWith at hform
    simp [String.toList_append] at hform
  · obtain ⟨g, rfl⟩ := startsWith_iff.mp h
    refine iff_of_false (not_exactly_asyncArrow hfront g) fun hu => ?_
    have hform := hu.form
    unfold startsWith at hform
    simp [String.toList_append] at hform

/-- A function with a helper and a comment in front of it. -/
theorem preprocess_exact_function :
    RewrittenExactly "// the default
const rate = 2;
" "function(input) { return rate; }" :=
  (preprocess_exact_iff "// the default
const rate = 2;
"
    "function(input) { return rate; }" (by decide +kernel)
    ⟨Or.inl (by decide)⟩).mpr
      ⟨Or.inl (by decide), by decide +kernel, Or.inr (by decide)⟩

/-- An arrow function is no longer one, and a mention of an `async` export in a comment makes the
    call an asynchronous one. -/
theorem preprocess_inexact :
    preprocessScript "export default (x) => x" =
        "var __default__ = function(x) => x\n__default__(input);" ∧
      ¬ RewrittenExactly "" "(x) => x" ∧
      ¬ RewrittenExactly "" "function() \x7b return 1; // not export default async\n\x7d" := by
  have harrow : "(x) => x" = "(" ++ "x) => x" := by decide
  have hfunction : "function() \x7b return 1; // not export default async\n\x7d" =
      "function" ++ "() \x7b return 1; // not export default async\n\x7d" := by decide
  refine ⟨by decide, ?_, ?_⟩
  · rw [harrow]
    exact not_exactly_arrow (by decide) _
  · rw [hfunction, exactly_function_iff (by decide)]
    rintro ⟨-, -, hflag⟩
    revert hflag
    decide

end Mik.Runtime
