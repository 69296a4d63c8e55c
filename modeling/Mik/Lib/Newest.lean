/-
  The newest of a collection.

  `Newest time all result limit` says that `result` is a selection of `limit` elements of `all`,
  or of all if there are fewer, none of which is older than one that was left out, with the newest
  first. Sorting by falling time and cutting off gives one (`newest_take_sort`); among elements of
  the same time there may be several.
-/
import Mathlib.Data.List.Sort

namespace Mik.Lib

section

variable {α T : Type} [LinearOrder T]

structure Newest (time : α → T) (all result : List α) (limit : Nat) : Prop where
  subperm : result.Subperm all
  length : result.length = min limit all.length
  sorted : result.Pairwise fun a b => time b ≤ time a
  newest : ∀ a ∈ result, ∀ b ∈ all, b ∉ result → time b ≤ time a

/-- A stable sort by falling time. -/
def newestFirst (time : α → T) (all : List α) : List α :=
  all.insertionSort fun a b => time b ≤ time a

variable {time : α → T} {all : List α}

theorem newestFirst_perm : (newestFirst time all).Perm all := List.perm_insertionSort _ _

theorem newestFirst_sorted : (newestFirst time all).Pairwise fun a b => time b ≤ time a := by
  have : Std.Total fun a b : α => time b ≤ time a := ⟨fun a b => le_total (time b) (time a)⟩
  have : IsTrans α fun a b => time b ≤ time a := ⟨fun a b c hab hbc => le_trans hbc hab⟩
  exact List.pairwise_insertionSort _ _

theorem newest_take_sort (limit : Nat) :
    Newest time all ((newestFirst time all).take limit) limit where
  subperm := (List.take_sublist _ _).subperm.trans newestFirst_perm.subperm
  length := by rw [List.length_take, newestFirst_perm.length_eq]
  sorted := newestFirst_sorted.sublist (List.take_sublist _ _)
  newest := by
    intro a ha b hb hnotMem
    have hb' : b ∈ (newestFirst time all).take limit ++ (newestFirst time all).drop limit := by
      rw [List.take_append_drop]
      exact newestFirst_perm.mem_iff.mpr hb
    have hdrop := (List.mem_append.mp hb').resolve_left hnotMem
    have hsorted : ((newestFirst time all).take limit ++ (newestFirst time all).drop limit).Pairwise
        fun a b => time b ≤ time a := by
      rw [List.take_append_drop]
      exact newestFirst_sorted
    exact (List.pairwise_append.mp hsorted).2.2 a ha b hdrop

/-- Where no two are of one time, there is one way to sort. -/
theorem newestFirst_eq_reverse (time : α → Nat) {l : List α}
    (horder : l.Pairwise fun a b => time a < time b) (hperm : all.Perm l) :
    newestFirst time all = l.reverse := by
  have hnodup : ∀ {a b}, a ∈ l → b ∈ l → time a = time b → a = b := by
    intro a b ha hb htime
    have hinj : (l.map time).Nodup :=
      (List.pairwise_map.mpr horder).imp fun hlt => ne_of_lt hlt
    exact List.inj_on_of_nodup_map hinj ha hb htime
  have hsorted : l.reverse.Pairwise fun a b => time b ≤ time a :=
    List.pairwise_reverse.mpr (horder.imp fun hlt => le_of_lt hlt)
  refine List.Perm.eq_of_pairwise ?_ newestFirst_sorted hsorted
    ((newestFirst_perm.trans hperm).trans (List.reverse_perm l).symm)
  intro a b ha hb hab hba
  have ha' : a ∈ l := hperm.mem_iff.mp (newestFirst_perm.mem_iff.mp ha)
  exact hnodup ha' (List.mem_reverse.mp hb) (le_antisymm hba hab)

/-! ## Selecting from what was kept -/

/-- At least `k` of `kept` are as new as `b`. -/
def Backed (time : α → T) (k : Nat) (kept : List α) (b : α) : Prop :=
  k ≤ kept.countP fun a => time b ≤ time a

variable {kept kept' result : List α} {k : Nat} {b : α}

theorem Backed.mono (h : Backed time k kept b) (hnodup : kept.Nodup)
    (hsub : ∀ a ∈ kept, a ∈ kept') : Backed time k kept' b :=
  le_trans h ((List.subperm_of_subset hnodup hsub).countP_le _)

namespace Newest

theorem nodup (h : Newest time kept result k) (hnodup : kept.Nodup) : result.Nodup := by
  obtain ⟨l, hperm, hsub⟩ := h.subperm
  exact hperm.nodup_iff.mp (hnodup.sublist hsub)

/-- What `k` others back is no newer than anything selected. -/
theorem le_of_backed (h : Newest time kept result k) (hnodup : kept.Nodup)
    (hb : Backed time k kept b) : ∀ a ∈ result, time b ≤ time a := by
  intro a ha
  by_contra hlt
  have hlt := not_le.mp hlt
  -- All that back `b` are newer than `a`, so they are selected beside it, which is one too many.
  have hsub : (a :: kept.filter fun c => time b ≤ time c).Subperm result := by
    refine List.subperm_of_subset (List.nodup_cons.mpr ⟨?_, hnodup.filter _⟩) ?_
    · rw [List.mem_filter, decide_eq_true_eq]
      exact fun hmem => not_le.mpr hlt hmem.2
    · intro c hc
      rcases List.mem_cons.mp hc with rfl | hc
      · exact ha
      · obtain ⟨hmem, hbc⟩ := List.mem_filter.mp hc
        by_contra hout
        have hca := h.newest a ha c hmem hout
        exact absurd (le_trans (decide_eq_true_eq.mp hbc) hca) (not_le.mpr hlt)
  have hlength := hsub.length_le
  rw [List.length_cons, ← List.countP_eq_length_filter] at hlength
  have hbound := h.length
  have hk : k ≤ kept.countP fun c => time b ≤ time c := hb
  omega

/-- A selection of `k` of which all are as new as `b` backs it. -/
theorem backed_of_le (hlength : result.length = k) (hle : ∀ a ∈ result, time b ≤ time a) :
    Backed time k result b := by
  have hcount : (result.countP fun a => time b ≤ time a) = result.length :=
    List.countP_eq_length.mpr fun a ha => decide_eq_true (hle a ha)
  show k ≤ _
  rw [hcount, hlength]

theorem backed_of_backed (h : Newest time kept result k) (hnodup : kept.Nodup)
    (hb : Backed time k kept b) : Backed time k result b := by
  refine backed_of_le ?_ (h.le_of_backed hnodup hb)
  have hcount : kept.countP (fun a => time b ≤ time a) ≤ kept.length := List.countP_le_length
  have hbound := h.length
  have hk : k ≤ kept.countP fun a => time b ≤ time a := hb
  omega

theorem backed_of_cut (h : Newest time kept result k) (hnodup : kept.Nodup) (hb : b ∈ kept)
    (hcut : b ∉ result) : Backed time k result b := by
  refine backed_of_le ?_ fun a ha => h.newest a ha b hb hcut
  have hsub : (b :: result).Subperm kept := by
    refine List.subperm_of_subset (List.nodup_cons.mpr ⟨hcut, h.nodup hnodup⟩) fun c hc => ?_
    rcases List.mem_cons.mp hc with rfl | hc
    · exact hb
    · exact h.subperm.subset hc
  have hlength := hsub.length_le
  rw [List.length_cons] at hlength
  have hbound := h.length
  omega

/-- The newest of what was kept are the newest of all, if all that was left out is backed. -/
theorem of_kept (h : Newest time kept result k) (hnodup : kept.Nodup) (hall : all.Nodup)
    (hsub : ∀ a ∈ kept, a ∈ all) (hback : ∀ b ∈ all, b ∈ kept ∨ Backed time k kept b) :
    Newest time all result k where
  subperm := h.subperm.trans (List.subperm_of_subset hnodup hsub)
  length := by
    rw [h.length]
    have hle := (List.subperm_of_subset hnodup hsub).length_le
    by_cases hmiss : ∃ b ∈ all, b ∉ kept
    · obtain ⟨b, hb, hout⟩ := hmiss
      have hk : k ≤ kept.countP fun a => time b ≤ time a := (hback b hb).resolve_left hout
      have hcount : kept.countP (fun a => time b ≤ time a) ≤ kept.length := List.countP_le_length
      omega
    · have hsup : ∀ b ∈ all, b ∈ kept := fun b hb => by_contra fun hout => hmiss ⟨b, hb, hout⟩
      have hge := (List.subperm_of_subset hall hsup).length_le
      omega
  sorted := h.sorted
  newest := by
    intro a ha b hb hout
    rcases hback b hb with hkept | hbacked
    · exact h.newest a ha b hkept hout
    · exact h.le_of_backed hnodup hbacked a ha

/-- Of a collection in the order of its times, the newest are the last ones. -/
theorem mem_iff_mem_drop (h : Newest time all result k)
    (horder : all.Pairwise fun a b => time a < time b) (a : α) :
    a ∈ result ↔ a ∈ all.drop (all.length - k) := by
  have hall : all.Nodup := horder.imp fun hlt heq => absurd (congrArg time heq) (ne_of_lt hlt)
  have hdrop : (all.drop (all.length - k)).Nodup := hall.sublist (List.drop_sublist _ _)
  have hlength : (all.drop (all.length - k)).length = result.length := by
    rw [List.length_drop, h.length]
    omega
  have hsub : ∀ a ∈ result, a ∈ all.drop (all.length - k) := by
    intro a ha
    by_contra hout
    have hmem := h.subperm.subset ha
    rw [← List.take_append_drop (all.length - k) all] at hmem horder
    have htake := (List.mem_append.mp hmem).resolve_right hout
    have hlater := (List.pairwise_append.mp horder).2.2 a htake
    -- All later ones are selected, and `a` is one too many.
    have hmore : (a :: all.drop (all.length - k)).Subperm result := by
      refine List.subperm_of_subset (List.nodup_cons.mpr ⟨hout, hdrop⟩) fun c hc => ?_
      rcases List.mem_cons.mp hc with rfl | hc
      · exact ha
      · by_contra hcut
        have hle := h.newest a ha c (List.mem_of_mem_drop hc) hcut
        exact absurd (hlater c hc) (not_lt.mpr hle)
    have := hmore.length_le
    rw [List.length_cons] at this
    omega
  have hperm : result.Perm (all.drop (all.length - k)) :=
    (List.subperm_of_subset (h.nodup hall) hsub).perm_of_length_le (le_of_eq hlength)
  exact hperm.mem_iff

end Newest

end

end Mik.Lib
