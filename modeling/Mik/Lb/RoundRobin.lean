/-
  The rotation over the available backends (`src/runtime/lb/selection.rs`).

  `select` reduces its position twice: modulo the number of all backends, then modulo the number
  of the available ones. So the positions run through the available list and start over at its
  front each time the counter passes a multiple of `total`, or wraps. `select_eq` is what one call
  returns and `picks_eq` what a row of them does.

  A round of calls is a rotation of the list when the number of available backends divides both
  `total` and 2^64 (`picks_round`), and in front of a place where the positions start over in the
  middle of the list one backend is left out (`last_missed`). `round_robin_fair_iff` has both
  directions; up to the wrap of the counter the first divisibility is enough.
-/
import Mathlib.Data.List.Count
import Mathlib.Data.List.Perm.Subperm
import Mathlib.Data.List.Rotate
import Mik.Lb.Proxy

namespace Mik.Lb

/-- The counter is a `usize`. -/
def usizeValues : Nat := 0x10000000000000000

/-- What a row of `n` calls returns. -/
def RoundRobin.picks (healthyIndices : List Nat) : Nat → RoundRobin → List (Option Nat)
  | 0, _ => []
  | n + 1, rr => (rr.select healthyIndices).1 :: picks healthyIndices n (rr.select healthyIndices).2

/-- The position in the available list that a counter stands for. -/
def RoundRobin.position (total available counter : Nat) : Nat := counter % total % available

section

variable {healthy : List Nat} {total : Nat}

/-- One call returns what is at the position of the counter, and moves the counter on. -/
theorem select_eq (hne : healthy ≠ []) (htotal : 0 < total) (counter : Nat) :
    RoundRobin.select ⟨counter, total⟩ healthy =
      (healthy[RoundRobin.position total healthy.length counter]?,
        ⟨(counter + 1) % usizeValues, total⟩) := by
  have hzero : total ≠ 0 := by omega
  unfold RoundRobin.select RoundRobin.nextIndex
  rw [if_neg hne, if_neg hzero]
  rfl

theorem length_picks (n : Nat) (rr : RoundRobin) : (rr.picks healthy n).length = n := by
  induction n generalizing rr with
  | zero => rfl
  | succ n ih => rw [RoundRobin.picks, List.length_cons, ih]

/-- The calls of a row return what is at the positions of so many counters in a row. -/
theorem picks_eq (hne : healthy ≠ []) (htotal : 0 < total) (n start : Nat)
    (hstart : start < usizeValues) :
    RoundRobin.picks healthy n ⟨start, total⟩ = (List.range n).map fun j =>
      healthy[RoundRobin.position total healthy.length ((start + j) % usizeValues)]? := by
  induction n generalizing start with
  | zero => rfl
  | succ n ih =>
    have hpos : 0 < usizeValues := by decide
    have hfirst : (start + 0) % usizeValues = start := Nat.mod_eq_of_lt hstart
    rw [RoundRobin.picks, select_eq hne htotal, ih _ (Nat.mod_lt _ hpos), List.range_succ_eq_map,
      List.map_cons, List.map_map, hfirst]
    refine congrArg _ (List.map_congr_left fun j _ => ?_)
    -- the counter wraps now or later
    rw [Nat.mod_add_mod, Nat.add_assoc, Nat.add_comm 1 j]
    rfl

/-- A row of calls in two parts. -/
theorem picks_add (hne : healthy ≠ []) (htotal : 0 < total) (n m start : Nat)
    (hstart : start < usizeValues) :
    RoundRobin.picks healthy (n + m) ⟨start, total⟩ =
      RoundRobin.picks healthy n ⟨start, total⟩ ++
        RoundRobin.picks healthy m ⟨(start + n) % usizeValues, total⟩ := by
  have hpos : 0 < usizeValues := by decide
  rw [picks_eq hne htotal _ _ hstart, picks_eq hne htotal _ _ hstart,
    picks_eq hne htotal _ _ (Nat.mod_lt _ hpos), List.range_add, List.map_append, List.map_map]
  refine congrArg _ (List.map_congr_left fun j _ => ?_)
  rw [Nat.mod_add_mod, Nat.add_assoc]
  rfl

/-! ## Fairness -/

/-- Of `k` rounds of calls each available backend gets `k`, and no other any. -/
structure RoundRobin.Fair (healthy : List Nat) (rr : RoundRobin) (k : Nat) : Prop where
  each : ∀ i ∈ healthy, (rr.picks healthy (k * healthy.length)).count (some i) = k
  inside : ∀ pick ∈ rr.picks healthy (k * healthy.length), ∃ i ∈ healthy, pick = some i

/-- The positions of the counters of a round follow each other. -/
def RoundRobin.Steady (available total start : Nat) : Prop :=
  ∀ j, j < available →
    RoundRobin.position total available ((start + j) % usizeValues) = (j + start) % available

theorem inside_of_picks (hne : healthy ≠ []) (htotal : 0 < total) {n start : Nat}
    (hstart : start < usizeValues) {pick : Option Nat}
    (h : pick ∈ RoundRobin.picks healthy n ⟨start, total⟩) : ∃ i ∈ healthy, pick = some i := by
  rw [picks_eq hne htotal n start hstart] at h
  obtain ⟨j, -, rfl⟩ := List.mem_map.mp h
  have hlt : RoundRobin.position total healthy.length ((start + j) % usizeValues) <
      healthy.length := Nat.mod_lt _ (List.length_pos_iff.mpr hne)
  exact ⟨_, List.getElem_mem hlt, List.getElem?_eq_getElem hlt⟩

/-- A steady round is a rotation of the list. -/
theorem picks_round (hne : healthy ≠ []) (htotal : 0 < total) {start : Nat}
    (hstart : start < usizeValues) (h : RoundRobin.Steady healthy.length total start) :
    RoundRobin.picks healthy healthy.length ⟨start, total⟩ = (healthy.rotate start).map some := by
  refine List.ext_getElem ?_ fun j hj _ => ?_
  · rw [length_picks, List.length_map, List.length_rotate]
  · rw [length_picks] at hj
    have hlt : (j + start) % healthy.length < healthy.length := Nat.mod_lt _ (by omega)
    simp only [picks_eq hne htotal _ _ hstart, List.getElem_map, List.getElem_range, h j hj,
      List.getElem_rotate, List.getElem?_eq_getElem hlt]

/-- Steady rounds are fair, however many. -/
theorem fair_of_steady (hne : healthy ≠ []) (hnodup : healthy.Nodup) (htotal : 0 < total) (k : Nat)
    {start : Nat} (hstart : start < usizeValues)
    (h : ∀ round, round < k → RoundRobin.Steady healthy.length total
      ((start + round * healthy.length) % usizeValues)) :
    RoundRobin.Fair healthy ⟨start, total⟩ k := by
  refine ⟨fun i hi => ?_, fun pick hpick => inside_of_picks hne htotal hstart hpick⟩
  induction k generalizing start with
  | zero =>
    rw [Nat.zero_mul]
    rfl
  | succ k ih =>
    have hpos : 0 < usizeValues := by decide
    have hfirst := h 0 (by omega)
    rw [Nat.zero_mul, Nat.add_zero, Nat.mod_eq_of_lt hstart] at hfirst
    have hone : ((healthy.rotate start).map some).count (some i) = 1 := by
      rw [List.count_map_of_injective _ _ (fun _ _ => Option.some.inj),
        (List.rotate_perm healthy start).count_eq]
      exact List.count_eq_one_of_mem hnodup hi
    have hrest := ih (Nat.mod_lt (start + healthy.length) hpos) fun round hround => by
      have hnext := h (round + 1) (by omega)
      rw [Nat.mod_add_mod]
      rwa [Nat.succ_mul, Nat.add_comm (round * _), ← Nat.add_assoc] at hnext
    rw [Nat.succ_mul, Nat.add_comm (k * _), picks_add hne htotal _ _ _ hstart, List.count_append,
      picks_round hne htotal hstart hfirst, hone, hrest]
    omega

/-- A round in which no position is the last of the list leaves out a backend. -/
theorem not_fair_of_last_missed (hne : healthy ≠ []) (hnodup : healthy.Nodup) (htotal : 0 < total)
    {start : Nat} (hstart : start < usizeValues)
    (h : ∀ j, j < healthy.length →
      RoundRobin.position total healthy.length ((start + j) % usizeValues) + 1 ≠
        healthy.length) : ¬ RoundRobin.Fair healthy ⟨start, total⟩ 1 := by
  intro hfair
  have hpos : 0 < healthy.length := List.length_pos_iff.mpr hne
  have hlast : healthy.length - 1 < healthy.length := by omega
  have hcount := hfair.each healthy[healthy.length - 1] (List.getElem_mem hlast)
  rw [Nat.one_mul] at hcount
  have hmem : some healthy[healthy.length - 1] ∈
      RoundRobin.picks healthy healthy.length ⟨start, total⟩ :=
    List.count_pos_iff.mp (by omega)
  rw [picks_eq hne htotal _ _ hstart] at hmem
  obtain ⟨j, hj, heq⟩ := List.mem_map.mp hmem
  have hlt : RoundRobin.position total healthy.length ((start + j) % usizeValues) <
      healthy.length := Nat.mod_lt _ hpos
  rw [List.getElem?_eq_getElem hlt, Option.some.injEq, hnodup.getElem_inj_iff] at heq
  have := h j (List.mem_range.mp hj)
  omega

/-- Distinct indices below `total` are at most so many. -/
theorem length_le_total (hnodup : healthy.Nodup) (hlt : ∀ i ∈ healthy, i < total) :
    healthy.length ≤ total := by
  have hsub : healthy.Subperm (List.range total) :=
    List.subperm_of_subset hnodup fun i hi => List.mem_range.mpr (hlt i hi)
  simpa using hsub.length_le

/-! ## When the rotation is fair -/

/-- Where the available ones divide all, a round that ends before the counter wraps is steady, and
    one that wraps is too when they divide the values of the counter. -/
theorem steady_of_dvd (hdvd : healthy.length ∣ total) {start : Nat}
    (h : start + healthy.length ≤ usizeValues ∨ healthy.length ∣ usizeValues) :
    RoundRobin.Steady healthy.length total start := by
  intro j hj
  unfold RoundRobin.position
  rw [Nat.mod_mod_of_dvd _ hdvd, Nat.add_comm j]
  rcases h with hbefore | hwraps
  · have hsame : (start + j) % usizeValues = start + j := Nat.mod_eq_of_lt (by omega)
    rw [hsame]
  · rw [Nat.mod_mod_of_dvd _ hwraps]

/-- Behind a counter at which the positions start over, no position of the round is the last one,
    unless that of the counter was. -/
theorem last_missed (hle : healthy.length ≤ total) (htotal : total < usizeValues) {start : Nat}
    (hfirst : RoundRobin.position total healthy.length start + 1 ≠ healthy.length)
    (hover : start + 1 = total ∨ start + 1 = usizeValues) {j : Nat} (hj : j < healthy.length) :
    RoundRobin.position total healthy.length ((start + j) % usizeValues) + 1 ≠ healthy.length := by
  have hstart : start < usizeValues := by omega
  by_cases hzero : j = 0
  · rw [hzero, Nat.add_zero start, Nat.mod_eq_of_lt hstart]
    exact hfirst
  · -- later counters stand for small positions
    have hsmall : (start + j) % usizeValues % total + 1 < healthy.length := by
      by_cases hwrap : start + j < usizeValues
      · have hfrom : start + j = total + (j - 1) := by omega
        have hless : (j - 1) % total = j - 1 := Nat.mod_eq_of_lt (by omega)
        rw [Nat.mod_eq_of_lt hwrap, hfrom, Nat.add_mod_left, hless]
        omega
      · have hfrom : start + j = usizeValues + (start + j - usizeValues) := by omega
        have hword : (start + j - usizeValues) % usizeValues = start + j - usizeValues :=
          Nat.mod_eq_of_lt (by omega)
        have hless : (start + j - usizeValues) % total = start + j - usizeValues :=
          Nat.mod_eq_of_lt (by omega)
        rw [hfrom, Nat.add_mod_left, hword, hless]
        omega
    unfold RoundRobin.position
    rw [Nat.mod_eq_of_lt (Nat.lt_of_succ_lt hsmall)]
    exact Nat.ne_of_lt hsmall

/-- A counter whose successor the list does not divide is not at the last position. -/
theorem position_ne_last {available counter : Nat}
    (h : ¬ available ∣ counter + 1) : counter % available + 1 ≠ available := by
  intro heq
  refine h (Nat.dvd_of_mod_eq_zero ?_)
  have hsplit := Nat.div_add_mod counter available
  have hwhole : counter + 1 = available * (counter / available + 1) := by
    rw [Nat.mul_add, Nat.mul_one]
    omega
  rw [hwhole, Nat.mul_mod_right]

/-- The rotation over the available backends is fair from every counter, for any number of rounds,
    exactly when their number divides that of all backends and the number of values of the counter;
    as long as the counter does not wrap, the first is enough. -/
theorem round_robin_fair_iff (total : Nat) (healthy : List Nat) (hne : healthy ≠ [])
    (hnodup : healthy.Nodup) (hlt : ∀ i ∈ healthy, i < total) (htotal : total < usizeValues) :
    ((∀ start k, start < usizeValues → RoundRobin.Fair healthy ⟨start, total⟩ k) ↔
        healthy.length ∣ total ∧ healthy.length ∣ usizeValues) ∧
      (healthy.length ∣ total → ∀ start k, start < usizeValues →
        start + k * healthy.length ≤ usizeValues → RoundRobin.Fair healthy ⟨start, total⟩ k) := by
  have hlen : 0 < healthy.length := List.length_pos_iff.mpr hne
  have hle := length_le_total hnodup hlt
  have hpos : 0 < total := by omega
  have hlast : ∀ start, start < usizeValues → (start + 1 = total ∨ start + 1 = usizeValues) →
      RoundRobin.position total healthy.length start + 1 ≠ healthy.length →
        ¬ RoundRobin.Fair healthy ⟨start, total⟩ 1 := fun start hstart hover hfirst =>
    not_fair_of_last_missed hne hnodup hpos hstart fun j hj =>
      last_missed hle htotal hfirst hover hj
  refine ⟨⟨fun hfair => ?_, fun ⟨hdvd, hwraps⟩ start k hstart => ?_⟩,
    fun hdvd start k hstart hend => ?_⟩
  · -- otherwise a round fails that passes `total`, or one that wraps
    have hdvd : healthy.length ∣ total := by
      by_contra hno
      have hbefore : total - 1 + 1 = total := by omega
      have hless : (total - 1) % total = total - 1 := Nat.mod_eq_of_lt (by omega)
      refine hlast (total - 1) (by omega) (Or.inl hbefore) ?_ (hfair _ 1 (by omega))
      unfold RoundRobin.position
      rw [hless]
      exact position_ne_last (by rwa [hbefore])
    refine ⟨hdvd, ?_⟩
    by_contra hno
    have hbefore : usizeValues - 1 + 1 = usizeValues := by omega
    refine hlast (usizeValues - 1) (by omega) (Or.inr hbefore) ?_ (hfair _ 1 (by omega))
    unfold RoundRobin.position
    rw [Nat.mod_mod_of_dvd _ hdvd]
    exact position_ne_last (by rwa [hbefore])
  · exact fair_of_steady hne hnodup hpos k hstart fun _ _ => steady_of_dvd hdvd (Or.inr hwraps)
  · refine fair_of_steady hne hnodup hpos k hstart fun round hround =>
      steady_of_dvd hdvd (Or.inl ?_)
    have hrounds : (round + 1) * healthy.length ≤ k * healthy.length :=
      Nat.mul_le_mul_right _ (by omega)
    rw [Nat.succ_mul] at hrounds
    have hsame : (start + round * healthy.length) % usizeValues = start + round * healthy.length :=
      Nat.mod_eq_of_lt (by omega)
    rw [hsame]
    omega

end

/-- Four backends, two of them available. -/
theorem round_robin_fair_half : RoundRobin.Fair [0, 2] ⟨3, 4⟩ 5 :=
  (round_robin_fair_iff 4 [0, 2] (by decide) (by decide) (by decide) (by decide)).1.mpr
    ⟨by decide, by decide⟩ 3 5 (by decide)

/-- Three backends, the second unhealthy: the first gets three of four calls. -/
theorem round_robin_uneven :
    RoundRobin.picks [0, 2] 4 ⟨0, 3⟩ = [some 0, some 2, some 0, some 0] ∧
      ¬ RoundRobin.Fair [0, 2] ⟨0, 3⟩ 2 := by
  refine ⟨by decide, fun h => ?_⟩
  exact absurd (h.each 2 (by decide)) (by decide)

end Mik.Lb
