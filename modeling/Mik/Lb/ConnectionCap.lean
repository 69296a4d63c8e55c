/-
  The connection cap of the proxy.

  `has_capacity` is asked of the shared list, and the counter it reads is never changed there:
  every shared `active_requests` stays 0 (`idle_step`), so with `max_connections ≥ 1` it is always
  true. The cap, and the agreement of `has_capacity` with the requests in flight, therefore hold
  in a run exactly as long as the rotation never picks a backend whose in-flight requests would
  reach `max_connections` (`connection_cap_iff`).
-/
import Mik.Lb.Proxy

namespace Mik.Lb

open Mik.Lib

/-! ## The shared counters -/

/-- No shared backend counts a request. -/
def Idle (bs : List Backend) : Prop := ∀ b ∈ bs, b.activeRequests = 0

/-- Asking a backend changes its breaker at most. -/
theorem isAvailable_snd (b : Backend) (t : Nat) :
    ∃ cb, (b.isAvailable t).2 = b.setCircuitBreaker cb := by
  unfold Backend.isAvailable
  split
  · exact ⟨b.circuitBreaker, rfl⟩
  split
  · exact ⟨_, rfl⟩
  · exact ⟨b.circuitBreaker, rfl⟩

@[simp] theorem activeRequests_isAvailable (b : Backend) (t : Nat) :
    (b.isAvailable t).2.activeRequests = b.activeRequests := by
  obtain ⟨cb, hcb⟩ := isAvailable_snd b t
  rw [hcb]
  rfl

@[simp] theorem maxConnections_isAvailable (b : Backend) (t : Nat) :
    (b.isAvailable t).2.maxConnections = b.maxConnections := by
  obtain ⟨cb, hcb⟩ := isAvailable_snd b t
  rw [hcb]
  rfl

theorem idle_polled {p : Proxy} (h : Idle p.backends) (t : Nat) : Idle (p.polled t) := by
  intro b hb
  obtain ⟨b', hb', rfl⟩ := List.mem_map.mp hb
  rw [activeRequests_isAvailable]
  exact h b' hb'

/-- A health-check cycle changes only what its verdicts are about. -/
theorem map_applyVerdicts {γ : Type} (f : Backend → γ) (hhealthy : ∀ b, f b.markHealthy = f b)
    (hunhealthy : ∀ b, f b.markUnhealthy = f b) (bs : List Backend) (vs : List Bool) :
    (applyVerdicts bs vs).map f = bs.map f := by
  induction bs generalizing vs with
  | nil =>
    cases vs with
    | nil => rfl
    | cons v vs => rfl
  | cons b bs ih =>
    cases vs with
    | nil => rfl
    | cons v vs =>
      rw [applyVerdicts, List.map_cons, List.map_cons, ih vs]
      cases v with
      | true => rw [if_pos rfl, hhealthy]
      | false => rw [if_neg Bool.false_ne_true, hunhealthy]

theorem idle_applyVerdicts {bs : List Backend} (h : Idle bs) (vs : List Bool) :
    Idle (applyVerdicts bs vs) := by
  intro b hb
  have hmem : b.activeRequests ∈ (applyVerdicts bs vs).map Backend.activeRequests :=
    List.mem_map.mpr ⟨b, hb, rfl⟩
  rw [map_applyVerdicts Backend.activeRequests (fun _ => rfl) (fun _ => rfl)] at hmem
  obtain ⟨b', hb', heq⟩ := List.mem_map.mp hmem
  rw [← heq]
  exact h b' hb'

/-- Selecting leaves the polled backends, whatever it answers. -/
theorem backends_selectBackend (p : Proxy) (t : Nat) :
    (p.selectBackend t).2.backends = p.polled t := by
  unfold Proxy.selectBackend
  dsimp only
  split
  · rfl
  split
  · rfl
  split
  · rfl
  · rfl

/-- The backends of the shared list after an event. -/
theorem backends_step (s : System) (e : Event) :
    (s.step e).proxy.backends =
      match e with
      | .select t => s.proxy.polled t
      | .healthCheck vs => applyVerdicts s.proxy.backends vs
      | _ => s.proxy.backends := by
  cases e with
  | select t =>
    have h := backends_selectBackend s.proxy t
    unfold System.step
    dsimp only
    split
    · next heq => rw [heq] at h; exact h
    · next heq => rw [heq] at h; exact h
  | _ => rfl

theorem idle_step {s : System} (h : Idle s.proxy.backends) (e : Event) :
    Idle (s.step e).proxy.backends := by
  rw [backends_step]
  cases e with
  | select t => exact idle_polled h t
  | healthCheck vs => exact idle_applyVerdicts h vs
  | _ => exact h

/-- The caps of the shared list never change. -/
def caps (bs : List Backend) : List Nat := bs.map Backend.maxConnections

theorem caps_step (s : System) (e : Event) :
    caps (s.step e).proxy.backends = caps s.proxy.backends := by
  rw [backends_step]
  cases e with
  | select t =>
    unfold caps Proxy.polled
    rw [List.map_map]
    apply List.map_congr_left
    intro b _
    exact maxConnections_isAvailable b t
  | healthCheck vs =>
    exact map_applyVerdicts Backend.maxConnections (fun _ => rfl) (fun _ => rfl) _ vs
  | _ => rfl

/-! ## What is selected -/

/-- The backend the rotation points at, among the available ones. -/
def Proxy.nextInRotation (p : Proxy) (t : Nat) : Option Nat :=
  (p.availableIndices t)[p.strategy.nextIndex.1 % (p.availableIndices t).length]?

theorem lt_of_mem_availableIndices {p : Proxy} {t i : Nat} (h : i ∈ p.availableIndices t) :
    i < p.backends.length := List.mem_range.mp (List.mem_of_mem_filter h)

/-- On an idle list every available backend has capacity. -/
theorem capacityIndices_of_idle {p : Proxy} (h : Idle p.backends) (t : Nat) :
    p.capacityIndices t = p.availableIndices t := by
  unfold Proxy.capacityIndices
  rw [List.filter_eq_self]
  intro i hi
  have hlt : i < (p.polled t).length := by
    rw [Proxy.polled, List.length_map]
    exact lt_of_mem_availableIndices hi
  have hidle := idle_polled h t _ (List.getElem_mem hlt)
  rw [List.getElem?_eq_getElem hlt, Option.map_some, Option.getD_some]
  unfold Backend.hasCapacity
  rw [hidle]
  exact decide_eq_true ((p.polled t)[i]).maxConnections_pos

theorem selectBackend_of_idle {p : Proxy} (h : Idle p.backends) (t : Nat) :
    (∃ idx b, p.nextInRotation t = some idx ∧ (p.polled t)[idx]? = some b ∧
        (p.selectBackend t).1 = .selected idx b) ∨
      (p.nextInRotation t = none ∧ ∀ idx b, (p.selectBackend t).1 ≠ .selected idx b) := by
  unfold Proxy.selectBackend Proxy.nextInRotation
  rw [capacityIndices_of_idle h t]
  dsimp only
  by_cases hnil : p.availableIndices t = []
  · rw [if_pos hnil, hnil]
    exact Or.inr ⟨rfl, fun idx b => by simp⟩
  · have hlen : 0 < (p.availableIndices t).length := List.length_pos_iff.mpr hnil
    have hlt := Nat.mod_lt p.strategy.nextIndex.1 hlen
    rw [if_neg hnil, if_neg hnil]
    unfold RoundRobin.select
    rw [if_neg hnil, List.getElem?_eq_getElem hlt]
    have hidx : (p.availableIndices t)[p.strategy.nextIndex.1 % (p.availableIndices t).length] <
        (p.polled t).length := by
      rw [Proxy.polled, List.length_map]
      exact lt_of_mem_availableIndices (List.getElem_mem hlt)
    refine Or.inl ⟨_, _, rfl, List.getElem?_eq_getElem hidx, ?_⟩
    rw [Option.bind_some, List.getElem?_eq_getElem hidx, Option.map_some]

/-! ## Requests in flight -/

theorem countP_modify_le {α : Type} {p : α → Bool} {g : α → α} (hg : ∀ x, p (g x) → p x)
    (l : List α) (i : Nat) : (l.modify i g).countP p ≤ l.countP p := by
  induction l generalizing i with
  | nil => exact Nat.le_of_eq (by rw [List.modify_nil])
  | cons x l ih =>
    cases i with
    | zero =>
      rw [List.modify_zero_cons, List.countP_cons, List.countP_cons]
      by_cases hx : p (g x)
      · exact Nat.le_of_eq (by rw [if_pos hx, if_pos (hg x hx)])
      · rw [if_neg hx]
        omega
    | succ i =>
      rw [List.modify_succ_cons, List.countP_cons, List.countP_cons]
      have := ih i
      omega

theorem counts_start (f : InFlight) (b : Nat) (h : f.start.counts b) : f.counts b := by
  obtain ⟨index, backend, phase⟩ := f
  cases phase with
  | selected =>
    unfold InFlight.counts at h ⊢
    rw [Bool.and_eq_true] at h ⊢
    exact ⟨h.1, rfl⟩
  | started => exact h
  | finished ok => exact h
  | recorded => exact h

theorem counts_finish (f : InFlight) (ok : Bool) (b : Nat) (h : (f.finish ok).counts b) :
    f.counts b := by
  obtain ⟨index, backend, phase⟩ := f
  cases phase with
  | selected => exact h
  | started => simp [InFlight.counts, InFlight.finish] at h
  | finished ok' => exact h
  | recorded => exact h

theorem counts_record (f : InFlight) (t now b : Nat) (h : (f.record t now).counts b) :
    f.counts b := by
  obtain ⟨index, backend, phase⟩ := f
  cases phase with
  | selected => exact h
  | started => exact h
  | finished ok => cases ok <;> simp [InFlight.counts, InFlight.record] at h
  | recorded => exact h

/-- Only a selection adds a request in flight, and only to the backend it selects. -/
theorem inFlight_step_le (s : System) (e : Event) (b : Nat) (he : ∀ t, e ≠ .select t) :
    (s.step e).inFlight b ≤ s.inFlight b := by
  cases e with
  | select t => exact absurd rfl (he t)
  | start i => exact countP_modify_le (fun f => counts_start f b) _ i
  | finish i ok => exact countP_modify_le (fun f => counts_finish f ok b) _ i
  | record i t now => exact countP_modify_le (fun f => counts_record f t now b) _ i
  | healthCheck vs => exact Nat.le_refl _

theorem inFlight_select {s : System} (h : Idle s.proxy.backends) (t b : Nat) :
    (s.step (.select t)).inFlight b =
      s.inFlight b + if s.proxy.nextInRotation t = some b then 1 else 0 := by
  unfold System.step System.inFlight
  rcases selectBackend_of_idle h t with ⟨idx, backend, hnext, -, hsel⟩ | ⟨hnext, hnone⟩
  · rw [hnext]
    dsimp only
    split
    · next heq =>
      rw [heq] at hsel
      cases hsel
      rw [List.countP_append, List.countP_singleton]
      by_cases hb : idx = b
      · simp [hb, InFlight.counts]
      · simp [hb, InFlight.counts]
    · next hno heq =>
      rw [heq] at hsel
      exact absurd hsel (hno _ _)
  · rw [hnext]
    dsimp only
    split
    · next heq =>
      rw [heq] at hnone
      exact absurd rfl (hnone _ _)
    · simp

/-! ## The cap -/

/-- No backend has more requests in flight than it allows. -/
def CapHolds (s : System) : Prop :=
  ∀ i b, s.proxy.backends[i]? = some b → s.inFlight i ≤ b.maxConnections

/-- `has_capacity` on the shared list says whether a backend can take one more request. -/
def CapacityReflects (s : System) : Prop :=
  ∀ i b, s.proxy.backends[i]? = some b → b.hasCapacity = decide (s.inFlight i < b.maxConnections)

/-- The rotation does not fill up a backend: the one it points at would stay below its cap. -/
def LeavesRoom (s : System) : Event → Prop
  | .select t => ∀ i b, s.proxy.nextInRotation t = some i → s.proxy.backends[i]? = some b →
      s.inFlight i + 1 < b.maxConnections
  | _ => True

/-- Every backend of the list has room for one more request. -/
def Roomy (s : System) : Prop :=
  ∀ i cap, (caps s.proxy.backends)[i]? = some cap → s.inFlight i < cap

theorem caps_getElem? {bs : List Backend} {i cap : Nat} :
    (caps bs)[i]? = some cap ↔ ∃ b, bs[i]? = some b ∧ b.maxConnections = cap := by
  unfold caps
  rw [List.getElem?_map, Option.map_eq_some_iff]

theorem roomy_iff {s : System} (h : Idle s.proxy.backends) :
    Roomy s ↔ CapHolds s ∧ CapacityReflects s := by
  have hcap : ∀ (i : Nat) (b : Backend), s.proxy.backends[i]? = some b → b.hasCapacity = true := by
    intro i b hb
    unfold Backend.hasCapacity
    rw [h b (List.mem_of_getElem? hb)]
    exact decide_eq_true b.maxConnections_pos
  constructor
  · intro hroom
    have hlt : ∀ (i : Nat) (b : Backend), s.proxy.backends[i]? = some b →
        s.inFlight i < b.maxConnections :=
      fun i b hb => hroom i _ (caps_getElem?.mpr ⟨b, hb, rfl⟩)
    refine ⟨fun i b hb => Nat.le_of_lt (hlt i b hb), fun i b hb => ?_⟩
    rw [hcap i b hb, decide_eq_true (hlt i b hb)]
  · rintro ⟨-, hreflects⟩ i cap hi
    obtain ⟨b, hb, rfl⟩ := caps_getElem?.mp hi
    have := hreflects i b hb
    rw [hcap i b hb] at this
    exact of_decide_eq_true this.symm

theorem roomy_step_iff {s : System} {e : Event} (h : Idle s.proxy.backends) (hroom : Roomy s) :
    Roomy (s.step e) ↔ LeavesRoom s e := by
  have hother : (∀ t, e ≠ .select t) → Roomy (s.step e) := by
    intro he i cap hi
    rw [caps_step] at hi
    exact Nat.lt_of_le_of_lt (inFlight_step_le s e i he) (hroom i cap hi)
  cases e with
  | select t =>
    unfold Roomy
    rw [caps_step]
    constructor
    · intro hnext i b hi hb
      have := hnext i _ (caps_getElem?.mpr ⟨b, hb, rfl⟩)
      rw [inFlight_select h, if_pos hi] at this
      exact this
    · intro hok i cap hi
      rw [inFlight_select h]
      have hlt := hroom i cap hi
      by_cases hsel : s.proxy.nextInRotation t = some i
      · obtain ⟨b, hb, rfl⟩ := caps_getElem?.mp hi
        rw [if_pos hsel]
        exact hok i b hsel hb
      · rw [if_neg hsel]
        omega
  | start i => exact ⟨fun _ => trivial, fun _ => hother (by simp)⟩
  | finish i ok => exact ⟨fun _ => trivial, fun _ => hother (by simp)⟩
  | record i t now => exact ⟨fun _ => trivial, fun _ => hother (by simp)⟩
  | healthCheck vs => exact ⟨fun _ => trivial, fun _ => hother (by simp)⟩

/-- A proxy that has just been built, with no request under way. -/
structure Fresh (s : System) : Prop where
  idle : Idle s.proxy.backends
  forwards : s.forwards = []

/-- The connection cap, over every interleaving: in all states of a run no backend exceeds its
    `max_connections` and `has_capacity` on the shared list tells whether it can take one more,
    if and only if no selection brings a backend up to its cap. -/
theorem connection_cap_iff (s : System) (hs : Fresh s) (events : List Event) :
    (∀ pre, pre <+: events →
        CapHolds (run System.step s pre) ∧ CapacityReflects (run System.step s pre)) ↔
      Along System.step LeavesRoom s events := by
  have hroom : Roomy s := by
    intro i cap hi
    obtain ⟨b, -, rfl⟩ := caps_getElem?.mp hi
    unfold System.inFlight
    rw [hs.forwards]
    exact b.maxConnections_pos
  rw [← good_throughout_iff (fun s : System => Idle s.proxy.backends) Roomy hs.idle hroom
    (fun s e h => idle_step h e) (fun s e h hr => roomy_step_iff h hr)]
  apply forall_congr'
  intro pre
  apply imp_congr_right
  intro _
  have hidle := run_keeps (fun s : System => Idle s.proxy.backends)
    (fun s e h => idle_step h e) hs.idle pre
  exact (roomy_iff hidle).symm

/-- One backend with room for a single connection. -/
def singleSlot : System := ⟨⟨[.withOptions "a:1" 1 1], ⟨0, 1⟩⟩, []⟩

/-- Two forwards that select before either ends are both in flight on the single slot, and
    `has_capacity` still says yes. -/
theorem two_forwards_on_one_slot :
    ¬ CapHolds (run System.step singleSlot [.select 0, .start 0, .select 1]) ∧
      ¬ CapacityReflects (run System.step singleSlot [.select 0, .start 0, .select 1]) := by
  have hbackend : (run System.step singleSlot [.select 0, .start 0, .select 1]).proxy.backends[0]? =
      some (.withOptions "a:1" 1 1) := rfl
  refine ⟨fun h => ?_, fun h => ?_⟩
  · have := h 0 _ hbackend
    exact absurd this (by decide)
  · have := h 0 _ hbackend
    exact absurd this (by decide)

/-- One backend with room for two. -/
def doubleSlot : System := ⟨⟨[.withOptions "a:1" 1 2], ⟨0, 1⟩⟩, []⟩

/-- One forward after the other stays within two slots, in every state of the run. -/
theorem connection_cap_iff_one_after_the_other :
    Fresh doubleSlot ∧
      ∀ pre, pre <+: [.select 0, .start 0, .finish 0 true, .record 0 1 1, .select 2] →
        CapHolds (run System.step doubleSlot pre) ∧
          CapacityReflects (run System.step doubleSlot pre) := by
  have hfresh : Fresh doubleSlot := by
    refine ⟨fun b hb => ?_, rfl⟩
    rw [List.mem_singleton.mp hb]
    rfl
  have hroom : ∀ (s : System) (t : Nat), s.proxy.nextInRotation t = some 0 →
      s.proxy.backends = doubleSlot.proxy.backends → s.inFlight 0 = 0 →
      LeavesRoom s (.select t) := by
    intro s t hnext hbackends hflight i b hi hb
    rw [hnext] at hi
    cases hi
    rw [hbackends] at hb
    cases hb
    rw [hflight]
    decide
  refine ⟨hfresh, (connection_cap_iff doubleSlot hfresh _).mpr ?_⟩
  refine ⟨hroom _ 0 (by decide) rfl rfl, trivial, trivial, trivial, ?_, trivial⟩
  exact hroom _ 2 (by decide) rfl (by decide)

end Mik.Lb
