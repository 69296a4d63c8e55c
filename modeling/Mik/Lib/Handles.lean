/-
  Handles on a store, made by cloning a value.

  A value holds its store itself, and a clone of it is a copy; or it holds a pointer, and a clone
  points to the same cell. A sequence of calls through any handles runs beside the same sequence on
  one store. Handles that share a cell always answer as the one store does (`oneStore_of_shares`).
  Copies do so, for all operations in place of the calls, exactly when each call goes through a
  handle that has seen all calls before it, itself or through what it was cloned from
  (`oneStore_of_copies_iff`).
-/
import Mathlib.Data.List.Induction
import Mathlib.Logic.Function.Basic
import Mik.Lib.Run

namespace Mik.Lib

/-- What is done with the handles, which go by number. -/
inductive Use (O : Type) where
  | call (handle : Nat) (op : O)
  | clone (source target : Nat)

/-- A use with other operations. -/
def Use.map {O O' : Type} (f : O → O') : Use O → Use O'
  | call handle op => call handle (f op)
  | clone source target => clone source target

/-- A use without its operation. -/
def Use.shape {O : Type} (use : Use O) : Use Unit := use.map fun _ => ()

inductive Cloning where
  | copies
  | shares
  deriving DecidableEq, Repr

/-- The cell that each handle points to, and the stores in the cells. -/
structure Heap (S : Type) where
  place : Nat → Nat
  cells : Nat → S

/-- Every handle is the first value or a clone of it. -/
def Heap.start {S : Type} : Cloning → S → Heap S
  | .copies, s => ⟨id, fun _ => s⟩
  | .shares, s => ⟨fun _ => 0, fun _ => s⟩

/-- The handle `target` becomes a clone of `source`. -/
def Heap.clone {S : Type} (heap : Heap S) (source target : Nat) : Cloning → Heap S
  | .copies => { heap with
      cells := Function.update heap.cells (heap.place target) (heap.cells (heap.place source)) }
  | .shares => { heap with place := Function.update heap.place target (heap.place source) }

/-- The handles beside a single store. -/
structure Beside (S : Type) where
  heap : Heap S
  single : S

section

variable {S O R : Type} (act : S → O → R × S) (cloning : Cloning)

def Beside.store (b : Beside S) (handle : Nat) : S := b.heap.cells (b.heap.place handle)

def Beside.step (b : Beside S) : Use O → Beside S
  | .call handle op =>
    { heap := { b.heap with
        cells := Function.update b.heap.cells (b.heap.place handle) (act (b.store handle) op).2 }
      single := (act b.single op).2 }
  | .clone source target => { b with heap := b.heap.clone source target cloning }

def SameReply (b : Beside S) : Use O → Prop
  | .call handle op => (act (b.store handle) op).1 = (act b.single op).1
  | .clone _ _ => True

/-- All calls are answered as on a single store. -/
def OneStore (s : S) (uses : List (Use O)) : Prop :=
  Along (Beside.step act cloning) (SameReply act) ⟨.start cloning s, s⟩ uses

/-! ## Handles that have seen every call -/

/-- The handles that have seen every call, after a use. -/
def freshStep (fresh : Nat → Prop) : Use Unit → Nat → Prop
  | .call handle _ => fun n => n = handle
  | .clone source target => Function.update fresh target (fresh source)

def CallsFresh (fresh : Nat → Prop) : Use Unit → Prop
  | .call handle _ => fresh handle
  | .clone _ _ => True

/-- Each call goes through a handle that has seen all calls before it. -/
def Threaded (pattern : List (Use Unit)) : Prop :=
  Along freshStep CallsFresh (fun _ => True) pattern

theorem freshStep_clone (fresh : Nat → Prop) (source target n : Nat) :
    freshStep fresh (.clone source target) n = if n = target then fresh source else fresh n := by
  show Function.update fresh target (fresh source) n = _
  by_cases hn : n = target
  · rw [if_pos hn, hn, Function.update_self]
  · rw [if_neg hn, Function.update_of_ne hn]

variable {act cloning} {s : S}

/-- Handles that share one cell are one store. -/
theorem oneStore_of_shares (uses : List (Use O)) : OneStore act .shares s uses := by
  have hrun : ∀ b : Beside S, (∀ n, b.heap.place n = 0) → b.heap.cells 0 = b.single →
      Along (Beside.step act .shares) (SameReply act) b uses := by
    induction uses with
    | nil => exact fun _ _ _ => trivial
    | cons use uses ih =>
      intro b hplace hcell
      have hstore : ∀ n, b.store n = b.single := by
        intro n
        unfold Beside.store
        rw [hplace, hcell]
      cases use with
      | call handle op =>
        refine ⟨congrArg (fun s => (act s op).1) (hstore handle), ih _ hplace ?_⟩
        · unfold Beside.step
          dsimp only
          rw [hplace, Function.update_self, hstore]
      | clone source target =>
        refine ⟨trivial, ih _ (fun n => ?_) hcell⟩
        show Function.update b.heap.place target (b.heap.place source) n = 0
        by_cases hn : n = target
        · rw [hn, Function.update_self, hplace]
        · rw [Function.update_of_ne hn, hplace]
  exact hrun _ (fun _ => rfl) rfl

/-! ## Copies -/

/-- The store of a handle after a use. -/
theorem store_call {b : Beside S} (hplace : b.heap.place = id) (handle : Nat) (op : O) (n : Nat) :
    (b.step act .copies (.call handle op)).store n =
      if n = handle then (act (b.store handle) op).2 else b.store n := by
  unfold Beside.step Beside.store
  dsimp only
  rw [hplace]
  by_cases hn : n = handle
  · rw [if_pos hn, hn, id, Function.update_self]
  · rw [if_neg hn]
    exact Function.update_of_ne hn _ _

theorem store_clone {b : Beside S} (hplace : b.heap.place = id) (source target n : Nat) :
    (b.step act .copies (.clone source target : Use O)).store n =
      if n = target then b.store source else b.store n := by
  unfold Beside.step Beside.store Heap.clone
  dsimp only
  rw [hplace]
  by_cases hn : n = target
  · rw [if_pos hn, hn, id, Function.update_self, id]
  · rw [if_neg hn]
    exact Function.update_of_ne hn _ _

theorem place_step {b : Beside S} (hplace : b.heap.place = id) (use : Use O) :
    (b.step act .copies use).heap.place = id := by
  cases use with
  | call handle op => exact hplace
  | clone source target => exact hplace

/-- Handles that have seen every call hold what the single store does. -/
structure Holds (fresh : Nat → Prop) (b : Beside S) : Prop where
  place : b.heap.place = id
  store : ∀ n, fresh n → b.store n = b.single

theorem holds_step {fresh : Nat → Prop} {b : Beside S} {use : Use O} (h : Holds fresh b)
    (hfresh : CallsFresh fresh use.shape) :
    SameReply act b use ∧ Holds (freshStep fresh use.shape) (b.step act .copies use) := by
  cases use with
  | call handle op =>
    have hhandle : b.store handle = b.single := h.store handle hfresh
    refine ⟨congrArg (fun s => (act s op).1) hhandle, place_step h.place _, fun n hn => ?_⟩
    rw [store_call h.place, if_pos (show n = handle from hn), hhandle]
    rfl
  | clone source target =>
    refine ⟨trivial, place_step h.place _, fun n hn => ?_⟩
    have hn : freshStep fresh (.clone source target) n := hn
    rw [freshStep_clone] at hn
    rw [store_clone h.place]
    by_cases heq : n = target
    · rw [if_pos heq] at hn ⊢
      exact h.store source hn
    · rw [if_neg heq] at hn ⊢
      exact h.store n hn

theorem oneStore_of_threaded {uses : List (Use O)} (h : Threaded (uses.map Use.shape)) :
    OneStore act .copies s uses := by
  have hrun : ∀ (fresh : Nat → Prop) (b : Beside S), Holds fresh b →
      Along freshStep CallsFresh fresh (uses.map Use.shape) →
      Along (Beside.step act .copies) (SameReply act) b uses := by
    clear h
    induction uses with
    | nil => exact fun _ _ _ _ => trivial
    | cons use uses ih =>
      intro fresh b hb h
      obtain ⟨hreply, hnext⟩ := holds_step hb h.1
      exact ⟨hreply, ih _ _ hnext h.2⟩
  exact hrun _ _ ⟨rfl, fun _ _ => rfl⟩ h

/-! ## Copies that differ -/

/-- A reading operation that tells whether a writing one was before it, from `s` on. -/
structure Tells (act : S → O → R × S) (s : S) (write read : O) : Prop where
  keeps : (act s read).2 = s
  differs : (act (act s write).2 read).1 ≠ (act s read).1

/-- The same operation in every call. -/
def fill (op : O) (pattern : List (Use Unit)) : List (Use O) := pattern.map (Use.map fun _ => op)

theorem shape_fill (op : O) (pattern : List (Use Unit)) :
    (fill op pattern).map Use.shape = pattern := by
  unfold fill
  rw [List.map_map]
  refine List.map_id'' (fun use => ?_) pattern
  cases use with
  | call handle op' => rfl
  | clone source target => rfl

/-- Reading changes nothing anywhere. -/
theorem run_fill {read : O} (hkeeps : (act s read).2 = s) (pattern : List (Use Unit)) :
    (run (Beside.step act .copies) ⟨.start .copies s, s⟩ (fill read pattern)).heap.place = id ∧
      (run (Beside.step act .copies) ⟨.start .copies s, s⟩ (fill read pattern)).single = s ∧
      ∀ n, (run (Beside.step act .copies) ⟨.start .copies s, s⟩ (fill read pattern)).store n =
        s := by
  induction pattern using List.reverseRecOn with
  | nil => exact ⟨rfl, rfl, fun _ => rfl⟩
  | append_singleton pattern use ih =>
    obtain ⟨hplace, hsingle, hstore⟩ := ih
    unfold fill at hplace hsingle hstore ⊢
    rw [List.map_append, List.map_singleton, run_snoc]
    refine ⟨place_step hplace _, ?_, fun n => ?_⟩
    · cases use with
      | call handle op =>
        show (act _ read).2 = s
        rw [hsingle, hkeeps]
      | clone source target => exact hsingle
    · cases use with
      | call handle op =>
        show Beside.store (Beside.step act .copies _ (.call handle read)) n = s
        rw [store_call hplace, hstore, hkeeps, hstore, ite_self]
      | clone source target =>
        show Beside.store (Beside.step act .copies _ (.clone source target)) n = s
        rw [store_clone hplace, hstore, hstore, ite_self]

/-- After a pattern, either every handle has seen every call, or some operations in its place make
    the handles that have not differ from the single store by the writing one. -/
theorem exists_stale {write read : O} (hkeeps : (act s read).2 = s) (pattern : List (Use Unit)) :
    (∀ n, run freshStep (fun _ => True) pattern n) ∨
      ∃ uses : List (Use O), uses.map Use.shape = pattern ∧
        (run (Beside.step act .copies) ⟨.start .copies s, s⟩ uses).heap.place = id ∧
        (run (Beside.step act .copies) ⟨.start .copies s, s⟩ uses).single = (act s write).2 ∧
        ∀ n, ¬ run freshStep (fun _ => True) pattern n →
          (run (Beside.step act .copies) ⟨.start .copies s, s⟩ uses).store n = s := by
  induction pattern using List.reverseRecOn with
  | nil => exact Or.inl fun _ => trivial
  | append_singleton pattern use ih =>
    rw [run_snoc]
    cases use with
    | call handle op =>
      -- the last call writes, and all before it read
      obtain ⟨hplace, hsingle, hstore⟩ := run_fill hkeeps pattern
      refine Or.inr ⟨fill read pattern ++ [.call handle write], ?_, ?_, ?_, fun n hn => ?_⟩
      · rw [List.map_append, shape_fill]
        rfl
      · rw [run_snoc]
        exact place_step hplace _
      · rw [run_snoc]
        show (act _ write).2 = (act s write).2
        rw [hsingle]
      · rw [run_snoc, store_call hplace, if_neg (show ¬ n = handle from hn), hstore]
    | clone source target =>
      rcases ih with hall | ⟨uses, hshape, hplace, hsingle, hstale⟩
      · refine Or.inl fun n => ?_
        rw [freshStep_clone]
        split
        · exact hall source
        · exact hall n
      · refine Or.inr ⟨uses ++ [.clone source target], ?_, ?_, ?_, fun n hn => ?_⟩
        · rw [List.map_append, hshape]
          rfl
        · rw [run_snoc]
          exact place_step hplace _
        · rw [run_snoc]
          exact hsingle
        · rw [run_snoc, store_clone hplace]
          rw [freshStep_clone] at hn
          by_cases heq : n = target
          · rw [if_pos heq] at hn ⊢
            exact hstale source hn
          · rw [if_neg heq] at hn ⊢
            exact hstale n hn

/-- Copies answer as one store does, for all operations in place of the calls, exactly when each
    call goes through a handle that has seen all calls before it. -/
theorem oneStore_of_copies_iff {write read : O} (htells : Tells act s write read)
    (pattern : List (Use Unit)) :
    (∀ uses : List (Use O), uses.map Use.shape = pattern → OneStore act .copies s uses) ↔
      Threaded pattern := by
  constructor
  · intro h
    by_contra hnot
    obtain ⟨done, use, rest, hpattern, hstale⟩ := exists_not_of_not_along hnot
    cases use with
    | clone source target => exact hstale trivial
    | call handle op =>
    obtain ⟨uses, hshape, -, hsingle, hstore⟩ := (exists_stale htells.keeps done).resolve_left
      fun hall => hstale (hall handle)
    have hone := h (uses ++ .call handle read :: fill read rest) (by
      rw [List.map_append, List.map_cons, hshape, shape_fill, hpattern]
      rfl)
    have hreply : (act _ read).1 = (act _ read).1 := (along_append.mp hone).2.1
    rw [hsingle, hstore handle hstale] at hreply
    exact htells.differs hreply.symm
  · intro h uses hshape
    rw [← hshape] at h
    exact oneStore_of_threaded h

end

end Mik.Lib
