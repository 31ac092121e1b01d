import Mathlib.Data.List.Rotate
import Mathlib.Algebra.Order.BigOperators.Group.List
import Mathlib.Algebra.Order.Ring.Nat

/-!
`AggregatedLoad` (`multithreading/load_balancing_service/aggregated_thread_load.rs`): the internal
queue lengths of the last `window_size` blocks of a thread, in a ring of slots, and their sum.
`append_from` moves the cursor before it writes, so the slot it overwrites holds the oldest
sample; `reset` rewinds the cursor and lowers the flag but keeps the slots and the sum.

The second component of a slot, the accounts load of its block, and the metrics are left out:
the load value and readiness read only the queue lengths. A queue length is a `usize` counted in
ℕ: the addition is exact, and the subtraction is the truncated one, which the sum invariant
shows never to cut.
-/

namespace AckiNacki

structure AggregatedLoad where
  window : List Nat
  cursor : Nat
  aggregatedValue : Nat
  isFilled : Bool
  windowSize : Nat

namespace AggregatedLoad

def new (windowSize : Nat) : AggregatedLoad where
  window := List.replicate windowSize 0
  cursor := 0
  aggregatedValue := 0
  isFilled := false
  windowSize := windowSize

def isReady (load : AggregatedLoad) : Bool := load.isFilled

def reset (load : AggregatedLoad) : AggregatedLoad := { load with isFilled := false, cursor := 0 }

def loadValue (load : AggregatedLoad) : Nat := load.aggregatedValue

/-- The slot that `append_from` writes: `cursor += 1`, back to `0` at `window_size`. -/
def nextCursor (load : AggregatedLoad) : Nat :=
  if load.windowSize ≤ load.cursor + 1 then 0 else load.cursor + 1

/-- `append_from`, given what `snapshot_load` reads of the block's state: its internal message
queue length. -/
def appendFrom (load : AggregatedLoad) (queueLength : Nat) : AggregatedLoad where
  window := load.window.set load.nextCursor queueLength
  cursor := load.nextCursor
  aggregatedValue := load.aggregatedValue + queueLength - load.window.getD load.nextCursor 0
  isFilled := decide (load.windowSize ≤ load.cursor + 1) || load.isFilled
  windowSize := load.windowSize

inductive Operation
  | appendFrom (queueLength : Nat)
  | reset

def apply (load : AggregatedLoad) : Operation → AggregatedLoad
  | .appendFrom queueLength => load.appendFrom queueLength
  | .reset => load.reset

def run (windowSize : Nat) (operations : List Operation) : AggregatedLoad :=
  operations.foldl apply (new windowSize)

def trackAppended (appended : List Nat) : Operation → List Nat
  | .appendFrom queueLength => appended ++ [queueLength]
  | .reset => []

/-- The queue lengths appended since the last reset, or since `new`. -/
def appendedSinceReset (operations : List Operation) : List Nat :=
  operations.foldl trackAppended []

def recent (n : Nat) (samples : List Nat) : List Nat := samples.drop (samples.length - n)

/-! ### The ring read in the order of its writes -/

theorem rotate_set_self {w : List Nat} {i : Nat} (hi : i < w.length) (x : Nat) :
    (w.set i x).rotate i = (w.rotate i).set 0 x := by
  have hlength : (w.take i).length = i := List.length_take_of_le hi.le
  have hrotate := List.rotate_append_length_eq (w.take i) (x :: w.drop (i + 1))
  rw [hlength] at hrotate
  rw [List.set_eq_take_append_cons_drop, if_pos hi, hrotate, List.rotate_eq_drop_append_take hi.le,
    ← List.getElem_cons_drop w i hi]
  rfl

theorem length_recent {n : Nat} {samples : List Nat} (h : n ≤ samples.length) :
    (recent n samples).length = n := by
  simp [recent]
  omega

theorem recent_append_singleton {n : Nat} {samples : List Nat} (hpos : 0 < n)
    (h : n ≤ samples.length) (sample : Nat) :
    recent n (samples ++ [sample]) = (recent n samples).tail ++ [sample] := by
  simp only [recent, List.length_append, List.length_singleton, List.tail_drop]
  rw [List.drop_append_of_le_length (by omega), show samples.length + 1 - n =
    samples.length - n + 1 by omega]

theorem recent_append_of_le {n : Nat} {stale samples : List Nat} (h : n ≤ samples.length) :
    recent n (stale ++ samples) = recent n samples := by
  simp only [recent, List.length_append]
  rw [List.drop_append_eq_append_drop, List.drop_eq_nil_of_le (by omega), List.nil_append]
  congr 1
  omega

/-- The slots read from the one after the cursor are the last `windowSize` of the samples the slots
held at the last reset, `stale`, followed by those appended since, `appended`. -/
structure Ring (stale appended : List Nat) (load : AggregatedLoad) : Prop where
  length_window : load.window.length = load.windowSize
  length_stale : stale.length = load.windowSize
  cursor_lt : load.cursor < load.windowSize
  cursor_of_not_filled : load.isFilled = false → load.cursor = appended.length
  chronological : load.window.rotate (load.cursor + 1) = recent load.windowSize (stale ++ appended)
  sum_eq : load.aggregatedValue = load.window.sum
  filled_iff : load.isFilled = true ↔ load.windowSize ≤ appended.length

theorem ring_new {windowSize : Nat} (hpos : 0 < windowSize) :
    Ring (List.replicate windowSize 0) [] (new windowSize) :=
  ⟨by simp [new], by simp [new], hpos, fun _ => rfl,
    by simp [new, recent, List.rotate_replicate], by simp [new], by simp [new]; omega⟩

theorem Ring.reset {stale appended : List Nat} {load : AggregatedLoad}
    (h : Ring stale appended load) : Ring (load.window.rotate 1) [] load.reset where
  length_window := h.length_window
  length_stale := by rw [List.length_rotate, h.length_window]; rfl
  cursor_lt := by simpa [AggregatedLoad.reset] using lt_of_le_of_lt (Nat.zero_le _) h.cursor_lt
  cursor_of_not_filled _ := rfl
  chronological := by
    simp [AggregatedLoad.reset, recent, List.length_rotate, h.length_window]
  sum_eq := h.sum_eq
  filled_iff := by
    simpa [AggregatedLoad.reset] using
      Nat.pos_iff_ne_zero.mp (lt_of_le_of_lt (Nat.zero_le _) h.cursor_lt)

/-- An append overwrites the oldest sample, so the ring read from the new cursor on drops it and
ends with the new queue length, and the sum loses it and gains the new one. -/
theorem Ring.appendFrom {stale appended : List Nat} {load : AggregatedLoad}
    (h : Ring stale appended load) (queueLength : Nat) :
    Ring stale (appended ++ [queueLength]) (load.appendFrom queueLength) := by
  have hcursor := h.cursor_lt
  have hpos : 0 < load.windowSize := lt_of_le_of_lt (Nat.zero_le _) hcursor
  have hnext : load.nextCursor < load.window.length := by
    rw [h.length_window, nextCursor]
    split_ifs <;> omega
  have hrotate :
      load.window.rotate load.nextCursor = recent load.windowSize (stale ++ appended) := by
    rw [← h.chronological, nextCursor]
    split_ifs with hwrap
    · rw [show load.cursor + 1 = load.window.length by rw [h.length_window]; omega,
        List.rotate_length, List.rotate_zero]
    · rfl
  have hsamples : load.windowSize ≤ (stale ++ appended).length := by simp [h.length_stale]
  obtain ⟨oldest, rest, hsplit⟩ :
      ∃ oldest rest, recent load.windowSize (stale ++ appended) = oldest :: rest := by
    cases hrecent : recent load.windowSize (stale ++ appended) with
    | nil =>
        have hlength := length_recent hsamples
        rw [hrecent, List.length_nil] at hlength
        omega
    | cons oldest rest => exact ⟨oldest, rest, rfl⟩
  have hoverwritten : load.window.getD load.nextCursor 0 = oldest := by
    have hfirst := @List.getElem?_rotate _ load.window load.nextCursor 0 (by omega)
    rw [hrotate, hsplit, Nat.zero_add, Nat.mod_eq_of_lt hnext] at hfirst
    simp [← hfirst]
  have hview : (load.window.set load.nextCursor queueLength).rotate (load.nextCursor + 1) =
      rest ++ [queueLength] := by
    rw [← List.rotate_rotate, rotate_set_self hnext, hrotate, hsplit]
    simp [List.rotate_cons_succ]
  have hsum : load.window.sum = oldest + rest.sum := by
    rw [← (List.rotate_perm load.window load.nextCursor).sum_eq, hrotate, hsplit, List.sum_cons]
  have hsum' : (load.window.set load.nextCursor queueLength).sum = rest.sum + queueLength := by
    rw [← (List.rotate_perm _ (load.nextCursor + 1)).sum_eq, hview, List.sum_append,
      List.sum_singleton]
  refine ⟨by simpa [AggregatedLoad.appendFrom] using h.length_window, h.length_stale,
    by simpa [AggregatedLoad.appendFrom, h.length_window] using hnext, fun hfilled => ?_,
    ?_, ?_, ?_⟩
  · simp only [AggregatedLoad.appendFrom, Bool.or_eq_false_iff, decide_eq_false_iff_not,
      not_le] at hfilled
    have hcursorEq := h.cursor_of_not_filled hfilled.2
    simp only [AggregatedLoad.appendFrom, nextCursor, List.length_append, List.length_singleton]
    rw [if_neg (by omega), hcursorEq]
  · simp only [AggregatedLoad.appendFrom]
    rw [hview, ← List.append_assoc, recent_append_singleton hpos hsamples, hsplit]
    rfl
  · simp only [AggregatedLoad.appendFrom]
    rw [hsum', hoverwritten, h.sum_eq, hsum]
    omega
  · have hcases : load.isFilled = true ∨ load.cursor = appended.length := by
      cases hfilled : load.isFilled
      · exact .inr (h.cursor_of_not_filled hfilled)
      · exact .inl rfl
    simp only [AggregatedLoad.appendFrom, Bool.or_eq_true, decide_eq_true_eq, List.length_append,
      List.length_singleton]
    rw [h.filled_iff] at hcases ⊢
    omega

theorem Ring.apply {stale appended : List Nat} {load : AggregatedLoad}
    (h : Ring stale appended load) (operation : Operation) :
    ∃ stale', Ring stale' (trackAppended appended operation) (load.apply operation) := by
  cases operation with
  | appendFrom queueLength => exact ⟨stale, h.appendFrom queueLength⟩
  | reset => exact ⟨_, h.reset⟩

theorem ring_foldl : ∀ (operations : List Operation) {stale appended : List Nat}
    {load : AggregatedLoad}, Ring stale appended load →
      ∃ stale', Ring stale' (operations.foldl trackAppended appended) (operations.foldl apply load)
  | [], _, _, _, h => ⟨_, h⟩
  | operation :: rest, _, _, _, h => by
      obtain ⟨_, h'⟩ := h.apply operation
      exact ring_foldl rest h'

theorem windowSize_foldl : ∀ (operations : List Operation) (load : AggregatedLoad),
    (operations.foldl apply load).windowSize = load.windowSize
  | [], _ => rfl
  | operation :: rest, load => by
      rw [List.foldl_cons, windowSize_foldl rest]
      cases operation <;> rfl

/-- After any operations from `new(window_size)` with `window_size ≥ 1`: the load value is the sum
of the slots, so no slot, the evicted one included, exceeds it; the load is ready once
`window_size` queue lengths were appended since the last reset; and once ready, the slots read
from the one after the cursor are the last `window_size` of them, whose sum the load value is. -/
theorem run_loadValue (windowSize : Nat) (hpos : 0 < windowSize) (operations : List Operation) :
    let load := run windowSize operations
    let appended := appendedSinceReset operations
    load.loadValue = load.window.sum ∧ (∀ slot, load.window.getD slot 0 ≤ load.loadValue) ∧
      (windowSize ≤ appended.length → load.isReady = true) ∧
      (load.isReady = true → windowSize ≤ appended.length ∧
        load.window.rotate (load.cursor + 1) = recent windowSize appended ∧
        load.loadValue = (recent windowSize appended).sum) := by
  intro load appended
  obtain ⟨stale, h⟩ := ring_foldl operations (ring_new hpos)
  replace h : Ring stale appended load := h
  have hsize : load.windowSize = windowSize := windowSize_foldl _ _
  refine ⟨h.sum_eq, fun slot => ?_, fun hfull => h.filled_iff.mpr (hsize ▸ hfull),
    fun hready => ?_⟩
  · rw [List.getD_eq_getElem?_getD, loadValue, h.sum_eq]
    cases hslot : load.window[slot]? with
    | none => exact Nat.zero_le _
    | some sample => exact List.le_sum_of_mem (List.getElem?_mem hslot)
  · have hlength := h.filled_iff.mp hready
    have hview := h.chronological
    rw [hsize] at hlength hview
    rw [recent_append_of_le hlength] at hview
    refine ⟨hlength, hview, ?_⟩
    rw [← hview, loadValue, h.sum_eq, (List.rotate_perm _ _).sum_eq]

/-- A window of two after three appends, a reset and two more: ready again, with the sum. -/
theorem run_loadValue_two :
    let operations : List Operation :=
      [.appendFrom 5, .appendFrom 7, .appendFrom 9, .reset, .appendFrom 1, .appendFrom 2]
    0 < 2 ∧ (run 2 operations).loadValue = (run 2 operations).window.sum ∧
      (run 2 operations).isReady = true :=
  ⟨by decide, (run_loadValue 2 (by decide) _).1, (run_loadValue 2 (by decide) _).2.2.1 (by decide)⟩

end AggregatedLoad

end AckiNacki
