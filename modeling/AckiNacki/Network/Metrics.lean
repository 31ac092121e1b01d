import Mathlib.Algebra.Order.BigOperators.Group.List
import Mathlib.Algebra.Order.Ring.Int
import Mathlib.Algebra.Order.Ring.Nat

/-!
The in-flight gauges of the network metrics (`network/src/metrics.rs`). `NetMetrics` keeps, under
a lock, one `usize` count per delivery phase. `start_delivery_phase` adds the number of messages
that enter a phase and `finish_delivery_phase` takes away those that leave it, both through
`update_delivery_phase_counter`, which casts the count to `isize` and adds it with
`usize::saturating_add_signed`; the observable gauges report the four counts.

The counters and histograms that `finish_delivery_phase` also records, and the export of the
gauges, are left out: nothing reads them back. A `usize` is a natural number below `2^64`;
`as isize` and the negation of an `isize` wrap as a release build does.

`receiver` (`network/src/pub_sub/receiver.rs`) spawns one task per accepted stream; each task
reports the start of its `IncomingTransfer` phase, reads the stream, and reports the finish. The
tasks and the accepting loop run in any interleaving.
-/

namespace AckiNacki.Network

inductive DeliveryPhase
  | incomingBuffer
  | incomingTransfer
  | outgoingTransfer
  | outgoingBuffer
  deriving DecidableEq

structure NetworkState where
  incomingBufferCount : Nat
  incomingTransferCount : Nat
  outgoingBufferCount : Nat
  outgoingTransferCount : Nat
  deriving DecidableEq

def NetworkState.default : NetworkState := ⟨0, 0, 0, 0⟩

def NetworkState.counter (state : NetworkState) : DeliveryPhase → Nat
  | .incomingBuffer => state.incomingBufferCount
  | .incomingTransfer => state.incomingTransferCount
  | .outgoingTransfer => state.outgoingTransferCount
  | .outgoingBuffer => state.outgoingBufferCount

def NetworkState.setCounter (state : NetworkState) (phase : DeliveryPhase) (value : Nat) :
    NetworkState :=
  match phase with
  | .incomingBuffer => { state with incomingBufferCount := value }
  | .incomingTransfer => { state with incomingTransferCount := value }
  | .outgoingTransfer => { state with outgoingTransferCount := value }
  | .outgoingBuffer => { state with outgoingBufferCount := value }

def usizeMax : Nat := 2 ^ 64 - 1

/-- `n as isize` for a `usize` `n`: its 64 bits read in two's complement. -/
def usizeAsIsize (n : Nat) : Int := Int.bmod n (2 ^ 64)

/-- `-x` for an `isize` `x`, wrapping at `isize::MIN`. -/
def isizeNeg (x : Int) : Int := Int.bmod (-x) (2 ^ 64)

/-- `usize::saturating_add_signed`: the sum, held between `0` and `usize::MAX`. -/
def saturatingAddSigned (counter : Nat) (delta : Int) : Nat :=
  min (counter + delta).toNat usizeMax

def updateDeliveryPhaseCounter (state : NetworkState) (phase : DeliveryPhase) (delta : Int) :
    NetworkState :=
  state.setCounter phase (saturatingAddSigned (state.counter phase) delta)

def startDeliveryPhase (state : NetworkState) (phase : DeliveryPhase) (msgCount : Nat) :
    NetworkState :=
  updateDeliveryPhaseCounter state phase (usizeAsIsize msgCount)

def finishDeliveryPhase (state : NetworkState) (phase : DeliveryPhase) (msgCount : Nat) :
    NetworkState :=
  updateDeliveryPhaseCounter state phase (isizeNeg (usizeAsIsize msgCount))

/-- A call of `start_delivery_phase` or `finish_delivery_phase`, with what it reads. -/
inductive DeliveryReport
  | start (phase : DeliveryPhase) (msgCount : Nat)
  | finish (phase : DeliveryPhase) (msgCount : Nat)

namespace DeliveryReport

def msgCount : DeliveryReport → Nat
  | .start _ msgCount | .finish _ msgCount => msgCount

/-- The messages the report puts into `phase`: negative when it takes them out. -/
def change (phase : DeliveryPhase) : DeliveryReport → Int
  | .start phase' msgCount => if phase' = phase then msgCount else 0
  | .finish phase' msgCount => if phase' = phase then -msgCount else 0

end DeliveryReport

def NetworkState.apply (state : NetworkState) : DeliveryReport → NetworkState
  | .start phase msgCount => startDeliveryPhase state phase msgCount
  | .finish phase msgCount => finishDeliveryPhase state phase msgCount

/-- The metrics after the reports, made one at a time under the lock, in the order given. -/
def deliveryRun (state : NetworkState) (reports : List DeliveryReport) : NetworkState :=
  reports.foldl NetworkState.apply state

/-- The messages of `phase` started and not yet finished over `reports`. -/
def inFlight (phase : DeliveryPhase) (reports : List DeliveryReport) : Int :=
  (reports.map (DeliveryReport.change phase)).sum

def volume (phase : DeliveryPhase) (reports : List DeliveryReport) : Nat :=
  (reports.map fun report => (report.change phase).natAbs).sum

@[simp] theorem counter_default (phase : DeliveryPhase) :
    NetworkState.default.counter phase = 0 := by
  cases phase <;> rfl

theorem apply_start (state : NetworkState) (phase : DeliveryPhase) (msgCount : Nat) :
    state.apply (.start phase msgCount) = startDeliveryPhase state phase msgCount := rfl

theorem apply_finish (state : NetworkState) (phase : DeliveryPhase) (msgCount : Nat) :
    state.apply (.finish phase msgCount) = finishDeliveryPhase state phase msgCount := rfl

theorem counter_incomingTransfer (state : NetworkState) :
    state.counter .incomingTransfer = state.incomingTransferCount := rfl

@[simp] theorem counter_setCounter (state : NetworkState) (phase : DeliveryPhase) (value : Nat) :
    (state.setCounter phase value).counter phase = value := by
  cases phase <;> rfl

theorem counter_setCounter_of_ne (state : NetworkState) {phase other : DeliveryPhase}
    (value : Nat) (h : phase ≠ other) :
    (state.setCounter phase value).counter other = state.counter other := by
  cases phase <;> cases other <;> first | rfl | exact absurd rfl h

theorem usizeAsIsize_of_lt {n : Nat} (h : n < 2 ^ 63) : usizeAsIsize n = n := by
  simp only [usizeAsIsize, Int.bmod]
  split <;> omega

theorem isizeNeg_of_lt {n : Nat} (h : n < 2 ^ 63) : isizeNeg n = -n := by
  simp only [isizeNeg, Int.bmod]
  split <;> omega

/-- A report whose count fits an `isize` moves the count of `phase` by its change, saturating. -/
theorem apply_counter (state : NetworkState) (report : DeliveryReport) (phase : DeliveryPhase)
    (hcount : report.msgCount < 2 ^ 63) (hbound : state.counter phase ≤ usizeMax) :
    (state.apply report).counter phase =
      saturatingAddSigned (state.counter phase) (report.change phase) := by
  have hsame : saturatingAddSigned (state.counter phase) 0 = state.counter phase := by
    simp only [saturatingAddSigned]
    omega
  cases report with
  | start phase' msgCount =>
      replace hcount : msgCount < 2 ^ 63 := hcount
      by_cases hphase : phase' = phase
      · subst hphase
        simp [NetworkState.apply, DeliveryReport.change, startDeliveryPhase,
          updateDeliveryPhaseCounter, usizeAsIsize_of_lt hcount]
      · simp [NetworkState.apply, DeliveryReport.change, startDeliveryPhase,
          updateDeliveryPhaseCounter, counter_setCounter_of_ne _ _ hphase, hphase, hsame]
  | finish phase' msgCount =>
      replace hcount : msgCount < 2 ^ 63 := hcount
      by_cases hphase : phase' = phase
      · subst hphase
        simp [NetworkState.apply, DeliveryReport.change, finishDeliveryPhase,
          updateDeliveryPhaseCounter, usizeAsIsize_of_lt hcount, isizeNeg_of_lt hcount]
      · simp [NetworkState.apply, DeliveryReport.change, finishDeliveryPhase,
          updateDeliveryPhaseCounter, counter_setCounter_of_ne _ _ hphase, hphase, hsame]

@[simp] theorem inFlight_concat (phase : DeliveryPhase) (reports : List DeliveryReport)
    (report : DeliveryReport) :
    inFlight phase (reports ++ [report]) = inFlight phase reports + report.change phase := by
  simp [inFlight]

@[simp] theorem volume_concat (phase : DeliveryPhase) (reports : List DeliveryReport)
    (report : DeliveryReport) :
    volume phase (reports ++ [report]) = volume phase reports + (report.change phase).natAbs := by
  simp [volume]

theorem deliveryRun_concat (state : NetworkState) (reports : List DeliveryReport)
    (report : DeliveryReport) :
    deliveryRun state (reports ++ [report]) = (deliveryRun state reports).apply report := by
  simp [deliveryRun]

/-- Each report moves a count by at most its own change, so no count passes the volume. -/
theorem deliveryRun_counter_le_volume (reports : List DeliveryReport) (phase : DeliveryPhase)
    (hcount : ∀ report ∈ reports, report.msgCount < 2 ^ 63)
    (hvolume : volume phase reports ≤ usizeMax) :
    (deliveryRun NetworkState.default reports).counter phase ≤ volume phase reports := by
  induction reports using List.reverseRecOn with
  | nil => simp [deliveryRun]
  | append_singleton reports report ih =>
      have hvolume' := (volume_concat phase reports report).symm ▸ hvolume
      have ih := ih (fun r hr => hcount r (List.mem_append_left _ hr)) (by omega)
      rw [deliveryRun_concat, apply_counter _ _ _ (hcount report (by simp)) (by omega),
        volume_concat, saturatingAddSigned]
      omega

/-- The gauge of a phase, after any sequence of start and finish reports with counts that fit an
`isize` and moving fewer than `2^64` messages in all, is the number of messages started and not
finished minus the lowest such number over the prefixes of the sequence: it is exact while no
finish has run ahead of its start, and each time the finishes run ahead it saturates at zero and
overcounts from then on by the largest shortfall. -/
theorem deliveryRun_counter_eq_inFlight_sub_lowest (reports : List DeliveryReport)
    (phase : DeliveryPhase) (hcount : ∀ report ∈ reports, report.msgCount < 2 ^ 63)
    (hvolume : volume phase reports ≤ usizeMax) :
    ∃ lowest, lowest <+: reports ∧
      (∀ pre, pre <+: reports → inFlight phase lowest ≤ inFlight phase pre) ∧
      ((deliveryRun NetworkState.default reports).counter phase : Int) =
        inFlight phase reports - inFlight phase lowest := by
  induction reports using List.reverseRecOn with
  | nil => exact ⟨[], List.nil_prefix, fun _ h => by rw [List.prefix_nil.mp h],
      by simp [deliveryRun, inFlight]⟩
  | append_singleton reports report ih =>
      have hvolume' := (volume_concat phase reports report).symm ▸ hvolume
      have hcount' := fun r hr => hcount r (List.mem_append_left _ hr)
      obtain ⟨lowest, hprefix, hlowest, hcounter⟩ := ih hcount' (by omega)
      have hle := deliveryRun_counter_le_volume reports phase hcount' (by omega)
      have hchange : (report.change phase).natAbs ≤ volume phase (reports ++ [report]) := by
        rw [volume_concat]; omega
      rw [deliveryRun_concat, apply_counter _ _ _ (hcount report (by simp)) (by omega),
        inFlight_concat, saturatingAddSigned]
      by_cases hnew : inFlight phase reports + report.change phase < inFlight phase lowest
      · refine ⟨reports ++ [report], List.prefix_refl _, fun pre hpre => ?_,
          by rw [inFlight_concat]; omega⟩
        rcases List.prefix_concat_iff.mp hpre with rfl | hpre
        · exact le_refl _
        · have := hlowest pre hpre
          rw [inFlight_concat]
          omega
      · refine ⟨lowest, hprefix.trans (List.prefix_append _ _), fun pre hpre => ?_, by omega⟩
        rcases List.prefix_concat_iff.mp hpre with rfl | hpre
        · rw [inFlight_concat]
          omega
        · exact hlowest pre hpre

/-- Two messages finished before three are started: the gauge ends at three, the true count at
one, the lowest prefix at minus two. -/
theorem deliveryRun_counter_finish_first :
    let reports := [DeliveryReport.finish .incomingBuffer 2, .start .incomingBuffer 3]
    (∀ report ∈ reports, report.msgCount < 2 ^ 63) ∧
      volume .incomingBuffer reports ≤ usizeMax ∧
      ∃ lowest, lowest <+: reports ∧
        (∀ pre, pre <+: reports →
          inFlight .incomingBuffer lowest ≤ inFlight .incomingBuffer pre) ∧
        ((deliveryRun NetworkState.default reports).counter .incomingBuffer : Int) =
          inFlight .incomingBuffer reports - inFlight .incomingBuffer lowest := by
  intro reports
  have hcount : ∀ report ∈ reports, report.msgCount < 2 ^ 63 := by decide
  have hvolume : volume .incomingBuffer reports ≤ usizeMax := by decide
  exact ⟨hcount, hvolume,
    deliveryRun_counter_eq_inFlight_sub_lowest reports .incomingBuffer hcount hvolume⟩

/-! ### The transfer tasks of `receiver` -/

/-- Where a task spawned by `receiver` is: before its start report, between its two reports
(reading the stream), or past its finish report. -/
inductive TransferTask
  | spawned
  | transferring
  | finished
  deriving DecidableEq

structure ReceiverState where
  tasks : List TransferTask
  metrics : NetworkState

/-- What can happen next: `accept_uni` yields a stream and a task is spawned for it, or one task
runs up to its next report. -/
inductive ReceiverAction
  | accept
  | advance (task : Nat)
  deriving DecidableEq

def advanceTask (state : ReceiverState) (task : Nat) : ReceiverState :=
  match state.tasks[task]? with
  | some .spawned =>
      ⟨state.tasks.set task .transferring,
        startDeliveryPhase state.metrics .incomingTransfer 1⟩
  | some .transferring =>
      ⟨state.tasks.set task .finished,
        finishDeliveryPhase state.metrics .incomingTransfer 1⟩
  | _ => state

def ReceiverState.step (state : ReceiverState) : ReceiverAction → ReceiverState
  | .accept => { state with tasks := state.tasks ++ [.spawned] }
  | .advance task => advanceTask state task

def receiverRun (state : ReceiverState) (actions : List ReceiverAction) : ReceiverState :=
  actions.foldl ReceiverState.step state

/-- The gauge counts the tasks reading their stream, and there are no more tasks than streams
accepted. -/
structure TransferGaugeExact (state : ReceiverState) (accepted : Nat) : Prop where
  gauge : state.metrics.incomingTransferCount = state.tasks.count .transferring
  tasks : state.tasks.length ≤ accepted

theorem TransferGaugeExact.accept {state : ReceiverState} {accepted : Nat}
    (h : TransferGaugeExact state accepted) :
    TransferGaugeExact (state.step .accept) (accepted + 1) :=
  ⟨by simp [ReceiverState.step, h.gauge], by simp [ReceiverState.step]; exact h.tasks⟩

theorem TransferGaugeExact.advance {state : ReceiverState} {accepted : Nat}
    (h : TransferGaugeExact state accepted) (hbound : accepted ≤ usizeMax) (task : Nat) :
    TransferGaugeExact (state.step (.advance task)) accepted := by
  have hgauge := h.gauge
  have htasks := h.tasks
  have hcounter : state.metrics.counter .incomingTransfer ≤ usizeMax := by
    have := List.count_le_length TransferTask.transferring state.tasks
    exact (hgauge ▸ this).trans (htasks.trans hbound)
  simp only [ReceiverState.step, advanceTask]
  split
  · next hspawned =>
      obtain ⟨hlt, hget⟩ := List.getElem?_eq_some_iff.mp hspawned
      have hset := List.count_set .transferring .transferring state.tasks task hlt
      have hle := List.count_le_length .transferring (state.tasks.set task .transferring)
      have hstart := apply_counter state.metrics (.start .incomingTransfer 1) .incomingTransfer
        (show 1 < 2 ^ 63 by omega) hcounter
      simp [hget] at hset hle
      refine ⟨?_, by simpa using htasks⟩
      dsimp only
      rw [← apply_start, ← counter_incomingTransfer, hstart, hset]
      rw [counter_incomingTransfer] at hcounter ⊢
      simp only [saturatingAddSigned, DeliveryReport.change, if_pos, Nat.cast_one]
      omega
  · next htransferring =>
      obtain ⟨hlt, hget⟩ := List.getElem?_eq_some_iff.mp htransferring
      have hset := List.count_set .finished .transferring state.tasks task hlt
      have hpos : 0 < state.tasks.count .transferring :=
        List.count_pos_iff.mpr (hget ▸ List.getElem_mem hlt)
      have hfinish := apply_counter state.metrics (.finish .incomingTransfer 1) .incomingTransfer
        (show 1 < 2 ^ 63 by omega) hcounter
      simp [hget] at hset
      refine ⟨?_, by simpa using htasks⟩
      dsimp only
      rw [← apply_finish, ← counter_incomingTransfer, hfinish, hset]
      rw [counter_incomingTransfer] at hcounter ⊢
      simp only [saturatingAddSigned, DeliveryReport.change, if_pos, Nat.cast_one]
      omega
  · exact h

theorem TransferGaugeExact.run : ∀ (actions : List ReceiverAction) {state : ReceiverState}
    {accepted : Nat}, TransferGaugeExact state accepted →
    accepted + actions.count .accept ≤ usizeMax →
    TransferGaugeExact (receiverRun state actions) (accepted + actions.count .accept)
  | [], _, _, h, _ => h
  | .accept :: actions, _, accepted, h, hbound => by
      have := TransferGaugeExact.run actions h.accept (by simp at hbound; omega)
      simpa [receiverRun, Nat.add_assoc, Nat.add_comm 1] using this
  | .advance task :: actions, _, _, h, hbound => by
      simpa [receiverRun] using
        TransferGaugeExact.run actions (h.advance (by simp at hbound; omega) task)
          (by simpa using hbound)

/-- In every interleaving of the accepting loop and the transfer tasks, with fewer than `2^64`
streams accepted, the `IncomingTransfer` gauge is the number of tasks reading their stream. -/
theorem receiverRun_transfer_gauge_exact (actions : List ReceiverAction)
    (haccepted : actions.count .accept ≤ usizeMax) :
    (receiverRun ⟨[], .default⟩ actions).metrics.incomingTransferCount =
      (receiverRun ⟨[], .default⟩ actions).tasks.count .transferring :=
  (TransferGaugeExact.run actions ⟨rfl, le_refl 0⟩ (by simpa using haccepted)).gauge

/-- Two streams accepted; the first task starts, the second starts, the first finishes. -/
theorem receiverRun_transfer_gauge_two_streams :
    let actions := [ReceiverAction.accept, .accept, .advance 0, .advance 1, .advance 0]
    actions.count .accept ≤ usizeMax ∧
      (receiverRun ⟨[], .default⟩ actions).metrics.incomingTransferCount =
        (receiverRun ⟨[], .default⟩ actions).tasks.count .transferring := by
  intro actions
  have haccepted : actions.count .accept ≤ usizeMax := by decide
  exact ⟨haccepted, receiverRun_transfer_gauge_exact actions haccepted⟩

end AckiNacki.Network
