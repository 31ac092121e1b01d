import Mathlib.Data.List.Sort
import Mathlib.Data.Multiset.Bind
import Mathlib.Tactic.Abel

/-!
The lifecycle of `TVMBlockProducerProcess` (`block/producer/process.rs`).
`start_thread_production` spawns the production thread from the cached optimistic state when it
is the state of the requested parent block, else from the repository. The thread runs
`produce_next` over and over: each iteration drains the epoch channel in its "read messages" span
and, in its "save state" span, moves to the produced block's state and pushes the block to
`produced_blocks`. `get_produced_blocks` drains `produced_blocks`, sorted by sequence number.
`stop_thread_production` signals the thread, joins it, caches the optimistic state it returns and
drains `produced_blocks` without using the result. `send_epoch_message` sends to the channel of
the last thread started, if any.

The iteration that finds the stop signal returns before its "save state" span, so the epoch data it
drained, and those left in the channel, reach no block; so do the data sent while no thread runs.
Blocks and optimistic states are left abstract (the ack and nack buffers are the subject of
`Producer.Process`); the `Instant` attached to each collected block, the metrics, the timeout and
the archive are left out. A thread ends only when it is stopped, so the assertion of
`get_produced_blocks` that the running thread has not finished always holds.
-/

namespace AckiNacki.Producer

variable {S B D E I : Type}

/-- The production thread: its `initial_state` (the optimistic state of the last block it pushed),
the epoch data waiting in its channel, and those the running iteration drained, if it has. -/
structure ProductionThread (S D : Type) where
  initialState : S
  epochChannel : List D
  iteration : Option (List D)

structure ProducedEntry (B S D : Type) where
  block : B
  epochData : List D
  state : S

/-- The fields of `TVMBlockProducerProcess` that its lifecycle reads and writes;
`epoch_block_keeper_data_senders` is kept as whether it is set. -/
structure ProducerProcess (S B D : Type) where
  activeProducerThread : Option (ProductionThread S D)
  optimisticStateCache : Option S
  producedBlocks : List (ProducedEntry B S D)
  epochBlockKeeperDataSenders : Bool

inductive StartFailure (E I : Type)
  | repository (error : E)
  /-- The panic "Failed to find optimistic in repository for block". -/
  | missingOptimisticState (prevBlockId : I)

def ProducerProcess.pendingEpochData (p : ProducerProcess S B D) : List D :=
  match p.activeProducerThread with
  | some thread => thread.iteration.getD [] ++ thread.epochChannel
  | none => []

/-- The "read messages" span of `produce_next`: the iteration drains the epoch channel. -/
def readEpochMessages (p : ProducerProcess S B D) : Option (ProducerProcess S B D) :=
  match p.activeProducerThread with
  | some ⟨state, channel, none⟩ =>
      some { p with activeProducerThread := some ⟨state, [], some channel⟩ }
  | _ => none

/-- The "save state" span of `produce_next` for the block it produced: the thread moves to the
block's state and pushes the block, with the epoch data the iteration drained. -/
def saveProducedBlock (p : ProducerProcess S B D) (block : B) (state : S) :
    Option (ProducerProcess S B D) :=
  match p.activeProducerThread with
  | some ⟨_, channel, some data⟩ =>
      some { p with
        activeProducerThread := some ⟨state, channel, none⟩
        producedBlocks := p.producedBlocks ++ [⟨block, data, state⟩] }
  | _ => none

/-- `send_epoch_message`: the process after it, and the data if they reach no thread (no sender
yet, or the sender of a thread that has ended). -/
def sendEpochMessage (p : ProducerProcess S B D) (data : D) : ProducerProcess S B D × List D :=
  match p.epochBlockKeeperDataSenders, p.activeProducerThread with
  | true, some ⟨state, channel, iteration⟩ =>
      ({ p with activeProducerThread := some ⟨state, channel ++ [data], iteration⟩ }, [])
  | _, _ => (p, [data])

section Lifecycle

variable (blockId : S → I) [DecidableEq I] (defaultBlockId : I) (seqNo : B → Nat)

/-- The block computing `initial_state` in `start_thread_production`: the cached state if it is
that of the parent block, else the parent's state in the repository, else the zero state when the
parent is the default block id; otherwise the panic. -/
def initialProductionState (p : ProducerProcess S B D) (prevBlockId : I)
    (stored : Except E (Option S)) (zeroState : Except E S) : Except (StartFailure E I) S :=
  match p.optimisticStateCache.filter (blockId · = prevBlockId) with
  | some state => .ok state
  | none =>
      match stored with
      | .error error => .error (.repository error)
      | .ok (some state) => .ok state
      | .ok none =>
          if prevBlockId = defaultBlockId then zeroState.mapError .repository
          else .error (.missingOptimisticState prevBlockId)

/-- `start_thread_production`, given what `get_optimistic_state` and `get_zero_state_for_thread`
return for the parent block. -/
def startThreadProduction (p : ProducerProcess S B D) (prevBlockId : I)
    (stored : Except E (Option S)) (zeroState : Except E S) :
    Except (StartFailure E I) (ProducerProcess S B D) :=
  if p.activeProducerThread.isSome then .ok p
  else
    (initialProductionState blockId defaultBlockId p prevBlockId stored zeroState).map
      fun initialState => { p with
        activeProducerThread := some ⟨initialState, [], none⟩
        epochBlockKeeperDataSenders := true }

/-- `get_produced_blocks`: drain `produced_blocks`, sorted stably by sequence number. -/
def getProducedBlocks (p : ProducerProcess S B D) :
    List (ProducedEntry B S D) × ProducerProcess S B D :=
  (p.producedBlocks.mergeSort fun a b => decide (seqNo a.block ≤ seqNo b.block),
    { p with producedBlocks := [] })

/-- `stop_thread_production`: the process after it, the blocks its `get_produced_blocks` drains and
drops, and the epoch data that reach no block. -/
def stopThreadProduction (p : ProducerProcess S B D) :
    ProducerProcess S B D × List (ProducedEntry B S D) × List D :=
  match p.activeProducerThread with
  | none => (p, [], [])
  | some thread =>
      let (dropped, p') := getProducedBlocks seqNo
        { p with activeProducerThread := none, optimisticStateCache := some thread.initialState }
      (p', dropped, thread.iteration.getD [] ++ thread.epochChannel)

end Lifecycle

inductive ProcessEvent (S B D E I : Type)
  | start (prevBlockId : I) (stored : Except E (Option S)) (zeroState : Except E S)
  | readMessages
  | saveBlock (block : B) (state : S)
  | sendEpoch (data : D)
  | getBlocks
  | stop

/-- What the process hands out over a run: the batches `get_produced_blocks` returns, the blocks
the stops drop, and the epoch data that reach no block. -/
structure Delivery (B S D : Type) where
  collected : List (List (ProducedEntry B S D))
  dropped : List (ProducedEntry B S D)
  lost : List D

def Delivery.empty : Delivery B S D := ⟨[], [], []⟩

def Delivery.append (first later : Delivery B S D) : Delivery B S D :=
  ⟨first.collected ++ later.collected, first.dropped ++ later.dropped, first.lost ++ later.lost⟩

section Run

variable (blockId : S → I) [DecidableEq I] (defaultBlockId : I) (seqNo : B → Nat)

/-- One event; `none` where it cannot happen (a span of a thread that is not at it) and where the
caller of `start_thread_production` panics. A start that returns an error leaves the process as it
was. -/
def processStep (p : ProducerProcess S B D) :
    ProcessEvent S B D E I → Option (ProducerProcess S B D × Delivery B S D)
  | .start prevBlockId stored zeroState =>
      match startThreadProduction blockId defaultBlockId p prevBlockId stored zeroState with
      | .ok p' => some (p', .empty)
      | .error (.repository _) => some (p, .empty)
      | .error (.missingOptimisticState _) => none
  | .readMessages => (readEpochMessages p).map (·, .empty)
  | .saveBlock block state => (saveProducedBlock p block state).map (·, .empty)
  | .sendEpoch data => some ((sendEpochMessage p data).1, ⟨[], [], (sendEpochMessage p data).2⟩)
  | .getBlocks =>
      some ((getProducedBlocks seqNo p).2, ⟨[(getProducedBlocks seqNo p).1], [], []⟩)
  | .stop =>
      some ((stopThreadProduction seqNo p).1,
        ⟨[], (stopThreadProduction seqNo p).2.1, (stopThreadProduction seqNo p).2.2⟩)

def processRun (p : ProducerProcess S B D) :
    List (ProcessEvent S B D E I) → Option (ProducerProcess S B D × Delivery B S D)
  | [] => some (p, .empty)
  | event :: rest =>
      (processStep blockId defaultBlockId seqNo p event).bind fun (p', first) =>
        (processRun p' rest).map fun (p'', later) => (p'', first.append later)

end Run

/-! ### Where the blocks and the epoch data go -/

def Delivery.entries (d : Delivery B S D) : List (ProducedEntry B S D) :=
  d.collected.flatten ++ d.dropped

def savedBlocks (events : List (ProcessEvent S B D E I)) : List B :=
  events.filterMap fun
    | .saveBlock block _ => some block
    | _ => none

def sentEpochData (events : List (ProcessEvent S B D E I)) : List D :=
  events.filterMap fun
    | .sendEpoch data => some data
    | _ => none

theorem savedBlocks_cons (event : ProcessEvent S B D E I) (rest : List (ProcessEvent S B D E I)) :
    savedBlocks (event :: rest) = savedBlocks [event] ++ savedBlocks rest := by
  cases event <;> rfl

theorem sentEpochData_cons (event : ProcessEvent S B D E I)
    (rest : List (ProcessEvent S B D E I)) :
    sentEpochData (event :: rest) = sentEpochData [event] ++ sentEpochData rest := by
  cases event <;> rfl

def Delivery.handedBlocks (d : Delivery B S D) : Multiset B :=
  Multiset.map ProducedEntry.block (d.entries : Multiset (ProducedEntry B S D))

def Delivery.handedEpochData (d : Delivery B S D) : Multiset D :=
  Multiset.bind (d.entries : Multiset (ProducedEntry B S D))
    (fun entry => (entry.epochData : Multiset D)) + (d.lost : Multiset D)

def ProducerProcess.heldBlocks (p : ProducerProcess S B D) : Multiset B :=
  Multiset.map ProducedEntry.block (p.producedBlocks : Multiset (ProducedEntry B S D))

def ProducerProcess.heldEpochData (p : ProducerProcess S B D) : Multiset D :=
  Multiset.bind (p.producedBlocks : Multiset (ProducedEntry B S D))
    (fun entry => (entry.epochData : Multiset D)) + (p.pendingEpochData : Multiset D)

/-- From `p` to `p'`, handing out `delivery`: the blocks handed out or held are those held before
and those `saved`, the epoch data handed out, lost or held are those held before and those `sent`,
and every batch returned is sorted by sequence number. -/
structure Accounts (seqNo : B → Nat) (p p' : ProducerProcess S B D) (delivery : Delivery B S D)
    (saved : List B) (sent : List D) : Prop where
  blocks : delivery.handedBlocks + p'.heldBlocks = p.heldBlocks + ↑saved
  epochData : delivery.handedEpochData + p'.heldEpochData = p.heldEpochData + ↑sent
  sorted : ∀ batch ∈ delivery.collected,
    batch.Pairwise fun a b => seqNo a.block ≤ seqNo b.block

@[simp] theorem handedBlocks_empty : (Delivery.empty : Delivery B S D).handedBlocks = 0 := rfl

@[simp] theorem handedEpochData_empty :
    (Delivery.empty : Delivery B S D).handedEpochData = 0 := rfl

theorem entries_append (first later : Delivery B S D) :
    ((first.append later).entries : Multiset (ProducedEntry B S D)) =
      ↑first.entries + ↑later.entries := by
  simp only [Delivery.entries, Delivery.append, List.flatten_append, ← Multiset.coe_add]
  abel

theorem handedBlocks_append (first later : Delivery B S D) :
    (first.append later).handedBlocks = first.handedBlocks + later.handedBlocks := by
  simp only [Delivery.handedBlocks, entries_append, Multiset.map_add]

theorem handedEpochData_append (first later : Delivery B S D) :
    (first.append later).handedEpochData = first.handedEpochData + later.handedEpochData := by
  have hlost : ((first.append later).lost : Multiset D) = ↑first.lost + ↑later.lost :=
    (Multiset.coe_add _ _).symm
  simp only [Delivery.handedEpochData, entries_append, Multiset.add_bind, hlost]
  abel

theorem Accounts.of_eq {seqNo : B → Nat} {p p' : ProducerProcess S B D}
    (hblocks : p'.producedBlocks = p.producedBlocks)
    (hpending : p'.pendingEpochData = p.pendingEpochData) :
    Accounts seqNo p p' .empty [] [] where
  blocks := by simp [ProducerProcess.heldBlocks, hblocks]
  epochData := by simp [ProducerProcess.heldEpochData, hblocks, hpending]
  sorted := fun _ hbatch => nomatch hbatch

theorem Accounts.trans {seqNo : B → Nat} {p p' p'' : ProducerProcess S B D}
    {first later : Delivery B S D} {saved saved' : List B} {sent sent' : List D}
    (h : Accounts seqNo p p' first saved sent) (h' : Accounts seqNo p' p'' later saved' sent') :
    Accounts seqNo p p'' (first.append later) (saved ++ saved') (sent ++ sent') where
  blocks := by
    rw [handedBlocks_append, add_assoc, h'.blocks, ← add_assoc, h.blocks, add_assoc,
      Multiset.coe_add]
  epochData := by
    rw [handedEpochData_append, add_assoc, h'.epochData, ← add_assoc, h.epochData, add_assoc,
      Multiset.coe_add]
  sorted batch hbatch := by
    rcases List.mem_append.mp hbatch with hfirst | hlater
    · exact h.sorted batch hfirst
    · exact h'.sorted batch hlater

/-! ### What each operation does -/

section Operations

variable (blockId : S → I) [DecidableEq I] (defaultBlockId : I) (seqNo : B → Nat)

theorem startThreadProduction_ok {p p' : ProducerProcess S B D} {prevBlockId : I}
    {stored : Except E (Option S)} {zeroState : Except E S}
    (h : startThreadProduction blockId defaultBlockId p prevBlockId stored zeroState = .ok p') :
    p' = p ∨ p.activeProducerThread = none ∧ ∃ initialState, p' = { p with
      activeProducerThread := some ⟨initialState, [], none⟩
      epochBlockKeeperDataSenders := true } := by
  unfold startThreadProduction at h
  split at h
  · exact .inl (Except.ok.inj h).symm
  · next hactive =>
      refine .inr ⟨Option.not_isSome_iff_eq_none.mp hactive, ?_⟩
      cases hinit : initialProductionState blockId defaultBlockId p prevBlockId stored zeroState
      · simp [hinit, Except.map] at h
      · simp only [hinit, Except.map, Except.ok.injEq] at h
        exact ⟨_, h.symm⟩

theorem readEpochMessages_accounts {p p' : ProducerProcess S B D}
    (h : readEpochMessages p = some p') : Accounts seqNo p p' .empty [] [] := by
  unfold readEpochMessages at h
  split at h
  · next hthread =>
      cases h
      exact Accounts.of_eq rfl (by simp [ProducerProcess.pendingEpochData, hthread])
  · cases h

theorem saveProducedBlock_accounts {p p' : ProducerProcess S B D} {block : B} {state : S}
    (h : saveProducedBlock p block state = some p') : Accounts seqNo p p' .empty [block] [] := by
  unfold saveProducedBlock at h
  split at h
  · next hthread =>
      cases h
      refine ⟨?_, ?_, fun _ hbatch => nomatch hbatch⟩
      · simp [ProducerProcess.heldBlocks, ← Multiset.coe_singleton]
      · simp [ProducerProcess.heldEpochData, ProducerProcess.pendingEpochData, hthread]
  · cases h

theorem sendEpochMessage_accounts (p : ProducerProcess S B D) (data : D) :
    Accounts seqNo p (sendEpochMessage p data).1 ⟨[], [], (sendEpochMessage p data).2⟩
      [] [data] := by
  refine ⟨?_, ?_, fun _ hbatch => nomatch hbatch⟩
  · unfold sendEpochMessage
    split <;> simp [Delivery.handedBlocks, Delivery.entries, ProducerProcess.heldBlocks]
  · unfold sendEpochMessage
    split
    · next hthread =>
        simp [Delivery.handedEpochData, Delivery.entries, ProducerProcess.heldEpochData,
          ProducerProcess.pendingEpochData, hthread, ← Multiset.coe_singleton]
    · simp [Delivery.handedEpochData, Delivery.entries, ProducerProcess.heldEpochData,
        ← Multiset.coe_singleton]
      rw [← List.append_assoc]
      exact (List.perm_append_singleton _ _).symm

theorem getProducedBlocks_sorted (p : ProducerProcess S B D) :
    (getProducedBlocks seqNo p).1.Pairwise fun a b => seqNo a.block ≤ seqNo b.block :=
  (List.sorted_mergeSort (fun _ _ _ hab hbc => by simp only [decide_eq_true_eq] at *; omega)
    (fun a b => by simpa using Nat.le_total (seqNo a.block) (seqNo b.block))
    p.producedBlocks).imp of_decide_eq_true

theorem getProducedBlocks_perm (p : ProducerProcess S B D) :
    ((getProducedBlocks seqNo p).1 : Multiset (ProducedEntry B S D)) = ↑p.producedBlocks :=
  Multiset.coe_eq_coe.mpr (List.mergeSort_perm _ _)

theorem getProducedBlocks_accounts (p : ProducerProcess S B D) :
    Accounts seqNo p (getProducedBlocks seqNo p).2 ⟨[(getProducedBlocks seqNo p).1], [], []⟩
      [] [] := by
  have hentries : ((⟨[(getProducedBlocks seqNo p).1], [], []⟩ : Delivery B S D).entries :
      Multiset (ProducedEntry B S D)) = ↑p.producedBlocks := by
    simp [Delivery.entries, getProducedBlocks_perm]
  refine ⟨?_, ?_, ?_⟩
  · simp only [Delivery.handedBlocks, hentries]
    simp [ProducerProcess.heldBlocks, getProducedBlocks]
  · simp only [Delivery.handedEpochData, hentries]
    simp [ProducerProcess.heldEpochData, getProducedBlocks, ProducerProcess.pendingEpochData]
  · intro batch hbatch
    rw [List.mem_singleton.mp hbatch]
    exact getProducedBlocks_sorted seqNo p

theorem stopThreadProduction_accounts (p : ProducerProcess S B D) :
    Accounts seqNo p (stopThreadProduction seqNo p).1
      ⟨[], (stopThreadProduction seqNo p).2.1, (stopThreadProduction seqNo p).2.2⟩ [] [] := by
  unfold stopThreadProduction
  split
  · exact Accounts.of_eq rfl rfl
  · next thread hthread =>
      have hperm := getProducedBlocks_perm seqNo
        { p with activeProducerThread := none, optimisticStateCache := some thread.initialState }
      refine ⟨?_, ?_, fun _ hbatch => nomatch hbatch⟩
      · simp only [Delivery.handedBlocks, Delivery.entries, List.flatten_nil, List.nil_append]
        rw [hperm]
        simp [ProducerProcess.heldBlocks, getProducedBlocks]
      · simp only [Delivery.handedEpochData, Delivery.entries, List.flatten_nil, List.nil_append]
        rw [hperm]
        simp [ProducerProcess.heldEpochData, getProducedBlocks, ProducerProcess.pendingEpochData,
          hthread]

theorem startThreadProduction_accounts {p p' : ProducerProcess S B D} {prevBlockId : I}
    {stored : Except E (Option S)} {zeroState : Except E S}
    (h : startThreadProduction blockId defaultBlockId p prevBlockId stored zeroState = .ok p') :
    Accounts seqNo p p' .empty [] [] := by
  rcases startThreadProduction_ok blockId defaultBlockId h with rfl | ⟨hnone, _, rfl⟩
  · exact Accounts.of_eq rfl rfl
  · exact Accounts.of_eq rfl (by simp [ProducerProcess.pendingEpochData, hnone])

theorem processStep_accounts {p p' : ProducerProcess S B D} {event : ProcessEvent S B D E I}
    {delivery : Delivery B S D}
    (h : processStep blockId defaultBlockId seqNo p event = some (p', delivery)) :
    Accounts seqNo p p' delivery (savedBlocks [event]) (sentEpochData [event]) := by
  cases event with
  | start prevBlockId stored zeroState =>
      simp only [processStep] at h
      split at h
      · next hstart =>
          cases h
          exact startThreadProduction_accounts blockId defaultBlockId seqNo hstart
      · cases h
        exact Accounts.of_eq rfl rfl
      · cases h
  | readMessages =>
      obtain ⟨_, hread, heq⟩ := Option.map_eq_some'.mp h
      cases heq
      exact readEpochMessages_accounts seqNo hread
  | saveBlock block state =>
      obtain ⟨_, hsave, heq⟩ := Option.map_eq_some'.mp h
      cases heq
      exact saveProducedBlock_accounts seqNo hsave
  | sendEpoch data =>
      cases h
      exact sendEpochMessage_accounts seqNo p data
  | getBlocks =>
      cases h
      exact getProducedBlocks_accounts seqNo p
  | stop =>
      cases h
      exact stopThreadProduction_accounts seqNo p

theorem processRun_accounts : ∀ (events : List (ProcessEvent S B D E I))
    {p p' : ProducerProcess S B D} {delivery : Delivery B S D},
    processRun blockId defaultBlockId seqNo p events = some (p', delivery) →
    Accounts seqNo p p' delivery (savedBlocks events) (sentEpochData events)
  | [], _, _, _, h => by
      cases h
      exact Accounts.of_eq rfl rfl
  | event :: rest, _, _, _, h => by
      obtain ⟨⟨_, first⟩, hstep, hrest⟩ := Option.bind_eq_some.mp h
      obtain ⟨⟨_, later⟩, hrun, heq⟩ := Option.map_eq_some'.mp hrest
      cases heq
      rw [savedBlocks_cons, sentEpochData_cons]
      exact (processStep_accounts blockId defaultBlockId seqNo hstep).trans
        (processRun_accounts rest hrun)

end Operations

/-! ### Over whole runs -/

section Runs

variable (blockId : S → I) [DecidableEq I] (defaultBlockId : I) (seqNo : B → Nat)

/-- Over any run of the process, each block the production thread saves is handed out once,
returned by `get_produced_blocks` or dropped by a stop, or is still in `produced_blocks`; and
every batch `get_produced_blocks` returns is sorted by sequence number. -/
theorem processRun_hands_out_blocks_once (events : List (ProcessEvent S B D E I))
    {p p' : ProducerProcess S B D} {delivery : Delivery B S D}
    (h : processRun blockId defaultBlockId seqNo p events = some (p', delivery)) :
    (∀ batch ∈ delivery.collected,
      batch.Pairwise fun a b => seqNo a.block ≤ seqNo b.block) ∧
      List.Perm ((delivery.entries ++ p'.producedBlocks).map (·.block))
        (p.producedBlocks.map (·.block) ++ savedBlocks events) := by
  have haccounts := processRun_accounts blockId defaultBlockId seqNo events h
  refine ⟨haccounts.sorted, ?_⟩
  simpa [Delivery.handedBlocks, ProducerProcess.heldBlocks] using haccounts.blocks

/-- A thread started from the repository's state of block `0` saves blocks `2` and `1`, hands
them out in one batch sorted as `1, 2`, saves block `3`, and is stopped, which drops block `3`. -/
theorem processRun_hands_out_blocks_once_sorted_batch :
    let events : List (ProcessEvent Nat Nat Nat Unit Nat) :=
      [.start 0 (.ok (some 0)) (.ok 0), .readMessages, .saveBlock 2 2, .readMessages,
        .saveBlock 1 1, .getBlocks, .readMessages, .saveBlock 3 3, .stop]
    ∃ p' delivery, processRun id 0 id ⟨none, none, [], false⟩ events = some (p', delivery) ∧
      delivery.collected.map (·.map (·.block)) = [[1, 2]] ∧
      delivery.dropped.map (·.block) = [3] ∧
      (∀ batch ∈ delivery.collected, batch.Pairwise fun a b => a.block ≤ b.block) ∧
      List.Perm ((delivery.entries ++ p'.producedBlocks).map (·.block))
        (([] : List (ProducedEntry Nat Nat Nat)).map (·.block) ++ savedBlocks events) := by
  intro events
  have hrun : processRun id 0 id ⟨none, none, [], false⟩ events = some (_, _) := rfl
  exact ⟨_, _, hrun, by simp [Delivery.append, Delivery.empty, getProducedBlocks, List.mergeSort],
    by simp [Delivery.append, Delivery.empty, stopThreadProduction, getProducedBlocks],
    processRun_hands_out_blocks_once id 0 id events hrun⟩

/-- Over any run of the process, each epoch datum sent to it ends in exactly one block handed out
or held, or is lost (sent while no thread runs, or left in the thread at a stop), or still waits
in the thread. -/
theorem processRun_accounts_epoch_data (events : List (ProcessEvent S B D E I))
    {p p' : ProducerProcess S B D} {delivery : Delivery B S D}
    (h : processRun blockId defaultBlockId seqNo p events = some (p', delivery)) :
    List.Perm
      (delivery.entries.flatMap (·.epochData) ++ delivery.lost ++
        (p'.producedBlocks.flatMap (·.epochData) ++ p'.pendingEpochData))
      (p.producedBlocks.flatMap (·.epochData) ++ p.pendingEpochData ++ sentEpochData events) := by
  simpa [Delivery.handedEpochData, ProducerProcess.heldEpochData, List.append_assoc] using
    (processRun_accounts blockId defaultBlockId seqNo events h).epochData

/-- One epoch datum sent before any thread runs and one after: the first is lost, the second is
drained into the saved block. -/
theorem processRun_accounts_epoch_data_one_block :
    let events : List (ProcessEvent Nat Nat Nat Unit Nat) :=
      [.sendEpoch 6, .start 0 (.ok (some 0)) (.ok 0), .sendEpoch 7, .readMessages, .saveBlock 1 1]
    ∃ p' delivery, processRun id 0 id ⟨none, none, [], false⟩ events = some (p', delivery) ∧
      List.Perm
        (delivery.entries.flatMap (·.epochData) ++ delivery.lost ++
          (p'.producedBlocks.flatMap (·.epochData) ++ p'.pendingEpochData))
        (([] : List (ProducedEntry Nat Nat Nat)).flatMap (·.epochData) ++
          (⟨none, none, [], false⟩ : ProducerProcess Nat Nat Nat).pendingEpochData ++
          sentEpochData events) := by
  intro events
  have hrun : processRun id 0 id ⟨none, none, [], false⟩ events = some (_, _) := rfl
  exact ⟨_, _, hrun, processRun_accounts_epoch_data id 0 id events hrun⟩

end Runs

end AckiNacki.Producer
