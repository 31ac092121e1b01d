import AckiNacki.Producer.Aggregate

/-!
The production loop of `block/producer/process.rs` as it treats the acks and nacks that the
transport leaves in the shared buffers `received_acks` and `received_nacks`. An iteration of
`produce_next` copies and clears both buffers under their locks and aggregates the copies; after
producing the block it polls the external stop signal, and either returns `true` at once or
writes the aggregates into the block's common section and pushes the block to `produced_blocks`.
The transport may push an envelope into a buffer at any moment, also while an iteration runs.

The state is the two buffers, the produced blocks and the copies held by a running iteration. A
produced block keeps, beside the aggregates in its common section, the envelopes they were
aggregated from. The external messages, the epoch data, the block itself and the optimistic
state are left out. The two locks are taken one after the other; a push between them commutes
with the drain of the other buffer, so the drain is one step.
-/

namespace AckiNacki.Producer

structure Drained where
  acks : List (Envelope AckData)
  nacks : List (Envelope NackData)

/-- A block in `produced_blocks`, with the inputs of the aggregates of its common section. -/
structure ProducedBlock where
  drained : Drained
  acks : List (Envelope AckData)
  nacks : List (Envelope NackData)

structure ProductionState where
  receivedAcks : List (Envelope AckData)
  receivedNacks : List (Envelope NackData)
  producedBlocks : List ProducedBlock
  iteration : Option Drained
  stopped : Bool

inductive ProductionEvent
  | pushAck (envelope : Envelope AckData)
  | pushNack (envelope : Envelope NackData)
  /-- `produce_next` reads the messages: copy and clear both buffers, aggregate the copies. -/
  | drain
  /-- `produce_next` ends: `stop` is what `external_control_rx.try_recv()` finds. -/
  | finish (stop : Bool)

def ProductionState.initial : ProductionState := ⟨[], [], [], none, false⟩

/-- The end of an iteration: return `true` on the stop signal, else push the block whose common
section carries the aggregates. -/
def finishIteration (s : ProductionState) (drained : Drained) (stop : Bool) : ProductionState :=
  if stop then { s with iteration := none, stopped := true }
  else
    { s with
      iteration := none
      producedBlocks := s.producedBlocks ++
        [⟨drained, aggregateAcks drained.acks, aggregateNacks drained.nacks⟩] }

/-- One event; `none` where it cannot happen: an iteration starts only when none runs and the
loop has not stopped, and ends only when one runs. -/
def productionStep (s : ProductionState) : ProductionEvent → Option ProductionState
  | .pushAck envelope => some { s with receivedAcks := s.receivedAcks ++ [envelope] }
  | .pushNack envelope => some { s with receivedNacks := s.receivedNacks ++ [envelope] }
  | .drain =>
      match s.iteration, s.stopped with
      | none, false =>
          some { s with
            receivedAcks := []
            receivedNacks := []
            iteration := some ⟨s.receivedAcks, s.receivedNacks⟩ }
      | _, _ => none
  | .finish stop => s.iteration.map fun drained => finishIteration s drained stop

def productionRun (s : ProductionState) : List ProductionEvent → Option ProductionState
  | [] => some s
  | event :: rest => (productionStep s event).bind fun s' => productionRun s' rest

def pushedAcks (events : List ProductionEvent) : List (Envelope AckData) :=
  events.filterMap fun
    | .pushAck envelope => some envelope
    | _ => none

def pushedNacks (events : List ProductionEvent) : List (Envelope NackData) :=
  events.filterMap fun
    | .pushNack envelope => some envelope
    | _ => none

/-- An ack pushed, an iteration that drains it, and the stop signal at its end: between
iterations the ack is neither in its buffer nor among the inputs of a produced block. -/
theorem produceNext_stop_loses_ack :
    let ack : Envelope AckData := ⟨0, .ofList [(0, 1)], ⟨.ofByte 1⟩⟩
    let events := [.pushAck ack, .drain, .finish true]
    ack ∈ pushedAcks events ∧
      ∃ s, productionRun .initial events = some s ∧ s.iteration = none ∧
        ack ∉ s.receivedAcks ∧ ∀ block ∈ s.producedBlocks, ack ∉ block.drained.acks := by
  intro ack events
  exact ⟨.head _, _, rfl, rfl, List.not_mem_nil _, fun _ hblock => nomatch hblock⟩

/-! ### Without the stop signal nothing is lost -/

/-- Where an ack from the transport can be: in its buffer, with the running iteration, or among
the inputs of a produced block. -/
def AckKept (s : ProductionState) (ack : Envelope AckData) : Prop :=
  ack ∈ s.receivedAcks ∨ (∃ drained, s.iteration = some drained ∧ ack ∈ drained.acks) ∨
    ∃ block ∈ s.producedBlocks, ack ∈ block.drained.acks

def NackKept (s : ProductionState) (nack : Envelope NackData) : Prop :=
  nack ∈ s.receivedNacks ∨ (∃ drained, s.iteration = some drained ∧ nack ∈ drained.nacks) ∨
    ∃ block ∈ s.producedBlocks, nack ∈ block.drained.nacks

/-- Every event but the stop keeps every envelope where it may be. -/
theorem kept_of_step {s s' : ProductionState} {event : ProductionEvent}
    (h : productionStep s event = some s') (hstop : event ≠ .finish true) :
    (∀ ack, AckKept s ack → AckKept s' ack) ∧ (∀ nack, NackKept s nack → NackKept s' nack) := by
  cases event with
  | pushAck envelope =>
      cases h
      refine ⟨fun ack hack => ?_, fun _ => id⟩
      simp only [AckKept, List.mem_append, List.mem_singleton] at hack ⊢
      exact hack.elim (fun h => .inl (.inl h)) .inr
  | pushNack envelope =>
      cases h
      refine ⟨fun _ => id, fun nack hnack => ?_⟩
      simp only [NackKept, List.mem_append, List.mem_singleton] at hnack ⊢
      exact hnack.elim (fun h => .inl (.inl h)) .inr
  | drain =>
      simp only [productionStep] at h
      split at h
      · cases h
        rename_i hiteration _
        constructor
        · rintro ack (hack | ⟨drained, hdrained, -⟩ | hack)
          · exact .inr (.inl ⟨_, rfl, hack⟩)
          · simp [hiteration] at hdrained
          · exact .inr (.inr hack)
        · rintro nack (hnack | ⟨drained, hdrained, -⟩ | hnack)
          · exact .inr (.inl ⟨_, rfl, hnack⟩)
          · simp [hiteration] at hdrained
          · exact .inr (.inr hnack)
      · cases h
  | finish stop =>
      obtain ⟨drained, hiteration, rfl⟩ := Option.map_eq_some'.mp h
      have hfalse : stop = false := by simpa using hstop
      subst hfalse
      constructor
      · rintro ack (hack | ⟨d, hd, hack⟩ | ⟨block, hblock, hack⟩)
        · exact .inl hack
        · rw [hiteration] at hd
          cases hd
          exact .inr (.inr ⟨⟨drained, aggregateAcks drained.acks, aggregateNacks drained.nacks⟩,
            by simp [finishIteration], hack⟩)
        · exact .inr (.inr ⟨block, by simp [finishIteration, hblock], hack⟩)
      · rintro nack (hnack | ⟨d, hd, hnack⟩ | ⟨block, hblock, hnack⟩)
        · exact .inl hnack
        · rw [hiteration] at hd
          cases hd
          exact .inr (.inr ⟨⟨drained, aggregateAcks drained.acks, aggregateNacks drained.nacks⟩,
            by simp [finishIteration], hnack⟩)
        · exact .inr (.inr ⟨block, by simp [finishIteration, hblock], hnack⟩)

theorem mem_pushedAcks_cons {ack : Envelope AckData} {event : ProductionEvent}
    {rest : List ProductionEvent} (h : ack ∈ pushedAcks (event :: rest)) :
    event = .pushAck ack ∨ ack ∈ pushedAcks rest := by
  cases event with
  | pushAck envelope =>
      rcases List.mem_cons.mp h with rfl | h
      exacts [.inl rfl, .inr h]
  | pushNack _ | drain | finish _ => exact .inr h

theorem mem_pushedNacks_cons {nack : Envelope NackData} {event : ProductionEvent}
    {rest : List ProductionEvent} (h : nack ∈ pushedNacks (event :: rest)) :
    event = .pushNack nack ∨ nack ∈ pushedNacks rest := by
  cases event with
  | pushNack envelope =>
      rcases List.mem_cons.mp h with rfl | h
      exacts [.inl rfl, .inr h]
  | pushAck _ | drain | finish _ => exact .inr h

theorem kept_of_run : ∀ (events : List ProductionEvent) {s s' : ProductionState},
    (∀ event ∈ events, event ≠ .finish true) → productionRun s events = some s' →
      ((∀ ack, AckKept s ack → AckKept s' ack) ∧ ∀ nack, NackKept s nack → NackKept s' nack) ∧
      (∀ ack ∈ pushedAcks events, AckKept s' ack) ∧ ∀ nack ∈ pushedNacks events, NackKept s' nack
  | [], _, _, _, hrun => by
      cases hrun
      exact ⟨⟨fun _ => id, fun _ => id⟩, fun _ h => absurd h (List.not_mem_nil _),
        fun _ h => absurd h (List.not_mem_nil _)⟩
  | event :: rest, s, s', hstop, hrun => by
      obtain ⟨s'', hstep, hrest⟩ := Option.bind_eq_some.mp hrun
      have hfirst := kept_of_step hstep (hstop event (List.mem_cons_self _ _))
      obtain ⟨⟨hacks, hnacks⟩, hpushedAcks, hpushedNacks⟩ :=
        kept_of_run rest (fun e he => hstop e (List.mem_cons_of_mem _ he)) hrest
      refine ⟨⟨fun ack h => hacks ack (hfirst.1 ack h),
        fun nack h => hnacks nack (hfirst.2 nack h)⟩,
        fun ack hack => ?_, fun nack hnack => ?_⟩
      · rcases mem_pushedAcks_cons hack with rfl | hack
        · cases hstep
          exact hacks _ (.inl (by simp))
        · exact hpushedAcks ack hack
      · rcases mem_pushedNacks_cons hnack with rfl | hnack
        · cases hstep
          exact hnacks _ (.inl (by simp))
        · exact hpushedNacks nack hnack

/-- Without the stop signal, whenever no iteration runs, every envelope the transport pushed is in
its buffer or among the inputs of a produced block. -/
theorem productionRun_keeps_envelopes (events : List ProductionEvent)
    (hstop : ∀ event ∈ events, event ≠ .finish true) {s : ProductionState}
    (hrun : productionRun .initial events = some s) (hidle : s.iteration = none) :
    (∀ ack ∈ pushedAcks events,
      ack ∈ s.receivedAcks ∨ ∃ block ∈ s.producedBlocks, ack ∈ block.drained.acks) ∧
    ∀ nack ∈ pushedNacks events,
      nack ∈ s.receivedNacks ∨ ∃ block ∈ s.producedBlocks, nack ∈ block.drained.nacks := by
  obtain ⟨-, hacks, hnacks⟩ := kept_of_run events hstop hrun
  refine ⟨fun ack hack => ?_, fun nack hnack => ?_⟩
  · rcases hacks ack hack with h | ⟨_, hrunning, -⟩ | h
    · exact .inl h
    · simp [hidle] at hrunning
    · exact .inr h
  · rcases hnacks nack hnack with h | ⟨_, hrunning, -⟩ | h
    · exact .inl h
    · simp [hidle] at hrunning
    · exact .inr h

/-- An ack pushed, then an iteration that drains it and ends without the stop signal. -/
theorem productionRun_keeps_envelopes_one_ack :
    let ack : Envelope AckData := ⟨0, .ofList [(0, 1)], ⟨.ofByte 1⟩⟩
    let events := [.pushAck ack, .drain, .finish false]
    (∀ event ∈ events, event ≠ .finish true) ∧ ∃ s, productionRun .initial events = some s ∧
      s.iteration = none ∧
      (∀ ack ∈ pushedAcks events,
        ack ∈ s.receivedAcks ∨ ∃ block ∈ s.producedBlocks, ack ∈ block.drained.acks) ∧
      ∀ nack ∈ pushedNacks events,
        nack ∈ s.receivedNacks ∨ ∃ block ∈ s.producedBlocks, nack ∈ block.drained.nacks := by
  intro ack events
  have hstop : ∀ event ∈ events, event ≠ .finish true := by
    simp [events]
  exact ⟨hstop, _, rfl, rfl, productionRun_keeps_envelopes events hstop rfl rfl⟩

end AckiNacki.Producer
