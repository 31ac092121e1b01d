import AckiNacki.AttestationsTarget.Walk

/-!
What a run of `evaluate_attestations` over a plain chain may do. A callback is called for a
block only when the block's checkpoint, exactly `descendant_generations` positions further in
the chain and of the block's thread, decides it so, and the walk stops on an invalid block only
because of such a checkpoint. The calls of a run are observed by recording them beside the state
that the callbacks capture.
-/

namespace AckiNacki.AttestationsTargetService

/-- In `chain`, `block` stands at some position `i`, has not met its attestations target, its
initial target is `target` with at least one generation, and `checkpoint` is the block exactly
`target.descendantGenerations` positions after it, of the block's own thread. -/
def SameThreadCheckpoint (chain : List BlockState) (block : BlockState)
    (target : AttestationsTarget) (checkpoint : BlockState) : Prop :=
  ∃ i, chain[i]? = some block ∧ block.hasAttestationsTargetMet = false ∧
    block.initialAttestationsTarget = some target ∧ 0 < target.descendantGenerations ∧
    chain[i + target.descendantGenerations]? = some checkpoint ∧
    block.threadIdentifier.isSome ∧ checkpoint.threadIdentifier = block.threadIdentifier

theorem SameThreadCheckpoint.cons {chain : List BlockState} {block : BlockState}
    {target : AttestationsTarget} {checkpoint : BlockState} (first : BlockState)
    (h : SameThreadCheckpoint chain block target checkpoint) :
    SameThreadCheckpoint (first :: chain) block target checkpoint := by
  obtain ⟨i, hblock, hmet, htarget, hgen, hcheckpoint, hthread⟩ := h
  refine ⟨i + 1, by simpa using hblock, hmet, htarget, hgen, ?_, hthread⟩
  rwa [Nat.add_right_comm, List.getElem?_cons_succ]

/-- The checkpoint holds at least `count` verified attestations for the block. -/
def InitialTargetMetIn (chain : List BlockState) (block : BlockState) : Prop :=
  ∃ target checkpoint signers, SameThreadCheckpoint chain block target checkpoint ∧
    checkpoint.verifiedAttestations block.blockIdentifier = some signers ∧
    target.count ≤ signers.card

/-- The checkpoint holds fewer, names the block the winner of a fork, and has itself
met its target. -/
def SecondaryTargetMetIn (chain : List BlockState) (block : BlockState) : Prop :=
  ∃ target checkpoint signers forkResolutions,
    SameThreadCheckpoint chain block target checkpoint ∧
    checkpoint.verifiedAttestations block.blockIdentifier = some signers ∧
    signers.card < target.count ∧ checkpoint.resolvesForks = some forkResolutions ∧
    (∃ r ∈ forkResolutions, r.winner = block.blockIdentifier) ∧
    checkpoint.hasAttestationsTargetMet = true

/-- Some block of the chain has a checkpoint with too few verified attestations for
it and fork resolutions, set, that name no winner it. -/
def TailFailsIn (chain : List BlockState) : Prop :=
  ∃ block target checkpoint signers forkResolutions,
    SameThreadCheckpoint chain block target checkpoint ∧
    checkpoint.resolvesForks = some forkResolutions ∧
    (∀ r ∈ forkResolutions, r.winner ≠ block.blockIdentifier) ∧
    checkpoint.verifiedAttestations block.blockIdentifier = some signers ∧
    signers.card < target.count

theorem peekCheckpoint_plain {rest : List BlockState} {generations : Nat}
    {checkpoint : TargetBlock} (h : peekCheckpoint (peek rest none) generations = some checkpoint) :
    ∃ block, 0 < generations ∧ rest[generations - 1]? = some block ∧
      checkpoint = blockTarget block := by
  cases generations with
  | zero => cases h
  | succ generations =>
      simp only [peekCheckpoint, peek, Option.map_eq_some'] at h
      obtain ⟨block, hblock, rfl⟩ := h
      exact ⟨block, Nat.succ_pos generations, hblock, rfl⟩

theorem checkpointFound_plain {block : BlockState} {rest : List BlockState}
    {target : AttestationsTarget} {checkpoint : TargetBlock}
    (h : CheckpointFound block (peek rest none) target checkpoint) :
    ∃ found, SameThreadCheckpoint (block :: rest) block target found ∧
      checkpoint = blockTarget found := by
  obtain ⟨hmet, htarget, hpeek, hthread, hcheckpoint⟩ := h
  obtain ⟨found, hgen, hfound, rfl⟩ := peekCheckpoint_plain hpeek
  refine ⟨found, ⟨0, by simp, hmet, htarget, hgen, ?_, hthread, hcheckpoint⟩, rfl⟩
  obtain ⟨generations, hsucc⟩ := Nat.exists_eq_succ_of_ne_zero hgen.ne'
  simpa [hsucc] using hfound

theorem loopBody_initialMet {block : BlockState} {rest : List BlockState}
    (h : loopBody block (peek rest none) = .initialMet) :
    InitialTargetMetIn (block :: rest) block := by
  rcases loopBody_cases block (peek rest none) with
    (hb | hb | hb) | ⟨target, checkpoint, hfound, hb⟩
  all_goals rw [hb] at h
  all_goals try cases h
  obtain ⟨found, hsame, rfl⟩ := checkpointFound_plain hfound
  obtain ⟨-, signers, ⟨-, hsigners⟩, hcount⟩ := onEvaluation_initialMet h
  exact ⟨target, found, signers, hsame, hsigners, hcount⟩

theorem loopBody_secondaryMet {block : BlockState} {rest : List BlockState}
    (h : loopBody block (peek rest none) = .secondaryMet) :
    SecondaryTargetMetIn (block :: rest) block := by
  rcases loopBody_cases block (peek rest none) with
    (hb | hb | hb) | ⟨target, checkpoint, hfound, hb⟩
  all_goals rw [hb] at h
  all_goals try cases h
  obtain ⟨found, hsame, rfl⟩ := checkpointFound_plain hfound
  obtain ⟨forks, signers, ⟨hforks, hsigners⟩, hcount, hwinner, hmet⟩ :=
    onEvaluation_secondaryMet h
  exact ⟨target, found, signers, forks, hsame, hsigners, hcount, hforks, hwinner, hmet⟩

theorem loopBody_invalid {block : BlockState} {rest : List BlockState}
    (h : loopBody block (peek rest none) = .fail .invalidBlockTailDoesNotMeetCriteria) :
    TailFailsIn (block :: rest) := by
  rcases loopBody_cases block (peek rest none) with
    (hb | hb | hb) | ⟨target, checkpoint, hfound, hb⟩
  all_goals rw [hb] at h
  all_goals try cases h
  obtain ⟨found, hsame, rfl⟩ := checkpointFound_plain hfound
  obtain ⟨forks, signers, ⟨hforks, hsigners⟩, hcount, hwinner⟩ := onEvaluation_invalid h
  exact ⟨block, target, found, signers, forks, hsame, hforks, hwinner, hsigners, hcount⟩


theorem InitialTargetMetIn.cons {chain : List BlockState} {block : BlockState} (first : BlockState)
    (h : InitialTargetMetIn chain block) : InitialTargetMetIn (first :: chain) block := by
  obtain ⟨target, checkpoint, signers, hsame, hrest⟩ := h
  exact ⟨target, checkpoint, signers, hsame.cons first, hrest⟩

theorem SecondaryTargetMetIn.cons {chain : List BlockState} {block : BlockState}
    (first : BlockState) (h : SecondaryTargetMetIn chain block) :
    SecondaryTargetMetIn (first :: chain) block := by
  obtain ⟨target, checkpoint, signers, forks, hsame, hrest⟩ := h
  exact ⟨target, checkpoint, signers, forks, hsame.cons first, hrest⟩

theorem TailFailsIn.cons {chain : List BlockState} (first : BlockState) (h : TailFailsIn chain) :
    TailFailsIn (first :: chain) := by
  obtain ⟨block, target, checkpoint, signers, forks, hsame, hrest⟩ := h
  exact ⟨block, target, checkpoint, signers, forks, hsame.cons first, hrest⟩

inductive Call
  | initial (block : BlockState)
  | secondary (block : BlockState)

variable {σ : Type}

/-- The callback, recording each of its calls in a log kept beside the state it captured, so
that statements can speak of the calls a run makes. A call is recorded even when it fails. -/
def Callback.recording (callback : Callback σ) (call : BlockState → Call) :
    Callback (σ × List Call) where
  call block state :=
    ((callback.call block state.1).1, ((callback.call block state.1).2, state.2 ++ [call block]))
  fails_only_to_save block state := callback.fails_only_to_save block state.1

def CallSound (chain : List BlockState) : Call → Prop
  | .initial block => InitialTargetMetIn chain block
  | .secondary block => SecondaryTargetMetIn chain block

theorem CallSound.cons {chain : List BlockState} (first : BlockState) :
    ∀ {call : Call}, CallSound chain call → CallSound (first :: chain) call
  | .initial _, h => InitialTargetMetIn.cons first h
  | .secondary _, h => SecondaryTargetMetIn.cons first h

theorem andContinue_recording {chain : List BlockState} (call : BlockState → Call)
    (callback : Callback σ) (block : BlockState) (s : σ) (log : List Call)
    (walkRest : σ × List Call → Except AttestationsFailure Unit × (σ × List Call))
    (hcall : CallSound chain (call block))
    (hrest : ∀ s' log', ∃ calls, (walkRest (s', log')).2.2 = log' ++ calls ∧
      ∀ c ∈ calls, CallSound chain c) :
    ∃ calls,
      (andContinue ((callback.recording call).call block (s, log)) walkRest).2.2 = log ++ calls ∧
      ∀ c ∈ calls, CallSound chain c := by
  rcases hcb : callback.call block s with ⟨_ | _, s'⟩
  · exact ⟨[call block], by simp [Callback.recording, andContinue, hcb], by simpa using hcall⟩
  · obtain ⟨calls, hlog, hsound⟩ := hrest s' (log ++ [call block])
    refine ⟨call block :: calls, by simpa [Callback.recording, andContinue, hcb] using hlog, ?_⟩
    simpa [hcall] using hsound

/-- Every call that a run over a plain chain makes is sound for that chain. -/
theorem evaluateAttestations_recorded_calls (onInitial onSecondary : Callback σ) :
    ∀ (chain : List BlockState) (s : σ) (log : List Call), ∃ calls,
      (evaluateAttestations (onInitial.recording .initial) (onSecondary.recording .secondary) none
        chain (s, log)).2.2 = log ++ calls ∧ ∀ c ∈ calls, CallSound chain c
  | [], _, _ => ⟨[], by simp [evaluateAttestations], by simp⟩
  | block :: rest, s, log => by
      have hrest (s' : σ) (log' : List Call) := evaluateAttestations_recorded_calls onInitial
        onSecondary rest s' log'
      simp only [evaluateAttestations]
      cases hstep : loopBody block (peek rest none) with
      | next =>
          obtain ⟨calls, hlog, hsound⟩ := hrest s log
          exact ⟨calls, hlog, fun c hc => (hsound c hc).cons block⟩
      | fail failure => exact ⟨[], by simp, by simp⟩
      | initialMet =>
          refine andContinue_recording .initial onInitial block s log _
            (loopBody_initialMet hstep) fun s' log' => ?_
          obtain ⟨calls, hlog, hsound⟩ := hrest s' log'
          exact ⟨calls, hlog, fun c hc => (hsound c hc).cons block⟩
      | secondaryMet =>
          refine andContinue_recording .secondary onSecondary block s log _
            (loopBody_secondaryMet hstep) fun s' log' => ?_
          obtain ⟨calls, hlog, hsound⟩ := hrest s' log'
          exact ⟨calls, hlog, fun c hc => (hsound c hc).cons block⟩

/-- A walk over a plain chain ends on an invalid block only because of a checkpoint of the
chain. -/
theorem evaluateAttestations_invalid (onInitial onSecondary : Callback σ) :
    ∀ (chain : List BlockState) (s : σ),
      (evaluateAttestations onInitial onSecondary none chain s).1 =
        .error .invalidBlockTailDoesNotMeetCriteria → TailFailsIn chain
  | [], _, h => by simp [evaluateAttestations] at h
  | block :: rest, s, h => by
      have hrest (s' : σ) (h' : (evaluateAttestations onInitial onSecondary none rest s').1 =
          .error .invalidBlockTailDoesNotMeetCriteria) : TailFailsIn (block :: rest) :=
        (evaluateAttestations_invalid onInitial onSecondary rest s' h').cons block
      simp only [evaluateAttestations] at h
      cases hstep : loopBody block (peek rest none) with
      | next => rw [hstep] at h; exact hrest s h
      | fail failure =>
          rw [hstep] at h
          cases h
          exact loopBody_invalid hstep
      | initialMet =>
          rw [hstep] at h
          rcases hcb : onInitial.call block s with ⟨_ | failure, s'⟩
          · have hsave := onInitial.fails_only_to_save block s
            simp_all [andContinue]
          · exact hrest s' (by simpa [hcb, andContinue] using h)
      | secondaryMet =>
          rw [hstep] at h
          rcases hcb : onSecondary.call block s with ⟨_ | failure, s'⟩
          · have hsave := onSecondary.fails_only_to_save block s
            simp_all [andContinue]
          · exact hrest s' (by simpa [hcb, andContinue] using h)

/-- The calls that a run of `evaluate_attestations` over a plain chain, ancestor first, makes of
`on_initial_attestations_target_met` and of `on_secondary_attestations_target_met` are each for
a block whose same-thread checkpoint decides it so, and the walk reports an invalid block only
because of a checkpoint of the chain. -/
theorem evaluateAttestations_decisions (chain : List BlockState)
    (onInitial onSecondary : Callback σ) (s : σ) :
    let run := evaluateAttestations (onInitial.recording .initial)
      (onSecondary.recording .secondary) none chain (s, [])
    (∀ block, .initial block ∈ run.2.2 → InitialTargetMetIn chain block) ∧
    (∀ block, .secondary block ∈ run.2.2 → SecondaryTargetMetIn chain block) ∧
    (run.1 = .error .invalidBlockTailDoesNotMeetCriteria → TailFailsIn chain) := by
  obtain ⟨calls, hlog, hsound⟩ :=
    evaluateAttestations_recorded_calls onInitial onSecondary chain s []
  simp only [List.nil_append] at hlog
  refine ⟨fun block h => ?_, fun block h => ?_, evaluateAttestations_invalid _ _ chain (s, [])⟩
  · exact hsound (.initial block) (hlog ▸ h)
  · exact hsound (.secondary block) (hlog ▸ h)

end AckiNacki.AttestationsTargetService
