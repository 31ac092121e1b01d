import AckiNacki.BlockState

/-!
The walk of `AttestationsTargetService::evaluate_attestations`
(`node/services/attestations_target/service.rs`) over a chain of block states, ancestor first.
The loop pops a block, peeks `descendant_generations - 1` blocks further for its checkpoint, and
asks `evaluate_block_attestations` whether the checkpoint holds enough verified attestations for
it, or names it the winner of a fork while itself having met its target.

A chain element is the block state as the walk reads it. The callbacks get the popped block and
thread the state they captured, as the `FnMut` closures of the source do. The walk never reads a
block again once it has popped it, so in a chain of distinct blocks it does not see what the
callbacks write.
-/

namespace AckiNacki.AttestationsTargetService

inductive AttestationsSuccess
  | initialAttestationsTargetMet
  | secondaryAttestationsTargetMet
  deriving DecidableEq

inductive AttestationsFailure
  | chainIsTooShort
  | initialAttestationsTargetIsNotMetResolvesFork
  | notAllInitialAttestationTargetsSet
  | threadIdentifierIsNotSet
  | attestationsAreNotVerifiedYet
  | forkResolutionsAreNotSet
  | failedToSaveBlockState
  | invalidBlockTailDoesNotMeetCriteria
  deriving DecidableEq

structure TargetBlock where
  threadIdentifier : Option ThreadIdentifier
  forkResolutions : Option (List ForkResolution)
  attestationsFor : BlockIdentifier → Option (Finset SignerIndex)
  hasAttestationsTargetMet : Bool

def blockTarget (block : BlockState) : TargetBlock where
  threadIdentifier := block.threadIdentifier
  forkResolutions := block.resolvesForks
  attestationsFor := block.verifiedAttestations
  hasAttestationsTargetMet := block.hasAttestationsTargetMet

/-- `impl TargetBlock` for the phantom tuple: the block about to be produced. Its attestations
for a block it does not mention are the empty set, and it has met no target. -/
def phantomTarget (threadIdentifier : ThreadIdentifier)
    (attestations : BlockIdentifier → Option (Finset SignerIndex))
    (forkResolutions : List ForkResolution) : TargetBlock where
  threadIdentifier := some threadIdentifier
  forkResolutions := some forkResolutions
  attestationsFor blockId := some ((attestations blockId).getD ∅)
  hasAttestationsTargetMet := false

inductive Target
  | phantom (threadIdentifier : ThreadIdentifier)
      (attestations : BlockIdentifier → Option (Finset SignerIndex))
      (forkResolutions : List ForkResolution)
  | candidate (block : BlockState)

def Target.targetBlock : Target → TargetBlock
  | .phantom threadIdentifier attestations forkResolutions =>
      phantomTarget threadIdentifier attestations forkResolutions
  | .candidate block => blockTarget block

/-- `AsChain::peek` into what is left of the chain: the `VecDeque` alone (`target = none`), or
the pair `(VecDeque, Target)`, whose target stands right after the last block. -/
def peek (blocks : List BlockState) (target : Option Target) (nthChild : Nat) :
    Option TargetBlock :=
  match target with
  | none => blocks[nthChild]?.map blockTarget
  | some target =>
      if nthChild = blocks.length then some target.targetBlock
      else blocks[nthChild]?.map fun block => (Target.candidate block).targetBlock

def evaluateBlockAttestations (blockId : BlockIdentifier) (initialTarget : TargetBlock)
    (minAttestationsCountRequired : Nat) : Except AttestationsFailure AttestationsSuccess :=
  match initialTarget.forkResolutions with
  | none => .error .forkResolutionsAreNotSet
  | some forkResolutions =>
      match initialTarget.attestationsFor blockId with
      | none => .error .attestationsAreNotVerifiedYet
      | some blockAttestationsSigners =>
          if minAttestationsCountRequired ≤ blockAttestationsSigners.card then
            .ok .initialAttestationsTargetMet
          else if forkResolutions.any (fun e => e.winner = blockId) then
            if initialTarget.hasAttestationsTargetMet then .ok .secondaryAttestationsTargetMet
            else .error .initialAttestationsTargetIsNotMetResolvesFork
          else .error .invalidBlockTailDoesNotMeetCriteria

inductive LoopStep
  | next
  | fail (failure : AttestationsFailure)
  | initialMet
  | secondaryMet
  deriving DecidableEq

/-- The `match` on `evaluate_block_attestations`: a success calls its callback, an invalid block
ends the walk, and every other failure is deferred with `continue`. -/
def onEvaluation : Except AttestationsFailure AttestationsSuccess → LoopStep
  | .ok .initialAttestationsTargetMet => .initialMet
  | .ok .secondaryAttestationsTargetMet => .secondaryMet
  | .error .invalidBlockTailDoesNotMeetCriteria => .fail .invalidBlockTailDoesNotMeetCriteria
  | .error _ => .next

/-- `chain.peek(descendants_chain_length_required - 1)`. On `usize` the subtraction wraps `0` to
`usize::MAX`, an index past the end of every chain, where the peek finds nothing. -/
def peekCheckpoint (peekAt : Nat → Option TargetBlock) : Nat → Option TargetBlock
  | 0 => none
  | generations + 1 => peekAt generations

/-- The body of the loop of `evaluate_attestations` for the popped `block`; `peekAt` peeks into
what is left of the chain. -/
def loopBody (block : BlockState) (peekAt : Nat → Option TargetBlock) : LoopStep :=
  if block.hasAttestationsTargetMet then .next
  else
    match block.threadIdentifier, block.initialAttestationsTarget with
    | none, _ => .fail .threadIdentifierIsNotSet
    | some _, none => .fail .notAllInitialAttestationTargetsSet
    | some threadIdentifier, some target =>
        match peekCheckpoint peekAt target.descendantGenerations with
        | none => .next
        | some checkpoint =>
            match checkpoint.threadIdentifier with
            | none => .fail .threadIdentifierIsNotSet
            | some checkpointThreadIdentifier =>
                if checkpointThreadIdentifier ≠ threadIdentifier then .next
                else onEvaluation
                  (evaluateBlockAttestations block.blockIdentifier checkpoint target.count)

/-- What a checkpoint shows when `evaluate_block_attestations` has read all it needs: its fork
resolutions and its verified attestations for the block are set. -/
def Evaluated (checkpoint : TargetBlock) (blockId : BlockIdentifier)
    (forkResolutions : List ForkResolution) (signers : Finset SignerIndex) : Prop :=
  checkpoint.forkResolutions = some forkResolutions ∧
    checkpoint.attestationsFor blockId = some signers

theorem evaluateBlockAttestations_cases (blockId : BlockIdentifier) (checkpoint : TargetBlock)
    (n : Nat) :
    let result := evaluateBlockAttestations blockId checkpoint n
    result = .error .forkResolutionsAreNotSet ∨ result = .error .attestationsAreNotVerifiedYet ∨
    ∃ forkResolutions signers, Evaluated checkpoint blockId forkResolutions signers ∧
      (n ≤ signers.card ∧ result = .ok .initialAttestationsTargetMet ∨
       signers.card < n ∧ (∃ r ∈ forkResolutions, r.winner = blockId) ∧
         (checkpoint.hasAttestationsTargetMet = true ∧
            result = .ok .secondaryAttestationsTargetMet ∨
          result = .error .initialAttestationsTargetIsNotMetResolvesFork) ∨
       signers.card < n ∧ (∀ r ∈ forkResolutions, r.winner ≠ blockId) ∧
         result = .error .invalidBlockTailDoesNotMeetCriteria) := by
  unfold evaluateBlockAttestations
  split
  · simp
  · rename_i forkResolutions hforks
    split
    · simp
    · rename_i signers hsigners
      refine .inr (.inr ⟨forkResolutions, signers, ⟨hforks, hsigners⟩, ?_⟩)
      split_ifs with hcount hwinner hmet
      · exact .inl ⟨hcount, rfl⟩
      · simp only [List.any_eq_true, decide_eq_true_eq] at hwinner
        exact .inr (.inl ⟨by omega, hwinner, .inl ⟨hmet, rfl⟩⟩)
      · simp only [List.any_eq_true, decide_eq_true_eq] at hwinner
        exact .inr (.inl ⟨by omega, hwinner, .inr rfl⟩)
      · simp only [List.any_eq_true, decide_eq_true_eq, not_exists, not_and] at hwinner
        exact .inr (.inr ⟨by omega, hwinner, rfl⟩)

theorem onEvaluation_initialMet {blockId : BlockIdentifier} {checkpoint : TargetBlock} {n : Nat}
    (h : onEvaluation (evaluateBlockAttestations blockId checkpoint n) = .initialMet) :
    ∃ forkResolutions signers, Evaluated checkpoint blockId forkResolutions signers ∧
      n ≤ signers.card := by
  rcases evaluateBlockAttestations_cases blockId checkpoint n with
    hr | hr |
      ⟨forks, signers, hev, ⟨hn, hr⟩ | ⟨hn, -, ⟨-, hr⟩ | hr⟩ | ⟨hn, -, hr⟩⟩ <;>
    simp [hr, onEvaluation] at h
  exact ⟨forks, signers, hev, hn⟩

theorem onEvaluation_secondaryMet {blockId : BlockIdentifier} {checkpoint : TargetBlock} {n : Nat}
    (h : onEvaluation (evaluateBlockAttestations blockId checkpoint n) = .secondaryMet) :
    ∃ forkResolutions signers, Evaluated checkpoint blockId forkResolutions signers ∧
      signers.card < n ∧ (∃ r ∈ forkResolutions, r.winner = blockId) ∧
      checkpoint.hasAttestationsTargetMet = true := by
  rcases evaluateBlockAttestations_cases blockId checkpoint n with
    hr | hr |
      ⟨forks, signers, hev, ⟨hn, hr⟩ | ⟨hn, hw, ⟨hmet, hr⟩ | hr⟩ | ⟨hn, -, hr⟩⟩ <;>
    simp [hr, onEvaluation] at h
  exact ⟨forks, signers, hev, hn, hw, hmet⟩

theorem onEvaluation_invalid {blockId : BlockIdentifier} {checkpoint : TargetBlock} {n : Nat}
    (h : onEvaluation (evaluateBlockAttestations blockId checkpoint n) =
      .fail .invalidBlockTailDoesNotMeetCriteria) :
    ∃ forkResolutions signers, Evaluated checkpoint blockId forkResolutions signers ∧
      signers.card < n ∧ ∀ r ∈ forkResolutions, r.winner ≠ blockId := by
  rcases evaluateBlockAttestations_cases blockId checkpoint n with
    hr | hr |
      ⟨forks, signers, hev, ⟨hn, hr⟩ | ⟨hn, -, ⟨-, hr⟩ | hr⟩ | ⟨hn, hw, hr⟩⟩ <;>
    simp [hr, onEvaluation] at h
  exact ⟨forks, signers, hev, hn, hw⟩

def CheckpointFound (block : BlockState) (peekAt : Nat → Option TargetBlock)
    (target : AttestationsTarget) (checkpoint : TargetBlock) : Prop :=
  block.hasAttestationsTargetMet = false ∧ block.initialAttestationsTarget = some target ∧
    peekCheckpoint peekAt target.descendantGenerations = some checkpoint ∧
    block.threadIdentifier.isSome ∧ checkpoint.threadIdentifier = block.threadIdentifier

/-- Every pass of the loop body either ends before any checkpoint is evaluated, with `continue`
or one of two failures, or reacts to `evaluate_block_attestations` on a same-thread checkpoint. -/
theorem loopBody_cases (block : BlockState) (peekAt : Nat → Option TargetBlock) :
    (loopBody block peekAt = .next ∨
      loopBody block peekAt = .fail .threadIdentifierIsNotSet ∨
      loopBody block peekAt = .fail .notAllInitialAttestationTargetsSet) ∨
    ∃ target checkpoint, CheckpointFound block peekAt target checkpoint ∧
      loopBody block peekAt =
        onEvaluation (evaluateBlockAttestations block.blockIdentifier checkpoint target.count) := by
  unfold loopBody
  split
  · simp
  · rename_i hmet
    split
    · simp
    · simp
    · rename_i thread target hthread htarget
      split
      · simp
      · rename_i checkpoint hpeek
        split
        · simp
        · rename_i cpThread hcp
          split
          · simp
          · rename_i hsame
            right
            refine ⟨target, checkpoint,
              ⟨by simpa using hmet, htarget, hpeek, by simp [hthread], ?_⟩, rfl⟩
            simp only [ne_eq, not_not] at hsame
            rw [hcp, hthread, hsame]

/-- A callback of the walk: it gets the popped block and the state it captured, and may fail.
The two callers of `evaluate_attestations` pass closures that fail, if at all, with
`FailedToSaveBlockState`. -/
structure Callback (σ : Type) where
  call : BlockState → σ → Except AttestationsFailure Unit × σ
  fails_only_to_save : ∀ block s,
    (call block s).1 = .ok () ∨ (call block s).1 = .error .failedToSaveBlockState

variable {σ : Type}

def andContinue :
    Except AttestationsFailure Unit × σ → (σ → Except AttestationsFailure Unit × σ) →
    Except AttestationsFailure Unit × σ
  | (.ok (), s), walkRest => walkRest s
  | (.error failure, s), _ => (.error failure, s)

/-- `evaluate_attestations` over the chain `blocks`, followed by `target` when the chain is the
pair `(VecDeque, Target)`. -/
def evaluateAttestations (onInitialAttestationsTargetMet onSecondaryAttestationsTargetMet :
    Callback σ) (target : Option Target) :
    List BlockState → σ → Except AttestationsFailure Unit × σ
  | [], s => (.ok (), s)
  | block :: rest, s =>
      let walkRest := evaluateAttestations onInitialAttestationsTargetMet
        onSecondaryAttestationsTargetMet target rest
      match loopBody block (peek rest target) with
      | .next => walkRest s
      | .fail failure => (.error failure, s)
      | .initialMet => andContinue (onInitialAttestationsTargetMet.call block s) walkRest
      | .secondaryMet => andContinue (onSecondaryAttestationsTargetMet.call block s) walkRest

end AckiNacki.AttestationsTargetService
