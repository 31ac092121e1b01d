import AckiNacki.Types

/-!
The block state that the attestation service reads and writes. `BlockState` is defined in
`node/block_state/state.rs`, which is not among the sources: its fields here are those of the
data model of the spec that the modelled functions use. The producer, the block keeper sets and
the statistics are left out.
-/

namespace AckiNacki

/-- `AttestationsTarget`: the checkpoint of a block is its descendant `descendantGenerations`
generations below, and it has to carry `count` verified attestations for the block. -/
structure AttestationsTarget where
  descendantGenerations : Nat
  count : Nat
  deriving DecidableEq

/-- Modelled from the spec: the fields of `BlockState` that the attestation service reads or
writes. `verifiedAttestations id` is `verified_attestations_for(id)`, the signers of the
attestations for block `id` that this block carries, once they are verified. -/
structure BlockState where
  blockIdentifier : BlockIdentifier
  parentBlockIdentifier : Option BlockIdentifier
  blockSeqNo : Option BlockSeqNo
  threadIdentifier : Option ThreadIdentifier
  initialAttestationsTarget : Option AttestationsTarget
  verifiedAttestations : BlockIdentifier → Option (Finset SignerIndex)
  resolvesForks : Option (List ForkResolution)
  hasInitialAttestationsTargetMet : Bool
  hasAttestationsTargetMetInAResolvedForkCase : Bool
  isFinalized : Bool
  isInvalidated : Bool

namespace BlockState

/-- Modelled from the spec: the state the repository creates when it first sees a block
identifier, with every field unset. -/
def new (blockIdentifier : BlockIdentifier) : BlockState where
  blockIdentifier := blockIdentifier
  parentBlockIdentifier := none
  blockSeqNo := none
  threadIdentifier := none
  initialAttestationsTarget := none
  verifiedAttestations _ := none
  resolvesForks := none
  hasInitialAttestationsTargetMet := false
  hasAttestationsTargetMetInAResolvedForkCase := false
  isFinalized := false
  isInvalidated := false

/-- Modelled from the spec: `has_attestations_target_met` holds once either of the two flags
has been set. -/
def hasAttestationsTargetMet (state : BlockState) : Bool :=
  state.hasInitialAttestationsTargetMet || state.hasAttestationsTargetMetInAResolvedForkCase

/-- Modelled from the spec: the `set_*` writers assign a flag once and never reset it. -/
def setHasInitialAttestationsTargetMet (state : BlockState) : BlockState :=
  { state with hasInitialAttestationsTargetMet := true }

def setHasAttestationsTargetMetInAResolvedForkCase (state : BlockState) : BlockState :=
  { state with hasAttestationsTargetMetInAResolvedForkCase := true }

def setInvalidated (state : BlockState) : BlockState :=
  { state with isInvalidated := true }

end BlockState

end AckiNacki
