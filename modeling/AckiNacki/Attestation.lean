import AckiNacki.Envelope

/-!
The compacted form of an attestation envelope (`types/attestation/compacted_attestation.rs`): the
parent block id, the aggregated signature and the occurrences, without the block id and seq no
that its `CompactedMapKey` already holds. The occurrences are a `HashMap` in the envelope and a
`BTreeMap` in the compacted form; both are the map they hold, which `from_iter` carries over, and
two `BTreeMap`s are equal when they hold the same map.
-/

namespace AckiNacki

/-- `AttestationData` (`node::associated_types`, not among the sources), with the three fields
that the builder call in `compacted_attestation.rs` sets. -/
structure AttestationData where
  blockId : BlockIdentifier
  blockSeqNo : BlockSeqNo
  parentBlockId : BlockIdentifier

/-- `CompactedMapKey` (`compacted_map_key.rs`, not among the sources), with the two getters that
`compacted_attestation.rs` reads: the block that the attestations are for. -/
structure CompactedMapKey where
  blockIdentifier : BlockIdentifier
  blockSeqNo : BlockSeqNo

structure CompactedAttestation where
  parentBlockId : BlockIdentifier
  aggregatedSignature : Multiset (SignerIndex × AttestationData)
  signatureOccurrences : SignatureOccurrences

def CompactedAttestation.ofEnvelope (envelope : Envelope AttestationData) :
    CompactedAttestation where
  parentBlockId := envelope.data.parentBlockId
  aggregatedSignature := envelope.aggregatedSignature
  signatureOccurrences := envelope.signatureOccurrences

def CompactedAttestation.toEnvelope (compacted : CompactedAttestation) (key : CompactedMapKey) :
    Envelope AttestationData where
  aggregatedSignature := compacted.aggregatedSignature
  signatureOccurrences := compacted.signatureOccurrences
  data :=
    { blockId := key.blockIdentifier
      blockSeqNo := key.blockSeqNo
      parentBlockId := compacted.parentBlockId }

/-- Compacting undoes expanding with any key, and expanding with the key of the envelope's own
block undoes compacting. -/
theorem compactedAttestation_round_trips (compacted : CompactedAttestation) (key : CompactedMapKey)
    (envelope : Envelope AttestationData) :
    CompactedAttestation.ofEnvelope (compacted.toEnvelope key) = compacted ∧
      (envelope.data.blockId = key.blockIdentifier → envelope.data.blockSeqNo = key.blockSeqNo →
        (CompactedAttestation.ofEnvelope envelope).toEnvelope key = envelope) := by
  refine ⟨rfl, fun hblock hseqNo => ?_⟩
  rcases envelope with ⟨signature, occurrences, ⟨blockId, seqNo, parentBlockId⟩⟩
  dsimp only at hblock hseqNo
  subst hblock hseqNo
  rfl

/-- An envelope for block `1` at seq no `3`, expanded again with that block's key. -/
theorem compactedAttestation_round_trips_at_key :
    let key : CompactedMapKey := ⟨.ofByte 1, 3⟩
    let envelope : Envelope AttestationData := ⟨0, .ofList [], ⟨.ofByte 1, 3, .ofByte 0⟩⟩
    (envelope.data.blockId = key.blockIdentifier ∧ envelope.data.blockSeqNo = key.blockSeqNo) ∧
      (CompactedAttestation.ofEnvelope envelope).toEnvelope key = envelope :=
  ⟨⟨rfl, rfl⟩, (compactedAttestation_round_trips ⟨.ofByte 0, 0, .ofList []⟩ ⟨.ofByte 1, 3⟩
    ⟨0, .ofList [], ⟨.ofByte 1, 3, .ofByte 0⟩⟩).2 rfl rfl⟩

end AckiNacki
