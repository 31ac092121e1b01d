import AckiNacki.Types
import Mathlib.Data.Multiset.Bind
import Mathlib.Algebra.BigOperators.Group.Finset

/-!
Signed envelopes as the block producer folds them. `Envelope<GoshBLS, T>` and the BLS scheme live
in `bls/`, which is not among the sources; the spec gives an envelope as an aggregated
signature, a map from signer index to an occurrence count, and the signed data. A BLS signature
is modelled as the multiset of the (signer, signed data) pairs it aggregates, so that merging two
signatures adds the multisets.

`signature_occurrences` is a `HashMap<SignerIndex, u16>`. It is kept as its key set and a count
for every signer, `0` off the keys, which is what `get(..).unwrap_or(&0)` reads. A key may carry
the count `0`.
-/

namespace AckiNacki

/-- `HashMap<SignerIndex, u16>` of signature occurrences. -/
@[ext]
structure SignatureOccurrences where
  keys : Finset SignerIndex
  count : SignerIndex → Nat
  count_lt : ∀ signer, count signer < 2 ^ 16
  count_of_not_mem : ∀ signer ∉ keys, count signer = 0

namespace SignatureOccurrences

/-- The map with the given entries, the last entry of a signer winning as `HashMap::insert`
does. -/
def ofList (entries : List (SignerIndex × UInt16)) : SignatureOccurrences where
  keys := (entries.map Prod.fst).toFinset
  count signer := ((entries.reverse.lookup signer).map UInt16.toNat).getD 0
  count_lt signer := by
    dsimp only
    cases entries.reverse.lookup signer with
    | none => exact Nat.two_pow_pos 16
    | some value => exact value.val.isLt
  count_of_not_mem signer hsigner := by
    have hnone : entries.reverse.lookup signer = none := by
      simp only [List.lookup_eq_none_iff, List.mem_reverse, bne_iff_ne, ne_eq]
      rintro ⟨key, value⟩ hentry rfl
      exact hsigner (List.mem_toFinset.mpr (List.mem_map_of_mem Prod.fst hentry))
    simp [hnone]

def len (occurrences : SignatureOccurrences) : Nat := occurrences.keys.card

def signers (occurrences : SignatureOccurrences) : Finset SignerIndex :=
  occurrences.keys.filter fun signer => 0 < occurrences.count signer

/-- `u16` addition as a release build runs it: the sum wraps modulo `2^16`. -/
def wrappingAdd (a b : Nat) : Nat := (a + b) % 2 ^ 16

/-- The loop of the merge closure: for every incoming signer, insert the aggregated count plus the
incoming one. -/
def insertSums (aggregated incoming : SignatureOccurrences) : SignatureOccurrences where
  keys := aggregated.keys ∪ incoming.keys
  count signer := wrappingAdd (aggregated.count signer) (incoming.count signer)
  count_lt _ := Nat.mod_lt _ (Nat.two_pow_pos 16)
  count_of_not_mem signer hsigner := by
    simp only [Finset.mem_union, not_or] at hsigner
    simp [wrappingAdd, aggregated.count_of_not_mem signer hsigner.1,
      incoming.count_of_not_mem signer hsigner.2]

def retainPositive (occurrences : SignatureOccurrences) : SignatureOccurrences where
  keys := occurrences.signers
  count := occurrences.count
  count_lt := occurrences.count_lt
  count_of_not_mem signer hsigner := by
    by_cases hkey : signer ∈ occurrences.keys
    · simpa [signers, hkey] using hsigner
    · exact occurrences.count_of_not_mem signer hkey

@[simp] theorem retainPositive_keys (occurrences : SignatureOccurrences) :
    occurrences.retainPositive.keys = occurrences.signers := rfl

@[simp] theorem retainPositive_count (occurrences : SignatureOccurrences) :
    occurrences.retainPositive.count = occurrences.count := rfl

@[simp] theorem insertSums_keys (aggregated incoming : SignatureOccurrences) :
    (aggregated.insertSums incoming).keys = aggregated.keys ∪ incoming.keys := rfl

@[simp] theorem insertSums_count (aggregated incoming : SignatureOccurrences)
    (signer : SignerIndex) : (aggregated.insertSums incoming).count signer =
      wrappingAdd (aggregated.count signer) (incoming.count signer) := rfl

theorem count_ofList_le {entries : List (SignerIndex × UInt16)} {n : Nat}
    (h : ∀ entry ∈ entries, entry.2.toNat ≤ n) (signer : SignerIndex) :
    (ofList entries).count signer ≤ n := by
  simp only [ofList]
  cases hlookup : entries.reverse.lookup signer with
  | none => exact Nat.zero_le n
  | some value =>
      obtain ⟨before, after, hsplit, -⟩ := List.lookup_eq_some_iff.mp hlookup
      have hmem : (signer, value) ∈ entries.reverse := by simp [hsplit]
      exact h _ (List.mem_reverse.mp hmem)

theorem mem_signers {occurrences : SignatureOccurrences} {signer : SignerIndex} :
    signer ∈ occurrences.signers ↔ 0 < occurrences.count signer := by
  constructor
  · intro h
    exact (Finset.mem_filter.mp h).2
  · intro h
    refine Finset.mem_filter.mpr ⟨?_, h⟩
    by_contra hkey
    rw [occurrences.count_of_not_mem signer hkey] at h
    exact Nat.lt_irrefl 0 h

end SignatureOccurrences

/-- Modelled from the spec: `Envelope<GoshBLS, T>` with its aggregated signature, its signature
occurrences and its data. -/
structure Envelope (D : Type) where
  aggregatedSignature : Multiset (SignerIndex × D)
  signatureOccurrences : SignatureOccurrences
  data : D

/-- Modelled from the spec: `GoshBLS::merge` aggregates two signatures into one that signs what
both sign. -/
def goshBlsMerge {D : Type} (a b : Multiset (SignerIndex × D)) : Multiset (SignerIndex × D) :=
  a + b

/-- The signature that the occurrences promise: `count i` copies of `(i, data)` for every
signer `i`. -/
def SignatureOccurrences.expectedSignature {D : Type} (occurrences : SignatureOccurrences)
    (data : D) : Multiset (SignerIndex × D) :=
  occurrences.keys.val.bind fun signer =>
    Multiset.replicate (occurrences.count signer) (signer, data)

/-- An envelope whose signature aggregates exactly its own occurrences of its own data. -/
def Envelope.Valid {D : Type} (envelope : Envelope D) : Prop :=
  envelope.aggregatedSignature = envelope.signatureOccurrences.expectedSignature envelope.data

instance {D : Type} [DecidableEq D] (envelope : Envelope D) : Decidable envelope.Valid :=
  inferInstanceAs (Decidable (_ = _))

theorem SignatureOccurrences.count_expectedSignature {D : Type} [DecidableEq D]
    (occurrences : SignatureOccurrences) (data : D) (signer : SignerIndex) (d : D) :
    (occurrences.expectedSignature data).count (signer, d) =
      if d = data then occurrences.count signer else 0 := by
  classical
  simp only [expectedSignature, Multiset.count_bind, Multiset.count_replicate, Prod.mk.injEq]
  by_cases hd : d = data
  · subst hd
    by_cases hkey : signer ∈ occurrences.keys
    · simp [Finset.sum_ite_eq', hkey]
    · simp [hkey, occurrences.count_of_not_mem signer hkey]
  · simp [hd, Ne.symm hd]

/-- `AckData` (`node::associated_types`, not among the sources); `aggregate_acks` reads only
its `block_id`. -/
structure AckData where
  blockId : BlockIdentifier
  deriving DecidableEq

/-- `NackData` (`node::associated_types`, not among the sources): the `block_id` that
`aggregate_nacks` keys by, and what else the nack says, here a number for its reason. -/
structure NackData where
  blockId : BlockIdentifier
  reason : Nat
  deriving DecidableEq

end AckiNacki
