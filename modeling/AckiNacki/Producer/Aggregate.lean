import AckiNacki.Envelope
import Mathlib.Algebra.Order.Ring.Nat

/-!
`aggregate_acks` and `aggregate_nacks` (`block/producer/process.rs`) fold the envelopes that the
transport left in the shared buffers into one envelope per block id. The two functions differ only
in the type of the signed data, so both are `aggregate` applied to the block id of their data.

For one block id the loop is a left fold over the envelopes that carry it: the first is inserted
as it is, and each later one is merged into the aggregate only when the pruned sum of the
occurrences has more signers than the aggregate had keys before the merge.
-/

namespace AckiNacki.Producer

variable {D : Type}

open SignatureOccurrences

/-- The `and_modify` closure: merge `incoming` into `aggregated` when the merge adds a signer. -/
def mergeEnvelope (aggregated incoming : Envelope D) : Envelope D :=
  let merged :=
    (aggregated.signatureOccurrences.insertSums incoming.signatureOccurrences).retainPositive
  if aggregated.signatureOccurrences.len < merged.len then
    { aggregatedSignature := goshBlsMerge aggregated.aggregatedSignature
        incoming.aggregatedSignature
      signatureOccurrences := merged
      data := aggregated.data }
  else aggregated

@[simp] theorem mergeEnvelope_data (aggregated incoming : Envelope D) :
    (mergeEnvelope aggregated incoming).data = aggregated.data := by
  unfold mergeEnvelope
  dsimp only
  split <;> rfl

/-- `HashMap<BlockIdentifier, Envelope>`, as its entries in the order of insertion. -/
abbrev EnvelopeMap (D : Type) := List (BlockIdentifier × Envelope D)

/-- `entry(block_id).and_modify(merge).or_insert(incoming.clone())`. -/
def upsert (blockId : BlockIdentifier) (incoming : Envelope D) : EnvelopeMap D → EnvelopeMap D
  | [] => [(blockId, incoming)]
  | (key, envelope) :: rest =>
      if key = blockId then (key, mergeEnvelope envelope incoming) :: rest
      else (key, envelope) :: upsert blockId incoming rest

def aggregatedEnvelopes (blockIdOf : D → BlockIdentifier) (received : List (Envelope D)) :
    EnvelopeMap D :=
  received.foldl
    (fun aggregated envelope => upsert (blockIdOf envelope.data) envelope aggregated) []

/-- `aggregated.values().cloned().collect()`. The source returns it inside `Ok`, and has no other
way to return. -/
def aggregate (blockIdOf : D → BlockIdentifier) (received : List (Envelope D)) :
    List (Envelope D) :=
  (aggregatedEnvelopes blockIdOf received).map Prod.snd

def aggregateAcks (receivedAcks : List (Envelope AckData)) : List (Envelope AckData) :=
  aggregate AckData.blockId receivedAcks

def aggregateNacks (receivedNacks : List (Envelope NackData)) : List (Envelope NackData) :=
  aggregate NackData.blockId receivedNacks

def carrying (blockIdOf : D → BlockIdentifier) (blockId : BlockIdentifier)
    (envelopes : List (Envelope D)) : List (Envelope D) :=
  envelopes.filter fun envelope => blockIdOf envelope.data = blockId

def mergeStep (entry : Option (Envelope D)) (incoming : Envelope D) : Option (Envelope D) :=
  some (match entry with
    | some aggregated => mergeEnvelope aggregated incoming
    | none => incoming)

private theorem lookup_cons_envelope {key k : BlockIdentifier} {envelope : Envelope D}
    {rest : EnvelopeMap D} :
    ((k, envelope) :: rest).lookup key = if key = k then some envelope else rest.lookup key := by
  by_cases h : key = k
  · subst h
    simp
  · simp [List.lookup_cons, beq_eq_false_iff_ne.mpr h, h]

theorem lookup_upsert (blockId key : BlockIdentifier) (incoming : Envelope D) :
    ∀ map : EnvelopeMap D, (upsert blockId incoming map).lookup key =
      if key = blockId then mergeStep (map.lookup key) incoming else map.lookup key
  | [] => by by_cases h : key = blockId <;> simp [upsert, mergeStep, lookup_cons_envelope, h]
  | (k, envelope) :: rest => by
      by_cases hk : k = blockId
      · subst hk
        by_cases h : key = k <;> simp [upsert, mergeStep, lookup_cons_envelope, h]
      · simp only [upsert, hk, if_false, lookup_cons_envelope,
          lookup_upsert blockId key incoming rest]
        by_cases hkey : key = k <;> simp [hkey, hk]

/-- For one block id the loop is a left fold of `mergeStep` over the envelopes carrying it. -/
theorem lookup_foldl_upsert (blockIdOf : D → BlockIdentifier) (key : BlockIdentifier) :
    ∀ (received : List (Envelope D)) (map : EnvelopeMap D),
      (received.foldl (fun aggregated envelope =>
          upsert (blockIdOf envelope.data) envelope aggregated) map).lookup key =
        (carrying blockIdOf key received).foldl mergeStep (map.lookup key)
  | [], _ => rfl
  | envelope :: rest, map => by
      rw [List.foldl_cons, lookup_foldl_upsert blockIdOf key rest, lookup_upsert]
      by_cases h : key = blockIdOf envelope.data
      · simp [carrying, h]
      · simp [carrying, h, Ne.symm h]

/-! ### The map holds one envelope per block id -/

def KeyedBy (blockIdOf : D → BlockIdentifier) (map : EnvelopeMap D) : Prop :=
  (map.map Prod.fst).Nodup ∧ ∀ entry ∈ map, blockIdOf entry.2.data = entry.1

theorem mem_keys_upsert (blockId key : BlockIdentifier) (incoming : Envelope D) :
    ∀ map : EnvelopeMap D, key ∈ (upsert blockId incoming map).map Prod.fst ↔
      key = blockId ∨ key ∈ map.map Prod.fst
  | [] => by simp [upsert]
  | (k, envelope) :: rest => by
      have ih := mem_keys_upsert blockId key incoming rest
      by_cases hk : k = blockId
      · subst hk
        simp only [upsert, if_true, List.map_cons, List.mem_cons, or_self_left]
      · simp only [upsert, hk, if_false, List.map_cons, List.mem_cons, ih]
        exact or_left_comm

theorem keyedBy_upsert {blockIdOf : D → BlockIdentifier} (incoming : Envelope D) :
    ∀ {map : EnvelopeMap D}, KeyedBy blockIdOf map →
      KeyedBy blockIdOf (upsert (blockIdOf incoming.data) incoming map)
  | [], _ => by simp [KeyedBy, upsert]
  | (k, envelope) :: rest, ⟨hnodup, hkeyed⟩ => by
      have hhead : blockIdOf envelope.data = k := hkeyed _ (List.mem_cons_self _ _)
      have hrest : KeyedBy blockIdOf rest :=
        ⟨(List.nodup_cons.mp hnodup).2, fun entry h => hkeyed entry (List.mem_cons_of_mem _ h)⟩
      by_cases hk : k = blockIdOf incoming.data
      · refine ⟨by simpa only [upsert, if_pos hk, List.map_cons] using hnodup, ?_⟩
        simp only [upsert, hk, if_true, List.mem_cons, forall_eq_or_imp, mergeEnvelope_data]
        exact ⟨hhead.trans hk, hrest.2⟩
      · have ih := keyedBy_upsert incoming hrest
        simp only [upsert, hk, if_false]
        refine ⟨List.nodup_cons.mpr ⟨?_, ih.1⟩, ?_⟩
        · rw [mem_keys_upsert]
          exact fun h => h.elim hk (List.nodup_cons.mp hnodup).1
        · exact List.forall_mem_cons.mpr ⟨hhead, ih.2⟩

theorem keyedBy_foldl_upsert (blockIdOf : D → BlockIdentifier) :
    ∀ (received : List (Envelope D)) {map : EnvelopeMap D}, KeyedBy blockIdOf map →
      KeyedBy blockIdOf (received.foldl (fun aggregated envelope =>
        upsert (blockIdOf envelope.data) envelope aggregated) map)
  | [], _, h => h
  | envelope :: rest, _, h => keyedBy_foldl_upsert blockIdOf rest (keyedBy_upsert envelope h)

theorem filter_values_of_keyedBy {blockIdOf : D → BlockIdentifier} (blockId : BlockIdentifier) :
    ∀ {map : EnvelopeMap D}, KeyedBy blockIdOf map →
      (map.map Prod.snd).filter (fun envelope => blockIdOf envelope.data = blockId) =
        (map.lookup blockId).toList
  | [], _ => rfl
  | (k, envelope) :: rest, ⟨hnodup, hkeyed⟩ => by
      have hhead : blockIdOf envelope.data = k := hkeyed _ (List.mem_cons_self _ _)
      have hrest : KeyedBy blockIdOf rest :=
        ⟨(List.nodup_cons.mp hnodup).2, fun entry h => hkeyed entry (List.mem_cons_of_mem _ h)⟩
      have ih := filter_values_of_keyedBy blockId hrest
      by_cases hk : k = blockId
      · subst hk
        have hnone : rest.lookup k = none := by
          simp only [List.lookup_eq_none_iff, bne_iff_ne, ne_eq]
          rintro ⟨key, value⟩ hentry rfl
          exact (List.nodup_cons.mp hnodup).1 (List.mem_map.mpr ⟨_, hentry, rfl⟩)
        simp [hhead, lookup_cons_envelope, ih, hnone]
      · simp [hhead, hk, lookup_cons_envelope, Ne.symm hk, ih]

/-- The envelopes that `aggregate` returns for `blockId`: the fold of `mergeStep` over the
received envelopes that carry it. -/
theorem filter_aggregate (blockIdOf : D → BlockIdentifier) (blockId : BlockIdentifier)
    (received : List (Envelope D)) :
    (aggregate blockIdOf received).filter (fun envelope => blockIdOf envelope.data = blockId) =
      ((carrying blockIdOf blockId received).foldl mergeStep none).toList := by
  have hkeyed := @keyedBy_foldl_upsert _ blockIdOf received [] ⟨List.nodup_nil, by simp⟩
  rw [aggregate, aggregatedEnvelopes, filter_values_of_keyedBy blockId hkeyed,
    lookup_foldl_upsert]
  rfl

/-! ### What the fold keeps for one block id -/

def Positive (envelope : Envelope D) : Prop :=
  ∀ signer ∈ envelope.signatureOccurrences.keys, 0 < envelope.signatureOccurrences.count signer

instance (envelope : Envelope D) : Decidable (Positive envelope) :=
  inferInstanceAs (Decidable (∀ signer ∈ _, _))

def countSum (envelopes : List (Envelope D)) (signer : SignerIndex) : Nat :=
  (envelopes.map fun envelope => envelope.signatureOccurrences.count signer).sum

@[simp] theorem countSum_append (envelopes envelopes' : List (Envelope D))
    (signer : SignerIndex) :
    countSum (envelopes ++ envelopes') signer =
      countSum envelopes signer + countSum envelopes' signer := by
  simp [countSum]

@[simp] theorem countSum_cons (envelope : Envelope D) (envelopes : List (Envelope D))
    (signer : SignerIndex) : countSum (envelope :: envelopes) signer =
      envelope.signatureOccurrences.count signer + countSum envelopes signer := by
  simp [countSum]

@[simp] theorem countSum_nil (signer : SignerIndex) :
    countSum ([] : List (Envelope D)) signer = 0 :=
  rfl

/-- The aggregate of the envelopes `merged` carrying one block id, as the fold keeps it while no
envelope carries a zero count and no sum wraps: its keys are the signers of `merged`, each with a
positive count that their summed counts bound. -/
structure Aggregates (merged : List (Envelope D)) (aggregated : Envelope D) : Prop where
  mem_keys : ∀ signer, signer ∈ aggregated.signatureOccurrences.keys ↔
    ∃ envelope ∈ merged, signer ∈ envelope.signatureOccurrences.keys
  positive : Positive aggregated
  count_le : ∀ signer, aggregated.signatureOccurrences.count signer ≤ countSum merged signer

theorem aggregates_singleton {envelope : Envelope D} (h : Positive envelope) :
    Aggregates [envelope] envelope :=
  ⟨fun _ => by simp only [List.mem_singleton, exists_eq_left], h, fun _ => Nat.le_refl _⟩

/-- One merge keeps the invariant: when the incoming signers are all known the size comparison
keeps the aggregate, and otherwise the merge takes the union with the summed counts. -/
theorem Aggregates.merge {merged : List (Envelope D)} {aggregated incoming : Envelope D}
    (h : Aggregates merged aggregated) (hincoming : Positive incoming)
    (hbound : ∀ signer, countSum (merged ++ [incoming]) signer < 2 ^ 16) :
    Aggregates (merged ++ [incoming]) (mergeEnvelope aggregated incoming) := by
  have hsum : ∀ signer, wrappingAdd (aggregated.signatureOccurrences.count signer)
      (incoming.signatureOccurrences.count signer) = aggregated.signatureOccurrences.count signer +
        incoming.signatureOccurrences.count signer := by
    intro signer
    have hle := h.count_le signer
    have hlt := hbound signer
    simp only [countSum_append, countSum_cons, countSum_nil] at hlt
    exact Nat.mod_eq_of_lt (by omega)
  have hkeys : (aggregated.signatureOccurrences.insertSums incoming.signatureOccurrences).signers =
      aggregated.signatureOccurrences.keys ∪ incoming.signatureOccurrences.keys := by
    ext signer
    simp only [mem_signers, insertSums_count, hsum, Finset.mem_union]
    constructor
    · intro hpos
      by_contra hnot
      simp only [not_or] at hnot
      rw [aggregated.signatureOccurrences.count_of_not_mem signer hnot.1,
        incoming.signatureOccurrences.count_of_not_mem signer hnot.2] at hpos
      exact Nat.lt_irrefl 0 hpos
    · rintro (hkey | hkey)
      · exact Nat.add_pos_left (h.positive signer hkey) _
      · exact Nat.add_pos_right _ (hincoming signer hkey)
  have hmem : ∀ signer, (∃ envelope ∈ merged ++ [incoming],
      signer ∈ envelope.signatureOccurrences.keys) ↔
        signer ∈ aggregated.signatureOccurrences.keys ∪ incoming.signatureOccurrences.keys := by
    intro signer
    simp only [List.mem_append, List.mem_singleton, or_and_right, exists_or, exists_eq_left,
      Finset.mem_union, h.mem_keys]
  unfold mergeEnvelope
  dsimp only
  split
  · case isTrue =>
    refine ⟨fun signer => by rw [hmem]; exact Finset.ext_iff.mp hkeys signer,
      fun signer hsigner => (@mem_signers (aggregated.signatureOccurrences.insertSums
        incoming.signatureOccurrences) signer).mp hsigner, fun signer => ?_⟩
    rw [countSum_append, countSum_cons, countSum_nil, Nat.add_zero]
    exact (hsum signer).trans_le (Nat.add_le_add_right (h.count_le signer) _)
  · case isFalse hlen =>
    have hsame : aggregated.signatureOccurrences.keys ∪ incoming.signatureOccurrences.keys =
        aggregated.signatureOccurrences.keys :=
      (Finset.eq_of_subset_of_card_le Finset.subset_union_left
        (by rw [← hkeys]; exact Nat.le_of_not_lt hlen)).symm
    refine ⟨fun signer => by rw [hmem, hsame], h.positive, fun signer => ?_⟩
    rw [countSum_append]
    exact Nat.le_add_right_of_le (h.count_le signer)

theorem foldl_mergeStep_some (aggregated : Envelope D) :
    ∀ rest : List (Envelope D),
      rest.foldl mergeStep (some aggregated) = some (rest.foldl mergeEnvelope aggregated)
  | [] => rfl
  | incoming :: rest => foldl_mergeStep_some (mergeEnvelope aggregated incoming) rest

theorem aggregates_foldl :
    ∀ (rest merged : List (Envelope D)) (aggregated : Envelope D),
      Aggregates merged aggregated → (∀ envelope ∈ rest, Positive envelope) →
      (∀ signer, countSum (merged ++ rest) signer < 2 ^ 16) →
      Aggregates (merged ++ rest) (rest.foldl mergeEnvelope aggregated)
  | [], merged, aggregated, h, _, _ => by simpa using h
  | incoming :: rest, merged, aggregated, h, hpositive, hbound => by
      rw [List.append_cons] at hbound ⊢
      have hstep := h.merge (hpositive incoming (List.mem_cons_self _ _)) fun signer => by
        have := hbound signer
        rw [countSum_append] at this
        omega
      exact aggregates_foldl rest (merged ++ [incoming]) _ hstep
        (fun envelope h => hpositive envelope (List.mem_cons_of_mem _ h)) hbound

theorem Aggregates.mem_signers {merged : List (Envelope D)} {aggregated : Envelope D}
    (h : Aggregates merged aggregated) (hpositive : ∀ envelope ∈ merged, Positive envelope)
    (signer : SignerIndex) : signer ∈ aggregated.signatureOccurrences.signers ↔
      ∃ envelope ∈ merged, signer ∈ envelope.signatureOccurrences.signers := by
  have hsigners : ∀ envelope : Envelope D, Positive envelope →
      (signer ∈ envelope.signatureOccurrences.signers ↔
        signer ∈ envelope.signatureOccurrences.keys) := fun envelope hpos =>
    ⟨fun hs => (Finset.mem_filter.mp hs).1,
      fun hk => SignatureOccurrences.mem_signers.mpr (hpos _ hk)⟩
  rw [hsigners aggregated h.positive, h.mem_keys]
  exact exists_congr fun envelope =>
    ⟨fun ⟨hm, hk⟩ => ⟨hm, (hsigners envelope (hpositive envelope hm)).mpr hk⟩,
      fun ⟨hm, hs⟩ => ⟨hm, (hsigners envelope (hpositive envelope hm)).mp hs⟩⟩

/-- For one block id, the fold over two orders of the same envelopes ends with the same signers
while no envelope carries a zero count and no summed count wraps. -/
theorem foldl_mergeStep_signers_of_perm {envelopes envelopes' : List (Envelope D)}
    (hperm : envelopes.Perm envelopes') (hpositive : ∀ envelope ∈ envelopes, Positive envelope)
    (hbound : ∀ signer, countSum envelopes signer < 2 ^ 16) :
    (envelopes.foldl mergeStep none).map (fun e => e.signatureOccurrences.signers) =
      (envelopes'.foldl mergeStep none).map (fun e => e.signatureOccurrences.signers) := by
  have hpositive' : ∀ envelope ∈ envelopes', Positive envelope :=
    fun envelope h => hpositive envelope (hperm.mem_iff.mpr h)
  have hbound' : ∀ signer, countSum envelopes' signer < 2 ^ 16 := fun signer => by
    rw [countSum, ← ((hperm.map _).sum_eq), ← countSum]
    exact hbound signer
  match envelopes, envelopes', hperm with
  | [], _, hperm => rw [← hperm.nil_eq]
  | _ :: _, [], hperm => exact absurd hperm.eq_nil (List.cons_ne_nil _ _)
  | first :: rest, first' :: rest', hperm =>
      have h := aggregates_foldl rest [first] first (aggregates_singleton
        (hpositive first (List.mem_cons_self _ _)))
        (fun envelope h => hpositive envelope (List.mem_cons_of_mem _ h)) hbound
      have h' := aggregates_foldl rest' [first'] first' (aggregates_singleton
        (hpositive' first' (List.mem_cons_self _ _)))
        (fun envelope h => hpositive' envelope (List.mem_cons_of_mem _ h)) hbound'
      simp only [List.foldl_cons, mergeStep, foldl_mergeStep_some, Option.map_some']
      congr 1
      ext signer
      rw [h.mem_signers hpositive, h'.mem_signers hpositive']
      exact exists_congr fun envelope => and_congr_left' hperm.mem_iff

theorem countSum_carrying_le (blockIdOf : D → BlockIdentifier) (blockId : BlockIdentifier)
    (received : List (Envelope D)) (signer : SignerIndex) :
    countSum (carrying blockIdOf blockId received) signer ≤ countSum received signer := by
  induction received with
  | nil => exact le_rfl
  | cons envelope rest ih =>
      simp only [carrying, List.filter_cons] at ih ⊢
      split <;> simp only [countSum_cons] <;> omega

/-! ### The aggregate against arrival order, validity and re-delivery -/

/-- The same two acks for one block in the two orders of arrival: the second adds signer `1`
and is merged after the first, while the first adds no signer and is dropped after the second,
so the aggregates count signer `0` twice and once. -/
theorem aggregateAcks_depends_on_order :
    let ack : AckData := ⟨.ofByte 1⟩
    let first : Envelope AckData := ⟨{((0 : SignerIndex), ack)}, .ofList [(0, 1)], ack⟩
    let second : Envelope AckData := ⟨{(0, ack), (1, ack)}, .ofList [(0, 1), (1, 1)], ack⟩
    [first, second].Perm [second, first] ∧
      (aggregateAcks [first, second]).map (fun e => e.signatureOccurrences.count 0) = [2] ∧
      (aggregateAcks [second, first]).map (fun e => e.signatureOccurrences.count 0) = [1] :=
  ⟨.swap _ _ [], by decide, by decide⟩

/-- Arrival order does not change who signed: while no envelope carries a zero count and no
summed count reaches `2^16`, two orders of the same envelopes aggregate, for every block id, to
envelopes with the same signers. Their counts and signatures may differ, since an envelope that
adds no signer is dropped. -/
theorem aggregate_signers_of_perm (blockIdOf : D → BlockIdentifier)
    {received received' : List (Envelope D)} (hperm : received.Perm received')
    (hpositive : ∀ envelope ∈ received, Positive envelope)
    (hbound : ∀ blockId signer, countSum (carrying blockIdOf blockId received) signer < 2 ^ 16)
    (blockId : BlockIdentifier) :
    ((aggregate blockIdOf received).filter fun e => blockIdOf e.data = blockId).map
        (fun e => e.signatureOccurrences.signers) =
      ((aggregate blockIdOf received').filter fun e => blockIdOf e.data = blockId).map
        (fun e => e.signatureOccurrences.signers) := by
  have htoList : ∀ result : Option (Envelope D),
      result.toList.map (fun e => e.signatureOccurrences.signers) =
        (result.map fun e => e.signatureOccurrences.signers).toList := fun result => by
    cases result <;> rfl
  rw [filter_aggregate, filter_aggregate, htoList, htoList]
  exact congrArg Option.toList (foldl_mergeStep_signers_of_perm (hperm.filter _)
    (fun envelope h => hpositive envelope (List.mem_of_mem_filter h)) (hbound blockId))

/-- The two acks above, in both orders, aggregate to the same signers. -/
theorem aggregate_signers_of_perm_swapped :
    let ack : AckData := ⟨.ofByte 1⟩
    let first : Envelope AckData := ⟨{((0 : SignerIndex), ack)}, .ofList [(0, 1)], ack⟩
    let second : Envelope AckData := ⟨{(0, ack), (1, ack)}, .ofList [(0, 1), (1, 1)], ack⟩
    ((aggregate AckData.blockId [first, second]).filter fun e => e.data.blockId = ack.blockId).map
        (fun e => e.signatureOccurrences.signers) =
      ((aggregate AckData.blockId [second, first]).filter
        fun e => e.data.blockId = ack.blockId).map (fun e => e.signatureOccurrences.signers) := by
  intro ack first second
  exact aggregate_signers_of_perm AckData.blockId (.swap second first []) (by decide)
    (fun blockId signer => lt_of_le_of_lt (countSum_carrying_le _ blockId _ signer) (by
      have hfirst := @count_ofList_le [((0 : SignerIndex), (1 : UInt16))] 1 (by decide) signer
      have hsecond := @count_ofList_le [((0 : SignerIndex), (1 : UInt16)), (1, 1)] 1 (by decide)
        signer
      simp only [countSum_cons, countSum_nil]
      omega)) ack.blockId

/-- Two valid nacks of block `1` from signers `0` and `1` with different reasons: the fold keys
them by block id only and merges the second signature into the envelope of the first reason, so
the aggregate signs a reason its occurrences and data do not show. -/
theorem aggregateNacks_merges_reasons :
    let first : NackData := ⟨.ofByte 1, 0⟩
    let second : NackData := ⟨.ofByte 1, 1⟩
    let received : List (Envelope NackData) :=
      [⟨{((0 : SignerIndex), first)}, .ofList [(0, 1)], first⟩,
        ⟨{(1, second)}, .ofList [(1, 1)], second⟩]
    (∀ envelope ∈ received, envelope.Valid) ∧
      ∃ envelope ∈ aggregateNacks received, ¬envelope.Valid := by
  decide

/-- A first ack that lists signer `0` with the count `0`, then an ack of signer `1`: the pruned
merge has one signer, no more than the one key of the unpruned first ack, so signer `1` is
dropped and the aggregate has no signer. -/
theorem aggregateAcks_drops_signer :
    let ack : AckData := ⟨.ofByte 1⟩
    let received : List (Envelope AckData) :=
      [⟨0, .ofList [(0, 0)], ack⟩, ⟨{(1, ack)}, .ofList [(1, 1)], ack⟩]
    received.map (fun e => e.signatureOccurrences.signers) = [∅, {1}] ∧
      (aggregateAcks received).map (fun e => e.signatureOccurrences.signers) = [∅] := by
  decide

/-- After the zero-count ack of signer `0`, the ack of signer `1` is dropped and the ack of
signers `2` and `3` merged, dropping the key `0`; delivering the ack of signer `1` again then
adds signer `1`. -/
theorem aggregateAcks_changes_on_redelivery :
    let ack : AckData := ⟨.ofByte 1⟩
    let zero : Envelope AckData := ⟨0, .ofList [(0, 0)], ack⟩
    let one : Envelope AckData := ⟨{(1, ack)}, .ofList [(1, 1)], ack⟩
    let two : Envelope AckData := ⟨{(2, ack), (3, ack)}, .ofList [(2, 1), (3, 1)], ack⟩
    (aggregateAcks [zero, one, two]).map (fun e => e.signatureOccurrences.signers) = [{2, 3}] ∧
      (aggregateAcks ([zero, one, two] ++ [one])).map
        (fun e => e.signatureOccurrences.signers) = [{1, 2, 3}] := by
  decide

/-- An ack that counts signer `0` `65535` times, then an ack of signers `0`, `1` and `2`: the
fold adds `65535 + 1` for signer `0`, which a debug build rejects and a release build wraps to
`0`, so the merged envelope drops signer `0` while its signature still holds signer `0`'s. -/
theorem aggregateAcks_count_overflows :
    let ack : AckData := ⟨.ofByte 1⟩
    let full : Envelope AckData := ⟨{(0, ack)}, .ofList [(0, 65535)], ack⟩
    let more : Envelope AckData :=
      ⟨{(0, ack), (1, ack), (2, ack)}, .ofList [(0, 1), (1, 1), (2, 1)], ack⟩
    65535 < full.signatureOccurrences.count 0 + more.signatureOccurrences.count 0 ∧
      (aggregateAcks [full, more]).map (fun e => e.signatureOccurrences.signers) = [{1, 2}] ∧
      ∀ envelope ∈ aggregateAcks [full, more], (0, ack) ∈ envelope.aggregatedSignature := by
  decide

end AckiNacki.Producer
