import AckiNacki.AttestationsTarget.Walk

/-!
The speculative check `evaluate_if_next_block_ancestors_required_attestations_will_be_met` walks
the unfinalized ancestors of the parent as the pair `(VecDeque, Target::Phantom)`, whose phantom
stands for the block about to be produced. The pair's `peek` puts the phantom exactly where that
block will stand: the walk over the pair and the walk over the chain extended by a block state
that shows what the phantom shows leave the callbacks in the same state and report an invalid
block alike.
-/

namespace AckiNacki.AttestationsTargetService

variable {σ : Type}

def Callback.ignore : Callback σ where
  call _ s := (.ok (), s)
  fails_only_to_save _ _ := .inl rfl

/-- The answer of the speculative check once the unfinalized ancestors `chain` of the parent
have been selected: the walk over the chain and the phantom must not end on a missing piece of
state or on an invalid block. -/
def nextBlockAncestorsWillBeMet (chain : List BlockState) (threadIdentifier : ThreadIdentifier)
    (nextBlockAttestations : BlockIdentifier → Option (Finset SignerIndex))
    (forkResolutions : List ForkResolution) : Bool :=
  match (evaluateAttestations (Callback.ignore : Callback Unit) .ignore
      (some (.phantom threadIdentifier nextBlockAttestations forkResolutions)) chain ()).1 with
  | .ok ()
  | .error .chainIsTooShort
  | .error .initialAttestationsTargetIsNotMetResolvesFork => true
  | .error _ => false

/-- Two runs that leave the callbacks' state the same and report an invalid block alike. -/
def SameOutcome (run run' : Except AttestationsFailure Unit × σ) : Prop :=
  run.2 = run'.2 ∧ (run.1 = .error .invalidBlockTailDoesNotMeetCriteria ↔
    run'.1 = .error .invalidBlockTailDoesNotMeetCriteria)

theorem andContinue_sameOutcome (result : Except AttestationsFailure Unit × σ)
    {walkRest walkRest' : σ → Except AttestationsFailure Unit × σ}
    (h : ∀ s, SameOutcome (walkRest s) (walkRest' s)) :
    SameOutcome (andContinue result walkRest) (andContinue result walkRest') := by
  rcases result with ⟨_ | _, s⟩
  · exact ⟨rfl, Iff.rfl⟩
  · exact h s

theorem blockTarget_eq_phantomTarget {next : BlockState} {t : ThreadIdentifier}
    {A : BlockIdentifier → Option (Finset SignerIndex)} {F : List ForkResolution}
    (hthread : next.threadIdentifier = some t) (hmet : next.hasAttestationsTargetMet = false)
    (hattestations : ∀ id, next.verifiedAttestations id = some ((A id).getD ∅))
    (hforks : next.resolvesForks = some F) :
    blockTarget next = phantomTarget t A F := by
  simp only [blockTarget, phantomTarget, hthread, hforks, hmet, TargetBlock.mk.injEq, true_and,
    and_true]
  exact funext hattestations

/-- The phantom stands at the index where the next block will stand. -/
theorem peek_phantom (rest : List BlockState) {next : BlockState} {t : ThreadIdentifier}
    {A : BlockIdentifier → Option (Finset SignerIndex)} {F : List ForkResolution}
    (hnext : blockTarget next = phantomTarget t A F) (nthChild : Nat) :
    peek rest (some (.phantom t A F)) nthChild = peek (rest ++ [next]) none nthChild := by
  simp only [peek]
  rcases Nat.lt_trichotomy nthChild rest.length with hlt | rfl | hgt
  · simp [hlt.ne, List.getElem?_append_left hlt, Target.targetBlock]
  · simp [Target.targetBlock, hnext]
  · have hpast : [next][nthChild - rest.length]? = none :=
      List.getElem?_eq_none (by simp only [List.length_singleton]; omega)
    simp [hgt.ne', List.getElem?_eq_none hgt.le, List.getElem?_append_right hgt.le, hpast]

theorem evaluateAttestations_singleton (onInitial onSecondary : Callback σ) (block : BlockState)
    (s : σ) : SameOutcome ((.ok (), s) : Except AttestationsFailure Unit × σ)
      (evaluateAttestations onInitial onSecondary none [block] s) := by
  have hlast : loopBody block (peek [] none) = .next ∨
      loopBody block (peek [] none) = .fail .threadIdentifierIsNotSet ∨
      loopBody block (peek [] none) = .fail .notAllInitialAttestationTargetsSet := by
    rcases loopBody_cases block (peek [] none) with
      h | ⟨target, checkpoint, ⟨-, -, hpeek, -⟩, -⟩
    · exact h
    · revert hpeek
      cases target.descendantGenerations <;> simp [peekCheckpoint, peek]
  rcases hlast with h | h | h <;> simp [evaluateAttestations, h, SameOutcome]

/-- The walk over the chain `c` paired with the phantom `(t, A, F)` and the walk over
`c ++ [next]`, for a block state `next` of thread `t` that has met no target, whose verified
attestations are `A` (the empty set where `A` has none) and whose fork resolutions are `F`,
leave every pair of callbacks in the same state, so pass them the same blocks, and report an
invalid block in exactly the same cases. -/
theorem evaluateAttestations_phantom (onInitial onSecondary : Callback σ) (t : ThreadIdentifier)
    (A : BlockIdentifier → Option (Finset SignerIndex)) (F : List ForkResolution)
    (next : BlockState) (hthread : next.threadIdentifier = some t)
    (hmet : next.hasAttestationsTargetMet = false)
    (hattestations : ∀ id, next.verifiedAttestations id = some ((A id).getD ∅))
    (hforks : next.resolvesForks = some F) (c : List BlockState) (s : σ) :
    SameOutcome (evaluateAttestations onInitial onSecondary (some (.phantom t A F)) c s)
      (evaluateAttestations onInitial onSecondary none (c ++ [next]) s) := by
  have hnext := blockTarget_eq_phantomTarget hthread hmet hattestations hforks
  induction c generalizing s with
  | nil => exact evaluateAttestations_singleton onInitial onSecondary next s
  | cons block rest ih =>
      have hpeek : peek rest (some (.phantom t A F)) = peek (rest ++ [next]) none :=
        funext (peek_phantom rest hnext)
      simp only [evaluateAttestations, List.cons_append, hpeek]
      cases loopBody block (peek (rest ++ [next]) none) with
      | next => exact ih s
      | fail failure => exact ⟨rfl, Iff.rfl⟩
      | initialMet => exact andContinue_sameOutcome _ ih
      | secondaryMet => exact andContinue_sameOutcome _ ih

/-- A block of thread `0` whose initial target asks one attestation from its child, before a
phantom that carries that attestation: the phantom is the block's checkpoint, and both walks call
the initial callback, counting calls, once. -/
theorem evaluateAttestations_phantom_checkpoint :
    let counting : Callback Nat := ⟨fun _ calls => (.ok (), calls + 1), fun _ _ => .inl rfl⟩
    let A : BlockIdentifier → Option (Finset SignerIndex) :=
      fun id => if id = .ofByte 1 then some {0} else none
    let block := { BlockState.new (.ofByte 1) with
      threadIdentifier := some ⟨0⟩, initialAttestationsTarget := some ⟨1, 1⟩ }
    let next := { BlockState.new (.ofByte 2) with
      threadIdentifier := some ⟨0⟩, verifiedAttestations := fun id => some ((A id).getD ∅),
      resolvesForks := some [] }
    next.threadIdentifier = some ⟨0⟩ ∧ next.hasAttestationsTargetMet = false ∧
      (∀ id, next.verifiedAttestations id = some ((A id).getD ∅)) ∧
      next.resolvesForks = some [] ∧
      (evaluateAttestations counting .ignore (some (.phantom ⟨0⟩ A [])) [block] 0).2 = 1 ∧
      SameOutcome (evaluateAttestations counting .ignore (some (.phantom ⟨0⟩ A [])) [block] 0)
        (evaluateAttestations counting .ignore none ([block] ++ [next]) 0) := by
  intro counting A block next
  exact ⟨rfl, rfl, fun _ => rfl, rfl, rfl, evaluateAttestations_phantom counting .ignore ⟨0⟩ A []
    next rfl rfl (fun _ => rfl) rfl [block] 0⟩

/-! ### Callbacks that never fail -/

def Callback.NeverFails (callback : Callback σ) : Prop :=
  ∀ block s, (callback.call block s).1 = .ok ()

theorem andContinue_of_ok {r : Except AttestationsFailure Unit × σ} (h : r.1 = .ok ())
    (walkRest : σ → Except AttestationsFailure Unit × σ) :
    andContinue r walkRest = walkRest r.2 := by
  obtain ⟨_, _⟩ := r
  subst h
  rfl

/-- Over callbacks that never fail, what the walk reports depends only on the chain and the
target, not on the callbacks or on the state they capture. -/
theorem evaluateAttestations_fst_of_neverFails {τ : Type} {onInitial onSecondary : Callback σ}
    {onInitial' onSecondary' : Callback τ} (hinitial : onInitial.NeverFails)
    (hsecondary : onSecondary.NeverFails) (hinitial' : onInitial'.NeverFails)
    (hsecondary' : onSecondary'.NeverFails) (target : Option Target) :
    ∀ (chain : List BlockState) (s : σ) (s' : τ),
      (evaluateAttestations onInitial onSecondary target chain s).1 =
        (evaluateAttestations onInitial' onSecondary' target chain s').1
  | [], _, _ => rfl
  | block :: rest, s, s' => by
      have ih := evaluateAttestations_fst_of_neverFails hinitial hsecondary hinitial'
        hsecondary' target rest
      simp only [evaluateAttestations]
      cases loopBody block (peek rest target) with
      | next => exact ih s s'
      | fail _ => rfl
      | initialMet =>
          rw [andContinue_of_ok (hinitial block s), andContinue_of_ok (hinitial' block s')]
          exact ih _ _
      | secondaryMet =>
          rw [andContinue_of_ok (hsecondary block s), andContinue_of_ok (hsecondary' block s')]
          exact ih _ _

theorem Callback.ignore_neverFails : (Callback.ignore : Callback σ).NeverFails :=
  fun _ _ => rfl

/-! ### The producer's list of dependants -/

/-- `AsChain::peek` of the pair `(VecDeque, Target)`, as the `Target` it clones: the target
itself at the index just past the blocks, a candidate block before it. -/
def peekPair (blocks : List BlockState) (target : Target) (nthChild : Nat) : Option Target :=
  if nthChild = blocks.length then some target else blocks[nthChild]?.map .candidate

theorem peek_some_eq_peekPair (blocks : List BlockState) (target : Target) (nthChild : Nat) :
    peek blocks (some target) nthChild =
      (peekPair blocks target nthChild).map Target.targetBlock := by
  unfold peek peekPair
  split_ifs <;> simp [Option.map_map, Function.comp_def]

theorem peekPair_eq_target_iff (blocks : List BlockState) (t : ThreadIdentifier)
    (A : BlockIdentifier → Option (Finset SignerIndex)) (F : List ForkResolution)
    (nthChild : Nat) :
    peekPair blocks (.phantom t A F) nthChild = some (.phantom t A F) ↔
      nthChild = blocks.length := by
  unfold peekPair
  split_ifs with h
  · simp [h]
  · cases blocks[nthChild]? <;> simp [h]

/-- The loop of `find_next_block_known_dependants` over the chain that `prepare_chain` returns:
each block is removed from the front, and kept when its checkpoint generation is one more than
the blocks left; `none` where `ensure!` finds no initial attestations target. -/
def knownDependants : List BlockState → Option (List BlockIdentifier)
  | [] => some []
  | cursor :: chain => do
      let target ← cursor.initialAttestationsTarget
      let rest ← knownDependants chain
      pure (if target.descendantGenerations ≠ chain.length + 1 then rest
        else cursor.blockIdentifier :: rest)

def descendantGenerationsOf (block : BlockState) : Option Nat :=
  block.initialAttestationsTarget.map (·.descendantGenerations)

theorem knownDependants_eq_filter (chain : List BlockState)
    (htargets : ∀ block ∈ chain, block.initialAttestationsTarget.isSome) (offset : Nat) :
    knownDependants chain = some (((chain.enumFrom offset).filter fun entry =>
      descendantGenerationsOf entry.2 = some (offset + chain.length - entry.1)).map
        (·.2.blockIdentifier)) := by
  induction chain generalizing offset with
  | nil => rfl
  | cons cursor rest ih =>
      obtain ⟨target, htarget⟩ :=
        Option.isSome_iff_exists.mp (htargets cursor (List.mem_cons_self _ _))
      have hrest := ih (fun block h => htargets block (List.mem_cons_of_mem _ h)) (offset + 1)
      have hshift (index : Nat) :
          offset + 1 + rest.length - index = offset + (rest.length + 1) - index := by
        omega
      simp only [knownDependants, htarget, hrest, List.enumFrom_cons, List.filter_cons,
        descendantGenerationsOf, Option.map_some', hshift, List.length_cons, Option.pure_def,
        Option.bind_eq_bind, Option.some_bind, Nat.add_sub_cancel_left, Option.some.injEq]
      by_cases hgen : target.descendantGenerations = rest.length + 1 <;>
        simp only [hgen, ne_eq, ite_not, ↓reduceIte, decide_True, decide_False, List.map_cons,
          Bool.false_eq_true, not_true_eq_false, not_false_eq_true]

/-- For a chain whose blocks all have their initial attestations target set,
`find_next_block_known_dependants` returns, in chain order, the ids of the blocks at positions
`i` with `descendant_generations = L - i`; these are exactly the blocks whose checkpoint peek on
the pair with the phantom, once the block is popped, lands on the phantom. -/
theorem knownDependants_are_phantom_checkpoints (chain : List BlockState)
    (htargets : ∀ block ∈ chain, block.initialAttestationsTarget.isSome) (t : ThreadIdentifier)
    (A : BlockIdentifier → Option (Finset SignerIndex)) (F : List ForkResolution) :
    knownDependants chain = some (((chain.enum).filter fun entry =>
        descendantGenerationsOf entry.2 = some (chain.length - entry.1)).map
          (·.2.blockIdentifier)) ∧
      ∀ i block target, chain[i]? = some block →
        block.initialAttestationsTarget = some target →
        (target.descendantGenerations = chain.length - i ↔
          0 < target.descendantGenerations ∧
            peekPair (chain.drop (i + 1)) (.phantom t A F) (target.descendantGenerations - 1) =
              some (.phantom t A F)) := by
  refine ⟨by simpa using knownDependants_eq_filter chain htargets 0, ?_⟩
  intro i block target hblock _
  have hi : i < chain.length := (List.getElem?_eq_some_iff.mp hblock).1
  rw [peekPair_eq_target_iff, List.length_drop]
  omega

/-- Two blocks whose checkpoints both fall on the next block. -/
theorem knownDependants_are_phantom_checkpoints_pair :
    let first := { BlockState.new (.ofByte 1) with initialAttestationsTarget := some ⟨2, 1⟩ }
    let second := { BlockState.new (.ofByte 2) with initialAttestationsTarget := some ⟨1, 1⟩ }
    (∀ block ∈ [first, second], block.initialAttestationsTarget.isSome) ∧
      knownDependants [first, second] = some ((([first, second].enum).filter fun entry =>
        descendantGenerationsOf entry.2 = some (2 - entry.1)).map (·.2.blockIdentifier)) := by
  intro first second
  have htargets : ∀ block ∈ [first, second], block.initialAttestationsTarget.isSome := by
    simp [first, second]
  exact ⟨htargets,
    (knownDependants_are_phantom_checkpoints _ htargets ⟨0⟩ (fun _ => none) []).1⟩

end AckiNacki.AttestationsTargetService

