import AckiNacki.AttestationsTarget.Soundness
import AckiNacki.AttestationsTarget.Speculative

/-!
`AttestationsTargetService::evaluate` and `evaluate_chain` over the block state repository. The
repository hands out shared `BlockState` handles, so that a write through one handle is seen
through every other; it is modelled as the current state behind each block identifier, and a
`guarded_mut` write as an update of that map. The setters of a block state are modelled as never
failing. `select_unfinalized_ancestor_blocks` belongs to the repository, which is not among the
sources, and `select_thread_last_finalized_block` is given as a function of the thread.
-/

namespace AckiNacki.AttestationsTargetService

abbrev Repository := BlockIdentifier → Option BlockState

namespace Repository

def write (repo : Repository) (blockIdentifier : BlockIdentifier)
    (update : BlockState → BlockState) : Repository :=
  Function.update repo blockIdentifier ((repo blockIdentifier).map update)

def invalidated (repo : Repository) (blockIdentifier : BlockIdentifier) : Bool :=
  (repo blockIdentifier).any BlockState.isInvalidated

def targetMet (repo : Repository) (blockIdentifier : BlockIdentifier) : Bool :=
  (repo blockIdentifier).any BlockState.hasAttestationsTargetMet

def ofList (blocks : List BlockState) : Repository :=
  fun blockIdentifier => blocks.find? (·.blockIdentifier = blockIdentifier)

theorem write_apply (repo : Repository) (y : BlockIdentifier) (update : BlockState → BlockState)
    (x : BlockIdentifier) :
    repo.write y update x = if x = y then (repo y).map update else repo x := by
  by_cases h : x = y
  · subst h
    simp [write]
  · simp [write, Function.update_noteq h, h]

@[simp] theorem invalidated_write (repo : Repository) (y : BlockIdentifier)
    (update : BlockState → BlockState) (x : BlockIdentifier) :
    (repo.write y update).invalidated x =
      if x = y then (repo y).any (fun state => (update state).isInvalidated)
      else repo.invalidated x := by
  by_cases h : x = y
  · subst h
    simp only [invalidated, write_apply, if_pos rfl]
    cases repo x <;> rfl
  · simp [invalidated, write_apply, h]

end Repository

/-- Modelled from the spec: the errors of `select_unfinalized_ancestor_blocks`. -/
inductive UnfinalizedAncestorBlocksSelectError
  | incompleteHistory
  | blockSeqNoCutoff (chain : List BlockState)
  | invalidatedParent (chain : List BlockState)
  | failedToLoadBlockState

/-- Modelled from the spec: `select_unfinalized_ancestor_blocks(tail, cutoff)`. From `block`,
with `above` the blocks gathered so far, it follows parent links up to a finalized parent and
returns the blocks after it, oldest first, ending with the tail. An invalidated parent stops it
with `InvalidatedParent`, an unfinalized parent not after the cutoff with `BlockSeqNoCutoff`, each
carrying the chain gathered; a missing parent link or sequence number is `IncompleteHistory`, and
a parent the repository does not hold is `FailedToLoadBlockState`. The walk visits at most `depth`
blocks and reports `IncompleteHistory` past them. -/
def selectUnfinalizedAncestorBlocks (repo : Repository) (cutoff : BlockSeqNo) :
    Nat → BlockState → List BlockState →
      Except UnfinalizedAncestorBlocksSelectError (List BlockState)
  | 0, _, _ => .error .incompleteHistory
  | depth + 1, block, above =>
      match block.parentBlockIdentifier with
      | none => .error .incompleteHistory
      | some parentBlockIdentifier =>
          match repo parentBlockIdentifier with
          | none => .error .failedToLoadBlockState
          | some parent =>
              if parent.isFinalized then .ok (block :: above)
              else if parent.isInvalidated then .error (.invalidatedParent (block :: above))
              else
                match parent.blockSeqNo with
                | none => .error .incompleteHistory
                | some seqNo =>
                    if seqNo ≤ cutoff then .error (.blockSeqNoCutoff (block :: above))
                    else selectUnfinalizedAncestorBlocks repo cutoff depth parent (block :: above)

def chainOf :
    Except UnfinalizedAncestorBlocksSelectError (List BlockState) → Option (List BlockState)
  | .ok chain => some chain
  | .error (.blockSeqNoCutoff chain) => some chain
  | .error (.invalidatedParent chain) => some chain
  | .error _ => none

/-- Every chain that the selection returns, or reports with an error, is some ancestors followed
by the blocks it started from. -/
theorem selectUnfinalizedAncestorBlocks_chain (repo : Repository) (cutoff : BlockSeqNo) :
    ∀ (depth : Nat) (block : BlockState) (above chain : List BlockState),
      chainOf (selectUnfinalizedAncestorBlocks repo cutoff depth block above) = some chain →
      ∃ ancestors, chain = ancestors ++ block :: above
  | 0, _, _, _, h => by cases h
  | depth + 1, block, above, chain, h => by
      simp only [selectUnfinalizedAncestorBlocks] at h
      split at h
      · cases h
      · split at h
        · cases h
        · split_ifs at h
          · exact ⟨[], (Option.some.inj h).symm⟩
          · exact ⟨[], (Option.some.inj h).symm⟩
          · split at h
            · cases h
            · split_ifs at h
              · exact ⟨[], (Option.some.inj h).symm⟩
              · obtain ⟨ancestors, rfl⟩ :=
                  selectUnfinalizedAncestorBlocks_chain repo cutoff depth _ _ chain h
                exact ⟨_, List.append_cons _ _ _⟩

/-- The closures of `evaluate_chain`: set a flag on the popped block through its handle. -/
def setFlag (set : BlockState → BlockState) : Callback Repository where
  call block repo := (.ok (), repo.write block.blockIdentifier set)
  fails_only_to_save _ _ := .inl rfl

def evaluateChainAttestations (repo : Repository) (chain : List BlockState) :
    Except AttestationsFailure Unit × Repository :=
  evaluateAttestations (setFlag BlockState.setHasInitialAttestationsTargetMet)
    (setFlag BlockState.setHasAttestationsTargetMetInAResolvedForkCase) none chain repo

def invalidateBlocks (repo : Repository) (blocks : List BlockState) : Repository :=
  blocks.foldl (fun repo block => repo.write block.blockIdentifier BlockState.setInvalidated) repo

def evaluateChain (depth : Nat) (repo : Repository) (tail : BlockState) (cutoff : BlockSeqNo) :
    Repository :=
  match selectUnfinalizedAncestorBlocks repo cutoff depth tail [] with
  | .ok chain =>
      match evaluateChainAttestations repo chain with
      | (.error .invalidBlockTailDoesNotMeetCriteria, repo) =>
          repo.write tail.blockIdentifier BlockState.setInvalidated
      | (_, repo) => repo
  | .error (.blockSeqNoCutoff chain) => invalidateBlocks repo chain
  | .error (.invalidatedParent chain) => invalidateBlocks repo chain
  | .error _ => repo

/-- One turn of the loop of `evaluate`, for the block `blockIdentifier` of the snapshot. -/
def evaluateBlock (depth : Nat) (lastFinalizedSeqNo : ThreadIdentifier → Option BlockSeqNo)
    (repo : Repository) (blockIdentifier : BlockIdentifier) : Repository :=
  match repo blockIdentifier with
  | none => repo
  | some blockState =>
      match blockState.threadIdentifier.bind lastFinalizedSeqNo with
      | none => repo
      | some cutoff => evaluateChain depth repo blockState cutoff

/-- `evaluate(blocks)` over the identifiers of the snapshot, each block read as the turns before
it left it. -/
def evaluate (depth : Nat) (lastFinalizedSeqNo : ThreadIdentifier → Option BlockSeqNo)
    (repo : Repository) (blocks : List BlockIdentifier) : Repository :=
  blocks.foldl (evaluateBlock depth lastFinalizedSeqNo) repo

section Frame

variable {σ : Type}

/-- A property of the captured state that both callbacks keep is kept by the whole walk. -/
theorem evaluateAttestations_keeps (P : σ → Prop) (onInitial onSecondary : Callback σ)
    (target : Option Target) (hinitial : ∀ block s, P s → P (onInitial.call block s).2)
    (hsecondary : ∀ block s, P s → P (onSecondary.call block s).2) :
    ∀ (chain : List BlockState) (s : σ), P s →
      P (evaluateAttestations onInitial onSecondary target chain s).2
  | [], _, h => h
  | block :: rest, s, h => by
      have hrest := evaluateAttestations_keeps P onInitial onSecondary target hinitial hsecondary
        rest
      have hcontinue (r : Except AttestationsFailure Unit × σ) (hr : P r.2) :
          P (andContinue r (evaluateAttestations onInitial onSecondary target rest)).2 := by
        obtain ⟨_ | ⟨⟩, s'⟩ := r
        · exact hr
        · exact hrest s' hr
      simp only [evaluateAttestations]
      cases loopBody block (peek rest target) with
      | next => exact hrest s h
      | fail _ => exact h
      | initialMet => exact hcontinue _ (hinitial block s h)
      | secondaryMet => exact hcontinue _ (hsecondary block s h)

end Frame

inductive ServiceWrite : (BlockState → BlockState) → Prop
  | initial : ServiceWrite BlockState.setHasInitialAttestationsTargetMet
  | secondary : ServiceWrite BlockState.setHasAttestationsTargetMetInAResolvedForkCase
  | invalidated : ServiceWrite BlockState.setInvalidated

section Keeps

variable (P : Repository → Prop)
  (hwrite : ∀ repo y update, ServiceWrite update → P repo → P (repo.write y update))
include hwrite

theorem invalidateBlocks_keeps (blocks : List BlockState) :
    ∀ repo, P repo → P (invalidateBlocks repo blocks) := by
  induction blocks with
  | nil => exact fun _ h => h
  | cons block blocks ih =>
      exact fun repo h => ih _ (hwrite repo _ _ .invalidated h)

theorem evaluateChain_keeps (depth : Nat) (repo : Repository) (tail : BlockState)
    (cutoff : BlockSeqNo) (h : P repo) : P (evaluateChain depth repo tail cutoff) := by
  have hwalk (chain : List BlockState) (result : Except AttestationsFailure Unit)
      (walked : Repository) (hrun : evaluateChainAttestations repo chain = (result, walked)) :
      P walked := by
    have hkeeps := evaluateAttestations_keeps P (setFlag _) (setFlag _) none
      (fun _ s => hwrite s _ _ .initial) (fun _ s => hwrite s _ _ .secondary) chain repo h
    rwa [← evaluateChainAttestations, hrun] at hkeeps
  unfold evaluateChain
  split
  · split
    · exact hwrite _ _ _ .invalidated (hwalk _ _ _ ‹_›)
    · exact hwalk _ _ _ ‹_›
  all_goals first
    | exact invalidateBlocks_keeps P hwrite _ repo h
    | exact h

/-- A property of the repository that each write of the service keeps holds after every
`evaluate`. -/
theorem evaluate_keeps (depth : Nat) (lastFinalizedSeqNo : ThreadIdentifier → Option BlockSeqNo)
    (blocks : List BlockIdentifier) :
    ∀ repo, P repo → P (evaluate depth lastFinalizedSeqNo repo blocks) := by
  induction blocks with
  | nil => exact fun _ h => h
  | cons blockIdentifier blocks ih =>
      intro repo h
      refine ih _ ?_
      unfold evaluateBlock
      split
      · exact h
      · split
        · exact h
        · exact evaluateChain_keeps P hwrite depth repo _ _ h

end Keeps

theorem invalidated_write_flag {update : BlockState → BlockState}
    (hupdate : ∀ state, (update state).isInvalidated = state.isInvalidated) (repo : Repository)
    (y x : BlockIdentifier) : (repo.write y update).invalidated x = repo.invalidated x := by
  rw [Repository.invalidated_write]
  split_ifs with h
  · subst h
    simp [Repository.invalidated, hupdate]
  · rfl

theorem evaluateChainAttestations_invalidated (repo : Repository) (chain : List BlockState)
    (x : BlockIdentifier) :
    (evaluateChainAttestations repo chain).2.invalidated x = repo.invalidated x :=
  evaluateAttestations_keeps (fun s => s.invalidated x = repo.invalidated x) (setFlag _)
    (setFlag _) none
    (fun _ s h => (@invalidated_write_flag BlockState.setHasInitialAttestationsTargetMet
      (fun _ => rfl) s _ x).trans h)
    (fun _ s h => (@invalidated_write_flag BlockState.setHasAttestationsTargetMetInAResolvedForkCase
      (fun _ => rfl) s _ x).trans h) chain repo rfl

theorem invalidated_invalidateBlocks (blocks : List BlockState) :
    ∀ (repo : Repository) (x : BlockIdentifier), (invalidateBlocks repo blocks).invalidated x →
      repo.invalidated x ∨ ∃ block ∈ blocks, block.blockIdentifier = x := by
  induction blocks with
  | nil => exact fun _ _ h => .inl h
  | cons block blocks ih =>
      intro repo x h
      rcases ih _ x h with hwritten | ⟨found, hmem, rfl⟩
      · rw [Repository.invalidated_write] at hwritten
        split_ifs at hwritten with hx
        · exact .inr ⟨block, List.mem_cons_self _ _, hx.symm⟩
        · exact .inl hwritten
      · exact .inr ⟨found, List.mem_cons_of_mem _ hmem, rfl⟩

/-- In `chain`, `block` stands at position `i`, has not met its target, and its same-thread
checkpoint, `descendant_generations` positions further, holds verified attestations for it below
the target's count and fork resolutions, set, that name no winner it. -/
def FailsAt (chain : List BlockState) (i : Nat) (block : BlockState) : Prop :=
  chain[i]? = some block ∧ block.hasAttestationsTargetMet = false ∧
    ∃ target checkpoint signers forkResolutions,
      block.initialAttestationsTarget = some target ∧ 0 < target.descendantGenerations ∧
      chain[i + target.descendantGenerations]? = some checkpoint ∧
      block.threadIdentifier.isSome ∧ checkpoint.threadIdentifier = block.threadIdentifier ∧
      checkpoint.resolvesForks = some forkResolutions ∧
      (∀ r ∈ forkResolutions, r.winner ≠ block.blockIdentifier) ∧
      checkpoint.verifiedAttestations block.blockIdentifier = some signers ∧
      signers.card < target.count

theorem TailFailsIn.exists_failsAt {chain : List BlockState} (h : TailFailsIn chain) :
    ∃ i block, FailsAt chain i block := by
  obtain ⟨block, target, checkpoint, signers, forks,
    ⟨i, hblock, hmet, htarget, hgen, hcheckpoint, hthread, hsame⟩, hrest⟩ := h
  exact ⟨i, block, hblock, hmet, target, checkpoint, signers, forks, htarget, hgen, hcheckpoint,
    hthread, hsame, hrest⟩

theorem FailsAt.getElem?_ancestors {ancestors : List BlockState} {tail block : BlockState}
    {i : Nat} (h : FailsAt (ancestors ++ [tail]) i block) : ancestors[i]? = some block := by
  obtain ⟨hblock, -, target, checkpoint, -, -, -, hgen, hcheckpoint, -⟩ := h
  obtain ⟨hlt, -⟩ := List.getElem?_eq_some_iff.mp hcheckpoint
  rw [List.length_append, List.length_singleton] at hlt
  rwa [List.getElem?_append_left (by omega)] at hblock

/-- How `evaluate_chain(tail, cutoff)` on `repo` can invalidate a block. -/
inductive ChainInvalidation (depth : Nat) (repo : Repository) (tail : BlockState)
    (cutoff : BlockSeqNo) : BlockIdentifier → Prop
  /-- The `InvalidBlock_TailDoesNotMeetCriteria` arm invalidates the tail; the walk ends there
  only on a proper ancestor of the tail, at position `i`, whose check fails. -/
  | invalidBlock {ancestors : List BlockState} {i : Nat} {block : BlockState}
      (hselect : selectUnfinalizedAncestorBlocks repo cutoff depth tail [] =
        .ok (ancestors ++ [tail]))
      (hwalk : (evaluateChainAttestations repo (ancestors ++ [tail])).1 =
        .error .invalidBlockTailDoesNotMeetCriteria)
      (hancestor : ancestors[i]? = some block) (hfails : FailsAt (ancestors ++ [tail]) i block) :
      ChainInvalidation depth repo tail cutoff tail.blockIdentifier
  | blockSeqNoCutoff {chain : List BlockState} {block : BlockState}
      (hselect : selectUnfinalizedAncestorBlocks repo cutoff depth tail [] =
        .error (.blockSeqNoCutoff chain))
      (hmem : block ∈ chain) : ChainInvalidation depth repo tail cutoff block.blockIdentifier
  | invalidatedParent {chain : List BlockState} {block : BlockState}
      (hselect : selectUnfinalizedAncestorBlocks repo cutoff depth tail [] =
        .error (.invalidatedParent chain))
      (hmem : block ∈ chain) : ChainInvalidation depth repo tail cutoff block.blockIdentifier

/-- A block that `evaluate_chain` finds not invalidated and leaves invalidated went through one
of its three invalidating arms. -/
theorem evaluateChain_invalidation {depth : Nat} {repo : Repository} {tail : BlockState}
    {cutoff : BlockSeqNo} {x : BlockIdentifier} (hbefore : repo.invalidated x = false)
    (hafter : (evaluateChain depth repo tail cutoff).invalidated x = true) :
    ChainInvalidation depth repo tail cutoff x := by
  have hwalked (chain : List BlockState) (result : Except AttestationsFailure Unit)
      (walked : Repository) (hrun : evaluateChainAttestations repo chain = (result, walked)) :
      walked.invalidated x = false := by
    rw [← hbefore, ← evaluateChainAttestations_invalidated repo chain x, hrun]
  unfold evaluateChain at hafter
  split at hafter
  · rename_i chain hselect
    split at hafter
    · rename_i walked hrun
      rw [Repository.invalidated_write] at hafter
      split_ifs at hafter with hx
      · subst hx
        obtain ⟨ancestors, rfl⟩ := selectUnfinalizedAncestorBlocks_chain repo cutoff depth tail []
          chain (by rw [hselect]; rfl)
        have hwalk : (evaluateChainAttestations repo (ancestors ++ [tail])).1 =
            .error .invalidBlockTailDoesNotMeetCriteria := by rw [hrun]
        obtain ⟨i, block, hfails⟩ :=
          (evaluateAttestations_invalid _ _ _ repo hwalk).exists_failsAt
        exact .invalidBlock hselect hwalk hfails.getElem?_ancestors hfails
      · rw [hwalked _ _ _ hrun] at hafter
        cases hafter
    · rw [hwalked _ _ _ ‹_›] at hafter
      cases hafter
  · rcases invalidated_invalidateBlocks _ _ _ hafter with h | ⟨block, hmem, rfl⟩
    · rw [hbefore] at h
      cases h
    · exact .blockSeqNoCutoff ‹_› hmem
  · rcases invalidated_invalidateBlocks _ _ _ hafter with h | ⟨block, hmem, rfl⟩
    · rw [hbefore] at h
      cases h
    · exact .invalidatedParent ‹_› hmem
  · rw [hbefore] at hafter
    cases hafter

theorem setFlag_neverFails (set : BlockState → BlockState) : (setFlag set).NeverFails :=
  fun _ _ => rfl

/-- What an answer of `true` of the speculative check on the chain `c` promises: once the next
block stands, shows what the phantom showed and is selected as `c` followed by itself,
`evaluate_chain` on it does not take the invalid-block arm, and keeps what the walk wrote. -/
theorem evaluateChain_of_nextBlockAncestorsWillBeMet (depth : Nat) (repo : Repository)
    (cutoff : BlockSeqNo) (c : List BlockState) (t : ThreadIdentifier)
    (A : BlockIdentifier → Option (Finset SignerIndex)) (F : List ForkResolution)
    (next : BlockState) (hthread : next.threadIdentifier = some t)
    (hmet : next.hasAttestationsTargetMet = false)
    (hattestations : ∀ id, next.verifiedAttestations id = some ((A id).getD ∅))
    (hforks : next.resolvesForks = some F)
    (hselect : selectUnfinalizedAncestorBlocks repo cutoff depth next [] = .ok (c ++ [next]))
    (hanswer : nextBlockAncestorsWillBeMet c t A F = true) :
    (evaluateChainAttestations repo (c ++ [next])).1 ≠
        .error .invalidBlockTailDoesNotMeetCriteria ∧
      evaluateChain depth repo next cutoff = (evaluateChainAttestations repo (c ++ [next])).2 := by
  have hspeculative : (evaluateAttestations (Callback.ignore : Callback Unit) .ignore
      (some (.phantom t A F)) c ()).1 ≠ .error .invalidBlockTailDoesNotMeetCriteria := by
    intro h
    simp [nextBlockAncestorsWillBeMet, h] at hanswer
  have hsame := (evaluateAttestations_phantom (Callback.ignore : Callback Unit) .ignore t A F
    next hthread hmet hattestations hforks c ()).2
  have hwalk : (evaluateChainAttestations repo (c ++ [next])).1 =
      (evaluateAttestations (Callback.ignore : Callback Unit) .ignore none (c ++ [next]) ()).1 :=
    evaluateAttestations_fst_of_neverFails (setFlag_neverFails _) (setFlag_neverFails _)
      Callback.ignore_neverFails Callback.ignore_neverFails none _ _ _
  have hnot : (evaluateChainAttestations repo (c ++ [next])).1 ≠
      .error .invalidBlockTailDoesNotMeetCriteria := by
    rw [hwalk]
    exact fun h => hspeculative (hsame.mpr h)
  refine ⟨hnot, ?_⟩
  rcases hrun : evaluateChainAttestations repo (c ++ [next]) with ⟨result, walked⟩
  replace hnot : result ≠ .error .invalidBlockTailDoesNotMeetCriteria := by rwa [hrun] at hnot
  simp only [evaluateChain, hselect, hrun, hnot]

/-- `evaluate` never clears a flag of a met target nor an invalidation. -/
theorem evaluate_keeps_flags (depth : Nat)
    (lastFinalizedSeqNo : ThreadIdentifier → Option BlockSeqNo) (blocks : List BlockIdentifier)
    (repo : Repository) (x : BlockIdentifier) :
    (repo.targetMet x → (evaluate depth lastFinalizedSeqNo repo blocks).targetMet x) ∧
      (repo.invalidated x → (evaluate depth lastFinalizedSeqNo repo blocks).invalidated x) := by
  have hwrite (flag : BlockState → Bool) (hflag : ∀ update, ServiceWrite update →
      ∀ state, flag state → flag (update state)) (repo : Repository) (y : BlockIdentifier)
      (update : BlockState → BlockState) (hupdate : ServiceWrite update)
      (h : (repo x).any flag) : (repo.write y update x).any flag := by
    rw [Repository.write_apply]
    split_ifs with hx
    · subst hx
      revert h
      cases repo x with
      | none => exact id
      | some state => exact hflag update hupdate state
    · exact h
  refine ⟨evaluate_keeps (fun repo => repo.targetMet x) (hwrite _ ?_) depth lastFinalizedSeqNo
    blocks repo, evaluate_keeps (fun repo => repo.invalidated x) (hwrite _ ?_) depth
    lastFinalizedSeqNo blocks repo⟩
  · rintro _ (_ | _ | _) state h
    · rfl
    · exact Bool.or_true _
    · exact h
  · rintro _ (_ | _ | _) state h
    · exact h
    · exact h
    · rfl

/-- `x` is invalidated by the `evaluate_chain` of one block of the snapshot `blocks`, run on the
repository as the turns before it left it, which held `x` not invalidated, through one of the
arms that `ChainInvalidation` names. -/
def InvalidatedByTurn (depth : Nat) (lastFinalizedSeqNo : ThreadIdentifier → Option BlockSeqNo)
    (repo : Repository) (blocks : List BlockIdentifier) (x : BlockIdentifier) : Prop :=
  ∃ done blockIdentifier rest tail cutoff, blocks = done ++ blockIdentifier :: rest ∧
    evaluate depth lastFinalizedSeqNo repo done blockIdentifier = some tail ∧
    tail.threadIdentifier.bind lastFinalizedSeqNo = some cutoff ∧
    (evaluate depth lastFinalizedSeqNo repo done).invalidated x = false ∧
    ChainInvalidation depth (evaluate depth lastFinalizedSeqNo repo done) tail cutoff x

/-- Over a whole `evaluate`, a block that was not invalidated and ends invalidated was
invalidated by one turn of the loop, through one of the three arms of `evaluate_chain`. -/
theorem evaluate_invalidation_arms (depth : Nat)
    (lastFinalizedSeqNo : ThreadIdentifier → Option BlockSeqNo) (x : BlockIdentifier) :
    ∀ (blocks : List BlockIdentifier) (repo : Repository), repo.invalidated x = false →
      (evaluate depth lastFinalizedSeqNo repo blocks).invalidated x = true →
      InvalidatedByTurn depth lastFinalizedSeqNo repo blocks x
  | [], repo, hbefore, hafter => by
      change repo.invalidated x = true at hafter
      rw [hbefore] at hafter
      cases hafter
  | blockIdentifier :: blocks, repo, hbefore, hafter => by
      by_cases hturn :
          (evaluateBlock depth lastFinalizedSeqNo repo blockIdentifier).invalidated x = true
      · refine ⟨[], blockIdentifier, blocks, ?_⟩
        unfold evaluateBlock at hturn
        split at hturn
        · rw [hbefore] at hturn
          cases hturn
        · rename_i tail htail
          split at hturn
          · rw [hbefore] at hturn
            cases hturn
          · rename_i cutoff hcutoff
            exact ⟨tail, cutoff, rfl, htail, hcutoff, hbefore,
              evaluateChain_invalidation hbefore hturn⟩
      · obtain ⟨done, found, rest, tail, cutoff, rfl, hrest⟩ :=
          evaluate_invalidation_arms depth lastFinalizedSeqNo x blocks _
            (Bool.not_eq_true _ ▸ hturn) hafter
        exact ⟨blockIdentifier :: done, found, rest, tail, cutoff, rfl, hrest⟩

theorem evaluate_invalidation_arms_orphan :
    let repo := Repository.ofList [{ BlockState.new (.ofByte 0) with isInvalidated := true },
      { BlockState.new (.ofByte 1) with
        parentBlockIdentifier := some (.ofByte 0), threadIdentifier := some ⟨0⟩ }]
    repo.invalidated (.ofByte 1) = false ∧
      (evaluate 1 (fun _ => some 0) repo [.ofByte 1]).invalidated (.ofByte 1) = true ∧
      InvalidatedByTurn 1 (fun _ => some 0) repo [.ofByte 1] (.ofByte 1) := by
  dsimp only
  exact ⟨by decide, by decide, evaluate_invalidation_arms 1 _ _ _ _ (by decide) (by decide)⟩

/-- A block of thread `0` on `parent`, whose initial target asks one verified attestation from
its child and whose fork resolutions are set and name no winner. -/
def chainBlock (blockIdentifier parent : UInt8) (blockSeqNo : BlockSeqNo)
    (verifiedAttestations : BlockIdentifier → Option (Finset SignerIndex)) : BlockState :=
  { BlockState.new (.ofByte blockIdentifier) with
    parentBlockIdentifier := some (.ofByte parent), blockSeqNo := some blockSeqNo,
    threadIdentifier := some ⟨0⟩, initialAttestationsTarget := some ⟨1, 1⟩,
    verifiedAttestations := verifiedAttestations, resolvesForks := some [] }

/-- Blocks `B ← T ← D` over a finalized root. The first `evaluate` defers the check of `B`,
whose attestations in `T` are not verified yet, and sets the flag of `T`, attested by `D`. Then
`T`'s attestations for `B` become verified, and too few: the `evaluate` of `T` takes the
`InvalidBlock_TailDoesNotMeetCriteria` arm and invalidates `T`, which had met its target. -/
theorem evaluate_invalidates_met_tail :
    let root := { BlockState.new (.ofByte 0) with isFinalized := true, blockSeqNo := some 0 }
    let b := chainBlock 1 0 1 fun _ => none
    let t := chainBlock 2 1 2 fun _ => none
    let d := chainBlock 3 2 3 fun x => if x = .ofByte 2 then some {0} else none
    let first := evaluate 4 (fun _ => some 0) (.ofList [root, b, t, d]) [.ofByte 3]
    let attested (state : BlockState) : BlockState :=
      { state with verifiedAttestations := fun x => if x = .ofByte 1 then some ∅ else none }
    let verified := first.write (.ofByte 2) attested
    let metT := attested t.setHasInitialAttestationsTargetMet
    first.targetMet (.ofByte 2) = true ∧ first.invalidated (.ofByte 2) = false ∧
      verified (.ofByte 2) = some metT ∧
      selectUnfinalizedAncestorBlocks verified 0 4 metT [] = .ok [b, metT] ∧
      (evaluateChainAttestations verified [b, metT]).1 =
        .error .invalidBlockTailDoesNotMeetCriteria ∧
      (evaluate 4 (fun _ => some 0) verified [.ofByte 2]).invalidated (.ofByte 2) = true :=
  ⟨by decide, by decide, rfl, rfl, rfl, by decide⟩

end AckiNacki.AttestationsTargetService
