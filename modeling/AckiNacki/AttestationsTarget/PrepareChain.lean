import AckiNacki.AttestationsTarget.Service

/-!
`AttestationsTargetService::prepare_chain`, which `find_next_block_known_dependants` runs on the
parent of the next block. From the tail it checks the tail's state, returns nothing for a
finalized tail, and otherwise follows parent links, pushing each unfinalized block, until it meets
a finalized one; it then returns the pushed blocks reversed, ancestor first. Each `ensure!` that
fails, and each `?` on the repository, ends it with an error.

The loop follows parent links for as long as the repository holds them, so it is modelled with
fuel: `none` is a loop still running after `fuel` turns. The repository's `get` is the lookup of
`Repository`, a missing block being its error.
-/

namespace AckiNacki.AttestationsTargetService

/-- The errors of `prepare_chain`, by the check or the call that fails. -/
inductive PrepareChainError
  | failedToLoadBlockState
  | isInvalidated
  | threadIdentifierIsNotSet
  | failedToSelectThreadLastFinalizedBlock
  | parentBlockIdentifierIsNotSet
  | blockSeqNoIsNotSet
  | blockSeqNoNotAfterCutoff
  deriving DecidableEq

/-- The `loop` of `prepare_chain` at `cursor`, with `chain` the blocks pushed so far. -/
def prepareChainLoop (repo : Repository) (cutoff : BlockSeqNo) :
    Nat → BlockState → List BlockState → Option (Except PrepareChainError (List BlockState))
  | 0, _, _ => none
  | fuel + 1, cursor, chain =>
      if cursor.isInvalidated then some (.error .isInvalidated)
      else if cursor.isFinalized then some (.ok chain.reverse)
      else
        match cursor.parentBlockIdentifier, cursor.blockSeqNo with
        | none, _ => some (.error .parentBlockIdentifierIsNotSet)
        | some _, none => some (.error .blockSeqNoIsNotSet)
        | some parentBlockIdentifier, some cursorSeqNo =>
            if cursorSeqNo ≤ cutoff then some (.error .blockSeqNoNotAfterCutoff)
            else
              match repo parentBlockIdentifier with
              | none => some (.error .failedToLoadBlockState)
              | some parent => prepareChainLoop repo cutoff fuel parent (chain ++ [cursor])

/-- `prepare_chain(tail)`. `lastFinalizedSeqNo` stands for `select_thread_last_finalized_block`. -/
def prepareChain (repo : Repository) (lastFinalizedSeqNo : ThreadIdentifier → Option BlockSeqNo)
    (fuel : Nat) (tail : BlockIdentifier) : Option (Except PrepareChainError (List BlockState)) :=
  match repo tail with
  | none => some (.error .failedToLoadBlockState)
  | some parentState =>
      if parentState.isInvalidated then some (.error .isInvalidated)
      else
        match parentState.threadIdentifier with
        | none => some (.error .threadIdentifierIsNotSet)
        | some threadIdentifier =>
            if parentState.isFinalized then some (.ok [])
            else
              match lastFinalizedSeqNo threadIdentifier with
              | none => some (.error .failedToSelectThreadLastFinalizedBlock)
              | some cutoff => prepareChainLoop repo cutoff fuel parentState []

/-! ### One turn of the loop -/

def Checked (cutoff : BlockSeqNo) (block : BlockState) : Prop :=
  block.isInvalidated = false ∧ block.isFinalized = false ∧
    ∃ seqNo, block.blockSeqNo = some seqNo ∧ cutoff < seqNo

def ParentOf (repo : Repository) (parent child : BlockState) : Prop :=
  ∃ parentBlockIdentifier, child.parentBlockIdentifier = some parentBlockIdentifier ∧
    repo parentBlockIdentifier = some parent

/-- A turn of the loop either ends, the same way with any fuel left and with a chain only at a
finalized cursor, or pushes a checked cursor and goes on at its parent. -/
theorem prepareChainLoop_turn (repo : Repository) (cutoff : BlockSeqNo) (cursor : BlockState)
    (chain : List BlockState) :
    (∃ result, (∀ fuel, prepareChainLoop repo cutoff (fuel + 1) cursor chain = some result) ∧
      ∀ found, result = .ok found →
        found = chain.reverse ∧ cursor.isInvalidated = false ∧ cursor.isFinalized = true) ∨
    (∃ parent, Checked cutoff cursor ∧ ParentOf repo parent cursor ∧ ∀ fuel,
      prepareChainLoop repo cutoff (fuel + 1) cursor chain =
        prepareChainLoop repo cutoff fuel parent (chain ++ [cursor])) := by
  by_cases hinvalidated : cursor.isInvalidated
  · exact .inl ⟨.error .isInvalidated, fun _ => by simp [prepareChainLoop, hinvalidated],
      by simp⟩
  by_cases hfinalized : cursor.isFinalized
  · refine .inl ⟨.ok chain.reverse, fun _ => by simp [prepareChainLoop, hinvalidated, hfinalized],
      fun found hfound => ⟨(Except.ok.inj hfound).symm, by simpa using hinvalidated, hfinalized⟩⟩
  rcases hparent : cursor.parentBlockIdentifier with _ | parentBlockIdentifier
  · exact .inl ⟨.error .parentBlockIdentifierIsNotSet,
      fun _ => by simp [prepareChainLoop, hinvalidated, hfinalized, hparent], by simp⟩
  rcases hseqNo : cursor.blockSeqNo with _ | cursorSeqNo
  · exact .inl ⟨.error .blockSeqNoIsNotSet,
      fun _ => by simp [prepareChainLoop, hinvalidated, hfinalized, hparent, hseqNo], by simp⟩
  by_cases hcutoff : cursorSeqNo ≤ cutoff
  · exact .inl ⟨.error .blockSeqNoNotAfterCutoff,
      fun _ => by simp [prepareChainLoop, hinvalidated, hfinalized, hparent, hseqNo, hcutoff],
      by simp⟩
  rcases hlookup : repo parentBlockIdentifier with _ | parent
  · exact .inl ⟨.error .failedToLoadBlockState, fun _ => by
      simp [prepareChainLoop, hinvalidated, hfinalized, hparent, hseqNo, hcutoff, hlookup],
      by simp⟩
  · refine .inr ⟨parent, ⟨by simpa using hinvalidated, by simpa using hfinalized, cursorSeqNo,
      hseqNo, Nat.lt_of_not_le hcutoff⟩, ⟨parentBlockIdentifier, hparent, hlookup⟩, fun _ => ?_⟩
    simp [prepareChainLoop, hinvalidated, hfinalized, hparent, hseqNo, hcutoff, hlookup]

/-! ### More fuel gives the same result -/

variable {repo : Repository} {cutoff : BlockSeqNo}

theorem prepareChainLoop_succ_of_eq_some :
    ∀ (fuel : Nat) (cursor : BlockState) (chain : List BlockState)
      (result : Except PrepareChainError (List BlockState)),
      prepareChainLoop repo cutoff fuel cursor chain = some result →
      prepareChainLoop repo cutoff (fuel + 1) cursor chain = some result
  | 0, _, _, _, h => by cases h
  | fuel + 1, cursor, chain, result, h => by
      rcases prepareChainLoop_turn repo cutoff cursor chain with
        ⟨ended, hended, -⟩ | ⟨parent, -, -, hnext⟩
      · rwa [hended] at h ⊢
      · rw [hnext] at h ⊢
        exact prepareChainLoop_succ_of_eq_some fuel parent _ result h

theorem prepareChainLoop_mono {fuel fuel' : Nat} (hle : fuel ≤ fuel') {cursor : BlockState}
    {chain : List BlockState} {result : Except PrepareChainError (List BlockState)}
    (h : prepareChainLoop repo cutoff fuel cursor chain = some result) :
    prepareChainLoop repo cutoff fuel' cursor chain = some result := by
  induction hle with
  | refl => exact h
  | step _ ih => exact prepareChainLoop_succ_of_eq_some _ _ _ _ ih

/-! ### Termination -/

def SeqNoDecreases (repo : Repository) : Prop :=
  ∀ blockIdentifier block parentBlockIdentifier parent seqNo parentSeqNo,
    repo blockIdentifier = some block → block.parentBlockIdentifier = some parentBlockIdentifier →
    repo parentBlockIdentifier = some parent → block.blockSeqNo = some seqNo →
    parent.blockSeqNo = some parentSeqNo → parentSeqNo < seqNo

/-- Each turn that goes on moves to a parent with a smaller sequence number, above the cutoff
until the last, so the loop ends within one turn more than the cursor's sequence number. -/
theorem prepareChainLoop_isSome (hdecreasing : SeqNoDecreases repo) :
    ∀ (fuel : Nat) (blockIdentifier : BlockIdentifier) (cursor : BlockState)
      (chain : List BlockState), repo blockIdentifier = some cursor →
      cursor.blockSeqNo.getD 0 < fuel → (prepareChainLoop repo cutoff fuel cursor chain).isSome
  | 0, _, _, _, _, hfuel => absurd hfuel (Nat.not_lt_zero _)
  | fuel + 1, blockIdentifier, cursor, chain, hcursor, hfuel => by
      rcases prepareChainLoop_turn repo cutoff cursor chain with
        ⟨ended, hended, -⟩ | ⟨parent, ⟨-, -, seqNo, hseqNo, hafter⟩, ⟨parentBlockIdentifier,
          hparent, hlookup⟩, hnext⟩
      · rw [hended]
        rfl
      · rw [hnext]
        refine prepareChainLoop_isSome hdecreasing fuel parentBlockIdentifier parent _ hlookup ?_
        rw [hseqNo, Option.getD_some] at hfuel
        dsimp only [BlockSeqNo] at hfuel hafter ⊢
        cases hparentSeqNo : parent.blockSeqNo with
        | none => simp only [Option.getD_none]; omega
        | some parentSeqNo =>
            have hlt := hdecreasing _ _ _ _ _ _ hcursor hparent hlookup hseqNo hparentSeqNo
            dsimp only [BlockSeqNo] at hlt
            simp only [Option.getD_some]
            omega

/-! ### The chain the loop returns -/

/-- Where the loop stands: the blocks it pushed, read ancestor first, continue from `cursor` down
a path of parent links that ends with `tailState`, and each of them passed its checks. -/
structure Walked (repo : Repository) (cutoff : BlockSeqNo) (tailState cursor : BlockState)
    (chain : List BlockState) : Prop where
  linked : (cursor :: chain.reverse).Chain' (ParentOf repo)
  ends : (cursor :: chain.reverse).getLast? = some tailState
  checked : ∀ block ∈ chain, Checked cutoff block

theorem walked_start (tailState : BlockState) : Walked repo cutoff tailState tailState [] :=
  ⟨List.chain'_singleton _, rfl, by simp⟩

theorem Walked.push {tailState cursor parent : BlockState} {chain : List BlockState}
    (h : Walked repo cutoff tailState cursor chain) (hchecked : Checked cutoff cursor)
    (hparent : ParentOf repo parent cursor) :
    Walked repo cutoff tailState parent (chain ++ [cursor]) := by
  have hreverse : (chain ++ [cursor]).reverse = cursor :: chain.reverse := by simp
  refine ⟨?_, ?_, fun block hblock => ?_⟩
  · rw [hreverse]
    exact h.linked.cons hparent
  · rw [hreverse, List.getLast?_cons_cons]
    exact h.ends
  · rcases List.mem_append.mp hblock with hmem | hmem
    · exact h.checked block hmem
    · exact List.mem_singleton.mp hmem ▸ hchecked

/-- A chain the loop returns hangs, ancestor first, below a finalized root, and ends with the
tail's state; each of its blocks passed its checks. -/
theorem prepareChainLoop_ok {tailState : BlockState} :
    ∀ (fuel : Nat) (cursor : BlockState) (chain found : List BlockState),
      Walked repo cutoff tailState cursor chain →
      prepareChainLoop repo cutoff fuel cursor chain = some (.ok found) →
      ∃ root, root.isFinalized = true ∧ root.isInvalidated = false ∧
        (root :: found).Chain' (ParentOf repo) ∧ (root :: found).getLast? = some tailState ∧
        ∀ block ∈ found, Checked cutoff block
  | 0, _, _, _, _, h => by cases h
  | fuel + 1, cursor, chain, found, hwalked, h => by
      rcases prepareChainLoop_turn repo cutoff cursor chain with
        ⟨ended, hended, hok⟩ | ⟨parent, hchecked, hparent, hnext⟩
      · rw [hended] at h
        obtain ⟨rfl, hvalid, hfinalized⟩ := hok found (Option.some.inj h)
        exact ⟨cursor, hfinalized, hvalid, hwalked.linked, hwalked.ends,
          fun block hblock => hwalked.checked block (List.mem_reverse.mp hblock)⟩
      · rw [hnext] at h
        exact prepareChainLoop_ok fuel parent _ found (hwalked.push hchecked hparent) h

/-! ### `prepare_chain` -/

def FinalizedTail (repo : Repository) (tail : BlockIdentifier) : Prop :=
  ∃ tailState, repo tail = some tailState ∧ tailState.isFinalized = true ∧
    tailState.isInvalidated = false ∧ tailState.threadIdentifier.isSome

/-- `chain`, ancestor first, is the path of parent links from the first unfinalized ancestor of
the tail to the tail: the parent of each block is the block before it, the parent of the first is
finalized, the last is the tail's state, and every block is neither invalidated nor finalized and
has a sequence number above the last finalized one of the tail's thread. -/
def AncestorPath (repo : Repository) (lastFinalizedSeqNo : ThreadIdentifier → Option BlockSeqNo)
    (tail : BlockIdentifier) (chain : List BlockState) : Prop :=
  ∃ tailState threadIdentifier cutoff root, repo tail = some tailState ∧
    tailState.threadIdentifier = some threadIdentifier ∧
    lastFinalizedSeqNo threadIdentifier = some cutoff ∧ root.isFinalized = true ∧
    root.isInvalidated = false ∧ (root :: chain).Chain' (ParentOf repo) ∧
    chain.getLast? = some tailState ∧ ∀ block ∈ chain, Checked cutoff block

/-- One more than the tail's sequence number: enough turns for the loop when sequence numbers
decrease towards the parents. -/
def prepareChainFuel (repo : Repository) (tail : BlockIdentifier) : Nat :=
  ((repo tail).bind BlockState.blockSeqNo).getD 0 + 1

theorem prepareChain_finalizedTail {lastFinalizedSeqNo : ThreadIdentifier → Option BlockSeqNo}
    {tail : BlockIdentifier} (h : FinalizedTail repo tail) (fuel : Nat) :
    prepareChain repo lastFinalizedSeqNo fuel tail = some (.ok []) := by
  obtain ⟨tailState, htail, hfinalized, hvalid, hthread⟩ := h
  obtain ⟨threadIdentifier, hthread⟩ := Option.isSome_iff_exists.mp hthread
  simp [prepareChain, htail, hfinalized, hvalid, hthread]

/-- Before its loop `prepare_chain` ends the same way with any fuel, with a chain only for a
finalized tail, or enters the loop at the unfinalized tail with its thread's cutoff. -/
theorem prepareChain_cases (repo : Repository)
    (lastFinalizedSeqNo : ThreadIdentifier → Option BlockSeqNo) (tail : BlockIdentifier) :
    (∃ result, (∀ fuel, prepareChain repo lastFinalizedSeqNo fuel tail = some result) ∧
      ∀ found, result = .ok found → found = [] ∧ FinalizedTail repo tail) ∨
    (∃ tailState threadIdentifier cutoff, repo tail = some tailState ∧
      tailState.isFinalized = false ∧ tailState.threadIdentifier = some threadIdentifier ∧
      lastFinalizedSeqNo threadIdentifier = some cutoff ∧
      ∀ fuel, prepareChain repo lastFinalizedSeqNo fuel tail =
        prepareChainLoop repo cutoff fuel tailState []) := by
  rcases htail : repo tail with _ | tailState
  · exact .inl ⟨.error .failedToLoadBlockState, fun _ => by simp [prepareChain, htail], by simp⟩
  by_cases hinvalidated : tailState.isInvalidated
  · exact .inl ⟨.error .isInvalidated, fun _ => by simp [prepareChain, htail, hinvalidated],
      by simp⟩
  rcases hthread : tailState.threadIdentifier with _ | threadIdentifier
  · exact .inl ⟨.error .threadIdentifierIsNotSet,
      fun _ => by simp [prepareChain, htail, hinvalidated, hthread], by simp⟩
  by_cases hfinalized : tailState.isFinalized
  · refine .inl ⟨.ok [], fun _ => by simp [prepareChain, htail, hinvalidated, hthread, hfinalized],
      fun found hfound => ⟨(Except.ok.inj hfound).symm, tailState, htail, hfinalized,
        by simpa using hinvalidated, by simp [hthread]⟩⟩
  rcases hcutoff : lastFinalizedSeqNo threadIdentifier with _ | cutoff
  · exact .inl ⟨.error .failedToSelectThreadLastFinalizedBlock,
      fun _ => by simp [prepareChain, htail, hinvalidated, hthread, hfinalized, hcutoff], by simp⟩
  · exact .inr ⟨tailState, threadIdentifier, cutoff, rfl, by simpa using hfinalized, hthread,
      hcutoff, fun _ => by simp [prepareChain, htail, hinvalidated, hthread, hfinalized, hcutoff]⟩

/-- For a repository whose sequence numbers decrease towards the parents, `prepare_chain(tail)`
ends, with one result for every fuel from `prepareChainFuel` on; a chain it returns is empty or
the tail's path from its first unfinalized ancestor; and it returns the empty chain exactly when
the tail is finalized, not invalidated and has its thread set. -/
theorem prepareChain_spec (repo : Repository)
    (lastFinalizedSeqNo : ThreadIdentifier → Option BlockSeqNo) (tail : BlockIdentifier)
    (hdecreasing : SeqNoDecreases repo) :
    (∃ result, ∀ fuel, prepareChainFuel repo tail ≤ fuel →
      prepareChain repo lastFinalizedSeqNo fuel tail = some result) ∧
    (∀ fuel chain, prepareChain repo lastFinalizedSeqNo fuel tail = some (.ok chain) →
      chain = [] ∨ AncestorPath repo lastFinalizedSeqNo tail chain) ∧
    ∀ fuel, prepareChain repo lastFinalizedSeqNo fuel tail = some (.ok []) ↔
      FinalizedTail repo tail := by
  rcases prepareChain_cases repo lastFinalizedSeqNo tail with
    ⟨result, hresult, hok⟩ |
      ⟨tailState, threadIdentifier, cutoff, htail, hfinalized, hthread, hcutoff, hloop⟩
  · have hfound (fuel : Nat) (found : List BlockState)
        (h : prepareChain repo lastFinalizedSeqNo fuel tail = some (.ok found)) :=
      hok found (Option.some.inj ((hresult fuel).symm.trans h))
    exact ⟨⟨result, fun fuel _ => hresult fuel⟩, fun fuel chain h => .inl (hfound fuel chain h).1,
      fun fuel => ⟨fun h => (hfound fuel [] h).2, fun h => prepareChain_finalizedTail h fuel⟩⟩
  · have hpath (fuel : Nat) (chain : List BlockState)
        (h : prepareChain repo lastFinalizedSeqNo fuel tail = some (.ok chain)) :
        AncestorPath repo lastFinalizedSeqNo tail chain := by
      rw [hloop] at h
      obtain ⟨root, hroot, hvalid, hlinked, hends, hchecked⟩ :=
        prepareChainLoop_ok fuel tailState [] chain (walked_start tailState) h
      cases chain with
      | nil =>
          rw [List.getLast?_singleton, Option.some.injEq] at hends
          rw [← hends, hroot] at hfinalized
          cases hfinalized
      | cons first rest =>
          exact ⟨tailState, threadIdentifier, cutoff, root, htail, hthread, hcutoff, hroot, hvalid,
            hlinked, by rwa [List.getLast?_cons_cons] at hends, hchecked⟩
    obtain ⟨result, hresult⟩ := Option.isSome_iff_exists.mp
      (@prepareChainLoop_isSome repo cutoff hdecreasing (prepareChainFuel repo tail) tail tailState
        [] htail (by simp [prepareChainFuel, htail]))
    refine ⟨⟨result, fun fuel hfuel => (hloop fuel).trans (prepareChainLoop_mono hfuel hresult)⟩,
      fun fuel chain h => .inr (hpath fuel chain h), fun fuel => ⟨fun h => ?_,
        fun h => prepareChain_finalizedTail h fuel⟩⟩
    obtain ⟨_, _, _, _, _, _, _, _, _, _, hends, _⟩ := hpath fuel [] h
    cases hends

theorem prepareChain_spec_two_blocks :
    let root : BlockState := { BlockState.new (.ofByte 0) with
      blockSeqNo := some 0, threadIdentifier := some ⟨0⟩, isFinalized := true }
    let tail : BlockState := { BlockState.new (.ofByte 1) with
      parentBlockIdentifier := some (.ofByte 0), blockSeqNo := some 1,
      threadIdentifier := some ⟨0⟩ }
    let repo := Repository.ofList [root, tail]
    SeqNoDecreases repo ∧
      (∃ result, ∀ fuel, prepareChainFuel repo (.ofByte 1) ≤ fuel →
        prepareChain repo (fun _ => some 0) fuel (.ofByte 1) = some result) ∧
      (∀ fuel chain, prepareChain repo (fun _ => some 0) fuel (.ofByte 1) = some (.ok chain) →
        chain = [] ∨ AncestorPath repo (fun _ => some 0) (.ofByte 1) chain) ∧
      ∀ fuel, prepareChain repo (fun _ => some 0) fuel (.ofByte 1) = some (.ok []) ↔
        FinalizedTail repo (.ofByte 1) := by
  intro root tail repo
  have hdecreasing : SeqNoDecreases repo := by
    intro blockIdentifier block parentBlockIdentifier parent seqNo parentSeqNo hblock hparent
      hlookup hseqNo hparentSeqNo
    rcases List.mem_pair.mp (List.mem_of_find?_eq_some hblock) with rfl | rfl
    · cases hparent
    · cases hparent
      have hroot : repo (.ofByte 0) = some root := rfl
      rw [hroot, Option.some.injEq] at hlookup
      subst hlookup
      cases hseqNo
      cases hparentSeqNo
      exact Nat.zero_lt_one
  exact ⟨hdecreasing, prepareChain_spec repo (fun _ => some 0) (.ofByte 1) hdecreasing⟩

/-- A finalized tail whose thread is not set, in a repository where no block has a parent: the
`ensure!` on the thread comes before the test of the finalized flag, so `prepare_chain` returns
an error, with any fuel, and not the empty chain. -/
theorem prepareChain_finalized_tail_without_thread :
    let tail : BlockState := { BlockState.new (.ofByte 0) with isFinalized := true }
    SeqNoDecreases (.ofList [tail]) ∧ tail.isFinalized = true ∧
      ∀ fuel, prepareChain (.ofList [tail]) (fun _ => some 0) fuel (.ofByte 0) =
        some (.error .threadIdentifierIsNotSet) := by
  intro tail
  refine ⟨fun blockIdentifier block parentBlockIdentifier _ _ _ hblock hparent _ _ _ => ?_, rfl,
    fun _ => rfl⟩
  rw [List.mem_singleton.mp (List.mem_of_find?_eq_some hblock)] at hparent
  cases hparent

end AckiNacki.AttestationsTargetService
