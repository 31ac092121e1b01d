import AckiNacki.AttestationsTarget.Service
import AckiNacki.Types.Identifiers

/-!
The sweep of the unprocessed blocks when the node starts (`execute` in `bin/node.rs`). For each
thread of `load_unprocessed_blocks`, the node reads the sequence number of the thread's last
finalized block, selects the unfinalized ancestors of each unprocessed block, invalidates the
chain that an `InvalidatedParent` or a `BlockSeqNoCutoff` carries, and then retains the blocks
left valid. The unprocessed blocks are handles into the block state repository: each is
modelled as its block identifier, read through the repository at its turn, so that it sees the
invalidations of the turns before it. The selection is the one of the attestation service,
modelled from the spec, and the setters of a block state never fail.

Over one thread whose history below the unprocessed blocks is complete and shallower than the
selection's depth, every block that the sweep keeps still selects its chain down to a finalized
block on the repository that the sweep leaves, in whatever order the blocks come: a turn
invalidates only blocks whose own selection fails, and no successful selection passes through
one of them.
-/

namespace AckiNacki.Node

open AttestationsTargetService

/-- Why `execute` stops in the sweep: the `?` on `select_thread_last_finalized_block` of a
thread, or the panic on a block whose ancestor states fail to load. -/
inductive SweepFailure
  | lastFinalizedBlock (threadIdentifier : ThreadIdentifier)
  | failedToLoadAncestorBlockState (blockIdentifier : BlockIdentifier)

def failedToLoadAncestorBlockStateText (blockIdentifier : BlockIdentifier) : List Char :=
  "Failed to load ancestor block state: ".toList ++ blockIdentifier.display

/-- The body of the loop over the unprocessed blocks of a thread. A handle always holds a state;
an identifier that the repository does not hold names no handle, and the loop passes over it. -/
def sweepBlock (depth : Nat) (cutoff : BlockSeqNo) (repo : Repository)
    (blockIdentifier : BlockIdentifier) : Except SweepFailure Repository :=
  match repo blockIdentifier with
  | none => .ok repo
  | some blockState =>
      match selectUnfinalizedAncestorBlocks repo cutoff depth blockState [] with
      | .error (.invalidatedParent chain) => .ok (invalidateBlocks repo chain)
      | .error (.blockSeqNoCutoff chain) => .ok (invalidateBlocks repo chain)
      | .error .failedToLoadBlockState => .error (.failedToLoadAncestorBlockState blockIdentifier)
      | _ => .ok repo

/-- The loop over the unprocessed blocks of one thread, then its `retain` of the blocks that are
not invalidated. -/
def sweepThread (depth : Nat) (cutoff : BlockSeqNo) (repo : Repository)
    (blocks : List BlockIdentifier) : Except SweepFailure (Repository × List BlockIdentifier) := do
  let repo ← blocks.foldlM (sweepBlock depth cutoff) repo
  return (repo, blocks.filter fun blockIdentifier => !repo.invalidated blockIdentifier)

/-- The sweep over the threads of `load_unprocessed_blocks`, in the order of its keys. -/
def sweepUnprocessedBlocks (depth : Nat)
    (lastFinalizedSeqNo : ThreadIdentifier → Option BlockSeqNo) (repo : Repository) :
    List (ThreadIdentifier × List BlockIdentifier) →
      Except SweepFailure (Repository × List (ThreadIdentifier × List BlockIdentifier))
  | [] => .ok (repo, [])
  | (threadIdentifier, blocks) :: threads =>
      match lastFinalizedSeqNo threadIdentifier with
      | none => .error (.lastFinalizedBlock threadIdentifier)
      | some cutoff => do
          let (repo, kept) ← sweepThread depth cutoff repo blocks
          let (repo, rest) ← sweepUnprocessedBlocks depth lastFinalizedSeqNo repo threads
          return (repo, (threadIdentifier, kept) :: rest)

/-! ### Invalidation -/

theorem Repository.ofList_eq_some {states : List BlockState} {x : BlockIdentifier}
    {state : BlockState} (h : Repository.ofList states x = some state) :
    state.blockIdentifier = x ∧ state ∈ states := by
  have hfind : states.find? (fun state => decide (state.blockIdentifier = x)) = some state := h
  have hkey := List.find?_some hfind
  exact ⟨of_decide_eq_true hkey, List.mem_of_find?_eq_some hfind⟩

@[simp] theorem setInvalidated_comp_setInvalidated :
    BlockState.setInvalidated ∘ BlockState.setInvalidated = BlockState.setInvalidated := rfl

theorem invalidateBlocks_apply (chain : List BlockState) :
    ∀ (repo : Repository) (x : BlockIdentifier), invalidateBlocks repo chain x =
      if ∃ y ∈ chain, y.blockIdentifier = x then (repo x).map BlockState.setInvalidated
      else repo x := by
  induction chain with
  | nil => simp [invalidateBlocks]
  | cons z rest ih =>
      intro repo x
      have hcons : invalidateBlocks repo (z :: rest) =
          invalidateBlocks (repo.write z.blockIdentifier BlockState.setInvalidated) rest := rfl
      rw [hcons, ih, Repository.write_apply]
      by_cases hz : x = z.blockIdentifier
      · subst hz
        by_cases hrest : ∃ y ∈ rest, y.blockIdentifier = z.blockIdentifier <;> simp [hrest]
      · simp [hz, Ne.symm hz]

theorem invalidateBlocks_of_forall_ne {chain : List BlockState} {x : BlockIdentifier}
    (h : ∀ y ∈ chain, y.blockIdentifier ≠ x) (repo : Repository) :
    invalidateBlocks repo chain x = repo x := by
  rw [invalidateBlocks_apply, if_neg]
  rintro ⟨y, hy, rfl⟩
  exact h y hy rfl

theorem invalidateBlocks_eq_some {chain : List BlockState} {repo : Repository}
    {x : BlockIdentifier} {state' : BlockState} (h : invalidateBlocks repo chain x = some state') :
    ∃ state, repo x = some state ∧ (state' = state ∨ state' = state.setInvalidated) := by
  rw [invalidateBlocks_apply] at h
  split_ifs at h
  · obtain ⟨state, hstate, rfl⟩ := Option.map_eq_some'.mp h
    exact ⟨state, hstate, .inr rfl⟩
  · exact ⟨state', h, .inl rfl⟩

@[simp] theorem isSome_invalidateBlocks (chain : List BlockState) (repo : Repository)
    (x : BlockIdentifier) : (invalidateBlocks repo chain x).isSome = (repo x).isSome := by
  rw [invalidateBlocks_apply]
  split_ifs <;> simp

/-! ### Complete histories -/

/-- The history below the unfinalized blocks of `repo` is complete and `height` ranks it: each
held state sits under its own identifier, and each one not finalized has a sequence number and
a parent that the repository holds, at a lower height. -/
structure CompleteHistory (height : BlockIdentifier → Nat) (repo : Repository) : Prop where
  key : ∀ {x state}, repo x = some state → state.blockIdentifier = x
  seqNo : ∀ {x state}, repo x = some state → state.isFinalized = false →
    state.blockSeqNo.isSome
  parent : ∀ {x state}, repo x = some state → state.isFinalized = false →
    ∃ p, state.parentBlockIdentifier = some p ∧ (repo p).isSome ∧ height p < height x

def Passes (cutoff : BlockSeqNo) (parent : BlockState) : Prop :=
  parent.isFinalized = false ∧ parent.isInvalidated = false ∧
    ∃ seqNo, parent.blockSeqNo = some seqNo ∧ cutoff < seqNo

def Stops (cutoff : BlockSeqNo) (parent : BlockState) : Prop :=
  parent.isFinalized = false ∧
    (parent.isInvalidated = true ∨ ∃ seqNo, parent.blockSeqNo = some seqNo ∧ seqNo ≤ cutoff)

section Step

variable {height : BlockIdentifier → Nat} {repo : Repository} {cutoff : BlockSeqNo} {n : Nat}
  {state parent : BlockState} {above : List BlockState}

theorem CompleteHistory.invalidate (h : CompleteHistory height repo)
    (chain : List BlockState) : CompleteHistory height (invalidateBlocks repo chain) where
  key hx := by
    obtain ⟨state, hstate, rfl | rfl⟩ := invalidateBlocks_eq_some hx <;>
      exact (h.key hstate).trans rfl
  seqNo hx hfin := by
    obtain ⟨state, hstate, rfl | rfl⟩ := invalidateBlocks_eq_some hx <;>
      exact (h.seqNo hstate hfin).trans rfl
  parent hx hfin := by
    obtain ⟨state, hstate, rfl | rfl⟩ := invalidateBlocks_eq_some hx <;>
      simpa only [isSome_invalidateBlocks] using h.parent hstate hfin

/-- The parent of a held block that is not finalized is held, lower, and ends the selection
there, stops it, or lets it pass. -/
theorem CompleteHistory.parent_cases (h : CompleteHistory height repo)
    (hstate : repo state.blockIdentifier = some state) (hfin : state.isFinalized = false)
    (cutoff : BlockSeqNo) :
    ∃ parent, state.parentBlockIdentifier = some parent.blockIdentifier ∧
      repo parent.blockIdentifier = some parent ∧
      height parent.blockIdentifier < height state.blockIdentifier ∧
      (parent.isFinalized = true ∨ Stops cutoff parent ∨ Passes cutoff parent) := by
  obtain ⟨p, hp, hheld, hlt⟩ := h.parent hstate hfin
  obtain ⟨parent, hparent⟩ := Option.isSome_iff_exists.mp hheld
  obtain rfl := h.key hparent
  refine ⟨parent, hp, hparent, hlt, ?_⟩
  cases hfinp : parent.isFinalized
  · obtain ⟨seqNo, hseqNo⟩ := Option.isSome_iff_exists.mp (h.seqNo hparent hfinp)
    cases hinv : parent.isInvalidated
    · rcases Nat.lt_or_ge cutoff seqNo with hlt | hle
      · exact .inr (.inr ⟨hfinp, hinv, seqNo, hseqNo, hlt⟩)
      · exact .inr (.inl ⟨hfinp, .inr ⟨seqNo, hseqNo, hle⟩⟩)
    · exact .inr (.inl ⟨hfinp, .inl hinv⟩)
  · exact .inl rfl

variable (hp : state.parentBlockIdentifier = some parent.blockIdentifier)
  (hparent : repo parent.blockIdentifier = some parent)
include hp hparent

theorem select_of_finalized (hfin : parent.isFinalized = true) :
    selectUnfinalizedAncestorBlocks repo cutoff (n + 1) state above = .ok (state :: above) := by
  simp [selectUnfinalizedAncestorBlocks, hp, hparent, hfin]

theorem select_of_stops (hstop : Stops cutoff parent) :
    chainOf (selectUnfinalizedAncestorBlocks repo cutoff (n + 1) state above) =
        some (state :: above) ∧
      (selectUnfinalizedAncestorBlocks repo cutoff (n + 1) state above).isOk = false := by
  obtain ⟨hfin, hinv | ⟨seqNo, hseqNo, hle⟩⟩ := hstop
  · simp [selectUnfinalizedAncestorBlocks, hp, hparent, hfin, hinv, chainOf, Except.toBool]
  · by_cases hinv : parent.isInvalidated <;>
      simp [selectUnfinalizedAncestorBlocks, hp, hparent, hfin, hinv, hseqNo, hle, chainOf,
        Except.toBool]

theorem select_of_passes (hpass : Passes cutoff parent) :
    selectUnfinalizedAncestorBlocks repo cutoff (n + 1) state above =
      selectUnfinalizedAncestorBlocks repo cutoff n parent (state :: above) := by
  obtain ⟨hfin, hinv, seqNo, hseqNo, hlt⟩ := hpass
  simp [selectUnfinalizedAncestorBlocks, hp, hparent, hfin, hinv, hseqNo, Nat.not_le.mpr hlt]

end Step

/-- The selection from `state` fails: with the fuel that its height needs, it ends in an
error. -/
def Fails (height : BlockIdentifier → Nat) (repo : Repository) (cutoff : BlockSeqNo)
    (state : BlockState) : Prop :=
  repo state.blockIdentifier = some state ∧ state.isFinalized = false ∧
    (selectUnfinalizedAncestorBlocks repo cutoff (height state.blockIdentifier + 1) state []).isOk =
      false

section Walk

variable {height : BlockIdentifier → Nat} {repo : Repository} (h : CompleteHistory height repo)
  (cutoff : BlockSeqNo)
include h

/-- Below a complete history the selection from an unfinalized block, with fuel above its
height, ends with a chain: it never reports an incomplete history nor a missing state. -/
theorem CompleteHistory.isSome_chainOf_select :
    ∀ {n : Nat} {state : BlockState} (above : List BlockState),
      repo state.blockIdentifier = some state → state.isFinalized = false →
      height state.blockIdentifier < n →
      (chainOf (selectUnfinalizedAncestorBlocks repo cutoff n state above)).isSome
  | 0, _, _, _, _, hn => absurd hn (Nat.not_lt_zero _)
  | n + 1, state, above, hstate, hfin, hn => by
      obtain ⟨parent, hp, hparent, hlt, hfinp | hstop | hpass⟩ :=
        h.parent_cases hstate hfin cutoff
      · rw [select_of_finalized hp hparent hfinp]
        rfl
      · rw [(select_of_stops hp hparent hstop).1]
        rfl
      · rw [select_of_passes hp hparent hpass]
        exact CompleteHistory.isSome_chainOf_select _ hparent hpass.1 (by omega)

/-- Whether the selection succeeds depends neither on the fuel, once above the height, nor on
the blocks gathered before. -/
theorem CompleteHistory.isOk_select_eq :
    ∀ {n m : Nat} {state : BlockState} (above above' : List BlockState),
      repo state.blockIdentifier = some state → state.isFinalized = false →
      height state.blockIdentifier < n → height state.blockIdentifier < m →
      (selectUnfinalizedAncestorBlocks repo cutoff n state above).isOk =
        (selectUnfinalizedAncestorBlocks repo cutoff m state above').isOk
  | 0, _, _, _, _, _, _, hn, _ => absurd hn (Nat.not_lt_zero _)
  | _ + 1, 0, _, _, _, _, _, _, hm => absurd hm (Nat.not_lt_zero _)
  | n + 1, m + 1, state, above, above', hstate, hfin, hn, hm => by
      obtain ⟨parent, hp, hparent, hlt, hfinp | hstop | hpass⟩ :=
        h.parent_cases hstate hfin cutoff
      · rw [select_of_finalized hp hparent hfinp, select_of_finalized hp hparent hfinp]
        rfl
      · rw [(select_of_stops hp hparent hstop).2, (select_of_stops hp hparent hstop).2]
      · rw [select_of_passes hp hparent hpass, select_of_passes hp hparent hpass]
        exact CompleteHistory.isOk_select_eq _ _ hparent hpass.1 (by omega) (by omega)

/-- Each block of the chain that a failed selection carries, past the blocks gathered before,
fails on its own. -/
theorem CompleteHistory.fails_of_mem_chain :
    ∀ {n : Nat} {state : BlockState} {above chain : List BlockState},
      repo state.blockIdentifier = some state → state.isFinalized = false →
      height state.blockIdentifier < n →
      (selectUnfinalizedAncestorBlocks repo cutoff n state above).isOk = false →
      chainOf (selectUnfinalizedAncestorBlocks repo cutoff n state above) = some chain →
      ∀ y ∈ chain, y ∈ above ∨ Fails height repo cutoff y
  | 0, _, _, _, _, _, hn, _, _ => absurd hn (Nat.not_lt_zero _)
  | n + 1, state, above, chain, hstate, hfin, hn, herr, hchain => by
      have hfails : Fails height repo cutoff state :=
        ⟨hstate, hfin, (h.isOk_select_eq cutoff [] above hstate hfin (by omega) hn).trans herr⟩
      have hhead (y : BlockState) (hy : y ∈ state :: above) :
          y ∈ above ∨ Fails height repo cutoff y := by
        rcases List.mem_cons.mp hy with rfl | hy
        · exact .inr hfails
        · exact .inl hy
      obtain ⟨parent, hp, hparent, hlt, hfinp | hstop | hpass⟩ :=
        h.parent_cases hstate hfin cutoff
      · rw [select_of_finalized hp hparent hfinp] at herr
        cases herr
      · rw [(select_of_stops hp hparent hstop).1] at hchain
        obtain rfl := Option.some.inj hchain
        exact hhead
      · rw [select_of_passes hp hparent hpass] at herr hchain
        intro y hy
        exact (CompleteHistory.fails_of_mem_chain hparent hpass.1 (by omega) herr hchain y hy).elim
          (hhead y) .inr

/-- Invalidating blocks that fail on their own leaves every successful selection as it was: no
successful selection passes through one of them. -/
theorem CompleteHistory.select_invalidateBlocks {chain : List BlockState}
    (hchain : ∀ y ∈ chain, Fails height repo cutoff y) :
    ∀ {n : Nat} {state : BlockState} (above : List BlockState),
      repo state.blockIdentifier = some state → state.isFinalized = false →
      height state.blockIdentifier < n →
      (selectUnfinalizedAncestorBlocks repo cutoff n state above).isOk = true →
      selectUnfinalizedAncestorBlocks (invalidateBlocks repo chain) cutoff n state above =
        selectUnfinalizedAncestorBlocks repo cutoff n state above
  | 0, _, _, _, _, hn, _ => absurd hn (Nat.not_lt_zero _)
  | n + 1, state, above, hstate, hfin, hn, hok => by
      obtain ⟨parent, hp, hparent, hlt, hcases⟩ := h.parent_cases hstate hfin cutoff
      have hoff (hparentOk : parent.isFinalized = true ∨ (selectUnfinalizedAncestorBlocks repo
          cutoff (height parent.blockIdentifier + 1) parent []).isOk = true) :
          AttestationsTargetService.invalidateBlocks repo chain parent.blockIdentifier =
            some parent := by
        refine (invalidateBlocks_of_forall_ne (fun y hy hid => ?_) repo).trans hparent
        obtain ⟨hyheld, hyfin, hyerr⟩ := hchain y hy
        rw [hid, hparent] at hyheld
        obtain rfl := Option.some.inj hyheld
        rcases hparentOk with hparentOk | hparentOk
        · cases hparentOk.symm.trans hyfin
        · cases hparentOk.symm.trans hyerr
      rcases hcases with hfinp | hstop | hpass
      · rw [select_of_finalized hp (hoff (.inl hfinp)) hfinp, select_of_finalized hp hparent hfinp]
      · rw [(select_of_stops hp hparent hstop).2] at hok
        cases hok
      · rw [select_of_passes hp hparent hpass] at hok ⊢
        have hparentOk : (selectUnfinalizedAncestorBlocks repo cutoff
            (height parent.blockIdentifier + 1) parent []).isOk = true :=
          (h.isOk_select_eq cutoff [] (state :: above) hparent hpass.1 (by omega) (by omega)).trans
            hok
        rw [select_of_passes hp (hoff (.inr hparentOk)) hpass]
        exact CompleteHistory.select_invalidateBlocks hchain _ hparent hpass.1
          (show height parent.blockIdentifier < n by omega) hok

end Walk

/-! ### The sweep of a thread -/

def Unprocessed (height : BlockIdentifier → Nat) (depth : Nat) (repo : Repository)
    (blocks : List BlockIdentifier) : Prop :=
  ∀ x ∈ blocks,
    height x < depth ∧ ∃ state, repo x = some state ∧ state.isFinalized = false

/-- What holds after the turns of the sweep over `done`: the history is still complete, and
each block of `done` that is not invalidated selects its chain. -/
structure SweepInvariant (height : BlockIdentifier → Nat) (depth : Nat) (cutoff : BlockSeqNo)
    (repo : Repository) (done : List BlockIdentifier) : Prop where
  history : CompleteHistory height repo
  selects : ∀ x ∈ done, ∀ state, repo x = some state → state.isInvalidated = false →
    (selectUnfinalizedAncestorBlocks repo cutoff depth state []).isOk = true

section Sweep

variable {height : BlockIdentifier → Nat} {depth : Nat} {cutoff : BlockSeqNo}
  {repo repo' : Repository}

theorem sweepBlock_eq_ok {x : BlockIdentifier} (h : sweepBlock depth cutoff repo x = .ok repo') :
    repo' = repo ∨ ∃ chain, repo' = invalidateBlocks repo chain := by
  unfold sweepBlock at h
  split at h
  · exact .inl (Except.ok.inj h).symm
  · split at h <;> first
      | exact .inl (Except.ok.inj h).symm
      | exact .inr ⟨_, (Except.ok.inj h).symm⟩
      | cases h

theorem Unprocessed.sweepBlock {blocks : List BlockIdentifier} {x : BlockIdentifier}
    (hblocks : Unprocessed height depth repo blocks)
    (h : sweepBlock depth cutoff repo x = .ok repo') : Unprocessed height depth repo' blocks := by
  rcases sweepBlock_eq_ok h with rfl | ⟨chain, rfl⟩
  · exact hblocks
  · intro y hy
    obtain ⟨hlt, state, hstate, hfin⟩ := hblocks y hy
    refine ⟨hlt, ?_⟩
    rw [invalidateBlocks_apply, hstate]
    split_ifs <;> exact ⟨_, rfl, hfin⟩

/-- A turn whose selection fails with a chain keeps the invariant: the blocks that it
invalidates fail on their own, so the selections of the earlier turns stand. -/
theorem SweepInvariant.invalidate {done : List BlockIdentifier}
    (hinv : SweepInvariant height depth cutoff repo done)
    (hdone : Unprocessed height depth repo done) {state : BlockState} {chain : List BlockState}
    (hstate : repo state.blockIdentifier = some state) (hfin : state.isFinalized = false)
    (hlt : height state.blockIdentifier < depth)
    (herr : (selectUnfinalizedAncestorBlocks repo cutoff depth state []).isOk = false)
    (hchain : chainOf (selectUnfinalizedAncestorBlocks repo cutoff depth state []) = some chain) :
    SweepInvariant height depth cutoff (invalidateBlocks repo chain)
      (done ++ [state.blockIdentifier]) := by
  have hfails (y : BlockState) (hy : y ∈ chain) : Fails height repo cutoff y :=
    (hinv.history.fails_of_mem_chain cutoff hstate hfin hlt herr hchain y hy).resolve_left
      (List.not_mem_nil y)
  refine ⟨hinv.history.invalidate chain, fun x hx state' hstate' hvalid => ?_⟩
  have hoff : ∀ y ∈ chain, y.blockIdentifier ≠ x := by
    rintro y hy rfl
    rw [invalidateBlocks_apply, if_pos ⟨y, hy, rfl⟩, (hfails y hy).1] at hstate'
    obtain rfl := Option.some.inj hstate'
    cases hvalid
  rw [invalidateBlocks_of_forall_ne hoff] at hstate'
  rcases List.mem_append.mp hx with hx | hx
  · obtain ⟨hxlt, state'', hstate'', hxfin⟩ := hdone x hx
    obtain rfl := Option.some.inj (hstate''.symm.trans hstate')
    obtain rfl := hinv.history.key hstate'
    rw [hinv.history.select_invalidateBlocks cutoff hfails [] hstate' hxfin hxlt
      (hinv.selects _ hx _ hstate' hvalid)]
    exact hinv.selects _ hx _ hstate' hvalid
  · obtain ⟨ancestors, rfl⟩ :=
      selectUnfinalizedAncestorBlocks_chain repo cutoff depth state [] chain hchain
    exact absurd (List.mem_singleton.mp hx).symm (hoff state (by simp))

theorem SweepInvariant.sweepBlock {done : List BlockIdentifier} {x : BlockIdentifier}
    (hinv : SweepInvariant height depth cutoff repo done)
    (hblocks : Unprocessed height depth repo (done ++ [x]))
    (h : sweepBlock depth cutoff repo x = .ok repo') :
    SweepInvariant height depth cutoff repo' (done ++ [x]) := by
  have hdone : Unprocessed height depth repo done := fun y hy => hblocks y (by simp [hy])
  obtain ⟨hlt, state, hstate, hfin⟩ := hblocks x (by simp)
  obtain rfl := hinv.history.key hstate
  have htotal := hinv.history.isSome_chainOf_select cutoff [] hstate hfin hlt
  simp only [Node.sweepBlock, hstate] at h
  cases hsel : selectUnfinalizedAncestorBlocks repo cutoff depth state [] with
  | ok chain =>
      rw [hsel] at h
      obtain rfl := (Except.ok.inj h).symm
      refine ⟨hinv.history, fun y hy state' hstate' hvalid => ?_⟩
      rcases List.mem_append.mp hy with hy | hy
      · exact hinv.selects y hy state' hstate' hvalid
      · rw [List.mem_singleton.mp hy, hstate] at hstate'
        rw [← Option.some.inj hstate', hsel]
        rfl
  | error e =>
      rw [hsel] at h htotal
      cases e with
      | incompleteHistory => cases htotal
      | failedToLoadBlockState => cases h
      | blockSeqNoCutoff chain | invalidatedParent chain =>
          obtain rfl := (Except.ok.inj h).symm
          exact hinv.invalidate hdone hstate hfin hlt (by rw [hsel]; rfl) (by rw [hsel]; rfl)

theorem SweepInvariant.foldlM : ∀ (blocks : List BlockIdentifier) {done : List BlockIdentifier}
    {repo repo' : Repository}, SweepInvariant height depth cutoff repo done →
    Unprocessed height depth repo (done ++ blocks) →
    blocks.foldlM (Node.sweepBlock depth cutoff) repo = .ok repo' →
    SweepInvariant height depth cutoff repo' (done ++ blocks) ∧
      Unprocessed height depth repo' (done ++ blocks)
  | [], _, _, _, hinv, hblocks, h => by
      obtain rfl := (Except.ok.inj h).symm
      simpa using And.intro hinv hblocks
  | x :: blocks, done, repo, repo', hinv, hblocks, h => by
      rw [List.foldlM_cons] at h
      cases hstep : Node.sweepBlock depth cutoff repo x with
      | error e =>
          rw [hstep] at h
          cases h
      | ok mid =>
          rw [hstep] at h
          have hblocks' : Unprocessed height depth repo ((done ++ [x]) ++ blocks) := by
            simpa using hblocks
          have hrun := SweepInvariant.foldlM blocks
            (hinv.sweepBlock (fun y hy => hblocks' y (List.mem_append_left _ hy)) hstep)
            (hblocks'.sweepBlock hstep) h
          simpa using hrun

end Sweep

/-- Over one thread whose history below its unprocessed blocks is complete, every block that
the sweep keeps selects its chain down to a finalized block on the repository that the sweep
leaves, whatever the order of the blocks. -/
theorem sweepThread_kept_select_ok (height : BlockIdentifier → Nat) (depth : Nat)
    (cutoff : BlockSeqNo) (repo : Repository) (blocks : List BlockIdentifier)
    (hhistory : CompleteHistory height repo) (hblocks : Unprocessed height depth repo blocks)
    {repo' : Repository} {kept : List BlockIdentifier}
    (h : sweepThread depth cutoff repo blocks = .ok (repo', kept)) :
    ∀ x ∈ kept, ∃ state chain, repo' x = some state ∧
      selectUnfinalizedAncestorBlocks repo' cutoff depth state [] = .ok chain := by
  cases hfold : blocks.foldlM (sweepBlock depth cutoff) repo with
  | error e =>
      simp only [sweepThread, hfold] at h
      cases h
  | ok final =>
      simp only [sweepThread, hfold] at h
      obtain ⟨rfl, rfl⟩ := Prod.mk.inj (Except.ok.inj h)
      have hstart : SweepInvariant height depth cutoff repo [] :=
        ⟨hhistory, fun _ hx => absurd hx (List.not_mem_nil _)⟩
      obtain ⟨hinv, hfinal⟩ := SweepInvariant.foldlM blocks hstart hblocks hfold
      intro x hx
      obtain ⟨hmem, hvalid⟩ := List.mem_filter.mp hx
      obtain ⟨-, state, hstate, -⟩ := hfinal x hmem
      have hok := hinv.selects x hmem state hstate
        (by simpa [Repository.invalidated, hstate] using hvalid)
      cases hsel : selectUnfinalizedAncestorBlocks final cutoff depth state [] with
      | ok chain => exact ⟨state, chain, hstate, hsel⟩
      | error e =>
          rw [hsel] at hok
          cases hok

/-- A finalized root `0`, an invalidated block `1` on it, block `2` on `1` and block `3` on the
root. The sweep over `3` then `2` keeps `3`, invalidates `2`, and `3` still selects its chain. -/
theorem sweepThread_kept_select_ok_fork :
    let root := { BlockState.new (.ofByte 0) with isFinalized := true, blockSeqNo := some 0 }
    let block (blockIdentifier parent : UInt8) (blockSeqNo : BlockSeqNo) : BlockState :=
      { BlockState.new (.ofByte blockIdentifier) with
        parentBlockIdentifier := some (.ofByte parent), blockSeqNo := some blockSeqNo }
    let repo := Repository.ofList
      [root, { block 1 0 1 with isInvalidated := true }, block 2 1 2, block 3 0 1]
    let height (x : BlockIdentifier) : Nat := (x.bytes.headD 0).toNat
    CompleteHistory height repo ∧ Unprocessed height 4 repo [.ofByte 3, .ofByte 2] ∧
      ∃ repo' kept, sweepThread 4 0 repo [.ofByte 3, .ofByte 2] = .ok (repo', kept) ∧
        kept = [.ofByte 3] ∧
        ∀ x ∈ kept, ∃ state chain, repo' x = some state ∧
          selectUnfinalizedAncestorBlocks repo' 0 4 state [] = .ok chain := by
  intro root block repo height
  have hhistory : CompleteHistory height repo := by
    refine ⟨fun hx => (Repository.ofList_eq_some hx).1, fun hx hfin => ?_,
      fun hx hfin => ?_⟩ <;>
    · obtain ⟨rfl, hmem⟩ := Repository.ofList_eq_some hx
      rcases List.mem_cons.mp hmem with rfl | hmem
      · cases hfin
      · simp only [List.mem_cons, List.mem_singleton, List.not_mem_nil, or_false] at hmem
        rcases hmem with rfl | rfl | rfl <;> first | rfl | exact ⟨_, rfl, rfl, by decide⟩
  have hblocks : Unprocessed height 4 repo [.ofByte 3, .ofByte 2] := by
    simp only [Unprocessed, List.mem_cons, List.mem_singleton, List.not_mem_nil, or_false]
    rintro x (rfl | rfl)
    · exact ⟨by decide, _, rfl, rfl⟩
    · exact ⟨by decide, _, rfl, rfl⟩
  exact ⟨hhistory, hblocks, _, _, rfl, by decide,
    sweepThread_kept_select_ok height 4 0 repo _ hhistory hblocks rfl⟩

end AckiNacki.Node
