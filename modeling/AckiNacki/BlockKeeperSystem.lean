import AckiNacki.Types
import Mathlib.Data.List.Sort
import Mathlib.Logic.Function.Basic

/-!
The block keeper sets of one thread (`node/block_keeper_system.rs`): a `BTreeMap` from the seq
number at which a set takes effect to the set. `update_block_keeper_set_from_common_section`
derives the set of a block from the last entry of the map and files it under the block's seq
number; `get_block_keeper_set` reads the entry with the greatest seq number not above the one it
is asked for. The map of threads around the history is left out, and the block keeper data are a
type parameter: the two functions only carry them.
-/

namespace AckiNacki.BlockKeeperSystem

variable {K : Type}

abbrev BlockKeeperSet (K : Type) := SignerIndex → Option K

inductive BlockKeeperSetChange (K : Type)
  | blockKeeperAdded (signerIndex : SignerIndex) (data : K)
  | blockKeeperRemoved (signerIndex : SignerIndex) (data : K)

/-- What `update_block_keeper_set_from_common_section` reads of a block: its seq number and the
`block_keeper_set_changes` of its common section. -/
structure Block (K : Type) where
  seqNo : Nat
  blockKeeperSetChanges : List (BlockKeeperSetChange K)

/-- `BTreeMap<BlockSeqNo, BlockKeeperSet>`, as its entries in increasing seq number. -/
abbrev BlockKeeperSets (K : Type) := List (Nat × BlockKeeperSet K)

def insertEntry (seqNo : Nat) (set : BlockKeeperSet K) : BlockKeeperSets K → BlockKeeperSets K
  | [] => [(seqNo, set)]
  | (key, value) :: rest =>
      if seqNo < key then (seqNo, set) :: (key, value) :: rest
      else if seqNo = key then (seqNo, set) :: rest
      else (key, value) :: insertEntry seqNo set rest

/-- The two loops over the changes of a block: every removal first, then every addition. -/
def applyChanges (set : BlockKeeperSet K) (changes : List (BlockKeeperSetChange K)) :
    BlockKeeperSet K :=
  let removed := changes.foldl (fun set change =>
    match change with
    | .blockKeeperRemoved signerIndex _ => Function.update set signerIndex none
    | .blockKeeperAdded _ _ => set) set
  changes.foldl (fun set change =>
    match change with
    | .blockKeeperAdded signerIndex data => Function.update set signerIndex (some data)
    | .blockKeeperRemoved _ _ => set) removed

/-- `update_block_keeper_set_from_common_section`; `none` where `last_key_value().expect`
panics. -/
def updateBlockKeeperSetFromCommonSection (sets : BlockKeeperSets K) (block : Block K) :
    Option (BlockKeeperSets K) :=
  if block.blockKeeperSetChanges.isEmpty then some sets
  else sets.getLast?.map fun last =>
    insertEntry block.seqNo (applyChanges last.2 block.blockKeeperSetChanges) sets

/-- `get_block_keeper_set`: the set under the greatest seq number not above `seqNo`; `none` where
the source panics. -/
def getBlockKeeperSet (sets : BlockKeeperSets K) (seqNo : Nat) : Option (BlockKeeperSet K) :=
  (sets.reverse.find? fun entry => entry.1 ≤ seqNo).map Prod.snd

def applyBlocks (sets : BlockKeeperSets K) : List (Block K) → Option (BlockKeeperSets K)
  | [] => some sets
  | block :: rest => (updateBlockKeeperSetFromCommonSection sets block).bind (applyBlocks · rest)

def foldChanges (initial : BlockKeeperSet K) (blocks : List (Block K)) : BlockKeeperSet K :=
  blocks.foldl (fun set block => applyChanges set block.blockKeeperSetChanges) initial

/-- The set that the history should give at `seqNo`: `initial` with the changes of the blocks up
to `seqNo` applied in seq number order. -/
def expectedBlockKeeperSet (initial : BlockKeeperSet K) (blocks : List (Block K)) (seqNo : Nat) :
    BlockKeeperSet K :=
  foldChanges initial (((blocks.insertionSort fun a b => a.seqNo ≤ b.seqNo)).filter
    fun block => block.seqNo ≤ seqNo)

/-- A block at seq number `10` adds signer `0`, then a block at seq number `5` adds signer `1`:
the second set is derived from the set of block `10`, so at seq number `7` signer `0` is in,
which seq number order would not give. -/
theorem getBlockKeeperSet_out_of_order :
    let blocks : List (Block Nat) :=
      [⟨10, [.blockKeeperAdded 0 0]⟩, ⟨5, [.blockKeeperAdded 1 1]⟩]
    ((applyBlocks [(0, fun _ => none)] blocks).bind (getBlockKeeperSet · 7)).map (· 0) =
        some (some 0) ∧
      expectedBlockKeeperSet (fun _ => none) blocks 7 0 = none := by
  decide

/-! ### Blocks applied in seq number order -/

theorem insertEntry_of_lt {seqNo : Nat} {set : BlockKeeperSet K} :
    ∀ {sets : BlockKeeperSets K}, (∀ entry ∈ sets, entry.1 < seqNo) →
      insertEntry seqNo set sets = sets ++ [(seqNo, set)]
  | [], _ => rfl
  | (key, value) :: rest, hlt => by
      have hkey := hlt (key, value) (List.mem_cons_self _ _)
      simp only [insertEntry, if_neg (Nat.lt_asymm hkey), if_neg (Nat.ne_of_gt hkey),
        List.cons_append, insertEntry_of_lt fun entry h => hlt entry (List.mem_cons_of_mem _ h)]

theorem getBlockKeeperSet_append (sets : BlockKeeperSets K) (key seqNo : Nat)
    (set : BlockKeeperSet K) : getBlockKeeperSet (sets ++ [(key, set)]) seqNo =
      if key ≤ seqNo then some set else getBlockKeeperSet sets seqNo := by
  by_cases h : key ≤ seqNo <;> simp [getBlockKeeperSet, h]

@[simp] theorem foldChanges_append (initial : BlockKeeperSet K) (blocks : List (Block K))
    (block : Block K) : foldChanges initial (blocks ++ [block]) =
      applyChanges (foldChanges initial blocks) block.blockKeeperSetChanges := by
  simp [foldChanges]

/-- The history after the blocks `applied`, all at seq numbers up to `top`, applied in seq number
order after the initial set at `initialSeqNo`. -/
structure Tracks (initialSeqNo : Nat) (initial : BlockKeeperSet K) (applied : List (Block K))
    (top : Nat) (sets : BlockKeeperSets K) : Prop where
  last : ∃ key, sets.getLast? = some (key, foldChanges initial applied)
  bounded : ∀ entry ∈ sets, entry.1 ≤ top
  applied_le : ∀ block ∈ applied, block.seqNo ≤ top
  get : ∀ seqNo, initialSeqNo ≤ seqNo →
    getBlockKeeperSet sets seqNo = some (foldChanges initial (applied.filter (·.seqNo ≤ seqNo)))

theorem tracks_initial (initialSeqNo : Nat) (initial : BlockKeeperSet K) :
    Tracks initialSeqNo initial [] initialSeqNo [(initialSeqNo, initial)] :=
  ⟨⟨initialSeqNo, rfl⟩, by simp, by simp,
    fun seqNo h => by simp [getBlockKeeperSet, h, foldChanges]⟩

/-- Applying a block above every seq number so far files its set last, derived from the set of
every block before it. -/
theorem Tracks.update {initialSeqNo top : Nat} {initial : BlockKeeperSet K}
    {applied : List (Block K)} {sets : BlockKeeperSets K}
    (h : Tracks initialSeqNo initial applied top sets) {block : Block K}
    (habove : top < block.seqNo) :
    ∃ sets', updateBlockKeeperSetFromCommonSection sets block = some sets' ∧
      Tracks initialSeqNo initial (applied ++ [block]) block.seqNo sets' := by
  obtain ⟨key, hlast⟩ := h.last
  have hfilter : ∀ seqNo, block.seqNo ≤ seqNo →
      applied.filter (·.seqNo ≤ seqNo) = applied := fun seqNo hle =>
    List.filter_eq_self.mpr fun b hb => by simpa using (h.applied_le b hb).trans (by omega)
  have happlied : ∀ b ∈ applied ++ [block], b.seqNo ≤ block.seqNo := by
    intro b hb
    rcases List.mem_append.mp hb with hb | hb
    · exact (h.applied_le b hb).trans habove.le
    · rw [List.mem_singleton.mp hb]
  by_cases hempty : block.blockKeeperSetChanges.isEmpty
  · have hnil : block.blockKeeperSetChanges = [] := List.isEmpty_iff.mp hempty
    refine ⟨sets, by simp [updateBlockKeeperSetFromCommonSection, hempty], ⟨key, ?_⟩,
      fun entry he => (h.bounded entry he).trans habove.le, happlied, fun seqNo hseqNo => ?_⟩
    · simp [hlast, hnil, applyChanges]
    · rw [h.get seqNo hseqNo, List.filter_append]
      by_cases hle : block.seqNo ≤ seqNo <;> simp [hle, hnil, applyChanges]
  · refine ⟨sets ++ [(block.seqNo, applyChanges (foldChanges initial applied)
      block.blockKeeperSetChanges)], ?_, ⟨block.seqNo, by simp⟩, ?_, happlied, ?_⟩
    · simp [updateBlockKeeperSetFromCommonSection, hempty, hlast,
        insertEntry_of_lt fun entry he => lt_of_le_of_lt (h.bounded entry he) habove]
    · intro entry he
      rcases List.mem_append.mp he with he | he
      · exact (h.bounded entry he).trans habove.le
      · rw [List.mem_singleton.mp he]
    · intro seqNo hseqNo
      rw [getBlockKeeperSet_append, List.filter_append]
      by_cases hle : block.seqNo ≤ seqNo
      · simp [hle, hfilter seqNo hle]
      · simp [hle, h.get seqNo hseqNo]

theorem tracks_applyBlocks {initialSeqNo : Nat} {initial : BlockKeeperSet K} :
    ∀ (blocks applied : List (Block K)) (top : Nat) (sets : BlockKeeperSets K),
      Tracks initialSeqNo initial applied top sets →
      List.Chain (· < ·) top (blocks.map Block.seqNo) →
      ∃ sets' top', applyBlocks sets blocks = some sets' ∧
        Tracks initialSeqNo initial (applied ++ blocks) top' sets'
  | [], applied, top, sets, h, _ => ⟨sets, top, rfl, by simpa using h⟩
  | block :: rest, applied, top, sets, h, hchain => by
      rw [List.map_cons, List.chain_cons] at hchain
      obtain ⟨sets', hupdate, h'⟩ := h.update hchain.1
      obtain ⟨sets'', top'', happly, h''⟩ :=
        tracks_applyBlocks rest (applied ++ [block]) block.seqNo sets' h' hchain.2
      exact ⟨sets'', top'', by simp [applyBlocks, hupdate, happly], by simpa using h''⟩

/-- Applied in increasing seq number order, above the initial seq number, the blocks leave a
history that gives at every seq number from the initial one the initial set with the changes of
the blocks up to it applied in seq number order. -/
theorem getBlockKeeperSet_in_order (initialSeqNo : Nat) (initial : BlockKeeperSet K)
    (blocks : List (Block K))
    (hincreasing : List.Chain (· < ·) initialSeqNo (blocks.map Block.seqNo)) :
    ∃ sets, applyBlocks [(initialSeqNo, initial)] blocks = some sets ∧
      ∀ seqNo, initialSeqNo ≤ seqNo →
        getBlockKeeperSet sets seqNo = some (expectedBlockKeeperSet initial blocks seqNo) := by
  obtain ⟨sets, top, happly, htracks⟩ :=
    tracks_applyBlocks blocks [] initialSeqNo _ (tracks_initial initialSeqNo initial) hincreasing
  have hsorted : blocks.Sorted fun a b => a.seqNo ≤ b.seqNo := by
    have hpairwise := (List.chain_iff_pairwise.mp hincreasing).of_cons
    exact (List.pairwise_map.mp hpairwise).imp le_of_lt
  refine ⟨sets, happly, fun seqNo hseqNo => ?_⟩
  rw [expectedBlockKeeperSet, hsorted.insertionSort_eq]
  simpa using htracks.get seqNo hseqNo

/-- The two blocks above applied in seq number order. -/
theorem getBlockKeeperSet_in_order_five_ten :
    let blocks : List (Block Nat) :=
      [⟨5, [.blockKeeperAdded 1 1]⟩, ⟨10, [.blockKeeperAdded 0 0]⟩]
    List.Chain (· < ·) 0 (blocks.map Block.seqNo) ∧
      ∃ sets, applyBlocks [(0, fun _ => none)] blocks = some sets ∧
        ∀ seqNo, 0 ≤ seqNo →
          getBlockKeeperSet sets seqNo =
            some (expectedBlockKeeperSet (fun _ => none) blocks seqNo) :=
  have hincreasing : List.Chain (· < ·) 0 [5, 10] := .cons (by decide) (.cons (by decide) .nil)
  ⟨hincreasing, getBlockKeeperSet_in_order 0 (fun _ => none) _ hincreasing⟩

end AckiNacki.BlockKeeperSystem
