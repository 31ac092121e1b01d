import AckiNacki.BlockKeeperSystem
import Mathlib.Algebra.Order.BigOperators.Group.List
import Mathlib.Algebra.Order.Ring.Nat

/-!
The epochs of the block keepers. `decode_epoch_data` (`block_keeper_system/epoch.rs`) reads a
block keeper's data from the storage fields of its epoch contract, and
`check_and_touch_block_keeper_epochs` (`node/block_keeper_system.rs`) touches the keepers of the
current set whose epoch has finished: an active keeper is sent a touch message, given five more
seconds and marked as called to finish; a keeper called to finish is touched once more and marked
as expired; an expired keeper is left alone.

The ABI decoding of the storage fields is not among the sources: the decoded fields are a list
of named tokens. `send_epoch_message` hands the keeper's data to the producer, which builds the
message later, in `execute_epoch_messages`, with `create_epoch_touch_message` (`epoch.rs`); so a
touch message sent here is that data. The timestamps are `u32`; `now` is the clock as
`timestamp() as u32`, and the five seconds are added as a release build does, modulo `2^32`.
-/

namespace AckiNacki.BlockKeeperSystem

inductive BlockKeeperStatus
  | active
  | calledToFinish
  | expired
  deriving DecidableEq

structure BlockKeeperData where
  index : SignerIndex
  pubkey : List UInt8
  epochFinishTimestamp : Nat
  status : BlockKeeperStatus
  address : String
  stake : Nat
  deriving DecidableEq

/-! ### Touching the epochs of the current set -/

def epochTouchRetryTimeDelta : Nat := 5

/-- The body of the loop over `values_mut()`: the keeper's data after the check, and the data of
the touch message sent for it, if any. -/
def touchBlockKeeper (now : Nat) (data : BlockKeeperData) :
    BlockKeeperData × Option BlockKeeperData :=
  if data.epochFinishTimestamp < now then
    match data.status with
    | .active =>
        ({ data with
          epochFinishTimestamp := (data.epochFinishTimestamp + epochTouchRetryTimeDelta) % 2 ^ 32
          status := .calledToFinish }, some data)
    | .calledToFinish => ({ data with status := .expired }, some data)
    | .expired => (data, none)
  else (data, none)

/-- `check_and_touch_block_keeper_epochs` on the block keeper sets of the thread: the sets with
their last entry touched, and the touch message sent for each signer of it; `none` where
`last_entry().expect` panics. -/
def checkAndTouchBlockKeeperEpochs (now : Nat) (sets : BlockKeeperSets BlockKeeperData) :
    Option (BlockKeeperSets BlockKeeperData × (SignerIndex → Option BlockKeeperData)) :=
  sets.getLast?.map fun (seqNo, set) =>
    (sets.dropLast ++
        [(seqNo, fun signer => (set signer).map fun data => (touchBlockKeeper now data).1)],
      fun signer => (set signer).bind fun data => (touchBlockKeeper now data).2)

inductive EpochEvent
  | checkAndTouch (now : Nat)
  | applyBlock (block : Block BlockKeeperData)

/-- The block keeper sets after the events, and the touch messages of each check, by signer;
`none` where an `expect` panics. -/
def epochRun (sets : BlockKeeperSets BlockKeeperData) :
    List EpochEvent →
      Option (BlockKeeperSets BlockKeeperData × List (SignerIndex → Option BlockKeeperData))
  | [] => some (sets, [])
  | .checkAndTouch now :: rest =>
      (checkAndTouchBlockKeeperEpochs now sets).bind fun (touched, sent) =>
        (epochRun touched rest).map fun (final, sends) => (final, sent :: sends)
  | .applyBlock block :: rest =>
      (updateBlockKeeperSetFromCommonSection sets block).bind fun updated => epochRun updated rest

def additionOf (signer : SignerIndex) : BlockKeeperSetChange BlockKeeperData → Nat
  | .blockKeeperAdded added _ => if added = signer then 1 else 0
  | .blockKeeperRemoved _ _ => 0

def additions (signer : SignerIndex) : List EpochEvent → Nat
  | [] => 0
  | .checkAndTouch _ :: rest => additions signer rest
  | .applyBlock block :: rest =>
      (block.blockKeeperSetChanges.map (additionOf signer)).sum + additions signer rest

def touchesOf (signer : SignerIndex) (sends : List (SignerIndex → Option BlockKeeperData)) :
    Nat :=
  sends.countP fun sent => (sent signer).isSome

/-- How many more touch messages a keeper can be sent before it is expired. -/
def statusBudget : BlockKeeperStatus → Nat
  | .active => 2
  | .calledToFinish => 1
  | .expired => 0

def budget (entry : Option BlockKeeperData) : Nat :=
  (entry.map fun data => statusBudget data.status).getD 0

def lastEntry (sets : BlockKeeperSets BlockKeeperData) (signer : SignerIndex) :
    Option BlockKeeperData :=
  sets.getLast?.bind fun entry => entry.2 signer

theorem budget_le_two (entry : Option BlockKeeperData) : budget entry ≤ 2 := by
  rcases entry with _ | ⟨_, _, _, _ | _ | _, _, _⟩ <;> simp [budget, statusBudget]

/-- A check spends one unit of a keeper's budget for each touch message it sends it. -/
theorem budget_touchBlockKeeper (now : Nat) (entry : Option BlockKeeperData) :
    budget (entry.map fun data => (touchBlockKeeper now data).1) +
        ((entry.bind fun data => (touchBlockKeeper now data).2).isSome).toNat = budget entry := by
  rcases entry with _ | ⟨_, _, finish, _ | _ | _, _, _⟩
  · rfl
  all_goals
    by_cases hfinished : finish < now <;>
      simp only [Option.map_some', Option.some_bind, touchBlockKeeper, hfinished, if_true,
        if_false] <;> rfl

theorem lastEntry_checkAndTouch {now : Nat} {sets touched : BlockKeeperSets BlockKeeperData}
    {sent : SignerIndex → Option BlockKeeperData}
    (h : checkAndTouchBlockKeeperEpochs now sets = some (touched, sent)) (signer : SignerIndex) :
    lastEntry touched signer = (lastEntry sets signer).map (touchBlockKeeper now · |>.1) ∧
      sent signer = (lastEntry sets signer).bind (touchBlockKeeper now · |>.2) := by
  rcases hlast : sets.getLast? with _ | ⟨seqNo, set⟩
  · simp [checkAndTouchBlockKeeperEpochs, hlast] at h
  · simp only [checkAndTouchBlockKeeperEpochs, hlast, Option.map_some', Option.some.injEq,
      Prod.mk.injEq] at h
    obtain ⟨rfl, rfl⟩ := h
    simp [lastEntry, hlast]

theorem budget_foldl_le (signer : SignerIndex)
    (f : BlockKeeperSet BlockKeeperData → BlockKeeperSetChange BlockKeeperData →
      BlockKeeperSet BlockKeeperData) (weight : BlockKeeperSetChange BlockKeeperData → Nat)
    (hf : ∀ set change,
      budget (f set change signer) ≤ budget (set signer) + 2 * weight change) :
    ∀ (changes : List (BlockKeeperSetChange BlockKeeperData)) set,
      budget (changes.foldl f set signer) ≤ budget (set signer) + 2 * (changes.map weight).sum
  | [], _ => by simp
  | change :: rest, set => by
      have := budget_foldl_le signer f weight hf rest (f set change)
      have := hf set change
      simp only [List.foldl_cons, List.map_cons, List.sum_cons]
      omega

/-- The removals only take keepers out; each addition gives a keeper at most a fresh budget. -/
theorem budget_applyChanges (set : BlockKeeperSet BlockKeeperData)
    (changes : List (BlockKeeperSetChange BlockKeeperData)) (signer : SignerIndex) :
    budget (applyChanges set changes signer) ≤
      budget (set signer) + 2 * (changes.map (additionOf signer)).sum := by
  unfold applyChanges
  refine (budget_foldl_le signer _ (additionOf signer) ?_ changes _).trans
    ((Nat.add_le_add_right (budget_foldl_le signer _ (fun _ => 0) ?_ changes set) _).trans ?_)
  · intro set change
    cases change with
    | blockKeeperRemoved => simp [additionOf]
    | blockKeeperAdded added data =>
        by_cases h : signer = added
        · subst h
          simpa [additionOf] using (budget_le_two _).trans (Nat.le_add_left _ _)
        · simp [additionOf, Function.update_noteq h, Ne.symm h]
  · intro set change
    cases change with
    | blockKeeperAdded => simp
    | blockKeeperRemoved removed _ =>
        by_cases h : signer = removed
        · subst h
          simp [budget]
        · simp [Function.update_noteq h]
  · simp

theorem getLast?_insertEntry {K : Type} (seqNo : Nat) (set : BlockKeeperSet K) :
    ∀ sets : BlockKeeperSets K, (insertEntry seqNo set sets).getLast? = some (seqNo, set) ∨
      (insertEntry seqNo set sets).getLast? = sets.getLast?
  | [] => .inl rfl
  | (key, value) :: rest => by
      simp only [insertEntry]
      split_ifs
      · exact .inr (by simp [List.getLast?_cons_cons])
      · cases rest with
        | nil => exact .inl rfl
        | cons => exact .inr (by simp [List.getLast?_cons_cons])
      · rcases getLast?_insertEntry seqNo set rest with h | h <;> simp [List.getLast?_cons, h]

/-- Applying a block gives each keeper of the current set at most a fresh budget per addition. -/
theorem budget_lastEntry_update {sets updated : BlockKeeperSets BlockKeeperData}
    {block : Block BlockKeeperData}
    (h : updateBlockKeeperSetFromCommonSection sets block = some updated) (signer : SignerIndex) :
    budget (lastEntry updated signer) ≤ budget (lastEntry sets signer) +
      2 * (block.blockKeeperSetChanges.map (additionOf signer)).sum := by
  unfold updateBlockKeeperSetFromCommonSection at h
  split_ifs at h
  · cases h
    exact Nat.le_add_right _ _
  rcases hlast : sets.getLast? with _ | ⟨seqNo, set⟩
  · simp [hlast] at h
  simp only [hlast, Option.map_some', Option.some.injEq] at h
  subst h
  rcases getLast?_insertEntry block.seqNo (applyChanges set block.blockKeeperSetChanges) sets with
    hnew | hold
  · simpa [lastEntry, hnew, hlast] using budget_applyChanges set block.blockKeeperSetChanges signer
  · simp [lastEntry, hold, hlast]

/-- Over a run, the touches sent to a keeper and the budget it has left stay within the budget it
started with and a fresh budget per addition. -/
theorem touchesOf_add_budget_le :
    ∀ (events : List EpochEvent) (sets final : BlockKeeperSets BlockKeeperData)
      (sends : List (SignerIndex → Option BlockKeeperData)) (signer : SignerIndex),
      epochRun sets events = some (final, sends) →
      touchesOf signer sends + budget (lastEntry final signer) ≤
        budget (lastEntry sets signer) + 2 * additions signer events
  | [], sets, final, sends, signer, h => by
      simp only [epochRun, Option.some.injEq, Prod.mk.injEq] at h
      obtain ⟨rfl, rfl⟩ := h
      simp [touchesOf]
  | .checkAndTouch now :: rest, sets, final, sends, signer, h => by
      obtain ⟨⟨touched, sent⟩, hcheck, hrest⟩ := Option.bind_eq_some.mp h
      obtain ⟨⟨final', sends'⟩, hrun, heq⟩ := Option.map_eq_some'.mp hrest
      obtain ⟨rfl, rfl⟩ := Prod.mk.inj heq
      have ih := touchesOf_add_budget_le rest touched final' sends' signer hrun
      obtain ⟨htouched, hsent⟩ := lastEntry_checkAndTouch hcheck signer
      have hspent := budget_touchBlockKeeper now (lastEntry sets signer)
      rw [← htouched, ← hsent] at hspent
      have hcount : touchesOf signer (sent :: sends') =
          touchesOf signer sends' + (sent signer).isSome.toNat := by
        cases hsome : (sent signer).isSome <;> simp [touchesOf, List.countP_cons, hsome]
      rw [hcount, additions]
      omega
  | .applyBlock block :: rest, sets, final, sends, signer, h => by
      obtain ⟨updated, hupdate, h⟩ := Option.bind_eq_some.mp h
      have ih := touchesOf_add_budget_le rest updated final sends signer h
      have hblock := budget_lastEntry_update hupdate signer
      simp only [additions]
      omega

/-- Whatever the order of the checks and of the blocks that change the set, and whatever the
clock reads at each check, a block keeper is sent at most two epoch touch messages, and two more
for each time a block adds it to the set again. -/
theorem epochRun_touches_le (sets : BlockKeeperSets BlockKeeperData) (events : List EpochEvent)
    {final : BlockKeeperSets BlockKeeperData}
    {sends : List (SignerIndex → Option BlockKeeperData)}
    (h : epochRun sets events = some (final, sends)) (signer : SignerIndex) :
    touchesOf signer sends ≤ 2 * (1 + additions signer events) := by
  have := touchesOf_add_budget_le events sets final sends signer h
  have := budget_le_two (lastEntry sets signer)
  omega

/-- Signer `0`, active with its epoch finished at `10`: checked at `20`, `30` and `40`, added again
by block `1`, and checked at `50`. -/
theorem epochRun_touches_le_readded :
    let data : BlockKeeperData := ⟨0, [], 10, .active, "0:00", 1⟩
    let sets : BlockKeeperSets BlockKeeperData :=
      [(0, fun signer => if signer = 0 then some data else none)]
    let events : List EpochEvent := [.checkAndTouch 20, .checkAndTouch 30, .checkAndTouch 40,
      .applyBlock ⟨1, [.blockKeeperAdded 0 data]⟩, .checkAndTouch 50]
    ∃ final sends, epochRun sets events = some (final, sends) ∧
      touchesOf 0 sends ≤ 2 * (1 + additions 0 events) := by
  intro data sets events
  exact ⟨_, _, rfl, epochRun_touches_le sets events rfl 0⟩

/-! ### Decoding the epoch contract's storage -/

inductive TokenValue
  | bytes (value : List UInt8)
  | uint (number : Nat)
  | other
  deriving DecidableEq

structure Token where
  name : String
  value : TokenValue
  deriving DecidableEq

def blsPubkeyTokenKey : String := "_bls_pubkey"
def walletIdTokenKey : String := "_walletId"
def epochFinishTokenKey : String := "_unixtimeFinish"
def stakeKey : String := "_stake"

/-- The three steps of the decoding that can fail, each with its error's text. -/
inductive EpochDecodeError
  | abi (error : String)
  | cell (error : String)
  | storage (error : String)
  deriving DecidableEq

def EpochDecodeError.message : EpochDecodeError → String
  | .abi error => "Failed to load epoch ABI: " ++ error
  | .cell error => "Failed to decode epoch data cell: " ++ error
  | .storage error => "Failed to decode epoch storage: " ++ error

structure EpochFields where
  blockKeeperBlsKey : Option (List UInt8)
  blockKeeperWalletId : Option SignerIndex
  blockKeeperEpochFinish : Option Nat
  blockKeeperStake : Option Nat
  deriving DecidableEq

/-- The body of the loop over the decoded fields: a field of one of the four names sets its
variable when its value has the expected kind. The wallet id is the low `u64` digit cast to `u16`,
the epoch finish the low `u32` digit. -/
def readEpochToken (fields : EpochFields) (token : Token) : EpochFields :=
  if token.name = blsPubkeyTokenKey then
    match token.value with
    | .bytes pubkey => { fields with blockKeeperBlsKey := some pubkey }
    | _ => fields
  else if token.name = walletIdTokenKey then
    match token.value with
    | .uint walletId => { fields with
        blockKeeperWalletId := some (if walletId = 0 then 0 else UInt16.ofNat (walletId % 2 ^ 64)) }
    | _ => fields
  else if token.name = epochFinishTokenKey then
    match token.value with
    | .uint epochFinish => { fields with
        blockKeeperEpochFinish := some (if epochFinish = 0 then 0 else epochFinish % 2 ^ 32) }
    | _ => fields
  else if token.name = stakeKey then
    match token.value with
    | .uint stake => { fields with blockKeeperStake := some (if stake = 0 then 0 else stake) }
    | _ => fields
  else fields

/-- `decode_epoch_data` on an account whose data, if it has any, decodes to `decoded`: the storage
fields, or the first step that failed. `address` is the account's address. -/
def decodeEpochData (decoded : Option (Except EpochDecodeError (List Token))) (address : String) :
    Except String (Option (SignerIndex × BlockKeeperData)) :=
  match decoded with
  | none => .ok none
  | some (.error error) => .error error.message
  | some (.ok tokens) =>
      match tokens.foldl readEpochToken ⟨none, none, none, none⟩ with
      | ⟨some pubkey, some index, some epochFinish, some stake⟩ =>
          .ok (some (index, ⟨index, pubkey, epochFinish, .active, address, stake⟩))
      | _ => .ok none

def TokenValue.bytes? : TokenValue → Option (List UInt8)
  | .bytes value => some value
  | _ => none

def TokenValue.uint? : TokenValue → Option Nat
  | .uint number => some number
  | _ => none

def lastField {V : Type} (read : TokenValue → Option V) (name : String) (tokens : List Token) :
    Option V :=
  tokens.reverse.findSome? fun token => if token.name = name then read token.value else none

/-- What the decoding of the fields is for: the keeper built from the last field of each name
whose value has the expected kind, indexed by its wallet id taken modulo `2^16`, its epoch finish
taken modulo `2^32`. -/
def epochKeeperOfFields (tokens : List Token) (address : String) :
    Option (SignerIndex × BlockKeeperData) := do
  let pubkey ← lastField TokenValue.bytes? blsPubkeyTokenKey tokens
  let walletId ← lastField TokenValue.uint? walletIdTokenKey tokens
  let epochFinish ← lastField TokenValue.uint? epochFinishTokenKey tokens
  let stake ← lastField TokenValue.uint? stakeKey tokens
  pure (UInt16.ofNat walletId,
    ⟨UInt16.ofNat walletId, pubkey, epochFinish % 2 ^ 32, .active, address, stake⟩)

@[simp] theorem lastField_nil {V : Type} (read : TokenValue → Option V) (name : String) :
    lastField read name [] = none := rfl

@[simp] theorem lastField_concat {V : Type} (read : TokenValue → Option V) (name : String)
    (tokens : List Token) (token : Token) :
    lastField read name (tokens ++ [token]) =
      (if token.name = name then read token.value else none).or (lastField read name tokens) := by
  simp only [lastField, List.reverse_append, List.reverse_singleton, List.singleton_append,
    List.findSome?_cons]
  split <;> simp_all

def lastFields (tokens : List Token) : EpochFields :=
  ⟨lastField TokenValue.bytes? blsPubkeyTokenKey tokens,
    (lastField TokenValue.uint? walletIdTokenKey tokens).map
      fun walletId => if walletId = 0 then 0 else UInt16.ofNat (walletId % 2 ^ 64),
    (lastField TokenValue.uint? epochFinishTokenKey tokens).map
      fun epochFinish => if epochFinish = 0 then 0 else epochFinish % 2 ^ 32,
    (lastField TokenValue.uint? stakeKey tokens).map fun stake => if stake = 0 then 0 else stake⟩

theorem readEpochToken_lastFields (tokens : List Token) (token : Token) :
    readEpochToken (lastFields tokens) token = lastFields (tokens ++ [token]) := by
  obtain ⟨name, value⟩ := token
  simp only [readEpochToken, lastFields, lastField_concat]
  by_cases hbls : name = blsPubkeyTokenKey
  · subst hbls
    cases value <;> rfl
  by_cases hwallet : name = walletIdTokenKey
  · subst hwallet
    cases value <;> rfl
  by_cases hfinish : name = epochFinishTokenKey
  · subst hfinish
    cases value <;> rfl
  by_cases hstake : name = stakeKey
  · subst hstake
    cases value <;> rfl
  simp only [hbls, hwallet, hfinish, hstake, if_false, Option.none_or]

theorem foldl_readEpochToken (tokens : List Token) :
    tokens.foldl readEpochToken ⟨none, none, none, none⟩ = lastFields tokens := by
  induction tokens using List.reverseRecOn with
  | nil => rfl
  | append_singleton tokens token ih =>
      rw [List.foldl_append, ih, List.foldl_cons, List.foldl_nil, readEpochToken_lastFields]

theorem walletId_cast_eq (walletId : Nat) :
    (if walletId = 0 then 0 else UInt16.ofNat (walletId % 2 ^ 64)) = UInt16.ofNat walletId := by
  split
  · subst_vars; rfl
  · exact UInt16.eq_of_val_eq
      (Fin.ext (Nat.mod_mod_of_dvd walletId (by decide : 2 ^ 16 ∣ 2 ^ 64)))

/-- The loop over the storage fields computes `epochKeeperOfFields`: whatever the order of the
fields, their repetitions and the fields of other names or kinds, the keeper is built from the last
field of each of the four names with a value of the expected kind, and there is a keeper exactly
when each name has one. -/
theorem decodeEpochData_eq_epochKeeperOfFields (tokens : List Token) (address : String) :
    decodeEpochData (some (.ok tokens)) address = .ok (epochKeeperOfFields tokens address) := by
  simp only [decodeEpochData, foldl_readEpochToken, lastFields, epochKeeperOfFields,
    walletId_cast_eq]
  cases lastField TokenValue.bytes? blsPubkeyTokenKey tokens <;>
  cases lastField TokenValue.uint? walletIdTokenKey tokens <;>
  cases lastField TokenValue.uint? epochFinishTokenKey tokens <;>
  cases lastField TokenValue.uint? stakeKey tokens <;> try rfl
  simp only [Option.map_some']
  split_ifs <;> subst_vars <;> rfl

end AckiNacki.BlockKeeperSystem
