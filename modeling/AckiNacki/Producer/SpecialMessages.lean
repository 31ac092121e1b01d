import Mathlib.Data.Finset.Basic

/-!
The dispatch loops of `execute_epoch_messages` and `execute_dapp_config_messages`
(`block/producer/builder/special_messages.rs`). Both fill a pool of at most
`parallelization_level` executions from the head of a queue, one per destination account, and
stop filling at the first message whose destination is busy; then they drain finished executions
from the front of the pool until one has no result yet, and loop until the queue and the pool are
empty. The two differ only in how they route the head of the queue, so both are one loop over a
routing function.

The loop is a state machine observed at the points of the source: the top of `loop`, the fill
loop, the drain loop, the exit test, and the return. What `execute`, `try_recv` and
`after_transaction` answer is up to the executor threads, so each step takes that answer as an
input and a run is a list of answers. `execute` is not among the sources; its contract in the
design notes (section 4.D of `spec.md`) has the `ThreadResult` it yields carry the `account_id`
it was called with, so an in-flight execution is its destination account. What the executions
and `after_transaction` do to the block is left out: the state records which messages were
dispatched and whose results were consumed.
-/

namespace AckiNacki.SpecialMessages

inductive Point
  | top
  | fill
  | drain
  | check
  | done
  deriving DecidableEq

/-- The loop's state: the queue, the pool `active_ext_threads` (by destination, oldest first),
`active_destinations`, and what was dispatched and consumed so far. -/
structure DispatchLoop (α A : Type) where
  point : Point
  queue : List α
  activeExtThreads : List A
  activeDestinations : Finset A
  dispatched : List (α × A)
  consumed : List A

/-- What the executor threads answer at a step: the call succeeds and `try_recv` finds a result
(`ready`), `try_recv` finds none yet (`pending`), or the call or the execution fails. -/
inductive Answer
  | ready
  | pending
  | fails
  deriving DecidableEq

inductive DispatchError (ε : Type)
  | route (error : ε)
  | execute
  | execution
  /-- The panic of `int_header().unwrap()` on a config message that is not internal. -/
  | missingIntHeader

variable {α ε A : Type} [DecidableEq A]

def start (queue : List α) : DispatchLoop α A := ⟨.top, queue, [], ∅, [], []⟩

/-- One step of the loop from the point it is at. `route` routes the head of the queue: an error,
`none` to drop it, or its destination account. -/
def step (route : α → Except ε (Option A)) (parallelizationLevel : Nat) (s : DispatchLoop α A)
    (answer : Answer) : Except (DispatchError ε) (DispatchLoop α A) :=
  match s.point with
  | .top =>
      .ok { s with
        point := if s.activeExtThreads.length < parallelizationLevel then .fill else .drain }
  | .fill =>
      match s.queue with
      | [] => .ok { s with point := .drain }
      | message :: rest =>
          if s.activeExtThreads.length = parallelizationLevel then .ok { s with point := .drain }
          else
            match route message with
            | .error error => .error (.route error)
            | .ok none => .ok { s with queue := rest }
            | .ok (some account) =>
                if account ∈ s.activeDestinations then .ok { s with point := .drain }
                else if answer = .fails then .error .execute
                else .ok { s with
                  queue := rest
                  activeExtThreads := s.activeExtThreads ++ [account]
                  activeDestinations := insert account s.activeDestinations
                  dispatched := s.dispatched ++ [(message, account)] }
  | .drain =>
      match s.activeExtThreads with
      | [] => .ok { s with point := .check }
      | account :: rest =>
          match answer with
          | .pending => .ok { s with point := .check }
          | .fails => .error .execution
          | .ready => .ok { s with
              activeExtThreads := rest
              activeDestinations := s.activeDestinations.erase account
              consumed := s.consumed ++ [account] }
  | .check =>
      .ok { s with point := if s.queue.isEmpty && s.activeExtThreads.isEmpty then .done else .top }
  | .done => .ok s

/-- The loop run on a list of answers; `.ok s` with `s.point = .done` is the return of `Ok(())`. -/
def run (route : α → Except ε (Option A)) (parallelizationLevel : Nat) (s : DispatchLoop α A) :
    List Answer → Except (DispatchError ε) (DispatchLoop α A)
  | [] => .ok s
  | answer :: rest => (step route parallelizationLevel s answer).bind
      fun s' => run route parallelizationLevel s' rest

/-- The routing of `execute_epoch_messages`: create the epoch touch message, and drop it when it
has no internal destination or one that does not belong to the thread's state. -/
def epochRoute {K M : Type} (createEpochTouchMessage : K → Except ε M)
    (intDstAccountId : M → Option A) (doesAccountBelongToTheState : A → Except ε Bool) (data : K) :
    Except ε (Option A) := do
  let message ← createEpochTouchMessage data
  match intDstAccountId message with
  | none => pure none
  | some account => do
      let belongs ← doesAccountBelongToTheState account
      pure (if belongs then some account else none)

/-- The routing of `execute_dapp_config_messages`. On a message with no internal destination the
source removes it only inside the arguments of `tracing::warn!`, so only while that level is
enabled, and here it is dropped; no message that `execute_dapp_config_messages` builds takes this
branch, since each passed `int_header().unwrap()` (`configMessages_intDstAccountId`). -/
def dappConfigRoute {M : Type} (intDstAccountId : M → Option A) (message : M) :
    Except ε (Option A) :=
  pure (intDstAccountId message)

def executeEpochMessages {K M : Type} (createEpochTouchMessage : K → Except ε M)
    (intDstAccountId : M → Option A) (doesAccountBelongToTheState : A → Except ε Bool)
    (parallelizationLevel : Nat) (epochBlockKeeperData : List K) (answers : List Answer) :
    Except (DispatchError ε) (DispatchLoop K A) :=
  run (epochRoute createEpochTouchMessage intDstAccountId doesAccountBelongToTheState)
    parallelizationLevel (start epochBlockKeeperData) answers

/-- The config messages that `execute_dapp_config_messages` builds from `dapp_minted_map`: none
for a zero amount, a dapp with no credit data or an unlimited one. `configTouchMessage` computes
the config address, creates the touch message and records it in the block, any of which may
fail; a message that is not internal then panics at `int_header().unwrap()`. The crate's
`int_dst_account_id` is the destination of that header. -/
def configMessages {D M : Type} (isUnlimit : D → Option Bool)
    (configTouchMessage : D → Nat → Except ε M) (intDstAccountId : M → Option A) :
    List (D × Nat) → Except (DispatchError ε) (List M)
  | [] => .ok []
  | (key, value) :: rest =>
      if value = 0 then configMessages isUnlimit configTouchMessage intDstAccountId rest
      else
        match isUnlimit key with
        | some false =>
            match configTouchMessage key value with
            | .error error => .error (.route error)
            | .ok message =>
                if (intDstAccountId message).isNone then .error .missingIntHeader
                else
                  (configMessages isUnlimit configTouchMessage intDstAccountId rest).map
                    (message :: ·)
        | _ => configMessages isUnlimit configTouchMessage intDstAccountId rest

def executeDappConfigMessages {D M : Type} (isUnlimit : D → Option Bool)
    (configTouchMessage : D → Nat → Except ε M) (intDstAccountId : M → Option A)
    (parallelizationLevel : Nat) (dappMintedMap : List (D × Nat)) (answers : List Answer) :
    Except (DispatchError ε) (DispatchLoop M A) :=
  (configMessages isUnlimit configTouchMessage intDstAccountId dappMintedMap).bind fun messages =>
    run (dappConfigRoute intDstAccountId) parallelizationLevel (start messages) answers

omit [DecidableEq A] in
theorem configMessages_intDstAccountId {D M : Type} {isUnlimit : D → Option Bool}
    {configTouchMessage : D → Nat → Except ε M} {intDstAccountId : M → Option A} :
    ∀ {dappMintedMap : List (D × Nat)} {messages : List M},
      configMessages isUnlimit configTouchMessage intDstAccountId dappMintedMap = .ok messages →
      ∀ message ∈ messages, (intDstAccountId message).isSome
  | [], _, h => by
      cases h
      exact fun _ hmem => nomatch hmem
  | (key, value) :: rest, messages, h => by
      simp only [configMessages] at h
      split_ifs at h
      · exact configMessages_intDstAccountId h
      · split at h
        · split at h
          · cases h
          · rename_i message _
            cases hdst : intDstAccountId message with
            | none => simp only [hdst, Option.isNone_none, if_true] at h; cases h
            | some account =>
              cases hrest : configMessages isUnlimit configTouchMessage intDstAccountId rest with
              | error => simp only [hdst, hrest] at h; cases h
              | ok tail =>
                simp only [hdst, hrest] at h
                cases h
                rintro message (_ | ⟨_, hmem⟩)
                · simp [hdst]
                · exact configMessages_intDstAccountId hrest message hmem
        · exact configMessages_intDstAccountId h

/-! ### What one step can do -/

/-- The account a message is dispatched to: its routing succeeds with a destination. -/
def dispatchTo (route : α → Except ε (Option A)) (message : α) : Option A :=
  match route message with
  | .ok (some account) => some account
  | _ => none

section

variable {route : α → Except ε (Option A)} {parallelizationLevel : Nat}

/-- Every successful step moves to another point (to `done` only from `done` or with the queue
and the pool empty), drops the head of the queue, dispatches it to a free account while the
pool is not full, or consumes the result at the front of the pool. -/
theorem step_cases {s s' : DispatchLoop α A} {answer : Answer}
    (h : step route parallelizationLevel s answer = .ok s') :
    (∃ point, s' = { s with point := point } ∧
      (point = .done → s.point = .done ∨ s.queue = [] ∧ s.activeExtThreads = [])) ∨
    (∃ message rest, s.queue = message :: rest ∧ route message = .ok none ∧
      s' = { s with queue := rest }) ∨
    (∃ message rest account, s.queue = message :: rest ∧
      s.activeExtThreads.length ≠ parallelizationLevel ∧ route message = .ok (some account) ∧
      account ∉ s.activeDestinations ∧
      s' = { s with
        queue := rest
        activeExtThreads := s.activeExtThreads ++ [account]
        activeDestinations := insert account s.activeDestinations
        dispatched := s.dispatched ++ [(message, account)] }) ∨
    (∃ account rest, s.activeExtThreads = account :: rest ∧
      s' = { s with
        activeExtThreads := rest
        activeDestinations := s.activeDestinations.erase account
        consumed := s.consumed ++ [account] }) := by
  unfold step at h
  split at h
  · cases h
    exact .inl ⟨_, rfl, by split <;> simp⟩
  · split at h
    · cases h
      exact .inl ⟨_, rfl, by simp⟩
    · rename_i message rest hqueue
      split at h
      · cases h
        exact .inl ⟨_, rfl, by simp⟩
      · rename_i hlevel
        split at h
        · cases h
        · cases h
          exact .inr (.inl ⟨message, rest, hqueue, by assumption, rfl⟩)
        · rename_i account hroute
          split at h
          · cases h
            exact .inl ⟨_, rfl, by simp⟩
          · rename_i hfree
            split at h
            · cases h
            · cases h
              exact .inr (.inr (.inl ⟨message, rest, account, hqueue, hlevel, hroute, hfree, rfl⟩))
  · split at h
    · cases h
      exact .inl ⟨_, rfl, by simp⟩
    · rename_i account rest hactive
      split at h
      · cases h
        exact .inl ⟨_, rfl, by simp⟩
      · cases h
      · cases h
        exact .inr (.inr (.inr ⟨account, rest, hactive, rfl⟩))
  · cases h
    refine .inl ⟨_, rfl, fun hdone => .inr ?_⟩
    split at hdone
    · rename_i hempty
      simpa using hempty
    · cases hdone
  · cases h
    rename_i hpoint
    exact .inl ⟨_, rfl, fun _ => .inl hpoint⟩

/-! ### The loop's bookkeeping along a run -/

/-- The state after a prefix `processed` of the input queue was routed: the dispatched messages
are the routed part of that prefix, in order; each dispatched result is consumed or in flight, in
dispatch order; the pool holds an account at most once and never more than the level;
`active_destinations` is the pool's set of accounts; and the loop returns only when the queue and
the pool are empty. -/
structure Sound (route : α → Except ε (Option A)) (parallelizationLevel : Nat) (queue : List α)
    (s : DispatchLoop α A) : Prop where
  routed : ∃ processed, queue = processed ++ s.queue ∧
    (∀ message ∈ processed, ∃ routing, route message = .ok routing) ∧
    s.dispatched = processed.filterMap fun message => (dispatchTo route message).map (message, ·)
  consumed_append : s.consumed ++ s.activeExtThreads = s.dispatched.map Prod.snd
  nodup : s.activeExtThreads.Nodup
  mem_activeDestinations : ∀ account, account ∈ s.activeDestinations ↔ account ∈ s.activeExtThreads
  length_le : s.activeExtThreads.length ≤ parallelizationLevel
  done_empty : s.point = .done → s.queue = [] ∧ s.activeExtThreads = []

omit [DecidableEq A] in
theorem sound_start (queue : List α) :
    Sound route parallelizationLevel queue (start queue : DispatchLoop α A) :=
  ⟨⟨[], rfl, by simp, rfl⟩, rfl, List.nodup_nil, by simp [start], Nat.zero_le _, nofun⟩

theorem step_done {s : DispatchLoop α A} (hpoint : s.point = .done) (answer : Answer) :
    step route parallelizationLevel s answer = .ok s := by
  simp [step, hpoint]

theorem Sound.step {queue : List α} {s s' : DispatchLoop α A} {answer : Answer}
    (h : Sound route parallelizationLevel queue s)
    (hstep : step route parallelizationLevel s answer = .ok s') :
    Sound route parallelizationLevel queue s' := by
  by_cases hpoint : s.point = .done
  · rw [step_done hpoint] at hstep
    cases hstep
    exact h
  obtain ⟨processed, hqueue, hroutedOk, hdispatched⟩ := h.routed
  have hrouted : ∀ {message routing}, route message = .ok routing →
      ∀ other ∈ processed ++ [message], ∃ routing, route other = .ok routing :=
    fun hroute other hother => (List.mem_append.mp hother).elim (hroutedOk other)
      fun hsingle => (List.mem_singleton.mp hsingle) ▸ ⟨_, hroute⟩
  rcases step_cases hstep with
    ⟨point, rfl, hdone⟩ | ⟨message, rest, hhead, hroute, rfl⟩ |
    ⟨message, rest, account, hhead, hlevel, hroute, hfree, rfl⟩ | ⟨account, rest, hactive, rfl⟩
  · exact ⟨h.routed, h.consumed_append, h.nodup, h.mem_activeDestinations, h.length_le,
      fun hdonePoint => (hdone hdonePoint).elim h.done_empty id⟩
  · exact ⟨⟨processed ++ [message], by simp [hqueue, hhead], hrouted hroute,
      by simp [hdispatched, dispatchTo, hroute]⟩, h.consumed_append, h.nodup,
      h.mem_activeDestinations, h.length_le, fun hdonePoint => absurd hdonePoint hpoint⟩
  · have hnew : account ∉ s.activeExtThreads := fun hmem =>
      hfree ((h.mem_activeDestinations account).mpr hmem)
    refine ⟨⟨processed ++ [message], by simp [hqueue, hhead], hrouted hroute,
      by simp [hdispatched, dispatchTo, hroute]⟩, ?_, ?_, ?_, ?_,
      fun hdonePoint => absurd hdonePoint hpoint⟩
    · simp [← List.append_assoc, h.consumed_append]
    · exact List.nodup_append.mpr ⟨h.nodup, List.nodup_singleton _, by simpa using hnew⟩
    · simp [h.mem_activeDestinations, or_comm]
    · have := h.length_le
      simp only [List.length_append, List.length_singleton]
      omega
  · have hconsumed := h.consumed_append
    have hnodup := h.nodup
    have hlength := h.length_le
    rw [hactive] at hconsumed hnodup hlength
    refine ⟨h.routed, by simpa using hconsumed, (List.nodup_cons.mp hnodup).2, fun other => ?_,
      Nat.le_of_succ_le hlength, fun hdonePoint => absurd hdonePoint hpoint⟩
    by_cases hother : other = account
    · subst hother
      simp [(List.nodup_cons.mp hnodup).1]
    · simp [hother, h.mem_activeDestinations, hactive]

theorem Sound.run {queue : List α} :
    ∀ (answers : List Answer) {s s' : DispatchLoop α A},
      Sound route parallelizationLevel queue s →
      run route parallelizationLevel s answers = .ok s' → Sound route parallelizationLevel queue s'
  | [], _, _, h, hrun => by
      cases hrun
      exact h
  | answer :: rest, s, _, h, hrun => by
      simp only [AckiNacki.SpecialMessages.run] at hrun
      cases hstep : SpecialMessages.step route parallelizationLevel s answer with
      | error e => simp [hstep, Except.bind] at hrun
      | ok s'' =>
          simp only [hstep, Except.bind] at hrun
          exact Sound.run rest (h.step hstep) hrun

omit [DecidableEq A] in
theorem map_fst_filterMap_sublist (processed : List α) (destination : α → Option A) :
    ((processed.filterMap fun message => (destination message).map (message, ·)).map
      Prod.fst).Sublist processed := by
  induction processed with
  | nil => exact List.Sublist.slnil
  | cons message rest ih =>
      cases hdestination : destination message with
      | none => simpa [List.filterMap_cons, hdestination] using ih.cons message
      | some account => simpa [List.filterMap_cons, hdestination] using ih.cons₂ message

/-! ### The two loops -/

/-- At every point of a run of either loop, for every queue, level and order in which executions
finish: the pool never holds more than `parallelization_level` executions nor two for one account,
messages are dispatched in queue order, and a message is dispatched to an account only once the
results of all earlier messages to that account were passed to `after_transaction`. -/
theorem run_dispatch_safe (route : α → Except ε (Option A)) (parallelizationLevel : Nat)
    (queue : List α) (answers : List Answer) {s : DispatchLoop α A}
    (hrun : run route parallelizationLevel (start queue) answers = .ok s) :
    s.activeExtThreads.length ≤ parallelizationLevel ∧ s.activeExtThreads.Nodup ∧
      (s.dispatched.map Prod.fst).Sublist queue ∧
      ∀ answer s' message account, step route parallelizationLevel s answer = .ok s' →
        s'.dispatched = s.dispatched ++ [(message, account)] →
        (s.dispatched.map Prod.snd).count account = s.consumed.count account := by
  have h := (sound_start queue).run answers hrun
  obtain ⟨processed, hqueue, -, hdispatched⟩ := h.routed
  refine ⟨h.length_le, h.nodup, ?_, fun answer s' message account hstep hnew => ?_⟩
  · rw [hdispatched, hqueue]
    exact (map_fst_filterMap_sublist processed _).trans (List.sublist_append_left _ _)
  · rcases step_cases hstep with ⟨_, rfl, -⟩ | ⟨_, _, -, -, rfl⟩ |
      ⟨_, _, dispatchedTo, -, -, -, hfree, rfl⟩ | ⟨_, _, -, rfl⟩
    · simp at hnew
    · simp at hnew
    · obtain ⟨-, rfl⟩ : _ ∧ dispatchedTo = account := by simpa using hnew
      have hidle : dispatchedTo ∉ s.activeExtThreads := fun hmem =>
        hfree ((h.mem_activeDestinations dispatchedTo).mpr hmem)
      rw [← h.consumed_append, List.count_append, List.count_eq_zero_of_not_mem hidle, Nat.add_zero]
    · simp at hnew

/-- Two config messages to account `0` on a pool of two: the second one waits at the head of
the queue until the result of the first is consumed, and the eighth step dispatches it. -/
theorem run_dispatch_safe_shared_destination :
    let route : Nat → Except Unit (Option Nat) := dappConfigRoute fun _ => some 0
    ∃ s : DispatchLoop Nat Nat,
      run route 2 (start [1, 2]) (List.replicate 7 .ready) = .ok s ∧
      s.queue = [2] ∧ s.dispatched = [(1, 0)] ∧ s.consumed = [0] ∧
      (∃ s', step route 2 s .ready = .ok s' ∧ s'.dispatched = [(1, 0), (2, 0)]) ∧
      s.activeExtThreads.length ≤ 2 ∧ s.activeExtThreads.Nodup ∧
      (s.dispatched.map Prod.fst).Sublist [1, 2] ∧
      ∀ answer s' message account, step route 2 s answer = .ok s' →
        s'.dispatched = s.dispatched ++ [(message, account)] →
        (s.dispatched.map Prod.snd).count account = s.consumed.count account := by
  intro route
  exact ⟨_, rfl, rfl, rfl, rfl, ⟨_, rfl, rfl⟩,
    run_dispatch_safe route 2 [1, 2] (List.replicate 7 .ready) rfl⟩

/-- When either loop returns `Ok(())`: the queue and the pool are empty, every input message was
routed without error, the dispatched messages are exactly the routed ones, each once and in queue
order, and the results passed to `after_transaction` are theirs, each once, in dispatch order. -/
theorem run_done_complete (route : α → Except ε (Option A)) (parallelizationLevel : Nat)
    (queue : List α) (answers : List Answer) {s : DispatchLoop α A}
    (hrun : run route parallelizationLevel (start queue) answers = .ok s)
    (hdone : s.point = .done) :
    s.queue = [] ∧ s.activeExtThreads = [] ∧
      (∀ message ∈ queue, ∃ routing, route message = .ok routing) ∧
      s.dispatched = queue.filterMap (fun message => (dispatchTo route message).map (message, ·)) ∧
      s.consumed = s.dispatched.map Prod.snd := by
  have h := (sound_start queue).run answers hrun
  obtain ⟨hqueue, hactive⟩ := h.done_empty hdone
  obtain ⟨processed, hprocessed, hrouted, hdispatched⟩ := h.routed
  rw [hqueue, List.append_nil] at hprocessed
  subst hprocessed
  have hconsumed := h.consumed_append
  rw [hactive, List.append_nil] at hconsumed
  exact ⟨hqueue, hactive, hrouted, hdispatched, hconsumed⟩

/-- Epoch data for accounts `1`, `9` and `1` again on a pool of two, where account `9` is not in
the thread's state: the loop drops the second message, holds the third at the head of the queue
while the first one's execution runs, and returns at the thirteenth step. -/
theorem run_done_complete_dropped_and_repeated :
    let route : Nat → Except Unit (Option Nat) :=
      epochRoute (fun data => .ok data) some fun account => .ok (account ≠ 9)
    ∃ s : DispatchLoop Nat Nat,
      run route 2 (start [1, 9, 1]) (List.replicate 13 .ready) = .ok s ∧ s.point = .done ∧
      s.dispatched = [(1, 1), (1, 1)] ∧
      s.queue = [] ∧ s.activeExtThreads = [] ∧
      (∀ message ∈ [1, 9, 1], ∃ routing, route message = .ok routing) ∧
      s.dispatched = [1, 9, 1].filterMap (fun message =>
        (dispatchTo route message).map (message, ·)) ∧
      s.consumed = s.dispatched.map Prod.snd := by
  intro route
  exact ⟨_, rfl, rfl, rfl, run_done_complete route 2 [1, 9, 1] (List.replicate 13 .ready) rfl rfl⟩

omit [DecidableEq A] in
/-- The epoch loop dispatches a message only to an account that belongs to the thread. -/
theorem dispatchTo_epochRoute {K M : Type} (createEpochTouchMessage : K → Except ε M)
    (intDstAccountId : M → Option A) (doesAccountBelongToTheState : A → Except ε Bool) (data : K)
    (account : A)
    (h : dispatchTo (epochRoute createEpochTouchMessage intDstAccountId doesAccountBelongToTheState)
      data = some account) :
    ∃ message, createEpochTouchMessage data = .ok message ∧
      intDstAccountId message = some account ∧ doesAccountBelongToTheState account = .ok true := by
  unfold dispatchTo epochRoute at h
  cases hmessage : createEpochTouchMessage data with
  | error e => simp [hmessage, bind, Except.bind] at h
  | ok message =>
      cases hdestination : intDstAccountId message with
      | none => simp [hmessage, hdestination, bind, Except.bind, pure, Except.pure] at h
      | some destination =>
          cases hbelongs : doesAccountBelongToTheState destination with
          | error e => simp [hmessage, hdestination, hbelongs, bind, Except.bind] at h
          | ok belongs =>
              cases belongs <;>
                simp [hmessage, hdestination, hbelongs, bind, Except.bind, pure, Except.pure] at h
              subst h
              exact ⟨message, rfl, hdestination, hbelongs⟩

/-- A dapp whose config address, account `1`, lies outside a thread that holds only account `0`:
the dapp config loop dispatches the touch message to it, where the epoch loop, which asks
`does_account_belong_to_the_state`, drops a message to the same account. -/
theorem executeDappConfigMessages_dispatches_outside_thread :
    (executeDappConfigMessages (fun _ => some false) (fun _ _ => (.ok 1 : Except Unit Nat)) some 1
        [(7, 1)] [.ready, .ready]).toOption.map (·.dispatched) = some [(1, 1)] ∧
      (executeEpochMessages (fun data : Nat => (.ok data : Except Unit Nat)) some
        (fun account => .ok (account = 0)) 1 [1] [.ready, .ready]).toOption.map (·.dispatched) =
          some [] := by
  decide

end

end AckiNacki.SpecialMessages
