import AckiNacki.Producer.SpecialMessages

/-!
When the dispatch loops of `execute_epoch_messages` and `execute_dapp_config_messages` return.
Every `try_recv` of the drain loop that finds a result lets the loop go on, so the loops return as
soon as the executions finish: with a pool of at least one slot, a queue whose messages all route
without error, and every poll answered by a finished execution, the loop returns within a number of
steps linear in the queue. The loops poll without blocking, so an execution that has not finished
only delays them; and with `parallelization_level = 0` the fill loop is never entered and the loop
spins at the top forever.

The bound comes from a measure: twice the queue plus the pool, which every dispatch, drop and
consumed result lowers, and below it a rank of the point the loop is at, which every other step
lowers. The rank tells apart the points where nothing is left to do, which the loop passes on its
way to the return.
-/

namespace AckiNacki.SpecialMessages

variable {α ε A : Type} [DecidableEq A]

/-- What is left of the loop's work: a queued message counts twice, as it has to be dispatched and
then its result consumed. -/
def remaining (s : DispatchLoop α A) : Nat := 2 * s.queue.length + s.activeExtThreads.length

/-- The rank of the point the loop is at, among steps that leave `remaining` as it is; at the top
and in the fill loop it tells apart the loop with nothing left to do, as the exit test does. -/
def pointRank (s : DispatchLoop α A) : Nat :=
  match s.point with
  | .top => if s.queue.isEmpty ∧ s.activeExtThreads.isEmpty then 7 else 3
  | .fill => if s.queue.isEmpty ∧ s.activeExtThreads.isEmpty then 6 else 2
  | .drain => if s.activeExtThreads.isEmpty then 5 else 1
  | .check => 4
  | .done => 0

def loopMeasure (s : DispatchLoop α A) : Nat := 8 * remaining s + pointRank s

section

variable {route : α → Except ε (Option A)} {parallelizationLevel : Nat}

omit [DecidableEq A] in
theorem remaining_start (queue : List α) :
    remaining (start queue : DispatchLoop α A) = 2 * queue.length := by
  simp [remaining, start]

omit [DecidableEq A] in
theorem loopMeasure_start_le (queue : List α) :
    loopMeasure (start queue : DispatchLoop α A) ≤ 16 * queue.length + 7 := by
  have hrank : pointRank (start queue : DispatchLoop α A) ≤ 7 := by
    simp only [pointRank, start]
    split_ifs <;> omega
  simp only [loopMeasure, remaining_start]
  omega

/-- A step of a loop that has not returned, answered with anything but a failure, goes through
and lowers the measure, unless a poll of the drain loop finds no result yet: that step raises it by
less than four. This holds while the pool has a slot and the head of the queue routes without
error. -/
theorem loopMeasure_step {queue : List α} {s : DispatchLoop α A} {answer : Answer}
    (h : Sound route parallelizationLevel queue s) (hlevel : 0 < parallelizationLevel)
    (hhead : ∀ message rest, s.queue = message :: rest →
      ∃ routing, route message = .ok routing)
    (hanswer : answer ≠ .fails) (hpoint : s.point ≠ .done) :
    ∃ s', step route parallelizationLevel s answer = .ok s' ∧
      loopMeasure s' < loopMeasure s + if answer = .pending then 4 else 0 := by
  have hbusy : ∀ account, account ∈ s.activeDestinations → s.activeExtThreads ≠ [] :=
    fun account hmem hnil => by
      simpa [hnil] using (h.mem_activeDestinations account).mp hmem
  rcases s with ⟨point, pending, active, destinations, dispatched, consumed⟩
  simp only at hbusy hhead hpoint
  cases point with
  | top =>
      refine ⟨_, rfl, Nat.lt_add_right _ ?_⟩
      by_cases hfree : active.length < parallelizationLevel
      · simp only [loopMeasure, pointRank, remaining, hfree, if_true]
        split_ifs <;> omega
      · have hactive : active ≠ [] := fun hnil => hfree (by simpa [hnil] using hlevel)
        simp only [loopMeasure, pointRank, remaining, hfree, if_false, List.isEmpty_iff,
          hactive]
        split_ifs <;> omega
  | fill =>
      cases pending with
      | nil =>
          refine ⟨_, rfl, Nat.lt_add_right _ ?_⟩
          cases active <;> simp [loopMeasure, pointRank, remaining]
      | cons message rest =>
          obtain ⟨routing, hroute⟩ := hhead message rest rfl
          by_cases hfull : active.length = parallelizationLevel
          · have hactive : active ≠ [] := fun hnil => by simp [hnil] at hfull; omega
            refine ⟨_, by simp only [step, if_pos hfull]; rfl, Nat.lt_add_right _ ?_⟩
            simp [loopMeasure, pointRank, remaining, hactive]
          · cases routing with
            | none =>
                refine ⟨_, by simp only [step, if_neg hfull, hroute]; rfl,
                  Nat.lt_add_right _ ?_⟩
                simp only [loopMeasure, pointRank, remaining, List.length_cons]
                split_ifs <;> omega
            | some account =>
                by_cases hmem : account ∈ destinations
                · refine ⟨_, by simp only [step, if_neg hfull, hroute, if_pos hmem]; rfl,
                    Nat.lt_add_right _ ?_⟩
                  simp [loopMeasure, pointRank, remaining, hbusy account hmem]
                · refine ⟨_, by simp only [step, if_neg hfull, hroute, if_neg hmem,
                    if_neg hanswer]; rfl, Nat.lt_add_right _ ?_⟩
                  simp only [loopMeasure, pointRank, remaining, List.length_cons,
                    List.length_append, List.length_singleton, List.length_nil]
                  split_ifs <;> omega
  | drain =>
      cases active with
      | nil =>
          refine ⟨_, rfl, Nat.lt_add_right _ ?_⟩
          simp [loopMeasure, pointRank, remaining]
      | cons account rest =>
          cases answer with
          | ready =>
              refine ⟨_, rfl, ?_⟩
              simp only [loopMeasure, pointRank, remaining, List.length_cons]
              split_ifs <;> omega
          | pending =>
              refine ⟨_, rfl, ?_⟩
              simp [loopMeasure, pointRank, remaining]
          | fails => exact absurd rfl hanswer
  | check =>
      refine ⟨_, rfl, Nat.lt_add_right _ ?_⟩
      cases pending <;> cases active <;> simp [loopMeasure, pointRank, remaining]
  | done => exact absurd rfl hpoint

omit [DecidableEq A] in
theorem pointRank_pos {s : DispatchLoop α A} (hpoint : s.point ≠ .done) : 0 < pointRank s := by
  rcases s with ⟨_ | _ | _ | _ | _, _, _, _, _, _⟩ <;> simp only [pointRank] at hpoint ⊢ <;>
    first | exact absurd rfl hpoint | omega | (split_ifs <;> omega)

theorem run_of_done {s : DispatchLoop α A} (hpoint : s.point = .done) :
    ∀ answers, run route parallelizationLevel s answers = .ok s
  | [] => rfl
  | _ :: rest => by
      rw [run, step_done hpoint]
      exact run_of_done hpoint rest

/-- From a reachable state, a run with no failure ends at the return once it has more steps than
the measure and four for each poll that found no result. -/
theorem run_done_of_loopMeasure_le {queue : List α}
    (hlevel : 0 < parallelizationLevel)
    (hrouted : ∀ message ∈ queue, ∃ routing, route message = .ok routing) :
    ∀ (answers : List Answer) (s : DispatchLoop α A),
      Sound route parallelizationLevel queue s →
      .fails ∉ answers → loopMeasure s + 4 * answers.count .pending ≤ answers.length →
      ∃ s', run route parallelizationLevel s answers = .ok s' ∧ s'.point = .done
  | [], s, _, _, hmeasure => by
      by_cases hpoint : s.point = .done
      · exact ⟨s, rfl, hpoint⟩
      · have := pointRank_pos hpoint
        simp only [loopMeasure, List.length_nil] at hmeasure
        omega
  | answer :: rest, s, h, hfails, hmeasure => by
      by_cases hpoint : s.point = .done
      · exact ⟨s, run_of_done hpoint _, hpoint⟩
      obtain ⟨processed, hqueue, -, -⟩ := h.routed
      have hanswer : answer ≠ .fails := fun heq => hfails (heq ▸ List.mem_cons_self _ _)
      obtain ⟨s', hstep, hlt⟩ := loopMeasure_step h hlevel (fun message rest hhead =>
        hrouted message (by simp [hqueue, hhead])) hanswer hpoint
      have hcount : 4 * (answer :: rest).count .pending =
          4 * rest.count .pending + if answer = .pending then 4 else 0 := by
        by_cases hpending : answer = .pending
        · subst hpending
          simp [List.count_cons, Nat.mul_add]
        · simp [List.count_cons, hpending]
      obtain ⟨s'', hrun, hdone⟩ := run_done_of_loopMeasure_le hlevel hrouted rest s'
        (h.step hstep) (fun hmem => hfails (List.mem_cons_of_mem _ hmem))
        (by rw [hcount, List.length_cons] at hmeasure; omega)
      exact ⟨s'', by rw [run, hstep]; exact hrun, hdone⟩

/-- Either loop returns: with a pool of at least one slot and a queue whose messages all route
without error, every sequence of answers with no failed execution ends the loop at its return once
it is `16 * queue.length + 7` long, plus four for each poll that found no result yet. -/
theorem run_returns_within_bound (route : α → Except ε (Option A)) (parallelizationLevel : Nat)
    (queue : List α) (hlevel : 0 < parallelizationLevel)
    (hrouted : ∀ message ∈ queue, ∃ routing, route message = .ok routing)
    (answers : List Answer) (hfails : .fails ∉ answers)
    (hlength : 16 * queue.length + 7 + 4 * answers.count .pending ≤ answers.length) :
    ∃ s, run route parallelizationLevel (start queue) answers = .ok s ∧ s.point = .done :=
  run_done_of_loopMeasure_le hlevel hrouted answers _ (sound_start queue) hfails
    (by have := @loopMeasure_start_le α A queue; omega)

/-- One config message on a pool of one: twenty-three polls that all find a result. -/
theorem run_returns_within_bound_one_message :
    (0 < 1 ∧ (∀ message ∈ [1], ∃ routing,
        (dappConfigRoute some : Nat → Except Unit (Option Nat)) message = .ok routing) ∧
      .fails ∉ List.replicate 23 Answer.ready ∧
      16 * [1].length + 7 + 4 * (List.replicate 23 Answer.ready).count .pending ≤
        (List.replicate 23 Answer.ready).length) ∧
    ∃ s : DispatchLoop Nat Nat, run (dappConfigRoute some : Nat → Except Unit (Option Nat)) 1
      (start [1]) (List.replicate 23 .ready) = .ok s ∧ s.point = .done := by
  have hrouted : ∀ message ∈ [1], ∃ routing,
      (dappConfigRoute some : Nat → Except Unit (Option Nat)) message = .ok routing :=
    fun _ _ => ⟨_, rfl⟩
  exact ⟨⟨Nat.one_pos, hrouted, by decide, by decide⟩,
    run_returns_within_bound _ 1 [1] Nat.one_pos hrouted _ (by decide) (by decide)⟩

/-! ### A pool of no slot -/

/-- The loop with `parallelization_level = 0` on a queue it never touches: it is at the top, in
the drain loop or at the exit test, with the pool empty and nothing dispatched. -/
structure Spinning (queue : List α) (s : DispatchLoop α A) : Prop where
  queue_eq : s.queue = queue
  idle : s.activeExtThreads = []
  none_dispatched : s.dispatched = []
  not_filling : s.point = .top ∨ s.point = .drain ∨ s.point = .check

theorem Spinning.step {queue : List α} {s : DispatchLoop α A} (h : Spinning queue s)
    (hqueue : queue ≠ []) (answer : Answer) :
    ∃ s', step route 0 s answer = .ok s' ∧ Spinning queue s' := by
  rcases s with ⟨point, pending, active, destinations, dispatched, consumed⟩
  obtain ⟨hpending, hactive, hdispatched, hpoint⟩ := h
  simp only at hpending hactive hdispatched hpoint
  subst hpending hactive hdispatched
  rcases hpoint with rfl | rfl | rfl
  · exact ⟨_, rfl, ⟨rfl, rfl, rfl, by simp⟩⟩
  · exact ⟨_, rfl, ⟨rfl, rfl, rfl, by simp⟩⟩
  · refine ⟨_, rfl, ⟨rfl, rfl, rfl, ?_⟩⟩
    cases pending with
    | nil => exact absurd rfl hqueue
    | cons => simp

/-- With `parallelization_level = 0` and a message in the queue, either loop neither returns nor
fails, whatever the polls answer: it never dispatches a message and keeps the whole queue. -/
theorem run_level_zero_spins (route : α → Except ε (Option A)) (queue : List α)
    (hqueue : queue ≠ []) :
    ∀ answers, ∃ s, run route 0 (start queue) answers = .ok s ∧ s.point ≠ .done ∧
      s.queue = queue ∧ s.dispatched = [] := by
  suffices hspin : ∀ (answers : List Answer) (s : DispatchLoop α A), Spinning queue s →
      ∃ s', run route 0 s answers = .ok s' ∧ Spinning queue s' by
    intro answers
    obtain ⟨s, hrun, hs⟩ := hspin answers (start queue) ⟨rfl, rfl, rfl, .inl rfl⟩
    refine ⟨s, hrun, fun hdone => ?_, hs.queue_eq, hs.none_dispatched⟩
    rcases hs.not_filling with h | h | h <;> rw [hdone] at h <;> cases h
  intro answers
  induction answers with
  | nil => exact fun s hs => ⟨s, rfl, hs⟩
  | cons answer rest ih =>
      intro s hs
      obtain ⟨s', hstep, hs'⟩ := hs.step hqueue answer
      obtain ⟨s'', hrun, hs''⟩ := ih s' hs'
      exact ⟨s'', by rw [run, hstep]; exact hrun, hs''⟩

/-- A single message on a pool of no slot, after three polls. -/
theorem run_level_zero_spins_one_message :
    [1] ≠ [] ∧ ∃ s : DispatchLoop Nat Nat,
      run (dappConfigRoute some : Nat → Except Unit (Option Nat)) 0 (start [1])
          [.ready, .ready, .ready] = .ok s ∧
        s.point ≠ .done ∧ s.queue = [1] ∧ s.dispatched = [] :=
  ⟨List.cons_ne_nil _ _, run_level_zero_spins _ [1] (List.cons_ne_nil _ _) _⟩

end

end AckiNacki.SpecialMessages
