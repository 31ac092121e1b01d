import AckiNacki.Types
import Mathlib.Data.List.Chain

/-!
`must_save_state_on_seq_no` (`config/mod.rs`): whether the optimistic state of a block is saved,
given its seq number, its parent's and the save frequency. Seq numbers are `u32`, where division
does not overflow; a frequency of `0` makes the source divide by zero, so the results below take
a positive frequency.
-/

namespace AckiNacki

/-- `must_save_state_on_seq_no`, on the seq numbers as `u32::from` gives them. -/
def mustSaveStateOnSeqNo (seqNo : Nat) (parentSeqNo : Option Nat) (saveStateFrequency : Nat) :
    Bool :=
  match parentSeqNo with
  | some parentSeqNo => parentSeqNo / saveStateFrequency ≠ seqNo / saveStateFrequency
  | none => seqNo % saveStateFrequency = 0

section

variable {saveStateFrequency : Nat}

/-- A child saves exactly when a multiple of the frequency lies in `(parent, child]`. -/
theorem mustSave_iff_multiple_between (hfrequency : 0 < saveStateFrequency)
    {parentSeqNo seqNo : Nat} (hlt : parentSeqNo < seqNo) :
    mustSaveStateOnSeqNo seqNo (some parentSeqNo) saveStateFrequency = true ↔
      ∃ k, parentSeqNo < k * saveStateFrequency ∧ k * saveStateFrequency ≤ seqNo := by
  simp only [mustSaveStateOnSeqNo, ne_eq, decide_eq_true_eq]
  constructor
  · intro hne
    refine ⟨seqNo / saveStateFrequency, ?_, Nat.div_mul_le_self seqNo saveStateFrequency⟩
    have hle : parentSeqNo / saveStateFrequency ≤ seqNo / saveStateFrequency :=
      Nat.div_le_div_right hlt.le
    by_contra hnot
    exact hne (le_antisymm hle ((Nat.le_div_iff_mul_le hfrequency).mpr (not_lt.mp hnot)))
  · rintro ⟨k, hparent, hseqNo⟩ heq
    have hk : k ≤ seqNo / saveStateFrequency := (Nat.le_div_iff_mul_le hfrequency).mpr hseqNo
    have hparentDiv : parentSeqNo / saveStateFrequency < k :=
      (Nat.div_lt_iff_lt_mul hfrequency).mpr hparent
    rw [← heq] at hk
    exact absurd hk (not_le.mpr hparentDiv)

/-- Along a strictly increasing run, every multiple of the frequency that the run passes is
crossed by a step that saves. -/
theorem run_saves_at_multiple (hfrequency : 0 < saveStateFrequency) :
    ∀ (first : Nat) (rest : List Nat), List.Chain (· < ·) first rest →
      ∀ k, first < k * saveStateFrequency →
        k * saveStateFrequency ≤ (first :: rest).getLast (List.cons_ne_nil _ _) →
        ∃ step ∈ (first :: rest).zip rest, step.1 < k * saveStateFrequency ∧
          k * saveStateFrequency ≤ step.2 ∧
          mustSaveStateOnSeqNo step.2 (some step.1) saveStateFrequency = true
  | first, [], _, k, hfirst, hlast => absurd hlast (by simpa using hfirst)
  | first, next :: rest, hchain, k, hfirst, hlast => by
      rw [List.chain_cons] at hchain
      by_cases hnext : k * saveStateFrequency ≤ next
      · exact ⟨(first, next), by simp, hfirst, hnext,
          (mustSave_iff_multiple_between hfrequency hchain.1).mpr ⟨k, hfirst, hnext⟩⟩
      · obtain ⟨step, hstep, hsaves⟩ := run_saves_at_multiple hfrequency next rest hchain.2 k
          (not_le.mp hnext) (by simpa using hlast)
        exact ⟨step, List.mem_cons_of_mem _ (by simpa using hstep), hsaves⟩

private theorem exists_multiple_in_window (hfrequency : 0 < saveStateFrequency) (start : Nat) :
    ∃ k, start ≤ k * saveStateFrequency ∧ k * saveStateFrequency < start + saveStateFrequency := by
  refine ⟨(start + saveStateFrequency - 1) / saveStateFrequency, ?_⟩
  have hle := Nat.div_mul_le_self (start + saveStateFrequency - 1) saveStateFrequency
  have hlt := @Nat.lt_div_mul_add (start + saveStateFrequency - 1) saveStateFrequency hfrequency
  generalize (start + saveStateFrequency - 1) / saveStateFrequency * saveStateFrequency = q at *
  omega

/-- For a positive frequency: a child saves exactly when a multiple of the frequency lies in
`(parent, child]`; with the parent just below, that is the parentless test; and a strictly
increasing run, in every `f` consecutive seq numbers it passes, crosses one with a step that
saves. -/
theorem mustSaveStateOnSeqNo_spec (hfrequency : 0 < saveStateFrequency) :
    (∀ parentSeqNo seqNo : Nat, parentSeqNo < seqNo →
      (mustSaveStateOnSeqNo seqNo (some parentSeqNo) saveStateFrequency = true ↔
        ∃ k, parentSeqNo < k * saveStateFrequency ∧ k * saveStateFrequency ≤ seqNo)) ∧
    (∀ seqNo : Nat, 0 < seqNo →
      mustSaveStateOnSeqNo seqNo (some (seqNo - 1)) saveStateFrequency =
        mustSaveStateOnSeqNo seqNo none saveStateFrequency) ∧
    (∀ (first : Nat) (rest : List Nat), List.Chain (· < ·) first rest →
      ∀ start, first < start →
        start + saveStateFrequency ≤ (first :: rest).getLast (List.cons_ne_nil _ _) + 1 →
        ∃ step ∈ (first :: rest).zip rest, ∃ crossed, start ≤ crossed ∧
          crossed < start + saveStateFrequency ∧ step.1 < crossed ∧ crossed ≤ step.2 ∧
          mustSaveStateOnSeqNo step.2 (some step.1) saveStateFrequency = true) := by
  refine ⟨fun _ _ => mustSave_iff_multiple_between hfrequency, fun seqNo hseqNo => ?_,
    fun first rest hchain start hstart hwindow => ?_⟩
  · rw [Bool.eq_iff_iff, mustSave_iff_multiple_between hfrequency (Nat.sub_lt hseqNo Nat.one_pos)]
    simp only [mustSaveStateOnSeqNo, decide_eq_true_eq]
    constructor
    · rintro ⟨k, hbelow, hle⟩
      have hmultiple : k * saveStateFrequency = seqNo := by
        generalize k * saveStateFrequency = q at *
        omega
      rw [← hmultiple]
      exact Nat.mul_mod_left k saveStateFrequency
    · intro hmod
      have hmultiple := Nat.div_mul_cancel (Nat.dvd_of_mod_eq_zero hmod)
      exact ⟨seqNo / saveStateFrequency, by omega, hmultiple.le⟩
  · obtain ⟨k, hlow, hhigh⟩ := exists_multiple_in_window hfrequency start
    obtain ⟨step, hstep, hsaves⟩ := run_saves_at_multiple hfrequency first rest hchain k
      (lt_of_lt_of_le hstart hlow) (by omega)
    exact ⟨step, hstep, k * saveStateFrequency, hlow, hhigh, hsaves⟩

/-- Saving every ten blocks, the child `20` of `15` saves, as `20` is a multiple of ten. -/
theorem mustSaveStateOnSeqNo_spec_every_ten :
    (0 < 10 ∧ 15 < 20) ∧ (mustSaveStateOnSeqNo 20 (some 15) 10 = true ↔
      ∃ k, 15 < k * 10 ∧ k * 10 ≤ 20) :=
  ⟨⟨by decide, by decide⟩, (mustSaveStateOnSeqNo_spec (by decide)).1 15 20 (by decide)⟩

end

end AckiNacki