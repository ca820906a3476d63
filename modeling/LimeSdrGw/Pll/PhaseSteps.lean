import LimeSdrGw.Pll.PllPs
/-
# What `pll_ps` does for a phase

Asked for `phase` steps, it has them all answered or not: a step without an answer is taken for done,
an answer without an end gives the rest up, and a second rising edge of `en` changes the settings of
what is still to come.
-/
namespace Pll

open Clocked

/-- Seen from outside: steps asked for, steps that went on after an answer, and whether
    `pll_phasedone` has been low since the step under way was asked for. -/
structure Tally where
  requested : Nat
  acknowledged : Nat
  low : Bool
deriving Repr, DecidableEq

namespace Tally

def init : Tally := ⟨0, 0, false⟩

def step (t : Tally) (s : PllPs) (i : PllPsIn) : Tally where
  requested :=
    if (s.step i).pllPhasestep && !s.pllPhasestep then t.requested + 1 else t.requested
  acknowledged :=
    if s.currentState = .checkPhaseDone ∧ i.pllPhasedone ∧ t.low then t.acknowledged + 1
    else t.acknowledged
  low :=
    if s.currentState = .phaseStep ∨ s.currentState = .checkPhaseDone then
      t.low || !i.pllPhasedone
    else false

end Tally

namespace PllPs

section operation

variable (x : Nat → PllPsIn)

abbrev psAt (n : Nat) : PllPs := machine.state x n

/-- The tally of the clocks from `a` to `a + k`. -/
def tally (a : Nat) : Nat → Tally
  | 0 => .init
  | k + 1 => (tally a k).step (psAt x (a + k)) (x (a + k))

variable (a d : Nat)

/-- An operation: `en` rises in clock `a`, and `busy`, which follows two clocks later, falls in
    clock `a + d + 1`. -/
structure Operation : Prop where
  idle : (psAt x a).currentState = .idle
  starts : (psAt x a).starts (x a) = true
  pos : 0 < d
  busy : ∀ k, 1 < k → k ≤ d → (psAt x (a + k)).busy = true
  falls : (psAt x (a + d + 1)).busy = false

/-- As many steps as the phase says were asked for, all were answered, and all went to the counter
    and in the direction of the start. -/
structure ExactSteps : Prop where
  requested : (tally x a d).requested = (x a).phase.toNat
  acknowledged : (tally x a d).acknowledged = (x a).phase.toNat
  settings : ∀ k, k < d → (psAt x (a + k)).pllPhasestep = true →
    (psAt x (a + k)).pllPhasecounterselect = (x a).cnt ∧
      (psAt x (a + k)).pllPhaseupdown = (x a).updown

/-- The clock of the last rising edge of `en` before clock `a + k`. -/
def lastEdge : Nat → Nat
  | 0 => a
  | k + 1 => if (psAt x (a + k)).starts (x (a + k)) then a + k else lastEdge k

/-- No step is taken for done or given up before its answer has come, and no later rising edge of
    `en` brings other settings to a step or a check still to come. -/
structure Honoured : Prop where
  answered : ∀ k, k < d → (psAt x (a + k)).currentState = .checkPhaseDone →
    (x (a + k)).pllPhasedone = true → (tally x a k).low = true
  inTime : ∀ k, k < d → (psAt x (a + k)).currentState = .checkPhaseDone →
    (x (a + k)).pllPhasedone = false → (psAt x (a + k)).checkPhaseDoneCnt ≤ timeout
  check : ∀ k, k < d → (psAt x (a + k)).currentState = .checkPhaseStep →
    ((psAt x (a + k)).currentPhaseStepCnt < (x (lastEdge x a k)).phase.toNat ↔
      (psAt x (a + k)).currentPhaseStepCnt < (x a).phase.toNat)
  select : ∀ k, k < d → (psAt x (a + k)).currentState = .phaseStep →
    (x (lastEdge x a k)).cnt = (x a).cnt ∧ (x (lastEdge x a k)).updown = (x a).updown

end operation

section counting

/-- A step is under way. -/
def underway (s : PllPs) : Nat :=
  if s.currentState = .phaseStep ∨ s.currentState = .checkPhaseDone then 1 else 0

/-- The counter of the FSM counts the steps asked for; no more are answered. -/
structure Counts (t : Tally) (s : PllPs) : Prop where
  count : s.currentState ≠ .idle → s.currentState ≠ .endPhase →
    s.currentPhaseStepCnt = t.requested
  le : t.acknowledged + underway s ≤ t.requested
  small : t.requested ≤ 1023
  phase : s.phaseReg ≤ 1023
  fresh : s.currentState = .phaseStep → t.low = false

/-- The steps that were asked for and left without an answer. -/
def unanswered (t : Tally) (s : PllPs) : Nat := t.requested - (t.acknowledged + underway s)

/-- What an operation does in a clock. -/
inductive Acts (t : Tally) (s : PllPs) (i : PllPsIn) (t' : Tally) (s' : PllPs) : Prop
  | request : s.currentState = .checkPhaseStep → s.currentPhaseStepCnt < s.phaseReg →
      s'.currentState = .phaseStep → s'.currentPhaseStepCnt = s.currentPhaseStepCnt + 1 →
      t' = ⟨t.requested + 1, t.acknowledged, false⟩ → Acts t s i t' s'
  | enough : s.currentState = .checkPhaseStep → ¬ s.currentPhaseStepCnt < s.phaseReg →
      s'.currentState = .endPhase → t' = ⟨t.requested, t.acknowledged, false⟩ → Acts t s i t' s'
  | wait : underway s = 1 → underway s' = 1 → s'.currentPhaseStepCnt = s.currentPhaseStepCnt →
      (s'.currentState = .phaseStep → s.currentState = .phaseStep ∧ i.pllPhasedone = true) →
      t' = ⟨t.requested, t.acknowledged, t.low || !i.pllPhasedone⟩ → Acts t s i t' s'
  | goOn : s.currentState = .checkPhaseDone → i.pllPhasedone = true →
      s'.currentState = .checkPhaseStep → s'.currentPhaseStepCnt = s.currentPhaseStepCnt →
      t' = ⟨t.requested, t.acknowledged + t.low.toNat, t.low⟩ → Acts t s i t' s'
  | giveUp : s.currentState = .checkPhaseDone → i.pllPhasedone = false →
      timeout < s.checkPhaseDoneCnt → s'.currentState = .idle →
      t' = ⟨t.requested, t.acknowledged, true⟩ → Acts t s i t' s'
  | stop : s.currentState = .endPhase → s'.currentState = .idle →
      t' = ⟨t.requested, t.acknowledged, false⟩ → Acts t s i t' s'

variable {t : Tally} {s : PllPs} {i : PllPsIn}

theorem acts (h : Counts t s) (hbusy : s.currentState ≠ .idle) :
    Acts t s i (t.step s i) (s.step i) := by
  have hnext : (s.step i).currentState = s.next i := rfl
  cases hs : s.currentState with
  | idle => exact absurd hs hbusy
  | checkPhaseStep =>
    have hcnt : (s.step i).currentPhaseStepCnt = (s.currentPhaseStepCnt + 1) % 1024 := by
      simp [step, hs]
    by_cases hlt : s.currentPhaseStepCnt < s.phaseReg
    · have hn : (s.step i).currentState = .phaseStep := by rw [hnext, next, hs]; exact if_pos hlt
      have hphase := h.phase
      refine .request hs hlt hn (by rw [hcnt]; omega) ?_
      simp [Tally.step, pllPhasestep, hs, hn]
    · have hn : (s.step i).currentState = .endPhase := by rw [hnext, next, hs]; exact if_neg hlt
      refine .enough hs hlt hn ?_
      simp [Tally.step, pllPhasestep, hs, hn]
  | phaseStep =>
    have hcnt : (s.step i).currentPhaseStepCnt = s.currentPhaseStepCnt := by simp [step, hs]
    have hn : (s.step i).currentState = .phaseStep ∧ i.pllPhasedone = true ∨
        (s.step i).currentState = .checkPhaseDone := by
      rw [hnext, next, hs]
      grind
    refine .wait (by simp [underway, hs]) ?_ hcnt ?_ ?_
    · rcases hn with ⟨hn, -⟩ | hn <;> simp [underway, hn]
    · intro hn'
      rcases hn with ⟨-, hdone⟩ | hn
      · exact ⟨hs, hdone⟩
      · exact absurd (hn.symm.trans hn') nofun
    · rcases hn with ⟨hn, -⟩ | hn <;> simp [Tally.step, pllPhasestep, hs, hn]
  | checkPhaseDone =>
    have hcnt : (s.step i).currentPhaseStepCnt = s.currentPhaseStepCnt := by simp [step, hs]
    cases hd : i.pllPhasedone with
    | true =>
      have hn : (s.step i).currentState = .checkPhaseStep := by
        rw [hnext, next, hs]
        exact if_pos hd
      refine .goOn hs hd hn hcnt ?_
      cases hlow : t.low <;> simp [Tally.step, pllPhasestep, hs, hn, hd, hlow]
    | false =>
      by_cases hlt : timeout < s.checkPhaseDoneCnt
      · have hn : (s.step i).currentState = .idle := by
          rw [hnext, next, hs]
          simp [hd, hlt]
        refine .giveUp hs hd hlt hn ?_
        simp [Tally.step, pllPhasestep, hs, hn, hd]
      · have hn : (s.step i).currentState = .checkPhaseDone := by
          rw [hnext, next, hs]
          simp [hd, hlt]
        refine .wait (by simp [underway, hs]) (by simp [underway, hn]) hcnt ?_ ?_
        · intro hn'
          exact absurd (hn.symm.trans hn') nofun
        · simp [Tally.step, pllPhasestep, hs, hn, hd]
  | endPhase =>
    have hn : (s.step i).currentState = .idle := by rw [hnext, next, hs]
    refine .stop hs hn ?_
    simp [Tally.step, pllPhasestep, hs, hn]

theorem requested_le : t.requested ≤ (t.step s i).requested := by
  unfold Tally.step
  dsimp only
  split
  · exact Nat.le_succ _
  · exact Nat.le_refl _

theorem phaseReg_step_le (h : s.phaseReg ≤ 1023) : (s.step i).phaseReg ≤ 1023 := by
  have hlt := i.phase.isLt
  show (if s.starts i then i.phase.toNat else s.phaseReg) ≤ 1023
  split <;> omega

theorem underway_zero {s : PllPs} (h : s.currentState ≠ .phaseStep)
    (h' : s.currentState ≠ .checkPhaseDone) : underway s = 0 := by
  simp [underway, h, h']

/-- A step never gets its answer after the FSM has left it. -/
theorem Counts.step_counts (h : Counts t s) (hbusy : s.currentState ≠ .idle) :
    Counts (t.step s i) (s.step i) ∧
      unanswered t s ≤ unanswered (t.step s i) (s.step i) := by
  have hphase := phaseReg_step_le (i := i) h.phase
  have hle := h.le
  have hsmall := h.small
  have hp := h.phase
  have hcount := h.count hbusy
  cases acts (i := i) h hbusy with
  | request hs hlt hn hcnt ht =>
    have hu : underway s = 0 := underway_zero (by simp [hs]) (by simp [hs])
    have hu' : underway (s.step i) = 1 := by simp [underway, hn]
    have hc := hcount (by simp [hs])
    rw [unanswered, unanswered, ht, hu, hu']
    refine ⟨⟨fun _ _ => ?_, ?_, ?_, hphase, fun _ => rfl⟩, ?_⟩
    · rw [hcnt, hc]
    · rw [hu']
      dsimp only
      omega
    · dsimp only
      omega
    · dsimp only
      omega
  | enough hs hlt hn ht =>
    have hu : underway s = 0 := underway_zero (by simp [hs]) (by simp [hs])
    have hu' : underway (s.step i) = 0 := underway_zero (by simp [hn]) (by simp [hn])
    rw [unanswered, unanswered, ht, hu, hu']
    rw [hu] at hle
    exact ⟨⟨fun _ hne => absurd hn hne, by rw [hu']; exact hle, hsmall, hphase, fun _ => rfl⟩,
      Nat.le_refl _⟩
  | wait hu hu' hcnt hphs ht =>
    have hs : s.currentState ≠ .endPhase := by
      intro hs
      simp [underway, hs] at hu
    rw [unanswered, unanswered, ht, hu, hu']
    rw [hu] at hle
    refine ⟨⟨fun _ _ => ?_, by rw [hu']; exact hle, hsmall, hphase, ?_⟩, Nat.le_refl _⟩
    · rw [hcnt, hcount hs]
    · intro hn
      obtain ⟨hs, hdone⟩ := hphs hn
      simp [h.fresh hs, hdone]
  | goOn hs hd hn hcnt ht =>
    have hu : underway s = 1 := by simp [underway, hs]
    have hu' : underway (s.step i) = 0 := underway_zero (by simp [hn]) (by simp [hn])
    have hone := Bool.toNat_le t.low
    rw [unanswered, unanswered, ht, hu, hu']
    rw [hu] at hle
    refine ⟨⟨fun _ _ => ?_, ?_, hsmall, hphase, ?_⟩, ?_⟩
    · rw [hcnt, hcount (by simp [hs])]
    · rw [hu']
      dsimp only
      omega
    · intro hn'
      exact absurd (hn.symm.trans hn') nofun
    · dsimp only
      omega
  | giveUp hs hd hlt hn ht =>
    have hu : underway s = 1 := by simp [underway, hs]
    have hu' : underway (s.step i) = 0 := underway_zero (by simp [hn]) (by simp [hn])
    rw [unanswered, unanswered, ht, hu, hu']
    rw [hu] at hle
    refine ⟨⟨fun hne _ => absurd hn hne, ?_, hsmall, hphase, ?_⟩, ?_⟩
    · rw [hu']
      dsimp only
      omega
    · intro hn'
      exact absurd (hn.symm.trans hn') nofun
    · dsimp only
      omega
  | stop hs hn ht =>
    have hu : underway s = 0 := underway_zero (by simp [hs]) (by simp [hs])
    have hu' : underway (s.step i) = 0 := underway_zero (by simp [hn]) (by simp [hn])
    rw [unanswered, unanswered, ht, hu, hu']
    rw [hu] at hle
    exact ⟨⟨fun hne _ => absurd hn hne, by rw [hu']; exact hle, hsmall, hphase, fun _ => rfl⟩,
      Nat.le_refl _⟩

end counting

section operations

variable {x : Nat → PllPsIn} {a d : Nat}

theorem busy_succ (n : Nat) :
    (psAt x (n + 1)).busy = decide ((psAt x n).currentState ≠ .idle) := rfl

theorem Operation.running (O : Operation x a d) {k : Nat} (hk : 0 < k) (hd : k < d) :
    (psAt x (a + k)).currentState ≠ .idle := by
  have h := O.busy (k + 1) (by omega) hd
  rw [← Nat.add_assoc, busy_succ] at h
  exact of_decide_eq_true h

theorem Operation.ended (O : Operation x a d) : (psAt x (a + d)).currentState = .idle := by
  have h := O.falls
  rw [busy_succ, decide_eq_false_iff_not] at h
  exact Decidable.of_not_not h

theorem Operation.start (O : Operation x a d) :
    Counts (tally x a 1) (psAt x (a + 1)) ∧ unanswered (tally x a 1) (psAt x (a + 1)) = 0 ∧
      tally x a 1 = .init ∧ (psAt x (a + 1)).currentState = .checkPhaseStep := by
  have hidle := O.idle
  have hst := O.starts
  have e : psAt x (a + 1) = (psAt x a).step (x a) := rfl
  have hn : (psAt x (a + 1)).currentState = .checkPhaseStep := by
    rw [e, step, next, hidle]
    exact if_pos hst
  have ht : tally x a 1 = .init := by
    have e' : tally x a 1 = Tally.init.step (psAt x a) (x a) := rfl
    rw [e', Tally.step, ← e]
    simp [pllPhasestep, hidle, hn, Tally.init]
  have hu : underway (psAt x (a + 1)) = 0 := underway_zero (by simp [hn]) (by simp [hn])
  have hcnt : (psAt x (a + 1)).currentPhaseStepCnt = 0 := by simp [e, step, hidle]
  have hphase : (psAt x (a + 1)).phaseReg = (x a).phase.toNat := by simp [e, step, hst]
  have hlt := (x a).phase.isLt
  rw [ht, unanswered, hu]
  refine ⟨⟨fun _ _ => hcnt, by rw [hu]; exact Nat.le_refl 0, by decide, by omega, fun _ => rfl⟩,
    rfl, rfl, hn⟩

theorem Operation.counts_at (O : Operation x a d) {k : Nat} (hk : k < d) :
    Counts (tally x a (k + 1)) (psAt x (a + (k + 1))) := by
  induction k with
  | zero => exact O.start.1
  | succ k ih => exact ((ih (by omega)).step_counts (O.running (Nat.succ_pos k) hk)).1

/-- What was left without an answer stays so. -/
theorem Operation.unanswered_mono (O : Operation x a d) {j k : Nat} (hj : 0 < j) (hk : j ≤ k)
    (hd : k ≤ d) :
    unanswered (tally x a j) (psAt x (a + j)) ≤ unanswered (tally x a k) (psAt x (a + k)) ∧
      (tally x a j).requested ≤ (tally x a k).requested := by
  induction k with
  | zero => omega
  | succ k ih =>
    by_cases hjk : j = k + 1
    · rw [hjk]
      exact ⟨Nat.le_refl _, Nat.le_refl _⟩
    · obtain ⟨hun, hreq⟩ := ih (by omega) (by omega)
      obtain ⟨k, rfl⟩ : ∃ m, k = m + 1 := ⟨k - 1, by omega⟩
      have hcounts := O.counts_at (k := k) (by omega)
      have hrun := O.running (Nat.succ_pos k) hd
      exact ⟨Nat.le_trans hun (hcounts.step_counts hrun).2, Nat.le_trans hreq requested_le⟩

/-- The number of an operation's clocks in which something can go wrong. -/
theorem Operation.pos_of (O : Operation x a d) {k : Nat}
    (hs : (psAt x (a + k)).currentState ≠ .idle) : ∃ j, k = j + 1 := by
  cases k with
  | zero => exact absurd O.idle hs
  | succ j => exact ⟨j, rfl⟩

/-- Till the end no step is left without an answer, in the clock after any other too. -/
theorem ExactSteps.acts_at (O : Operation x a d) (E : ExactSteps x a d) {k : Nat} (hk : k < d)
    (hs : (psAt x (a + k)).currentState ≠ .idle) :
    Counts (tally x a k) (psAt x (a + k)) ∧ Acts (tally x a k) (psAt x (a + k)) (x (a + k))
      (tally x a (k + 1)) (psAt x (a + (k + 1))) ∧
    unanswered (tally x a (k + 1)) (psAt x (a + (k + 1))) = 0 := by
  have hend : underway (psAt x (a + d)) = 0 :=
    underway_zero (by simp [O.ended]) (by simp [O.ended])
  obtain ⟨j, rfl⟩ := O.pos_of hs
  have hcounts := O.counts_at (k := j) (by omega)
  have hmono := (O.unanswered_mono (Nat.succ_pos (j + 1)) hk (Nat.le_refl d)).1
  have hlast : unanswered (tally x a d) (psAt x (a + d)) = 0 := by
    rw [unanswered, E.requested, E.acknowledged, hend]
    exact Nat.sub_self _
  exact ⟨hcounts, acts hcounts hs, Nat.eq_zero_of_le_zero (hlast ▸ hmono)⟩

theorem ExactSteps.answered (O : Operation x a d) (E : ExactSteps x a d) {k : Nat} (hk : k < d)
    (hs : (psAt x (a + k)).currentState = .checkPhaseDone)
    (hdone : (x (a + k)).pllPhasedone = true) : (tally x a k).low = true := by
  obtain ⟨hcounts, hact, hzero⟩ := E.acts_at O hk (by simp [hs])
  have hle := hcounts.le
  cases hact with
  | request hs' | enough hs' | stop hs' => cases hs.symm.trans hs'
  | wait hu hu' hcnt hphs ht =>
    have hn : (psAt x (a + (k + 1))).currentState = .checkPhaseStep := by
      show (psAt x (a + k)).next (x (a + k)) = _
      rw [next, hs]
      exact if_pos hdone
    simp [underway, hn] at hu'
  | giveUp _ hd => cases hdone.symm.trans hd
  | goOn hs' hd hn hcnt ht =>
    have hu : underway (psAt x (a + k)) = 1 := by simp [underway, hs]
    have hu' : underway (psAt x (a + (k + 1))) = 0 := underway_zero (by simp [hn]) (by simp [hn])
    rw [unanswered, ht, hu'] at hzero
    rw [hu] at hle
    cases hlow : (tally x a k).low with
    | true => rfl
    | false =>
      rw [hlow] at hzero
      dsimp only [Bool.toNat_false] at hzero
      omega

theorem ExactSteps.inTime (O : Operation x a d) (E : ExactSteps x a d) {k : Nat} (hk : k < d)
    (hs : (psAt x (a + k)).currentState = .checkPhaseDone)
    (hdone : (x (a + k)).pllPhasedone = false) : (psAt x (a + k)).checkPhaseDoneCnt ≤ timeout := by
  obtain ⟨hcounts, hact, hzero⟩ := E.acts_at O hk (by simp [hs])
  have hle := hcounts.le
  apply Nat.le_of_not_lt
  intro hlt
  have hn : (psAt x (a + (k + 1))).currentState = .idle := by
    show (psAt x (a + k)).next (x (a + k)) = _
    rw [next, hs]
    simp [hdone, hlt]
  cases hact with
  | request hs' | enough hs' | stop hs' => cases hs.symm.trans hs'
  | wait hu hu' => simp [underway, hn] at hu'
  | goOn hs' hd => cases hdone.symm.trans hd
  | giveUp hs' hd hlt' hn' ht =>
    have hu : underway (psAt x (a + k)) = 1 := by simp [underway, hs]
    have hu' : underway (psAt x (a + (k + 1))) = 0 := underway_zero (by simp [hn]) (by simp [hn])
    rw [unanswered, ht, hu'] at hzero
    rw [hu] at hle
    dsimp only at hzero
    omega

theorem ExactSteps.check (O : Operation x a d) (E : ExactSteps x a d) {k : Nat} (hk : k < d)
    (hs : (psAt x (a + k)).currentState = .checkPhaseStep) :
    (psAt x (a + k)).currentPhaseStepCnt < (psAt x (a + k)).phaseReg ↔
      (psAt x (a + k)).currentPhaseStepCnt < (x a).phase.toNat := by
  obtain ⟨hcounts, hact, -⟩ := E.acts_at O hk (by simp [hs])
  have hc := hcounts.count (by simp [hs]) (by simp [hs])
  have hmono := (O.unanswered_mono (Nat.succ_pos k) hk (Nat.le_refl d)).2
  have hreq := E.requested
  cases hact with
  | request hs' hlt hn hcnt ht =>
    rw [ht] at hmono
    dsimp only at hmono
    exact ⟨fun _ => by omega, fun _ => hlt⟩
  | enough hs' hlt hn ht =>
    refine ⟨fun h => absurd h hlt, fun h => ?_⟩
    -- the end follows at once
    have hk1 : k + 1 < d := by
      apply Nat.lt_of_le_of_ne hk
      intro (h : k + 1 = d)
      rw [h, O.ended] at hn
      cases hn
    have hn2 : (psAt x (a + (k + 1 + 1))).currentState = .idle := by
      show (psAt x (a + (k + 1))).next (x (a + (k + 1))) = _
      rw [next, hn]
    have hd : d = k + 1 + 1 := by
      rcases Nat.lt_or_eq_of_le (Nat.succ_le_of_lt hk1) with h | h
      · exact absurd hn2 (O.running (Nat.succ_pos _) h)
      · exact h.symm
    have hlast : (tally x a d).requested = (tally x a (k + 1)).requested := by
      rw [hd, tally, Tally.step]
      have e : (psAt x (a + (k + 1))).step (x (a + (k + 1))) = psAt x (a + (k + 1 + 1)) := rfl
      rw [e]
      simp [pllPhasestep, hn2]
    rw [ht] at hlast
    dsimp only at hlast
    omega
  | wait hu => simp [underway, hs] at hu
  | goOn hs' | giveUp hs' | stop hs' => cases hs.symm.trans hs'

/-- The settings in the registers are those of the last rising edge of `en`. -/
theorem Operation.settings_at (O : Operation x a d) {k : Nat}
    (hs : (psAt x (a + k)).currentState ≠ .idle) :
    (psAt x (a + k)).phaseReg = (x (lastEdge x a k)).phase.toNat ∧
      (psAt x (a + k)).cntReg = (x (lastEdge x a k)).cnt ∧
      (psAt x (a + k)).updownReg = (x (lastEdge x a k)).updown := by
  have key : ∀ k, (psAt x (a + (k + 1))).phaseReg = (x (lastEdge x a (k + 1))).phase.toNat ∧
      (psAt x (a + (k + 1))).cntReg = (x (lastEdge x a (k + 1))).cnt ∧
      (psAt x (a + (k + 1))).updownReg = (x (lastEdge x a (k + 1))).updown := by
    intro k
    induction k with
    | zero =>
      have e : psAt x (a + (0 + 1)) = (psAt x a).step (x a) := rfl
      simp [e, step, lastEdge, O.starts]
    | succ k ih =>
      have e : psAt x (a + (k + 1 + 1)) = (psAt x (a + (k + 1))).step (x (a + (k + 1))) := rfl
      rw [e, lastEdge]
      by_cases h : (psAt x (a + (k + 1))).starts (x (a + (k + 1))) = true
      · simp [step, h]
      · simpa [step, h] using ih
  cases k with
  | zero => exact absurd O.idle hs
  | succ k => exact key k

theorem ExactSteps.honoured (O : Operation x a d) (E : ExactSteps x a d) : Honoured x a d where
  answered _ hk hs hdone := E.answered O hk hs hdone
  inTime _ hk hs hdone := E.inTime O hk hs hdone
  check _ hk hs := by
    rw [← (O.settings_at (by simp [hs])).1]
    exact E.check O hk hs
  select k hk hs := by
    obtain ⟨-, hcnt, hup⟩ := O.settings_at (k := k) (by simp [hs])
    rw [← hcnt, ← hup]
    exact E.settings k hk (by simp [pllPhasestep, hs])

/-- Where an operation is if nothing goes wrong in it. -/
structure Right (t : Tally) (s : PllPs) (phase : Nat) : Prop where
  none : unanswered t s = 0
  le : t.requested ≤ phase
  enough : s.currentState = .endPhase ∨ s.currentState = .idle → t.requested = phase

theorem Honoured.right_at (O : Operation x a d) (H : Honoured x a d) {k : Nat} (hk : k < d) :
    Right (tally x a (k + 1)) (psAt x (a + (k + 1))) (x a).phase.toNat := by
  induction k with
  | zero =>
    obtain ⟨-, hnone, ht, hs⟩ := O.start
    refine ⟨hnone, by rw [ht]; exact Nat.zero_le _, ?_⟩
    rw [hs]
    rintro (h | h) <;> cases h
  | succ k ih =>
    obtain ⟨hnone, hle, henough⟩ := ih (by omega)
    have hrun := O.running (Nat.succ_pos k) hk
    have hcounts := O.counts_at (k := k) (by omega)
    have hcount := hcounts.count hrun
    have hans := hcounts.le
    have hact : Acts (tally x a (k + 1)) (psAt x (a + (k + 1))) (x (a + (k + 1)))
        (tally x a (k + 1 + 1)) (psAt x (a + (k + 1 + 1))) := acts hcounts hrun
    cases hact with
    | request hs hlt hn hcnt ht =>
      have hu : underway (psAt x (a + (k + 1))) = 0 := underway_zero (by simp [hs]) (by simp [hs])
      have hu' : underway (psAt x (a + (k + 1 + 1))) = 1 := by simp [underway, hn]
      rw [(O.settings_at (by simp [hs])).1] at hlt
      have hphase := (H.check (k + 1) hk hs).1 hlt
      have hc := hcount (by simp [hs])
      rw [unanswered, hu] at hnone
      refine ⟨?_, ?_, ?_⟩
      · rw [unanswered, ht, hu']
        dsimp only
        omega
      · rw [ht]
        dsimp only
        omega
      · rw [hn]
        rintro (h | h) <;> cases h
    | enough hs hlt hn ht =>
      have hu : underway (psAt x (a + (k + 1))) = 0 := underway_zero (by simp [hs]) (by simp [hs])
      have hu' : underway (psAt x (a + (k + 1 + 1))) = 0 :=
        underway_zero (by simp [hn]) (by simp [hn])
      rw [(O.settings_at (by simp [hs])).1] at hlt
      have hphase := mt (H.check (k + 1) hk hs).2 hlt
      have hc := hcount (by simp [hs])
      rw [unanswered, hu] at hnone
      refine ⟨?_, by rw [ht]; exact hle, fun _ => ?_⟩
      · rw [unanswered, ht, hu']
        exact hnone
      · rw [ht]
        dsimp only
        omega
    | wait hu hu' hcnt hphs ht =>
      rw [unanswered, hu] at hnone
      refine ⟨?_, by rw [ht]; exact hle, ?_⟩
      · rw [unanswered, ht, hu']
        exact hnone
      · rintro (h | h) <;> simp [underway, h] at hu'
    | goOn hs hd hn hcnt ht =>
      have hu : underway (psAt x (a + (k + 1))) = 1 := by simp [underway, hs]
      have hu' : underway (psAt x (a + (k + 1 + 1))) = 0 :=
        underway_zero (by simp [hn]) (by simp [hn])
      have hlow := H.answered (k + 1) hk hs hd
      rw [unanswered, hu] at hnone
      refine ⟨?_, by rw [ht]; exact hle, ?_⟩
      · rw [unanswered, ht, hu', hlow]
        exact hnone
      · rw [hn]
        rintro (h | h) <;> cases h
    | giveUp hs hd hlt hn ht =>
      have hle := H.inTime (k + 1) hk hs hd
      exact absurd hlt (Nat.not_lt_of_le hle)
    | stop hs hn ht =>
      have hu : underway (psAt x (a + (k + 1))) = 0 := underway_zero (by simp [hs]) (by simp [hs])
      have hu' : underway (psAt x (a + (k + 1 + 1))) = 0 :=
        underway_zero (by simp [hn]) (by simp [hn])
      rw [unanswered, hu] at hnone
      refine ⟨?_, by rw [ht]; exact hle, fun _ => ?_⟩
      · rw [unanswered, ht, hu']
        exact hnone
      · rw [ht]
        exact henough (.inl hs)

/-- An operation makes the steps it was asked for, and only these, exactly when the answer to every
    step comes in time and the settings are left alone. -/
theorem exactSteps_iff (O : Operation x a d) : ExactSteps x a d ↔ Honoured x a d := by
  constructor
  · exact ExactSteps.honoured O
  · intro H
    obtain ⟨j, rfl⟩ : ∃ j, d = j + 1 := ⟨d - 1, by have := O.pos; omega⟩
    have hright := H.right_at O (Nat.lt_succ_self j)
    have hle := (O.counts_at (Nat.lt_succ_self j)).le
    have hnone := hright.none
    have hreq := hright.enough (.inr O.ended)
    have hu : underway (psAt x (a + (j + 1))) = 0 :=
      underway_zero (by simp [O.ended]) (by simp [O.ended])
    rw [unanswered, hu] at hnone
    refine ⟨hreq, by omega, fun k hk hstep => ?_⟩
    have hs : (psAt x (a + k)).currentState = .phaseStep := of_decide_eq_true hstep
    obtain ⟨-, hcnt, hup⟩ := O.settings_at (k := k) (by simp [hs])
    rw [pllPhasecounterselect, pllPhaseupdown, hcnt, hup]
    exact H.select k hk hs

end operations

/-- Two steps up of counter 2 from clock 1 on, the answers as given by clock. -/
def twoSteps (phasedone : Nat → Bool) (n : Nat) : PllPsIn :=
  ⟨decide (1 ≤ n), 2, 2, true, phasedone n⟩

def prompt : Nat → PllPsIn := twoSteps fun n => n % 4 != 0

theorem prompt_operation : Operation prompt 1 11 := by
  have hbusy : ∀ k, k ≤ 11 → 1 < k → (psAt prompt (1 + k)).busy = true := by decide +kernel
  exact ⟨rfl, rfl, by decide, fun k h1 h2 => hbusy k h2 h1, rfl⟩

theorem prompt_honoured : Honoured prompt 1 11 :=
  ⟨by decide +kernel, by decide +kernel, by decide +kernel, by decide +kernel⟩

theorem prompt_exact : Operation prompt 1 11 ∧ ExactSteps prompt 1 11 :=
  ⟨prompt_operation, (exactSteps_iff prompt_operation).2 prompt_honoured⟩

/-- A PLL that never answers: both steps are taken for done. -/
theorem unanswered_counted : Operation (twoSteps fun _ => true) 1 41 ∧
    tally (twoSteps fun _ => true) 1 41 = ⟨2, 0, false⟩ ∧
    ¬ ExactSteps (twoSteps fun _ => true) 1 41 := by
  have htally : tally (twoSteps fun _ => true) 1 41 = ⟨2, 0, false⟩ := by decide +kernel
  have hbusy : ∀ k, k ≤ 41 → 1 < k → (psAt (twoSteps fun _ => true) (1 + k)).busy = true := by
    decide +kernel
  have hfalls : (psAt (twoSteps fun _ => true) (1 + 41 + 1)).busy = false := by decide +kernel
  refine ⟨⟨rfl, rfl, by decide, fun k h1 h2 => hbusy k h2 h1, hfalls⟩, htally, fun h => ?_⟩
  have hack := h.acknowledged
  rw [htally] at hack
  exact absurd hack (by decide)

end PllPs

end Pll
