import LimeSdrGw.Pll.PllTop
/-
# What the status of a configuration tells

The flags of both PLLs are joined in place 0 of the status vector, and the joint flag of a PLL is
that of its core and that of its phase shifter. So PLL 1 is never busy for the host, PLL 0 is while
PLL 1 works, the flag drops between the two steps of a reconfiguration, and in automatic mode it is
the error of the last search.
-/
namespace Pll

open Clocked

namespace PllUnit

variable (s s' : PllUnit) (p : PllPort) (e : PllEnv)

/-- A reconfiguration is under way: from the write from ROM to the end of the second step. -/
def configuring : Bool :=
  match s.configCtrl.stateR with
  | .idle => false
  | .w1 => s.reconfigBusy
  | _ => true

/-- The write is finished, the reconfiguration not begun. -/
def between : Bool :=
  match s.configCtrl.stateR with
  | .w0 => !s.reconfigBusy
  | .s1 => true
  | _ => false

/-- Phase steps are under way in manual mode. -/
def shifting : Bool := !s.sync1.dynpsMode && decide (s.ps.inst0.currentState ≠ .idle)

/-- Neither a reconfiguration nor phase steps nor a search are under way. -/
def quiet : Bool :=
  !s.configuring && decide (s.ps.inst0.currentState = .idle) &&
    decide (s.ps.inst1.currentState = .idle)

/-- The host is to see what goes on: it began in the clock before or earlier. -/
def Reported : Prop :=
  s.configCtrl.stateR ≠ .idle ∧ s'.configuring = true ∨
    s.ps.inst0.currentState ≠ .idle ∧ s'.shifting = true

/-- There is nothing to see, for the second clock. -/
def Quiet : Prop := s.quiet = true ∧ s'.quiet = true

/-- The core works for `config_ctrl` only. -/
def Linked : Prop :=
  s.reconfigBusy = true → s.configCtrl.stateR = .w0 ∨ s.configCtrl.stateR = .w1

variable {s p e}

theorem Linked.step_linked (h : Linked s) : Linked (s.step p e) := by
  intro hbusy
  have hrst : s.sync0.rcnfigAreset = false := by
    cases hr : s.sync0.rcnfigAreset with
    | false => rfl
    | true => simp [step, hr] at hbusy
  have hstate : (s.step p e).configCtrl.stateR = s.configCtrl.next (s.configIn e) := by
    simp [step, hrst, ConfigCtrl.step]
  rw [hstate, ConfigCtrl.next]
  cases hb : s.reconfigBusy with
  | true =>
    rcases h hb with hs | hs <;> simp [hs, configIn, hb]
  | false =>
    have hreq : s.requests = true := by simpa [step, hrst, hb] using hbusy
    simp only [requests, ConfigCtrl.wrRom, ConfigCtrl.reconfig, Bool.or_eq_true,
      decide_eq_true_eq] at hreq
    rcases hreq with hs | hs <;> simp [hs]

theorem configState_step (hs : (s.step p e).configCtrl.stateR ≠ .idle) :
    s.sync0.rcnfigAreset = false ∧
      (s.step p e).configCtrl.stateR = s.configCtrl.next (s.configIn e) := by
  cases hr : s.sync0.rcnfigAreset with
  | false => exact ⟨rfl, by simp [step, hr, ConfigCtrl.step]⟩
  | true => simp [step, hr, ConfigCtrl.init] at hs

/-- Once `config_ctrl` is on its way the core is busy, but for the gap. -/
theorem busy_of_configuring (hs : s.configCtrl.stateR ≠ .idle)
    (h : (s.step p e).configuring = true) :
    (s.step p e).reconfigBusy = true ∨ (s.step p e).between = true := by
  unfold configuring at h
  unfold between
  cases hn : (s.step p e).configCtrl.stateR with
  | idle => simp [hn] at h
  | s0 =>
    obtain ⟨-, hnext⟩ := configState_step (s := s) (p := p) (e := e) (by simp [hn])
    rw [hn, ConfigCtrl.next] at hnext
    grind
  | w0 => cases (s.step p e).reconfigBusy <;> simp
  | s1 => exact .inr rfl
  | w1 => exact .inl (by simpa [hn] using h)

/-- In the gap the core is idle; and it is part of a request the host is to see. -/
theorem reported_of_between (h : Linked s) (hb : (s.step p e).between = true) :
    s.configCtrl.stateR ≠ .idle ∧ (s.step p e).configuring = true ∧
      (s.step p e).reconfigBusy = false := by
  have hlink := h.step_linked (p := p) (e := e)
  unfold between at hb
  cases hn : (s.step p e).configCtrl.stateR with
  | idle | s0 | w1 => simp [hn] at hb
  | s1 =>
    obtain ⟨-, hnext⟩ := configState_step (s := s) (p := p) (e := e) (by simp [hn])
    refine ⟨?_, by simp [configuring, hn], ?_⟩
    · intro hs
      rw [hn, ConfigCtrl.next, hs] at hnext
      grind
    · apply Bool.eq_false_iff.2
      intro hbusy
      rcases hlink hbusy with h | h <;> exact absurd (hn.symm.trans h) nofun
  | w0 =>
    obtain ⟨hrst, hnext⟩ := configState_step (s := s) (p := p) (e := e) (by simp [hn])
    refine ⟨?_, by simp [configuring, hn], by simpa [hn] using hb⟩
    intro hs
    rw [hn, ConfigCtrl.next, hs] at hnext
    grind

/-- Unless it is held in reset, the phase shifter is busy exactly after a clock out of `idle`. -/
theorem shifter_busy : (s.step p e).ps.inst0.busy =
    if s.sync0.dynpsAresetN then decide (s.ps.inst0.currentState ≠ .idle) else true := by
  cases hr : s.sync0.dynpsAresetN with
  | true =>
    simp only [step, hr, if_true]
    rfl
  | false =>
    simp only [step, hr]
    rfl

theorem psStatus_of_shifting (hs : s.ps.inst0.currentState ≠ .idle)
    (h : (s.step p e).shifting = true) : (s.step p e).psStatus = true := by
  unfold shifting at h
  rw [Bool.and_eq_true, Bool.not_eq_true'] at h
  have hmanual : (s.step p e).psStatus = (s.step p e).ps.inst0.busy := by
    rw [psStatus, h.1]
    rfl
  rw [hmanual, shifter_busy]
  split
  · exact decide_eq_true hs
  · rfl

/-- Of a PLL that works the host sees something, but for the gap. -/
theorem busy_of_reported (h : Reported s (s.step p e)) :
    (s.step p e).busy = true ∨ (s.step p e).between = true := by
  unfold busy
  rcases h with ⟨hs, hc⟩ | ⟨hs, hc⟩
  · rcases busy_of_configuring hs hc with hb | hb
    · exact .inl (by rw [hb]; rfl)
    · exact .inr hb
  · exact .inl (by rw [psStatus_of_shifting hs hc, Bool.or_true])

/-- What the flag of a quiet PLL is. -/
theorem busy_of_quiet (h : Linked s) (hq : Quiet s (s.step p e)) : (s.step p e).busy =
    if (s.step p e).sync1.dynpsMode then (s.step p e).ps.inst1.psStatusReg
    else !(s.step p e).sync1.dynpsAresetN := by
  obtain ⟨hq, hq'⟩ := hq
  simp only [quiet, Bool.and_eq_true, Bool.not_eq_true', decide_eq_true_eq] at hq hq'
  have hcore : (s.step p e).reconfigBusy = false := by
    apply Bool.eq_false_iff.2
    intro hb
    have hc := hq'.1.1
    unfold configuring at hc
    rcases h.step_linked (p := p) (e := e) hb with hs | hs
    · simp [hs] at hc
    · simp [hs, hb] at hc
  have hreset : (s.step p e).sync1.dynpsAresetN = s.sync0.dynpsAresetN := rfl
  rw [busy, hcore, Bool.false_or, psStatus, shifter_busy, hreset, hq.1.2]
  cases s.sync0.dynpsAresetN <;> rfl

end PllUnit

namespace PllTop

variable (s : PllTop) (i : TopIn)

theorem toPllcfg_zero (h : i.cfg.pllInd.toNat = 0) : s.toPllcfgBusy i = s.pllcfgBusy ∧
    s.toPllcfgDone i = !s.pllcfgBusy := by
  rw [toPllcfgBusy, toPllcfgDone, h, inst2PllcfgBusy, inst2PllcfgDone, pllcfgDone]
  cases s.pllcfgBusy <;> exact ⟨rfl, rfl⟩

/-- PLL 1 has no flags of its own. -/
theorem toPllcfg_one (h : i.cfg.pllInd.toNat = 1) :
    s.toPllcfgBusy i = false ∧ s.toPllcfgDone i = true := by
  rw [toPllcfgBusy, toPllcfgDone, h, inst2PllcfgBusy, inst2PllcfgDone, pllcfgDone]
  cases s.pllcfgBusy <;> exact ⟨rfl, rfl⟩

section run

variable (x : Nat → TopIn)

abbrev topAt (n : Nat) : PllTop := machine.state x n

abbrev pllAt (i : Fin 2) (n : Nat) : PllUnit := (topAt x n).pll i

/-- In clock `n + 1` the host reads what goes on at the PLL it has selected. -/
def Truthful (n : Nat) : Prop :=
  ∀ i : Fin 2, (x (n + 1)).cfg.pllInd.toNat = i.val →
    (PllUnit.Reported (pllAt x i n) (pllAt x i (n + 1)) →
      (topAt x (n + 1)).toPllcfgBusy (x (n + 1)) = true ∧
        (topAt x (n + 1)).toPllcfgDone (x (n + 1)) = false) ∧
    (PllUnit.Quiet (pllAt x i n) (pllAt x i (n + 1)) →
      (topAt x (n + 1)).toPllcfgBusy (x (n + 1)) = false)

/-- Nothing of what the flags leave out or mix up is the case: with PLL 1 selected it does not work;
    with PLL 0 selected another flag covers the gap of its reconfiguration, and while it is quiet so
    is the flag of PLL 1, no failed search is on record and no reset is held. -/
structure Clear (n : Nat) : Prop where
  second : (x (n + 1)).cfg.pllInd.toNat = 1 →
    ¬ PllUnit.Reported (pllAt x 1 n) (pllAt x 1 (n + 1))
  gap : (x (n + 1)).cfg.pllInd.toNat = 0 → (pllAt x 0 (n + 1)).between = true →
    (pllAt x 0 (n + 1)).psStatus = true ∨ (pllAt x 1 (n + 1)).busy = true
  other : (x (n + 1)).cfg.pllInd.toNat = 0 → PllUnit.Quiet (pllAt x 0 n) (pllAt x 0 (n + 1)) →
    (pllAt x 1 (n + 1)).busy = false
  failed : (x (n + 1)).cfg.pllInd.toNat = 0 → PllUnit.Quiet (pllAt x 0 n) (pllAt x 0 (n + 1)) →
    (pllAt x 0 (n + 1)).sync1.dynpsMode = true →
    (pllAt x 0 (n + 1)).ps.inst1.psStatusReg = false
  reset : (x (n + 1)).cfg.pllInd.toNat = 0 → PllUnit.Quiet (pllAt x 0 n) (pllAt x 0 (n + 1)) →
    (pllAt x 0 (n + 1)).sync1.dynpsMode = false →
    (pllAt x 0 (n + 1)).sync1.dynpsAresetN = true

variable {x}

theorem pllAt_succ (i : Fin 2) (n : Nat) : pllAt x i (n + 1) =
    (pllAt x i n).step (port i (x n).cfg ((x n).env i)) ((x n).env i) := by
  rcases Fin.exists_fin_two.1 ⟨i, rfl⟩ with rfl | rfl <;> rfl

theorem linked_at (i : Fin 2) (n : Nat) : (pllAt x i n).Linked := by
  induction n with
  | zero => rcases Fin.exists_fin_two.1 ⟨i, rfl⟩ with rfl | rfl <;> exact nofun
  | succ n ih =>
    rw [pllAt_succ]
    exact ih.step_linked

theorem pllcfgBusy_eq (n : Nat) :
    (topAt x n).pllcfgBusy = ((pllAt x 1 n).busy || (pllAt x 0 n).busy) := rfl

/-- What the host reads is true exactly when nothing the flags leave out or mix up is the case. -/
theorem status_truthful_iff (n : Nat) : Truthful x n ↔ Clear x n := by
  have hstep0 := pllAt_succ (x := x) 0 n
  have hlink := linked_at (x := x) 0 n
  constructor
  · intro h
    have hzero (hi : (x (n + 1)).cfg.pllInd.toNat = 0)
        (hq : PllUnit.Quiet (pllAt x 0 n) (pllAt x 0 (n + 1))) :
        (pllAt x 1 (n + 1)).busy = false ∧ (pllAt x 0 (n + 1)).busy = false := by
      have hb := (h 0 hi).2 hq
      rw [(toPllcfg_zero _ _ hi).1, pllcfgBusy_eq, Bool.or_eq_false_iff] at hb
      exact hb
    refine ⟨?_, ?_, fun hi hq => (hzero hi hq).1, ?_, ?_⟩
    · intro hi hrep
      have hb := ((h 1 hi).1 hrep).1
      rw [(toPllcfg_one _ _ hi).1] at hb
      cases hb
    · intro hi hbetween
      rw [hstep0] at hbetween
      obtain ⟨hs, hc, hcore⟩ := PllUnit.reported_of_between hlink hbetween
      rw [← hstep0] at hc hcore
      have hb := ((h 0 hi).1 (.inl ⟨hs, hc⟩)).1
      have h0 : (pllAt x 0 (n + 1)).busy = (pllAt x 0 (n + 1)).psStatus := by
        rw [PllUnit.busy, hcore]
        rfl
      rw [(toPllcfg_zero _ _ hi).1, pllcfgBusy_eq, h0, Bool.or_eq_true] at hb
      exact hb.symm
    · intro hi hq hmode
      have hb := (hzero hi hq).2
      rw [hstep0] at hq hb hmode ⊢
      rw [PllUnit.busy_of_quiet hlink hq, hmode] at hb
      exact hb
    · intro hi hq hmode
      have hb := (hzero hi hq).2
      rw [hstep0] at hq hb hmode ⊢
      rw [PllUnit.busy_of_quiet hlink hq, hmode] at hb
      simpa using hb
  · rintro ⟨hsecond, hgap, hother, hfailed, hreset⟩ i hi
    rcases Fin.exists_fin_two.1 ⟨i, rfl⟩ with rfl | rfl
    · rw [(toPllcfg_zero _ _ hi).1, (toPllcfg_zero _ _ hi).2, pllcfgBusy_eq]
      constructor
      · intro hrep
        rw [hstep0] at hrep
        have hbusy : ((pllAt x 1 (n + 1)).busy || (pllAt x 0 (n + 1)).busy) = true := by
          rcases PllUnit.busy_of_reported hrep with hb | hb
          · rw [← hstep0] at hb
            rw [hb, Bool.or_true]
          · rw [← hstep0] at hb
            rcases hgap hi hb with hps | hb1
            · rw [PllUnit.busy, PllUnit.busy, hps, Bool.or_true, Bool.or_true]
            · rw [hb1, Bool.true_or]
        rw [hbusy]
        exact ⟨rfl, rfl⟩
      · intro hq
        have hother := hother hi hq
        have hfailed := hfailed hi hq
        have hreset := hreset hi hq
        rw [hother, Bool.false_or]
        rw [hstep0] at hq hfailed hreset ⊢
        rw [PllUnit.busy_of_quiet hlink hq]
        split
        · exact hfailed ‹_›
        · rw [hreset (Bool.eq_false_iff.2 ‹_›)]
          rfl
    · refine ⟨fun hrep => absurd hrep (hsecond hi), fun _ => (toPllcfg_one _ _ hi).1⟩

end run

/-- The host selects PLL 1 and starts a reconfiguration that does not end. -/
def secondPll (n : Nat) : TopIn where
  cfg := ⟨1, false, false, decide (0 < n), false, false, false, 0, 0, 0, 0⟩
  env := fun _ => ⟨false, 0, false, true, true, false, false⟩

/-- The core of PLL 1 is at work and the host reads `done`. -/
theorem second_pll_done : (pllAt secondPll 1 6).reconfigBusy = true ∧
    (topAt secondPll 6).toPllcfgBusy (secondPll 6) = false ∧
    (topAt secondPll 6).toPllcfgDone (secondPll 6) = true ∧ ¬ Truthful secondPll 5 := by
  have hwork : (pllAt secondPll 1 5).configCtrl.stateR = .s0 ∧
      (pllAt secondPll 1 6).configuring = true := by
    decide +kernel
  refine ⟨by decide +kernel, by decide +kernel, by decide +kernel, fun h => ?_⟩
  have hrep : PllUnit.Reported (pllAt secondPll 1 5) (pllAt secondPll 1 6) := by
    refine .inl ⟨?_, hwork.2⟩
    rw [hwork.1]
    exact nofun
  have hread := ((h 1 rfl).1 hrep).1
  exact absurd hread (by decide +kernel)

end PllTop

end Pll
