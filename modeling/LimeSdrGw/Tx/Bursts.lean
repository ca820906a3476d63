import LimeSdrGw.Clocked.Progress
import LimeSdrGw.Tx.Txiq
/-
# Triggered bursts

In the external pulse mode `txiq_ctrl` waits for a trigger, switches the antenna on, lets `txiq` read
a given number of words from the sample FIFO, and switches the antenna off again.

| here | there |
| --- | --- |
| `TxiqCtrl`, `.step`     | registers and processes of txiq_ctrl.vhd:54-210 |
| `TxiqCtrl.nextState`    | process `fsm` (txiq_ctrl.vhd:135-172) |
| `Fifo2diq`, `.step`     | `inst3_pct_sync_size`, `inst1_txiq`, `txiq_ctrl_inst3` and `txant_en_mux` (fifo2diq.vhd:79-160) |
| `TxSettings.words`      | words of a burst, what `inst3_pct_sync_size` stands for |
-/
namespace Tx

open Clocked

/-- The configuration, which does not change. -/
structure TxSettings where
  mode : TxMode
  pctSyncSize : BitVec 16
  txantCycBeforeEn : BitVec 16
  txantCycAfterEn : BitVec 16

namespace TxSettings

/-- What goes into `inst3_pct_sync_size`. -/
def syncSize (c : TxSettings) : BitVec 16 :=
  if c.mode.intMode = 0 then c.pctSyncSize else c.pctSyncSize >>> 1

/-- Words of a burst: two samples of each channel make a word of one, or of both. -/
def words (c : TxSettings) : Nat :=
  if c.mode.intMode = 0 then c.pctSyncSize.toNat else c.pctSyncSize.toNat / 2

theorem syncSize_toNat (c : TxSettings) : c.syncSize.toNat = c.words := by
  unfold syncSize words
  split
  · rfl
  · rw [BitVec.toNat_ushiftRight, Nat.shiftRight_eq_div_pow]

theorem words_lt (c : TxSettings) : c.words < 65536 := by
  rw [← syncSize_toNat]
  exact BitVec.isLt _

end TxSettings

inductive CtrlState | idle | txantEnableWait | rdSamples | txantDisWait | waitRdCycles
deriving DecidableEq, Repr

structure TxiqCtrl where
  currentState : CtrlState
  cnt : BitVec 16
  cntMax : BitVec 16
  txantEnWaitCnt : BitVec 16
  txantDisWaitCnt : BitVec 16
  txantEnReg : Bool

namespace TxiqCtrl

def init : TxiqCtrl := ⟨.idle, 0, 0, 0, 0, false⟩

def nextState (s : TxiqCtrl) (pctBuffRdy pctSyncPulse txiqRdreqIn : Bool) : CtrlState :=
  match s.currentState with
  | .idle => if pctBuffRdy && pctSyncPulse then .txantEnableWait else .idle
  | .txantEnableWait => if s.txantEnWaitCnt = 0 then .rdSamples else .txantEnableWait
  | .rdSamples =>
    if s.cntMax.toNat ≤ s.cnt.toNat ∧ txiqRdreqIn then .txantDisWait else .rdSamples
  | .txantDisWait => if s.txantDisWaitCnt = 0 then .idle else .txantDisWait
  | .waitRdCycles => .idle

def txiqEn (s : TxiqCtrl) (pctSyncMode : Bool) : Bool :=
  if pctSyncMode = false then true else s.currentState == .rdSamples

def step (c : TxSettings) (s : TxiqCtrl) (pctSyncSize : BitVec 16)
    (pctBuffRdy pctSyncPulse txiqRdreqIn : Bool) : TxiqCtrl where
  currentState := s.nextState pctBuffRdy pctSyncPulse txiqRdreqIn
  cnt := if s.currentState = .rdSamples then (if txiqRdreqIn then s.cnt + 1 else s.cnt) else 0
  cntMax := pctSyncSize - 1
  txantEnWaitCnt :=
    if s.currentState = .txantEnableWait then s.txantEnWaitCnt - 1 else c.txantCycBeforeEn
  txantDisWaitCnt :=
    if s.currentState = .txantDisWait then s.txantDisWaitCnt - 1 else c.txantCycAfterEn
  txantEnReg :=
    if s.currentState = .txantEnableWait then true
    else if s.currentState = .idle then false
    else s.txantEnReg

end TxiqCtrl

structure BurstIn (w : Nat) where
  pctSyncPulse : Bool
  pctBuffRdy : Bool
  fifoRdempty : Bool
  fifoQ : BitVec (4 * w)

structure Fifo2diq (w : Nat) where
  txiq : Txiq w
  ctrl : TxiqCtrl
  inst3PctSyncSize : BitVec 16
  txantEnMux : Bool

namespace Fifo2diq

variable {w : Nat}

def init : Fifo2diq w := ⟨.init, .init, 0, false⟩

def fifoRdreq (s : Fifo2diq w) (i : BurstIn w) : Bool := s.txiq.fifoRdreq i.fifoRdempty

def step (pctSyncMode : Bool) (c : TxSettings) (s : Fifo2diq w) (i : BurstIn w) : Fifo2diq w where
  txiq := s.txiq.step c.mode (s.ctrl.txiqEn pctSyncMode) i.fifoRdempty i.fifoQ
  ctrl := s.ctrl.step c s.inst3PctSyncSize i.pctBuffRdy i.pctSyncPulse (s.fifoRdreq i)
  inst3PctSyncSize := c.syncSize
  txantEnMux := if pctSyncMode = false then s.txiq.txantEn else s.ctrl.txantEnReg

end Fifo2diq

def fifo2diq (w : Nat) (pctSyncMode : Bool) (c : TxSettings) : Machine (Fifo2diq w) (BurstIn w) :=
  ⟨.init, Fifo2diq.step pctSyncMode c⟩

namespace Fifo2diq

variable {w : Nat} (c : TxSettings) (x : Nat → BurstIn w)

/-- The run in the external pulse mode. -/
abbrev pulseAt (n : Nat) : Fifo2diq w := (fifo2diq w true c).state x n

abbrev ctrlAt (n : Nat) : TxiqCtrl := (pulseAt c x n).ctrl

/-- A word is read in clock `n`. -/
def readAt (n : Nat) : Bool := (pulseAt c x n).fifoRdreq (x n)

/-- Words read in the burst so far. -/
def burstReads : Nat → Nat := (fifo2diq w true c).track (fun k s i =>
  if s.ctrl.currentState = .idle then 0 else if s.fifoRdreq i then k + 1 else k) 0 x

variable {c x}

theorem txiq_succ (n : Nat) : (pulseAt c x (n + 1)).txiq = (pulseAt c x n).txiq.step c.mode
    ((ctrlAt c x n).currentState == .rdSamples) (x n).fifoRdempty (x n).fifoQ := rfl

theorem burstReads_succ (n : Nat) : burstReads c x (n + 1) =
    if (ctrlAt c x n).currentState = .idle then 0
    else if readAt c x n then burstReads c x n + 1 else burstReads c x n := rfl

theorem readAt_eq_true {n : Nat} : readAt c x n = true ↔
    (pulseAt c x n).txiq.currentState = .rdSamples ∧ (x n).fifoRdempty = false := by
  simp [readAt, fifoRdreq, Txiq.fifoRdreq, Txiq.intFifoRdreq]

/-! ### No word outside a burst -/

theorem ctrl_next (n : Nat) : (ctrlAt c x (n + 1)).currentState = (ctrlAt c x n).nextState
    (x n).pctBuffRdy (x n).pctSyncPulse (readAt c x n) := rfl

/-- The burst goes on while no word is read. -/
theorem rd_stays {n : Nat} (h : (ctrlAt c x n).currentState = .rdSamples)
    (hr : readAt c x n = false) : (ctrlAt c x (n + 1)).currentState = .rdSamples := by
  rw [ctrl_next, TxiqCtrl.nextState, h]
  exact if_neg fun hc => by rw [hr] at hc; cases hc.2

/-- A slot that begins was allowed by the control one clock before, and the burst still lasts. -/
theorem slot_inside {n : Nat} (h : (pulseAt c x (n + 1)).txiq.slot = true) :
    (ctrlAt c x n).currentState = .rdSamples ∧ (ctrlAt c x (n + 1)).currentState = .rdSamples := by
  have hnext : (pulseAt c x (n + 1)).txiq.currentState = (pulseAt c x n).txiq.nextState
    ((ctrlAt c x n).currentState == .rdSamples) (x n).fifoRdempty := rfl
  have hen : (ctrlAt c x n).currentState = .rdSamples := by
    refine Decidable.of_not_not fun hne => ?_
    rw [Txiq.slot, hnext, beq_eq_false_iff_ne.2 hne] at h
    revert h
    unfold Txiq.nextState
    cases (pulseAt c x n).txiq.currentState <;> simp
    split <;> simp
  refine ⟨hen, rd_stays hen (Bool.eq_false_iff.2 fun hr => ?_)⟩
  rw [Txiq.slot, hnext, Txiq.nextState, (readAt_eq_true.1 hr).1] at h
  cases h

theorem read_inside {n : Nat} (h : readAt c x n = true) : ∃ k, n = k + 1 ∧
    (ctrlAt c x k).currentState = .rdSamples ∧ (ctrlAt c x n).currentState = .rdSamples := by
  cases n with
  | zero =>
    have := (readAt_eq_true.1 h).1
    cases this
  | succ n =>
    have hs : (pulseAt c x (n + 1)).txiq.slot = true := by
      rw [Txiq.slot, (readAt_eq_true.1 h).1]
      rfl
    exact ⟨n, rfl, slot_inside hs⟩

theorem rd_of_read {n : Nat} (h : readAt c x n = true) :
    (ctrlAt c x n).currentState = .rdSamples := by
  obtain ⟨_, _, _, h⟩ := read_inside h
  exact h

/-! ### The antenna -/

/-- The antenna has been on since the clock behind `a`. -/
def OnSince (c : TxSettings) (x : Nat → BurstIn w) (a n : Nat) : Prop :=
  ∀ k, a < k → k ≤ n → (ctrlAt c x k).txantEnReg = true

/-- Where the control is in a burst that was triggered in the clock before `a`. -/
inductive Phase (c : TxSettings) (x : Nat → BurstIn w) (n : Nat) : Prop
  | idle (state : (ctrlAt c x n).currentState = .idle)
  | wait (a : Nat) (state : (ctrlAt c x n).currentState = .txantEnableWait) (pos : 0 < a)
      (le : a ≤ n) (cnt : (ctrlAt c x n).txantEnWaitCnt.toNat + n = a + c.txantCycBeforeEn.toNat)
      (on : OnSince c x a n)
  | rd (a : Nat) (state : (ctrlAt c x n).currentState = .rdSamples) (pos : 0 < a)
      (lt : a + c.txantCycBeforeEn.toNat < n) (on : OnSince c x a n)
  | dis (state : (ctrlAt c x n).currentState = .txantDisWait)

theorem OnSince.succ {a n : Nat} (h : OnSince c x a n)
    (h' : (ctrlAt c x (n + 1)).txantEnReg = true) : OnSince c x a (n + 1) := by
  intro k hk hn
  by_cases he : k = n + 1
  · rw [he, h']
  · exact h k hk (by omega)

theorem reg_of_wait {n : Nat} (h : (ctrlAt c x n).currentState = .txantEnableWait) :
    (ctrlAt c x (n + 1)).txantEnReg = true := if_pos h

theorem reg_of_keep {n : Nat} (h : (ctrlAt c x n).currentState = .rdSamples ∨
    (ctrlAt c x n).currentState = .txantDisWait) :
    (ctrlAt c x (n + 1)).txantEnReg = (ctrlAt c x n).txantEnReg := by
  show (if _ = CtrlState.txantEnableWait then _ else if _ = CtrlState.idle then _ else _) = _
  rcases h with h | h <;> rw [h] <;> rfl

theorem Phase.step {n : Nat} (h : Phase c x n) : Phase c x (n + 1) := by
  have hnext := ctrl_next (c := c) (x := x) n
  cases h with
  | idle hst =>
    rw [TxiqCtrl.nextState, hst] at hnext
    cases hb : (x n).pctBuffRdy && (x n).pctSyncPulse with
    | false =>
      rw [hb] at hnext
      exact .idle hnext
    | true =>
      rw [hb] at hnext
      refine .wait (n + 1) hnext (Nat.succ_pos n) (Nat.le_refl _) ?_ fun k h1 h2 =>
        absurd h1 (by omega)
      have hcnt : (ctrlAt c x (n + 1)).txantEnWaitCnt = c.txantCycBeforeEn :=
        if_neg (by rw [hst]; decide)
      rw [hcnt, Nat.add_comm]
  | wait a hst hpos hle hcnt hon =>
    have hon' := hon.succ (reg_of_wait hst)
    rw [TxiqCtrl.nextState, hst] at hnext
    by_cases h0 : (ctrlAt c x n).txantEnWaitCnt = 0
    · rw [h0] at hcnt hnext
      exact .rd a hnext hpos (by simp at hcnt; omega) hon'
    · rw [show (if (ctrlAt c x n).txantEnWaitCnt = 0 then CtrlState.rdSamples
        else .txantEnableWait) = .txantEnableWait from if_neg h0] at hnext
      refine .wait a hnext hpos (by omega) ?_ hon'
      have hdec : (ctrlAt c x (n + 1)).txantEnWaitCnt = (ctrlAt c x n).txantEnWaitCnt - 1 :=
        if_pos hst
      have : 0 < (ctrlAt c x n).txantEnWaitCnt.toNat := by
        refine Nat.pos_of_ne_zero fun hz => h0 ?_
        exact BitVec.eq_of_toNat_eq hz
      rw [hdec]
      bv_omega
  | rd a hst hpos hlt hon =>
    have hreg := hon n (by omega) (Nat.le_refl n)
    have hon' := hon.succ ((reg_of_keep (.inl hst)).trans hreg)
    rw [TxiqCtrl.nextState, hst] at hnext
    by_cases hend : (ctrlAt c x n).cntMax.toNat ≤ (ctrlAt c x n).cnt.toNat ∧ readAt c x n
    · exact .dis (hnext.trans (if_pos hend))
    · exact .rd a (hnext.trans (if_neg hend)) hpos (by omega) hon'
  | dis hst =>
    rw [TxiqCtrl.nextState, hst] at hnext
    by_cases h0 : (ctrlAt c x n).txantDisWaitCnt = 0
    · exact .idle (hnext.trans (if_pos h0))
    · exact .dis (hnext.trans (if_neg h0))

theorem phase (n : Nat) : Phase c x n := by
  induction n with
  | zero => exact .idle rfl
  | succ n ih => exact ih.step

/-- The control is in `rd_samples` from one read to another of the same burst. -/
theorem rd_between {t1 t2 : Nat} (h1 : (ctrlAt c x t1).currentState = .rdSamples)
    (h2 : (ctrlAt c x t2).currentState = .rdSamples)
    (hi : ∀ k, t1 ≤ k → k ≤ t2 → (ctrlAt c x k).currentState ≠ .idle) {k : Nat} (hk1 : t1 ≤ k)
    (hk2 : k ≤ t2) : (ctrlAt c x k).currentState = .rdSamples := by
  have hdis : ∀ d k, t1 ≤ k → k + d ≤ t2 → (ctrlAt c x k).currentState = .txantDisWait →
      (ctrlAt c x (k + d)).currentState = .txantDisWait := by
    intro d
    induction d with
    | zero => exact fun k _ _ h => h
    | succ d ih =>
      intro k hk hd h
      have hd' := ih k hk (by omega) h
      have hnext := ctrl_next (c := c) (x := x) (k + d)
      rw [TxiqCtrl.nextState, hd'] at hnext
      by_cases h0 : (ctrlAt c x (k + d)).txantDisWaitCnt = 0
      · exact absurd (hnext.trans (if_pos h0)) (hi (k + d + 1) (by omega) (by omega))
      · exact hnext.trans (if_neg h0)
  have hfwd : ∀ d, t1 + d ≤ t2 → (ctrlAt c x (t1 + d)).currentState = .rdSamples := by
    intro d
    induction d with
    | zero => exact fun _ => h1
    | succ d ih =>
      intro hd
      have hr := ih (by omega)
      have hnext := ctrl_next (c := c) (x := x) (t1 + d)
      rw [TxiqCtrl.nextState, hr] at hnext
      by_cases hend : (ctrlAt c x (t1 + d)).cntMax.toNat ≤ (ctrlAt c x (t1 + d)).cnt.toNat ∧
          readAt c x (t1 + d)
      · have h := hdis (t2 - (t1 + d + 1)) (t1 + d + 1) (by omega) (by omega)
          (hnext.trans (if_pos hend))
        rw [show t1 + d + 1 + (t2 - (t1 + d + 1)) = t2 by omega, h2] at h
        cases h
      · exact hnext.trans (if_neg hend)
  obtain ⟨d, rfl⟩ := Nat.le.dest hk1
  exact hfwd d hk2

/-- The antenna is on long enough before a read, and in the clock of it. -/
theorem on_before {t k : Nat} (h : readAt c x t = true)
    (hk : t ≤ k + c.txantCycBeforeEn.toNat + 1) (hk' : k ≤ t) :
    c.txantCycBeforeEn.toNat + 1 < t ∧ (ctrlAt c x k).txantEnReg = true := by
  obtain ⟨j, rfl, hj, -⟩ := read_inside h
  cases phase (c := c) (x := x) j with
  | idle hst => rw [hj] at hst; cases hst
  | wait a hst _ _ _ _ => rw [hj] at hst; cases hst
  | dis hst => rw [hj] at hst; cases hst
  | rd a hst hpos hlt hon =>
    refine ⟨by omega, ?_⟩
    by_cases hkj : k = j + 1
    · rw [hkj, reg_of_keep (.inl hst)]
      exact hon j (by omega) (Nat.le_refl j)
    · exact hon k (by omega) (by omega)

/-- The antenna is on from long enough before the first until after the last read of a burst. -/
theorem antenna {t1 t2 : Nat} (h1 : readAt c x t1 = true) (h2 : readAt c x t2 = true)
    (hi : ∀ k, t1 ≤ k → k ≤ t2 → (ctrlAt c x k).currentState ≠ .idle) :
    c.txantCycBeforeEn.toNat ≤ t1 ∧ ∀ k, t1 ≤ k + c.txantCycBeforeEn.toNat → k ≤ t2 + 1 →
      (pulseAt c x k).txantEnMux = true := by
  have hb := (on_before h1 (Nat.le_succ_of_le (Nat.le_add_right _ _)) (Nat.le_refl _)).1
  refine ⟨by omega, fun k hk hk2 => ?_⟩
  obtain ⟨j, rfl⟩ : ∃ j, k = j + 1 := ⟨k - 1, by omega⟩
  show (ctrlAt c x j).txantEnReg = true
  by_cases hj : j ≤ t1
  · exact (on_before h1 (by omega) hj).2
  · have hrd : (ctrlAt c x j).currentState = .rdSamples :=
      rd_between (rd_of_read h1) (rd_of_read h2) hi (by omega) (by omega)
    cases phase (c := c) (x := x) j with
    | idle hst => rw [hrd] at hst; cases hst
    | wait a hst _ _ _ _ => rw [hrd] at hst; cases hst
    | dis hst => rw [hrd] at hst; cases hst
    | rd a hst hpos hlt hon => exact hon j (by omega) (Nat.le_refl j)

/-! ### The count -/

theorem cntMax_eq (n : Nat) : (ctrlAt c x (n + 2)).cntMax = c.syncSize - 1 := rfl

theorem two_le_of_rd {n : Nat} (h : (ctrlAt c x n).currentState = .rdSamples) : 2 ≤ n := by
  cases phase (c := c) (x := x) n with
  | idle hst => rw [h] at hst; cases hst
  | wait a hst _ _ _ _ => rw [h] at hst; cases hst
  | dis hst => rw [h] at hst; cases hst
  | rd a hst hpos hlt hon => omega

theorem cntMax_toNat (hw : c.words ≠ 0) {n : Nat} (h : (ctrlAt c x n).currentState = .rdSamples) :
    (ctrlAt c x n).cntMax.toNat + 1 = c.words := by
  obtain ⟨k, rfl⟩ : ∃ k, n = k + 2 := ⟨n - 2, by have := two_le_of_rd h; omega⟩
  rw [cntMax_eq]
  have := c.syncSize_toNat
  bv_omega

/-- The words read in the burst, by the state of the control. -/
structure Counted (c : TxSettings) (x : Nat → BurstIn w) (n : Nat) : Prop where
  le : burstReads c x n ≤ c.words
  wait : (ctrlAt c x n).currentState = .txantEnableWait → burstReads c x n = 0
  rd : (ctrlAt c x n).currentState = .rdSamples →
    burstReads c x n < c.words ∧ (ctrlAt c x n).cnt.toNat = burstReads c x n
  dis : (ctrlAt c x n).currentState = .txantDisWait → burstReads c x n = c.words

theorem Counted.step (hw : c.words ≠ 0) {n : Nat} (h : Counted c x n) : Counted c x (n + 1) := by
  have hcount := burstReads_succ (c := c) (x := x) n
  have hnext := ctrl_next (c := c) (x := x) n
  have hlt := c.words_lt
  cases phase (c := c) (x := x) n with
  | idle hst =>
    rw [if_pos hst] at hcount
    rw [TxiqCtrl.nextState, hst] at hnext
    have hcase : (ctrlAt c x (n + 1)).currentState = .txantEnableWait ∨
        (ctrlAt c x (n + 1)).currentState = .idle := by
      rw [hnext]
      cases (x n).pctBuffRdy && (x n).pctSyncPulse
      · exact .inr rfl
      · exact .inl rfl
    refine ⟨by omega, fun _ => hcount, fun hr => ?_, fun hr => ?_⟩
    · rcases hcase with h' | h' <;> rw [h'] at hr <;> cases hr
    · rcases hcase with h' | h' <;> rw [h'] at hr <;> cases hr
  | wait a hst _ _ _ _ =>
    have hno : readAt c x n = false := Bool.eq_false_iff.2 fun hr => by
      rw [rd_of_read hr] at hst
      cases hst
    rw [hno, if_neg (by rw [hst]; decide), if_neg (by decide), h.wait hst] at hcount
    have hcnt : (ctrlAt c x (n + 1)).cnt = 0 := if_neg (by rw [hst]; decide)
    rw [TxiqCtrl.nextState, hst] at hnext
    refine ⟨by omega, fun _ => hcount, fun _ => ?_, fun hr => ?_⟩
    · rw [hcount, hcnt]
      exact ⟨Nat.pos_of_ne_zero hw, rfl⟩
    · rw [hr] at hnext
      revert hnext
      show CtrlState.txantDisWait = (if _ then _ else _) → _
      split <;> exact nofun
  | rd a hst _ _ _ =>
    obtain ⟨hlt', hc⟩ := h.rd hst
    have hmax := cntMax_toNat hw hst
    rw [TxiqCtrl.nextState, hst] at hnext
    rw [if_neg (by rw [hst]; decide)] at hcount
    have hcnt : (ctrlAt c x (n + 1)).cnt =
        if readAt c x n then (ctrlAt c x n).cnt + 1 else (ctrlAt c x n).cnt := if_pos hst
    by_cases hend : (ctrlAt c x n).cntMax.toNat ≤ (ctrlAt c x n).cnt.toNat ∧ readAt c x n
    · have hst' := hnext.trans (if_pos hend)
      rw [if_pos hend.2] at hcount
      refine ⟨by omega, fun hr => ?_, fun hr => ?_, fun _ => by omega⟩
      · rw [hst'] at hr; cases hr
      · rw [hst'] at hr; cases hr
    · have hst' := hnext.trans (if_neg hend)
      refine ⟨?_, fun hr => ?_, fun _ => ?_, fun hr => ?_⟩
      · split at hcount <;> omega
      · rw [hst'] at hr; cases hr
      · cases hr : readAt c x n with
        | false =>
          rw [hr, if_neg (by decide)] at hcount hcnt
          rw [hcount, hcnt]
          exact ⟨hlt', hc⟩
        | true =>
          rw [hr, if_pos rfl] at hcount hcnt
          have : ¬ (ctrlAt c x n).cntMax.toNat ≤ (ctrlAt c x n).cnt.toNat := fun hle => hend ⟨hle, hr⟩
          rw [hcount, hcnt]
          refine ⟨by omega, ?_⟩
          bv_omega
      · rw [hst'] at hr; cases hr
  | dis hst =>
    have hno : readAt c x n = false := Bool.eq_false_iff.2 fun hr => by
      rw [rd_of_read hr] at hst
      cases hst
    rw [hno, if_neg (by rw [hst]; decide), if_neg (by decide), h.dis hst] at hcount
    rw [TxiqCtrl.nextState, hst] at hnext
    have hcase : (ctrlAt c x (n + 1)).currentState = .idle ∨
        (ctrlAt c x (n + 1)).currentState = .txantDisWait := by
      by_cases h0 : (ctrlAt c x n).txantDisWaitCnt = 0
      · exact .inl (hnext.trans (if_pos h0))
      · exact .inr (hnext.trans (if_neg h0))
    refine ⟨by omega, fun hr => ?_, fun hr => ?_, fun _ => hcount⟩
    · rcases hcase with h' | h' <;> rw [h'] at hr <;> cases hr
    · rcases hcase with h' | h' <;> rw [h'] at hr <;> cases hr

theorem counted (hw : c.words ≠ 0) (n : Nat) : Counted c x n := by
  induction n with
  | zero => exact ⟨Nat.zero_le _, nofun, nofun, nofun⟩
  | succ n ih => exact ih.step hw

/-- The counter is never ahead of the words read. -/
theorem cnt_le (n : Nat) (h : (ctrlAt c x n).currentState = .rdSamples) :
    (ctrlAt c x n).cnt.toNat ≤ burstReads c x n := by
  induction n with
  | zero => cases h
  | succ n ih =>
    have hcount := burstReads_succ (c := c) (x := x) n
    by_cases hst : (ctrlAt c x n).currentState = .rdSamples
    · have hcnt : (ctrlAt c x (n + 1)).cnt =
        if readAt c x n then (ctrlAt c x n).cnt + 1 else (ctrlAt c x n).cnt := if_pos hst
      have hle := ih hst
      rw [if_neg (by rw [hst]; decide)] at hcount
      cases hr : readAt c x n with
      | false =>
        rw [hr, if_neg (by decide)] at hcount hcnt
        rw [hcount, hcnt]
        exact hle
      | true =>
        rw [hr, if_pos rfl] at hcount hcnt
        rw [hcount, hcnt]
        bv_omega
    · have hcnt : (ctrlAt c x (n + 1)).cnt = 0 := if_neg hst
      rw [hcnt]
      exact Nat.zero_le _

/-! ### The end of a burst -/

/-- In a wait the counter has not passed its end. -/
theorem txiq_wait (n : Nat) (h : (pulseAt c x n).txiq.currentState = .waitRdCycles) :
    (pulseAt c x n).txiq.rdWaitCnt ≤ c.mode.rdWaitCntMax ∧
      (pulseAt c x n).txiq.rdWaitCntMaxReg = c.mode.rdWaitCntMax := by
  induction n with
  | zero => cases h
  | succ n ih =>
    refine ⟨?_, rfl⟩
    show (if (pulseAt c x n).txiq.currentState = .waitRdCycles then
      ((pulseAt c x n).txiq.rdWaitCnt + 1) % 16 else 0) ≤ _
    have hmax := c.mode.rdWaitCntMax_le
    by_cases hw : (pulseAt c x n).txiq.currentState = .waitRdCycles
    · obtain ⟨hle, hreg⟩ := ih hw
      rw [txiq_succ] at h
      have hne : (pulseAt c x n).txiq.rdWaitCnt ≠ c.mode.rdWaitCntMax := by
        intro he
        have hn : (pulseAt c x n).txiq.nextState ((ctrlAt c x n).currentState == .rdSamples)
          (x n).fifoRdempty = .waitRdCycles := h
        rw [Txiq.nextState, hw] at hn
        simp only [he, hreg, if_true] at hn
        split at hn
        · cases hn
        · split at hn <;> cases hn
      rw [if_pos hw]
      omega
    · rw [if_neg hw]
      exact Nat.zero_le _

/-- Clocks until the serialiser looks at the FIFO. -/
def lookIn (m : TxMode) (s : Txiq w) : Nat :=
  match s.currentState with
  | .waitRdCycles => m.rdWaitCntMax - s.rdWaitCnt
  | .zeroSamples => m.rdWaitCntMax + 1
  | _ => 0

/-- Only this reader empties the FIFO. -/
def SoleReader (c : TxSettings) (x : Nat → BurstIn w) : Prop :=
  ∀ t, (x (t + 1)).fifoRdempty = true → (x t).fifoRdempty = true ∨ readAt c x t = true

/-- A burst in which `v` words have been read. -/
def RdAt (c : TxSettings) (x : Nat → BurstIn w) (v n : Nat) : Prop :=
  (ctrlAt c x n).currentState = .rdSamples ∧ burstReads c x n = v

theorem RdAt.succ {v n : Nat} (h : RdAt c x v n) (hr : readAt c x n = false) :
    RdAt c x v (n + 1) := by
  refine ⟨rd_stays h.1 hr, ?_⟩
  rw [burstReads_succ, if_neg (by rw [h.1]; decide), hr]
  exact h.2

/-- In a burst the serialiser looks at the FIFO now, or is nearer to doing so. -/
theorem look_step {v n : Nat} (h : RdAt c x v n)
    (hne : (pulseAt c x n).txiq.currentState ≠ .rdSamples) :
    (pulseAt c x (n + 1)).txiq.currentState =
        (if (x n).fifoRdempty then .zeroSamples else .rdSamples) ∨
      lookIn c.mode (pulseAt c x (n + 1)).txiq < lookIn c.mode (pulseAt c x n).txiq := by
  have hnext : (pulseAt c x (n + 1)).txiq.currentState =
      (pulseAt c x n).txiq.nextState true (x n).fifoRdempty := by
    rw [txiq_succ, h.1]
    rfl
  rw [Txiq.nextState] at hnext
  cases hst : (pulseAt c x n).txiq.currentState with
  | idle =>
    simp only [hst] at hnext
    left
    rw [hnext]
    cases (x n).fifoRdempty <;> rfl
  | rdSamples => exact absurd hst hne
  | zeroSamples =>
    simp only [hst] at hnext
    have hcnt : (pulseAt c x (n + 1)).txiq.rdWaitCnt = 0 := if_neg (by rw [hst]; decide)
    right
    rw [lookIn, lookIn, hst, hnext, hcnt]
    exact Nat.lt_succ_self _
  | waitRdCycles =>
    obtain ⟨hle, hreg⟩ := txiq_wait n hst
    have hmax := c.mode.rdWaitCntMax_le
    simp only [hst] at hnext
    by_cases hend : (pulseAt c x n).txiq.rdWaitCnt = (pulseAt c x n).txiq.rdWaitCntMaxReg
    · left
      rw [hnext, if_pos hend]
      cases (x n).fifoRdempty <;> rfl
    · right
      rw [if_neg hend] at hnext
      have hcnt : (pulseAt c x (n + 1)).txiq.rdWaitCnt =
        ((pulseAt c x n).txiq.rdWaitCnt + 1) % 16 := if_pos hst
      rw [lookIn, lookIn, hst, hnext, hcnt]
      show c.mode.rdWaitCntMax - _ < c.mode.rdWaitCntMax - _
      rw [hreg] at hend
      omega

/-- Where a word is asked for, there is one. -/
theorem nonempty_of_rdSamples (hsole : SoleReader c x) {n : Nat}
    (h : (pulseAt c x n).txiq.currentState = .rdSamples) : (x n).fifoRdempty = false := by
  cases n with
  | zero => cases h
  | succ n =>
    rw [txiq_succ, Txiq.step] at h
    obtain ⟨hne, hst⟩ := Txiq.of_nextState_rdSamples h
    refine Bool.eq_false_iff.2 fun he => ?_
    rcases hsole n he with h' | h'
    · rw [hne] at h'
      cases h'
    · exact hst (readAt_eq_true.1 h').1

/-- A burst goes on to its next word unless the FIFO is empty where the serialiser looks at it. -/
theorem reads_or_zeros (hsole : SoleReader c x) (v : Nat) : LeadsTo (RdAt c x v) fun n =>
    RdAt c x v n ∧ (readAt c x n = true ∨ (pulseAt c x n).txiq.currentState = .zeroSamples) := by
  refine LeadsTo.variant (fun n => lookIn c.mode (pulseAt c x n).txiq) fun n h => ?_
  cases hr : readAt c x n with
  | true => exact ⟨n, Nat.le_refl n, .inl ⟨h, .inl hr⟩⟩
  | false =>
    have h' := h.succ hr
    have hne : (pulseAt c x n).txiq.currentState ≠ .rdSamples := fun hst => by
      rw [readAt_eq_true.2 ⟨hst, nonempty_of_rdSamples hsole hst⟩] at hr
      cases hr
    refine ⟨n + 1, Nat.le_succ n, ?_⟩
    rcases look_step h hne with hst | hlt
    · left
      cases hemp : (x n).fifoRdempty with
      | true =>
        rw [hemp] at hst
        exact ⟨h', .inr hst⟩
      | false =>
        rw [hemp] at hst
        exact ⟨h', .inl (readAt_eq_true.2 ⟨hst, nonempty_of_rdSamples hsole hst⟩)⟩
    · exact .inr ⟨h', hlt⟩

/-- A word that is ready is read. -/
theorem reads_ready (hsole : SoleReader c x) (v : Nat) :
    LeadsTo (fun n => RdAt c x v n ∧ (x n).fifoRdempty = false)
      fun n => RdAt c x v n ∧ readAt c x n = true := by
  refine LeadsTo.variant (fun n => lookIn c.mode (pulseAt c x n).txiq) fun n ⟨hrd, hemp⟩ => ?_
  cases hr : readAt c x n with
  | true => exact ⟨n, Nat.le_refl n, .inl ⟨hrd, hr⟩⟩
  | false =>
    have hrd' := hrd.succ hr
    have hemp' : (x (n + 1)).fifoRdempty = false := by
      refine Bool.eq_false_iff.2 fun he => ?_
      rcases hsole n he with h | h
      · rw [hemp] at h; cases h
      · rw [hr] at h; cases h
    have hne : (pulseAt c x n).txiq.currentState ≠ .rdSamples := fun hst => by
      rw [readAt_eq_true.2 ⟨hst, hemp⟩] at hr
      cases hr
    refine ⟨n + 1, Nat.le_succ n, ?_⟩
    rcases look_step hrd hne with hst | hlt
    · rw [hemp] at hst
      exact .inl ⟨hrd', readAt_eq_true.2 ⟨hst, hemp'⟩⟩
    · exact .inr ⟨⟨hrd', hemp'⟩, hlt⟩

/-- A burst goes on to its next word. -/
theorem reads_next (hsole : SoleReader c x) (hmore : ∀ n, ∃ k, n ≤ k ∧ (x k).fifoRdempty = false)
    (v : Nat) : LeadsTo (RdAt c x v) fun n => RdAt c x v n ∧ readAt c x n = true := by
  have hwait : LeadsTo (fun n => RdAt c x v n ∧ readAt c x n = false)
      fun n => RdAt c x v n ∧ readAt c x n = true := by
    refine LeadsTo.wait (H := fun n => (x n).fifoRdempty = false) (fun n h => ?_)
      (fun n h hemp => reads_ready hsole v n ⟨h.1, hemp⟩) hmore
    have h' := h.1.succ h.2
    cases hr : readAt c x (n + 1) with
    | false => exact .inl ⟨h', rfl⟩
    | true => exact .inr ⟨h', rfl⟩
  intro n h
  cases hr : readAt c x n with
  | false => exact hwait n ⟨h, hr⟩
  | true => exact ⟨n, Nat.le_refl n, h, hr⟩

/-- A burst that has begun is read to its end. -/
theorem burst_ends (hw : c.words ≠ 0) (hsole : SoleReader c x)
    (hmore : ∀ n, ∃ k, n ≤ k ∧ (x k).fifoRdempty = false) :
    LeadsTo (fun n => (ctrlAt c x n).currentState = .rdSamples)
      fun n => (ctrlAt c x n).currentState = .txantDisWait := by
  refine LeadsTo.variant (fun n => c.words - burstReads c x n) fun n hrd => ?_
  obtain ⟨m, hm, ⟨hrd', hv⟩, hr⟩ := reads_next hsole hmore (burstReads c x n) n ⟨hrd, rfl⟩
  have hlt := ((counted hw m).rd hrd').1
  have hcount := burstReads_succ (c := c) (x := x) m
  rw [if_neg (by rw [hrd']; decide), if_pos hr] at hcount
  refine ⟨m + 1, by omega, ?_⟩
  have hnext := ctrl_next (c := c) (x := x) m
  rw [TxiqCtrl.nextState, hrd'] at hnext
  by_cases hend : (ctrlAt c x m).cntMax.toNat ≤ (ctrlAt c x m).cnt.toNat ∧ readAt c x m
  · exact .inl (hnext.trans (if_pos hend))
  · exact .inr ⟨hnext.trans (if_neg hend), by omega⟩

/-- Nothing has been read when a burst is about to begin. -/
theorem burstReads_of_wait (n : Nat) (h : (ctrlAt c x n).currentState = .txantEnableWait) :
    burstReads c x n = 0 := by
  induction n with
  | zero => rfl
  | succ n ih =>
    have hnext := ctrl_next (c := c) (x := x) n
    have hcount := burstReads_succ (c := c) (x := x) n
    rw [h, TxiqCtrl.nextState] at hnext
    cases hst : (ctrlAt c x n).currentState with
    | idle =>
      rw [if_pos hst] at hcount
      exact hcount
    | txantEnableWait =>
      have hno : readAt c x n = false := Bool.eq_false_iff.2 fun hr => by
        rw [rd_of_read hr] at hst
        cases hst
      rw [if_neg (by rw [hst]; decide), hno, if_neg (by decide)] at hcount
      exact hcount.trans (ih hst)
    | rdSamples =>
      simp only [hst] at hnext
      split at hnext <;> cases hnext
    | txantDisWait =>
      simp only [hst] at hnext
      split at hnext <;> cases hnext
    | waitRdCycles =>
      simp only [hst] at hnext
      cases hnext

/-- The wait for the antenna ends, and the burst begins. -/
theorem wait_leads : LeadsTo (fun n => (ctrlAt c x n).currentState = .txantEnableWait)
    (RdAt c x 0) := by
  refine LeadsTo.variant (fun n => (ctrlAt c x n).txantEnWaitCnt.toNat) fun n hst => ?_
  have hnext := ctrl_next (c := c) (x := x) n
  rw [TxiqCtrl.nextState, hst] at hnext
  refine ⟨n + 1, Nat.le_succ n, ?_⟩
  by_cases h0 : (ctrlAt c x n).txantEnWaitCnt = 0
  · left
    have hno : readAt c x n = false := Bool.eq_false_iff.2 fun hr => by
      rw [rd_of_read hr] at hst
      cases hst
    have hcount := burstReads_succ (c := c) (x := x) n
    rw [if_neg (by rw [hst]; decide), hno, if_neg (by decide), burstReads_of_wait n hst] at hcount
    exact ⟨hnext.trans (if_pos h0), hcount⟩
  · refine .inr ⟨hnext.trans (if_neg h0), ?_⟩
    have hdec : (ctrlAt c x (n + 1)).txantEnWaitCnt = (ctrlAt c x n).txantEnWaitCnt - 1 :=
      if_pos hst
    rw [hdec]
    have : (ctrlAt c x n).txantEnWaitCnt.toNat ≠ 0 := fun hz => h0 (BitVec.eq_of_toNat_eq hz)
    bv_omega

theorem wait_ends : LeadsTo (fun n => (ctrlAt c x n).currentState = .txantEnableWait)
    fun n => (ctrlAt c x n).currentState = .rdSamples :=
  wait_leads.trans (LeadsTo.of_imp fun _ h => h.1)

/-! ### Triggers -/

/-- The inputs of two runs differ only in triggers that come in a burst of the first. -/
structure OtherTriggers (c : TxSettings) (x y : Nat → BurstIn w) : Prop where
  fifo : ∀ t, (y t).fifoRdempty = (x t).fifoRdempty ∧ (y t).fifoQ = (x t).fifoQ
  idle : ∀ t, (ctrlAt c x t).currentState = .idle →
    (y t).pctSyncPulse = (x t).pctSyncPulse ∧ (y t).pctBuffRdy = (x t).pctBuffRdy

/-- A trigger in a burst leaves no trace. -/
theorem other_triggers {y : Nat → BurstIn w} (h : OtherTriggers c x y) (n : Nat) :
    pulseAt c y n = pulseAt c x n := by
  induction n with
  | zero => rfl
  | succ n ih =>
    obtain ⟨he, hq⟩ := h.fifo n
    show step true c (pulseAt c y n) (y n) = step true c (pulseAt c x n) (x n)
    have hread : (pulseAt c x n).fifoRdreq (y n) = (pulseAt c x n).fifoRdreq (x n) := by
      rw [fifoRdreq, he, ← fifoRdreq]
    have hctrl : (ctrlAt c x n).nextState (y n).pctBuffRdy (y n).pctSyncPulse
        ((pulseAt c x n).fifoRdreq (x n)) = (ctrlAt c x n).nextState (x n).pctBuffRdy
        (x n).pctSyncPulse ((pulseAt c x n).fifoRdreq (x n)) := by
      by_cases hi : (ctrlAt c x n).currentState = .idle
      · obtain ⟨h1, h2⟩ := h.idle n hi
        rw [h1, h2]
      · cases hst : (ctrlAt c x n).currentState with
        | idle => exact absurd hst hi
        | txantEnableWait => rw [TxiqCtrl.nextState, TxiqCtrl.nextState, hst]
        | rdSamples => rw [TxiqCtrl.nextState, TxiqCtrl.nextState, hst]
        | txantDisWait => rw [TxiqCtrl.nextState, TxiqCtrl.nextState, hst]
        | waitRdCycles => rw [TxiqCtrl.nextState, TxiqCtrl.nextState, hst]
    rw [ih, step, step, he, hq, hread, TxiqCtrl.step, TxiqCtrl.step, hctrl]

/-- Every burst has its exact length. -/
structure Bursts (c : TxSettings) (x : Nat → BurstIn w) : Prop where
  /-- No word is read outside a burst. -/
  inside : ∀ t, readAt c x t = true → (ctrlAt c x t).currentState = .rdSamples
  /-- A burst begins with no word read, never reads too many, and is over with all words read. -/
  begins : ∀ t, (ctrlAt c x t).currentState = .txantEnableWait → burstReads c x t = 0
  most : ∀ t, burstReads c x t ≤ c.words
  all : ∀ t, (ctrlAt c x t).currentState = .txantDisWait → burstReads c x t = c.words
  /-- A burst is over some time if words keep coming. -/
  ends : SoleReader c x → (∀ n, ∃ k, n ≤ k ∧ (x k).fifoRdempty = false) →
    LeadsTo (fun n => (ctrlAt c x n).currentState = .txantEnableWait)
      fun n => (ctrlAt c x n).currentState = .txantDisWait
  /-- Triggers within a burst change nothing. -/
  triggers : ∀ y, OtherTriggers c x y → ∀ n, pulseAt c y n = pulseAt c x n
  /-- The antenna is on from long enough before the first until after the last read of a burst. -/
  antenna : ∀ t1 t2, readAt c x t1 = true → readAt c x t2 = true →
    (∀ k, t1 ≤ k → k ≤ t2 → (ctrlAt c x k).currentState ≠ .idle) →
    c.txantCycBeforeEn.toNat ≤ t1 ∧ ∀ k, t1 ≤ k + c.txantCycBeforeEn.toNat → k ≤ t2 + 1 →
      (pulseAt c x k).txantEnMux = true

theorem bursts (hw : c.words ≠ 0) : Bursts c x where
  inside _ h := rd_of_read h
  begins t := (counted hw t).wait
  most t := (counted hw t).le
  all t := (counted hw t).dis
  ends hsole hmore := wait_ends.trans (burst_ends hw hsole hmore)
  triggers _ h := other_triggers h
  antenna _ _ h1 h2 hi := antenna h1 h2 hi

/-- A trigger and a word in every clock. -/
def eager (w : Nat) : Nat → BurstIn w := fun _ => ⟨true, true, false, 0⟩

/-- `cnt_max` of a burst of no words is the largest count there is. -/
theorem not_bursts_eager (hw : c.words = 0) : ¬ Bursts c (eager w) := by
  intro h
  have hw1 : (ctrlAt c (eager w) 1).currentState = .txantEnableWait := rfl
  obtain ⟨m, -, hm⟩ := wait_ends 1 hw1
  obtain ⟨k, -, hk, hr⟩ := reads_ready (c := c) (x := eager w) nofun _ m ⟨⟨hm, rfl⟩, rfl⟩
  have hcount := burstReads_succ (c := c) (x := eager w) k
  rw [if_neg (by rw [hk.1]; decide), if_pos hr] at hcount
  have := h.most (k + 1)
  omega

end Fifo2diq

/-- Whatever the triggers and the sample FIFO do, every burst has its exact length, unless the length
    is zero. -/
theorem triggered_bursts (w : Nat) (c : TxSettings) :
    (∀ x : Nat → BurstIn w, Fifo2diq.Bursts c x) ↔ c.words ≠ 0 :=
  ⟨fun h hw => Fifo2diq.not_bursts_eager hw (h _), fun hw _ => Fifo2diq.bursts hw⟩

/-- A burst of size zero. -/
theorem triggered_bursts_zero :
    ¬ ∀ (w : Nat) (c : TxSettings) (x : Nat → BurstIn w), Fifo2diq.Bursts c x := fun h =>
  Fifo2diq.not_bursts_eager (w := 12) (c := ⟨⟨false, true, false, 3, false⟩, 0, 0, 0⟩) rfl (h _ _ _)

end Tx
