import LimeSdrGw.Clocked.Progress
import LimeSdrGw.Clocked.Machine
/-
# `smpl_cmp`: comparing the samples with a pattern

Held in reset while `cmp_start` is low, the block waits five clocks from its rise for its registers to
fill and then compares until `cmp_length` has passed or a difference is seen. The first thing it
compares is the zero the reset has left in the input registers, which looks like a frame of channel A;
the flags of a channel stand until its next frame.

| here | there |
| --- | --- |
| `SmplCmp`, `.step`   | smpl_cmp.vhd:59-302 |
| `cmpAI` ..           | diq2fifo.vhd:174-177 |
| reset by `cmpStart`  | diq2fifo.vhd:154 |

Left out are the mode settings, which nothing reads. Counters are kept below their moduli.
-/
namespace Rx

open Clocked

inductive CmpState
  | idle
  | waitCyc
  | compare
  | compareDone
deriving Repr, DecidableEq

structure CmpIn where
  cmpStart : Bool
  fidm : Bool
  diqH : BitVec 13
  diqL : BitVec 13
deriving Repr, DecidableEq

structure SmplCmp where
  diqHReg : BitVec 13
  diqLReg : BitVec 13
  fidmReg : Bool
  cmpStartReg : Bool
  aiErr : Bool
  aqErr : Bool
  biErr : Bool
  bqErr : Bool
  iqSelErr : Bool
  smplErr : Bool
  compareCnt : Nat
  compareStop : Bool
  waitCnt : Nat
  smplErrCnt : Nat
  cmpErrorCntReg : Nat
  currentState : CmpState
  cmpDoneReg : Bool
  cmpErrorReg : Bool
deriving Repr, DecidableEq

def cmpAI : BitVec 12 := 0xAAA
def cmpAQ : BitVec 12 := 0x555
def cmpBI : BitVec 12 := 0xAAA
def cmpBQ : BitVec 12 := 0x555

/-- The frame bit and the sample of a word of the bus. -/
def iqSel (w : BitVec 13) : Bool := w.getLsbD 12
def iqSmpl (w : BitVec 13) : BitVec 12 := w.setWidth 12

namespace SmplCmp

def init : SmplCmp :=
  ⟨0, 0, false, false, false, false, false, false, false, false, 0, false, 0, 0, 0, .idle, false,
    false⟩

variable (cmpLength : BitVec 16) (s : SmplCmp) (i : CmpIn)

def frameA : Bool := iqSel s.diqHReg == s.fidmReg && iqSel s.diqLReg == s.fidmReg
def frameB : Bool := iqSel s.diqHReg != s.fidmReg && iqSel s.diqLReg != s.fidmReg

def next : CmpState :=
  match s.currentState with
  | .idle => if i.cmpStart && !s.cmpStartReg then .waitCyc else .idle
  | .waitCyc => if 3 < s.waitCnt then .compare else .waitCyc
  | .compare => if s.compareStop || s.smplErr then .compareDone else .compare
  | .compareDone => .idle

/-- One clock out of reset. -/
def run : SmplCmp where
  diqHReg := i.diqH
  diqLReg := i.diqL
  fidmReg := i.fidm
  cmpStartReg := i.cmpStart
  aiErr := if s.frameA then iqSmpl s.diqLReg != cmpAI else s.aiErr
  aqErr := if s.frameA then iqSmpl s.diqHReg != cmpAQ else s.aqErr
  biErr := if s.frameB then iqSmpl s.diqLReg != cmpBI else s.biErr
  bqErr := if s.frameB then iqSmpl s.diqHReg != cmpBQ else s.bqErr
  iqSelErr := iqSel s.diqHReg != iqSel s.diqLReg
  smplErr := s.aiErr || s.aqErr || s.biErr || s.bqErr || s.iqSelErr
  compareCnt := if s.currentState = .compare then (s.compareCnt + 1) % 65536 else 0
  compareStop := decide ((cmpLength - 1).toNat < s.compareCnt)
  waitCnt := if s.currentState = .waitCyc then (s.waitCnt + 1) % 16 else 0
  smplErrCnt :=
    if s.currentState = .compare then
      if s.smplErr then (s.smplErrCnt + 1) % 65536 else s.smplErrCnt
    else 0
  cmpErrorCntReg :=
    if s.currentState = .compareDone then s.smplErrCnt
    else if s.currentState = .compare then 0
    else s.cmpErrorCntReg
  currentState := s.next i
  cmpDoneReg :=
    if s.currentState = .compareDone then true
    else if s.currentState = .idle ∧ i.cmpStart = false then false
    else s.cmpDoneReg
  cmpErrorReg :=
    if s.smplErr ∧ s.currentState = .compare then true
    else if s.currentState = .idle ∧ i.cmpStart = false then false
    else s.cmpErrorReg

/-- A clock at whose end `cmp_start` is low leaves the block in reset. -/
def step : SmplCmp := if i.cmpStart then s.run cmpLength i else init

/-- The outputs see the asynchronous reset at once. -/
def cmpDone : Bool := i.cmpStart && s.cmpDoneReg
def cmpError : Bool := i.cmpStart && s.cmpErrorReg
def cmpErrorCnt : Nat := if i.cmpStart then s.cmpErrorCntReg else 0

def machine : Machine SmplCmp CmpIn := ⟨init, step cmpLength⟩

end SmplCmp

/-- A sample that is not as expected: unequal frame bits, or another value than that of its channel. -/
def CmpIn.frameA (i : CmpIn) : Bool := iqSel i.diqH == i.fidm && iqSel i.diqL == i.fidm
def CmpIn.frameB (i : CmpIn) : Bool := iqSel i.diqH != i.fidm && iqSel i.diqL != i.fidm

def CmpIn.differs (i : CmpIn) : Bool :=
  iqSel i.diqH != iqSel i.diqL ||
    i.frameA && (iqSmpl i.diqL != cmpAI || iqSmpl i.diqH != cmpAQ) ||
    i.frameB && (iqSmpl i.diqL != cmpBI || iqSmpl i.diqH != cmpBQ)

namespace SmplCmp

section verdict

variable (L : BitVec 16) (x : Nat → CmpIn) (a : Nat)

abbrev cmpAt (n : Nat) : SmplCmp := (machine L).state x n

/-- `cmp_start` rises in clock `a` and stays high. -/
structure Rises : Prop where
  low : ∀ n, a = n + 1 → (x n).cmpStart = false
  high : ∀ k, (x (a + k)).cmpStart = true

/-- `d` clocks after the rise the comparison is done for the first time. -/
def DoneAfter (d : Nat) : Prop :=
  (cmpAt L x (a + d)).cmpDone (x (a + d)) = true ∧
    ∀ k, k < d → (cmpAt L x (a + k)).cmpDone (x (a + k)) = false

/-- The verdict as it is to be: there is one after a bounded number of clocks, some window of at least
    `cmp_length` samples is watched, and without a difference there is no error. -/
structure VerdictRight : Prop where
  bounded : ∃ bound, ∀ y b, Rises y b → ∃ d, d ≤ bound ∧ DoneAfter L y b d
  window : ∃ first len, L.toNat ≤ len ∧ ∀ y b, Rises y b → ∀ d, DoneAfter L y b d →
    (∃ k, first ≤ k ∧ k < first + len ∧ (y (b + k)).differs = true) →
    (cmpAt L y (b + d)).cmpError (y (b + d)) = true
  clean : ∀ d, DoneAfter L x a d → (∀ k, k < d → (x (a + k)).differs = false) →
    (cmpAt L x (a + d)).cmpError (x (a + d)) = false

end verdict

section core

variable {L : BitVec 16} {z : Nat → CmpIn}

/-- The comparison is left in clock `6 + j`. -/
def leaves (L : BitVec 16) (z : Nat → CmpIn) (j : Nat) : Bool :=
  (cmpAt L z (6 + j)).compareStop || (cmpAt L z (6 + j)).smplErr

theorem cmpAt_succ (hz : ∀ k, (z k).cmpStart = true) (k : Nat) :
    cmpAt L z (k + 1) = (cmpAt L z k).run L (z k) := if_pos (hz k)

/-- The clocks the block waits for its registers. -/
theorem waiting (hz : ∀ k, (z k).cmpStart = true) {k : Nat} (hk : k ≤ 4) :
    (cmpAt L z (k + 1)).currentState = .waitCyc ∧ (cmpAt L z (k + 1)).waitCnt = k ∧
      (cmpAt L z (k + 1)).compareCnt = 0 ∧ (cmpAt L z (k + 1)).cmpDoneReg = false ∧
      (cmpAt L z (k + 1)).cmpErrorReg = false := by
  induction k with
  | zero =>
    rw [cmpAt_succ hz]
    simp [run, next, init, machine, hz 0]
  | succ k ih =>
    obtain ⟨hs, hw, hc, hd, he⟩ := ih (by omega)
    have hmod : (k + 1) % 16 = k + 1 := Nat.mod_eq_of_lt (by omega)
    have hwait : ¬ 3 < k := by omega
    rw [cmpAt_succ hz]
    simp [run, next, hs, hw, hd, he, hmod, hwait]

theorem opened (hz : ∀ k, (z k).cmpStart = true) :
    (cmpAt L z 6).currentState = .compare ∧ (cmpAt L z 6).compareCnt = 0 ∧
      (cmpAt L z 6).compareStop = false ∧ (cmpAt L z 6).cmpDoneReg = false ∧
      (cmpAt L z 6).cmpErrorReg = false := by
  obtain ⟨hs, hw, hc, hd, he⟩ := waiting (L := L) hz (Nat.le_refl 4)
  rw [cmpAt_succ hz 5]
  simp [run, next, hs, hw, hc, hd, he]

/-- As long as it is not left the comparison goes on and counts. -/
theorem comparing (hz : ∀ k, (z k).cmpStart = true) {j : Nat}
    (hj : ∀ i, i < j → leaves L z i = false) :
    (cmpAt L z (6 + j)).currentState = .compare ∧ (cmpAt L z (6 + j)).compareCnt = j % 65536 ∧
      (cmpAt L z (6 + j)).compareStop =
        (decide (0 < j) && decide ((L - 1).toNat < (j - 1) % 65536)) ∧
      (cmpAt L z (6 + j)).cmpDoneReg = false ∧ (cmpAt L z (6 + j)).cmpErrorReg = false := by
  induction j with
  | zero => simpa using opened hz
  | succ j ih =>
    obtain ⟨hs, hc, -, hd, he⟩ := ih fun i hi => hj i (by omega)
    have hleave := hj j (Nat.lt_succ_self j)
    rw [leaves, Bool.or_eq_false_iff] at hleave
    have hcnt : (j % 65536 + 1) % 65536 = (j + 1) % 65536 := by omega
    rw [← Nat.add_assoc, cmpAt_succ hz]
    simp [run, next, hs, hc, hd, he, hleave.1, hleave.2, hcnt]

theorem notDone_before (hz : ∀ k, (z k).cmpStart = true) {j k : Nat}
    (hj : ∀ i, i < j → leaves L z i = false) (hk : k ≤ 6 + j) :
    (cmpAt L z k).cmpDoneReg = false := by
  rcases Nat.lt_or_ge k 6 with hlt | hge
  · cases k with
    | zero => rfl
    | succ k => exact (waiting hz (by omega)).2.2.2.1
  · obtain ⟨i, rfl⟩ := Nat.exists_eq_add_of_le hge
    exact (comparing hz fun i' hi' => hj i' (by omega)).2.2.2.1

/-- Two clocks after the comparison is left it is done; the error is that of the clock in which it
    was left. -/
theorem done_of_leaves (hz : ∀ k, (z k).cmpStart = true) {j : Nat}
    (hj : ∀ i, i < j → leaves L z i = false) (hl : leaves L z j = true) :
    (cmpAt L z (6 + j + 2)).cmpDoneReg = true ∧
      (∀ k, k < 6 + j + 2 → (cmpAt L z k).cmpDoneReg = false) ∧
      (cmpAt L z (6 + j + 2)).cmpErrorReg = (cmpAt L z (6 + j)).smplErr := by
  obtain ⟨hs, -, -, hd, he⟩ := comparing hz hj
  rw [leaves] at hl
  have hs' : (cmpAt L z (6 + j + 1)).currentState = .compareDone := by
    rw [cmpAt_succ hz]
    simp [run, next, hs, hl]
  have hd' : (cmpAt L z (6 + j + 1)).cmpDoneReg = false := by
    rw [cmpAt_succ hz]
    simp [run, hs, hd]
  have he' : (cmpAt L z (6 + j + 1)).cmpErrorReg = (cmpAt L z (6 + j)).smplErr := by
    rw [cmpAt_succ hz]
    cases h : (cmpAt L z (6 + j)).smplErr <;> simp [run, hs, he, h]
  refine ⟨?_, ?_, ?_⟩
  · rw [cmpAt_succ hz]
    simp [run, hs']
  · intro k hk
    rcases Nat.lt_or_ge k (6 + j + 1) with hlt | hge
    · exact notDone_before hz hj (by omega)
    · obtain rfl : k = 6 + j + 1 := by omega
      exact hd'
  · rw [cmpAt_succ hz (6 + j + 1)]
    simp [run, hs', he']

theorem done_cases (hz : ∀ k, (z k).cmpStart = true) {d : Nat}
    (hd : (cmpAt L z d).cmpDoneReg = true) (hfirst : ∀ k, k < d → (cmpAt L z k).cmpDoneReg = false) :
    ∃ j, d = 6 + j + 2 ∧ (∀ i, i < j → leaves L z i = false) ∧ leaves L z j = true := by
  by_cases hex : ∃ j, j < d ∧ leaves L z j = true
  · obtain ⟨j', -, hj'⟩ := hex
    obtain ⟨j, -, hl, hbefore⟩ := first_reached (p := fun j => leaves L z j = true) hj'
    have hj : ∀ i, i < j → leaves L z i = false := fun i hi => Bool.eq_false_iff.2 (hbefore i hi)
    obtain ⟨hdone, hnot, -⟩ := done_of_leaves hz hj hl
    refine ⟨j, ?_, hj, hl⟩
    rcases Nat.lt_trichotomy d (6 + j + 2) with hlt | heq | hgt
    · exact absurd (hd.symm.trans (hnot d hlt)) nofun
    · exact heq
    · exact absurd (hdone.symm.trans (hfirst _ hgt)) nofun
  · have hj : ∀ i, i < d → leaves L z i = false := fun i hi =>
      Bool.eq_false_iff.2 fun hl => hex ⟨i, hi, hl⟩
    exact absurd (hd.symm.trans (notDone_before hz hj (Nat.le_add_left d 6))) nofun

theorem toNat_pred (hL : L ≠ 0) : (L - 1).toNat = L.toNat - 1 ∧ 0 < L.toNat := by
  have hpos : 0 < L.toNat := by
    apply Nat.pos_of_ne_zero
    intro h
    exact hL (BitVec.eq_of_toNat_eq h)
  have hlt := L.isLt
  refine ⟨?_, hpos⟩
  rw [BitVec.toNat_sub]
  show (65536 - 1 + L.toNat) % 65536 = L.toNat - 1
  omega

/-- The counter stops the comparison `cmp_length + 1` clocks after it began, and no earlier. -/
theorem stop_iff (hz : ∀ k, (z k).cmpStart = true) (hL : L ≠ 0) {j : Nat}
    (hj : ∀ i, i < j → leaves L z i = false) (hle : j ≤ L.toNat + 1) :
    (cmpAt L z (6 + j)).compareStop = true ↔ j = L.toNat + 1 := by
  obtain ⟨hpred, hpos⟩ := toNat_pred hL
  have hlt := L.isLt
  have hmod : (j - 1) % 65536 = j - 1 := Nat.mod_eq_of_lt (by omega)
  rw [(comparing hz hj).2.2.1, hpred, hmod]
  simp only [Bool.and_eq_true, decide_eq_true_eq]
  omega

/-- A comparison of length 0 never stops of itself. -/
theorem stop_zero (hz : ∀ k, (z k).cmpStart = true) {j : Nat}
    (hj : ∀ i, i < j → leaves 0 z i = false) : (cmpAt 0 z (6 + j)).compareStop = false := by
  have hlt : ¬ (0 - 1 : BitVec 16).toNat < (j - 1) % 65536 := by
    have e : (0 - 1 : BitVec 16).toNat = 65535 := rfl
    omega
  rw [(comparing hz hj).2.2.1, decide_eq_false hlt, Bool.and_false]

/-- The flags two clocks after a sample. -/
theorem flags_succ (hz : ∀ k, (z k).cmpStart = true) (k : Nat) :
    (cmpAt L z (k + 2)).aiErr = (if (z k).frameA then iqSmpl (z k).diqL != cmpAI
      else (cmpAt L z (k + 1)).aiErr) ∧
    (cmpAt L z (k + 2)).aqErr = (if (z k).frameA then iqSmpl (z k).diqH != cmpAQ
      else (cmpAt L z (k + 1)).aqErr) ∧
    (cmpAt L z (k + 2)).biErr = (if (z k).frameB then iqSmpl (z k).diqL != cmpBI
      else (cmpAt L z (k + 1)).biErr) ∧
    (cmpAt L z (k + 2)).bqErr = (if (z k).frameB then iqSmpl (z k).diqH != cmpBQ
      else (cmpAt L z (k + 1)).bqErr) ∧
    (cmpAt L z (k + 2)).iqSelErr = (iqSel (z k).diqH != iqSel (z k).diqL) := by
  rw [cmpAt_succ hz (k + 1), cmpAt_succ hz k]
  exact ⟨rfl, rfl, rfl, rfl, rfl⟩

/-- What the reset has left is compared in the first clock. -/
theorem flags_one (hz : ∀ k, (z k).cmpStart = true) :
    (cmpAt L z 1).aiErr = true ∧ (cmpAt L z 1).biErr = false ∧ (cmpAt L z 1).bqErr = false ∧
      (cmpAt L z 1).iqSelErr = false := by
  have h0 : cmpAt L z 0 = init := rfl
  rw [cmpAt_succ hz, h0]
  simp [run, init, frameA, frameB, iqSel, iqSmpl, cmpAI]

theorem smplErr_succ (hz : ∀ k, (z k).cmpStart = true) (k : Nat) :
    (cmpAt L z (k + 1)).smplErr = ((cmpAt L z k).aiErr || (cmpAt L z k).aqErr ||
      (cmpAt L z k).biErr || (cmpAt L z k).bqErr || (cmpAt L z k).iqSelErr) := by
  rw [cmpAt_succ hz]
  rfl

theorem smplErr_of_differs (hz : ∀ k, (z k).cmpStart = true) {k : Nat}
    (h : (z k).differs = true) : (cmpAt L z (k + 3)).smplErr = true := by
  obtain ⟨hai, haq, hbi, hbq, hsel⟩ := flags_succ (L := L) hz k
  rw [smplErr_succ hz, hai, haq, hbi, hbq, hsel]
  unfold CmpIn.differs at h
  grind

theorem flags_clean (hz : ∀ k, (z k).cmpStart = true) {m : Nat}
    (h : ∀ k, k < m → (z k).differs = false) {k : Nat} (hk : k ≤ m) :
    (cmpAt L z (k + 1)).biErr = false ∧ (cmpAt L z (k + 1)).bqErr = false ∧
      (cmpAt L z (k + 1)).iqSelErr = false := by
  induction k with
  | zero => exact (flags_one hz).2
  | succ k ih =>
    obtain ⟨hbi', hbq', -⟩ := ih (by omega)
    obtain ⟨-, -, hbi, hbq, hsel⟩ := flags_succ (L := L) hz k
    have hdiff := h k hk
    rw [hbi, hbq, hsel, hbi', hbq']
    unfold CmpIn.differs at hdiff
    grind

/-- From the first frame of channel A on its flags tell about samples. -/
theorem flagsA_clean (hz : ∀ k, (z k).cmpStart = true) {m p : Nat}
    (h : ∀ k, k < m → (z k).differs = false) (hp : (z p).frameA = true) {k : Nat} (hpk : p < k)
    (hk : k ≤ m) : (cmpAt L z (k + 1)).aiErr = false ∧ (cmpAt L z (k + 1)).aqErr = false := by
  induction k with
  | zero => omega
  | succ k ih =>
    obtain ⟨hai, haq, -⟩ := flags_succ (L := L) hz k
    have hdiff := h k hk
    rw [hai, haq]
    unfold CmpIn.differs at hdiff
    rcases Nat.lt_or_eq_of_le (Nat.le_of_lt_succ hpk) with hlt | rfl
    · obtain ⟨hai', haq'⟩ := ih hlt (by omega)
      rw [hai', haq']
      grind
    · rw [if_pos hp, if_pos hp]
      grind

/-- Before it they tell about what the reset left. -/
theorem flagsA_reset (hz : ∀ k, (z k).cmpStart = true) {m : Nat}
    (h : ∀ k, k < m → (z k).frameA = false) {k : Nat} (hk : k ≤ m) :
    (cmpAt L z (k + 1)).aiErr = true := by
  induction k with
  | zero => exact (flags_one hz).1
  | succ k ih =>
    rw [(flags_succ hz k).1, h k hk]
    exact ih (by omega)

/-- The verdict comes in time unless the length is 0. -/
theorem done_in_time (hz : ∀ k, (z k).cmpStart = true) (hL : L ≠ 0) :
    ∃ d, d ≤ L.toNat + 9 ∧ (cmpAt L z d).cmpDoneReg = true ∧
      ∀ k, k < d → (cmpAt L z k).cmpDoneReg = false := by
  have hex : ∃ j, j ≤ L.toNat + 1 ∧ leaves L z j = true := by
    by_cases h : ∃ j, j < L.toNat + 1 ∧ leaves L z j = true
    · obtain ⟨j, hj, hl⟩ := h
      exact ⟨j, Nat.le_of_lt hj, hl⟩
    · have hj : ∀ i, i < L.toNat + 1 → leaves L z i = false := fun i hi =>
        Bool.eq_false_iff.2 fun hl => h ⟨i, hi, hl⟩
      refine ⟨L.toNat + 1, Nat.le_refl _, ?_⟩
      rw [leaves, (stop_iff hz hL hj (Nat.le_refl _)).2 rfl]
      rfl
  obtain ⟨n, hn, hl⟩ := hex
  obtain ⟨j, hjn, hl, hbefore⟩ := first_reached (p := fun j => leaves L z j = true) hl
  have hj : ∀ i, i < j → leaves L z i = false := fun i hi => Bool.eq_false_iff.2 (hbefore i hi)
  obtain ⟨hdone, hnot, -⟩ := done_of_leaves hz hj hl
  exact ⟨6 + j + 2, by omega, hdone, hnot⟩

/-- Differences from the fourth sample on are seen, over two samples more than the length. -/
theorem error_of_differs (hz : ∀ k, (z k).cmpStart = true) (hL : L ≠ 0) {d : Nat}
    (hd : (cmpAt L z d).cmpDoneReg = true) (hfirst : ∀ k, k < d → (cmpAt L z k).cmpDoneReg = false)
    {k : Nat} (hk : 3 ≤ k) (hk' : k < 3 + (L.toNat + 2)) (hdiff : (z k).differs = true) :
    (cmpAt L z d).cmpErrorReg = true := by
  obtain ⟨j, rfl, hj, hl⟩ := done_cases hz hd hfirst
  rw [(done_of_leaves hz hj hl).2.2]
  have hseen := smplErr_of_differs (L := L) hz hdiff
  obtain ⟨i, rfl⟩ := Nat.exists_eq_add_of_le hk
  have hclock : 3 + i + 3 = 6 + i := by omega
  rw [hclock] at hseen
  have hleave : leaves L z i = true := by rw [leaves, hseen, Bool.or_true]
  rcases Nat.lt_trichotomy i j with hlt | rfl | hgt
  · exact absurd (hleave.symm.trans (hj i hlt)) nofun
  · exact hseen
  · -- it was left before: not by the counter
    have hstop : (cmpAt L z (6 + j)).compareStop = false := by
      apply Bool.eq_false_iff.2
      intro h
      have := (stop_iff hz hL hj (by omega)).1 h
      omega
    rw [leaves, hstop, Bool.false_or] at hl
    exact hl

theorem clean_of_frameA (hz : ∀ k, (z k).cmpStart = true) {d p : Nat}
    (hd : (cmpAt L z d).cmpDoneReg = true) (hfirst : ∀ k, k < d → (cmpAt L z k).cmpDoneReg = false)
    (hp : p < 4) (hA : (z p).frameA = true) (h : ∀ k, k < d → (z k).differs = false) :
    (cmpAt L z d).cmpErrorReg = false := by
  obtain ⟨j, rfl, hj, hl⟩ := done_cases hz hd hfirst
  have hclock : 6 + j = 4 + j + 1 + 1 := by omega
  obtain ⟨hbi, hbq, hsel⟩ := flags_clean (L := L) hz h (k := 4 + j) (by omega)
  obtain ⟨hai, haq⟩ := flagsA_clean (L := L) hz h hA (k := 4 + j) (by omega) (by omega)
  rw [(done_of_leaves hz hj hl).2.2, hclock, smplErr_succ hz, hai, haq, hbi, hbq, hsel]
  rfl

/-- Without a frame of channel A in time the zero of the reset is taken for a difference. -/
theorem error_of_no_frameA (hz : ∀ k, (z k).cmpStart = true)
    (h : ∀ k, k < 4 → (z k).frameA = false) : (cmpAt L z 8).cmpDoneReg = true ∧
      (∀ k, k < 8 → (cmpAt L z k).cmpDoneReg = false) ∧ (cmpAt L z 8).cmpErrorReg = true := by
  have hseen : (cmpAt L z 6).smplErr = true := by
    rw [smplErr_succ hz, flagsA_reset hz h (Nat.le_refl 4)]
    rfl
  have hl : leaves L z 0 = true := by
    rw [leaves, Nat.add_zero, hseen, Bool.or_true]
  obtain ⟨hdone, hnot, herr⟩ := done_of_leaves hz (fun i hi => absurd hi (Nat.not_lt_zero i)) hl
  exact ⟨hdone, hnot, herr.trans hseen⟩

end core

section runs

variable {L : BitVec 16} {x : Nat → CmpIn} {a : Nat}

theorem Rises.at_init (h : Rises x a) : cmpAt L x a = init := by
  cases a with
  | zero => rfl
  | succ n =>
    have hlow := h.low n rfl
    show step L (cmpAt L x n) (x n) = init
    rw [step, hlow]
    rfl

/-- From the rise of `cmp_start` on a run is one from reset. -/
theorem Rises.cmpAt_add (h : Rises x a) (k : Nat) :
    cmpAt L x (a + k) = cmpAt L (fun k => x (a + k)) k := by
  have hinit : (machine L).state x a = init := h.at_init
  show (machine L).state x (a + k) = _
  rw [Machine.state_add, hinit]
  rfl

theorem Rises.done_iff (h : Rises x a) (k : Nat) : (cmpAt L x (a + k)).cmpDone (x (a + k)) =
    (cmpAt L (fun k => x (a + k)) k).cmpDoneReg := by
  rw [cmpDone, h.high, h.cmpAt_add]
  rfl

theorem Rises.error_iff (h : Rises x a) (k : Nat) : (cmpAt L x (a + k)).cmpError (x (a + k)) =
    (cmpAt L (fun k => x (a + k)) k).cmpErrorReg := by
  rw [cmpError, h.high, h.cmpAt_add]
  rfl

theorem Rises.doneAfter_iff (h : Rises x a) (d : Nat) : DoneAfter L x a d ↔
    (cmpAt L (fun k => x (a + k)) d).cmpDoneReg = true ∧
      ∀ k, k < d → (cmpAt L (fun k => x (a + k)) k).cmpDoneReg = false := by
  simp only [DoneAfter, h.done_iff]

/-- A run in which every sample is a right frame of channel A. -/
def allRight (_ : Nat) : CmpIn := ⟨true, false, 0x0555, 0x0AAA⟩

/-- Nothing ends a comparison of length 0 but a difference. -/
theorem zero_never_done (d : Nat) : (cmpAt 0 allRight d).cmpDoneReg = false := by
  have hz : ∀ k, (allRight k).cmpStart = true := fun _ => rfl
  have hdiff : ∀ k, (allRight k).differs = false := by
    intro k
    show CmpIn.differs ⟨true, false, 0x0555, 0x0AAA⟩ = false
    decide
  have hj : ∀ j i, i < j → leaves 0 allRight i = false := by
    intro j
    induction j with
    | zero => exact fun i hi => absurd hi (Nat.not_lt_zero i)
    | succ j ih =>
      intro i hi
      rcases Nat.lt_or_eq_of_le (Nat.le_of_lt_succ hi) with hlt | rfl
      · exact ih i hlt
      · have hclock : 6 + i = 4 + i + 1 + 1 := by omega
        obtain ⟨hbi, hbq, hsel⟩ :=
          flags_clean (L := 0) hz (m := 4 + i) (fun k _ => hdiff k) (Nat.le_refl _)
        obtain ⟨hai, haq⟩ := flagsA_clean (L := 0) hz (m := 4 + i) (p := 0) (fun k _ => hdiff k) rfl
          (by omega) (Nat.le_refl _)
        rw [leaves, stop_zero hz ih, hclock, smplErr_succ hz, hai, haq, hbi, hbq, hsel]
        rfl
  exact notDone_before hz (hj d) (Nat.le_add_left d 6)

theorem allRight_rises : Rises allRight 0 := ⟨fun _ h => absurd h nofun, fun _ => rfl⟩

/-- The verdict is right exactly when the length is not 0 and channel A is there in time, or
    something differs then anyway. -/
theorem verdict_right_iff (h : Rises x a) : VerdictRight L x a ↔
    L ≠ 0 ∧ ((∃ k, k < 4 ∧ (x (a + k)).frameA = true) ∨
      ∃ k, k < 8 ∧ (x (a + k)).differs = true) := by
  constructor
  · rintro ⟨⟨bound, hbound⟩, -, hclean⟩
    constructor
    · rintro rfl
      obtain ⟨d, -, hd⟩ := hbound allRight 0 allRight_rises
      have hdone := ((allRight_rises.doneAfter_iff d).1 hd).1
      simp only [Nat.zero_add] at hdone
      exact absurd (hdone.symm.trans (zero_never_done d)) nofun
    · by_cases hA : ∃ k, k < 4 ∧ (x (a + k)).frameA = true
      · exact .inl hA
      · refine .inr ?_
        by_cases hdiff : ∃ k, k < 8 ∧ (x (a + k)).differs = true
        · exact hdiff
        · have hnone : ∀ k, k < 4 → (x (a + k)).frameA = false := fun k hk =>
            Bool.eq_false_iff.2 fun hf => hA ⟨k, hk, hf⟩
          obtain ⟨hdone, hnot, herr⟩ := error_of_no_frameA (L := L) h.high hnone
          have hzero := hclean 8 ((h.doneAfter_iff 8).2 ⟨hdone, hnot⟩) fun k hk =>
            Bool.eq_false_iff.2 fun hf => hdiff ⟨k, hk, hf⟩
          rw [h.error_iff] at hzero
          exact absurd (herr.symm.trans hzero) nofun
  · rintro ⟨hL, hA⟩
    refine ⟨⟨L.toNat + 9, ?_⟩, ⟨3, L.toNat + 2, Nat.le_add_right _ 2, ?_⟩, ?_⟩
    · intro y b hy
      obtain ⟨d, hle, hd⟩ := done_in_time hy.high hL
      exact ⟨d, hle, (hy.doneAfter_iff d).2 hd⟩
    · rintro y b hy d hd ⟨k, hk, hk', hdiff⟩
      obtain ⟨hdone, hnot⟩ := (hy.doneAfter_iff d).1 hd
      rw [hy.error_iff]
      exact error_of_differs hy.high hL hdone hnot hk hk' hdiff
    · intro d hd hdiff
      obtain ⟨hdone, hnot⟩ := (h.doneAfter_iff d).1 hd
      rw [h.error_iff]
      rcases hA with ⟨p, hp, hframe⟩ | ⟨k, hk, hdiff'⟩
      · exact clean_of_frameA h.high hdone hnot hp hframe hdiff
      · obtain ⟨j, rfl, -⟩ := done_cases h.high hdone hnot
        exact absurd (hdiff'.symm.trans (hdiff k (by omega))) nofun

end runs

theorem verdict_right_all : Rises allRight 0 ∧ VerdictRight 255 allRight 0 :=
  ⟨allRight_rises, (verdict_right_iff allRight_rises).2 ⟨by decide, .inl ⟨0, by decide, rfl⟩⟩⟩

/-- Every sample is a right frame of channel B. -/
def onlyB (_ : Nat) : CmpIn := ⟨true, false, 0x1555, 0x1AAA⟩

/-- With channel B alone nothing differs, and the verdict is an error. -/
theorem only_b_error : Rises onlyB 0 ∧ (∀ k, (onlyB k).differs = false) ∧
    DoneAfter 255 onlyB 0 8 ∧ (cmpAt 255 onlyB 8).cmpError (onlyB 8) = true ∧
    ¬ VerdictRight 255 onlyB 0 := by
  have hrises : Rises onlyB 0 := ⟨fun _ h => absurd h nofun, fun _ => rfl⟩
  have hdiff : ∀ k, (onlyB k).differs = false := by
    intro k
    show CmpIn.differs ⟨true, false, 0x1555, 0x1AAA⟩ = false
    decide
  have hdone : DoneAfter 255 onlyB 0 8 := ⟨by decide +kernel, by decide +kernel⟩
  have herr : (cmpAt 255 onlyB 8).cmpError (onlyB 8) = true := by decide +kernel
  refine ⟨hrises, hdiff, hdone, herr, fun h => ?_⟩
  exact absurd (herr.symm.trans (h.clean 8 hdone fun k _ => hdiff k)) nofun

end SmplCmp

end Rx
