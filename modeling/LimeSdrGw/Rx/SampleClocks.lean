import LimeSdrGw.Rx.Receiver
import LimeSdrGw.Rx.Timestamp
/-
# The two sample clocks

`iq_smpl_cnt` is the time base of the TX path. It runs with the clock, one sample in one or in two
clocks as the mode has it, and looks at no data. `smpl_cnt` counts the words read from the sample FIFO
and is the timestamp of RX packets. A clear sets both to zero, however many samples are on their way.

| here | there |
| --- | --- |
| `RxClocks`, `.step`  | rx_path_top.vhd:161-324 |
| `smplCntEnReg`       | diq2fifo.vhd:91-102 |
| `iqSmplCnt`          | iq_smpl_cnt.vhd:53-71 |
| `smplBuffRddata`     | rx_path_top.vhd:218-221, done here before the FIFO and not behind it |
| `unread`             | samples captured and not read: in the receiver, in its output registers, in the FIFO |
-/
namespace Rx

open Clocked Tx

def RxSetting.ch (st : RxSetting) : ChSetting := ⟨st.mimoEn, st.channels.chEn⟩

def smplBuffRddata (q : IqWord) : Word64 :=
  q.extractLsb' 36 12 ++ 0#4 ++ q.extractLsb' 24 12 ++ 0#4 ++ q.extractLsb' 12 12 ++ 0#4 ++
    q.extractLsb' 0 12 ++ 0#4

structure ClockIn where
  diq : DiqIn iqWidth
  pctHdr0 : Word64
  pctBuffWrusedw : Nat
  clrSmplNrSync : Bool
  ldSmplNrSync : Bool
  smplNrInSync : Word64

structure RxClocks (st : RxSetting) where
  rxiq : Rxiq st.receiver
  timed : RxTimed
  smplCntEnReg : Bool
  iqSmplCnt : Word64

namespace RxClocks

variable {st : RxSetting}

def init : RxClocks st := ⟨.init, .init, false, 0⟩

/-- Words in the sample FIFO. -/
def level (s : RxClocks st) : Nat := s.timed.former.smplBuff.items.length

def inst1Wrfull (s : RxClocks st) : Bool := decide (smplBuffWords ≤ s.level)

def timedIn (s : RxClocks st) (i : ClockIn) : TimedIn where
  pctHdr0 := i.pctHdr0
  smplWrreq := s.rxiq.fifoWrreq s.inst1Wrfull
  smplData := smplBuffRddata s.rxiq.fifoWdataReg
  pctBuffWrusedw := i.pctBuffWrusedw
  clrSmplNrSync := i.clrSmplNrSync
  ldSmplNrSync := i.ldSmplNrSync
  smplNrInSync := i.smplNrInSync

def step (sampleWidth : BitVec 2) (s : RxClocks st) (i : ClockIn) : RxClocks st where
  rxiq := s.rxiq.step i.diq s.inst1Wrfull
  timed := s.timed.step sampleWidth st.ch (s.timedIn i)
  smplCntEnReg := if !st.mimoEn && st.ddrEn then true else !s.smplCntEnReg
  iqSmplCnt := lpmCnt s.iqSmplCnt i.clrSmplNrSync i.ldSmplNrSync i.smplNrInSync s.smplCntEnReg

def machine (sampleWidth : BitVec 2) (st : RxSetting) : Machine (RxClocks st) ClockIn :=
  ⟨init, step sampleWidth⟩

def unread (s : RxClocks st) : Nat :=
  st.perWord * (s.level + s.rxiq.words) + st.receiver.held s.rxiq.inst

end RxClocks

section run

variable (sampleWidth : BitVec 2) (st : RxSetting) (x : Nat → ClockIn) (n : Nat)

abbrev clocksAt : RxClocks st := (RxClocks.machine sampleWidth st).state x n

/-- What `iq_smpl_cnt` is ahead of the samples read, whose count `smpl_cnt` shows one clock later, and
    of those captured and not read. -/
def drift : Word64 :=
  (clocksAt sampleWidth st x n).iqSmplCnt -
    ((clocksAt sampleWidth st x (n + 1)).timed.inst3.q + .ofNat 64 (clocksAt sampleWidth st x n).unread)

/-- The clock brings a valid frame. -/
def ValidAt : Prop := st.receiver.valid (clocksAt sampleWidth st x n).rxiq.inst (x n).diq = true

end run

/-- Neither cleared nor loaded in the clocks from `c` on and before `n`. -/
def Undisturbed (x : Nat → ClockIn) (c n : Nat) : Prop :=
  ∀ k, c ≤ k → k < n → (x k).clrSmplNrSync = false ∧ (x k).ldSmplNrSync = false

/-! ## One clock -/

section run

variable {wd : WidthSetting} {st : RxSetting} {x : Nat → ClockIn} {n : Nat}

theorem oneCh_chEn (mimo : Bool) (e : Enabled) :
    ChSetting.oneCh ⟨mimo, e.chEn⟩ = (e != .both) := by
  cases mimo <;> cases e <;> decide

theorem shifts_eq (st : RxSetting) : st.ch.shifts = (st.perWord == 2) := by
  rw [ChSetting.shifts, RxSetting.perWord, RxSetting.ch, oneCh_chEn]
  cases st.mimoEn <;> cases st.channels <;> rfl

theorem perWord_cases (st : RxSetting) : st.perWord = 1 ∨ st.perWord = 2 := by
  rw [RxSetting.perWord]
  split
  · exact .inl rfl
  · exact .inr rfl

theorem period_cases (st : RxSetting) : st.period = 1 ∨ st.period = 2 := by
  rw [RxSetting.period]
  split
  · exact .inl rfl
  · exact .inr rfl

/-- The packet former in place is the packet former with these inputs. -/
theorem timed_eq {sampleWidth : BitVec 2} (n : Nat) : (clocksAt sampleWidth st x n).timed =
    timedAt sampleWidth st.ch (fun k => (clocksAt sampleWidth st x k).timedIn (x k)) n :=
  Machine.state_part (RxClocks.machine sampleWidth st) RxClocks.timed
    (RxTimed.step sampleWidth st.ch) RxClocks.timedIn (fun _ _ => rfl) x n

/-- What the packet former is given in a clock. -/
def clocksFormIn (sampleWidth : BitVec 2) (st : RxSetting) (x : Nat → ClockIn) (n : Nat) : FormIn :=
  timedFormIn sampleWidth st.ch (fun k => (clocksAt sampleWidth st x k).timedIn (x k)) n

theorem clocksFormer_eq {sampleWidth : BitVec 2} (n : Nat) :
    (clocksAt sampleWidth st x n).timed.former =
      formerAt sampleWidth (clocksFormIn sampleWidth st x) n := by
  rw [timed_eq, timedFormer_eq]
  rfl

theorem level_of_read (h : (clocksAt wd st x n).timed.former.core.smplBuffRdreq = true) :
    0 < (clocksAt wd st x n).level := by
  rw [RxClocks.level]
  rw [clocksFormer_eq] at h ⊢
  exact List.length_pos_iff.2 (ne_nil_of_read h)

/-- What is in the registers and in the FIFO, counted in clocks. -/
def RxClocks.clocks (s : RxClocks st) : Nat :=
  st.period * st.perWord * (s.level + s.rxiq.words) + st.inStep.clocks s.rxiq.inst

theorem unread_eq (s : RxClocks st) : s.unread = s.clocks / st.period := by
  have hpos : 0 < st.period := by
    rcases period_cases st with h | h <;> rw [h] <;> decide
  rw [RxClocks.unread, RxClocks.clocks, st.inStep.held, Nat.mul_assoc, Nat.mul_add_div hpos]

variable (wd) in
/-- Nothing is lost while the FIFO is not full. -/
theorem RxClocks.words_step (s : RxClocks st) (i : ClockIn) (hroom : s.level < smplBuffWords)
    (hread : s.timed.former.core.smplBuffRdreq = true → 0 < s.level) :
    (s.step wd i).level + (s.step wd i).rxiq.words + s.timed.former.core.smplBuffRdreq.toNat =
      s.level + s.rxiq.words + (st.receiver.wrreq s.rxiq.inst).toNat := by
  have hfull : s.inst1Wrfull = false := decide_eq_false (Nat.not_le.2 hroom)
  have hwords : (s.step wd i).rxiq.words + s.rxiq.fifoWrreqReg.toNat =
      s.rxiq.words + (st.receiver.wrreq s.rxiq.inst).toNat := by
    rw [Rxiq.words, Rxiq.words]
    show (st.receiver.wrreq s.rxiq.inst && !s.inst1Wrfull).toNat +
      (s.rxiq.fifoWrreqReg0 && !s.inst1Wrfull).toNat + _ = _
    rw [hfull, Bool.not_false, Bool.and_true, Bool.and_true]
    omega
  have hpush : (Fifo.pushed smplBuffWords s.rxiq.fifoWrreqReg
      [smplBuffRddata s.rxiq.fifoWdataReg] s.timed.former.smplBuff.items).length =
      s.rxiq.fifoWrreqReg.toNat := by
    cases s.rxiq.fifoWrreqReg with
    | false => rfl
    | true => exact congrArg List.length (Fifo.pushed_true hroom)
  have hpop : (Fifo.popped s.timed.former.core.smplBuffRdreq s.timed.former.smplBuff.items).length +
      s.timed.former.core.smplBuffRdreq.toNat = s.level := by
    cases hrd : s.timed.former.core.smplBuffRdreq with
    | false => rfl
    | true =>
      have hpos := hread hrd
      rw [RxClocks.level] at hpos ⊢
      rw [Fifo.popped_true, List.length_tail, Bool.toNat_true]
      omega
  have hlevel : (s.step wd i).level + s.timed.former.core.smplBuffRdreq.toNat =
      s.level + s.rxiq.fifoWrreqReg.toNat := by
    have hwr : (s.timedIn i).smplWrreq = s.rxiq.fifoWrreqReg := by
      show (s.rxiq.fifoWrreqReg && !s.inst1Wrfull) = _
      rw [hfull, Bool.not_false, Bool.and_true]
    have hitems : (s.step wd i).timed.former.smplBuff.items =
        Fifo.popped s.timed.former.core.smplBuffRdreq s.timed.former.smplBuff.items ++
          Fifo.pushed smplBuffWords (s.timedIn i).smplWrreq [smplBuffRddata s.rxiq.fifoWdataReg]
            s.timed.former.smplBuff.items := rfl
    rw [RxClocks.level, hitems, hwr, List.length_append, hpush]
    omega
  omega

/-! ## From a clear on -/

variable (wd st x) in
theorem base_at (n : Nat) : st.inStep.Base (clocksAt wd st x n).rxiq.inst := by
  induction n with
  | zero => exact st.inStep.base_init
  | succ n ih => exact st.inStep.base_step _ _ ih

/-- With valid frames and room in the FIFO a clock adds a clock, less what is read. -/
theorem clocks_succ (hsteady : st.inStep.Steady (clocksAt wd st x n).rxiq.inst)
    (hvalid : ValidAt wd st x n) (hroom : (clocksAt wd st x n).level < smplBuffWords) :
    (clocksAt wd st x (n + 1)).clocks + st.period * st.perWord *
        (clocksAt wd st x n).timed.former.core.smplBuffRdreq.toNat =
      (clocksAt wd st x n).clocks + 1 := by
  have hwords := RxClocks.words_step wd (clocksAt wd st x n) (x n) hroom level_of_read
  have hcount := st.inStep.counts _ (x n).diq (base_at wd st x n) hsteady hvalid
  have hmul := congrArg (st.period * st.perWord * ·) hwords
  simp only [Nat.mul_add] at hmul
  rw [RxClocks.clocks, RxClocks.clocks, Nat.mul_add, Nat.mul_add]
  show st.period * st.perWord * ((clocksAt wd st x n).step wd (x n)).level +
    st.period * st.perWord * ((clocksAt wd st x n).step wd (x n)).rxiq.words +
    st.inStep.clocks (st.receiver.step (clocksAt wd st x n).rxiq.inst (x n).diq) + _ = _
  omega

/-- With the enable of `iq_smpl_cnt` in its second clock, one clock of a sample is over. -/
def RxClocks.phase (s : RxClocks st) : Nat := (st.period - 1) * s.smplCntEnReg.toNat

theorem phase_le (s : RxClocks st) : s.phase ≤ st.period - 1 :=
  Nat.le_trans (Nat.mul_le_mul_left _ (Bool.toNat_le _)) (Nat.le_of_eq (Nat.mul_one _))

variable (wd st x) in
/-- The enable is high in one clock of a sample. -/
theorem phase_succ (n : Nat) : (clocksAt wd st x (n + 2)).phase +
    st.period * (clocksAt wd st x (n + 1)).smplCntEnReg.toNat =
      (clocksAt wd st x (n + 1)).phase + 1 := by
  have hen : ∀ k, (clocksAt wd st x (k + 1)).smplCntEnReg =
    if !st.mimoEn && st.ddrEn then true else !(clocksAt wd st x k).smplCntEnReg := fun _ => rfl
  rw [RxClocks.phase, RxClocks.phase, RxSetting.period, hen (n + 1), hen n]
  cases st.mimoEn <;> cases st.ddrEn <;> cases (clocksAt wd st x n).smplCntEnReg <;> rfl

/-- What has happened in `d` clocks from `c` on: `r` words read and `e` samples counted. -/
structure Counts (wd : WidthSetting) (st : RxSetting) (x : Nat → ClockIn) (c d r e : Nat) : Prop where
  read : (clocksAt wd st x (c + d)).timed.inst3.inst0Q =
    (clocksAt wd st x c).timed.inst3.inst0Q + .ofNat 64 r
  counted : (clocksAt wd st x (c + d)).iqSmplCnt = (clocksAt wd st x c).iqSmplCnt + .ofNat 64 e
  clocks : (clocksAt wd st x (c + d)).clocks + st.period * st.perWord * r =
    (clocksAt wd st x c).clocks + d
  phase : (clocksAt wd st x (c + d)).phase + st.period * e = (clocksAt wd st x c).phase + d

/-- A counter that is neither cleared nor loaded. -/
theorem lpmCnt_run (q d : Word64) (en : Bool) :
    lpmCnt q false false d en = q + .ofNat 64 en.toNat := by
  cases en with
  | false => exact (BitVec.add_zero q).symm
  | true => rfl

theorem inst0Q_succ (hclr : (x n).clrSmplNrSync = false) (hld : (x n).ldSmplNrSync = false) :
    (clocksAt wd st x (n + 1)).timed.inst3.inst0Q = (clocksAt wd st x n).timed.inst3.inst0Q +
      .ofNat 64 (clocksAt wd st x n).timed.former.core.smplBuffRdreq.toNat := by
  have hstep : (clocksAt wd st x (n + 1)).timed.inst3.inst0Q =
      lpmCnt (clocksAt wd st x n).timed.inst3.inst0Q (x n).clrSmplNrSync (x n).ldSmplNrSync
        (x n).smplNrInSync (clocksAt wd st x n).timed.former.core.smplBuffRdreq := rfl
  rw [hstep, hclr, hld, lpmCnt_run]

theorem iqSmplCnt_succ (hclr : (x n).clrSmplNrSync = false) (hld : (x n).ldSmplNrSync = false) :
    (clocksAt wd st x (n + 1)).iqSmplCnt = (clocksAt wd st x n).iqSmplCnt +
      .ofNat 64 (clocksAt wd st x n).smplCntEnReg.toNat := by
  have hstep : (clocksAt wd st x (n + 1)).iqSmplCnt =
      lpmCnt (clocksAt wd st x n).iqSmplCnt (x n).clrSmplNrSync (x n).ldSmplNrSync
        (x n).smplNrInSync (clocksAt wd st x n).smplCntEnReg := rfl
  rw [hstep, hclr, hld, lpmCnt_run]

/-- From a clock behind a valid frame on. -/
theorem counts {b : Nat} (hvalid : ∀ n, b ≤ n → ValidAt wd st x n)
    (hroom : ∀ n, b < n → (clocksAt wd st x n).level < smplBuffWords) (d : Nat)
    (hund : Undisturbed x (b + 1) (b + 1 + d)) : ∃ r e, Counts wd st x (b + 1) d r e := by
  induction d with
  | zero => exact ⟨0, 0, (BitVec.add_zero _).symm, (BitVec.add_zero _).symm, rfl, rfl⟩
  | succ d ih =>
    obtain ⟨r, e, h⟩ := ih fun k h1 h2 => hund k h1 (by omega)
    obtain ⟨hclr, hld⟩ := hund (b + 1 + d) (by omega) (by omega)
    have hsteady : st.inStep.Steady (clocksAt wd st x (b + 1 + d)).rxiq.inst := by
      rw [show b + 1 + d = b + d + 1 by omega]
      exact st.inStep.enter _ _ (base_at wd st x (b + d)) (hvalid (b + d) (by omega))
    have hclocks := clocks_succ hsteady (hvalid _ (by omega)) (hroom _ (by omega))
    have hphase := phase_succ wd st x (b + d)
    rw [show b + d + 2 = b + 1 + (d + 1) by omega, show b + d + 1 = b + 1 + d by omega] at hphase
    refine ⟨r + (clocksAt wd st x (b + 1 + d)).timed.former.core.smplBuffRdreq.toNat,
      e + (clocksAt wd st x (b + 1 + d)).smplCntEnReg.toNat, ?_, ?_, ?_, ?_⟩
    · rw [show b + 1 + (d + 1) = b + 1 + d + 1 by omega, inst0Q_succ hclr hld, h.read,
        BitVec.ofNat_add, BitVec.add_assoc]
    · rw [show b + 1 + (d + 1) = b + 1 + d + 1 by omega, iqSmplCnt_succ hclr hld, h.counted,
        BitVec.ofNat_add, BitVec.add_assoc]
    · have hprev := h.clocks
      rw [Nat.mul_add, show b + 1 + (d + 1) = b + 1 + d + 1 by omega]
      omega
    · have hprev := h.phase
      rw [Nat.mul_add]
      omega

/-- `smpl_cnt` shows the samples of the words counted, one clock later. -/
theorem smplCnt_q (n : Nat) : (clocksAt wd st x (n + 2)).timed.inst3.q =
    .ofNat 64 st.perWord * (clocksAt wd st x (n + 1)).timed.inst3.inst0Q := by
  have hshift : (clocksAt wd st x (n + 1)).timed.inst3.shiftCntOut = (st.perWord == 2) :=
    shifts_eq st
  show (if (clocksAt wd st x (n + 1)).timed.inst3.shiftCntOut then
    (clocksAt wd st x (n + 1)).timed.inst3.inst0Q.extractLsb' 0 63 ++ 0#1
    else (clocksAt wd st x (n + 1)).timed.inst3.inst0Q) = _
  rw [hshift]
  rcases perWord_cases st with h | h
  · rw [h]
    exact (BitVec.one_mul _).symm
  · rw [h, beq_self_eq_true, if_pos rfl, shifted_eq, BitVec.ofNat_mul, BitVec.ofNat_toNat,
      BitVec.setWidth_eq]

variable (wd st x) in
/-- The drift behind clock `c`, of two values the lower one. -/
def offset (c : Nat) : Word64 :=
  (clocksAt wd st x c).iqSmplCnt - .ofNat 64 st.perWord * (clocksAt wd st x c).timed.inst3.inst0Q -
    .ofNat 64 (((clocksAt wd st x c).clocks + (st.period - 1 - (clocksAt wd st x c).phase)) /
      st.period)

/-- Behind a valid frame the drift is constant, but for the samples of which only one of two clocks has
    passed. -/
theorem drift_eq {b d r e : Nat} (h : Counts wd st x (b + 1) d r e) :
    drift wd st x (b + 1 + d) = offset wd st x (b + 1) ∨
      st.period = 2 ∧ drift wd st x (b + 1 + d) = offset wd st x (b + 1) + 1 := by
  have hq : (clocksAt wd st x (b + 1 + d + 1)).timed.inst3.q = .ofNat 64 st.perWord *
      (clocksAt wd st x (b + 1 + d)).timed.inst3.inst0Q := by
    rw [show b + 1 + d = b + d + 1 by omega]
    exact smplCnt_q (b + d)
  have hclocks := h.clocks
  have hphase := h.phase
  have hle := phase_le (clocksAt wd st x (b + 1 + d))
  have hle' := phase_le (clocksAt wd st x (b + 1))
  have hdiv : ∃ δ, (δ = 0 ∨ st.period = 2 ∧ δ = 1) ∧
      (clocksAt wd st x (b + 1 + d)).unread + st.perWord * r + δ =
      e + ((clocksAt wd st x (b + 1)).clocks + (st.period - 1 - (clocksAt wd st x (b + 1)).phase)) /
        st.period := by
    rw [unread_eq]
    rw [Nat.mul_assoc] at hclocks
    generalize st.perWord * r = a at hclocks ⊢
    rcases period_cases st with hp | hp <;> rw [hp] at hclocks hphase hle hle' ⊢
    · exact ⟨0, .inl rfl, by omega⟩
    · by_cases heven : ((clocksAt wd st x (b + 1 + d)).clocks + 2 * a) / 2 =
          e + ((clocksAt wd st x (b + 1)).clocks + (1 - (clocksAt wd st x (b + 1)).phase)) / 2
      · exact ⟨0, .inl rfl, by omega⟩
      · exact ⟨1, .inr ⟨rfl, rfl⟩, by omega⟩
  obtain ⟨δ, hδ, hsum⟩ := hdiv
  have hsum64 := congrArg (BitVec.ofNat 64) hsum
  rw [BitVec.ofNat_add, BitVec.ofNat_add, BitVec.ofNat_mul, BitVec.ofNat_add] at hsum64
  have hdrift : drift wd st x (b + 1 + d) = offset wd st x (b + 1) + .ofNat 64 δ := by
    rw [drift, offset, hq, h.read, h.counted]
    generalize BitVec.ofNat 64 (((clocksAt wd st x (b + 1)).clocks + _) / _) = A at hsum64 ⊢
    grind
  rcases hδ with rfl | ⟨hp, rfl⟩
  · exact .inl (hdrift.trans (BitVec.add_zero _))
  · exact .inr ⟨hp, hdrift⟩

/-! ## Room in the sample FIFO -/

/-- A word written left its receiver two clocks earlier. -/
theorem wrreq_of_write (h : (clocksFormIn wd st x (n + 2)).smplWrreq = true) :
    st.receiver.wrreq (clocksAt wd st x n).rxiq.inst = true := by
  have hwr : (clocksFormIn wd st x (n + 2)).smplWrreq =
    ((clocksAt wd st x (n + 1)).rxiq.fifoWrreqReg0 && !(clocksAt wd st x (n + 1)).inst1Wrfull &&
      !(clocksAt wd st x (n + 2)).inst1Wrfull) := rfl
  have hreg0 : (clocksAt wd st x (n + 1)).rxiq.fifoWrreqReg0 =
    (st.receiver.wrreq (clocksAt wd st x n).rxiq.inst && !(clocksAt wd st x n).inst1Wrfull) := rfl
  rw [hwr, hreg0, Bool.and_eq_true, Bool.and_eq_true, Bool.and_eq_true] at h
  exact h.1.1.1

theorem halfRate_of_valid {n0 : Nat} (hvalid : ∀ n, n0 ≤ n → ValidAt wd st x n) :
    HalfRateFrom (clocksFormIn wd st x) (n0 + 3) := by
  intro n hn h
  obtain ⟨k, rfl⟩ : ∃ k, n = k + 3 := ⟨n - 3, by omega⟩
  refine Bool.eq_false_iff.2 fun h' => ?_
  have h1 := wrreq_of_write (n := k + 1) h
  have h2 := wrreq_of_write (n := k + 2) h'
  have hgap := st.inStep.apart _ (x k).diq (x (k + 1)).diq (base_at wd st x k)
    (hvalid k (by omega)) h1
  exact absurd (h2.symm.trans hgap) nofun

theorem level_lt {n0 : Nat} (hvalid : ∀ n, n0 ≤ n → ValidAt wd st x n)
    (hn : n0 + 3 + 2 * cycle wd ≤ n) : (clocksAt wd st x n).level < smplBuffWords := by
  rw [RxClocks.level, clocksFormer_eq]
  exact length_lt_of_settled (halfRate_of_valid hvalid) hn

/-- A clear leaves what is queued out of the time base. -/
theorem offset_of_clear {b : Nat} (h : (x b).clrSmplNrSync = true) :
    offset wd st x (b + 1) = -.ofNat 64 (clocksAt wd st x (b + 1)).unread ∨
      st.period = 2 ∧
        offset wd st x (b + 1) = -.ofNat 64 (clocksAt wd st x (b + 1)).unread - 1 := by
  have hiq : (clocksAt wd st x (b + 1)).iqSmplCnt = 0#64 := if_pos h
  have hsmpl : (clocksAt wd st x (b + 1)).timed.inst3.inst0Q = 0#64 := if_pos h
  have hle := phase_le (clocksAt wd st x (b + 1))
  rw [offset, hiq, hsmpl, unread_eq, BitVec.mul_zero, BitVec.sub_zero, BitVec.zero_sub]
  rcases period_cases st with hp | hp
  · refine .inl ?_
    rw [hp] at hle ⊢
    rw [show 1 - 1 - (clocksAt wd st x (b + 1)).phase = 0 by omega, Nat.add_zero]
  · rw [hp]
    generalize (clocksAt wd st x (b + 1)).phase = f
    obtain heq | heq : ((clocksAt wd st x (b + 1)).clocks + (2 - 1 - f)) / 2 =
        (clocksAt wd st x (b + 1)).clocks / 2 ∨
      ((clocksAt wd st x (b + 1)).clocks + (2 - 1 - f)) / 2 =
        (clocksAt wd st x (b + 1)).clocks / 2 + 1 := by omega
    · exact .inl (by rw [heq])
    · refine .inr ⟨rfl, ?_⟩
      rw [heq, BitVec.ofNat_add, BitVec.neg_add]
      rfl

end run

/-- The two sample clocks, at the widths the ports name, with valid frames from clock `n0` on and a
    clear in a clock `b` then: as long as no other clear or load comes, `iq_smpl_cnt` is ahead of
    `smpl_cnt` and of the samples not yet read by a constant, in the modes with two clocks for a
    sample by a constant or one more. The constant is minus the samples that were not yet read at the
    clear, in those modes or one less. In the first clocks the FIFO may be full of what came before
    the valid frames; it must not be. -/
theorem sample_clocks_agree (sampleWidth : BitVec 2) (hsw : sampleWidth ≠ 3) (st : RxSetting)
    (x : Nat → ClockIn) (n0 b : Nat) (hvalid : ∀ n, n0 ≤ n → ValidAt sampleWidth st x n)
    (hb : n0 ≤ b) (hclr : (x b).clrSmplNrSync = true)
    (hroom : ∀ n, b < n → n < n0 + 3 + 2 * cycle sampleWidth →
      (clocksAt sampleWidth st x n).level < smplBuffWords) :
    ∃ a, (a = -.ofNat 64 (clocksAt sampleWidth st x (b + 1)).unread ∨
        st.period = 2 ∧ a = -.ofNat 64 (clocksAt sampleWidth st x (b + 1)).unread - 1) ∧
      ∀ n, b < n → Undisturbed x (b + 1) n →
        drift sampleWidth st x n = a ∨ st.period = 2 ∧ drift sampleWidth st x n = a + 1 := by
  obtain ⟨wd, rfl⟩ := WidthSetting.exists_code hsw
  refine ⟨offset wd st x (b + 1), offset_of_clear hclr, ?_⟩
  intro n hn hund
  obtain ⟨d, rfl⟩ : ∃ d, n = b + 1 + d := ⟨n - (b + 1), by omega⟩
  have hlevel : ∀ k, b < k → (clocksAt wd st x k).level < smplBuffWords := by
    intro k hk
    by_cases hlt : k < n0 + 3 + 2 * cycle wd
    · exact hroom k hk hlt
    · exact level_lt hvalid (by omega)
  obtain ⟨r, e, h⟩ := counts (fun k hk => hvalid k (by omega)) hlevel d hund
  exact drift_eq h

/-! ## What the clocks do not agree on -/

/-- Frames with these sync bits, and a clear in one clock. -/
def clearIn (fsyncH fsyncL : Nat → Bool) (b n : Nat) : ClockIn :=
  ⟨⟨fsyncH n, fsyncL n, 0, 0⟩, 0, 0, n == b, false, 0⟩

def sisoDdr : RxSetting := ⟨false, true, false, false, .chA⟩
def sisoSdr : RxSetting := ⟨false, false, false, false, .chA⟩

theorem undisturbed_clearIn (h l : Nat → Bool) (b n : Nat) :
    Undisturbed (clearIn h l b) (b + 1) n :=
  fun _ hk _ => ⟨beq_false_of_ne (by omega), rfl⟩

/-- Steady sync bits: valid frames from the second clock on. -/
theorem validAt_sisoDdr (sampleWidth : BitVec 2) (b k : Nat) (hk : 1 ≤ k) :
    ValidAt sampleWidth sisoDdr (clearIn (fun _ => true) (fun _ => false) b) k := by
  obtain ⟨j, rfl⟩ : ∃ j, k = j + 1 := ⟨k - 1, by omega⟩
  rfl

/-- Sync bits that alternate: valid frames in every clock. -/
theorem validAt_sisoSdr (sampleWidth : BitVec 2) (b k : Nat) :
    ValidAt sampleWidth sisoSdr (clearIn (fun _ => false) (fun n => n % 2 == 0) b) k := by
  cases k with
  | zero => rfl
  | succ k =>
    show ((k % 2 == 0) != ((k + 1) % 2 == 0)) = true
    obtain h | h : k % 2 = 0 ∨ k % 2 = 1 := by omega
    · rw [h, show (k + 1) % 2 = 1 by omega]
      rfl
    · rw [h, show (k + 1) % 2 = 0 by omega]
      rfl

/-- Without valid frames one clock goes on and the other does not. With valid frames the constant is not
    one of the mode, it goes with what the clear finds queued; and with two clocks for a sample it is
    not constant either. -/
theorem sample_clocks_drift :
    (¬ ∀ sampleWidth st, ∃ a, ∀ x b n, (x b).clrSmplNrSync = true → b < n → Undisturbed x (b + 1) n →
      drift sampleWidth st x n = a) ∧
    (¬ ∀ sampleWidth st, st.period = 1 →
      ∃ a, ∀ x b n, (∀ k, 1 ≤ k → ValidAt sampleWidth st x k) → 1 ≤ b →
        (x b).clrSmplNrSync = true → b < n → Undisturbed x (b + 1) n → drift sampleWidth st x n = a) ∧
    ¬ ∀ sampleWidth st x b,
      (∀ k, 1 ≤ k → ValidAt sampleWidth st x k) → 1 ≤ b → (x b).clrSmplNrSync = true →
        ∃ a, ∀ n, b < n → Undisturbed x (b + 1) n → drift sampleWidth st x n = a := by
  refine ⟨?_, ?_, ?_⟩
  · intro hall
    obtain ⟨a, ha⟩ := hall 0 sisoDdr
    have h2 := ha (clearIn (fun _ => false) (fun _ => false) 0) 0 2 rfl (by decide)
      (undisturbed_clearIn _ _ _ _)
    have h3 := ha (clearIn (fun _ => false) (fun _ => false) 0) 0 3 rfl (by decide)
      (undisturbed_clearIn _ _ _ _)
    exact absurd (h2.trans h3.symm) (by decide +kernel)
  · intro hall
    obtain ⟨a, ha⟩ := hall 0 sisoDdr rfl
    have h1 := ha (clearIn (fun _ => true) (fun _ => false) 1) 1 6 (validAt_sisoDdr _ _) (by decide)
      rfl (by decide) (undisturbed_clearIn _ _ _ _)
    have h5 := ha (clearIn (fun _ => true) (fun _ => false) 5) 5 6 (validAt_sisoDdr _ _) (by decide)
      rfl (by decide) (undisturbed_clearIn _ _ _ _)
    exact absurd (h1.trans h5.symm) (by decide +kernel)
  · intro hall
    obtain ⟨a, ha⟩ := hall 0 sisoSdr (clearIn (fun _ => false) (fun n => n % 2 == 0) 1) 1
      (fun k _ => validAt_sisoSdr _ _ k) (by decide) rfl
    have h2 := ha 2 (by decide) (undisturbed_clearIn _ _ _ _)
    have h3 := ha 3 (by decide) (undisturbed_clearIn _ _ _ _)
    exact absurd (h2.trans h3.symm) (by decide +kernel)

/-- A clear long after the first valid frame. -/
theorem sample_clocks_agree_late : ∃ a, ∀ n, 5000 < n →
    Undisturbed (clearIn (fun _ => true) (fun _ => false) 5000) 5001 n →
      drift 0 sisoDdr (clearIn (fun _ => true) (fun _ => false) 5000) n = a := by
  obtain ⟨a, -, ha⟩ := sample_clocks_agree 0 (by decide) sisoDdr
    (clearIn (fun _ => true) (fun _ => false) 5000) 1 5000 (validAt_sisoDdr _ _) (by decide) rfl
    (fun n h1 h2 => absurd h2 (by
      have hcyc : 1 + 3 + 2 * cycle 0 ≤ 5000 := by decide
      omega))
  refine ⟨a, fun n hn hund => ?_⟩
  rcases ha n hn hund with h | ⟨hp, -⟩
  · exact h
  · exact absurd hp (by decide)

end Rx
