import LimeSdrGw.Rx.RxiqMimo
/-
# The receivers and the samples they hold

The mode settings choose one of four receivers. Each of them, while valid frames come, captures one
sample in as many clocks as the mode has for it. `InStep` says so by what a receiver holds: counted in
clocks it grows by one in every clock, but for the words that leave.

| here | there |
| --- | --- |
| `Receiver`            | the ports of rxiq_siso_ddr.vhd, rxiq_siso_sdr.vhd, rxiq_mimo_ddr.vhd, rxiq_pulse_ddr.vhd |
| `RxSetting.receiver`  | the multiplexers of rxiq.vhd:108-109, rxiq_siso.vhd:137-138, rxiq_mimo.vhd:138-139 |
| `Rxiq`, `.step`       | the two output registers behind the receiver (rxiq_siso.vhd:141-150, rxiq_mimo.vhd:143-152, rxiq.vhd:112-121) |

A receiver that is not chosen is kept in reset.
-/
namespace Rx

open Clocked

/-- Width of a sample, `iq_width`. -/
abbrev iqWidth : Nat := 12

/-- A word of the sample FIFO. -/
abbrev IqWord : Type := BitVec (iqWidth + iqWidth + iqWidth + iqWidth)

structure Receiver where
  State : Type
  init : State
  step : State → DiqIn iqWidth → State
  /-- `fifo_wrreq` while the FIFO is not full. -/
  wrreq : State → Bool
  wdata : State → IqWord
  /-- The clock brings a valid frame. -/
  valid : State → DiqIn iqWidth → Bool
  /-- Whole samples in the registers. -/
  held : State → Nat

namespace RxiqSisoSdr

variable {w : Nat}

/-- Values held, two to a sample. -/
def values (s : RxiqSisoSdr w) : Nat :=
  s.diqPos1CapEn.toNat + 2 * s.diqPos2CapEn.toNat + 3 * s.diqPos3CapEn.toNat +
    4 * s.sdrFifoDataValid.toNat

end RxiqSisoSdr

namespace RxiqSisoDdr

variable {w : Nat}

/-- Frames held; a frame is a sample. -/
def frames (s : RxiqSisoDdr w) : Nat := s.diqPos01CapEn.toNat + 2 * s.fifoDataValid.toNat

end RxiqSisoDdr

namespace RxiqMimoDdr

variable {w : Nat}

/-- Frames held: the one that waits, and two in each word on its way. -/
def frames (e : Enabled) (s : RxiqMimoDdr w) : Nat :=
  (s.waits e).toNat + 2 * (s.secondFlag e).toNat + 2 * s.fifoWrreqReg.toNat

/-- The last frame was not one of the channel. -/
def off (e : Enabled) (fidm : Bool) (s : RxiqMimoDdr w) : Bool := s.regL0 != sync fidm e.first

end RxiqMimoDdr

/-- With two channels a sample is a frame of each. -/
def Enabled.framesPerSample : Enabled → Nat
  | chA | chB => 1
  | both => 2

def Receiver.sisoDdr (fidm : Bool) : Receiver where
  State := RxiqSisoDdr iqWidth
  init := .init
  step := RxiqSisoDdr.step fidm
  wrreq s := s.fifoWrreq false
  wdata := RxiqSisoDdr.fifoWdata
  valid := RxiqSisoDdr.frame fidm
  held := RxiqSisoDdr.frames

def Receiver.sisoSdr (fidm : Bool) : Receiver where
  State := RxiqSisoSdr iqWidth
  init := .init
  step := RxiqSisoSdr.step fidm
  wrreq s := s.fifoWrreq false
  wdata := RxiqSisoSdr.fifoWdata
  valid := RxiqSisoSdr.sdrDiqValid
  held s := s.values / 2

def Receiver.mimo (r : FrameRule) (e : Enabled) (fidm : Bool) : Receiver where
  State := RxiqMimoDdr iqWidth
  init := .init
  step := RxiqMimoDdr.step r e.chEn fidm
  wrreq s := s.fifoWrreq false
  wdata := RxiqMimoDdr.fifoWdataReg
  valid := RxiqMimoDdr.diqValid r
  held s := s.frames e / e.framesPerSample

/-- The mode settings. -/
structure RxSetting where
  trxiqpulse : Bool
  ddrEn : Bool
  mimoEn : Bool
  fidm : Bool
  channels : Enabled
deriving DecidableEq, Repr

namespace RxSetting

def receiver (st : RxSetting) : Receiver :=
  if st.mimoEn then
    .mimo (if st.trxiqpulse then .pulseDdr else .mimoDdr) st.channels st.fidm
  else if st.ddrEn then .sisoDdr st.fidm
  else .sisoSdr st.fidm

/-- Clocks of a sample. -/
def period (st : RxSetting) : Nat := if st.mimoEn = false ∧ st.ddrEn then 1 else 2

/-- Samples of a word of the FIFO. -/
def perWord (st : RxSetting) : Nat := if st.mimoEn = true ∧ st.channels = .both then 1 else 2

end RxSetting

/-! ## Valid frames -/

/-- One valid frame brings the receiver in step: from then on every valid frame adds a clock to what it
    holds, and the words that leave take theirs with them; no two leave in clocks in a row. -/
structure InStep (rc : Receiver) (period perWord : Nat) where
  Base : rc.State → Prop
  Steady : rc.State → Prop
  clocks : rc.State → Nat
  base_init : Base rc.init
  base_step : ∀ s i, Base s → Base (rc.step s i)
  enter : ∀ s i, Base s → rc.valid s i = true → Steady (rc.step s i)
  counts : ∀ s i, Base s → Steady s → rc.valid s i = true →
    clocks (rc.step s i) + period * perWord * (rc.wrreq s).toNat = clocks s + 1
  apart : ∀ s i j, Base s → rc.valid s i = true → rc.wrreq (rc.step s i) = true →
    rc.wrreq (rc.step (rc.step s i) j) = false
  held : ∀ s, rc.held s = clocks s / period

namespace RxiqSisoDdr

variable {w : Nat} {fidm : Bool} {s : RxiqSisoDdr w} {i : DiqIn w}

/-- Whatever came before, a valid frame adds one. -/
theorem frames_step (h : s.frame fidm i = true) :
    (s.step fidm i).frames + 2 * (s.fifoWrreq false).toNat = s.frames + 1 := by
  obtain ⟨hv, -, -⟩ := frame_eq_true.1 h
  have hen : (s.step fidm i).diqPos01CapEn = !s.diqPos01CapEn := if_pos hv
  have hvalid : (s.step fidm i).fifoDataValid = s.diqPos01CapEn := rfl
  rw [frames, frames, hen, hvalid, fifoWrreq]
  cases s.diqPos01CapEn <;> cases s.fifoDataValid <;> rfl

theorem wrreq_apart (h : s.frame fidm i = true) (j : DiqIn w)
    (hwr : (s.step fidm i).fifoWrreq false = true) :
    ((s.step fidm i).step fidm j).fifoWrreq false = false := by
  obtain ⟨hv, -, -⟩ := frame_eq_true.1 h
  have hen : (s.step fidm i).diqPos01CapEn = !s.diqPos01CapEn := if_pos hv
  have hold : s.diqPos01CapEn = true := (Bool.and_eq_true_iff.1 hwr).1
  show ((s.step fidm i).diqPos01CapEn && !false) = false
  rw [hen, hold]
  rfl

end RxiqSisoDdr

def inStepSisoDdr (fidm : Bool) : InStep (.sisoDdr fidm) 1 2 where
  Base _ := True
  Steady _ := True
  clocks := RxiqSisoDdr.frames
  base_init := trivial
  base_step _ _ _ := trivial
  enter _ _ _ _ := trivial
  counts _ _ _ _ h := RxiqSisoDdr.frames_step h
  apart _ _ j _ h hwr := RxiqSisoDdr.wrreq_apart h j hwr
  held _ := (Nat.div_one _).symm

namespace RxiqSisoSdr

variable {w : Nat} {fidm : Bool} {s : RxiqSisoSdr w} {i : DiqIn w}

/-- One position is enabled at most, and the sync bit goes with it. -/
structure OneHot (fidm : Bool) (s : RxiqSisoSdr w) : Prop where
  pos1 : s.diqPos1CapEn = true → s.diqPos2CapEn = false ∧ s.diqPos3CapEn = false ∧ s.sdrReg0 = fidm
  pos2 : s.diqPos2CapEn = true → s.diqPos3CapEn = false ∧ s.sdrReg0 = !fidm
  pos3 : s.diqPos3CapEn = true → s.sdrReg0 = fidm

/-- Between two words the next value begins one. -/
def Ready (fidm : Bool) (s : RxiqSisoSdr w) : Prop :=
  s.diqPos1CapEn = false → s.diqPos2CapEn = false → s.diqPos3CapEn = false → s.sdrReg0 = !fidm

theorem oneHot_step (s : RxiqSisoSdr w) (i : DiqIn w) : OneHot fidm (s.step fidm i) := by
  constructor
  · intro h
    have h1 : s.cap0 fidm i = true := h
    rw [cap0, Bool.and_eq_true, Bool.and_eq_true, beq_iff_eq, diqPos0CapEn, Bool.not_eq_true',
      Bool.or_eq_false_iff] at h1
    refine ⟨?_, ?_, h1.1.1⟩
    · show s.cap1 fidm i = false
      rw [cap1, h1.2.1, Bool.and_false]
    · show s.cap2 fidm i = false
      rw [cap2, h1.2.2, Bool.and_false]
  · intro h
    have h2 : s.cap1 fidm i = true := h
    rw [cap1, Bool.and_eq_true, Bool.and_eq_true, beq_iff_eq] at h2
    refine ⟨?_, h2.1.1⟩
    show s.cap2 fidm i = false
    rw [cap2, h2.1.1]
    cases fidm <;> rfl
  · intro h
    have h3 : s.cap2 fidm i = true := h
    rw [cap2, Bool.and_eq_true, Bool.and_eq_true, beq_iff_eq] at h3
    exact h3.1.1

theorem ready_step (h : OneHot fidm s) (hv : s.sdrDiqValid i = true) :
    Ready fidm (s.step fidm i) := by
  intro h1 h2 h3
  have hl := fsync_of_valid hv
  have hreg : (s.step fidm i).sdrReg0 = i.fsyncL := rfl
  have h1' : s.cap0 fidm i = false := h1
  have h3' : s.cap2 fidm i = false := h3
  rw [hreg]
  refine Bool.eq_not.2 fun hf => ?_
  -- a frame start that is not captured: some position was waiting for it
  rw [cap0, hf, hv, diqPos0CapEn] at h1'
  rw [cap2, hf, hv] at h3'
  have hc2 : s.diqPos2CapEn = false := by simpa using h3'
  have hc1 : s.diqPos1CapEn = true := by simpa [hc2] using h1'
  have hr := (h.pos1 hc1).2.2
  rw [hf, hr] at hl
  exact absurd hl (by cases fidm <;> decide)

theorem wrreq_apart (h : OneHot fidm s) (i j : DiqIn w)
    (hwr : (s.step fidm i).fifoWrreq false = true) :
    ((s.step fidm i).step fidm j).fifoWrreq false = false := by
  have hpos : s.diqPos3CapEn = true := (Bool.and_eq_true_iff.1 hwr).1
  show (s.cap2 fidm i && !false) = false
  rw [cap2, sdrDiqValid, h.pos3 hpos]
  cases fidm <;> cases i.fsyncL <;> rfl

/-- A value is added in every clock. -/
theorem values_step (h : OneHot fidm s) (hr : Ready fidm s) (hv : s.sdrDiqValid i = true) :
    (s.step fidm i).values + 4 * (s.fifoWrreq false).toNat = s.values + 1 := by
  have hl := fsync_of_valid hv
  have hstep : (s.step fidm i).values = (s.cap0 fidm i).toNat + 2 * (s.cap1 fidm i).toNat +
      3 * (s.cap2 fidm i).toNat + 4 * s.diqPos3CapEn.toNat := rfl
  have hwr : s.fifoWrreq false = s.sdrFifoDataValid := Bool.and_true _
  rw [hstep, hwr, values]
  cases h1 : s.diqPos1CapEn with
  | true =>
    obtain ⟨h2, h3, hreg⟩ := h.pos1 h1
    rw [hreg] at hl
    have c0 : s.cap0 fidm i = false := by simp [cap0, hl]
    have c1 : s.cap1 fidm i = true := by simp [cap1, hl, hv, h1]
    have c2 : s.cap2 fidm i = false := by simp [cap2, hl]
    simp only [c0, c1, c2, h2, h3, Bool.toNat_true, Bool.toNat_false]
    omega
  | false =>
    cases h2 : s.diqPos2CapEn with
    | true =>
      obtain ⟨h3, hreg⟩ := h.pos2 h2
      rw [hreg, Bool.not_not] at hl
      have c0 : s.cap0 fidm i = false := by simp [cap0, diqPos0CapEn, h2]
      have c1 : s.cap1 fidm i = false := by simp [cap1, h1]
      have c2 : s.cap2 fidm i = true := by simp [cap2, hl, hv, h2]
      simp only [c0, c1, c2, h3, Bool.toNat_true, Bool.toNat_false]
      omega
    | false =>
      have c1 : s.cap1 fidm i = false := by simp [cap1, h1]
      have c2 : s.cap2 fidm i = false := by simp [cap2, h2]
      cases h3 : s.diqPos3CapEn with
      | true =>
        rw [h.pos3 h3] at hl
        have c0 : s.cap0 fidm i = false := by simp [cap0, hl]
        simp only [c0, c1, c2, Bool.toNat_true, Bool.toNat_false]
        omega
      | false =>
        rw [hr h1 h2 h3, Bool.not_not] at hl
        have c0 : s.cap0 fidm i = true := by simp [cap0, diqPos0CapEn, hl, hv, h1, h2]
        simp only [c0, c1, c2, Bool.toNat_true, Bool.toNat_false]
        omega

end RxiqSisoSdr

def inStepSisoSdr (fidm : Bool) : InStep (.sisoSdr fidm) 2 2 where
  Base := RxiqSisoSdr.OneHot fidm
  Steady := RxiqSisoSdr.Ready fidm
  clocks := RxiqSisoSdr.values
  base_init := ⟨nofun, nofun, nofun⟩
  base_step s i _ := RxiqSisoSdr.oneHot_step s i
  enter _ _ h hv := RxiqSisoSdr.ready_step h hv
  counts _ _ h hr hv := RxiqSisoSdr.values_step h hr hv
  apart _ i j h _ hwr := RxiqSisoSdr.wrreq_apart h i j hwr
  held _ := rfl

namespace RxiqMimoDdr

variable {w : Nat} {r : FrameRule} {e : Enabled} {fidm : Bool} {s : RxiqMimoDdr w} {i : DiqIn w}

/-- A valid frame is of one channel or the other. -/
theorem kind_of_valid (hv : s.diqValid r i = true) : ∃ c, s.kind r fidm i = some c := by
  rw [kind, if_pos hv]
  exact ⟨_, rfl⟩

/-- A frame captured is one more frame held. -/
theorem frames_step (h : Coupled e fidm s) (hv : s.diqValid r i = true)
    (hfresh : s.firstCap r fidm e i = true → s.waits e = false) :
    (s.step r e.chEn fidm i).frames e + 2 * (s.fifoWrreq false).toNat =
      s.frames e + (s.firstCap r fidm e i || s.secondCap r fidm e i).toNat := by
  have hwr : (s.step r e.chEn fidm i).fifoWrreqReg = s.secondFlag e := muxFifoWrreq_eq e s
  have hreq : s.fifoWrreq false = s.fifoWrreqReg := Bool.and_true _
  have hne : (s.nextState r e.chEn i != CapState.idle) = true := bne_iff_ne.2 (h.next_ne_idle hv)
  rw [frames, frames, h.waits_step, secondFlag_step, hwr, hreq, hne, Bool.and_true]
  cases hf : s.firstCap r fidm e i with
  | true =>
    rw [hfresh hf, Coupled.not_both_caps hf]
    simp only [Bool.true_or, Bool.toNat_true, Bool.toNat_false]
    omega
  | false =>
    cases hs : s.secondCap r fidm e i with
    | true =>
      rw [h.waits_of_secondCap hs]
      simp only [Bool.false_or, Bool.not_true, Bool.and_false, Bool.toNat_true, Bool.toNat_false]
      omega
    | false =>
      simp only [Bool.false_or, Bool.not_false, Bool.and_true, Bool.toNat_false]
      omega

theorem wrreq_apart (h : Coupled e fidm s) (i j : DiqIn w)
    (hwr : (s.step r e.chEn fidm i).fifoWrreq false = true) :
    ((s.step r e.chEn fidm i).step r e.chEn fidm j).fifoWrreq false = false := by
  have hflag : s.secondFlag e = true := by
    rw [← muxFifoWrreq_eq]
    exact (Bool.and_eq_true_iff.1 hwr).1
  have hcap : s.secondCap r fidm e i = false := by
    refine Bool.eq_false_iff.2 fun hcap => ?_
    rw [secondCap_eq, Bool.and_eq_true, beq_iff_eq] at hcap
    rw [h.not_second hcap.1] at hflag
    cases hflag
  show ((s.step r e.chEn fidm i).muxFifoWrreq e.chEn && !false) = false
  rw [muxFifoWrreq_eq, secondFlag_step, hcap]
  rfl

/-- In step: not idle, and with two channels a frame of channel A waits exactly behind its clock. -/
structure Steady (e : Enabled) (fidm : Bool) (s : RxiqMimoDdr w) : Prop where
  busy : s.currentState ≠ .idle
  waits : e = .both → s.waits e = !s.off e fidm

/-- Twice the frames of one channel, and the clock of the other channel's frame; with two channels each
    frame has its clock. -/
def clocks (e : Enabled) (fidm : Bool) (s : RxiqMimoDdr w) : Nat :=
  match e with
  | .chA | .chB => 2 * s.frames e + (s.off e fidm).toNat
  | .both => s.frames e

theorem off_step : (s.step r e.chEn fidm i).off e fidm = (i.fsyncL != sync fidm e.first) := rfl

theorem off_of_first (h : s.kind r fidm i = some e.first) :
    s.off e fidm = true ∧ (s.step r e.chEn fidm i).off e fidm = false := by
  obtain ⟨-, hl, hreg⟩ := kind_eq_some h
  rw [off_step, off, hl, hreg]
  exact ⟨by cases sync fidm e.first <;> rfl, bne_self_eq_false _⟩

theorem off_of_other {c : Chan} (h : s.kind r fidm i = some c) (hc : c ≠ e.first) :
    s.off e fidm = false ∧ (s.step r e.chEn fidm i).off e fidm = true := by
  obtain ⟨-, hl, hreg⟩ := kind_eq_some h
  have hsync : sync fidm c = !sync fidm e.first := by
    generalize e.first = d at hc
    match c, d with
    | .a, .a | .b, .b => exact absurd rfl hc
    | .a, .b => exact (Bool.not_not _).symm
    | .b, .a => rfl
  rw [off_step, off, hl, hreg, hsync, Bool.not_not]
  exact ⟨bne_self_eq_false _, by cases sync fidm e.first <;> rfl⟩

/-- Of one channel alone a first frame is captured only while none waits. -/
theorem not_waits_of_firstCap (h : Coupled e fidm s) (he : e ≠ .both)
    (hf : s.firstCap r fidm e i = true) : s.waits e = false := by
  rw [firstCap_eq, Bool.and_eq_true, beq_iff_eq] at hf
  have hst : s.currentState = firstState e := by simpa [he] using hf.2
  rw [waits, h.not_first hf.1, hst, first_beq_second]
  rfl

theorem firstCap_other {c : Chan} (h : s.kind r fidm i = some c) (hc : c ≠ e.first) :
    s.firstCap r fidm e i = false := by
  rw [firstCap_eq, h]
  simp [hc]

theorem steady_step (h : Coupled e fidm s) (hv : s.diqValid r i = true) :
    Steady e fidm (s.step r e.chEn fidm i) := by
  refine ⟨h.next_ne_idle hv, ?_⟩
  rintro rfl
  obtain ⟨c, hk⟩ := kind_of_valid hv
  rw [h.waits_step]
  cases c with
  | a =>
    have hcap : s.firstCap r fidm .both i = true := by
      rw [firstCap_eq, hk]
      exact Bool.or_true _
    rw [(off_of_first (e := .both) hk).2, hcap, Bool.true_or]
    rfl
  | b =>
    rw [(off_of_other (e := .both) hk (by decide)).2, firstCap_other hk (by decide)]
    cases hw : s.waits .both with
    | false => rfl
    | true =>
      rw [h.secondCap_of_waits hw hk]
      rfl

/-- With two channels every frame is captured. -/
theorem clocks_step_both (h : Coupled .both fidm s) (hs : Steady .both fidm s)
    (hv : s.diqValid r i = true) : (s.step r Enabled.both.chEn fidm i).frames .both +
      2 * (s.fifoWrreq false).toNat = s.frames .both + 1 := by
  have hwaits := hs.waits rfl
  obtain ⟨c, hk⟩ := kind_of_valid hv
  cases c with
  | a =>
    rw [(off_of_first (e := .both) hk).1] at hwaits
    have hcap : s.firstCap r fidm .both i = true := by
      rw [firstCap_eq, hk]
      exact Bool.or_true _
    rw [frames_step h hv fun _ => hwaits, hcap]
    rfl
  | b =>
    rw [(off_of_other (e := .both) hk (by decide)).1] at hwaits
    have hcap : s.firstCap r fidm .both i = false := firstCap_other hk (by decide)
    have hfresh : s.firstCap r fidm .both i = true → s.waits .both = false := by
      rw [hcap]
      exact fun h => absurd h Bool.false_ne_true
    rw [frames_step h hv hfresh, hcap, h.secondCap_of_waits hwaits hk]
    rfl

/-- Of one channel alone every frame is captured, and those of the other are not. -/
theorem clocks_step_one (h : Coupled e fidm s) (he : e ≠ .both) (hs : Steady e fidm s)
    (hv : s.diqValid r i = true) :
    2 * (s.step r e.chEn fidm i).frames e + ((s.step r e.chEn fidm i).off e fidm).toNat +
      4 * (s.fifoWrreq false).toNat = 2 * s.frames e + (s.off e fidm).toNat + 1 := by
  have hframes := frames_step h hv (not_waits_of_firstCap h he)
  obtain ⟨c, hk⟩ := kind_of_valid hv
  by_cases hc : c = e.first
  · subst hc
    obtain ⟨hoff, hoff'⟩ := off_of_first hk
    have hcap : (s.firstCap r fidm e i || s.secondCap r fidm e i) = true := by
      rcases h.captured_of_ne_idle hs.busy hk with hf | ⟨-, hsec⟩
      · rw [hf]
        rfl
      · rw [hsec, Bool.or_true]
    rw [hcap, Bool.toNat_true] at hframes
    rw [hoff, hoff', Bool.toNat_true, Bool.toNat_false]
    omega
  · obtain ⟨hoff, hoff'⟩ := off_of_other hk hc
    have hsec : s.secondCap r fidm e i = false := by
      rw [secondCap_eq, hk, ← first_eq_second he]
      simp [hc]
    rw [firstCap_other hk hc, hsec, Bool.or_false, Bool.toNat_false] at hframes
    rw [hoff, hoff', Bool.toNat_true, Bool.toNat_false]
    omega

end RxiqMimoDdr

/-- Samples of a word with these channels. -/
def Enabled.perWord : Enabled → Nat
  | chA | chB => 2
  | both => 1

def inStepMimo (r : FrameRule) (e : Enabled) (fidm : Bool) :
    InStep (.mimo r e fidm) 2 e.perWord where
  Base := RxiqMimoDdr.Coupled e fidm
  Steady := RxiqMimoDdr.Steady e fidm
  clocks := RxiqMimoDdr.clocks e fidm
  base_init := RxiqMimoDdr.Coupled.init e fidm
  base_step _ _ h := h.step
  enter _ _ h hv := RxiqMimoDdr.steady_step h hv
  counts s i h hs hv := by
    cases e with
    | chA => exact RxiqMimoDdr.clocks_step_one h nofun hs hv
    | chB => exact RxiqMimoDdr.clocks_step_one h nofun hs hv
    | both => exact RxiqMimoDdr.clocks_step_both h hs hv
  apart _ i j h _ hwr := RxiqMimoDdr.wrreq_apart h i j hwr
  held s := by
    have hodd : ∀ a b : Nat, b ≤ 1 → a / 1 = (2 * a + b) / 2 := fun a b hb => by omega
    cases e with
    | chA => exact hodd _ _ (Bool.toNat_le _)
    | chB => exact hodd _ _ (Bool.toNat_le _)
    | both => rfl

/-- Every mode has its receiver, and it is in step. -/
def RxSetting.inStep : (st : RxSetting) → InStep st.receiver st.period st.perWord
  | ⟨_, _, true, fidm, .chA⟩ => inStepMimo _ .chA fidm
  | ⟨_, _, true, fidm, .chB⟩ => inStepMimo _ .chB fidm
  | ⟨_, _, true, fidm, .both⟩ => inStepMimo _ .both fidm
  | ⟨_, true, false, fidm, .chA⟩ | ⟨_, true, false, fidm, .chB⟩ | ⟨_, true, false, fidm, .both⟩ =>
    inStepSisoDdr fidm
  | ⟨_, false, false, fidm, .chA⟩ | ⟨_, false, false, fidm, .chB⟩ | ⟨_, false, false, fidm, .both⟩ =>
    inStepSisoSdr fidm

/-! ## The output registers -/

structure Rxiq (rc : Receiver) where
  inst : rc.State
  fifoWrreqReg0 : Bool
  fifoWdataReg0 : IqWord
  fifoWrreqReg : Bool
  fifoWdataReg : IqWord

namespace Rxiq

variable {rc : Receiver}

def init : Rxiq rc := ⟨rc.init, false, 0, false, 0⟩

def step (s : Rxiq rc) (i : DiqIn iqWidth) (fifoWfull : Bool) : Rxiq rc where
  inst := rc.step s.inst i
  fifoWrreqReg0 := rc.wrreq s.inst && !fifoWfull
  fifoWdataReg0 := rc.wdata s.inst
  fifoWrreqReg := s.fifoWrreqReg0 && !fifoWfull
  fifoWdataReg := s.fifoWdataReg0

def fifoWrreq (s : Rxiq rc) (fifoWfull : Bool) : Bool := s.fifoWrreqReg && !fifoWfull

/-- Whole words in the registers. -/
def words (s : Rxiq rc) : Nat := s.fifoWrreqReg0.toNat + s.fifoWrreqReg.toNat

end Rxiq

end Rx
