import LimeSdrGw.Clocked.Registers
import LimeSdrGw.Rx.Frames
import LimeSdrGw.Tx.Txiq
/-
# Test signals on the interface

On both sides of the interface a multiplexer can put a test signal in the place of the samples: a
counter for the receivers, and a counter or a fixed pattern for the transmitter. The counter was made
for the receivers, where `DIQ_l` has the first sample of a frame; `txiqmux` crosses the two for the
transmitter, which sends `DIQ_h` first.

| here | there |
| --- | --- |
| `BusSynch`       | bus_synch.vhd:40-52 |
| `TestDataDd`     | diq2fifo/synth/test_data_dd.vhd:45-74 |
| `TxiqTstPtrn`    | txiq_tst_ptrn.vhd:49-83 |
| `Txiqmux`        | txiqmux.vhd:70-168 |
| `DiqFront`       | `mux0_diq_h_reg`, `mux0_diq_l_reg` and `int2_test_data_dd` (diq2fifo.vhd:121-148) |
-/
namespace RxTx

open Clocked Tx Rx

/-- Three registers in a row. -/
structure BusSynch (w : Nat) where
  signalD0 : BitVec w
  signalD1 : BitVec w
  signalD2 : BitVec w

namespace BusSynch

def zero {w : Nat} : BusSynch w := ⟨0, 0, 0⟩

def step {w : Nat} (s : BusSynch w) (signalIn : BitVec w) : BusSynch w :=
  ⟨signalIn, s.signalD0, s.signalD1⟩

end BusSynch

/-- The counter; its port `mimo_en` is not read. -/
structure TestDataDd where
  cntH : BitVec 12
  cntL : BitVec 12
  iqSel : Bool
deriving DecidableEq, Repr

namespace TestDataDd

def init : TestDataDd := ⟨1, 0, false⟩

def step (s : TestDataDd) : TestDataDd where
  cntH := if s.iqSel = false then s.cntH + 2 else s.cntH
  cntL := if s.iqSel = false then s.cntL + 2 else s.cntL
  iqSel := !s.iqSel

def iqSelOut (s : TestDataDd) (frStart : Bool) : Bool := if frStart = false then s.iqSel else !s.iqSel

def dataL (s : TestDataDd) (frStart : Bool) : Diq 12 := ⟨s.iqSelOut frStart, s.cntL⟩
def dataH (s : TestDataDd) (frStart : Bool) : Diq 12 := ⟨s.iqSelOut frStart, s.cntH⟩

end TestDataDd

structure TxiqTstPtrn where
  fidmSync : SyncReg
  ptrnISync : BusSynch 16
  ptrnQSync : BusSynch 16
  fsyncInt : Bool

namespace TxiqTstPtrn

def init : TxiqTstPtrn := ⟨.zero, .zero, .zero, true⟩

def step (s : TxiqTstPtrn) (fidm : Bool) (ptrnI ptrnQ : BitVec 16) : TxiqTstPtrn where
  fidmSync := s.fidmSync.step true fidm
  ptrnISync := s.ptrnISync.step ptrnI
  ptrnQSync := s.ptrnQSync.step ptrnQ
  fsyncInt := !s.fsyncInt

def fsyncExt (s : TxiqTstPtrn) : Bool :=
  if s.fidmSync.syncOut true then s.fsyncInt else !s.fsyncInt

def diqH (s : TxiqTstPtrn) : Diq 12 := ⟨s.fsyncExt, s.ptrnISync.signalD2.setWidth 12⟩
def diqL (s : TxiqTstPtrn) : Diq 12 := ⟨s.fsyncExt, s.ptrnQSync.signalD2.setWidth 12⟩

end TxiqTstPtrn

structure TxiqmuxIn where
  testPtrnEn : Bool
  testPtrnFidm : Bool
  testPtrnI : BitVec 16
  testPtrnQ : BitVec 16
  testDataEn : Bool
  muxSel : Bool
  txDiqH : Diq 12
  txDiqL : Diq 12
  wfmDiqH : Diq 12
  wfmDiqL : Diq 12

structure Txiqmux where
  testPtrnEnSync : SyncReg
  muxSelSync : SyncReg
  tstPtrnInst0 : TxiqTstPtrn
  testDataDdInst1 : TestDataDd
  mux0DiqHReg : Diq 12
  mux0DiqLReg : Diq 12
  mux1DiqHReg : Diq 12
  mux1DiqLReg : Diq 12
  mux2DiqHReg : Diq 12
  mux2DiqLReg : Diq 12

namespace Txiqmux

def noDiq : Diq 12 := ⟨false, 0⟩

def init : Txiqmux :=
  ⟨.zero, .zero, .init, .init, noDiq, noDiq, noDiq, noDiq, noDiq, noDiq⟩

def step (s : Txiqmux) (i : TxiqmuxIn) : Txiqmux where
  testPtrnEnSync := s.testPtrnEnSync.step true i.testPtrnEn
  muxSelSync := s.muxSelSync.step true i.muxSel
  tstPtrnInst0 := s.tstPtrnInst0.step i.testPtrnFidm i.testPtrnI i.testPtrnQ
  testDataDdInst1 := s.testDataDdInst1.step
  mux0DiqHReg := if s.muxSelSync.syncOut true = false then i.txDiqH else i.wfmDiqH
  mux0DiqLReg := if s.muxSelSync.syncOut true = false then i.txDiqL else i.wfmDiqL
  mux1DiqHReg := if s.testPtrnEnSync.syncOut true = false then s.mux0DiqHReg else s.tstPtrnInst0.diqH
  mux1DiqLReg := if s.testPtrnEnSync.syncOut true = false then s.mux0DiqLReg else s.tstPtrnInst0.diqL
  mux2DiqHReg :=
    if i.testDataEn = false then s.mux1DiqHReg else s.testDataDdInst1.dataL i.testPtrnFidm
  mux2DiqLReg :=
    if i.testDataEn = false then s.mux1DiqLReg else s.testDataDdInst1.dataH i.testPtrnFidm

end Txiqmux

def txiqmux : Machine Txiqmux TxiqmuxIn := ⟨.init, Txiqmux.step⟩

/-- The two samples of a clock. -/
structure DiqPair where
  h : Diq 12
  l : Diq 12

def DiqPair.none : DiqPair := ⟨⟨false, 0⟩, ⟨false, 0⟩⟩

/-- As the receivers see them. -/
def DiqPair.diqIn (q : DiqPair) : DiqIn iqWidth := ⟨q.h.fsync, q.l.fsync, q.h.data, q.l.data⟩

structure DiqFrontIn where
  testPtrnEn : Bool
  /-- From `inst0_lms7002_ddin`. -/
  diqOut : DiqPair

structure DiqFront where
  testDataDd : TestDataDd
  mux0DiqReg : DiqPair

namespace DiqFront

def init : DiqFront := ⟨.init, .none⟩

def step (fidm : Bool) (s : DiqFront) (i : DiqFrontIn) : DiqFront where
  testDataDd := s.testDataDd.step
  mux0DiqReg :=
    if i.testPtrnEn = false then i.diqOut else ⟨s.testDataDd.dataH fidm, s.testDataDd.dataL fidm⟩

end DiqFront

def diqFront (fidm : Bool) : Machine DiqFront DiqFrontIn := ⟨.init, DiqFront.step fidm⟩

/-! ### The counter -/

/-- The counter in clock `n`. -/
def testDataAt : Nat → TestDataDd
  | 0 => .init
  | n + 1 => (testDataAt n).step

/-- It counts every other clock. -/
theorem testDataAt_eq (n : Nat) : testDataAt n =
    ⟨.ofNat 12 (2 * ((n + 1) / 2) + 1), .ofNat 12 (2 * ((n + 1) / 2)), n % 2 == 1⟩ := by
  induction n with
  | zero => rfl
  | succ n ih =>
    have hadd : ∀ a : Nat, BitVec.ofNat 12 a + 2 = .ofNat 12 (a + 2) := fun a =>
      (BitVec.ofNat_add a 2).symm
    rw [testDataAt, ih, TestDataDd.step]
    rcases Nat.mod_two_eq_zero_or_one n with h | h
    · rw [h, show (n + 1 + 1) / 2 = (n + 1) / 2 + 1 by omega, show (n + 1) % 2 = 1 by omega]
      simp only [hadd, Nat.mul_succ, Nat.add_right_comm]
      rfl
    · rw [h, show (n + 1 + 1) / 2 = (n + 1) / 2 by omega, show (n + 1) % 2 = 0 by omega]
      rfl

/-! ### Nothing switched on -/

namespace Txiqmux

variable {x : Nat → TxiqmuxIn}

/-- Every test signal is off, and the player. -/
def Off (i : TxiqmuxIn) : Prop :=
  i.testPtrnEn = false ∧ i.testDataEn = false ∧ i.muxSel = false

abbrev muxAt (x : Nat → TxiqmuxIn) (n : Nat) : Txiqmux := txiqmux.state x n

theorem controls_off (h : ∀ n, Off (x n)) (n : Nat) :
    (muxAt x n).testPtrnEnSync = .zero ∧ (muxAt x n).muxSelSync = .zero := by
  induction n with
  | zero => exact ⟨rfl, rfl⟩
  | succ n ih =>
    obtain ⟨hptrn, -, hsel⟩ := h n
    have hp : (muxAt x (n + 1)).testPtrnEnSync =
      (muxAt x n).testPtrnEnSync.step true (x n).testPtrnEn := rfl
    have hs : (muxAt x (n + 1)).muxSelSync = (muxAt x n).muxSelSync.step true (x n).muxSel := rfl
    rw [hp, hs, ih.1, ih.2, hptrn, hsel]
    exact ⟨rfl, rfl⟩

/-- The output. -/
def out (x : Nat → TxiqmuxIn) (n : Nat) : DiqPair :=
  ⟨(muxAt x n).mux2DiqHReg, (muxAt x n).mux2DiqLReg⟩

/-- The samples go through three registers. -/
theorem out_off (h : ∀ n, Off (x n)) (n : Nat) :
    out x (n + 3) = ⟨(x n).txDiqH, (x n).txDiqL⟩ := by
  have hmux0 : (muxAt x (n + 1)).mux0DiqHReg = (x n).txDiqH ∧
      (muxAt x (n + 1)).mux0DiqLReg = (x n).txDiqL := by
    have hsel := (controls_off h n).2
    constructor <;> exact if_pos (by rw [hsel]; rfl)
  have hmux1 : (muxAt x (n + 2)).mux1DiqHReg = (x n).txDiqH ∧
      (muxAt x (n + 2)).mux1DiqLReg = (x n).txDiqL := by
    have hptrn := (controls_off h (n + 1)).1
    rw [← hmux0.1, ← hmux0.2]
    constructor <;> exact if_pos (by rw [hptrn]; rfl)
  have hdata := (h (n + 2)).2.1
  have hh : (muxAt x (n + 3)).mux2DiqHReg = (muxAt x (n + 2)).mux1DiqHReg := if_pos hdata
  have hl : (muxAt x (n + 3)).mux2DiqLReg = (muxAt x (n + 2)).mux1DiqLReg := if_pos hdata
  rw [out, hh, hl, hmux1.1, hmux1.2]

/-- First the zeros of the registers come out. -/
theorem out_first (h : ∀ n, Off (x n)) {n : Nat} (hn : n < 3) : out x n = .none := by
  have hsteps : ∀ k, out x (k + 1) = ⟨(muxAt x k).mux1DiqHReg, (muxAt x k).mux1DiqLReg⟩ := by
    intro k
    have hdata := (h k).2.1
    have hh : (muxAt x (k + 1)).mux2DiqHReg = (muxAt x k).mux1DiqHReg := if_pos hdata
    have hl : (muxAt x (k + 1)).mux2DiqLReg = (muxAt x k).mux1DiqLReg := if_pos hdata
    rw [out, hh, hl]
  match n, hn with
  | 0, _ => rfl
  | 1, _ => exact hsteps 0
  | 2, _ => exact hsteps 1

end Txiqmux

/-! ### The way to the receivers -/

/-- The interface: what is sent first is received in `DIQ_l`. The receiver looks at it for `early` clocks
    before there is a transmitter, or begins `late` clocks behind it. -/
def wire (early late : Nat) (q : Nat → DiqPair) (n : Nat) : DiqPair :=
  if n < early then .none else ⟨(q (n - early + late)).l, (q (n - early + late)).h⟩

/-- Crossed once more the samples are where they were. -/
def DiqPair.crossed (q : DiqPair) : DiqIn iqWidth := ⟨q.l.fsync, q.h.fsync, q.l.data, q.h.data⟩

theorem wire_diqIn (early late : Nat) (q : Nat → DiqPair) (n : Nat) :
    (wire early late q n).diqIn = delayed early (fun k => (q (k + late)).crossed) n := by
  unfold wire delayed
  split <;> rfl

theorem out_crossed {x : Nat → TxiqmuxIn} (h : ∀ n, Txiqmux.Off (x n)) (n : Nat) :
    (Txiqmux.out x n).crossed =
      delayed 3 (fun k => DiqPair.crossed ⟨(x k).txDiqH, (x k).txDiqL⟩) n := by
  unfold delayed
  split
  next hn => rw [Txiqmux.out_first h hn]; rfl
  next hn =>
    obtain ⟨k, rfl⟩ : ∃ k, n = k + 3 := ⟨n - 3, by omega⟩
    rw [Txiqmux.out_off h]
    rfl

/-- What the receivers see: the interface, or the counter. -/
def frontDiq (fidm : Bool) (z : Nat → DiqFrontIn) (n : Nat) : DiqIn iqWidth :=
  ((diqFront fidm).state z n).mux0DiqReg.diqIn

theorem frontDiq_off {fidm : Bool} {z : Nat → DiqFrontIn} (h : ∀ n, (z n).testPtrnEn = false) (n : Nat) :
    frontDiq fidm z n = delayed 1 (fun k => (z k).diqOut.diqIn) n := by
  cases n with
  | zero => rfl
  | succ n =>
    have hreg : ((diqFront fidm).state z (n + 1)).mux0DiqReg = (z n).diqOut := if_pos (h n)
    rw [frontDiq, hreg]
    rfl

/-- The counter, as the receivers see it. -/
def counterDiq (fidm : Bool) (n : Nat) : DiqIn iqWidth :=
  DiqPair.diqIn ⟨(testDataAt n).dataH fidm, (testDataAt n).dataL fidm⟩

theorem frontDiq_on {fidm : Bool} {z : Nat → DiqFrontIn} (h : ∀ n, (z n).testPtrnEn = true) (n : Nat) :
    frontDiq fidm z n = delayed 1 (counterDiq fidm) n := by
  have hcount : ∀ k, ((diqFront fidm).state z k).testDataDd = testDataAt k := by
    intro k
    induction k with
    | zero => rfl
    | succ k ih =>
      show ((diqFront fidm).state z k).testDataDd.step = _
      rw [ih, testDataAt]
  cases n with
  | zero => rfl
  | succ n =>
    have hreg : ((diqFront fidm).state z (n + 1)).mux0DiqReg =
        ⟨(testDataAt n).dataH fidm, (testDataAt n).dataL fidm⟩ := by
      rw [← hcount]
      exact if_neg (by rw [h n]; decide)
    rw [frontDiq, hreg]
    rfl

/-! ### The counter in the packets -/

theorem counterDiq_eq (fidm : Bool) (n : Nat) : counterDiq fidm n =
    ⟨if n % 2 == 0 then fidm else !fidm, if n % 2 == 0 then fidm else !fidm,
      .ofNat 12 (2 * ((n + 1) / 2) + 1), .ofNat 12 (2 * ((n + 1) / 2))⟩ := by
  rw [counterDiq, testDataAt_eq]
  rcases Nat.mod_two_eq_zero_or_one n with h | h
  · rw [h]
    cases fidm <;> rfl
  · rw [h]
    cases fidm <;> rfl

/-- The modes whose frames look like those of the counter. -/
def Counts (st : RxSetting) : Prop := if st.mimoEn then st.trxiqpulse = false else st.ddrEn = false

instance (st : RxSetting) : Decidable (Counts st) :=
  inferInstanceAs (Decidable (if st.mimoEn = true then st.trxiqpulse = false else st.ddrEn = false))

/-- Sample `k` that the receivers get from the counter. -/
def countAt (st : RxSetting) (k : Nat) : Nat :=
  if st.mimoEn then
    match st.channels with
    | .chA => k
    | .chB => k + 2
    | .both => 2 * ((k / 2 + 1) / 2) + k % 2
  else 2 * ((k + 1) / 2)

/-- How many samples the first `g` frames bring. -/
def countLen (st : RxSetting) (g : Nat) : Nat :=
  if st.mimoEn then
    match st.channels with
    | .chA => 2 * ((g + 1) / 2)
    | .chB => 2 * (g / 2)
    | .both => 2 * g
  else g

section counter

variable {st : RxSetting}

theorem counter_framed (h : Counts st) : st.Framed (counterDiq st.fidm) 0 0 := by
  obtain ⟨pulse, ddr, mimo, fidm, channels⟩ := st
  refine ⟨fun n hn => absurd hn (Nat.not_lt_zero n), fun n => ?_, fun n => ?_⟩
  · rw [Nat.zero_add, counterDiq_eq]
    cases mimo with
    | true => rfl
    | false =>
      obtain rfl : ddr = false := h
      rfl
  · rw [Nat.zero_add, counterDiq_eq]
    cases mimo with
    | true =>
      obtain rfl : pulse = false := h
      rfl
    | false =>
      obtain rfl : ddr = false := h
      rfl

/-- A frame brings the next samples. -/
theorem counter_brings (h : Counts st) (g : Nat) :
    firstWords (fun k => BitVec.ofNat 12 (countAt st k)) (countLen st (g + 1)) =
      firstWords (fun k => BitVec.ofNat 12 (countAt st k)) (countLen st g) ++
        st.brings (counterDiq st.fidm g) := by
  have two : ∀ {s : Nat → BitVec 12} {n m : Nat}, m = n + 2 →
      firstWords s m = firstWords s n ++ [s n, s (n + 1)] := by
    intro s n m hm
    rw [hm, firstWords_succ, firstWords_succ, List.append_assoc]
    rfl
  obtain ⟨pulse, ddr, mimo, fidm, channels⟩ := st
  have hpar := Nat.mod_two_eq_zero_or_one g
  rw [counterDiq_eq]
  cases mimo with
  | false =>
    obtain rfl : ddr = false := h
    exact firstWords_succ _ g
  | true =>
    cases channels with
    | both =>
      have h0 : 2 * ((2 * g / 2 + 1) / 2) + 2 * g % 2 = 2 * ((g + 1) / 2) := by omega
      have h1 : 2 * (((2 * g + 1) / 2 + 1) / 2) + (2 * g + 1) % 2 = 2 * ((g + 1) / 2) + 1 := by omega
      refine (two (Nat.mul_succ 2 g)).trans (congrArg (_ ++ ·) ?_)
      show [BitVec.ofNat 12 (2 * ((2 * g / 2 + 1) / 2) + 2 * g % 2),
        BitVec.ofNat 12 (2 * (((2 * g + 1) / 2 + 1) / 2) + (2 * g + 1) % 2)] = _
      rw [h0, h1]
      rfl
    | chA =>
      rcases hpar with hg | hg
      · have hlen : 2 * ((g + 1 + 1) / 2) = 2 * ((g + 1) / 2) + 2 := by omega
        refine (two hlen).trans (congrArg (_ ++ ·) ?_)
        rw [hg]
        cases fidm <;> rfl
      · have hlen : 2 * ((g + 1 + 1) / 2) = 2 * ((g + 1) / 2) := by omega
        refine (congrArg (firstWords _) hlen).trans ?_
        rw [hg]
        cases fidm <;> exact (List.append_nil _).symm
    | chB =>
      rcases hpar with hg | hg
      · have hlen : 2 * ((g + 1) / 2) = 2 * (g / 2) := by omega
        refine (congrArg (firstWords _) hlen).trans ?_
        rw [hg]
        cases fidm <;> exact (List.append_nil _).symm
      · have hlen : 2 * ((g + 1) / 2) = 2 * (g / 2) + 2 := by omega
        refine (two hlen).trans (congrArg (_ ++ ·) ?_)
        rw [hg, hlen]
        cases fidm <;> rfl

theorem counter_stream (h : Counts st) (g : Nat) :
    (slice (fun n => st.brings (counterDiq st.fidm n)) 0 g).flatten =
      firstWords (fun k => BitVec.ofNat 12 (countAt st k)) (countLen st g) := by
  induction g with
  | zero =>
    obtain ⟨pulse, ddr, mimo, fidm, channels⟩ := st
    cases mimo <;> cases channels <;> rfl
  | succ g ih =>
    rw [slice_succ _ (Nat.zero_le g), List.flatten_append, List.flatten_singleton, ih,
      counter_brings h]

theorem length_counter (h : Counts st) (g : Nat) :
    (slice (fun n => st.brings (counterDiq st.fidm n)) 0 g).flatten.length = countLen st g := by
  rw [counter_stream h, length_firstWords]

theorem le_countLen (m : Nat) : m ≤ countLen st (m + 1) := by
  unfold countLen
  split
  · split <;> omega
  · omega

/-- Both sync bits of the counter are the same. -/
theorem delayed_sync (fidm : Bool) (n : Nat) :
    (delayed 1 (counterDiq fidm) n).fsyncH = (delayed 1 (counterDiq fidm) n).fsyncL := by
  cases n with
  | zero => rfl
  | succ n =>
    show (counterDiq fidm n).fsyncH = (counterDiq fidm n).fsyncL
    rw [counterDiq_eq]

theorem before_sync (fidm : Bool) (n : Nat) :
    (before (delayed 1 (counterDiq fidm)) n).fsyncH =
      (before (delayed 1 (counterDiq fidm)) n).fsyncL := by
  cases n with
  | zero => rfl
  | succ n => exact delayed_sync fidm n

/-- The other modes want two different bits, or one that is always high. -/
theorem counter_quiet (h : ¬ Counts st) (n : Nat) :
    st.validAt (delayed 1 (counterDiq st.fidm)) n = false := by
  rw [validAt_eq, RxSetting.validBehind, RxSetting.rule, delayed_sync, before_sync]
  generalize (delayed 1 (counterDiq st.fidm) n).fsyncL = a
  generalize (before (delayed 1 (counterDiq st.fidm)) n).fsyncL = b
  obtain ⟨pulse, ddr, mimo, fidm, channels⟩ := st
  cases mimo with
  | true =>
    obtain rfl : pulse = true := Bool.not_eq_false _ ▸ h
    cases a <;> cases b <;> rfl
  | false =>
    obtain rfl : ddr = true := Bool.not_eq_false _ ▸ h
    cases a <;> cases b <;> cases fidm <;> rfl

theorem counter_orderly (h : ¬ Counts st) : st.Orderly (delayed 1 (counterDiq st.fidm)) := by
  obtain ⟨pulse, ddr, mimo, fidm, channels⟩ := st
  cases mimo with
  | true => exact trivial
  | false =>
    obtain rfl : ddr = true := Bool.not_eq_false _ ▸ h
    have hinvalid : ∀ k, (RxiqSisoDdr.stateAt fidm (delayed 1 (counterDiq fidm)) k).diqValid
        (delayed 1 (counterDiq fidm) k) = false := by
      intro k
      rw [RxiqSisoDdr.diqValid, delayed_sync, bne_self_eq_false, Bool.and_false, Bool.false_and]
    exact fun n => .inr ⟨RxiqSisoDdr.rest fun k _ => hinvalid k, hinvalid n⟩

end counter

/-- The inputs of the receivers. -/
def frontRx (st : RxSetting) (z : Nat → DiqFrontIn) (rx : Nat → ClockIn) (n : Nat) : ClockIn :=
  { rx n with diq := frontDiq st.fidm z n }

/-- With the counter switched on, 12-bit or 16-bit samples and no load of the sample counter, the
    packets formed are filled with it, in order and without a gap, in the modes whose frames look
    alike: the twelve bits of one channel alone count all numbers, of two channels each does; and
    where the packet FIFO is never more than half full all are written. In the other modes,
    single-channel DDR and TRXIQ pulse, no frame is ever valid, no packet is begun and nothing
    written. -/
theorem counter_in_packets (sampleWidth : BitVec 2) (hsw : sampleWidth = 0 ∨ sampleWidth = 2)
    (st : RxSetting) (z : Nat → DiqFrontIn) (rx : Nat → ClockIn)
    (hen : ∀ n, (z n).testPtrnEn = true) (hld : ∀ n, (rx n).ldSmplNrSync = false) :
    (Counts st → ∃ lost, lost ≤ 4 ∧ ∀ b, ∃ n ts, b ≤ ts.length ∧
      Whole sampleWidth (clocksFormIn sampleWidth st (frontRx st z rx)) n ts ∧
      ((∀ k, (rx k).pctBuffWrusedw < 512) → (RxFormer.machine sampleWidth).log RxFormer.written
        (clocksFormIn sampleWidth st (frontRx st z rx)) n =
          ts.flatMap (packetAt sampleWidth (clocksFormIn sampleWidth st (frontRx st z rx)))) ∧
      received sampleWidth (clocksFormIn sampleWidth st (frontRx st z rx)) ts =
        (List.range (4 * smplRdSize sampleWidth * ts.length)).map fun k =>
          BitVec.ofNat 12 (countAt st (lost + k)) ++ 0#4) ∧
    (¬ Counts st → ∀ n, ¬ ValidAt sampleWidth st (frontRx st z rx) n ∧
      (formerAt sampleWidth (clocksFormIn sampleWidth st (frontRx st z rx))
        n).core.inst0.currentState ≠ .checkPctBuff ∧
      (RxFormer.machine sampleWidth).log RxFormer.written
        (clocksFormIn sampleWidth st (frontRx st z rx)) n = []) := by
  obtain ⟨wd, hwd, rfl⟩ := WidthSetting.exists_packed hsw
  have hdiq : diqAt (frontRx st z rx) = delayed 1 (counterDiq st.fidm) := funext (frontDiq_on hen)
  refine ⟨fun h => ?_, fun h => ?_⟩
  · have hshows : st.Shows (counterDiq st.fidm) (fun n => st.brings (counterDiq st.fidm n)) 0 0 :=
      ⟨counter_framed h, fun n => by rw [Nat.zero_add]⟩
    have hlater := hshows.delay 1
    rw [← hdiq] at hlater
    obtain ⟨lost, hlost, hall⟩ := received_stream hwd hlater hld
      (fun g => by rw [length_counter h, counter_stream h])
      fun m => ⟨m + 1, by rw [length_counter h]; exact le_countLen m⟩
    refine ⟨lost, Nat.le_trans hlost (length_slice_le (fun _ => st.length_brings _) 2), fun b => ?_⟩
    obtain ⟨n, ts, hlen, hw, hrec⟩ := hall b
    exact ⟨n, ts, hlen, hw, hw.all_written, hrec⟩
  · have hquiet : ∀ n, st.validAt (diqAt (frontRx st z rx)) n = false := by
      rw [hdiq]
      exact counter_quiet h
    have hnone : ∀ n, (formerAt wd (clocksFormIn wd st (frontRx st z rx))
        n).core.inst0.currentState ≠ .checkPctBuff := by
      intro n
      rw [← clocksFormer_eq]
      exact no_packet wd (by rw [hdiq]; exact counter_orderly h) hquiet n
    refine fun n => ⟨?_, hnone n, written_of_no_check wd hnone n⟩
    intro hvalid
    rw [ValidAt, inst_eq] at hvalid
    exact Bool.false_ne_true ((hquiet n).symm.trans hvalid)

/-- Channel A alone. -/
theorem counter_in_packets_chA : ∃ lost, lost ≤ 4 ∧ ∃ n ts, 5 ≤ ts.length ∧
    Whole 2 (clocksFormIn 2 ⟨false, true, true, false, .chA⟩ (frontRx
      ⟨false, true, true, false, .chA⟩ (fun _ => ⟨true, .none⟩)
      fun _ => ⟨⟨false, false, 0, 0⟩, 0, 0, false, false, 0⟩)) n ts ∧
    received 2 (clocksFormIn 2 ⟨false, true, true, false, .chA⟩ (frontRx
      ⟨false, true, true, false, .chA⟩ (fun _ => ⟨true, .none⟩)
      fun _ => ⟨⟨false, false, 0, 0⟩, 0, 0, false, false, 0⟩)) ts =
        (List.range (4 * smplRdSize 2 * ts.length)).map fun k =>
          BitVec.ofNat 12 (lost + k) ++ 0#4 := by
  obtain ⟨lost, hlost, hall⟩ := (counter_in_packets 2 (.inr rfl) ⟨false, true, true, false, .chA⟩
    (fun _ => ⟨true, .none⟩) (fun _ => ⟨⟨false, false, 0, 0⟩, 0, 0, false, false, 0⟩) (fun _ => rfl)
    fun _ => rfl).1 rfl
  obtain ⟨n, ts, hlen, hw, -, hrec⟩ := hall 5
  exact ⟨lost, hlost, n, ts, hlen, hw, hrec⟩

end RxTx
