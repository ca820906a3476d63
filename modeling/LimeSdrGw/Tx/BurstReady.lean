import LimeSdrGw.Tx.Bursts
import LimeSdrGw.Tx.PctSamples
import LimeSdrGw.Tx.SampleFifo
/-
# When a burst may be triggered

`tx_path_top` allows a burst while `inst2_pct_buff_rdy` is high: the almost-full bit of the sample FIFO
is set and as many packets are complete in their slots as `pct_sync_size` calls for. How many that is
goes by two tables for full packets; of the packets in the slots only the number counts, and they
may be of any size. What can be relied on is the almost-full bit alone: 494 words of the FIFO.

| here | there |
| --- | --- |
| `numOfPackets`       | the two tables (tx_path_top.vhd:172-193) |
| `PctSync`, `.step`   | the registers of tx_path_top.vhd:164-233 |
| `BurstPath`, `.step` | `inst0_one_pct_fifo`, `packets2data_top_inst1` and `diq2fifo_inst2` in the external pulse mode (:287-396) |
| `BurstPath.buffered` | the sample FIFO, the complete packets and the unread rest, in words of the sample FIFO |
-/
namespace Tx

open Clocked

/-- Packets to wait for besides the sample FIFO; `full` is the number of samples in a full one. -/
def numOfPackets (full : Nat) (pctSyncSize : BitVec 16) : Nat :=
  if 0 < pctSyncSize.toNat ∧ pctSyncSize.toNat < full + 1 then 0
  else if full < pctSyncSize.toNat ∧ pctSyncSize.toNat < 2 * full + 1 then 1
  else if 2 * full < pctSyncSize.toNat ∧ pctSyncSize.toNat < 3 * full + 1 then 2
  else 3

/-- Samples in a full packet, as the tables have them. -/
def fullSamples (sampleWidth : BitVec 2) : Nat := if sampleWidth = 2 then 1360 else 1020

theorem le_fullSamples (sampleWidth : BitVec 2) : 1020 ≤ fullSamples sampleWidth := by
  unfold fullSamples
  split <;> decide

/-- The packets waited for with given settings. -/
def needed (sampleWidth : BitVec 2) (c : TxSettings) : Nat :=
  numOfPackets (fullSamples sampleWidth) c.pctSyncSize

section needed

variable {sampleWidth : BitVec 2} {c : TxSettings}

/-- One packet at most: none is waited for. -/
theorem needed_eq_zero (h : 0 < c.pctSyncSize.toNat)
    (h' : c.pctSyncSize.toNat ≤ fullSamples sampleWidth) : needed sampleWidth c = 0 := by
  rw [needed, numOfPackets, if_pos ⟨h, Nat.lt_succ_of_le h'⟩]

/-- Outside the tables. -/
theorem needed_eq_three (h : c.pctSyncSize.toNat = 0 ∨
    3 * fullSamples sampleWidth < c.pctSyncSize.toNat) : needed sampleWidth c = 3 := by
  rw [needed, numOfPackets, if_neg (by omega), if_neg (by omega), if_neg (by omega)]

end needed

/-- A burst of `k` words is of `k`, `2 * k` or `2 * k + 1` samples. -/
theorem TxSettings.size_of_words (c : TxSettings) : c.words ≤ c.pctSyncSize.toNat ∧
    c.pctSyncSize.toNat ≤ 2 * c.words + 1 := by
  unfold words
  split <;> omega

/-- The settings with which the signal is right whatever the host sends: it never rises, or the words
    that the almost-full bit stands for are enough. -/
def ReadySafe (sampleWidth : BitVec 2) (c : TxSettings) : Prop :=
  sampleWidth = 1 ∨ 3 * fullSamples sampleWidth < c.pctSyncSize.toNat ∨
    (0 < c.words ∧ c.words ≤ 494)

instance (sampleWidth : BitVec 2) (c : TxSettings) : Decidable (ReadySafe sampleWidth c) :=
  inferInstanceAs (Decidable (_ ∨ _))

/-- `COUNT_ONES`. -/
def countOnes (v : Fin buffCount → Bool) : Nat := (v 0).toNat + (v 1).toNat

theorem countOnes_le (v : Fin buffCount → Bool) : countOnes v ≤ 2 :=
  Nat.add_le_add (Bool.toNat_le _) (Bool.toNat_le _)

structure PctSync where
  pctSyncNumOfPackets12b : Nat
  pctSyncNumOfPackets16b : Nat
  pctSyncNumOfPackets : Nat
  pctSyncNumOfRdyPackets : Nat
  inst2PctBuffRdy : Bool

namespace PctSync

def init : PctSync := ⟨0, 0, 0, 0, false⟩

def step (sampleWidth : BitVec 2) (pctSyncSize : BitVec 16) (s : PctSync)
    (inPctBuffRdy : Fin buffCount → Bool) (smplBuffWrfull : Bool) : PctSync where
  pctSyncNumOfPackets12b := numOfPackets 1360 pctSyncSize
  pctSyncNumOfPackets16b := numOfPackets 1020 pctSyncSize
  pctSyncNumOfPackets :=
    if sampleWidth = 2 then s.pctSyncNumOfPackets12b else s.pctSyncNumOfPackets16b
  pctSyncNumOfRdyPackets := countOnes inPctBuffRdy
  inst2PctBuffRdy := smplBuffWrfull && decide (s.pctSyncNumOfPackets ≤ s.pctSyncNumOfRdyPackets)

end PctSync

/-- What the surroundings decide in a clock. -/
structure BurstPathIn where
  gap : Bool
  pctSyncDis : Bool
  sampleNr : Word64
  pctSyncPulse : Bool

structure BurstPath where
  inst1 : TxTop
  pctSync : PctSync
  inst2 : Fifo2diq 12

namespace BurstPath

def init (ws : List Word128) : BurstPath := ⟨.init ws, .init, .init⟩

def smplBuffRdempty (s : BurstPath) : Bool := s.inst1.inst2.items.isEmpty

/-- `inst2_fifo_q`: the upper twelve bits of the four fields. -/
def inst2FifoQ (smplBuffQ : Word64) : BitVec 48 :=
  smplBuffQ.extractLsb' 52 12 ++ smplBuffQ.extractLsb' 36 12 ++ smplBuffQ.extractLsb' 20 12 ++
    smplBuffQ.extractLsb' 4 12

/-- What `fifo2diq` sees. -/
def diqIn (s : BurstPath) (i : BurstPathIn) : BurstIn 12 :=
  ⟨i.pctSyncPulse, s.pctSync.inst2PctBuffRdy, s.smplBuffRdempty, inst2FifoQ s.inst1.inst2.q⟩

def inst2FifoRdreq (s : BurstPath) (i : BurstPathIn) : Bool := s.inst2.fifoRdreq (s.diqIn i)

/-- What `packets2data_top` sees. -/
def topIn (s : BurstPath) (i : BurstPathIn) : TopIn :=
  ⟨i.gap, i.pctSyncDis, i.sampleNr, s.inst2FifoRdreq i⟩

def step (sampleWidth : BitVec 2) (c : TxSettings) (s : BurstPath) (i : BurstPathIn) : BurstPath where
  inst1 := s.inst1.step sampleWidth (s.topIn i)
  pctSync :=
    s.pctSync.step sampleWidth c.pctSyncSize s.inst1.path.inst1.pctBuffRdyInt s.inst1.fifoFullSig
  inst2 := s.inst2.step true c (s.diqIn i)

def machine (ws : List Word128) (sampleWidth : BitVec 2) (c : TxSettings) :
    Machine BurstPath BurstPathIn := ⟨init ws, step sampleWidth c⟩

/-! ### What is buffered -/

/-- Words of the sample FIFO that `n` payload words are unpacked to: twelve bits become sixteen. -/
def sampleWords (sampleWidth : BitVec 2) (n : Nat) : Nat :=
  if BitUnpack64.mux1Sel sampleWidth then 4 * n / 3 else n

/-- A slot that holds a complete packet or is being read. -/
def inUse (s : BurstPath) (i : Fin buffCount) : Bool :=
  s.inst1.path.inst1.pctBuffRdyInt i ||
    (s.inst1.path.rd.currentState == .rdBuff || s.inst1.path.rd.currentState == .rdHold) &&
      i == s.inst1.path.rd.crntBuffCnt

/-- The unread samples of a slot. -/
def unread (sampleWidth : BitVec 2) (s : BurstPath) (i : Fin buffCount) : Nat :=
  if s.inUse i then sampleWords sampleWidth (s.inst1.path.inst1.slotVisible i).length else 0

def buffered (sampleWidth : BitVec 2) (s : BurstPath) : Nat :=
  s.inst1.inst2.items.length + (s.unread sampleWidth 0 + s.unread sampleWidth 1)

/-- The host has filled all buffers. -/
def Filled (s : BurstPath) : Prop := s.inst1.fifoFullSig = true ∧ ∀ i, s.inUse i = true

/-- Words of the sample FIFO that full packets in all slots make. -/
def slotWords (sampleWidth : BitVec 2) : Nat :=
  buffCount * sampleWords sampleWidth ((pctMaxSize - pctHdrSize) * 8 / 64)

theorem slotWords_le (sampleWidth : BitVec 2) : slotWords sampleWidth ≤ 1360 := by
  unfold slotWords sampleWords
  split <;> decide

section run

variable (ps : List Packet) (sampleWidth : BitVec 2) (c : TxSettings) (x : Nat → BurstPathIn)

/-- The state in clock `n`, the host sending the packets `ps`. -/
abbrev burstAt (n : Nat) : BurstPath :=
  (machine (ps.flatMap Packet.words) sampleWidth c).state x n

/-- `inst2_pct_buff_rdy`. -/
abbrev rdyAt (n : Nat) : Bool := (burstAt ps sampleWidth c x n).pctSync.inst2PctBuffRdy

/-- Words in the sample FIFO. -/
abbrev levelAt (n : Nat) : Nat := (burstAt ps sampleWidth c x n).inst1.inst2.items.length

/-- Burst readiness in one run. -/
structure ReadyRight : Prop where
  /-- What is buffered is enough for a burst. -/
  enough : ∀ n, rdyAt ps sampleWidth c x n = true →
    c.words ≤ (burstAt ps sampleWidth c x n).buffered sampleWidth
  /-- No zeros are inserted in a burst. -/
  noZeros : ∀ n, (burstAt ps sampleWidth c x n).inst2.ctrl.currentState = .rdSamples →
    (burstAt ps sampleWidth c x n).inst2.txiq.currentState ≠ .zeroSamples
  /-- A burst that the slots can hold becomes ready once all buffers are filled. -/
  ready : c.words ≤ slotWords sampleWidth → ∀ n, (burstAt ps sampleWidth c x n).Filled →
    ∃ m, n ≤ m ∧ rdyAt ps sampleWidth c x m = true

/-! ### The parts -/

def topIns (n : Nat) : TopIn := (burstAt ps sampleWidth c x n).topIn (x n)

def txIns (n : Nat) : TxIn := (burstAt ps sampleWidth c x n).inst1.txIn (topIns ps sampleWidth c x n)

def diqIns (n : Nat) : BurstIn 12 := (burstAt ps sampleWidth c x n).diqIn (x n)

/-- A word of the sample FIFO is read in clock `n`. -/
abbrev readsAt (n : Nat) : Bool := (burstAt ps sampleWidth c x n).inst2FifoRdreq (x n)

theorem inst1_eq (n : Nat) : (burstAt ps sampleWidth c x n).inst1 =
    TxTop.topAt (ps.flatMap Packet.words) sampleWidth (topIns ps sampleWidth c x) n :=
  Machine.state_part _ BurstPath.inst1 (TxTop.step sampleWidth) topIn (fun _ _ => rfl) x n

theorem inst2_eq (n : Nat) : (burstAt ps sampleWidth c x n).inst2 =
    Fifo2diq.pulseAt c (diqIns ps sampleWidth c x) n :=
  Machine.state_part _ BurstPath.inst2 (Fifo2diq.step true c) diqIn (fun _ _ => rfl) x n

theorem path_eq (n : Nat) : (burstAt ps sampleWidth c x n).inst1.path =
    TxPath.pathAt ps (txIns ps sampleWidth c x) n :=
  Machine.state_part _ (fun s : BurstPath => s.inst1.path) TxPath.step
    (fun s i => s.inst1.txIn (s.topIn i)) (fun _ _ => rfl) x n

theorem readsAt_eq (n : Nat) : readsAt ps sampleWidth c x n =
    Fifo2diq.readAt c (diqIns ps sampleWidth c x) n := by
  rw [readsAt, inst2FifoRdreq, inst2_eq]
  rfl

variable {ps sampleWidth c x}

/-! ### The almost-full bit -/

/-- The almost-full bit is one clock old. -/
theorem fifoFullSig_succ (n : Nat) : (burstAt ps sampleWidth c x (n + 1)).inst1.fifoFullSig = true ↔
    495 ≤ levelAt ps sampleWidth c x n := by
  have hsig : (burstAt ps sampleWidth c x (n + 1)).inst1.fifoFullSig =
      decide ((burstAt ps sampleWidth c x n).inst1.fifoLimit <
        (levelAt ps sampleWidth c x n + 1) / 2) := rfl
  rw [hsig, decide_eq_true_iff]
  cases n with
  | zero =>
    have hlevel : levelAt ps sampleWidth c x 0 = 0 := rfl
    rw [hlevel]
    exact iff_of_false (Nat.not_lt_zero _) (by decide)
  | succ n =>
    have hlimit : (burstAt ps sampleWidth c x (n + 1)).inst1.fifoLimit = 247 := rfl
    rw [hlimit]
    omega

/-- The first time the bit is set, the register behind the tables has its value. -/
theorem numOfPackets_eq {n : Nat} (h : (burstAt ps sampleWidth c x n).inst1.fifoFullSig = true) :
    (burstAt ps sampleWidth c x n).pctSync.pctSyncNumOfPackets = needed sampleWidth c := by
  match n with
  | 0 => cases h
  | 1 =>
    have hlevel : levelAt ps sampleWidth c x 0 = 0 := rfl
    rw [fifoFullSig_succ, hlevel] at h
    cases h
  | n + 2 =>
    show (if sampleWidth = 2 then numOfPackets 1360 c.pctSyncSize
      else numOfPackets 1020 c.pctSyncSize) = numOfPackets (fullSamples sampleWidth) c.pctSyncSize
    unfold fullSamples
    split <;> rfl

variable (ps sampleWidth c x) in
theorem numOfRdyPackets_le (n : Nat) :
    (burstAt ps sampleWidth c x n).pctSync.pctSyncNumOfRdyPackets ≤ 2 := by
  cases n with
  | zero => exact Nat.zero_le 2
  | succ n => exact countOnes_le _

/-- `inst2_pct_buff_rdy` is two clocks behind the FIFO. -/
theorem rdyAt_succ (n : Nat) : rdyAt ps sampleWidth c x (n + 1) = true ↔
    (burstAt ps sampleWidth c x n).inst1.fifoFullSig = true ∧
      needed sampleWidth c ≤ (burstAt ps sampleWidth c x n).pctSync.pctSyncNumOfRdyPackets := by
  have hrdy : rdyAt ps sampleWidth c x (n + 1) =
    ((burstAt ps sampleWidth c x n).inst1.fifoFullSig &&
      decide ((burstAt ps sampleWidth c x n).pctSync.pctSyncNumOfPackets ≤
        (burstAt ps sampleWidth c x n).pctSync.pctSyncNumOfRdyPackets)) := rfl
  rw [hrdy, Bool.and_eq_true, decide_eq_true_iff]
  refine and_congr_right fun hfull => ?_
  rw [numOfPackets_eq hfull]

theorem full_of_rdyAt {n : Nat} (h : rdyAt ps sampleWidth c x n = true) :
    ∃ m, n = m + 2 ∧ 495 ≤ levelAt ps sampleWidth c x m := by
  cases n with
  | zero => cases h
  | succ n =>
    have hfull := ((rdyAt_succ n).1 h).1
    cases n with
    | zero => cases hfull
    | succ n => exact ⟨n, rfl, (fifoFullSig_succ n).1 hfull⟩

theorem items_succ (n : Nat) : (burstAt ps sampleWidth c x (n + 1)).inst1.inst2.items =
    Fifo.popped (readsAt ps sampleWidth c x n) (burstAt ps sampleWidth c x n).inst1.inst2.items ++
      Fifo.pushed (2 * decompFifoWords) (burstAt ps sampleWidth c x n).inst1.inst1DataOutValid
        (burstAt ps sampleWidth c x n).inst1.inst1DataOut.halves
        (burstAt ps sampleWidth c x n).inst1.inst2.items := rfl

variable (ps sampleWidth c x) in
/-- A clock takes at most the word that is read. -/
theorem levelAt_le (n : Nat) : levelAt ps sampleWidth c x n ≤
    levelAt ps sampleWidth c x (n + 1) + (readsAt ps sampleWidth c x n).toNat := by
  rw [levelAt, levelAt, items_succ, List.length_append]
  cases readsAt ps sampleWidth c x n
  · rw [Fifo.popped_false]
    omega
  · rw [Fifo.popped_true, List.length_tail, Bool.toNat_true]
    omega

/-- There are never reads in two clocks on end. -/
theorem not_reads_twice {n : Nat} (h : readsAt ps sampleWidth c x n = true) :
    readsAt ps sampleWidth c x (n + 1) = false := by
  rw [readsAt_eq] at h ⊢
  refine Bool.eq_false_iff.2 fun h' => ?_
  have hst := (Fifo2diq.readAt_eq_true.1 h).1
  have hst' := (Fifo2diq.readAt_eq_true.1 h').1
  rw [Fifo2diq.txiq_succ, Txiq.step, Txiq.nextState, hst] at hst'
  cases hst'

/-- Whenever a burst may be triggered, the FIFO holds 494 words. -/
theorem level_of_rdyAt {n : Nat} (h : rdyAt ps sampleWidth c x n = true) :
    494 ≤ levelAt ps sampleWidth c x n := by
  obtain ⟨m, rfl, hfull⟩ := full_of_rdyAt h
  have h0 := levelAt_le ps sampleWidth c x m
  have h1 : levelAt ps sampleWidth c x (m + 1) ≤ levelAt ps sampleWidth c x (m + 2) +
    (readsAt ps sampleWidth c x (m + 1)).toNat := levelAt_le ps sampleWidth c x (m + 1)
  cases hr : readsAt ps sampleWidth c x m with
  | false =>
    rw [hr, Bool.toNat_false] at h0
    have := Bool.toNat_le (readsAt ps sampleWidth c x (m + 1))
    omega
  | true =>
    rw [hr, Bool.toNat_true] at h0
    rw [not_reads_twice hr, Bool.toNat_false] at h1
    omega

/-! ### Bursts that the sample FIFO can serve alone -/

theorem no_read {n : Nat}
    (h : (Fifo2diq.ctrlAt c (diqIns ps sampleWidth c x) n).currentState ≠ .rdSamples) :
    readsAt ps sampleWidth c x n = false := by
  rw [readsAt_eq]
  exact Bool.eq_false_iff.2 fun hr => h (Fifo2diq.rd_of_read hr)

/-- The sample FIFO has what is left of the burst. -/
structure Stocked (ps : List Packet) (sampleWidth : BitVec 2) (c : TxSettings)
    (x : Nat → BurstPathIn) (n : Nat) : Prop where
  wait : (Fifo2diq.ctrlAt c (diqIns ps sampleWidth c x) n).currentState = .txantEnableWait →
    c.words ≤ levelAt ps sampleWidth c x n
  rd : (Fifo2diq.ctrlAt c (diqIns ps sampleWidth c x) n).currentState = .rdSamples →
    c.words ≤ levelAt ps sampleWidth c x n + Fifo2diq.burstReads c (diqIns ps sampleWidth c x) n

theorem Stocked.step (hready : ∀ n, rdyAt ps sampleWidth c x n = true →
    c.words ≤ levelAt ps sampleWidth c x n) {n : Nat} (h : Stocked ps sampleWidth c x n) :
    Stocked ps sampleWidth c x (n + 1) := by
  have hlevel := levelAt_le ps sampleWidth c x n
  have hnext := Fifo2diq.ctrl_next (c := c) (x := diqIns ps sampleWidth c x) n
  rw [TxiqCtrl.nextState] at hnext
  cases hst : (Fifo2diq.ctrlAt c (diqIns ps sampleWidth c x) n).currentState with
  | idle =>
    rw [no_read (by rw [hst]; decide), Bool.toNat_false] at hlevel
    simp only [hst] at hnext
    have hrdy : (diqIns ps sampleWidth c x n).pctBuffRdy = rdyAt ps sampleWidth c x n := rfl
    refine ⟨fun hw => ?_, fun hr => ?_⟩
    · cases hb : rdyAt ps sampleWidth c x n with
      | true => exact Nat.le_trans (hready n hb) hlevel
      | false =>
        rw [hrdy, hb, hw] at hnext
        cases hnext
    · rw [hr] at hnext
      split at hnext <;> cases hnext
  | txantEnableWait =>
    rw [no_read (by rw [hst]; decide), Bool.toNat_false] at hlevel
    have hle := Nat.le_trans (h.wait hst) hlevel
    exact ⟨fun _ => hle, fun _ => Nat.le_trans hle (Nat.le_add_right _ _)⟩
  | rdSamples =>
    simp only [hst] at hnext
    refine ⟨fun hw => ?_, fun _ => ?_⟩
    · rw [hw] at hnext
      split at hnext <;> cases hnext
    · have hcount := Fifo2diq.burstReads_succ (c := c) (x := diqIns ps sampleWidth c x) n
      have hle := h.rd hst
      rw [if_neg (by rw [hst]; decide), ← readsAt_eq] at hcount
      cases hr : readsAt ps sampleWidth c x n with
      | true =>
        rw [hr, if_pos rfl] at hcount
        rw [hr, Bool.toNat_true] at hlevel
        omega
      | false =>
        rw [hr, if_neg (by decide)] at hcount
        rw [hr, Bool.toNat_false] at hlevel
        omega
  | txantDisWait =>
    simp only [hst] at hnext
    refine ⟨fun hw => ?_, fun hr => ?_⟩
    · rw [hw] at hnext
      split at hnext <;> cases hnext
    · rw [hr] at hnext
      split at hnext <;> cases hnext
  | waitRdCycles =>
    simp only [hst] at hnext
    refine ⟨fun hw => ?_, fun hr => ?_⟩
    · rw [hw] at hnext
      cases hnext
    · rw [hr] at hnext
      cases hnext

theorem stocked (hready : ∀ n, rdyAt ps sampleWidth c x n = true →
    c.words ≤ levelAt ps sampleWidth c x n) (n : Nat) : Stocked ps sampleWidth c x n := by
  induction n with
  | zero => exact ⟨nofun, nofun⟩
  | succ n ih => exact ih.step hready

/-- Zeros are inserted only where the FIFO is found empty in a burst. -/
theorem empty_of_zeros {n : Nat}
    (h : (burstAt ps sampleWidth c x (n + 1)).inst2.txiq.currentState = .zeroSamples) :
    (Fifo2diq.ctrlAt c (diqIns ps sampleWidth c x) n).currentState = .rdSamples ∧
      levelAt ps sampleWidth c x n = 0 := by
  rw [inst2_eq, Fifo2diq.txiq_succ, Txiq.step] at h
  have hen := Txiq.of_nextState_zeroSamples h
  refine ⟨beq_iff_eq.1 hen.1, ?_⟩
  rw [levelAt, List.isEmpty_iff.1 hen.2, List.length_nil]

theorem noZeros (hw : c.words ≠ 0) (hready : ∀ n, rdyAt ps sampleWidth c x n = true →
    c.words ≤ levelAt ps sampleWidth c x n) (n : Nat) :
    (burstAt ps sampleWidth c x n).inst2.txiq.currentState ≠ .zeroSamples := by
  cases n with
  | zero => nofun
  | succ n =>
    intro h
    obtain ⟨hst, hempty⟩ := empty_of_zeros h
    have hlt := ((Fifo2diq.counted (x := diqIns ps sampleWidth c x) hw n).rd hst).1
    have hle := (stocked hready n).rd hst
    omega

/-! ### Signals that never rise -/

/-- No burst begins before the first trigger. -/
theorem ctrl_idle {n : Nat} (h : ∀ k, k < n →
    (rdyAt ps sampleWidth c x k && (x k).pctSyncPulse) = false) :
    (Fifo2diq.ctrlAt c (diqIns ps sampleWidth c x) n).currentState = .idle := by
  induction n with
  | zero => rfl
  | succ n ih =>
    have htrigger : ((diqIns ps sampleWidth c x n).pctBuffRdy &&
      (diqIns ps sampleWidth c x n).pctSyncPulse) = false := h n (Nat.lt_succ_self n)
    have hidle := ih fun k hk => h k (Nat.lt_succ_of_lt hk)
    rw [Fifo2diq.ctrl_next, TxiqCtrl.nextState, hidle]
    simp only [htrigger, Bool.false_eq_true, if_false]

theorem readyRight_of_never (hnever : ∀ n, rdyAt ps sampleWidth c x n = false)
    (hready : c.words ≤ slotWords sampleWidth → ∀ n, ¬ (burstAt ps sampleWidth c x n).Filled) :
    ReadyRight ps sampleWidth c x where
  enough n h := by
    rw [hnever n] at h
    cases h
  noZeros n h := by
    rw [inst2_eq, ctrl_idle fun k _ => by rw [hnever k]; rfl] at h
    cases h
  ready hslots n hfilled := absurd hfilled (hready hslots n)

/-- With `sample_width = "01"` nothing comes out of `bit_unpack_64`. -/
theorem levelAt_w14 (n : Nat) : levelAt ps 1 c x n = 0 := by
  have key : (burstAt ps 1 c x n).inst1.inst1.mux0DataOutValidReg = false ∧
      (burstAt ps 1 c x n).inst1.inst1DataOutValid = false ∧ levelAt ps 1 c x n = 0 := by
    induction n with
    | zero => exact ⟨rfl, rfl, rfl⟩
    | succ n ih =>
      obtain ⟨h0, h1, hlevel⟩ := ih
      refine ⟨rfl, h0, ?_⟩
      rw [levelAt, items_succ, h1, Fifo.pushed_false, List.append_nil,
        List.length_eq_zero_iff.1 hlevel]
      cases readsAt ps 1 c x n <;> rfl
  exact key.2.2

theorem not_full_w14 (n : Nat) : (burstAt ps 1 c x n).inst1.fifoFullSig ≠ true := by
  cases n with
  | zero => nofun
  | succ n =>
    rw [Ne, fifoFullSig_succ, levelAt_w14]
    decide

theorem readyRight_w14 : ReadyRight ps 1 c x := by
  refine readyRight_of_never (fun n => Bool.eq_false_iff.2 fun h => ?_)
    fun _ n hfilled => not_full_w14 n hfilled.1
  obtain ⟨m, -, hfull⟩ := full_of_rdyAt h
  rw [levelAt_w14] at hfull
  omega

/-- There are only two slots. -/
theorem readyRight_over (h : 3 * fullSamples sampleWidth < c.pctSyncSize.toNat) :
    ReadyRight ps sampleWidth c x := by
  have hneeded : needed sampleWidth c = 3 := needed_eq_three (.inr h)
  refine readyRight_of_never (fun n => Bool.eq_false_iff.2 fun hrdy => ?_) fun hslots => ?_
  · cases n with
    | zero => cases hrdy
    | succ n =>
      have hle := ((rdyAt_succ n).1 hrdy).2
      have := numOfRdyPackets_le ps sampleWidth c x n
      omega
  · have hsize := c.size_of_words
    have hmost := slotWords_le sampleWidth
    have hfull := le_fullSamples sampleWidth
    omega

/-- The almost-full bit is enough for bursts of at most 494 words. -/
theorem readyRight_served (hpos : 0 < c.words) (hle : c.words ≤ 494) :
    ReadyRight ps sampleWidth c x where
  enough n h := Nat.le_trans (Nat.le_trans hle (level_of_rdyAt h)) (Nat.le_add_right _ _)
  noZeros n _ := noZeros (by omega) (fun _ h => Nat.le_trans hle (level_of_rdyAt h)) n
  ready _ n hfilled := by
    have hsize := c.size_of_words
    have hfull := le_fullSamples sampleWidth
    have hneeded : needed sampleWidth c = 0 := needed_eq_zero (by omega) (by omega)
    refine ⟨n + 1, Nat.le_succ n, (rdyAt_succ n).2 ⟨hfilled.1, ?_⟩⟩
    rw [hneeded]
    exact Nat.zero_le _

theorem readyRight (h : ReadySafe sampleWidth c) : ReadyRight ps sampleWidth c x := by
  rcases h with rfl | h | ⟨hpos, hle⟩
  · exact readyRight_w14
  · exact readyRight_over h
  · exact readyRight_served hpos hle

end run

end BurstPath

end Tx
