import LimeSdrGw.Clocked.Margin
import LimeSdrGw.Tx.BitUnpack
import LimeSdrGw.Tx.Integrity
/-
# `packets2data_top`: no overflow of the sample FIFO

The payload words of `packets2data` pass through `bit_unpack_64` into a FIFO of 256 words of 128 bits
that the consumer reads in 64-bit words. Its registered almost-full flag holds `p2d_rd` back. What the
host sends plays no part: a word is requested only while the flag is low.

| here | there |
| --- | --- |
| `TxTop`, `.step`      | packets2data_top.vhd:86-190, with `one_pct_fifo` in front |
| `TxTop.wrusedw`       | `wrusedw` of `fifo_inst_isnt2`: a word half read still counts |
| `maxFifoWords`        | `max_fifo_words`, `decomp_fifo_size = 9` |
| `TopIn`               | what the surroundings decide in a clock |
-/
namespace Tx

open Clocked

/-- Depth of the sample FIFO in 128-bit words. -/
abbrev decompFifoWords : Nat := 256
/-- `max_fifo_words`: all bits but the topmost. -/
abbrev maxFifoWords : Nat := 255

structure TopIn where
  gap : Bool
  pctSyncDis : Bool
  sampleNr : Word64
  smplBuffRdreq : Bool
deriving Repr

structure TxTop where
  path : TxPath
  fifoLimit : Nat
  fifoFullSig : Bool
  inst1 : BitUnpack64
  /-- In 64-bit words. -/
  inst2 : Fifo Word64

namespace TxTop

def init (ws : List Word128) : TxTop where
  path := .init ws
  fifoLimit := 0
  fifoFullSig := false
  inst1 := .init
  inst2 := .empty 0

def wrusedw (s : TxTop) : Nat := (s.inst2.items.length + 1) / 2

/-- What `packets2data` sees of the inputs. -/
def txIn (s : TxTop) (i : TopIn) : TxIn := ⟨i.gap, i.pctSyncDis, i.sampleNr, s.fifoFullSig⟩

def inst1DataOutValid (s : TxTop) : Bool := s.inst1.mux1DataOutValidReg
def inst1DataOut (s : TxTop) : Word128 := s.inst1.mux1Data128Reg

def step (sampleWidth : BitVec 2) (s : TxTop) (i : TopIn) : TxTop where
  path := s.path.step (s.txIn i)
  fifoLimit := maxFifoWords - 8
  fifoFullSig := decide (s.fifoLimit < s.wrusedw)
  inst1 := s.inst1.step sampleWidth s.path.inst1.smplBuffValid s.path.inst1.smplBuffQ
  inst2 := s.inst2.step (2 * decompFifoWords) false s.inst1DataOutValid s.inst1DataOut.halves
    i.smplBuffRdreq

def machine (ws : List Word128) (sampleWidth : BitVec 2) : Machine TxTop TopIn :=
  ⟨init ws, step sampleWidth⟩

/-- The words `bit_unpack_64` hands out in a clock, in the halves they are read back in. -/
def unpacked (s : TxTop) (_ : TopIn) : List Word64 :=
  if s.inst1DataOutValid then s.inst1DataOut.halves else []

/-- The word the consumer takes out of the FIFO in a clock. -/
def consumed (s : TxTop) (i : TopIn) : List Word64 :=
  if i.smplBuffRdreq then s.inst2.items.head?.toList else []

/-- `p2d_rd` asks for a payload word. -/
def requested (s : TxTop) : Bool := s.path.rd.rdReqInt s.fifoFullSig

section run

variable (ws : List Word128) (sampleWidth : BitVec 2) (x : Nat → TopIn)

/-- The state in clock `n`, the host sending the words `ws`. -/
abbrev topAt (n : Nat) : TxTop := (machine ws sampleWidth).state x n

/-- Clocks from the request of a payload word to the write of the sample word it completes. -/
def depth (sampleWidth : BitVec 2) : Nat := BitUnpack64.latency sampleWidth + 2

/-! ## From the request to the write -/

/-- A register that is set was set by its input one clock earlier. -/
theorem set_before {f g : Nat → Bool} (h0 : f 0 = false) (hs : ∀ n, f (n + 1) = true → g n = true)
    {n : Nat} (h : f n = true) : ∃ m, n = m + 1 ∧ g m = true := by
  cases n with
  | zero => rw [h0] at h; cases h
  | succ n => exact ⟨n, rfl, hs n h⟩

variable {ws sampleWidth x}

theorem valid_of_requested {n : Nat} (h : (topAt ws sampleWidth x n).path.inst1.smplBuffValid = true) :
    ∃ m, n = m + 2 ∧ (topAt ws sampleWidth x m).requested = true := by
  obtain ⟨m, rfl, hm⟩ := set_before
    (f := fun n => (topAt ws sampleWidth x n).path.inst1.smplBuffValid)
    (g := fun n => (topAt ws sampleWidth x n).path.inst1.smplBuffValidInt) rfl (fun _ h => h) h
  obtain ⟨k, rfl, hk⟩ := set_before
    (f := fun n => (topAt ws sampleWidth x n).path.inst1.smplBuffValidInt)
    (g := fun n => (topAt ws sampleWidth x n).requested) rfl
    (fun n h => (TxPath.step_validInt (i := (topAt ws sampleWidth x n).txIn (x n))).symm.trans h) hm
  exact ⟨k, rfl, hk⟩

/-- Every word written was asked for `depth` clocks earlier. -/
theorem written_requested {n : Nat} (h : (topAt ws sampleWidth x n).inst1DataOutValid = true) :
    ∃ m, n = m + depth sampleWidth ∧ (topAt ws sampleWidth x m).requested = true := by
  cases hsel : BitUnpack64.mux1Sel sampleWidth
  · -- `unpack_64_to_64` and one multiplexer
    obtain ⟨m, rfl, hm⟩ := set_before
      (f := fun n => (topAt ws sampleWidth x n).inst1DataOutValid)
      (g := fun n => (topAt ws sampleWidth x n).inst1.inst2.word1280Valid) rfl
      (fun n h => (if_neg (by rw [hsel]; decide)).symm.trans h) h
    obtain ⟨k, rfl, hk⟩ := set_before
      (f := fun n => (topAt ws sampleWidth x n).inst1.inst2.word1280Valid)
      (g := fun n => (topAt ws sampleWidth x n).path.inst1.smplBuffValid) rfl
      (fun n h => (Bool.and_eq_true_iff.1 h).2) hm
    obtain ⟨l, rfl, hl⟩ := valid_of_requested hk
    exact ⟨l, by rw [depth, BitUnpack64.latency, hsel]; rfl, hl⟩
  · -- `unpack_64_to_48` with its output register, and two multiplexers
    obtain ⟨m, rfl, hm⟩ := set_before
      (f := fun n => (topAt ws sampleWidth x n).inst1DataOutValid)
      (g := fun n => (topAt ws sampleWidth x n).inst1.mux0DataOutValidReg) rfl
      (fun n h => (if_pos hsel).symm.trans h) h
    obtain ⟨k, rfl, hk⟩ := set_before
      (f := fun n => (topAt ws sampleWidth x n).inst1.mux0DataOutValidReg)
      (g := fun n => (topAt ws sampleWidth x n).inst1.inst0.dataOutValidReg) rfl
      (fun n h => by
        have h' : (if BitUnpack64.mux0Sel sampleWidth then
          (topAt ws sampleWidth x n).inst1.inst0.dataOutValidReg else false) = true := h
        split at h'
        · exact h'
        · cases h') hm
    obtain ⟨j, rfl, hj⟩ := set_before
      (f := fun n => (topAt ws sampleWidth x n).inst1.inst0.dataOutValidReg)
      (g := fun n => (topAt ws sampleWidth x n).inst1.inst0.word1280Valid ||
        (topAt ws sampleWidth x n).inst1.inst0.word1281Valid) rfl (fun _ h => h) hk
    obtain ⟨i, rfl, hi⟩ := set_before
      (f := fun n => (topAt ws sampleWidth x n).inst1.inst0.word1280Valid ||
        (topAt ws sampleWidth x n).inst1.inst0.word1281Valid)
      (g := fun n => (topAt ws sampleWidth x n).path.inst1.smplBuffValid) rfl
      (fun n h => by
        rcases Bool.or_eq_true_iff.1 h with h | h <;> exact (Bool.and_eq_true_iff.1 h).2) hj
    obtain ⟨l, rfl, hl⟩ := valid_of_requested hi
    exact ⟨l, by rw [depth, BitUnpack64.latency, hsel]; rfl, hl⟩

/-- Every word asked for was let through by the level one clock earlier. -/
theorem requested_gate {n : Nat} (h : (topAt ws sampleWidth x n).requested = true) :
    ∃ m, n = m + 1 ∧ (topAt ws sampleWidth x m).wrusedw ≤ 247 := by
  cases n with
  | zero => exact nomatch h
  | succ n =>
    refine ⟨n, rfl, ?_⟩
    have hf : (topAt ws sampleWidth x (n + 1)).fifoFullSig = false := by
      simp only [requested, P2dRd.rdReqInt, Bool.and_eq_true, Bool.not_eq_true'] at h
      exact h.2
    have hlim : (topAt ws sampleWidth x n).fifoLimit ≤ 247 := by
      cases n with
      | zero => exact Nat.zero_le _
      | succ n => exact Nat.le_refl _
    have hle : ¬ (topAt ws sampleWidth x n).fifoLimit < (topAt ws sampleWidth x n).wrusedw :=
      of_decide_eq_false hf
    omega

/-! ## The level -/

theorem wrusedw_succ (n : Nat) : (topAt ws sampleWidth x (n + 1)).wrusedw ≤
    (topAt ws sampleWidth x n).wrusedw + ((topAt ws sampleWidth x n).inst1DataOutValid).toNat := by
  have hp : (Fifo.popped (x n).smplBuffRdreq (topAt ws sampleWidth x n).inst2.items).length ≤
      (topAt ws sampleWidth x n).inst2.items.length := by
    unfold Fifo.popped
    split <;> simp
  have hi : (topAt ws sampleWidth x (n + 1)).inst2.items =
    Fifo.popped (x n).smplBuffRdreq (topAt ws sampleWidth x n).inst2.items ++
    Fifo.pushed (2 * decompFifoWords) (topAt ws sampleWidth x n).inst1DataOutValid
      (topAt ws sampleWidth x n).inst1DataOut.halves (topAt ws sampleWidth x n).inst2.items := rfl
  rw [wrusedw, wrusedw, hi, List.length_append]
  cases hw : (topAt ws sampleWidth x n).inst1DataOutValid
  · rw [Fifo.pushed_false, Bool.toNat_false, List.length_nil]
    omega
  · have hd : (Fifo.pushed (2 * decompFifoWords) true
        (topAt ws sampleWidth x n).inst1DataOut.halves
        (topAt ws sampleWidth x n).inst2.items).length ≤ 2 := by
      unfold Fifo.pushed
      split
      · exact Nat.le_refl 2
      · exact Nat.zero_le 2
    rw [Bool.toNat_true]
    omega

theorem gated : Gated (fun n => (topAt ws sampleWidth x n).wrusedw)
    (fun n => (topAt ws sampleWidth x n).requested)
    (fun n => (topAt ws sampleWidth x n).inst1DataOutValid) (depth sampleWidth) 247 where
  start := by simp [machine, init, wrusedw, Fifo.empty]
  grows := wrusedw_succ
  arrives _ := written_requested
  gate _ := requested_gate

theorem depth_le (sampleWidth : BitVec 2) : 0 < depth sampleWidth ∧ depth sampleWidth ≤ 6 := by
  unfold depth BitUnpack64.latency
  split <;> decide

/-- There is room whenever a word is written. -/
theorem room_of_valid {n : Nat} (h : (topAt ws sampleWidth x n).inst1DataOutValid = true) :
    (topAt ws sampleWidth x n).wrusedw < decompFifoWords := by
  have hd := depth_le sampleWidth
  have hl : (topAt ws sampleWidth x n).wrusedw + 1 ≤ 247 + depth sampleWidth + 2 :=
    gated.level_lt_of_write hd.1 h
  show _ < 256
  omega

/-- What has come out of `bit_unpack_64` has been consumed or is in the FIFO. -/
theorem consumed_append (n : Nat) : (machine ws sampleWidth).log consumed x n ++
    (topAt ws sampleWidth x n).inst2.items = (machine ws sampleWidth).log unpacked x n := by
  induction n with
  | zero => rfl
  | succ n ih =>
    have hi : (topAt ws sampleWidth x (n + 1)).inst2.items =
      Fifo.popped (x n).smplBuffRdreq (topAt ws sampleWidth x n).inst2.items ++
      Fifo.pushed (2 * decompFifoWords) (topAt ws sampleWidth x n).inst1DataOutValid
        (topAt ws sampleWidth x n).inst1DataOut.halves (topAt ws sampleWidth x n).inst2.items := rfl
    have hpush : Fifo.pushed (2 * decompFifoWords) (topAt ws sampleWidth x n).inst1DataOutValid
        (topAt ws sampleWidth x n).inst1DataOut.halves (topAt ws sampleWidth x n).inst2.items =
        unpacked (topAt ws sampleWidth x n) (x n) := by
      unfold unpacked
      cases hw : (topAt ws sampleWidth x n).inst1DataOutValid
      · rfl
      · have hr := room_of_valid hw
        rw [wrusedw] at hr
        exact Fifo.pushed_true (by simp only [Word128.halves, List.length_cons, List.length_nil]; omega)
    have hpop : consumed (topAt ws sampleWidth x n) (x n) ++
        Fifo.popped (x n).smplBuffRdreq (topAt ws sampleWidth x n).inst2.items =
        (topAt ws sampleWidth x n).inst2.items := by
      unfold consumed Fifo.popped
      cases (x n).smplBuffRdreq
      · rfl
      · cases (topAt ws sampleWidth x n).inst2.items <;> rfl
    rw [Machine.log_succ, Machine.log_succ, ← ih, hi, hpush, List.append_assoc, List.append_assoc,
      ← List.append_assoc (consumed _ _), hpop]

/-- The sample FIFO in one clock: `words` is the number of payload words asked for and not yet
    through `bit_unpack_64`. -/
structure NoOverflow (s : TxTop) (words : Nat) (unpacked consumed : List Word64) : Prop where
  /-- All words on their way find room. -/
  margin : s.wrusedw + words < decompFifoWords
  /-- It is not full when it is written. -/
  room : s.inst1DataOutValid = true → s.wrusedw < decompFifoWords
  /-- No unpacked word is lost. -/
  kept : consumed ++ s.inst2.items = unpacked

/-- No overflow of the TX sample FIFO, for any words from the host, any consumer, any sample width
    and any pattern of holds. -/
theorem tx_sample_fifo_no_overflow (ws : List Word128) (sampleWidth : BitVec 2) (x : Nat → TopIn)
    (n : Nat) : NoOverflow (topAt ws sampleWidth x n)
      (inFlight (fun k => (topAt ws sampleWidth x k).requested) (depth sampleWidth) n)
      ((machine ws sampleWidth).log unpacked x n) ((machine ws sampleWidth).log consumed x n) where
  margin := by
    have hd := depth_le sampleWidth
    have hl : (topAt ws sampleWidth x n).wrusedw +
      inFlight (fun k => (topAt ws sampleWidth x k).requested) (depth sampleWidth) n ≤
      247 + depth sampleWidth + 2 := gated.level_le n
    show _ < 256
    omega
  room := room_of_valid
  kept := consumed_append n

end run

end TxTop

end Tx
