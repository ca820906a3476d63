import LimeSdrGw.Wfm.SampleFormat
/-
# `decompress` from its reset on

The clock behind the reset is spent on the choice of the format; a word that comes in it is not decoded.
From then on every word is, whatever the gaps between the words and whatever `sample_width` does.

| here | there |
| --- | --- |
| `FifoD.fifoD`   | `fifo_d`, decompress.vhd:114 |
| `DecIn`         | `data_in_valid`, `data_in`, `sample_width` |
| `fifoWords`     | what `dec_fifo_wr` writes, decompress.vhd:119-126, 241-263 |
-/
namespace Wfm

open Clocked

/-- `fifo_d7 & .. & fifo_d0`. -/
def FifoD.fifoD (d : FifoD) : BitVec 128 :=
  d.d7 ++ d.d6 ++ d.d5 ++ d.d4 ++ d.d3 ++ d.d2 ++ d.d1 ++ d.d0

def FifoD.samples (d : FifoD) : List (BitVec 16) := [d.d0, d.d1, d.d2, d.d3, d.d4, d.d5, d.d6, d.d7]

/-- The 16-bit samples of a word, the lowest first. -/
def split (n : Nat) (w : BitVec (16 * n)) : List (BitVec 16) :=
  (List.range n).map fun k => w.extractLsb' (16 * k) 16

theorem split_append (n : Nat) (h : BitVec (16 * n)) (l : BitVec 16) :
    split (n + 1) (h ++ l) = l :: split n h := by
  have hlow : (h ++ l).extractLsb' (16 * 0) 16 = l := by
    ext i hi
    simp [BitVec.getLsbD_append, hi, BitVec.getLsbD_eq_getElem]
  have hhigh : ∀ k, (h ++ l).extractLsb' (16 * (k + 1)) 16 = h.extractLsb' (16 * k) 16 := by
    intro k
    ext i hi
    simp only [BitVec.getElem_extractLsb', BitVec.getLsbD_append]
    rw [if_neg (by omega), show 16 * (k + 1) + i - 16 = 16 * k + i by omega]
  rw [split, split, List.range_succ_eq_map, List.map_cons, List.map_map]
  exact congr (congrArg List.cons hlow) (List.map_congr_left fun k _ => hhigh k)

theorem split_fifoD (d : FifoD) : split 8 d.fifoD = d.samples := by
  have h1 : split 1 d.d7 = [d.d7] := congrArg ([·]) BitVec.extractLsb'_eq_self
  have h2 : split 2 (d.d7 ++ d.d6) = [d.d6, d.d7] := by rw [split_append 1, h1]
  have h3 : split 3 (d.d7 ++ d.d6 ++ d.d5) = [d.d5, d.d6, d.d7] := by rw [split_append 2, h2]
  have h4 : split 4 (d.d7 ++ d.d6 ++ d.d5 ++ d.d4) = [d.d4, d.d5, d.d6, d.d7] := by
    rw [split_append 3, h3]
  have h5 : split 5 (d.d7 ++ d.d6 ++ d.d5 ++ d.d4 ++ d.d3) = [d.d3, d.d4, d.d5, d.d6, d.d7] := by
    rw [split_append 4, h4]
  have h6 : split 6 (d.d7 ++ d.d6 ++ d.d5 ++ d.d4 ++ d.d3 ++ d.d2) =
      [d.d2, d.d3, d.d4, d.d5, d.d6, d.d7] := by rw [split_append 5, h5]
  have h7 : split 7 (d.d7 ++ d.d6 ++ d.d5 ++ d.d4 ++ d.d3 ++ d.d2 ++ d.d1) =
      [d.d1, d.d2, d.d3, d.d4, d.d5, d.d6, d.d7] := by rw [split_append 6, h6]
  rw [FifoD.fifoD, split_append 7, h7, FifoD.samples]

structure DecIn where
  valid : Bool
  data : Word32
  sampleWidth : BitVec 2
deriving Repr, DecidableEq

namespace Decompress

/-- Behind its reset, the inputs given clock by clock. -/
def machine : Machine Decompress DecIn := ⟨init, fun s i => s.step i.sampleWidth i.valid i.data⟩

end Decompress

section run

variable (x : Nat → DecIn)

abbrev decompressAt (n : Nat) : Decompress := Decompress.machine.state x n

/-- The words written to the FIFO before clock `n`. -/
def fifoWords (n : Nat) : List (BitVec 128) :=
  Decompress.machine.log (fun s i => validWord (s.decFifoWr i.valid) (s.fifoD i.valid i.data).fifoD) x n

/-- The memory words of the clocks before `n`. -/
def memoryWords (n : Nat) : List Word32 := words (fun k => ((x k).valid, (x k).data)) n

end run

/-- Eight samples in three words with 12 bits, in four words otherwise. -/
def groups (sampleWidth : BitVec 2) (l : List Word32) : List FifoD :=
  if sampleWidth = 0b10 then decode12 l else decode16 l

def groupWords (sampleWidth : BitVec 2) : Nat := if sampleWidth = 0b10 then 3 else 4

theorem length_decode12 (l : List Word32) : (decode12 l).length = l.length / 3 := by
  fun_induction decode12 l with
  | case1 a b c l ih =>
    simp only [List.length_cons, ih]
    omega
  | case2 l hl => exact (Nat.div_eq_of_lt (length_lt_three hl)).symm

theorem length_decode16 (l : List Word32) : (decode16 l).length = l.length / 4 := by
  fun_induction decode16 l with
  | case1 a b c d l ih =>
    simp only [List.length_cons, ih]
    omega
  | case2 l hl => exact (Nat.div_eq_of_lt (length_lt_four hl)).symm

theorem length_groups (sampleWidth : BitVec 2) (l : List Word32) :
    (groups sampleWidth l).length = l.length / groupWords sampleWidth := by
  rw [groups, groupWords]
  split
  · exact length_decode12 l
  · exact length_decode16 l

section run

variable {x : Nat → DecIn}

open Player

/-- One clock behind the reset the decoder reads, and it does so as in a playback. -/
theorem reading_at (x : Nat → DecIn) (n : Nat) : ∃ l : List FifoD,
    Reading (decompressAt x (n + 1)) ⟨none, memoryWords (fun k => x (k + 1)) n, l⟩ ∧
    (decompressAt x (n + 1)).state.format = some (taken (x 0).sampleWidth) ∧
    fifoWords x (n + 1) = l.map FifoD.fifoD := by
  induction n with
  | zero =>
    have hformat := format_begin (d := Decompress.init) rfl (x 0).sampleWidth (x 0).valid (x 0).data
    refine ⟨[], ?_, hformat, rfl⟩
    by_cases hw : (x 0).sampleWidth = 0b10
    · exact .dec12_0 (if_pos hw) rfl rfl
    · exact .dec16_0 (if_neg hw) rfl rfl
  | succ n ih =>
    obtain ⟨l, hread, hformat, hwords⟩ := ih
    have hbusy : (decompressAt x (n + 1)).state ≠ .idle := by
      intro hidle
      rw [hidle] at hformat
      exact nomatch hformat
    have hstep : decompressAt x (n + 2) = (decompressAt x (n + 1)).step (x (n + 1)).sampleWidth
      (x (n + 1)).valid (x (n + 1)).data := rfl
    refine ⟨_, hread.tick hbusy (x (n + 1)).sampleWidth _ _, ?_, ?_⟩
    · rw [hstep, hread.format_kept hbusy, hformat]
    · rw [fifoWords, Machine.log_succ, ← fifoWords, hwords, List.map_append, validWord, validWord]
      split <;> rfl

end run

/-- Whatever the gaps and whatever becomes of `sample_width` behind its first clock: the samples of the
    words written are those of the complete groups of the words that came from the second clock on, and
    a group is one write. -/
theorem decompress_samples (x : Nat → DecIn) (n : Nat) :
    (fifoWords x (n + 1)).flatMap (split 8) =
      (groups (x 0).sampleWidth (memoryWords (fun k => x (k + 1)) n)).flatMap FifoD.samples ∧
    (fifoWords x (n + 1)).length =
      (memoryWords (fun k => x (k + 1)) n).length / groupWords (x 0).sampleWidth := by
  obtain ⟨l, hread, hformat, hwords⟩ := reading_at x n
  have hl : l = groups (x 0).sampleWidth (memoryWords (fun k => x (k + 1)) n) := by
    rw [groups]
    by_cases hw : (x 0).sampleWidth = 0b10
    · rw [taken, if_pos hw] at hformat
      rw [if_pos hw]
      exact hread.decoded12 hformat
    · rw [taken, if_neg hw] at hformat
      rw [if_neg hw]
      exact hread.decoded16 hformat
  rw [hwords, hl]
  refine ⟨?_, ?_⟩
  · rw [List.flatMap_map]
    exact congrArg (List.flatMap · _) (funext split_fifoD)
  · rw [List.length_map, length_groups]

/-- Three words in the first three clocks; the first of them finds the decoder idle. -/
theorem decompress_first_word : ¬ ∀ (x : Nat → DecIn) (n : Nat),
    (fifoWords x n).flatMap (split 8) =
      (groups (x 0).sampleWidth (memoryWords x n)).flatMap FifoD.samples := by
  intro h
  have hbad := congrArg List.length (h (fun _ => ⟨true, 0, 0b10⟩) 3)
  exact absurd hbad (by decide)

end Wfm
