import LimeSdrGw.Clocked.Machine
/-
# The serialiser `txiq`

Takes words of four samples from the sample FIFO and puts them on the interface, two samples in every
clock, in two or four clocks according to the channel mode. When the FIFO is empty a word of zeros
takes the place.

| here | there |
| --- | --- |
| `TxMode.intMode`             | `int_mode` (txiq.vhd:119-122, the same in fifo2diq.vhd:79-83) |
| `TxMode.intFsyncL`, `H`      | the frame sync muxes (:126-137) |
| `TxMode.muxPosL`, `H`        | the tables of positions (:143-186) |
| `Txiq`, `.step`              | registers and processes (:189-373) |
| `Txiq.nextState`             | process `fsm` (:222-264) |
| `Serialiser.popped`, `.fifoQ` | words read, and the `q` of a FIFO without show-ahead that holds the words `ws` |
-/
namespace Tx

open Clocked

structure TxMode where
  trxiqpulse : Bool
  ddrEn : Bool
  mimoEn : Bool
  chEn : BitVec 2
  fidm : Bool
deriving DecidableEq, Repr

/-- A sample with its frame sync. -/
structure Diq (w : Nat) where
  fsync : Bool
  data : BitVec w
deriving DecidableEq, Repr

/-- The place `k` of the four samples in a word of the FIFO. -/
def diqSmpl {w : Nat} (q : BitVec (4 * w)) (k : Nat) : BitVec w := q.extractLsb' (k * w) w

namespace TxMode

variable {w : Nat} (m : TxMode) (q : BitVec (4 * w))

def intMode : BitVec 2 :=
  if (!m.mimoEn && m.ddrEn) || ((m.mimoEn || m.trxiqpulse) && m.chEn == 3) then 0
  else if (m.mimoEn || m.trxiqpulse) && m.chEn == 1 then 1
  else if (m.mimoEn || m.trxiqpulse) && m.chEn == 2 then 2
  else 3

/-- Bit `k` of `mux_fsync_H`, `mux_fsync_L`: `"0101"` has a 1 at the even places. -/
def muxFsyncH (k : Nat) : Bool := (!m.mimoEn && m.ddrEn && !m.trxiqpulse) || k % 2 == 0
def muxFsyncL (k : Nat) : Bool := !((!m.mimoEn && m.ddrEn) || m.trxiqpulse) && k % 2 == 0

def intFsyncL (k : Nat) : Bool := if m.fidm then m.muxFsyncL k else !m.muxFsyncL k
def intFsyncH (k : Nat) : Bool := if m.fidm then m.muxFsyncH k else !m.muxFsyncH k

def muxPosH (k : Nat) : BitVec w :=
  match k with
  | 0 => if m.intMode = 2 then 0 else diqSmpl q 0
  | 1 =>
    if m.intMode = 0 then diqSmpl q 2 else if m.intMode = 1 then 0
    else if m.intMode = 2 then diqSmpl q 0 else diqSmpl q 1
  | 2 => if m.intMode.getLsbD 0 = false then 0 else diqSmpl q 2
  | _ => if m.intMode.getLsbD 1 = false then 0 else if m.intMode = 2 then diqSmpl q 2 else diqSmpl q 3

def muxPosL (k : Nat) : BitVec w :=
  match k with
  | 0 => if m.intMode = 3 then diqSmpl q 0 else if m.intMode = 2 then 0 else diqSmpl q 1
  | 1 => if m.intMode = 0 then diqSmpl q 3 else if m.intMode = 1 then 0 else diqSmpl q 1
  | 2 => if m.intMode.getLsbD 0 = false then 0 else if m.intMode = 1 then diqSmpl q 3 else diqSmpl q 2
  | _ => if m.intMode.getLsbD 1 = false then 0 else diqSmpl q 3

def rdWaitCntMax : Nat := if m.intMode = 0 then 0 else 2

/-- What the shift registers are loaded with, for a word and for zeros. -/
def loadL (k : Nat) : Diq w := ⟨m.intFsyncL k, m.muxPosL q k⟩
def loadH (k : Nat) : Diq w := ⟨m.intFsyncH k, m.muxPosH q k⟩
def zeroL (w : Nat) (k : Nat) : Diq w := ⟨m.intFsyncL k, 0⟩
def zeroH (w : Nat) (k : Nat) : Diq w := ⟨m.intFsyncH k, 0⟩

end TxMode

inductive TxiqState | idle | rdSamples | zeroSamples | waitRdCycles
deriving DecidableEq, Repr

/-- Four registers of a lane, place 0 at the output. -/
structure Lane (w : Nat) where
  reg0 : Diq w
  reg1 : Diq w
  reg2 : Diq w
  reg3 : Diq w
deriving DecidableEq, Repr

namespace Lane

variable {w : Nat}

def zero : Lane w := ⟨⟨false, 0⟩, ⟨false, 0⟩, ⟨false, 0⟩, ⟨false, 0⟩⟩
def load (f : Nat → Diq w) : Lane w := ⟨f 0, f 1, f 2, f 3⟩
def shift (d : Lane w) : Lane w := ⟨d.reg1, d.reg2, d.reg3, ⟨false, 0⟩⟩

/-- What is at the output `j` clocks after `f` was loaded. -/
theorem load_shift (f : Nat → Diq w) {j : Nat} (h : j < 4) :
    (Nat.repeat shift j (load f)).reg0 = f j := by
  match j with
  | 0 | 1 | 2 | 3 => rfl

end Lane

structure Txiq (w : Nat) where
  currentState : TxiqState
  rdWaitCnt : Nat
  rdWaitCntMaxReg : Nat
  intFifoQValid : Bool
  zeroValid : Bool
  txantEn : Bool
  diqL : Lane w
  diqH : Lane w

namespace Txiq

variable {w : Nat}

def init : Txiq w where
  currentState := .idle
  rdWaitCnt := 0
  rdWaitCntMaxReg := 0
  intFifoQValid := false
  zeroValid := false
  txantEn := false
  diqL := .zero
  diqH := .zero

def nextState (s : Txiq w) (en fifoRdempty : Bool) : TxiqState :=
  match s.currentState with
  | .idle => if en then (if !fifoRdempty then .rdSamples else .zeroSamples) else .idle
  | .rdSamples => .waitRdCycles
  | .waitRdCycles =>
    if s.rdWaitCnt = s.rdWaitCntMaxReg then
      if !fifoRdempty && en then .rdSamples
      else if fifoRdempty && en then .zeroSamples
      else .idle
    else .waitRdCycles
  | .zeroSamples => .waitRdCycles

/-- Zeros come only where a word is wanted and none is there. -/
theorem of_nextState_zeroSamples {s : Txiq w} {en fifoRdempty : Bool}
    (h : s.nextState en fifoRdempty = .zeroSamples) : en = true ∧ fifoRdempty = true := by
  unfold nextState at h
  cases hs : s.currentState <;> simp only [hs] at h <;> repeat' split at h
  all_goals simp_all

/-- A word is asked for only where one is there, and not twice on end. -/
theorem of_nextState_rdSamples {s : Txiq w} {en fifoRdempty : Bool}
    (h : s.nextState en fifoRdempty = .rdSamples) :
    fifoRdempty = false ∧ s.currentState ≠ .rdSamples := by
  unfold nextState at h
  cases hs : s.currentState <;> simp only [hs] at h <;> repeat' split at h
  all_goals simp_all

def intFifoRdreq (s : Txiq w) : Bool := s.currentState == .rdSamples

def fifoRdreq (s : Txiq w) (fifoRdempty : Bool) : Bool := s.intFifoRdreq && !fifoRdempty

def step (m : TxMode) (s : Txiq w) (en fifoRdempty : Bool) (fifoQ : BitVec (4 * w)) : Txiq w where
  currentState := s.nextState en fifoRdempty
  rdWaitCnt := if s.currentState = .waitRdCycles then (s.rdWaitCnt + 1) % 16 else 0
  rdWaitCntMaxReg := m.rdWaitCntMax
  intFifoQValid := s.intFifoRdreq
  zeroValid := s.currentState == .zeroSamples
  txantEn := s.currentState != .idle
  diqL :=
    if s.intFifoQValid then .load (m.loadL fifoQ)
    else if s.zeroValid then .load (m.zeroL w)
    else s.diqL.shift
  diqH :=
    if s.intFifoQValid then .load (m.loadH fifoQ)
    else if s.zeroValid then .load (m.zeroH w)
    else s.diqH.shift

end Txiq

structure TxiqIn where
  mode : TxMode
  en : Bool
  fifoRdempty : Bool

structure Serialiser (w : Nat) where
  txiq : Txiq w
  popped : Nat
  fifoQ : BitVec (4 * w)

namespace Serialiser

variable {w : Nat}

def init : Serialiser w := ⟨.init, 0, 0⟩

def pops (s : Serialiser w) (i : TxiqIn) : Bool := s.txiq.fifoRdreq i.fifoRdempty

def step (ws : Nat → BitVec (4 * w)) (s : Serialiser w) (i : TxiqIn) : Serialiser w where
  txiq := s.txiq.step i.mode i.en i.fifoRdempty s.fifoQ
  popped := if s.pops i then s.popped + 1 else s.popped
  fifoQ := if s.pops i then ws s.popped else s.fifoQ

end Serialiser

def serialiser {w : Nat} (ws : Nat → BitVec (4 * w)) : Machine (Serialiser w) TxiqIn :=
  ⟨.init, Serialiser.step ws⟩

/-! ### Slots -/

namespace TxMode

variable {w : Nat} (m : TxMode)

/-- Clocks a word takes. -/
def period : Nat := m.rdWaitCntMax + 2

theorem period_cases : m.period = 2 ∧ m.intMode = 0 ∨ m.period = 4 ∧ m.intMode ≠ 0 := by
  unfold period rdWaitCntMax
  by_cases h : m.intMode = 0
  · exact .inl ⟨by rw [if_pos h], h⟩
  · exact .inr ⟨by rw [if_neg h], h⟩

theorem rdWaitCntMax_le : m.rdWaitCntMax ≤ 2 := by
  unfold rdWaitCntMax
  split <;> decide

/-- The frame sync goes on from one word to the next. -/
theorem intFsync_period (k : Nat) :
    m.intFsyncL (k + m.period) = m.intFsyncL k ∧ m.intFsyncH (k + m.period) = m.intFsyncH k := by
  have hp : (k + m.period) % 2 = k % 2 := by
    rcases m.period_cases with ⟨h, _⟩ | ⟨h, _⟩ <;> omega
  unfold intFsyncL intFsyncH muxFsyncL muxFsyncH
  rw [hp]
  exact ⟨rfl, rfl⟩

/-- Every sample of the word has a position within the slot. -/
theorem sample_emitted (q : BitVec (4 * w)) {i : Nat} (hi : i < 4) :
    ∃ k, k < m.period ∧ (m.muxPosL q k = diqSmpl q i ∨ m.muxPosH q k = diqSmpl q i) := by
  have h4 : m.intMode = 0 ∨ m.intMode = 1 ∨ m.intMode = 2 ∨ m.intMode = 3 := by
    generalize m.intMode = c
    revert c
    decide
  rcases m.period_cases with ⟨hp, h0⟩ | ⟨hp, h0⟩
  · -- two samples in each of two clocks
    rw [hp]
    match i with
    | 0 => exact ⟨0, by decide, .inr (by simp [muxPosH, h0])⟩
    | 1 => exact ⟨0, by decide, .inl (by simp [muxPosL, h0])⟩
    | 2 => exact ⟨1, by decide, .inr (by simp [muxPosH, h0])⟩
    | 3 => exact ⟨1, by decide, .inl (by simp [muxPosL, h0])⟩
  · rw [hp]
    rcases h4.resolve_left h0 with h1 | h2 | h3
    · match i with
      | 0 => exact ⟨0, by decide, .inr (by simp [muxPosH, h1])⟩
      | 1 => exact ⟨0, by decide, .inl (by simp [muxPosL, h1])⟩
      | 2 => exact ⟨2, by decide, .inr (by simp [muxPosH, h1])⟩
      | 3 => exact ⟨2, by decide, .inl (by simp [muxPosL, h1])⟩
    · match i with
      | 0 => exact ⟨1, by decide, .inr (by simp [muxPosH, h2])⟩
      | 1 => exact ⟨1, by decide, .inl (by simp [muxPosL, h2])⟩
      | 2 => exact ⟨3, by decide, .inr (by simp [muxPosH, h2])⟩
      | 3 => exact ⟨3, by decide, .inl (by simp [muxPosL, h2])⟩
    · match i with
      | 0 => exact ⟨0, by decide, .inr (by simp [muxPosH, h3])⟩
      | 1 => exact ⟨1, by decide, .inr (by simp [muxPosH, h3])⟩
      | 2 => exact ⟨2, by decide, .inr (by simp [muxPosH, h3])⟩
      | 3 => exact ⟨3, by decide, .inr (by simp [muxPosH, h3])⟩

/-- Position `k` of a slot, with a word or with zeros. -/
def emitL (c : Option (BitVec (4 * w))) : Nat → Diq w :=
  match c with
  | some q => m.loadL q
  | none => m.zeroL w
def emitH (c : Option (BitVec (4 * w))) : Nat → Diq w :=
  match c with
  | some q => m.loadH q
  | none => m.zeroH w

end TxMode

/-- A slot begins: a word is asked for, or zeros. -/
def Txiq.slot {w : Nat} (s : Txiq w) : Bool :=
  s.currentState == .rdSamples || s.currentState == .zeroSamples

namespace Serialiser

variable {w : Nat} (ws : Nat → BitVec (4 * w)) (x : Nat → TxiqIn)

abbrev stateAt (n : Nat) : Serialiser w := (serialiser ws).state x n

abbrev txiqAt (n : Nat) : Txiq w := (stateAt ws x n).txiq

/-- The word read in clock `n`. -/
def content (n : Nat) : Option (BitVec (4 * w)) :=
  if (stateAt ws x n).pops (x n) then some (ws (stateAt ws x n).popped) else none

variable {ws x}

theorem txiqAt_succ (n : Nat) : txiqAt ws x (n + 1) = (txiqAt ws x n).step (x n).mode (x n).en
    (x n).fifoRdempty (stateAt ws x n).fifoQ := rfl

/-- The clocks of a slot behind its first one. -/
theorem waiting {m : TxMode} {s j : Nat} (hs : (txiqAt ws x s).slot)
    (hm : ∀ t, s ≤ t → t < s + m.period → (x t).mode = m) (hj : j ≤ m.rdWaitCntMax) :
    (txiqAt ws x (s + 1 + j)).currentState = .waitRdCycles ∧
      (txiqAt ws x (s + 1 + j)).rdWaitCnt = j ∧
      (txiqAt ws x (s + 1 + j)).rdWaitCntMaxReg = m.rdWaitCntMax := by
  have hmax := m.rdWaitCntMax_le
  have hper : m.period = m.rdWaitCntMax + 2 := rfl
  induction j with
  | zero =>
    have hst : (txiqAt ws x s).currentState = .rdSamples ∨
        (txiqAt ws x s).currentState = .zeroSamples := by
      simpa [Txiq.slot] using hs
    rw [Nat.add_zero, txiqAt_succ, hm s (Nat.le_refl s) (by omega)]
    refine ⟨?_, ?_, rfl⟩
    · show (txiqAt ws x s).nextState _ _ = _
      rcases hst with h | h <;> rw [Txiq.nextState, h]
    · show (if (txiqAt ws x s).currentState = .waitRdCycles then _ else 0) = 0
      rw [if_neg (by rcases hst with h | h <;> rw [h] <;> decide)]
  | succ j ih =>
    obtain ⟨hst, hcnt, hreg⟩ := ih (by omega)
    rw [← Nat.add_assoc, txiqAt_succ, hm (s + 1 + j) (by omega) (by omega)]
    refine ⟨?_, ?_, rfl⟩
    · show (txiqAt ws x (s + 1 + j)).nextState _ _ = _
      rw [Txiq.nextState, hst]
      show (if _ = _ then _ else _) = _
      rw [if_neg (by rw [hcnt, hreg]; omega)]
    · show (if (txiqAt ws x (s + 1 + j)).currentState = .waitRdCycles then
        ((txiqAt ws x (s + 1 + j)).rdWaitCnt + 1) % 16 else 0) = j + 1
      rw [if_pos hst, hcnt]
      omega

/-- The next slot follows without a gap. -/
theorem next_slot {m : TxMode} {s : Nat} (hs : (txiqAt ws x s).slot)
    (hm : ∀ t, s ≤ t → t < s + m.period → (x t).mode = m) (hen : (x (s + m.period - 1)).en) :
    (txiqAt ws x (s + m.period)).slot := by
  obtain ⟨hst, hcnt, hreg⟩ := waiting hs hm (Nat.le_refl _)
  have hper : s + m.period = s + 1 + m.rdWaitCntMax + 1 := by unfold TxMode.period; omega
  rw [hper, Nat.add_sub_cancel] at hen
  rw [hper, txiqAt_succ]
  have hn : ((txiqAt ws x (s + 1 + m.rdWaitCntMax)).step (x (s + 1 + m.rdWaitCntMax)).mode
      (x (s + 1 + m.rdWaitCntMax)).en (x (s + 1 + m.rdWaitCntMax)).fifoRdempty
      (stateAt ws x (s + 1 + m.rdWaitCntMax)).fifoQ).currentState =
        if (x (s + 1 + m.rdWaitCntMax)).fifoRdempty then .zeroSamples else .rdSamples := by
    show (txiqAt ws x (s + 1 + m.rdWaitCntMax)).nextState _ _ = _
    rw [Txiq.nextState, hst]
    show (if _ = _ then _ else _) = _
    rw [if_pos (by rw [hcnt, hreg]), hen]
    cases (x (s + 1 + m.rdWaitCntMax)).fifoRdempty <;> rfl
  rw [Txiq.slot, hn]
  cases (x (s + 1 + m.rdWaitCntMax)).fifoRdempty <;> rfl

/-- The registers are loaded two clocks after the slot began. -/
theorem loaded {m : TxMode} {s : Nat} (hs : (txiqAt ws x s).slot) (hm : (x (s + 1)).mode = m)
    (hrd : (txiqAt ws x s).currentState = .rdSamples → (x s).fifoRdempty = false) :
    (txiqAt ws x (s + 2)).diqL = .load (m.emitL (content ws x s)) ∧
      (txiqAt ws x (s + 2)).diqH = .load (m.emitH (content ws x s)) := by
  have hst : (txiqAt ws x s).currentState = .rdSamples ∨
      (txiqAt ws x s).currentState = .zeroSamples := by
    simpa [Txiq.slot] using hs
  rw [txiqAt_succ, hm]
  rcases hst with h | h
  · have hpop : (stateAt ws x s).pops (x s) = true := by
      simp [pops, Txiq.fifoRdreq, Txiq.intFifoRdreq, h, hrd h]
    have hv : (txiqAt ws x (s + 1)).intFifoQValid = true := by
      show ((txiqAt ws x s).currentState == .rdSamples) = true
      rw [h]
      rfl
    have hq : (stateAt ws x (s + 1)).fifoQ = ws (stateAt ws x s).popped := if_pos hpop
    rw [content, if_pos hpop]
    exact ⟨by rw [← hq]; exact if_pos hv, by rw [← hq]; exact if_pos hv⟩
  · have hpop : (stateAt ws x s).pops (x s) = false := by
      simp [pops, Txiq.fifoRdreq, Txiq.intFifoRdreq, h]
    have hv : (txiqAt ws x (s + 1)).intFifoQValid = false := by
      show ((txiqAt ws x s).currentState == .rdSamples) = false
      rw [h]
      rfl
    have hz : (txiqAt ws x (s + 1)).zeroValid = true := by
      show ((txiqAt ws x s).currentState == .zeroSamples) = true
      rw [h]
      rfl
    rw [content, hpop, if_neg (by decide)]
    constructor
    · show (if _ then _ else if _ then _ else _) = _
      rw [hv, hz]
      rfl
    · show (if _ then _ else if _ then _ else _) = _
      rw [hv, hz]
      rfl

/-- In the clocks of the slot the registers move on. -/
theorem shifted {m : TxMode} {s j : Nat} (hs : (txiqAt ws x s).slot)
    (hm : ∀ t, s ≤ t → t < s + m.period → (x t).mode = m) (hj : j < m.period) :
    (txiqAt ws x (s + 2 + j)).diqL = Nat.repeat Lane.shift j (txiqAt ws x (s + 2)).diqL ∧
      (txiqAt ws x (s + 2 + j)).diqH = Nat.repeat Lane.shift j (txiqAt ws x (s + 2)).diqH := by
  induction j with
  | zero => exact ⟨rfl, rfl⟩
  | succ j ih =>
    obtain ⟨hl, hh⟩ := ih (by omega)
    have hst := (waiting hs hm (j := j) (by unfold TxMode.period at hj; omega)).1
    have hv : (txiqAt ws x (s + 2 + j)).intFifoQValid = false := by
      rw [show s + 2 + j = s + 1 + j + 1 by omega]
      show ((txiqAt ws x (s + 1 + j)).currentState == .rdSamples) = false
      rw [hst]
      rfl
    have hz : (txiqAt ws x (s + 2 + j)).zeroValid = false := by
      rw [show s + 2 + j = s + 1 + j + 1 by omega]
      show ((txiqAt ws x (s + 1 + j)).currentState == .zeroSamples) = false
      rw [hst]
      rfl
    rw [← Nat.add_assoc, txiqAt_succ, Nat.repeat, Nat.repeat, ← hl, ← hh]
    constructor
    · show (if (txiqAt ws x (s + 2 + j)).intFifoQValid then _
        else if (txiqAt ws x (s + 2 + j)).zeroValid then _ else _) = _
      rw [hv, hz]
      rfl
    · show (if (txiqAt ws x (s + 2 + j)).intFifoQValid then _
        else if (txiqAt ws x (s + 2 + j)).zeroValid then _ else _) = _
      rw [hv, hz]
      rfl

/-- The serialiser puts the words it reads on the interface, and nothing else. -/
structure Serial (ws : Nat → BitVec (4 * w)) (x : Nat → TxiqIn) : Prop where
  /-- The registers are loaded only with a word that was read. -/
  loads : ∀ t, (txiqAt ws x (t + 1)).intFifoQValid = true → (stateAt ws x t).pops (x t) = true
  /-- A word is read in the first clock of a slot, and only there. -/
  reads : ∀ t, (stateAt ws x t).pops (x t) = true → (txiqAt ws x t).slot = true
  /-- A slot has a word exactly if one was available, and zeros otherwise. -/
  available : ∀ t, (txiqAt ws x (t + 1)).slot = true →
    (content ws x (t + 1)).isNone = (x t).fifoRdempty
  /-- Enabled, the serialiser begins at once. -/
  starts : ∀ t, (x t).en = true → (txiqAt ws x t).currentState = .idle →
    (txiqAt ws x (t + 1)).slot = true
  /-- Enabled, one slot follows the other, with no slot between. -/
  follows : ∀ m s, (txiqAt ws x s).slot = true →
    (∀ t, s ≤ t → t < s + m.period → (x t).mode = m) →
    ((x (s + m.period - 1)).en = true → (txiqAt ws x (s + m.period)).slot = true) ∧
      ∀ j, 0 < j → j < m.period → (txiqAt ws x (s + j)).slot = false
  /-- All positions of the slot are put on the interface, in order. -/
  emits : ∀ m s, (txiqAt ws x s).slot = true →
    (∀ t, s ≤ t → t < s + m.period → (x t).mode = m) → ∀ j, j < m.period →
      (txiqAt ws x (s + 2 + j)).diqL.reg0 = m.emitL (content ws x s) j ∧
        (txiqAt ws x (s + 2 + j)).diqH.reg0 = m.emitH (content ws x s) j
  /-- The positions of a slot have all samples of the word. -/
  samples : ∀ (m : TxMode) (q : BitVec (4 * w)) (i : Nat), i < 4 →
    ∃ k, k < m.period ∧ (m.muxPosL q k = diqSmpl q i ∨ m.muxPosH q k = diqSmpl q i)
  /-- The frame sync goes on over the border of two slots, with words or with zeros. -/
  sync : ∀ (m : TxMode) (k : Nat),
    m.intFsyncL (k + m.period) = m.intFsyncL k ∧ m.intFsyncH (k + m.period) = m.intFsyncH k

theorem slot_of_pops {t : Nat} (h : (stateAt ws x t).pops (x t) = true) :
    (txiqAt ws x t).currentState = .rdSamples ∧ (x t).fifoRdempty = false := by
  simpa [pops, Txiq.fifoRdreq, Txiq.intFifoRdreq] using h

theorem starts {t : Nat} (hen : (x t).en = true) (hi : (txiqAt ws x t).currentState = .idle) :
    (txiqAt ws x (t + 1)).slot = true := by
  have hn : (txiqAt ws x (t + 1)).currentState =
      if (x t).fifoRdempty then .zeroSamples else .rdSamples := by
    show (txiqAt ws x t).nextState _ _ = _
    rw [Txiq.nextState, hi]
    show (if (x t).en then _ else _) = _
    rw [if_pos hen]
    cases (x t).fifoRdempty <;> rfl
  rw [Txiq.slot, hn]
  cases (x t).fifoRdempty <;> rfl

/-- Which slot begins was decided by the flag of the FIFO one clock before. -/
theorem slot_kind {t : Nat} (h : (txiqAt ws x (t + 1)).slot = true) :
    (txiqAt ws x (t + 1)).currentState =
      if (x t).fifoRdempty then .zeroSamples else .rdSamples := by
  have hst : (txiqAt ws x (t + 1)).currentState =
    (txiqAt ws x t).nextState (x t).en (x t).fifoRdempty := rfl
  rw [Txiq.slot, hst] at h
  rw [hst]
  revert h
  unfold Txiq.nextState
  cases (txiqAt ws x t).currentState <;> cases (x t).en <;> cases (x t).fifoRdempty <;>
    simp <;> split <;> simp

theorem serial (h : ∀ t, (txiqAt ws x t).currentState = .rdSamples → (x t).fifoRdempty = false) :
    Serial ws x where
  loads t hv := by
    have hst : (txiqAt ws x t).currentState = .rdSamples := by
      have : ((txiqAt ws x t).currentState == .rdSamples) = true := hv
      simpa using this
    simp [pops, Txiq.fifoRdreq, Txiq.intFifoRdreq, hst, h t hst]
  reads t hp := by
    rw [Txiq.slot, (slot_of_pops hp).1]
    rfl
  available t hs := by
    have hk := slot_kind hs
    rw [content, pops, Txiq.fifoRdreq, Txiq.intFifoRdreq]
    cases he : (x t).fifoRdempty with
    | true =>
      rw [he, if_pos rfl] at hk
      rw [hk]
      rfl
    | false =>
      rw [he, if_neg (by decide)] at hk
      rw [hk, h (t + 1) hk]
      rfl
  starts _ hen hi := starts hen hi
  follows m s hs hm := by
    refine ⟨next_slot hs hm, fun j h0 hj => ?_⟩
    obtain ⟨k, rfl⟩ : ∃ k, j = k + 1 := ⟨j - 1, by omega⟩
    have hst := (waiting hs hm (j := k) (by unfold TxMode.period at hj; omega)).1
    rw [show s + (k + 1) = s + 1 + k by omega, Txiq.slot, hst]
    rfl
  emits m s hs hm j hj := by
    have hper := m.period_cases
    obtain ⟨hl, hh⟩ := loaded hs (hm (s + 1) (by omega) (by omega)) (h s)
    obtain ⟨hl', hh'⟩ := shifted hs hm hj
    rw [hl', hh', hl, hh]
    exact ⟨Lane.load_shift _ (by omega), Lane.load_shift _ (by omega)⟩
  samples m q _ hi := m.sample_emitted q hi
  sync m k := m.intFsync_period k

/-- A FIFO that only this reader empties has a word ready when it is read. -/
theorem ready_of_sole_reader (h : ∀ t, (x (t + 1)).fifoRdempty = true →
      (x t).fifoRdempty = true ∨ (stateAt ws x t).pops (x t) = true) (t : Nat)
    (hst : (txiqAt ws x t).currentState = .rdSamples) : (x t).fifoRdempty = false := by
  cases t with
  | zero => cases hst
  | succ t =>
    have hk : (txiqAt ws x (t + 1)).currentState =
        if (x t).fifoRdempty then .zeroSamples else .rdSamples :=
      slot_kind (by rw [Txiq.slot, hst]; rfl)
    rw [hst] at hk
    refine Bool.eq_false_iff.2 fun he => ?_
    rcases h t he with he' | hp
    · rw [he'] at hk
      cases hk
    · -- a read is followed by a wait
      have h1 := (slot_of_pops hp).1
      have h2 : (txiqAt ws x (t + 1)).currentState = .waitRdCycles := by
        show (txiqAt ws x t).nextState _ _ = _
        rw [Txiq.nextState, h1]
      rw [h2] at hst
      cases hst

end Serialiser

/-- What `txiq` puts on the interface are the words it reads and whole words of zeros, exactly in the
    runs in which the FIFO still has the word when it is read. -/
theorem txiq_serial {w : Nat} (ws : Nat → BitVec (4 * w)) (x : Nat → TxiqIn) :
    Serialiser.Serial ws x ↔ ∀ t, (Serialiser.txiqAt ws x t).currentState = .rdSamples →
      (x t).fifoRdempty = false := by
  refine ⟨fun h t hst => ?_, Serialiser.serial⟩
  refine (Serialiser.slot_of_pops (h.loads t ?_)).2
  show ((Serialiser.txiqAt ws x t).currentState == .rdSamples) = true
  rw [hst]
  rfl

/-- The FIFO is cleared in the clock in which it is read. -/
theorem txiq_serial_cleared : ¬ ∀ (w : Nat) (ws : Nat → BitVec (4 * w)) (x : Nat → TxiqIn),
    (∀ t, (x t).en = true ∧ (x t).mode = (x 0).mode) → Serialiser.Serial ws x := by
  intro h
  have hs := h 12 (fun _ => 0) (fun t => ⟨⟨false, true, false, 3, false⟩, true, t != 0⟩)
    fun t => ⟨rfl, rfl⟩
  exact absurd (hs.loads 1 (by decide)) (by decide)

end Tx
