import LimeSdrGw.Tx.P2dWrFsm
/-
# `p2d_rd`

Waits until the slot `crnt_buff_cnt` holds a packet, decides by the packet's synchronisation bit and
by the comparison of its timestamp with the sample number whether to read the slot or to clear it,
and moves on to the next slot.

| here | there |
| --- | --- |
| `P2dRd`              | the registers of p2d_rd.vhd:60-83 |
| `.nextState`         | process `fsm` (:246-307) |
| `.rdReqInt`          | process `rd_req_int_proc` (:226-233) |
| `.rdCntMaxOf`        | `rd_cnt_max` in process `rd_cnt_proc` (:217-221) |
| `.pctBuffRdreq`, `.pctBuffClrN` | the combinational processes of :313-329 |
| `.step`              | every clocked process of the architecture |
-/
namespace Tx

open Clocked

inductive RdState | idle | switchNextBuff | checkNextBuf | rdBuff | rdHold | clrBuff
deriving DecidableEq, Repr

structure P2dRd where
  currentState : RdState
  pctHdr0Array : Table buffCount Word64
  pctHdr1Array : Table buffCount Word64
  lpmPipe : Table buffCount (DelayLine 3 (Bool × Bool))
  crntBuffCnt : Fin buffCount
  crntBuffRdy : Bool
  crntBuffPctSynchDis : Bool
  crntBuffPctSmplNrEqual : Bool
  crntBuffPctSmplNrLess : Bool
  crntBuffPayloadSize : Nat
  rdCnt : Nat
  rdCntMax : Nat

namespace P2dRd

def init : P2dRd where
  currentState := .idle
  pctHdr0Array := .const 0
  pctHdr1Array := .const 0
  lpmPipe := .const (.fill (false, false))
  crntBuffCnt := 0
  crntBuffRdy := false
  crntBuffPctSynchDis := false
  crntBuffPctSmplNrEqual := false
  crntBuffPctSmplNrLess := false
  crntBuffPayloadSize := 0
  rdCnt := 0
  rdCntMax := 0

/-- 64-bit words to read, from the payload size. -/
def rdCntMaxOf (crntBuffPayloadSize : Nat) : Nat :=
  if crntBuffPayloadSize = 0 then (pctMaxSize - pctHdrSize) * 8 / 64 else crntBuffPayloadSize / 8

theorem rdCntMaxOf_hdr (p : Packet) : rdCntMaxOf (Word64.sizeField p.hdr.hdr0) = 2 * p.len := by
  rw [rdCntMaxOf, Word128.sizeField_hdr0, Packet.len, p.length_eq, Word128.payloadWords]
  split
  · rfl
  · have := p.sizeOk.resolve_left ‹_›; omega

def pctSynchDis (s : P2dRd) (i : Fin buffCount) : Bool := Word64.syncDisBit (s.pctHdr0Array i)
def pctSmplNrEqual (s : P2dRd) (i : Fin buffCount) : Bool := (s.lpmPipe i (Fin.last 2)).1
def pctSmplNrLess (s : P2dRd) (i : Fin buffCount) : Bool := (s.lpmPipe i (Fin.last 2)).2

def rdReqInt (s : P2dRd) (smplBuffAlmostFull : Bool) : Bool :=
  s.currentState == .rdBuff && !smplBuffAlmostFull

def nextState (s : P2dRd) (synchDis smplBuffAlmostFull : Bool) : RdState :=
  match s.currentState with
  | .idle =>
    if s.crntBuffRdy then
      if synchDis || s.crntBuffPctSynchDis then .rdBuff
      else if s.crntBuffPctSmplNrEqual then .rdBuff
      else if s.crntBuffPctSmplNrLess then .clrBuff
      else .idle
    else .idle
  | .clrBuff => .switchNextBuff
  | .rdBuff =>
    if !smplBuffAlmostFull then
      if s.rdCnt < dec16 s.rdCntMax then .rdBuff else .switchNextBuff
    else .rdHold
  | .rdHold => if !smplBuffAlmostFull then .rdBuff else .rdHold
  | .switchNextBuff => .checkNextBuf
  | .checkNextBuf => .idle

/-! ### Where a state can be entered from -/

section entered

variable {s : P2dRd} {synchDis smplBuffAlmostFull : Bool}

theorem of_nextState_idle (h : s.nextState synchDis smplBuffAlmostFull = .idle) :
    s.currentState = .idle ∨ s.currentState = .checkNextBuf := by
  unfold nextState at h
  cases hs : s.currentState <;> simp only [hs] at h <;> repeat' split at h
  all_goals simp_all

theorem of_nextState_checkNextBuf (h : s.nextState synchDis smplBuffAlmostFull = .checkNextBuf) :
    s.currentState = .switchNextBuff := by
  unfold nextState at h
  cases hs : s.currentState <;> simp only [hs] at h <;> repeat' split at h
  all_goals simp_all

theorem of_nextState_reading (h : s.nextState synchDis smplBuffAlmostFull = .rdBuff ∨
    s.nextState synchDis smplBuffAlmostFull = .rdHold) :
    s.currentState = .idle ∨ s.currentState = .rdBuff ∨ s.currentState = .rdHold := by
  unfold nextState at h
  cases hs : s.currentState <;> simp only [hs] at h <;> simp_all

/-- Late packets are cleared away from `idle` only. -/
theorem of_nextState_clrBuff (h : s.nextState synchDis smplBuffAlmostFull = .clrBuff) :
    s.currentState = .idle ∧ s.crntBuffRdy = true ∧ synchDis = false ∧
      s.crntBuffPctSynchDis = false ∧ s.crntBuffPctSmplNrLess = true := by
  unfold nextState at h
  cases hs : s.currentState <;> simp only [hs] at h <;> repeat' split at h
  all_goals simp_all

end entered

def pctBuffRdreq (s : P2dRd) (smplBuffAlmostFull : Bool) (i : Fin buffCount) : Bool :=
  s.rdReqInt smplBuffAlmostFull && i == s.crntBuffCnt

def pctBuffClrN (s : P2dRd) (i : Fin buffCount) : Bool :=
  !(s.currentState == .clrBuff && i == s.crntBuffCnt)

def step (s : P2dRd) (synchDis : Bool) (pctHdr0 : Word64) (pctHdr0Valid : Fin buffCount → Bool)
    (pctHdr1 : Word64) (pctHdr1Valid : Fin buffCount → Bool) (sampleNr : Word64)
    (pctBuffRdy : Fin buffCount → Bool) (smplBuffAlmostFull : Bool) : P2dRd where
  currentState := s.nextState synchDis smplBuffAlmostFull
  pctHdr0Array := .ofFn fun i => if pctHdr0Valid i then pctHdr0 else s.pctHdr0Array i
  pctHdr1Array := .ofFn fun i => if pctHdr1Valid i then pctHdr1 else s.pctHdr1Array i
  lpmPipe := .ofFn fun i => (s.lpmPipe i).shift (lpmCompare (s.pctHdr1Array i) sampleNr)
  crntBuffCnt := if s.currentState = .switchNextBuff then nextBuff s.crntBuffCnt else s.crntBuffCnt
  crntBuffRdy := pctBuffRdy s.crntBuffCnt
  crntBuffPctSynchDis := s.pctSynchDis s.crntBuffCnt
  crntBuffPctSmplNrEqual := s.pctSmplNrEqual s.crntBuffCnt
  crntBuffPctSmplNrLess := s.pctSmplNrLess s.crntBuffCnt
  crntBuffPayloadSize := Word64.sizeField (s.pctHdr0Array s.crntBuffCnt)
  rdCnt :=
    if s.currentState = .idle then 0
    else if s.rdReqInt smplBuffAlmostFull then inc16 s.rdCnt else s.rdCnt
  rdCntMax := rdCntMaxOf s.crntBuffPayloadSize

end P2dRd

end Tx
