import LimeSdrGw.Tx.Packet
/-
# `p2d_wr_fsm`

Reads a complete packet out of `one_pct_fifo`: first the header, then (after the timestamp has been
compared) either nothing, when the packet is late and is cleared away, or the payload, which goes to
the packet slot `current_buff_cnt`.

| here | there |
| --- | --- |
| `P2dWrFsm`           | the registers of p2d_wr_fsm.vhd:60-85 |
| `.nextState`         | process `fsm` (:206-272) |
| `.rdCntMaxOf`        | `rd_cnt_max` in process `out_reg` (:326-330) |
| `.step`              | every clocked process of the architecture |
| `nextBuff`           | `if next_buff_cnt < g_BUFF_COUNT - 1 then .. + 1 else 0` (:136-140) |
-/
namespace Tx

open Clocked

/-- One step round the ring of slots. -/
def nextBuff (i : Fin buffCount) : Fin buffCount := if i.val < buffCount - 1 then i + 1 else 0

inductive WrState
  | idle | rdHdr | waitCmprPipe | checkSmplNr | clrFifo | switchNextBuff | rdPct | waitWrEnd
  | checkNextBuf | switchCurrentBuff
deriving DecidableEq, Repr

structure P2dWrFsm where
  currentState : WrState
  currentBuffCnt : Fin buffCount
  nextBuffCnt : Fin buffCount
  currentBuffRdy : Bool
  nextBuffRdy : Bool
  rdCnt : Nat
  pipeCnt : Nat
  inPctRdreqInt : Bool
  inPctDataValid : Bool
  pctDataWrreqCnt : Nat
  inPctResetNReq : Bool
  pctHdr0Reg : Word64
  pctHdr0Valid : Table buffCount Bool
  pctHdr1Reg : Word64
  pctHdr1Valid : Table buffCount Bool
  pctData : Word128
  pctDataWrreq : Table buffCount Bool
  rdCntMax : Nat
  lpmPipe : DelayLine 3 (Bool × Bool)

namespace P2dWrFsm

def init : P2dWrFsm where
  currentState := .idle
  currentBuffCnt := 0
  nextBuffCnt := 0
  currentBuffRdy := false
  nextBuffRdy := false
  rdCnt := 0
  pipeCnt := 0
  inPctRdreqInt := false
  inPctDataValid := false
  pctDataWrreqCnt := 0
  inPctResetNReq := true
  pctHdr0Reg := 0
  pctHdr0Valid := .const false
  pctHdr1Reg := 0
  pctHdr1Valid := .const false
  pctData := 0
  pctDataWrreq := .const false
  rdCntMax := 0
  lpmPipe := .fill (false, false)

/-- Words of a whole packet, from its header word. -/
def rdCntMaxOf (inPctData : Word128) : Nat :=
  if inPctData.sizeField = 0 then pctMaxSize * 8 / 128
  else inPctData.sizeField / 16 + pctHdrSize * 8 / 128

theorem rdCntMaxOf_hdr (p : Packet) : rdCntMaxOf p.hdr = p.len + 1 := by
  rw [rdCntMaxOf, Packet.len, p.length_eq, Word128.payloadWords]
  split <;> rfl

def pctSmplNrLess (s : P2dWrFsm) : Bool := (s.lpmPipe (Fin.last 2)).2

def crntPctSyncDis (s : P2dWrFsm) : Bool := Word64.syncDisBit s.pctHdr0Reg

def nextState (s : P2dWrFsm) (pctSyncDis inPctRdy : Bool) : WrState :=
  match s.currentState with
  | .idle => if inPctRdy then .rdHdr else .idle
  | .rdHdr => .waitCmprPipe
  | .waitCmprPipe => if s.pipeCnt > 3 then .checkSmplNr else .waitCmprPipe
  | .checkSmplNr =>
    if s.pctSmplNrLess && !s.crntPctSyncDis && !pctSyncDis then .clrFifo
    else if s.currentBuffRdy then .switchNextBuff else .checkSmplNr
  | .clrFifo => .idle
  | .switchNextBuff => .rdPct
  | .rdPct => if s.rdCnt < dec16 s.rdCntMax then .rdPct else .waitWrEnd
  | .waitWrEnd => if !s.inPctDataValid then .checkNextBuf else .waitWrEnd
  | .checkNextBuf => if s.nextBuffRdy then .switchCurrentBuff else .checkNextBuf
  | .switchCurrentBuff => .idle

/-- Late packets are cleared away from `check_smpl_nr` only. -/
theorem of_nextState_clrFifo {s : P2dWrFsm} {pctSyncDis inPctRdy : Bool}
    (h : s.nextState pctSyncDis inPctRdy = .clrFifo) : s.currentState = .checkSmplNr ∧
      s.pctSmplNrLess = true ∧ s.crntPctSyncDis = false ∧ pctSyncDis = false := by
  unfold nextState at h
  cases hs : s.currentState <;> simp only [hs] at h <;> repeat' split at h
  all_goals simp_all

theorem of_nextState_checkSmplNr {s : P2dWrFsm} {pctSyncDis inPctRdy : Bool}
    (h : s.nextState pctSyncDis inPctRdy = .checkSmplNr) :
    s.currentState = .waitCmprPipe ∨ s.currentState = .checkSmplNr := by
  unfold nextState at h
  cases hs : s.currentState <;> simp only [hs] at h <;> repeat' split at h
  all_goals simp_all

/-- The states that read a word of the packet. -/
def reads (s : P2dWrFsm) : Bool := s.currentState == .rdPct || s.currentState == .rdHdr

/-- The word on `in_pct_data` is the header. -/
def headerHere (s : P2dWrFsm) : Bool := s.inPctDataValid && s.pctDataWrreqCnt == 0
/-- The word on `in_pct_data` is a payload word. -/
def payloadHere (s : P2dWrFsm) : Bool := s.inPctDataValid && decide (s.pctDataWrreqCnt > 0)

def step (s : P2dWrFsm) (pctSyncDis : Bool) (sampleNr : Word64) (inPctData : Word128)
    (inPctRdy : Bool) (pctBuffRdy : Fin buffCount → Bool) : P2dWrFsm where
  currentState := s.nextState pctSyncDis inPctRdy
  currentBuffCnt := if s.currentState = .checkNextBuf then s.nextBuffCnt else s.currentBuffCnt
  nextBuffCnt := if s.currentState = .switchNextBuff then nextBuff s.nextBuffCnt else s.nextBuffCnt
  currentBuffRdy := pctBuffRdy s.currentBuffCnt
  nextBuffRdy := pctBuffRdy s.nextBuffCnt
  rdCnt := if s.reads then inc16 s.rdCnt else if s.currentState = .idle then 0 else s.rdCnt
  pipeCnt := if s.currentState = .waitCmprPipe then (s.pipeCnt + 1) % 16 else 0
  inPctRdreqInt := s.reads
  inPctDataValid := s.inPctRdreqInt
  pctDataWrreqCnt :=
    if s.inPctDataValid then inc16 s.pctDataWrreqCnt
    else if s.currentState = .idle then 0 else s.pctDataWrreqCnt
  inPctResetNReq := s.currentState != .clrFifo
  pctHdr0Reg := if s.headerHere then inPctData.hdr0 else s.pctHdr0Reg
  pctHdr0Valid := .ofFn fun i => s.headerHere && i == s.currentBuffCnt
  pctHdr1Reg := if s.headerHere then inPctData.hdr1 else s.pctHdr1Reg
  pctHdr1Valid := .ofFn fun i => s.headerHere && i == s.currentBuffCnt
  pctData := if s.payloadHere then inPctData else s.pctData
  pctDataWrreq := .ofFn fun i => s.payloadHere && i == s.currentBuffCnt
  rdCntMax := if s.headerHere then rdCntMaxOf inPctData else s.rdCntMax
  lpmPipe := s.lpmPipe.shift (lpmCompare s.pctHdr1Reg sampleNr)

end P2dWrFsm

end Tx
