import LimeSdrGw.Clocked.Fifo
import LimeSdrGw.Tx.Packet
/-
# `pct_separate_fsm` and `one_pct_fifo`

The input FIFO hands out a stream of 128-bit words; `pct_separate_fsm` moves the words of exactly one
packet into a FIFO of its own and waits until that FIFO is empty again. `one_pct_fifo` compares the
fill level with the length in the packet's header and tells when the packet is complete.

| here | there |
| --- | --- |
| `PctSeparateFsm`, `.step`     | registers and processes of pct_separate_fsm.vhd:58-216 |
| `PctSeparateFsm.nextState`    | process `fsm` (pct_separate_fsm.vhd:86-117) |
| `PctSeparateFsm.rdCntMaxOf`   | process `rdcnt_max_proc` (:178-196) |
| `OnePctFifo`, `.step`         | one_pct_fifo.vhd:81-226 |
| `OnePctFifo.pctWordsOf`       | process `pct_words_proc` (:180-204) |
| `OnePctFifo.aclr`             | `not inst1_reset_n`, the output of `sync_reg0` |

`pct_wrreq_reg` and `infifo_data_valid` are two registers of one signal and both are kept.
-/
namespace Tx

open Clocked

inductive SepState | idle | rdPct | rdDone
deriving DecidableEq, Repr

structure PctSeparateFsm where
  currentState : SepState
  infifoDataValid : Bool
  pctWrreqReg : Bool
  rdCnt : Nat
  wrCnt : Nat
  rdCntMax : Nat
  header : Word128
  headerValidReg : Bool

namespace PctSeparateFsm

def init : PctSeparateFsm where
  currentState := .idle
  infifoDataValid := false
  pctWrreqReg := false
  rdCnt := 0
  wrCnt := 0
  rdCntMax := 0
  header := 0
  headerValidReg := false

/-- Words of a whole packet, from its header word. -/
def rdCntMaxOf (infifoData : Word128) : Nat :=
  if infifoData.sizeField = 0 then pctMaxSize * 8 / 128
  else infifoData.sizeField / 16 + pctHdrSize * 8 / 128

theorem rdCntMaxOf_hdr (p : Packet) : rdCntMaxOf p.hdr = p.len + 1 := by
  rw [rdCntMaxOf, Packet.len, p.length_eq, Word128.payloadWords]
  split <;> rfl

def nextState (s : PctSeparateFsm) (infifoRdempty pctWrempty : Bool) : SepState :=
  match s.currentState with
  | .idle => if !infifoRdempty && pctWrempty then .rdPct else .idle
  | .rdPct =>
    if s.rdCnt < dec16 s.rdCntMax then .rdPct
    else if s.rdCnt = dec16 s.rdCntMax ∧ infifoRdempty then .rdPct
    else .rdDone
  | .rdDone => if pctWrempty then .idle else .rdDone

def infifoRdreq (s : PctSeparateFsm) (infifoRdempty : Bool) : Bool :=
  s.currentState == .rdPct && !infifoRdempty

/-- The header word is on `infifo_data`. -/
def headerHere (s : PctSeparateFsm) : Bool := s.wrCnt == 0 && s.infifoDataValid

def step (s : PctSeparateFsm) (infifoData : Word128) (infifoRdempty pctWrempty : Bool) :
    PctSeparateFsm where
  currentState := s.nextState infifoRdempty pctWrempty
  infifoDataValid := s.infifoRdreq infifoRdempty
  pctWrreqReg := s.infifoRdreq infifoRdempty
  rdCnt :=
    if s.currentState = .idle then 0
    else if s.infifoRdreq infifoRdempty then inc16 s.rdCnt else s.rdCnt
  wrCnt :=
    if s.currentState = .idle then 0 else if s.infifoDataValid then inc16 s.wrCnt else s.wrCnt
  rdCntMax :=
    if s.currentState = .idle then 65535
    else if s.headerHere then rdCntMaxOf infifoData else s.rdCntMax
  header := if s.headerHere then infifoData else s.header
  headerValidReg := s.headerHere

end PctSeparateFsm

structure OnePctFifo where
  inst0 : PctSeparateFsm
  /-- `sync_reg0`: the reset of both FIFOs. -/
  inst1ResetN : SyncReg
  /-- The packet. -/
  inst1 : Fifo Word128
  /-- The header of the packet. -/
  inst2 : Fifo Word128
  pctHeaderValid : Bool
  pctWords : Nat
  pctRdyReg : Bool

namespace OnePctFifo

def init : OnePctFifo where
  inst0 := .init
  inst1ResetN := .zero
  inst1 := .empty 0
  inst2 := .empty 0
  pctHeaderValid := false
  pctWords := 65535
  pctRdyReg := false

/-- FIFO level that makes the packet complete, from its header word. -/
def pctWordsOf (inst2Q : Word128) : Nat :=
  if inst2Q.sizeField = 0 then pctMaxSize * 8 / 128
  else inst2Q.sizeField / 16 + pctHdrSize * 8 / 128

theorem pctWordsOf_hdr (p : Packet) : pctWordsOf p.hdr = p.len + 1 := PctSeparateFsm.rdCntMaxOf_hdr p

/-- The FIFOs are held clear while the reset is requested and for two clocks more. -/
def aclr (s : OnePctFifo) (pctAclrN : Bool) : Bool := !(s.inst1ResetN.syncOut pctAclrN)

/-- The packet words the FIFO flags see. -/
def stored (s : OnePctFifo) (pctAclrN : Bool) : List Word128 := s.inst1.visible (s.aclr pctAclrN)

def inst1Wrempty (s : OnePctFifo) (pctAclrN : Bool) : Bool := (s.stored pctAclrN).isEmpty

def inst2Rdreq (s : OnePctFifo) (pctAclrN : Bool) : Bool :=
  !(s.inst2.visible (s.aclr pctAclrN)).isEmpty

def step (s : OnePctFifo) (infifoData : Word128) (infifoRdempty pctAclrN pctDataRdreq : Bool) :
    OnePctFifo where
  inst0 := s.inst0.step infifoData infifoRdempty (s.inst1Wrempty pctAclrN)
  inst1ResetN := s.inst1ResetN.step pctAclrN true
  inst1 := s.inst1.step 256 (s.aclr pctAclrN) s.inst0.pctWrreqReg [infifoData] pctDataRdreq
  inst2 := s.inst2.step 4 (s.aclr pctAclrN) s.inst0.headerValidReg [s.inst0.header]
    (s.inst2Rdreq pctAclrN)
  pctHeaderValid := s.inst2Rdreq pctAclrN
  pctWords :=
    if pctDataRdreq || s.inst1Wrempty pctAclrN then 65535
    else if s.pctHeaderValid then pctWordsOf s.inst2.q
    else s.pctWords
  pctRdyReg := (s.stored pctAclrN).length == s.pctWords

end OnePctFifo

end Tx
