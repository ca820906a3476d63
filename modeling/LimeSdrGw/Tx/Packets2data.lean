import LimeSdrGw.Clocked.Machine
import LimeSdrGw.Tx.OnePctFifo
import LimeSdrGw.Tx.P2dRd
/-
# `packets2data` and the TX packet path on one clock

`rxtx_top` drives `pct_wrclk` and `iq_rdclk` of `tx_path_top` with `tx_clk`, so `one_pct_fifo`,
`p2d_wr_fsm`, the packet slots and `p2d_rd` advance together (rxtx_top.vhd:190-191,
tx_path_top.vhd:287-345).

| here | there |
| --- | --- |
| `Packets2data`, `.step`       | packets2data.vhd:88-304 |
| `.pctBuffSizeOf`              | `pct_buff_size` (:233-237) |
| `.slotVisible`, `.wrempty`    | the flags of `fifo_inst_isntx` (:187-210), clear included |
| `TxPath`, `TxPath.step`       | `inst0_one_pct_fifo` with `packets2data_inst0` |
| `TxIn`                        | what the surroundings decide in a clock |
| `TxPath.infifo`, `infifoQ`    | the words the host still has to deliver and the output of the input FIFO |
-/
namespace Tx

open Clocked

structure Packets2data where
  inst0 : P2dWrFsm
  /-- The packet slots, in 64-bit words. -/
  instx : Table buffCount (Fifo Word64)
  pctBuffSize : Table buffCount Nat
  pctBuffRdyInt : Table buffCount Bool
  inst3 : P2dRd
  inst1PctDataClr : Table buffCount Bool
  inPctClrFlag : Bool
  smplBuffValidInt : Bool
  smplBuffValid : Bool
  smplBuffQ : Word64

namespace Packets2data

def init : Packets2data where
  inst0 := .init
  instx := .const (.empty 0)
  pctBuffSize := .const 65535
  pctBuffRdyInt := .const false
  inst3 := .init
  inst1PctDataClr := .const false
  inPctClrFlag := false
  smplBuffValidInt := false
  smplBuffValid := false
  smplBuffQ := 0

/-- 64-bit words of a complete slot; whether the size is 0 is read off the captured header, the
    size itself off the output of the packet FIFO. -/
def pctBuffSizeOf (pctHdr0 : Word64) (inPctData : Word128) : Nat :=
  if Word64.sizeField pctHdr0 = 0 then (pctMaxSize - pctHdrSize) * 8 / 64
  else inPctData.sizeField / 8

theorem pctBuffSizeOf_hdr (p : Packet) : pctBuffSizeOf p.hdr.hdr0 p.hdr = 2 * p.len := by
  rw [pctBuffSizeOf, Word128.sizeField_hdr0]
  exact (congrArg P2dRd.rdCntMaxOf p.hdr.sizeField_hdr0).symm.trans (P2dRd.rdCntMaxOf_hdr p)

/-- The words the flags of slot `i` see. -/
def slotVisible (s : Packets2data) (i : Fin buffCount) : List Word64 :=
  (s.instx i).visible (!(s.inst3.pctBuffClrN i))

def wrempty (s : Packets2data) (i : Fin buffCount) : Bool := (s.slotVisible i).isEmpty

/-- `unsigned(v) > 0`. -/
def anyBit (v : Fin buffCount → Bool) : Bool := v 0 || v 1

def step (s : Packets2data) (pctSyncDis : Bool) (sampleNr : Word64) (inPctData : Word128)
    (inPctRdy smplBuffAlmostFull : Bool) : Packets2data where
  inst0 := s.inst0.step pctSyncDis sampleNr inPctData inPctRdy s.wrempty
  instx := .ofFn fun i =>
    (s.instx i).step 512 (!(s.inst3.pctBuffClrN i)) (s.inst0.pctDataWrreq i) s.inst0.pctData.halves
      (s.inst3.pctBuffRdreq smplBuffAlmostFull i)
  pctBuffSize := .ofFn fun i =>
    if s.inst0.pctHdr0Valid i then pctBuffSizeOf s.inst0.pctHdr0Reg inPctData else s.pctBuffSize i
  pctBuffRdyInt := .ofFn fun i => (s.slotVisible i).length == s.pctBuffSize i
  inst3 :=
    s.inst3.step pctSyncDis s.inst0.pctHdr0Reg s.inst0.pctHdr0Valid s.inst0.pctHdr1Reg
      s.inst0.pctHdr1Valid sampleNr s.pctBuffRdyInt smplBuffAlmostFull
  inst1PctDataClr := .ofFn fun i => !(s.inst3.pctBuffClrN i)
  inPctClrFlag := anyBit s.inst1PctDataClr || !s.inst0.inPctResetNReq
  smplBuffValidInt := anyBit (s.inst3.pctBuffRdreq smplBuffAlmostFull)
  smplBuffValid := s.smplBuffValidInt
  smplBuffQ := (s.instx s.inst3.crntBuffCnt).q

end Packets2data

/-- One clock of the surroundings. -/
structure TxIn where
  /-- `infifo_rdempty` is 1 although words are still to come. -/
  gap : Bool
  pctSyncDis : Bool
  sampleNr : Word64
  smplBuffAlmostFull : Bool
deriving Repr

structure TxPath where
  infifo : List Word128
  infifoQ : Word128
  inst0 : OnePctFifo
  inst1 : Packets2data

namespace TxPath

abbrev sep (s : TxPath) : PctSeparateFsm := s.inst0.inst0
abbrev wr (s : TxPath) : P2dWrFsm := s.inst1.inst0
abbrev rd (s : TxPath) : P2dRd := s.inst1.inst3

/-- Reset has just ended and the host is to send `ws`. -/
def init (ws : List Word128) : TxPath where
  infifo := ws
  infifoQ := 0
  inst0 := .init
  inst1 := .init

def infifoRdempty (s : TxPath) (i : TxIn) : Bool := i.gap || s.infifo.isEmpty

def infifoRdreq (s : TxPath) (i : TxIn) : Bool := s.inst0.inst0.infifoRdreq (s.infifoRdempty i)

def step (s : TxPath) (i : TxIn) : TxPath where
  infifo := Fifo.popped (s.infifoRdreq i) s.infifo
  infifoQ := if s.infifoRdreq i then s.infifo.head?.getD s.infifoQ else s.infifoQ
  inst0 :=
    s.inst0.step s.infifoQ (s.infifoRdempty i) s.inst1.inst0.inPctResetNReq
      s.inst1.inst0.inPctRdreqInt
  inst1 :=
    s.inst1.step i.pctSyncDis i.sampleNr s.inst0.inst1.q s.inst0.pctRdyReg i.smplBuffAlmostFull

def machine (ws : List Word128) : Machine TxPath TxIn := ⟨init ws, step⟩

/-- The word presented with `smpl_buff_valid = 1`, if any. -/
def presented (s : TxPath) (_ : TxIn) : List Word64 :=
  if s.inst1.smplBuffValid then [s.inst1.smplBuffQ] else []

end TxPath

end Tx
