import LimeSdrGw.Clocked.Machine
import LimeSdrGw.Clocked.Shift
/-
# `spi_lms`: the SPI master of the control processor

Eight bits, the highest first, one slave select per slave, data taken on the rising edge of `SCLK`. A
half period lasts 25 clocks; `state` counts the half periods of a byte from 0 to 17, the first and the
last without an edge.

| here | there |
| --- | --- |
| `Access`     | an access through the interconnect, two clocks long (lms_ctr_mm_interconnect_0.v:1638-1639) |
| `SpiMaster`  | lms_ctr_spi_lms.v:160-414, without the interrupt (`irq_reg`, `iEOP_reg` ..) |
| `spiStatus`, `p1DataToCpu` | lms_ctr_spi_lms.v:218, :302-306 |
| `ssN`        | lms_ctr_spi_lms.v:339 |
-/
namespace Nios

open Clocked

/-- Registers of the core, as `mem_addr` names them. -/
inductive Access
  | read (addr : BitVec 3)
  | write (addr : BitVec 3) (data : BitVec 16)
deriving Repr, DecidableEq

namespace Access

def rxdata : BitVec 3 := 0
def txdata : BitVec 3 := 1
def status : BitVec 3 := 2
def control : BitVec 3 := 3
def slaveSel : BitVec 3 := 5
def endOfPacketValue : BitVec 3 := 6

def addr : Access → BitVec 3
  | read a => a
  | write a _ => a

def dataFromCpu : Access → BitVec 16
  | read _ => 0
  | write _ d => d

def isRead : Access → Bool
  | read _ => true
  | write _ _ => false

def isWrite : Access → Bool
  | read _ => false
  | write _ _ => true

end Access

structure SpiMaster where
  rdStrobe : Bool
  dataRdStrobe : Bool
  wrStrobe : Bool
  dataWrStrobe : Bool
  ssoReg : Bool
  spiSlaveSelectReg : BitVec 16
  spiSlaveSelectHoldingReg : BitVec 16
  slowcount : Nat
  endofpacketvalueReg : BitVec 16
  dataToCpu : BitVec 16
  state : Nat
  stateZero : Bool
  shiftReg : BitVec 8
  rxHoldingReg : BitVec 8
  eop : Bool
  rrdy : Bool
  roe : Bool
  toe : Bool
  txHoldingReg : BitVec 8
  txHoldingPrimed : Bool
  transmitting : Bool
  sclkReg : Bool
  misoReg : Bool
deriving Repr, DecidableEq

namespace SpiMaster

def reset : SpiMaster where
  rdStrobe := false
  dataRdStrobe := false
  wrStrobe := false
  dataWrStrobe := false
  ssoReg := false
  spiSlaveSelectReg := 1
  spiSlaveSelectHoldingReg := 1
  slowcount := 0
  endofpacketvalueReg := 0
  dataToCpu := 0
  state := 0
  stateZero := true
  shiftReg := 0
  rxHoldingReg := 0
  eop := false
  rrdy := false
  roe := false
  toe := false
  txHoldingReg := 0
  txHoldingPrimed := false
  transmitting := false
  sclkReg := false
  misoReg := false

variable (s : SpiMaster)

def tmt : Bool := !s.transmitting && !s.txHoldingPrimed
def trdy : Bool := !(s.transmitting && s.txHoldingPrimed)
def e : Bool := s.roe || s.toe

/-- `{EOP, E, RRDY, TRDY, TMT, TOE, ROE, 3'b0}`. -/
def spiStatus : BitVec 16 :=
  (BitVec.ofBool s.eop ++ BitVec.ofBool s.e ++ BitVec.ofBool s.rrdy ++ BitVec.ofBool s.trdy ++
    BitVec.ofBool s.tmt ++ BitVec.ofBool s.toe ++ BitVec.ofBool s.roe ++ 0#3).setWidth 16

/-- `SSO_reg` is all of the control register that is kept here. -/
def spiControl : BitVec 16 := (BitVec.ofBool s.ssoReg ++ 0#10).setWidth 16

def p1DataToCpu (memAddr : BitVec 3) : BitVec 16 :=
  if memAddr = Access.status then s.spiStatus
  else if memAddr = Access.control then s.spiControl
  else if memAddr = Access.endOfPacketValue then s.endofpacketvalueReg
  else if memAddr = Access.slaveSel then s.spiSlaveSelectReg
  else s.rxHoldingReg.setWidth 16

def slowclock : Bool := s.slowcount == 24
def enableSS : Bool := s.transmitting && !s.stateZero
def mosi : Bool := s.shiftReg.getMsbD 0

/-- Active low, one bit per slave. -/
def ssN : BitVec 5 :=
  if s.enableSS || s.ssoReg then ~~~s.spiSlaveSelectReg.setWidth 5 else BitVec.allOnes 5

def writeTxHolding : Bool := s.dataWrStrobe && s.trdy
def writeShiftReg : Bool := s.txHoldingPrimed && !s.transmitting

/-- The slow clock at the end of a byte. -/
def byteEnds : Bool := s.slowclock && s.state == 17

/-- One clock, with the access on the port if there is one. -/
def step (acc : Option Access) (miso : Bool) : SpiMaster :=
  let memAddr := (acc.map Access.addr).getD 0
  let dataFromCpu := (acc.map Access.dataFromCpu).getD 0
  let p1RdStrobe := !s.rdStrobe && acc.any Access.isRead
  let p1WrStrobe := !s.wrStrobe && acc.any Access.isWrite
  let p1DataRdStrobe := p1RdStrobe && memAddr == Access.rxdata
  let p1DataWrStrobe := p1WrStrobe && memAddr == Access.txdata
  let controlWrStrobe := s.wrStrobe && memAddr == Access.control
  let statusWrStrobe := s.wrStrobe && memAddr == Access.status
  let slaveselectWrStrobe := s.wrStrobe && memAddr == Access.slaveSel
  let endofpacketvalueWrStrobe := s.wrStrobe && memAddr == Access.endOfPacketValue
  { rdStrobe := p1RdStrobe
    dataRdStrobe := p1DataRdStrobe
    wrStrobe := p1WrStrobe
    dataWrStrobe := p1DataWrStrobe
    ssoReg := if controlWrStrobe then dataFromCpu.getLsbD 10 else s.ssoReg
    spiSlaveSelectReg :=
      if s.writeShiftReg || controlWrStrobe && dataFromCpu.getLsbD 10 && !s.ssoReg then
        s.spiSlaveSelectHoldingReg
      else s.spiSlaveSelectReg
    spiSlaveSelectHoldingReg :=
      if slaveselectWrStrobe then dataFromCpu else s.spiSlaveSelectHoldingReg
    slowcount := if s.transmitting && !s.slowclock then s.slowcount + 1 else 0
    endofpacketvalueReg := if endofpacketvalueWrStrobe then dataFromCpu else s.endofpacketvalueReg
    dataToCpu := s.p1DataToCpu memAddr
    state :=
      if s.transmitting && s.slowclock then if s.state = 17 then 0 else s.state + 1 else s.state
    stateZero := if s.transmitting && s.slowclock then s.state == 17 else s.stateZero
    shiftReg :=
      if s.slowclock && s.sclkReg then shiftIn s.shiftReg s.misoReg
      else if s.writeShiftReg then s.txHoldingReg
      else s.shiftReg
    rxHoldingReg := if s.byteEnds then s.shiftReg else s.rxHoldingReg
    eop :=
      if statusWrStrobe then false
      else s.eop || p1DataRdStrobe && s.rxHoldingReg.setWidth 16 == s.endofpacketvalueReg ||
        p1DataWrStrobe && (dataFromCpu.setWidth 8).setWidth 16 == s.endofpacketvalueReg
    rrdy := s.byteEnds || !statusWrStrobe && !s.dataRdStrobe && s.rrdy
    roe := s.byteEnds && s.rrdy || !statusWrStrobe && s.roe
    toe := !statusWrStrobe && (s.toe || s.dataWrStrobe && !s.trdy)
    txHoldingReg := if s.writeTxHolding then dataFromCpu.setWidth 8 else s.txHoldingReg
    txHoldingPrimed := s.writeTxHolding || !s.writeShiftReg && s.txHoldingPrimed
    transmitting := !s.byteEnds && (s.writeShiftReg || s.transmitting)
    sclkReg :=
      if s.slowclock then
        if s.state = 17 then false
        else if s.state ≠ 0 && s.transmitting then !s.sclkReg
        else s.sclkReg
      else s.sclkReg
    misoReg := if s.slowclock && !s.sclkReg then miso else s.misoReg }

end SpiMaster

end Nios
