import LimeSdrGw.Clocked.Machine
import LimeSdrGw.Clocked.Shift
import LimeSdrGw.Spi.Registers
/-
# `cfg_top`: four configuration blocks on one SPI bus

Every block has a `mcfg32wm_fsm` of its own; a frame is sixteen instruction bits (write bit, module
address, register) and sixteen data bits. The blocks differ in what they show for a register that is
read and in the registers they reload by themselves.

| here | there |
| --- | --- |
| `Mcfg.next`, `.instRegEn` ..   | mcfg32wm_fsm.vhd:76-640, state `sk` as `k` |
| `Block`, `.readMux`, `.settle` | fpgacfg.vhd:147-233, pllcfg.vhd:213-296, tstcfg.vhd:105-213, periphcfg.vhd:108-205 |
| `CfgBlock.rise`, `.fall`       | the processes on the edges of `sclk`, the same in all four |
| `CfgTop`                       | cfg_top.vhd:70-172, `mimo_en` wired to '1'; port B of pllcfg is wired off there |
-/
namespace Spi

open Clocked

/-! ## `mcfg32wm_fsm` -/

namespace Mcfg

/-- What the state machine reads beside its state. -/
structure In where
  address : BitVec 10
  mimoEn : Bool
  instReg : BitVec 16
  sen : Bool
deriving Repr, DecidableEq

variable (state : Nat) (i : In)

def next : Nat := if state < 32 then state + 1 else if state = 32 then 1 else 0

def forUs : Bool := i.instReg.extractLsb' 5 10 == i.address && i.mimoEn
def writeCycle : Bool := forUs i && i.instReg.getLsbD 15
def readCycle : Bool := forUs i && !i.instReg.getLsbD 15

def instRegEn : Bool := if state = 0 ∨ state = 32 then !i.sen else decide (state < 16)
def dinRegEn : Bool := decide (16 ≤ state ∧ state ≤ 31) && writeCycle i
def doutRegSen : Bool := decide (17 ≤ state ∧ state ≤ 31) && readCycle i
def doutRegLen : Bool := decide (state = 16) && readCycle i
def memWe : Bool := decide (state = 31) && writeCycle i
def oe : Bool := decide (16 ≤ state ∧ state ≤ 32) && readCycle i

end Mcfg

/-! ## The blocks -/

inductive Block
  | fpgacfg
  | pllcfg
  | tstcfg
  | periphcfg
deriving Repr, DecidableEq

structure ToFpgacfg where
  hwVer : BitVec 4
  bomVer : BitVec 4
  pwrSrc : Bool
deriving Repr, DecidableEq

structure ToPllcfg where
  pllcfgBusy : Bool
  pllcfgDone : Bool
  phcfgDone : Bool
  phcfgError : Bool
  pllLock : BitVec 16
deriving Repr, DecidableEq

structure ToTstcfg where
  testCmplt : BitVec 6
  testRez : BitVec 6
  fx3ClkCnt : BitVec 16
  si5351cClk0Cnt : BitVec 16
  si5351cClk1Cnt : BitVec 16
  si5351cClk2Cnt : BitVec 16
  si5351cClk3Cnt : BitVec 16
  si5351cClk5Cnt : BitVec 16
  si5351cClk6Cnt : BitVec 16
  si5351cClk7Cnt : BitVec 16
  lmkClkCnt : BitVec 24
  adfCnt : BitVec 16
  ddr2_2Status : BitVec 3
  ddr2_2PnfPerBit : BitVec 32
deriving Repr, DecidableEq

structure ToTstcfgFromRxtx where
  ddr2_1Status : BitVec 3
  ddr2_1PnfPerBit : BitVec 32
deriving Repr, DecidableEq

structure ToPeriphcfg where
  boardGpioRd : BitVec 16
  periphInputRd0 : BitVec 16
  periphInputRd1 : BitVec 16
deriving Repr, DecidableEq

/-- The signals the blocks get from the hardware. -/
structure Hw where
  toFpgacfg : ToFpgacfg
  toPllcfg : ToPllcfg
  toTstcfg : ToTstcfg
  toTstcfgFromRxtx : ToTstcfgFromRxtx
  toPeriphcfg : ToPeriphcfg
deriving Repr, DecidableEq

def boardId : BitVec 16 := 0x000F
def majorRev : BitVec 16 := 2
def compileRev : BitVec 8 := 12

namespace Block

/-- What `dout_reg` is loaded with. -/
def readMux (b : Block) (hw : Hw) (mem : Regs) (a : BitVec 5) : BitVec 16 :=
  match b with
  | .fpgacfg =>
    match a.toNat with
    | 0 => boardId
    | 1 => majorRev
    | 2 => compileRev.setWidth 16
    | 3 =>
      (BitVec.ofBool hw.toFpgacfg.pwrSrc ++ hw.toFpgacfg.bomVer ++ hw.toFpgacfg.hwVer).setWidth 16
    | _ => mem a
  | .pllcfg => mem a
  | .tstcfg =>
    match a.toNat with
    | 0 => (~~~ (mem 0).extractLsb' 0 4 ++ (mem 0).extractLsb' 0 4).setWidth 16
    | 5 => hw.toTstcfg.testCmplt.setWidth 16
    | 7 => hw.toTstcfg.testRez.setWidth 16
    | 9 => hw.toTstcfg.fx3ClkCnt
    | 10 => hw.toTstcfg.si5351cClk0Cnt
    | 11 => hw.toTstcfg.si5351cClk1Cnt
    | 12 => hw.toTstcfg.si5351cClk2Cnt
    | 13 => hw.toTstcfg.si5351cClk3Cnt
    | 15 => hw.toTstcfg.si5351cClk5Cnt
    | 16 => hw.toTstcfg.si5351cClk6Cnt
    | 17 => hw.toTstcfg.si5351cClk7Cnt
    | 18 => hw.toTstcfg.lmkClkCnt.extractLsb' 0 16
    | 19 => (hw.toTstcfg.lmkClkCnt.extractLsb' 16 8).setWidth 16
    | 20 => hw.toTstcfg.adfCnt
    | 22 => hw.toTstcfgFromRxtx.ddr2_1Status.setWidth 16
    | 23 => hw.toTstcfgFromRxtx.ddr2_1PnfPerBit.extractLsb' 0 16
    | 24 => hw.toTstcfgFromRxtx.ddr2_1PnfPerBit.extractLsb' 16 16
    | 26 => hw.toTstcfg.ddr2_2Status.setWidth 16
    | 27 => hw.toTstcfg.ddr2_2PnfPerBit.extractLsb' 0 16
    | 28 => hw.toTstcfg.ddr2_2PnfPerBit.extractLsb' 16 16
    | _ => mem a
  | .periphcfg =>
    match a.toNat with
    | 2 => hw.toPeriphcfg.boardGpioRd
    | 8 => hw.toPeriphcfg.periphInputRd0
    | 9 => hw.toPeriphcfg.periphInputRd1
    | _ => mem a

/-- `phcfg_error & phcfg_done & pllcfg_busy & pllcfg_done`. -/
def pllStatus (p : ToPllcfg) : BitVec 16 :=
  (BitVec.ofBool p.phcfgError ++ BitVec.ofBool p.phcfgDone ++ BitVec.ofBool p.pllcfgBusy ++
    BitVec.ofBool p.pllcfgDone).setWidth 16

/-- The registers a block reloads on a rising edge without `dout_reg_len`; `v` is what register `a`
    would get otherwise, `old` the register before. -/
def settle (b : Block) (hw : Hw) (a : BitVec 5) (old v : BitVec 16) : BitVec 16 :=
  match b with
  | .pllcfg => if a = 1 then pllStatus hw.toPllcfg else if a = 2 then hw.toPllcfg.pllLock else v
  | .periphcfg =>
    if a = 3 then v.extractLsb' 8 8 ++ ~~~ old.extractLsb' 0 4 ++ v.extractLsb' 0 4 else v
  | .fpgacfg | .tstcfg => v

end Block

structure CfgBlock where
  state : Nat
  instReg : BitVec 16
  dinReg : BitVec 16
  doutReg : BitVec 16
  mem : Regs

namespace CfgBlock

/-- After `lreset`; the registers are as they may be. -/
def reset (mem : Regs) : CfgBlock := ⟨0, 0, 0, 0, mem⟩

variable (c : CfgBlock) (b : Block) (maddress : BitVec 10) (hw : Hw) (sen sdin : Bool)

def fsmIn : Mcfg.In := ⟨maddress, true, c.instReg, sen⟩

/-- The rising edge of `sclk`. -/
def rise : CfgBlock where
  state := if sen then 0 else Mcfg.next c.state
  instReg := if Mcfg.instRegEn c.state (c.fsmIn maddress sen) then shiftIn c.instReg sdin else c.instReg
  dinReg := if Mcfg.dinRegEn c.state (c.fsmIn maddress sen) then shiftIn c.dinReg sdin else c.dinReg
  doutReg := c.doutReg
  mem a :=
    let v :=
      if Mcfg.memWe c.state (c.fsmIn maddress sen) ∧ a = c.instReg.extractLsb' 0 5 then
        shiftIn c.dinReg sdin
      else c.mem a
    if Mcfg.doutRegLen c.state (c.fsmIn maddress sen) then v else b.settle hw a (c.mem a) v

/-- The falling edge. -/
def fall : CfgBlock :=
  { c with doutReg :=
      if Mcfg.doutRegSen c.state (c.fsmIn maddress sen) then c.doutReg.rotateLeft 1
      else if Mcfg.doutRegLen c.state (c.fsmIn maddress sen) then
        b.readMux hw c.mem (c.instReg.extractLsb' 0 5)
      else c.doutReg }

def oe : Bool := Mcfg.oe c.state (c.fsmIn maddress sen)
def sdout : Bool := c.doutReg.getLsbD 15 && c.oe maddress sen

end CfgBlock

/-! ## The bus -/

/-- The module addresses of the four blocks. -/
structure AddressMap where
  maddress : Block → BitVec 10
  distinct : ∀ b b', maddress b = maddress b' → b = b'

/-- lms7_trx_top.vhd:43-46. -/
def topAddresses : AddressMap where
  maddress
    | .fpgacfg => 0
    | .pllcfg => 32 / 32
    | .tstcfg => 96 / 32
    | .periphcfg => 192 / 32
  distinct := by
    intro b b'
    cases b <;> cases b' <;> decide

structure CfgTop where
  sclk : Bool
  sen : Bool
  sdin : Bool
  hw : Hw
  block : Block → CfgBlock

/-- A pin changes. -/
inductive Pin
  | sclk
  | sen (v : Bool)
  | sdin (v : Bool)
  | hw (v : Hw)
deriving Repr, DecidableEq

namespace CfgTop

variable (m : AddressMap)

/-- `sen` resets the state machines at once. -/
def setSen (s : CfgTop) (v : Bool) : CfgTop :=
  { s with
    sen := v
    block := fun b => if v then { s.block b with state := 0 } else s.block b }

def step (s : CfgTop) : Pin → CfgTop
  | .sclk =>
    { s with
      sclk := !s.sclk
      block := fun b =>
        if s.sclk then (s.block b).fall b (m.maddress b) s.hw s.sen
        else (s.block b).rise b (m.maddress b) s.hw s.sen s.sdin }
  | .sen v => s.setSen v
  | .sdin v => { s with sdin := v }
  | .hw v => { s with hw := v }

/-- Any levels of the pins and any contents of the registers, the logic just reset. -/
def start (sclk sen sdin : Bool) (hw : Hw) (mem : Block → Regs) : CfgTop :=
  ⟨sclk, sen, sdin, hw, fun b => .reset (mem b)⟩

def oe (s : CfgTop) (b : Block) : Bool := (s.block b).oe (m.maddress b) s.sen
def blockSdout (s : CfgTop) (b : Block) : Bool := (s.block b).sdout (m.maddress b) s.sen

def sdout (s : CfgTop) : Bool :=
  s.blockSdout m .fpgacfg || s.blockSdout m .pllcfg || s.blockSdout m .tstcfg ||
    s.blockSdout m .periphcfg

end CfgTop

end Spi
