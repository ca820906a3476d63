import LimeSdrGw.Pll.PsFsm
import LimeSdrGw.Pll.PllPs
/-
# The two PLLs and the registers that command them

`pll_top` has one `config_ctrl`, one vendor reconfiguration core and one phase shifter for each PLL,
all in one clock (`LMK_CLK`). `pll_ctrl` gives the start bits to the PLL the index names and picks the
status bits by the same index.

| here | there |
| --- | --- |
| `FromPllcfg`            | pllcfg.vhd:302-313, 354 |
| `ConfigCtrl`            | config_ctrl.vhd:30-113 |
| `reconfigBusy`          | `busy` of `pll_reconfig_module` |
| `PllPsTop`              | pll_ps_top.vhd:56-249 |
| `PllUnit`               | rx_pll_top.vhd:248-401, 630 and tx_pll_top.vhd, which is the same |
| `PllTop`                | pll_top.vhd:131-300, pll_ctrl.vhd:111-147 |

The core is taken as one that raises `busy` in the clock after a request and holds it until the request
is `finished`, in any later clock. The inputs of a unit enter through `sync_reg` and `bus_sync_reg`,
two registers each. An asynchronous reset comes out of such a pair, so its level in the next clock is
known: a state that it covers is the reset state. Left out are `ps_tst_reg` and `ps_busy`, which
nothing reads or drives, `pll_reconfig_status`, and the ways to the PLL itself.
-/
namespace Pll

open Clocked

structure FromPllcfg where
  pllInd : BitVec 5
  pllrstStart : Bool
  phcfgStart : Bool
  pllcfgStart : Bool
  phcfgMode : Bool
  phcfgTst : Bool
  phcfgUpdn : Bool
  cntInd : BitVec 5
  cntPhase : BitVec 16
  autoPhcfgStep : BitVec 16
  pllcfgData : BitVec 144
deriving Repr, DecidableEq

inductive ConfigState
  | idle
  | s0
  | w0
  | s1
  | w1
deriving Repr, DecidableEq

structure ConfigIn where
  busy : Bool
  addr : BitVec 8
  rdData : Bool
  spiData : BitVec 144
  enConfig : Bool
deriving Repr, DecidableEq

structure ConfigCtrl where
  stateR : ConfigState
  fallR : BitVec 2
  qR : Bool
  addrR : BitVec 8
  clkCtrlR : Bool
deriving Repr, DecidableEq

namespace ConfigCtrl

def init : ConfigCtrl := ⟨.idle, 0, false, 0, false⟩

variable (s : ConfigCtrl) (i : ConfigIn)

def config : Bool := s.fallR == 0b01
def stopClk : Bool := s.fallR == 0b10

def wrRom : Bool := decide (s.stateR = .s0)
def reconfig : Bool := decide (s.stateR = .s1)

def next : ConfigState :=
  match s.stateR with
  | .idle => if s.config && !i.busy then .s0 else .idle
  | .s0 => .w0
  | .w0 => if !i.busy then .s1 else .w0
  | .s1 => .w1
  | .w1 => if !i.busy then .idle else .w1

def step : ConfigCtrl where
  stateR := s.next i
  fallR := BitVec.ofBool (s.fallR.getLsbD 0) ++ BitVec.ofBool i.enConfig
  qR := if i.rdData then i.spiData.getLsbD s.addrR.toNat else s.qR
  addrR := i.addr
  clkCtrlR :=
    match s.stateR with
    | .idle => if s.config && !i.busy then s.clkCtrlR else s.clkCtrlR && !s.stopClk
    | .w1 => if !i.busy then true else s.clkCtrlR
    | _ => s.clkCtrlR

end ConfigCtrl

/-- `ps_ctrl_updwn_reg` is the one register the reset does not reach. -/
def PsFsm.reset (s : PsFsm) : PsFsm := { PsFsm.init with psCtrlUpdwnReg := s.psCtrlUpdwnReg }

inductive PsTopState
  | idle
  | checkMode
  | psEnable
  | psDisable
deriving Repr, DecidableEq

structure PsTopIn where
  psEn : Bool
  psMode : Bool
  psTst : Bool
  psCnt : BitVec 3
  psUpdwn : Bool
  psPhase : BitVec 10
  psStepSize : BitVec 10
  pllPhasedone : Bool
  pllLocked : Bool
  smplCmpDone : Bool
  smplCmpError : Bool
deriving Repr, DecidableEq

structure PllPsTop where
  currentState : PsTopState
  psEnReg : Bool
  psDisableCnt : Nat
  inst1PsEn : Bool
  inst0 : PllPs
  inst1 : PsFsm
deriving Repr, DecidableEq

namespace PllPsTop

def init : PllPsTop := ⟨.idle, false, 0, false, .init, .init⟩

variable (s : PllPsTop) (i : PsTopIn)

/-- What `pll_ps_fsm_inst1` sees. -/
def fsmIn : PsIn where
  psEn := s.inst1PsEn
  psResetAtStart := true
  psMode := i.psMode
  psCnt := i.psCnt
  psUpdwn := i.psUpdwn
  psPhase := i.psPhase
  psStepSize := i.psStepSize
  pllLocked := i.pllLocked
  psCtrlBusy := s.inst0.busy
  smplCmpDone := i.smplCmpDone
  smplCmpError := i.smplCmpError

/-- What `pll_ps_inst0` sees. -/
def psIn : PllPsIn where
  en := s.inst1.psCtrlEn (s.fsmIn i)
  phase := BitVec.ofNat 10 (s.inst1.psCtrlPhase (s.fsmIn i))
  cnt := s.inst1.psCtrlCnt (s.fsmIn i)
  updown := s.inst1.psCtrlUpdown (s.fsmIn i)
  pllPhasedone := i.pllPhasedone

def psDone : Bool := s.inst1.psDone (s.fsmIn i)
def psStatus : Bool := s.inst1.psStatus (s.fsmIn i)

def next : PsTopState :=
  match s.currentState with
  | .idle => if i.psEn && !s.psEnReg then .checkMode else .idle
  | .checkMode => if i.psTst then .psEnable else .idle
  | .psEnable => if s.psDone i then (if s.psStatus i then .idle else .psDisable) else .psEnable
  | .psDisable =>
    if 7 < s.psDisableCnt then (if i.psEn then .psEnable else .idle) else .psDisable

def step : PllPsTop where
  currentState := s.next i
  psEnReg := i.psEn
  psDisableCnt := if s.currentState = .psDisable then (s.psDisableCnt + 1) % 256 else 0
  inst1PsEn := if !i.psTst then i.psEn else decide (s.currentState = .psEnable)
  inst0 := s.inst0.step (s.psIn i)
  inst1 := s.inst1.step (s.fsmIn i)

def reset : PllPsTop := { init with inst1 := s.inst1.reset }

end PllPsTop

/-- The inputs of a PLL that enter through synchronisers. -/
structure PllPort where
  rcnfigAreset : Bool
  rcnfigEn : Bool
  rcnfigData : BitVec 144
  dynpsAresetN : Bool
  dynpsMode : Bool
  dynpsEn : Bool
  dynpsTst : Bool
  dynpsDir : Bool
  dynpsCntSel : BitVec 3
  dynpsPhase : BitVec 10
  dynpsStepSize : BitVec 10
  pllLocked : Bool
  smplCmpDone : Bool
  smplCmpError : Bool
deriving Repr, DecidableEq

def PllPort.zero : PllPort :=
  ⟨false, false, 0, false, false, false, false, false, 0, 0, 0, false, false, false⟩

/-- The vendor core, the PLL and the sample comparator. -/
structure PllEnv where
  finished : Bool
  romAddressOut : BitVec 8
  writeRomEna : Bool
  phasedone : Bool
  locked : Bool
  smplCmpDone : Bool
  smplCmpError : Bool
deriving Repr, DecidableEq

structure PllUnit where
  sync0 : PllPort
  sync1 : PllPort
  configCtrl : ConfigCtrl
  reconfigBusy : Bool
  ps : PllPsTop
deriving Repr, DecidableEq

namespace PllUnit

def init : PllUnit := ⟨.zero, .zero, .init, false, .init⟩

variable (s : PllUnit) (p : PllPort) (e : PllEnv)

def configIn : ConfigIn :=
  ⟨s.reconfigBusy, e.romAddressOut, e.writeRomEna, s.sync1.rcnfigData, s.sync1.rcnfigEn⟩

def psTopIn : PsTopIn where
  psEn := s.sync1.dynpsEn
  psMode := s.sync1.dynpsMode
  psTst := s.sync1.dynpsTst
  psCnt := s.sync1.dynpsCntSel
  psUpdwn := s.sync1.dynpsDir
  psPhase := s.sync1.dynpsPhase
  psStepSize := s.sync1.dynpsStepSize
  pllPhasedone := e.phasedone
  pllLocked := s.sync1.pllLocked
  smplCmpDone := s.sync1.smplCmpDone
  smplCmpError := s.sync1.smplCmpError

/-- The core is asked for something. -/
def requests : Bool := s.configCtrl.wrRom || s.configCtrl.reconfig

def step : PllUnit where
  sync0 := p
  sync1 := s.sync0
  configCtrl := if s.sync0.rcnfigAreset then .init else s.configCtrl.step (s.configIn e)
  reconfigBusy :=
    if s.sync0.rcnfigAreset then false
    else if s.reconfigBusy then !e.finished
    else s.requests
  ps := if s.sync0.dynpsAresetN then s.ps.step (s.psTopIn e) else s.ps.reset

/-- `inst2_ps_status`, which does not depend on the inputs of the clock. -/
def psStatus : Bool :=
  if s.sync1.dynpsMode then s.ps.inst1.psStatusReg else s.ps.inst0.busy

def busy : Bool := s.reconfigBusy || s.psStatus

end PllUnit

structure TopIn where
  cfg : FromPllcfg
  env : Fin 2 → PllEnv

/-- `txpll` is PLL 0, `rxpll` PLL 1. -/
structure PllTop where
  txpll : PllUnit
  rxpll : PllUnit
deriving Repr, DecidableEq

namespace PllTop

def init : PllTop := ⟨.init, .init⟩

def pll (s : PllTop) (i : Fin 2) : PllUnit := if i = 0 then s.txpll else s.rxpll

/-- What PLL `i` gets: its start bits if the index names it, the settings in any case. -/
def port (i : Fin 2) (c : FromPllcfg) (e : PllEnv) : PllPort where
  rcnfigAreset := c.pllrstStart && c.pllInd.toNat == i.val
  rcnfigEn := c.pllcfgStart && c.pllInd.toNat == i.val
  rcnfigData := c.pllcfgData
  dynpsAresetN := !(c.pllrstStart && c.pllInd.toNat == i.val)
  dynpsMode := c.phcfgMode
  dynpsEn := c.phcfgStart && c.pllInd.toNat == i.val
  dynpsTst := c.phcfgTst
  dynpsDir := c.phcfgUpdn
  dynpsCntSel := c.cntInd.setWidth 3
  dynpsPhase := c.cntPhase.setWidth 10
  dynpsStepSize := c.autoPhcfgStep.setWidth 10
  pllLocked := e.locked
  smplCmpDone := e.smplCmpDone
  smplCmpError := e.smplCmpError

variable (s : PllTop) (i : TopIn)

def step : PllTop where
  txpll := s.txpll.step (port 0 i.cfg (i.env 0)) (i.env 0)
  rxpll := s.rxpll.step (port 1 i.cfg (i.env 1)) (i.env 1)

def pllcfgBusy : Bool := s.rxpll.busy || s.txpll.busy
def pllcfgDone : Bool := !s.pllcfgBusy

/-- Only place 0 of the two vectors is driven by the flags. -/
def inst2PllcfgBusy : BitVec 2 := BitVec.ofBool false ++ BitVec.ofBool s.pllcfgBusy
def inst2PllcfgDone : BitVec 2 := BitVec.ofBool true ++ BitVec.ofBool s.pllcfgDone

/-- The status bits the host reads. -/
def toPllcfgBusy : Bool := (s.inst2PllcfgBusy.setWidth 16).getLsbD i.cfg.pllInd.toNat
def toPllcfgDone : Bool := (s.inst2PllcfgDone.setWidth 16).getLsbD i.cfg.pllInd.toNat

def machine : Machine PllTop TopIn := ⟨init, step⟩

end PllTop

end Pll
