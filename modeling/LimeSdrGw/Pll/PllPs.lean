import LimeSdrGw.Clocked.Machine
/-
# `pll_ps`: a number of phase steps, one after the other

Every step is asked for with `pll_phasestep` and answered by a low pulse of `pll_phasedone`. Both
halves of the answer have a timeout: without a low the FSM goes on as if it had come, without the
high after it the whole operation is given up.

| here | there |
| --- | --- |
| `PllPsState`, `PllPs` | pll_ps.vhd:44-65 |
| `.next`               | pll_ps.vhd:152-191 |
| `.step`               | pll_ps.vhd:74-139, 196-206 |
| `.busy`, `.pllPhasestep` .. | pll_ps.vhd:208-221 |

`pll_phasedone_neg_reg` takes `pll_phasedone` at the falling edge within a clock and is read at the end
of that clock: the input here is the value taken. Ten-bit numbers are kept below 1024; left out is
`pll_phasedone_pos_reg`, which nothing reads.
-/
namespace Pll

open Clocked

inductive PllPsState
  | idle
  | checkPhaseStep
  | phaseStep
  | checkPhaseDone
  | endPhase
deriving Repr, DecidableEq

structure PllPsIn where
  en : Bool
  phase : BitVec 10
  cnt : BitVec 3
  updown : Bool
  pllPhasedone : Bool
deriving Repr, DecidableEq

structure PllPs where
  currentState : PllPsState
  enReg : Bool
  phaseReg : Nat
  cntReg : BitVec 3
  updownReg : Bool
  busyReg : Bool
  currentPhaseStepCnt : Nat
  phaseStepCnt : Nat
  checkPhaseDoneCnt : Nat
deriving Repr, DecidableEq

abbrev timeout : Nat := 0x0F

namespace PllPs

def init : PllPs where
  currentState := .idle
  enReg := false
  phaseReg := 0
  cntReg := 0
  updownReg := false
  busyReg := true
  currentPhaseStepCnt := 0
  phaseStepCnt := 0
  checkPhaseDoneCnt := 0

variable (s : PllPs) (i : PllPsIn)

/-- The rising edge of `en`. -/
def starts : Bool := !s.enReg && i.en

def next : PllPsState :=
  match s.currentState with
  | .idle => if s.starts i then .checkPhaseStep else .idle
  | .checkPhaseStep => if s.currentPhaseStepCnt < s.phaseReg then .phaseStep else .endPhase
  | .phaseStep =>
    if !i.pllPhasedone then .checkPhaseDone
    else if timeout < s.phaseStepCnt then .checkPhaseDone
    else .phaseStep
  | .checkPhaseDone =>
    if i.pllPhasedone then .checkPhaseStep
    else if timeout < s.checkPhaseDoneCnt then .idle
    else .checkPhaseDone
  | .endPhase => .idle

/-- The settings are taken with every rising edge of `en`, also in the middle of an operation. -/
def step : PllPs where
  currentState := s.next i
  enReg := i.en
  phaseReg := if s.starts i then i.phase.toNat else s.phaseReg
  cntReg := if s.starts i then i.cnt else s.cntReg
  updownReg := if s.starts i then i.updown else s.updownReg
  busyReg := decide (s.currentState ≠ .idle)
  currentPhaseStepCnt :=
    if s.currentState = .checkPhaseStep then (s.currentPhaseStepCnt + 1) % 1024
    else if s.currentState = .idle then 0
    else s.currentPhaseStepCnt
  phaseStepCnt := if s.currentState = .phaseStep then (s.phaseStepCnt + 1) % 256 else 0
  checkPhaseDoneCnt :=
    if s.currentState = .checkPhaseDone then (s.checkPhaseDoneCnt + 1) % 256 else 0

def busy : Bool := s.busyReg
def pllPhasecounterselect : BitVec 3 := s.cntReg
def pllPhaseupdown : Bool := s.updownReg
def pllPhasestep : Bool := decide (s.currentState = .phaseStep)

def machine : Machine PllPs PllPsIn := ⟨init, step⟩

end PllPs

end Pll
