import LimeSdrGw.Clocked.Machine
/-
# `pll_ps_fsm`: manual and automatic phase shift of a PLL

An automatic search shifts the phase step by step, has the samples compared after every shift, notes
where they begin and where they cease to be right, and shifts back to the middle.

| here | there |
| --- | --- |
| `PsState`, `PsFsm`  | pll_ps_fsm.vhd:61-96 |
| `.next`             | pll_ps_fsm.vhd:205-311 |
| `.step`             | pll_ps_fsm.vhd:130-188, 316-478 |
| `.psCtrlEn` ..      | pll_ps_fsm.vhd:484-492 |

Left out: `time_count` and `ps_phase_reg`, which nothing reads. Ten-bit numbers are kept below 1024.
-/
namespace Pll

open Clocked

inductive PsState
  | idle
  | rstPll
  | waitPllLock
  | checkCmpStatus
  | cmpSmpls
  | minFound
  | maxFound
  | checkMaxSteps
  | phShift
  | waitAfterPhShift
  | endSrch
  | prepPhase
deriving Repr, DecidableEq

structure PsIn where
  psEn : Bool
  psResetAtStart : Bool
  psMode : Bool
  psCnt : BitVec 3
  psUpdwn : Bool
  psPhase : BitVec 10
  psStepSize : BitVec 10
  pllLocked : Bool
  psCtrlBusy : Bool
  smplCmpDone : Bool
  smplCmpError : Bool
deriving Repr, DecidableEq

structure PsFsm where
  currentState : PsState
  psCtrlBusyReg : Bool
  psEnReg : Bool
  psCntReg : BitVec 3
  psUpdwnReg : Bool
  psStepSizeReg : Nat
  stepCntMaxReg : Nat
  psDoneRegManualMode : Bool
  findMin : Bool
  findMax : Bool
  stepCnt : Nat
  stepCntMin : Nat
  stepCntMax : Nat
  prepPhaseCnt : Nat
  waitAfterPhShiftCnt : Nat
  pllResetReqReg : Bool
  smplCmpEnReg : Bool
  psCtrlEnReg : Bool
  psCtrlPhaseReg : Nat
  psCtrlUpdwnReg : Bool
  psDoneReg : Bool
  psStatusReg : Bool
  stepCntDiff : Nat
  stepCntMiddle : Nat
  stepCntReverse : Nat
deriving Repr, DecidableEq

/-- All ones. -/
abbrev stepCntMaxConstant : Nat := 1023

/-- Differences of ten-bit numbers wrap. -/
def sub10 (a b : Nat) : Nat := (a + 1024 - b) % 1024

theorem sub10_of_le {a b : Nat} (h : b ≤ a) (ha : a < 1024) : sub10 a b = a - b := by
  unfold sub10
  omega

namespace PsFsm

def init : PsFsm where
  currentState := .idle
  psCtrlBusyReg := false
  psEnReg := false
  psCntReg := 0
  psUpdwnReg := false
  psStepSizeReg := 0
  stepCntMaxReg := 1023
  psDoneRegManualMode := false
  findMin := true
  findMax := true
  stepCnt := 0
  stepCntMin := 0
  stepCntMax := 1023
  prepPhaseCnt := 0
  waitAfterPhShiftCnt := 0
  pllResetReqReg := false
  smplCmpEnReg := false
  psCtrlEnReg := false
  psCtrlPhaseReg := 0
  psCtrlUpdwnReg := false
  psDoneReg := false
  psStatusReg := false
  stepCntDiff := 0
  stepCntMiddle := 0
  stepCntReverse := 0

variable (s : PsFsm) (i : PsIn)

/-- The rising edge of `ps_en`. -/
def starts : Bool := i.psEn && !s.psEnReg

def next : PsState :=
  match s.currentState with
  | .idle =>
    if s.starts i ∧ i.psMode then
      if i.psResetAtStart then .rstPll else .waitPllLock
    else .idle
  | .rstPll => if i.pllLocked then .rstPll else .waitPllLock
  | .waitPllLock =>
    if i.pllLocked then
      if s.findMin ∨ s.findMax then .checkCmpStatus else .phShift
    else .waitPllLock
  | .checkCmpStatus => if i.smplCmpDone then .checkCmpStatus else .cmpSmpls
  | .cmpSmpls =>
    if i.smplCmpDone then
      if s.findMin then
        if i.smplCmpError = false ∧ 2 < s.stepCnt then .minFound else .checkMaxSteps
      else if s.findMax then
        if i.smplCmpError then .maxFound else .checkMaxSteps
      else .endSrch
    else .cmpSmpls
  | .minFound => .checkMaxSteps
  | .maxFound => .prepPhase
  | .checkMaxSteps =>
    if s.stepCnt < s.stepCntMaxReg then .phShift
    else if s.findMin then .endSrch
    else .prepPhase
  | .phShift => if !i.psCtrlBusy ∧ s.psCtrlBusyReg then .waitAfterPhShift else .phShift
  | .waitAfterPhShift =>
    if 0xFD < s.waitAfterPhShiftCnt then .checkCmpStatus else .waitAfterPhShift
  | .prepPhase => if 2 < s.prepPhaseCnt then .phShift else .prepPhase
  | .endSrch => .idle

def step : PsFsm where
  currentState := s.next i
  psCtrlBusyReg := i.psCtrlBusy
  psEnReg := i.psEn
  psCntReg := if s.starts i then i.psCnt else s.psCntReg
  psUpdwnReg := if s.starts i then i.psUpdwn else s.psUpdwnReg
  psStepSizeReg := if s.starts i then i.psStepSize.toNat else s.psStepSizeReg
  stepCntMaxReg := sub10 stepCntMaxConstant s.psStepSizeReg
  psDoneRegManualMode :=
    if i.psEn then
      if s.psCtrlBusyReg && !i.psCtrlBusy then true else s.psDoneRegManualMode
    else false
  findMin :=
    if s.currentState = .idle then true else if s.currentState = .minFound then false else s.findMin
  findMax :=
    if s.currentState = .idle then true
    else if s.currentState = .maxFound ∨ s.currentState = .prepPhase then false
    else s.findMax
  stepCnt :=
    if s.currentState = .checkMaxSteps then (s.stepCnt + s.psStepSizeReg) % 1024
    else if s.currentState = .idle then 0
    else s.stepCnt
  stepCntMin :=
    if s.currentState = .minFound then s.stepCnt
    else if s.currentState = .idle then 0
    else s.stepCntMin
  stepCntMax :=
    if s.currentState = .maxFound then sub10 s.stepCnt s.psStepSizeReg
    else if s.currentState = .idle then stepCntMaxConstant
    else s.stepCntMax
  prepPhaseCnt := if s.currentState = .prepPhase then (s.prepPhaseCnt + 1) % 16 else 0
  waitAfterPhShiftCnt :=
    if s.currentState = .waitAfterPhShift then (s.waitAfterPhShiftCnt + 1) % 256 else 0
  pllResetReqReg := decide (s.currentState = .rstPll)
  smplCmpEnReg := decide (s.currentState = .cmpSmpls)
  psCtrlEnReg := decide (s.currentState = .phShift)
  psCtrlPhaseReg :=
    if s.currentState = .idle then i.psStepSize.toNat
    else if s.currentState = .prepPhase then s.stepCntReverse
    else s.psCtrlPhaseReg
  psCtrlUpdwnReg :=
    if s.currentState = .idle then i.psUpdwn
    else if s.currentState = .prepPhase then !s.psUpdwnReg
    else s.psCtrlUpdwnReg
  psDoneReg := if i.psEn then (if s.currentState = .endSrch then true else s.psDoneReg) else false
  psStatusReg :=
    if i.psEn then (if s.currentState = .endSrch then i.smplCmpError else s.psStatusReg) else false
  stepCntDiff := sub10 s.stepCntMax s.stepCntMin
  stepCntMiddle := (s.stepCntDiff / 2 + s.stepCntMin) % 1024
  stepCntReverse := sub10 s.stepCnt s.stepCntMiddle

/-- The outputs; in manual mode they are the inputs. -/
def psCtrlEn : Bool := if i.psMode then s.psCtrlEnReg else i.psEn
def psCtrlCnt : BitVec 3 := if i.psMode then s.psCntReg else i.psCnt
def psCtrlUpdown : Bool := if i.psMode then s.psCtrlUpdwnReg else i.psUpdwn
def psCtrlPhase : Nat := if i.psMode then s.psCtrlPhaseReg else i.psPhase.toNat
def psDone : Bool := if i.psMode then s.psDoneReg else s.psDoneRegManualMode
def psStatus : Bool := if i.psMode then s.psStatusReg else i.psCtrlBusy

def machine : Machine PsFsm PsIn := ⟨init, step⟩

end PsFsm

end Pll
