import Mathlib.Algebra.GroupWithZero.Nat
import LimeSdrGw.Clocked.Stream
/-
# `wfm_player`: write commands of a waveform load

`wfm_wcmd_fsm` takes words from the input FIFO, two at a time while it can, and issues a write command
for each. The load it sees, `wfm_load_wcmd2`, goes on after the fall of `wfm_load` until the FIFO is
empty.

| here | there |
| --- | --- |
| `addrSize`, `lclBurstLength` | `WFM_ADDR_SIZE`, `WFM_LCL_BURST_LENGTH` (lms7_trx_top.vhd:655-657) |
| `WcmdState`, `WcmdFsm`, `.next`, `.step` | wfm_wcmd_fsm.vhd:46-207; nothing leads to `burst_rd` and `rd` |
| `WfmPlayer`, `.step`         | wfm_player.vhd:155-199, its show-ahead input FIFO beside it |
| `Cmd`                        | `wcmd_addr`, `wcmd_brst_en`, `wcmd_data` in a clock with `wcmd_wr` |
-/
namespace Wfm

open Clocked

abbrev Word32 := BitVec 32

abbrev addrSize : Nat := 25
abbrev lclBurstLength : Nat := 2

/-- Address counters wrap. -/
def incAddr (a : Nat) : Nat := (a + 1) % 2 ^ addrSize

theorem incAddr_mod (k : Nat) : incAddr (k % 2 ^ addrSize) = (k + 1) % 2 ^ addrSize := by
  unfold incAddr
  exact Nat.mod_add_mod k (2 ^ addrSize) 1

inductive WcmdState
  | idle
  | checkBurst
  | burstWr
  | checkWr
  | wr
  | burstRd
  | rd
deriving Repr, DecidableEq

structure WcmdFsm where
  currentState : WcmdState
  wrburstCnt : Nat
  wrAddress : Nat
  wrAddressLatch : Nat
  wfmLoadReg0 : Bool
  wfmLoadReg1 : Bool
deriving Repr, DecidableEq

namespace WcmdFsm

def init : WcmdFsm where
  currentState := .idle
  wrburstCnt := 0
  wrAddress := 0
  wrAddressLatch := 0
  wfmLoadReg0 := false
  wfmLoadReg1 := false

/-- `current_state=burst_wr or current_state=wr`: `wcmd_wr` and `wfm_infifo_rd` alike. -/
def wcmdWr (s : WcmdFsm) : Bool := decide (s.currentState = .burstWr ∨ s.currentState = .wr)
def wcmdBrstEn (s : WcmdFsm) : Bool := decide (s.currentState = .burstWr)

/-- The falling edge of the load. -/
def loadFalls (s : WcmdFsm) : Bool := !s.wfmLoadReg0 && s.wfmLoadReg1

def next (s : WcmdFsm) (wfmLoad wcmdRdy : Bool) (rdusedw : Nat) : WcmdState :=
  match s.currentState with
  | .idle => if wfmLoad then .checkBurst else .idle
  | .checkBurst =>
    if lclBurstLength ≤ rdusedw ∧ wcmdRdy then .burstWr
    else if rdusedw = lclBurstLength - 1 ∧ wcmdRdy then .checkWr
    else .idle
  | .checkWr => if rdusedw = lclBurstLength - 1 ∧ wcmdRdy then .wr else .idle
  | .burstWr =>
    if s.wrburstCnt = lclBurstLength - 1 then
      if lclBurstLength * 2 < rdusedw ∧ wcmdRdy then .burstWr else .idle
    else .burstWr
  | .wr => .idle
  | .burstRd => .idle
  | .rd => .idle

def step (s : WcmdFsm) (wfmLoad wcmdRdy : Bool) (rdusedw : Nat) : WcmdFsm where
  currentState := s.next wfmLoad wcmdRdy rdusedw
  wrburstCnt :=
    if s.currentState = .burstWr then
      if s.wrburstCnt < lclBurstLength - 1 then s.wrburstCnt + 1 else 0
    else 0
  wrAddress := if s.loadFalls then 0 else if s.wcmdWr then incAddr s.wrAddress else s.wrAddress
  wrAddressLatch := if s.loadFalls then s.wrAddress else s.wrAddressLatch
  wfmLoadReg0 := wfmLoad
  wfmLoadReg1 := s.wfmLoadReg0

end WcmdFsm

/-- What the surroundings do in a clock: the load bit, room for commands, a word arriving. -/
structure WfmIn where
  wfmLoad : Bool
  wcmdRdy : Bool
  arrival : Option Word32
deriving Repr, DecidableEq

/-- A write command; it has no data when the FIFO shows none. -/
structure Cmd where
  addr : Nat
  brst : Bool
  data : Option Word32
deriving Repr, DecidableEq

/-- Single writes and pairs of adjacent burst writes. -/
inductive Paired : List Cmd → Prop
  | nil : Paired []
  | single {l : List Cmd} {c : Cmd} : Paired l → c.brst = false → Paired (l ++ [c])
  | pair {l : List Cmd} {a b : Cmd} : Paired l → a.brst = true → b.brst = true →
      b.addr = incAddr a.addr → Paired (l ++ [a, b])

structure WfmPlayer where
  fsm : WcmdFsm
  wfmLoadWcmd0 : Bool
  wfmLoadWcmd1 : Bool
  wfmLoadWcmd2 : Bool
  infifo : List Word32
deriving Repr, DecidableEq

namespace WfmPlayer

def init : WfmPlayer where
  fsm := .init
  wfmLoadWcmd0 := false
  wfmLoadWcmd1 := false
  wfmLoadWcmd2 := false
  infifo := []

def wfmInfifoRdempty (s : WfmPlayer) : Bool := s.infifo.isEmpty
def wfmInfifoRdreq (s : WfmPlayer) : Bool := s.fsm.wcmdWr

/-- The command of a clock. -/
def issued (s : WfmPlayer) : List Cmd :=
  validWord s.fsm.wcmdWr ⟨s.fsm.wrAddress, s.fsm.wcmdBrstEn, s.infifo.head?⟩

def step (s : WfmPlayer) (i : WfmIn) : WfmPlayer where
  fsm := s.fsm.step s.wfmLoadWcmd2 i.wcmdRdy s.infifo.length
  wfmLoadWcmd0 := i.wfmLoad
  wfmLoadWcmd1 := s.wfmLoadWcmd0
  wfmLoadWcmd2 :=
    if s.wfmLoadWcmd1 then true
    else if s.wfmInfifoRdempty then false
    else s.wfmLoadWcmd2
  infifo := (if s.wfmInfifoRdreq then s.infifo.tail else s.infifo) ++ i.arrival.toList

def machine : Machine WfmPlayer WfmIn := ⟨init, step⟩

end WfmPlayer

end Wfm
