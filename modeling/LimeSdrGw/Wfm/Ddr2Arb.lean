import LimeSdrGw.Wfm.WcmdFsm
/-
# `DDR2_arb`: write and read commands to the memory controller

| here | there |
| --- | --- |
| `ArbState`, `Ddr2Arb`       | `state_type` and the registers, DDR2_arb.vhd:57-66 |
| `Ddr2Arb.next`, `.step`     | DDR2_arb.vhd:104-120, 185-289 |
| `burstbegin` .. `rcmdFifoRdreq` | DDR2_arb.vhd:72-178 |
| `CmdPort`                   | `wcmdfifo`, `rcmdfifo` and `DDR2_arb_inst`, DDR2_ctrl_top.vhd:270-364 |

`check_wcmd`, `check_rcmd` and `rd` are never entered. The two command FIFOs are show-ahead ones that
show something when they are empty too, given here with the inputs.
-/
namespace Wfm

open Clocked

/-- `rcmd_brst_en & rcmd_addr`. -/
structure RdCmd where
  addr : Nat
  brst : Bool
deriving Repr, DecidableEq

inductive ArbState
  | idle
  | checkWcmd
  | checkRcmd
  | burstWr
  | holdWr
  | wr
  | burstRd
  | rd
  | rdHold
deriving Repr, DecidableEq

structure Ddr2Arb where
  currentState : ArbState
  wrCnt : Nat
  addrReg : Nat
deriving Repr, DecidableEq

/-- A read side of a command FIFO: `rdempty`, `rdusedw` and the word it shows. -/
structure RdSide (α : Type) where
  rdempty : Bool
  rdusedw : Nat
  q : α
deriving Repr, DecidableEq

/-- The read side of a FIFO that holds `l`, with `stale` on its output while it is empty. -/
def RdSide.of {α : Type} (l : List α) (stale : α) : RdSide α := ⟨l.isEmpty, l.length, l.headD stale⟩

namespace Ddr2Arb

def init : Ddr2Arb where
  currentState := .idle
  wrCnt := 0
  addrReg := 0

variable (s : Ddr2Arb) (w : RdSide Cmd) (r : RdSide RdCmd) (localReady : Bool)

def size : Nat :=
  if w.q.brst ∧ (s.currentState = .burstWr ∨ s.currentState = .holdWr ∨ s.currentState = .wr) then
    lclBurstLength
  else if r.q.brst ∧
      (s.currentState = .burstRd ∨ s.currentState = .rdHold ∨ s.currentState = .rd) then
    lclBurstLength
  else 1

def burstbegin : Bool :=
  decide (s.currentState = .burstWr ∧ w.rdempty = false ∨
    s.currentState = .burstRd ∧ r.rdempty = false)

def writeReq : Bool :=
  decide (s.currentState = .burstWr ∨ s.currentState = .wr ∨ s.currentState = .holdWr) &&
    !w.rdempty

def addr : Nat :=
  if s.burstbegin w r ∧ s.currentState = .burstWr then w.q.addr
  else if s.burstbegin w r ∧ s.currentState = .burstRd then r.q.addr
  else s.addrReg

def localReadReq : Bool :=
  decide (s.currentState = .burstRd ∨ s.currentState = .rdHold) && !r.rdempty

def rcmdFifoRdreq : Bool :=
  decide (s.currentState = .burstRd ∨ s.currentState = .rdHold) && localReady && !r.rdempty

def wcmdFifoRdreq : Bool := if localReady then s.writeReq w else false

/-- `cmd_status="01" and outbuf_wrusedw<128`: a read may follow. -/
def readFollows (outbufWrusedw : Nat) : Bool :=
  w.rdempty && !r.rdempty && decide (outbufWrusedw < 128)

def next (outbufWrusedw : Nat) : ArbState :=
  match s.currentState with
  | .idle =>
    if localReady then
      if w.rdempty = false ∧
          (lclBurstLength ≤ w.rdusedw ∧ w.q.brst = true ∨ w.q.brst = false) then .burstWr
      else if readFollows w r outbufWrusedw then .burstRd
      else .idle
    else .idle
  | .burstWr =>
    if w.q.brst then .wr
    else if localReady = true ∧ w.rdempty = false then .burstWr
    else if localReady = false then .holdWr
    else .idle
  | .holdWr =>
    if localReady then
      if w.rdempty = false ∧ w.q.brst = false then .burstWr else .idle
    else .holdWr
  | .wr =>
    if localReady = true ∧ s.wrCnt = lclBurstLength - 1 then
      if w.q.brst = true ∧ lclBurstLength < w.rdusedw ∧ w.rdempty = false then .burstWr else .idle
    else .wr
  | .burstRd =>
    if localReady = false then .rdHold
    else if readFollows w r outbufWrusedw then .burstRd
    else .idle
  | .rdHold =>
    if localReady then
      if readFollows w r outbufWrusedw then .burstRd else .idle
    else .rdHold
  | .rd => .rd
  | .checkWcmd | .checkRcmd => .idle

def step (outbufWrusedw : Nat) : Ddr2Arb where
  currentState := s.next w r localReady outbufWrusedw
  wrCnt :=
    if localReady && s.writeReq w then
      if s.wrCnt < lclBurstLength - 1 then s.wrCnt + 1 else 0
    else if s.currentState = .idle then 0
    else s.wrCnt
  addrReg := s.addr w r

end Ddr2Arb

/-- What the surroundings do in a clock: the controller, the output buffer's level, the commands
    that come into the FIFOs, and what an empty FIFO shows. -/
structure ArbIn where
  localReady : Bool
  outbufWrusedw : Nat
  wcmdPush : List Cmd
  rcmdPush : List RdCmd
  wcmdStale : Cmd
  rcmdStale : RdCmd
deriving Repr, DecidableEq

structure CmdPort where
  arb : Ddr2Arb
  wcmdfifo : List Cmd
  rcmdfifo : List RdCmd
deriving Repr, DecidableEq

namespace CmdPort

def init : CmdPort := ⟨.init, [], []⟩

variable (s : CmdPort) (i : ArbIn)

def wcmd : RdSide Cmd := .of s.wcmdfifo i.wcmdStale
def rcmd : RdSide RdCmd := .of s.rcmdfifo i.rcmdStale

def wcmdRdreq : Bool := s.arb.wcmdFifoRdreq (s.wcmd i) i.localReady
def rcmdRdreq : Bool := s.arb.rcmdFifoRdreq (s.rcmd i) i.localReady

def localBurstbegin : Bool := s.arb.burstbegin (s.wcmd i) (s.rcmd i)
def localWriteReq : Bool := s.arb.writeReq (s.wcmd i)
def localReadReq : Bool := s.arb.localReadReq (s.rcmd i)
def localAddr : Nat := s.arb.addr (s.wcmd i) (s.rcmd i)
def localSize : Nat := s.arb.size (s.wcmd i) (s.rcmd i)
def localWdata : Option Word32 := (s.wcmd i).q.data

def step : CmdPort where
  arb := s.arb.step (s.wcmd i) (s.rcmd i) i.localReady i.outbufWrusedw
  wcmdfifo := (if s.wcmdRdreq i then s.wcmdfifo.tail else s.wcmdfifo) ++ i.wcmdPush
  rcmdfifo := (if s.rcmdRdreq i then s.rcmdfifo.tail else s.rcmdfifo) ++ i.rcmdPush

def machine : Machine CmdPort ArbIn := ⟨init, step⟩

end CmdPort

/-- A write as the controller carries it out. -/
structure WrReq where
  addr : Nat
  size : Nat
  data : List (Option Word32)
deriving Repr, DecidableEq

structure RdReq where
  addr : Nat
  size : Nat
deriving Repr, DecidableEq

/-- The controller: address and size last given with `local_burstbegin`, the write it has only some
    words of, and what it has taken as a whole. -/
structure Ctl where
  addr : Nat
  size : Nat
  under : Option WrReq
  writes : List WrReq
  reads : List RdReq
deriving Repr, DecidableEq

namespace Ctl

def init : Ctl := ⟨0, 1, none, [], []⟩

/-- One word of a write; the first one takes the address and size along. -/
def takeWord (c : Ctl) (d : Option Word32) : Ctl :=
  let r : WrReq := match c.under with
    | some r => { r with data := r.data ++ [d] }
    | none => ⟨c.addr, c.size, [d]⟩
  if r.data.length < r.size then { c with under := some r }
  else { c with under := none, writes := c.writes ++ [r] }

def takeRead (c : Ctl) : Ctl := { c with reads := c.reads ++ [⟨c.addr, c.size⟩] }

def given (c : Ctl) (s : CmdPort) (i : ArbIn) : Ctl :=
  if s.localBurstbegin i then { c with addr := s.localAddr i, size := s.localSize i } else c

/-- A request is taken in a clock with `local_ready`. -/
def serve (c : Ctl) (s : CmdPort) (i : ArbIn) : Ctl :=
  if i.localReady && s.localWriteReq i then (c.given s i).takeWord (s.localWdata i)
  else if i.localReady && s.localReadReq i then (c.given s i).takeRead
  else c.given s i

end Ctl

end Wfm
