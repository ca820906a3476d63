import LimeSdrGw.Nios.SpiMaster
/-
# `alt_avalon_spi_command` on `spi_lms`

The driver as a machine that makes one access after the other. Between two accesses, and before a
command, any number of clocks may pass: `go` says whether the processor begins its next access in a
clock.

| here | there |
| --- | --- |
| `SpiCommand`           | the arguments of `alt_avalon_spi_command`; `flags` is 0 in every call on `SPI_LMS_BASE` |
| `Driver`               | its locals (altera_avalon_spi.c:43-53) |
| `Pc.access`            | the `IORD_…` and `IOWR_…` of :60-126 |
| `Driver.poll`          | the loop condition of :77-82 and what follows it (:84-99) |
| `Driver.rx`            | :101-113 |
-/
namespace Nios

open Clocked

structure SpiCommand where
  slave : Fin 5
  writeData : List (BitVec 8)
  readLength : Nat
deriving Repr, DecidableEq

/-- The transceiver on `SPI_LMS` (main.c:34). -/
def spiNrLms7002m : Fin 5 := 0

/-- The configuration registers on it (main.c:35). -/
def spiNrFpga : Fin 5 := 1

/-- Where the driver stands; `tx` and `rx` are the two branches of the loop body. -/
inductive Pc
  | idle
  | slaveSel
  | control
  | discard
  | poll
  | tx (data : BitVec 8) (rrdy : Bool)
  | rx
  | tmt
  | release
deriving Repr, DecidableEq

structure Driver where
  pc : Pc
  /-- The second clock of an access. -/
  second : Bool
  cmd : SpiCommand
  /-- From `write_data` to `write_end`. -/
  writeData : List (BitVec 8)
  writeZeros : Nat
  readIgnore : Nat
  /-- What has been stored through `read_data`. -/
  readData : List (BitVec 8)
  credits : Int
  /-- Commands to come, and those done with what they have read. -/
  todo : List SpiCommand
  done : List (SpiCommand × List (BitVec 8))
deriving Repr, DecidableEq

def Pc.access (slave : Fin 5) : Pc → Option Access
  | idle => none
  | slaveSel => some (.write Access.slaveSel (1 <<< slave.val))
  | control => some (.write Access.control 0x400)
  | discard => some (.read Access.rxdata)
  | poll => some (.read Access.status)
  | tx data _ => some (.write Access.txdata (data.setWidth 16))
  | rx => some (.read Access.rxdata)
  | tmt => some (.read Access.status)
  | release => some (.write Access.control 0)

namespace Driver

def reset (cmds : List SpiCommand) : Driver where
  pc := .idle
  second := false
  cmd := ⟨spiNrLms7002m, [], 0⟩
  writeData := []
  writeZeros := 0
  readIgnore := 0
  readData := []
  credits := 0
  todo := cmds
  done := []

variable (d : Driver)

def begin (c : SpiCommand) (cs : List SpiCommand) : Driver :=
  { d with
    pc := .slaveSel
    cmd := c
    writeData := c.writeData
    writeZeros := c.readLength
    readIgnore := c.writeData.length
    readData := []
    credits := 1
    todo := cs }

/-- Behind the `if` on `TRDY`. -/
def afterTx (rrdy : Bool) : Driver := { d with pc := if rrdy then .rx else .poll }

def poll (trdy rrdy : Bool) : Driver :=
  if (!trdy || d.credits == 0) && !rrdy then d
  else if trdy && decide (0 < d.credits) then
    match d.writeData with
    | b :: bs => { d with credits := d.credits - 1, writeData := bs, pc := .tx b rrdy }
    | [] =>
      if 0 < d.writeZeros then
        { d with credits := d.credits - 1, writeZeros := d.writeZeros - 1, pc := .tx 0 rrdy }
      else { d with credits := -1024 }.afterTx rrdy
  else d.afterTx rrdy

def store (rxdata : BitVec 8) : Driver :=
  if 0 < d.readIgnore then { d with readIgnore := d.readIgnore - 1, credits := d.credits + 1 }
  else { d with readData := d.readData ++ [rxdata], credits := d.credits + 1 }

def rx (rxdata : BitVec 8) : Driver :=
  let d' := d.store rxdata
  if d'.readIgnore = 0 ∧ d'.readData.length = d'.cmd.readLength then { d' with pc := .tmt }
  else { d' with pc := .poll }

/-- Behind an access that has read `data`. -/
def next (data : BitVec 16) : Driver :=
  match d.pc with
  | .idle => d
  | .slaveSel => { d with pc := .control }
  | .control => { d with pc := .discard }
  | .discard => { d with pc := .poll }
  | .poll => d.poll (data &&& 0x40 != 0) (data &&& 0x80 != 0)
  | .tx _ rrdy => d.afterTx rrdy
  | .rx => d.rx (data.setWidth 8)
  | .tmt => if data &&& 0x20 = 0 then d else { d with pc := .release }
  | .release => { d with pc := .idle, done := d.done ++ [(d.cmd, d.readData)] }

/-- What the port shows in a clock. -/
def access (go : Bool) : Option Access := if d.second || go then d.pc.access d.cmd.slave else none

def step (go : Bool) (dataToCpu : BitVec 16) : Driver :=
  if d.second then { d.next dataToCpu with second := false }
  else if go then
    match d.pc, d.todo with
    | .idle, [] => d
    | .idle, c :: cs => d.begin c cs
    | _, _ => { d with second := true }
  else d

end Driver

/-- The processor and the master. -/
structure SpiHost where
  cpu : Driver
  core : SpiMaster
deriving Repr, DecidableEq

structure SpiHostIn where
  go : Bool
  miso : Bool
deriving Repr, DecidableEq

def SpiHost.step (s : SpiHost) (i : SpiHostIn) : SpiHost where
  cpu := s.cpu.step i.go s.core.dataToCpu
  core := s.core.step (s.cpu.access i.go) i.miso

def spiHost (cmds : List SpiCommand) : Machine SpiHost SpiHostIn :=
  ⟨⟨.reset cmds, .reset⟩, SpiHost.step⟩

/-! ## What the slaves see -/

/-- The select lines change, or the clock rises with a bit on either line. -/
inductive WireEvent
  | ss (n : BitVec 5)
  | rise (mosi miso : Bool)
deriving Repr, DecidableEq

def SpiHost.wire (s : SpiHost) (i : SpiHostIn) : List WireEvent :=
  (if (s.step i).core.ssN = s.core.ssN then [] else [.ss (s.step i).core.ssN]) ++
    if !s.core.sclkReg && (s.step i).core.sclkReg then [.rise s.core.mosi i.miso] else []

namespace SpiCommand

variable (c : SpiCommand)

/-- The bytes sent: what is to be written, then a zero for each byte to be read. -/
def bytes : List (BitVec 8) := c.writeData ++ List.replicate c.readLength 0

def mosi : List Bool := c.bytes.flatMap msbBits

/-- Only the slave is selected. -/
def select : BitVec 5 := ~~~(1 <<< c.slave.val)

/-- The command on the wires, when `miso` comes back. -/
def transcript (miso : List Bool) : List WireEvent :=
  .ss c.select :: List.zipWith .rise c.mosi miso ++ [.ss (BitVec.allOnes 5)]

end SpiCommand

/-- The bytes of a list of bits, the highest bit of each first. -/
def packBytes (l : List Bool) : List (BitVec 8) :=
  (List.range (l.length / 8)).map fun k => word 8 ((l.drop (8 * k)).take 8)

/-- What the command returns then. -/
def SpiCommand.reply (c : SpiCommand) (miso : List Bool) : List (BitVec 8) :=
  packBytes (miso.drop (8 * c.writeData.length))

/-- Commands carried out one after the other, and what the wires have seen. -/
inductive Served : List (SpiCommand × List (BitVec 8)) → List WireEvent → Prop
  | nil : Served [] []
  | snoc {d : List (SpiCommand × List (BitVec 8))} {l : List WireEvent} (h : Served d l)
      (c : SpiCommand) (miso : List Bool) (hlen : miso.length = 8 * c.bytes.length) :
      Served (d ++ [(c, c.reply miso)]) (l ++ c.transcript miso)

end Nios
