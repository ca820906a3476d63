import LimeSdrGw.Wfm.WcmdFsm
import LimeSdrGw.Spi.Registers
/-
# `decompress`: samples from memory words

A state machine for every format: 12-bit samples come eight in three words, 16-bit ones eight in four.
The states for 14 bits are declared and lead nowhere.

| here | there |
| --- | --- |
| `DecState`, `Decompress` | decompress.vhd:52-61, 133-147, 266-294 |
| `.fifoD`, `.next`        | decompress.vhd:152-236 |
| `.decFifoWr`             | decompress.vhd:119-126 |
| `Player`                 | decompress in wfm_player_top.vhd:473-494, its `reset_n` being `not wfm_load`, beside the registers of fpgacfg |
-/
namespace Wfm

open Clocked Spi

inductive DecState
  | idle
  | dec12_0
  | dec12_1
  | dec12_2
  | dec12_3
  | dec14_0
  | dec14_1
  | dec14_2
  | dec14_3
  | dec14_4
  | dec14_5
  | dec14_6
  | dec16_0
  | dec16_1
  | dec16_2
  | dec16_3
deriving Repr, DecidableEq

/-- `fifo_d0` to `fifo_d7`. -/
structure FifoD where
  d0 : BitVec 16
  d1 : BitVec 16
  d2 : BitVec 16
  d3 : BitVec 16
  d4 : BitVec 16
  d5 : BitVec 16
  d6 : BitVec 16
  d7 : BitVec 16
deriving Repr, DecidableEq

structure Decompress where
  state : DecState
  dataInReg : Word32
  reg : FifoD
deriving Repr, DecidableEq

/-- `"0000" & data(hi downto lo)`. -/
def sample (data : Word32) (lo : Nat) : BitVec 16 := 0#4 ++ data.extractLsb' lo 12

namespace Decompress

def init : Decompress := ⟨.idle, 0, ⟨0, 0, 0, 0, 0, 0, 0, 0⟩⟩

variable (s : Decompress)

def next (sampleWidth : BitVec 2) (valid : Bool) : DecState :=
  match s.state with
  | .idle => if sampleWidth = 0b10 then .dec12_0 else .dec16_0
  | .dec12_0 => if valid then .dec12_1 else .dec12_0
  | .dec12_1 => if valid then .dec12_2 else .dec12_1
  | .dec12_2 => if valid then .dec12_0 else .dec12_2
  | .dec16_0 => if valid then .dec16_1 else .dec16_0
  | .dec16_1 => if valid then .dec16_2 else .dec16_1
  | .dec16_2 => if valid then .dec16_3 else .dec16_2
  | .dec16_3 => if valid then .dec16_0 else .dec16_3
  | _ => .idle

def fifoD (valid : Bool) (data : Word32) : FifoD :=
  match s.state, valid with
  | .dec12_0, true => { s.reg with d0 := sample data 0, d1 := sample data 12 }
  | .dec12_1, true =>
    { s.reg with
      d2 := 0#4 ++ data.extractLsb' 0 4 ++ s.dataInReg.extractLsb' 24 8
      d3 := sample data 4
      d4 := sample data 16 }
  | .dec12_2, true =>
    { s.reg with
      d5 := 0#4 ++ data.extractLsb' 0 8 ++ s.dataInReg.extractLsb' 28 4
      d6 := sample data 8
      d7 := sample data 20 }
  | .dec16_0, true => { s.reg with d0 := sample data 4, d1 := sample data 20 }
  | .dec16_0, false => { s.reg with d0 := 0, d1 := 0 }
  | .dec16_1, true => { s.reg with d2 := sample data 4, d3 := sample data 20 }
  | .dec16_2, true => { s.reg with d4 := sample data 4, d5 := sample data 20 }
  | .dec16_3, true => { s.reg with d6 := sample data 4, d7 := sample data 20 }
  | _, _ => s.reg

def decFifoWr (valid : Bool) : Bool :=
  decide (s.state = .dec12_2 ∨ s.state = .dec14_3 ∨ s.state = .dec14_6 ∨ s.state = .dec16_3) && valid

def step (sampleWidth : BitVec 2) (valid : Bool) (data : Word32) : Decompress where
  state := s.next sampleWidth valid
  dataInReg := if valid then data else s.dataInReg
  reg := s.fifoD valid data

end Decompress

/-- A register written by the host, or a clock of `decompress` with what the memory delivers. -/
inductive PlayerEvent
  | hostWrite (addr : BitVec 5) (data : BitVec 16)
  | tick (valid : Bool) (data : Word32)
deriving Repr, DecidableEq

structure Player where
  mem : Regs
  dcmpr : Decompress

namespace Player

def init : Player := ⟨fpgacfgDefaults, .init⟩

/-- `reset_n` of `decompress` is asynchronous. -/
def held (mem : Regs) (d : Decompress) : Decompress := if wfmLoad mem then .init else d

def step (s : Player) : PlayerEvent → Player
  | .hostWrite a d =>
    let mem := s.mem.set a d
    ⟨mem, held mem s.dcmpr⟩
  | .tick valid data => ⟨s.mem, held s.mem (s.dcmpr.step (wfmSmplWidth s.mem) valid data)⟩

def machine : Machine Player PlayerEvent := ⟨init, step⟩

end Player

end Wfm
