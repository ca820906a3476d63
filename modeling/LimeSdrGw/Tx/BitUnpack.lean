import LimeSdrGw.Tx.Packet
/-
# `bit_unpack_64`

64-bit payload words in, 128-bit words of eight 16-bit sample fields out: three words become two with
12-bit samples (`unpack_64_to_48`), two become one with 16-bit samples (`unpack_64_to_64`). Both
converters always run; two multiplexers with a register each choose by `sample_width`.

| here | there |
| --- | --- |
| `Unpack64To48`, `.step`   | unpack_64_to_48.vhd:36-157 |
| `field12`                 | `data64_in(lo + 11 downto lo) & "0000"` |
| `Unpack64To64`, `.step`   | unpack_64_to_64.vhd:36-107 |
| `BitUnpack64`, `.step`    | bit_unpack_64.vhd:36-165; `inst1` is commented out there, its outputs are 0 |
-/
namespace Tx

open Clocked

/-- Twelve bits from `lo` on, as a 16-bit field. -/
def field12 (w : Word64) (lo : Nat) : BitVec 16 := w.extractLsb' lo 12 ++ 0#4

structure Unpack64To48 where
  word1280 : Word128
  word1281 : Word128
  word1280Valid : Bool
  word1281Valid : Bool
  data128OutReg : Word128
  dataOutValidReg : Bool
  wrCnt : Nat
  data64InReg : Word64
deriving Repr, DecidableEq

namespace Unpack64To48

def init : Unpack64To48 where
  word1280 := 0
  word1281 := 0
  word1280Valid := false
  word1281Valid := false
  data128OutReg := 0
  dataOutValidReg := false
  wrCnt := 0
  data64InReg := 0

/-- The first output word, from the second input word and the one before it. -/
def word0Of (data64In reg : Word64) : Word128 :=
  field12 data64In 20 ++ field12 data64In 8 ++
  (data64In.extractLsb' 0 8 ++ reg.extractLsb' 60 4 ++ 0#4) ++
  field12 reg 48 ++ field12 reg 36 ++ field12 reg 24 ++ field12 reg 12 ++ field12 reg 0

/-- The second output word, from the third input word and the one before it. -/
def word1Of (data64In reg : Word64) : Word128 :=
  field12 data64In 52 ++ field12 data64In 40 ++ field12 data64In 28 ++ field12 data64In 16 ++
  field12 data64In 4 ++ (data64In.extractLsb' 0 4 ++ reg.extractLsb' 56 8 ++ 0#4) ++
  field12 reg 44 ++ field12 reg 32

def step (s : Unpack64To48) (dataInWrreq : Bool) (data64In : Word64) : Unpack64To48 where
  word1280 := if s.wrCnt = 1 ∧ dataInWrreq then word0Of data64In s.data64InReg else s.word1280
  word1281 := if s.wrCnt = 2 ∧ dataInWrreq then word1Of data64In s.data64InReg else s.word1281
  word1280Valid := decide (s.wrCnt = 1) && dataInWrreq
  word1281Valid := decide (s.wrCnt = 2) && dataInWrreq
  data128OutReg := if s.word1280Valid then s.word1280 else s.word1281
  dataOutValidReg := s.word1280Valid || s.word1281Valid
  wrCnt := if dataInWrreq then if s.wrCnt < 2 then s.wrCnt + 1 else 0 else s.wrCnt
  data64InReg := if dataInWrreq then data64In else s.data64InReg

end Unpack64To48

structure Unpack64To64 where
  word1280 : Word128
  word1280Valid : Bool
  wrCnt : Nat
  data64InReg : Word64
deriving Repr, DecidableEq

namespace Unpack64To64

def init : Unpack64To64 where
  word1280 := 0
  word1280Valid := false
  wrCnt := 0
  data64InReg := 0

def step (s : Unpack64To64) (dataInWrreq : Bool) (data64In : Word64) : Unpack64To64 where
  word1280 := if s.wrCnt = 1 ∧ dataInWrreq then data64In ++ s.data64InReg else s.word1280
  word1280Valid := decide (s.wrCnt = 1) && dataInWrreq
  wrCnt := if dataInWrreq then if s.wrCnt < 1 then s.wrCnt + 1 else 0 else s.wrCnt
  data64InReg := if dataInWrreq then data64In else s.data64InReg

end Unpack64To64

structure BitUnpack64 where
  inst0 : Unpack64To48
  inst2 : Unpack64To64
  mux0Data128Reg : Word128
  mux0DataOutValidReg : Bool
  mux1Data128Reg : Word128
  mux1DataOutValidReg : Bool
deriving Repr, DecidableEq

namespace BitUnpack64

def init : BitUnpack64 where
  inst0 := .init
  inst2 := .init
  mux0Data128Reg := 0
  mux0DataOutValidReg := false
  mux1Data128Reg := 0
  mux1DataOutValidReg := false

def mux0Sel (sampleWidth : BitVec 2) : Bool := sampleWidth.getLsbD 1
def mux1Sel (sampleWidth : BitVec 2) : Bool := sampleWidth.getLsbD 1 || sampleWidth.getLsbD 0

def step (s : BitUnpack64) (sampleWidth : BitVec 2) (dataInValid : Bool) (dataIn : Word64) :
    BitUnpack64 where
  inst0 := s.inst0.step dataInValid dataIn
  inst2 := s.inst2.step dataInValid dataIn
  mux0Data128Reg := if mux0Sel sampleWidth then s.inst0.data128OutReg else 0
  mux0DataOutValidReg := if mux0Sel sampleWidth then s.inst0.dataOutValidReg else false
  mux1Data128Reg := if mux1Sel sampleWidth then s.mux0Data128Reg else s.inst2.word1280
  mux1DataOutValidReg :=
    if mux1Sel sampleWidth then s.mux0DataOutValidReg else s.inst2.word1280Valid

/-- Clocks from a valid input word to the output word it completes. -/
def latency (sampleWidth : BitVec 2) : Nat := if mux1Sel sampleWidth then 4 else 2

end BitUnpack64

end Tx
