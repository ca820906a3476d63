import LimeSdrGw.Clocked.Stream
import LimeSdrGw.Tx.Packet
/-
# `bit_pack`

64-bit sample words of four 16-bit fields in, 64-bit payload words out: with 12-bit samples four words
become three (`pack_48_to_64`), with 16-bit samples they pass. Two multiplexers with a register each
choose by `sample_width`.

| here | there |
| --- | --- |
| `Pack48To64`, `.step` | pack_48_to_64.vhd:36-161 |
| `inst0Data48In`       | bit_pack.vhd:97-100: the upper twelve bits of every field |
| `BitPack`, `.step`    | bit_pack.vhd:36-183; `inst1` is commented out there, its outputs are 0 |
-/
namespace Rx

open Clocked Tx

abbrev Word48 := BitVec 48

structure Pack48To64 where
  word640 : Word64
  word641 : Word64
  word642 : Word64
  word640Valid : Bool
  word641Valid : Bool
  word642Valid : Bool
  data64OutReg : Word64
  dataOutValidReg : Bool
  wrCnt : Nat
  data48InReg : Word48
deriving Repr, DecidableEq

namespace Pack48To64

def init : Pack48To64 where
  word640 := 0
  word641 := 0
  word642 := 0
  word640Valid := false
  word641Valid := false
  word642Valid := false
  data64OutReg := 0
  dataOutValidReg := false
  wrCnt := 0
  data48InReg := 0

def word0Of (data48In reg : Word48) : Word64 := data48In.extractLsb' 0 16 ++ reg
def word1Of (data48In reg : Word48) : Word64 := data48In.extractLsb' 0 32 ++ reg.extractLsb' 16 32
def word2Of (data48In reg : Word48) : Word64 := data48In ++ reg.extractLsb' 32 16

def data64OutMux (s : Pack48To64) : Word64 :=
  if s.word640Valid then s.word640 else if s.word641Valid then s.word641 else s.word642

def step (s : Pack48To64) (dataInWrreq : Bool) (data48In : Word48) : Pack48To64 where
  word640 := if s.wrCnt = 1 ∧ dataInWrreq then word0Of data48In s.data48InReg else s.word640
  word641 := if s.wrCnt = 2 ∧ dataInWrreq then word1Of data48In s.data48InReg else s.word641
  word642 := if s.wrCnt = 3 ∧ dataInWrreq then word2Of data48In s.data48InReg else s.word642
  word640Valid := decide (s.wrCnt = 1) && dataInWrreq
  word641Valid := decide (s.wrCnt = 2) && dataInWrreq
  word642Valid := decide (s.wrCnt = 3) && dataInWrreq
  data64OutReg := s.data64OutMux
  dataOutValidReg := s.word640Valid || s.word641Valid || s.word642Valid
  wrCnt := if dataInWrreq then if s.wrCnt < 3 then s.wrCnt + 1 else 0 else s.wrCnt
  data48InReg := if dataInWrreq then data48In else s.data48InReg

end Pack48To64

/-- The upper twelve bits of every field. -/
def inst0Data48In (dataIn : Word64) : Word48 :=
  dataIn.extractLsb' 52 12 ++ dataIn.extractLsb' 36 12 ++ dataIn.extractLsb' 20 12 ++
    dataIn.extractLsb' 4 12

structure BitPack where
  inst0 : Pack48To64
  mux0Data64Reg : Word64
  mux0DataOutValidReg : Bool
  mux1Data64Reg : Word64
  mux1DataOutValidReg : Bool
deriving Repr, DecidableEq

namespace BitPack

def init : BitPack where
  inst0 := .init
  mux0Data64Reg := 0
  mux0DataOutValidReg := false
  mux1Data64Reg := 0
  mux1DataOutValidReg := false

def mux0Sel (sampleWidth : BitVec 2) : Bool := sampleWidth.getLsbD 1
def mux1Sel (sampleWidth : BitVec 2) : Bool := sampleWidth.getLsbD 1 || sampleWidth.getLsbD 0

def step (s : BitPack) (sampleWidth : BitVec 2) (dataInValid : Bool) (dataIn : Word64) :
    BitPack where
  inst0 := s.inst0.step dataInValid (inst0Data48In dataIn)
  mux0Data64Reg := if mux0Sel sampleWidth then s.inst0.data64OutReg else 0
  mux0DataOutValidReg := if mux0Sel sampleWidth then s.inst0.dataOutValidReg else false
  mux1Data64Reg := if mux1Sel sampleWidth then s.mux0Data64Reg else dataIn
  mux1DataOutValidReg := if mux1Sel sampleWidth then s.mux0DataOutValidReg else dataInValid

end BitPack

end Rx
