import LimeSdrGw.Clocked.Fifo
import LimeSdrGw.Rx.RoundTrip
/-
# `data2packets_top`: sample words into RX packets

A state machine reads the sample words of one packet from the sample FIFO, `bit_pack` packs them, and a
row of three registers puts the header in front. Whether a packet is written is decided once, before
its first word is read.

| here | there |
| --- | --- |
| `Data2PacketsFsm`, `.step`  | data2packets_fsm.vhd:40-155 |
| `Data2Packets`, `.step`     | data2packets.vhd:25-289 |
| `Data2PacketsTop`, `.step`  | data2packets_top.vhd:20-298, `pct_buff_wrusedw_w = 11` |
| `RxFormer`, `.step`         | with the sample FIFO of 1024 words in front, rx_path_top.vhd:217-241 |
| `RxPackets`, `.step`        | with a packet FIFO of 1024 words behind |
| `WidthSetting`              | the settings of `sample_width` that data2packets_top.vhd:28 names |

The state `s3` of `data2packets` is never entered.
-/
namespace Rx

open Clocked Tx

/-! ## `data2packets_fsm` -/

inductive FsmState
  | idle
  | checkPctBuff
  | rdSmplBuff
  | waitData2packetsDone
deriving Repr, DecidableEq

structure Data2PacketsFsm where
  currentState : FsmState
  pctBuffWrDisSig : Bool
  smplBuffRdCnt : Nat
  smplBuffRdCntMax : Nat
  smplBuffRdDone : Bool
deriving Repr, DecidableEq

namespace Data2PacketsFsm

def init : Data2PacketsFsm where
  currentState := .idle
  pctBuffWrDisSig := false
  smplBuffRdCnt := 0
  smplBuffRdCntMax := 0
  smplBuffRdDone := false

def smplBuffRdreq (s : Data2PacketsFsm) : Bool := s.currentState == .rdSmplBuff

def next (s : Data2PacketsFsm) (smplBuffRdy data2packetsDone : Bool) : FsmState :=
  match s.currentState with
  | .idle => if smplBuffRdy then .checkPctBuff else .idle
  | .checkPctBuff => .rdSmplBuff
  | .rdSmplBuff => if s.smplBuffRdDone then .waitData2packetsDone else .rdSmplBuff
  | .waitData2packetsDone => if data2packetsDone then .idle else .waitData2packetsDone

def step (s : Data2PacketsFsm) (pctBuffRdy : Bool) (smplRdSize : Nat)
    (smplBuffRdy data2packetsDone : Bool) : Data2PacketsFsm where
  currentState := s.next smplBuffRdy data2packetsDone
  pctBuffWrDisSig := if s.currentState = .checkPctBuff then pctBuffRdy else s.pctBuffWrDisSig
  smplBuffRdCnt := if s.currentState = .rdSmplBuff then (s.smplBuffRdCnt + 1) % 4096 else 0
  smplBuffRdCntMax := (smplRdSize + 4094) % 4096
  smplBuffRdDone := decide (¬ s.smplBuffRdCnt < s.smplBuffRdCntMax)

end Data2PacketsFsm

/-! ## `data2packets` -/

inductive PctState
  | idle
  | s0
  | s1
  | s2
  | s3
deriving Repr, DecidableEq

structure Data2Packets where
  reg0 : Word64
  reg1 : Word64
  reg2 : Word64
  currentState : PctState
  pctDataWrCnt : Nat
  pctDataWrCntMax : Nat
  pctEndCnt : Nat
  pctWrreqInt : Bool
deriving Repr, DecidableEq

namespace Data2Packets

def init : Data2Packets where
  reg0 := 0
  reg1 := 0
  reg2 := 0
  currentState := .idle
  pctDataWrCnt := 0
  pctDataWrCntMax := 0
  pctEndCnt := 0
  pctWrreqInt := false

variable (s : Data2Packets) (pctDataWrreq : Bool)

def next : PctState :=
  match s.currentState with
  | .idle => if pctDataWrreq then .s0 else .idle
  | .s0 => if s.pctDataWrCnt = s.pctDataWrCntMax ∧ pctDataWrreq then .s1 else .s0
  | .s1 => if pctDataWrreq then .s2 else .s1
  | .s2 => if s.pctEndCnt = 0 then .idle else .s2
  | .s3 => .idle

/-- `pct_state`. -/
def pctState : BitVec 2 :=
  match s.currentState with
  | .idle => 0
  | .s0 => 1
  | .s1 => if pctDataWrreq then 2 else 1
  | .s2 => 3
  | .s3 => 3

def regLd : Bool := s.currentState == .idle && pctDataWrreq
def regEn : Bool := s.currentState == .s2 || pctDataWrreq

def step (pctSize : Nat) (pctHdr0 pctHdr1 pctData : Word64) : Data2Packets where
  reg0 := if s.regLd pctDataWrreq then pctHdr0 else if s.regEn pctDataWrreq then s.reg1 else s.reg0
  reg1 := if s.regLd pctDataWrreq then pctHdr1 else if s.regEn pctDataWrreq then s.reg2 else s.reg1
  reg2 := if pctDataWrreq then pctData else s.reg2
  currentState := s.next pctDataWrreq
  pctDataWrCnt :=
    if s.currentState = .s1 then 0
    else if pctDataWrreq then (s.pctDataWrCnt + 1) % 2048 else s.pctDataWrCnt
  pctDataWrCntMax := (pctSize + 2044) % 2048
  pctEndCnt := if s.currentState = .s2 then (s.pctEndCnt + 255) % 256 else 1
  pctWrreqInt := pctDataWrreq || s.currentState == .s2

end Data2Packets

/-! ## `data2packets_top` -/

structure PctIn where
  pctHdr0 : Word64
  pctHdr1 : Word64
  pctBuffWrusedw : Nat
  smplBuffRdusedw : Nat
  smplBuffRddata : Word64
deriving Repr, DecidableEq

structure Data2PacketsTop where
  smplBuffRdusedwReg : Nat
  inst2PctSize : Nat
  pctBuffWrusedwMaxLimit : Nat
  inst0PctBuffRdy : Bool
  smplBuffRdusedwMin : Nat
  inst0SmplBuffRdy : Bool
  inst0Data2packetsDone : Bool
  pctHdrCaptured : Bool
  inst0SmplRdSize : Nat
  inst0 : Data2PacketsFsm
  inst1DataInValid : Bool
  inst1 : BitPack
  inst2 : Data2Packets
  pctBuffWrdataReg : Word64
  smplBuffRdreqReg : Bool
deriving Repr, DecidableEq

/-- Sample words that make one packet. -/
def smplRdSize (sampleWidth : BitVec 2) : Nat :=
  if sampleWidth = 2 then 680 else if sampleWidth = 1 then 144 else 510

/-- Words of one packet. -/
def pctSize (sampleWidth : BitVec 2) : Nat := if sampleWidth = 1 then 128 else 512

/-- `pct_buff_wrusedw_max_words`. -/
abbrev pctBuffWrusedwMaxWords : Nat := 1024

namespace Data2PacketsTop

def init : Data2PacketsTop where
  smplBuffRdusedwReg := 0
  inst2PctSize := 0
  pctBuffWrusedwMaxLimit := 0
  inst0PctBuffRdy := false
  smplBuffRdusedwMin := 0
  inst0SmplBuffRdy := false
  inst0Data2packetsDone := false
  pctHdrCaptured := false
  inst0SmplRdSize := 0
  inst0 := .init
  inst1DataInValid := false
  inst1 := .init
  inst2 := .init
  pctBuffWrdataReg := 0
  smplBuffRdreqReg := false

variable (s : Data2PacketsTop)

def inst1DataOut : Word64 := s.inst1.mux1Data64Reg
def inst1DataOutValid : Bool := s.inst1.mux1DataOutValidReg

def smplBuffRdreq : Bool := s.inst0.smplBuffRdreq
def pctBuffWrreq : Bool := s.smplBuffRdreqReg
def pctHdrCap : Bool := s.pctHdrCaptured

def step (sampleWidth : BitVec 2) (i : PctIn) : Data2PacketsTop where
  smplBuffRdusedwReg := i.smplBuffRdusedw
  inst2PctSize := pctSize sampleWidth
  pctBuffWrusedwMaxLimit := (pctBuffWrusedwMaxWords + 2048 - s.inst2PctSize) % 2048
  inst0PctBuffRdy := decide (i.pctBuffWrusedw < s.pctBuffWrusedwMaxLimit)
  smplBuffRdusedwMin := smplRdSize sampleWidth
  inst0SmplBuffRdy := decide (s.smplBuffRdusedwMin < s.smplBuffRdusedwReg)
  inst0Data2packetsDone := s.inst2.pctState s.inst1DataOutValid == 0
  pctHdrCaptured := s.inst2.pctState s.inst1DataOutValid == 1
  inst0SmplRdSize := smplRdSize sampleWidth
  inst0 := s.inst0.step s.inst0PctBuffRdy s.inst0SmplRdSize s.inst0SmplBuffRdy
    s.inst0Data2packetsDone
  inst1DataInValid := s.smplBuffRdreq
  inst1 := s.inst1.step sampleWidth s.inst1DataInValid i.smplBuffRddata
  inst2 := s.inst2.step s.inst1DataOutValid s.inst2PctSize i.pctHdr0 i.pctHdr1 s.inst1DataOut
  pctBuffWrdataReg := s.inst2.reg0
  smplBuffRdreqReg := s.inst2.pctWrreqInt && s.inst0.pctBuffWrDisSig

end Data2PacketsTop

/-! ## With the FIFOs -/

/-- What the surroundings decide in a clock: the header words, a sample word or none, and the fill
    level of the packet FIFO. -/
structure FormIn where
  pctHdr0 : Word64
  pctHdr1 : Word64
  smplWrreq : Bool
  smplData : Word64
  pctBuffWrusedw : Nat
deriving Repr, DecidableEq

abbrev smplBuffWords : Nat := 1024
abbrev pctBuffWords : Nat := 1024

/-- `data2packets_top` behind the sample FIFO. -/
structure RxFormer where
  core : Data2PacketsTop
  smplBuff : Fifo Word64
deriving Repr, DecidableEq

namespace RxFormer

def init : RxFormer := ⟨.init, .empty 0⟩

/-- What `data2packets_top` sees. -/
def pctIn (s : RxFormer) (i : FormIn) : PctIn where
  pctHdr0 := i.pctHdr0
  pctHdr1 := i.pctHdr1
  pctBuffWrusedw := i.pctBuffWrusedw
  smplBuffRdusedw := s.smplBuff.items.length
  smplBuffRddata := s.smplBuff.q

def step (sampleWidth : BitVec 2) (s : RxFormer) (i : FormIn) : RxFormer where
  core := s.core.step sampleWidth (s.pctIn i)
  smplBuff := s.smplBuff.step smplBuffWords false i.smplWrreq [i.smplData] s.core.smplBuffRdreq

def machine (sampleWidth : BitVec 2) : Machine RxFormer FormIn := ⟨init, step sampleWidth⟩

/-- The sample word read in a clock. -/
def consumed (s : RxFormer) (_ : FormIn) : List Word64 :=
  if s.core.smplBuffRdreq then s.smplBuff.items.head?.toList else []

/-- The packet word written in a clock. -/
def written (s : RxFormer) (_ : FormIn) : List Word64 :=
  validWord s.core.pctBuffWrreq s.core.pctBuffWrdataReg

end RxFormer

/-- What the surroundings decide with the packet FIFO in place: the host side takes `drained` words
    out of it in a clock. -/
structure RxIn where
  pctHdr0 : Word64
  pctHdr1 : Word64
  smplWrreq : Bool
  smplData : Word64
  drained : Nat
deriving Repr, DecidableEq

structure RxPackets where
  former : RxFormer
  pctBuff : List Word64
deriving Repr, DecidableEq

namespace RxPackets

def init : RxPackets := ⟨.init, []⟩

def formIn (s : RxPackets) (i : RxIn) : FormIn where
  pctHdr0 := i.pctHdr0
  pctHdr1 := i.pctHdr1
  smplWrreq := i.smplWrreq
  smplData := i.smplData
  pctBuffWrusedw := s.pctBuff.length

/-- A word that finds the packet FIFO full is lost. -/
def pushed (s : RxPackets) : List Word64 :=
  if s.former.core.pctBuffWrreq && s.pctBuff.length < pctBuffWords then
    [s.former.core.pctBuffWrdataReg] else []

def step (sampleWidth : BitVec 2) (s : RxPackets) (i : RxIn) : RxPackets where
  former := s.former.step sampleWidth (s.formIn i)
  pctBuff := s.pctBuff.drop i.drained ++ s.pushed

def machine (sampleWidth : BitVec 2) : Machine RxPackets RxIn := ⟨init, step sampleWidth⟩

end RxPackets

/-! ## The settings -/

/-- The settings of `sample_width` that the ports name: "10"-12bit, "01"-14bit, "00"-16bit. The fourth
    code can be written too. -/
inductive WidthSetting
  | w12
  | w14
  | w16
deriving Repr, DecidableEq

def WidthSetting.code : WidthSetting → BitVec 2
  | .w12 => 2
  | .w14 => 1
  | .w16 => 0

instance : Coe WidthSetting (BitVec 2) := ⟨WidthSetting.code⟩

theorem WidthSetting.exists_code {sampleWidth : BitVec 2} (h : sampleWidth ≠ 3) :
    ∃ wd : WidthSetting, wd.code = sampleWidth := by
  obtain rfl | rfl | rfl | rfl : sampleWidth = 0 ∨ sampleWidth = 1 ∨ sampleWidth = 2 ∨
    sampleWidth = 3 := by revert sampleWidth; decide
  · exact ⟨.w16, rfl⟩
  · exact ⟨.w14, rfl⟩
  · exact ⟨.w12, rfl⟩
  · exact absurd rfl h

/-- The settings with a packer behind them. -/
theorem WidthSetting.exists_packed {sampleWidth : BitVec 2} (h : sampleWidth = 0 ∨ sampleWidth = 2) :
    ∃ wd : WidthSetting, wd ≠ .w14 ∧ wd.code = sampleWidth := by
  rcases h with rfl | rfl
  · exact ⟨.w16, by decide, rfl⟩
  · exact ⟨.w12, by decide, rfl⟩

end Rx
