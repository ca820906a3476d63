import LimeSdrGw.Fw.SpiFlash
/-
# `CMD_ALTERA_FPGA_GW_WR`: writing a bitstream to the flash

The host sends the bitstream in portions of up to 32 bytes. The handler collects them in a page buffer,
erases a sector when it comes to the first page of it, programs every page that is full, and with the
closing packet (`data_cnt = 0`) the last, partly filled one.

| here | there |
| --- | --- |
| `GwState`              | the globals of main.c:61-69 |
| `GwPacket`             | `LMS_Ctrl_Packet_Rx->Data_field` and what main.c:719-722 takes from it |
| `gwWr`                 | the `switch` on the programming mode (:722-857) |
| `beginning`, `fillPage`, `writePage`, `keepRest`, `count` | the parts of `case 1` (:745-827) |
| `FlashStatus`          | what the status loops of the flash report during one packet |
| `memcpy`               | `memcpy(&flash_page_data[off], src, n)` |

`FPGA_SIZE` bounds the answer's status only. Every global is a `Nat`; none of them but `fpga_byte`
gets near its width.
-/
namespace Fw

abbrev fpgaSize : Nat := 2751361

inductive Status | completed | error
deriving DecidableEq, Repr

structure GwState where
  flashPage : Nat
  flashPageDataCnt : Nat
  flashDataCntFree : Nat
  flashDataCounterToCopy : Nat
  fpgaByte : Nat
  flashPageData : Vector UInt8 flashPageSize
deriving DecidableEq, Repr

/-- `Data_field` of a command packet. -/
structure GwPacket where
  dataField : Vector UInt8 56
deriving DecidableEq, Repr

namespace GwPacket

def progMode (p : GwPacket) : Nat := p.dataField[0].toNat

def currentPortion (p : GwPacket) : Nat :=
  2 ^ 24 * p.dataField[1].toNat + 2 ^ 16 * p.dataField[2].toNat + 2 ^ 8 * p.dataField[3].toNat +
    p.dataField[4].toNat

def dataCnt (p : GwPacket) : Nat := p.dataField[5].toNat

/-- `Data_field[24]` and what follows. -/
def source (p : GwPacket) : List UInt8 := p.dataField.toList.drop 24

/-- The portion of the bitstream that the packet carries. -/
def data (p : GwPacket) : List UInt8 := p.source.take p.dataCnt

end GwPacket

structure FlashStatus where
  erase : UInt8
  wait : UInt8

/-- Every flash operation reports success. -/
def FlashStatus.success : FlashStatus := ⟨0, 0⟩

def memcpy {m : Nat} (dst : Vector UInt8 m) (off : Nat) (src : List UInt8) (n : Nat) :
    Vector UInt8 m :=
  Vector.ofFn fun i => if off ≤ i ∧ i < off + n then src.getD (i - off) 0 else dst.get i

/-- `Bitream_size` and `Autoload` of `Board_Config_FPGA`, which lies over the page buffer. -/
def boardConfig (dst : Vector UInt8 flashPageSize) (bitreamSize : Nat) :
    Vector UInt8 flashPageSize :=
  memcpy dst 0 [.ofNat bitreamSize, .ofNat (bitreamSize / 2 ^ 8), .ofNat (bitreamSize / 2 ^ 16),
    .ofNat (bitreamSize / 2 ^ 24), 1] 5

namespace GwState

def beginning (s : GwState) (p : GwPacket) : GwState :=
  if p.currentPortion = 0 then
    { s with flashPage := 0, flashPageDataCnt := 0, flashDataCounterToCopy := 0, fpgaByte := 0 }
  else s

def fillPage (s : GwState) (p : GwPacket) : GwState :=
  let free := flashPageSize - s.flashPageDataCnt
  if free > 0 then
    let toCopy := if free > p.dataCnt then p.dataCnt else free
    let cnt := s.flashPageDataCnt + toCopy
    -- all bytes transmitted: finish the page
    let cnt' := if p.dataCnt = 0 ∧ cnt > 0 then flashPageSize else cnt
    { s with
      flashDataCounterToCopy := toCopy
      flashPageData := memcpy s.flashPageData s.flashPageDataCnt p.source toCopy
      flashPageDataCnt := cnt'
      flashDataCntFree := flashPageSize - cnt' }
  else { s with flashDataCntFree := free }

/-- The state is `none` when the flash reports an error. -/
def writePage (s : GwState) (st : FlashStatus) : Option GwState × List FlashOp :=
  if s.flashPageDataCnt ≥ flashPageSize then
    let er :=
      if s.flashPage % pagesPerSector = 0 then
        flashSpiEraseSector (flashLayoutFpgaBitstream + s.flashPage / pagesPerSector) st.erase
      else (0, [])
    let tr := flashSpiTransfer
      (flashLayoutFpgaBitstream * pagesPerSector + s.flashPage) s.flashPageData st.wait
    if er.1 + tr.1 ≠ 0 then (none, er.2 ++ tr.2)
    else
      (some { s with
        flashPage := s.flashPage + 1, flashPageDataCnt := 0, flashDataCntFree := flashPageSize },
        er.2 ++ tr.2)
  else (some s, [])

/-- What did not fit into the page goes to the beginning of the next one; the bytes are taken from
    the beginning of the packet's data. -/
def keepRest (s : GwState) (p : GwPacket) : GwState :=
  if p.dataCnt > s.flashDataCounterToCopy then
    let toCopy := p.dataCnt - s.flashDataCounterToCopy
    { s with
      flashDataCounterToCopy := toCopy
      flashPageData := memcpy s.flashPageData s.flashPageDataCnt p.source p.dataCnt
      flashPageDataCnt := s.flashPageDataCnt + toCopy
      flashDataCntFree := flashPageSize - (s.flashPageDataCnt + toCopy) }
  else s

def count (s : GwState) (p : GwPacket) : GwState × Status :=
  let s' := { s with fpgaByte := (s.fpgaByte + p.dataCnt) % 2 ^ 32 }
  if s'.fpgaByte ≤ fpgaSize then
    (if p.dataCnt = 0 then { s' with flashPageData := boardConfig s'.flashPageData s'.fpgaByte }
      else s', .completed)
  else (s', .error)

/-- One packet: the new state, the flash commands and the status of the answer. -/
def gwWr (s : GwState) (p : GwPacket) (st : FlashStatus) : GwState × List FlashOp × Status :=
  match p.progMode with
  | 1 =>
    let filled := (s.beginning p).fillPage p
    match filled.writePage st with
    | (none, ops) => (filled, ops, .error)
    | (some written, ops) => (((written.keepRest p).count p).1, ops, ((written.keepRest p).count p).2)
  | 0 | 2 => (s, [], .error)
  | _ => (s, [], .completed)

/-- The flash commands of a sequence of packets, no flash operation failing. -/
def gwRun (s : GwState) : List GwPacket → List FlashOp
  | [] => []
  | p :: ps => (s.gwWr p .success).2.1 ++ gwRun (s.gwWr p .success).1 ps

end GwState

end Fw
