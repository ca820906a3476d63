import Mathlib.Algebra.GroupWithZero.Nat
/-
# Erasing sectors and programming pages of the SPI flash

What `spi_flash_lib.c` sends to the flash. The SPI core sends the lowest bit of a byte first and the
flash takes the highest first, hence `ReverseBitOrder`. Whether the flash gets ready is reported by the
status loops; their result is an input here.

| here | there |
| --- | --- |
| `reverseBitOrder`             | `ReverseBitOrder` (spi_flash_lib.c:16-23) |
| `Location`, `Location.of`     | `location[1..3]` (:52-54, :204-207) |
| `flashSpiTransfer`            | one page of `FlashSpiTransfer` with `isRead = CyFalse` (:31-131) |
| `flashSpiEraseSector`         | `FlashSpiEraseSector` (:184-234) |
| `flashPageSize`, `flashSectorSize`, `fpgaSize` | sodera_pcie_brd_v1r0.h:60-70 |
-/
namespace Fw

abbrev flashPageSize : Nat := 256
abbrev flashSectorSize : Nat := 65536
/-- `FLASH_SECTOR_SIZE/FLASH_PAGE_SIZE`. -/
abbrev pagesPerSector : Nat := 256
/-- Sector at which the FPGA bitstream starts. -/
abbrev flashLayoutFpgaBitstream : Nat := 0

def reverseBitOrder (data : UInt8) : UInt8 :=
  let rev := ((data >>> 1) &&& (0x55 : UInt8)) ||| ((data <<< 1) &&& (0xaa : UInt8))
  let rev := ((rev >>> 2) &&& (0x33 : UInt8)) ||| ((rev <<< 2) &&& (0xcc : UInt8))
  ((rev >>> 4) &&& (0x0f : UInt8)) ||| ((rev <<< 4) &&& (0xf0 : UInt8))

theorem reverseBitOrder_reverseBitOrder (data : UInt8) :
    reverseBitOrder (reverseBitOrder data) = data := by
  obtain ⟨b⟩ := data
  revert b
  decide

/-- The three address bytes of a command, as they are sent. -/
structure Location where
  ms : UInt8
  mid : UInt8
  ls : UInt8
deriving DecidableEq, Repr

namespace Location

def of (byteAddress : Nat) : Location where
  ms := reverseBitOrder (.ofNat (byteAddress / 65536 % 256))
  mid := reverseBitOrder (.ofNat (byteAddress / 256 % 256))
  ls := reverseBitOrder (.ofNat (byteAddress % 256))

/-- The address the flash receives. -/
def address (l : Location) : Nat :=
  (reverseBitOrder l.ms).toNat * 65536 + (reverseBitOrder l.mid).toNat * 256 +
    (reverseBitOrder l.ls).toNat

/-- It is the byte address, as far as 24 bits go. -/
theorem address_of (byteAddress : Nat) : (of byteAddress).address = byteAddress % 2 ^ 24 := by
  have h : ∀ k, (UInt8.ofNat (k % 256)).toNat = k % 256 := fun k => by
    rw [UInt8.toNat_ofNat']
    omega
  rw [address, of]
  simp only [reverseBitOrder_reverseBitOrder, h]
  omega

end Location

/-- A command the flash carries out. -/
inductive FlashOp
  | erase (location : Location)
  | program (location : Location) (buffer : Vector UInt8 flashPageSize)
deriving DecidableEq, Repr

/-- Number of the page a command writes. -/
def Location.page (l : Location) : Nat := l.address / flashPageSize
/-- Number of the sector a command erases. -/
def Location.sector (l : Location) : Nat := l.address / flashSectorSize

namespace FlashOp

def programmed : FlashOp → List (Nat × Vector UInt8 flashPageSize)
  | .erase _ => []
  | .program l buffer => [(l.page, buffer)]

def erased : FlashOp → List Nat
  | .erase l => [l.sector]
  | .program _ _ => []

end FlashOp

/-- The page is programmed unless `CyFxSpiWaitForStatus` gives up with `wait ≠ 0`. -/
def flashSpiTransfer (pageAddress : Nat) (buffer : Vector UInt8 flashPageSize) (wait : UInt8) :
    UInt8 × List FlashOp :=
  if wait = 0 then (0, [.program (.of (pageAddress * flashPageSize)) buffer]) else (wait, [])

/-- `sector` is a `uint8_t`; `poll` is the result of waiting for the end of the erase. -/
def flashSpiEraseSector (sector : Nat) (poll : UInt8) : UInt8 × List FlashOp :=
  (poll, [.erase (.of (sector % 256 * flashSectorSize))])

theorem page_of (k : Nat) : (Location.of (k * flashPageSize)).page = k % 65536 := by
  rw [Location.page, Location.address_of]
  simp only [flashPageSize]
  omega

theorem sector_of (k : Nat) : (Location.of (k % 256 * flashSectorSize)).sector = k % 256 := by
  rw [Location.sector, Location.address_of]
  simp only [flashSectorSize]
  omega

end Fw
