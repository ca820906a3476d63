import LimeSdrGw.Effect.Proc
import LimeSdrGw.Fw.GwWrite
/-
# The control processor and what it is wired to

State, accesses and operations of the command handlers of main.c. What the devices answer while one
packet is handled is an input (`Board`); the answers of one kind are taken in order.

| here | there |
| --- | --- |
| `Packet`                 | `glEp0Buffer_Rx`, `tLMS_Ctrl_Packet` (LMS64C_protocol.h:137-148) |
| `Machine`                | the globals of main.c:57-76 and `glEp0Buffer_Tx` |
| `rxByte`, `rxSet`, `txSet` | `LMS_Ctrl_Packet_Rx->Data_field[i]`, `LMS_Ctrl_Packet_Tx->Data_field[i]` |
| `i2cStart`, `i2cWrite`, `i2cRead` | `I2C_start`, `I2C_write`, `I2C_read` (i2c_opencores.c:57-179) |
| `spiWrite`, `spiRead`    | `alt_avalon_spi_command`, which has no error result |
| `cyFxSpiWaitForStatus`, `erasePoll` | the status loops of spi_flash_lib.c:134-181 and :219-231 |
| `mcuWait`                | `while (MCU_retries < limit)` (main.c:1068-1082, :1130-1144, :1153-1168) |

An access outside its array is recorded like any other. What such a read gives is an input (`stray`),
such a write changes nothing else.
-/
namespace Fw

open Effect

/-- Length of `Data_field`. -/
abbrev dataFieldSize : Nat := 56

instance : NeZero dataFieldSize := ⟨Nat.succ_ne_zero 55⟩

/-- What the answer repeats of a packet's header. -/
structure Header where
  command : UInt8
  dataBlocks : UInt8
  periphId : UInt8
deriving DecidableEq, Repr

structure Packet extends Header where
  dataField : Vector UInt8 dataFieldSize
deriving DecidableEq, Repr

/-- `STATUS_…_CMD` of LMS64C_protocol.h:121-128, as far as main.c uses them. -/
inductive CmdStatus
  | completed | unknown | busy | blocksError | error | wrongOrder | invalidPeriphId
deriving DecidableEq, Repr

inductive SpiDev | lms7002m | fpga | dac | adf4002
deriving DecidableEq, Repr

/-- An operation of a device. -/
inductive Op
  | gpio (value : UInt8)
  | spi (dev : SpiDev) (write : List UInt8)
  | spiRead (dev : SpiDev) (write : List UInt8)
  | i2cStart (addr : UInt8) (read : Bool)
  | i2cWrite (data : UInt8) (last : Bool)
  | i2cRead (last : Bool)
  | eraseSector (sector : Nat)
  | programPage (page : Nat)
  /-- Waiting for a bit of `MCU_STATUS_REG`. -/
  | mcuWait (bit : UInt8)
deriving DecidableEq, Repr

/-- An access to one of the arrays. -/
inductive Access
  | rx (i : Nat)
  | tx (i : Nat)
  /-- `memcpy(&flash_page_data[off], &LMS_Ctrl_Packet_Rx->Data_field[24], n)`. -/
  | copy (off n : Nat)
deriving DecidableEq, Repr

def Access.InBounds : Access → Prop
  | .rx i => i < dataFieldSize
  | .tx i => i < dataFieldSize
  | .copy off n => off < flashPageSize ∧ off + n ≤ flashPageSize ∧ 24 + n ≤ dataFieldSize

instance : (a : Access) → Decidable a.InBounds
  | .rx i => inferInstanceAs (Decidable (i < dataFieldSize))
  | .tx i => inferInstanceAs (Decidable (i < dataFieldSize))
  | .copy off n => inferInstanceAs
    (Decidable (off < flashPageSize ∧ off + n ≤ flashPageSize ∧ 24 + n ≤ dataFieldSize))

/-- What the devices answer to one packet. -/
structure Board where
  /-- The slave does not acknowledge. -/
  nack : Nat → Bool
  i2cByte : Nat → UInt8
  spiBytes : Nat → UInt8 × UInt8
  flashStatus : Nat → UInt8
  mcuStatus : Nat → UInt8
  /-- What lies behind `LMS_Ctrl_Packet_Rx->Data_field`. -/
  stray : Nat → UInt8

/-- `Data_field[i]`, or what lies behind the field. -/
def byteAt (dataField : Vector UInt8 dataFieldSize) (b : Board) (i : Nat) : UInt8 :=
  if h : i < dataFieldSize then dataField[i] else b.stray (i - dataFieldSize)

theorem byteAt_set {f : Vector UInt8 dataFieldSize} {b : Board} {i j : Nat} {v : UInt8} :
    byteAt (f.setIfInBounds i v) b j = if i = j ∧ i < dataFieldSize then v else byteAt f b j := by
  rw [byteAt, byteAt]
  by_cases hj : j < dataFieldSize
  · rw [dif_pos hj, dif_pos hj, Vector.getElem_setIfInBounds]
    grind
  · rw [dif_neg hj, dif_neg hj, if_neg (by omega)]

structure Machine where
  rx : Vector UInt8 dataFieldSize
  header : Header
  tx : Vector UInt8 dataFieldSize
  status : CmdStatus
  cmdErrors : UInt8
  dacVal : UInt8
  lastPortion : Nat
  gw : GwState
  /-- Accesses so far, oldest first. -/
  accesses : List Access
  /-- Operations so far and whether they reported success. -/
  ops : List (Op × Bool)
  nextNack : Nat
  nextI2cByte : Nat
  nextSpiBytes : Nat
  nextFlashStatus : Nat
  nextMcuStatus : Nat

abbrev Ctr := Proc Machine

namespace Machine

def access (m : Machine) (a : Access) : Machine := { m with accesses := m.accesses ++ [a] }

def perform (m : Machine) (o : Op) (ok : Bool) : Machine := { m with ops := m.ops ++ [(o, ok)] }

def rxAt (m : Machine) (b : Board) (i : Nat) : UInt8 := byteAt m.rx b i

end Machine

/-! ## The arrays -/

section Devices

variable (b : Board)

def rxByte (i : Nat) : Ctr UInt8 := fun m => (some (m.rxAt b i), m.access (.rx i))

/-- The bytes from `&LMS_Ctrl_Packet_Rx->Data_field[i]` on. -/
def rxBytes (i : Nat) : Nat → Ctr (List UInt8)
  | 0 => pure []
  | n + 1 => do
    let v ← rxByte b i
    let vs ← rxBytes (i + 1) n
    pure (v :: vs)

/-- `f` is applied to `LMS_Ctrl_Packet_Rx->Data_field[i]`. -/
def rxSet (i : Nat) (f : UInt8 → UInt8) : Ctr Unit :=
  Proc.modify fun m => { m.access (.rx i) with rx := m.rx.setIfInBounds i (f (m.rxAt b i)) }

def txSet (i : Nat) (v : UInt8) : Ctr Unit :=
  Proc.modify fun m => { m.access (.tx i) with tx := m.tx.setIfInBounds i v }

def setStatus (s : CmdStatus) : Ctr Unit := Proc.modify fun m => { m with status := s }

/-- `cmd_errors += n`, a `uint8_t`. -/
def addErrors (n : UInt8) : Ctr Unit := Proc.modify fun m => { m with cmdErrors := m.cmdErrors + n }

/-- `cmd_errors += …` of an operation's result. -/
def countErrors (c : Ctr UInt8) : Ctr Unit := do
  addErrors (← c)

/-! ## I2C and SPI -/

/-- `I2C_NOACK = 1`, `I2C_ACK = 0`. -/
def i2c (o : Op) : Ctr UInt8 := fun m =>
  (some (if b.nack m.nextNack then 1 else 0),
    { m.perform o (!b.nack m.nextNack) with nextNack := m.nextNack + 1 })

def i2cStart (addr : UInt8) (read : Bool) : Ctr UInt8 := i2c b (.i2cStart addr read)

def i2cWrite (data : UInt8) (last : Bool) : Ctr UInt8 := i2c b (.i2cWrite data last)

def i2cRead (last : Bool) : Ctr UInt8 := fun m =>
  (some (b.i2cByte m.nextI2cByte),
    { m.perform (.i2cRead last) true with nextI2cByte := m.nextI2cByte + 1 })

def gpio (value : UInt8) : Ctr Unit := Proc.modify fun m => m.perform (.gpio value) true

def spiWrite (dev : SpiDev) (write : List UInt8) : Ctr Unit :=
  Proc.modify fun m => m.perform (.spi dev write) true

def spiRead (dev : SpiDev) (write : List UInt8) : Ctr (UInt8 × UInt8) := fun m =>
  (some (b.spiBytes m.nextSpiBytes),
    { m.perform (.spiRead dev write) true with nextSpiBytes := m.nextSpiBytes + 1 })

/-! ## Waiting for the flash and for the MCU -/

/-- `do … while` with a bound on the polls before the last: whether a poll was ready before the loop
    gave up, and the poll after the last. -/
def pollUntil (ready : UInt8 → Bool) (status : Nat → UInt8) : Nat → Nat → Bool × Nat
  | 0, pos => (false, pos + 1)
  | retries + 1, pos =>
    if ready (status pos) then (true, pos + 1) else pollUntil ready status retries (pos + 1)

def statusRetries : Nat := 10000
def statusRetriesErase : Nat := 3000000

/-- Ready and write enabled, the bits in the order they arrive. -/
def writeEnabled (s : UInt8) : Bool := s &&& 0x80 == 0 && s &&& 0x40 != 0

def cyFxSpiWaitForStatus (pos : Nat) : Bool × Nat :=
  pollUntil writeEnabled b.flashStatus statusRetries pos

def erasePoll (pos : Nat) : Bool × Nat :=
  pollUntil (· &&& 0x80 == 0) b.flashStatus statusRetriesErase pos

/-- `FlashSpiEraseSector`. -/
def eraseSector (sector : Nat) : Ctr UInt8 := fun m =>
  let r := erasePoll b m.nextFlashStatus
  (some (if r.1 then 0 else 1),
    { m.perform (.eraseSector sector) r.1 with nextFlashStatus := r.2 })

/-- `FlashSpiTransfer` of the page buffer. -/
def programPage (page : Nat) : Ctr UInt8 := fun m =>
  let r := cyFxSpiWaitForStatus b m.nextFlashStatus
  (some (if r.1 then 0 else 1),
    { m.perform (.programPage page) r.1 with nextFlashStatus := r.2 })

/-- The loop on `MCU_retries`, a `uint8_t`: its value when the loop ends, unless it goes on for more than
    `fuel` rounds, and the poll after the last. -/
def waitLoop (bit : UInt8) (limit : Nat) (status : Nat → UInt8) :
    Nat → UInt8 → Nat → Option UInt8 × Nat
  | 0, _, pos => (none, pos)
  | fuel + 1, retries, pos =>
    if retries.toNat < limit then
      if status pos &&& bit ≠ 0 then (some retries, pos + 1)
      else waitLoop bit limit status fuel (retries + 1) (pos + 1)
    else (some retries, pos)

def mcuWait (fuel : Nat) (bit : UInt8) (limit : Nat) : Ctr UInt8 := fun m =>
  match waitLoop bit limit b.mcuStatus fuel 0 m.nextMcuStatus with
  | (some retries, pos) =>
    (some retries,
      { m.perform (.mcuWait bit) (decide (retries.toNat < limit)) with nextMcuStatus := pos })
  | (none, pos) => (none, { m with nextMcuStatus := pos })

end Devices

/-! ## What each of them yields -/

section Yields

variable {b : Board} {m : Machine}

theorem yields_of_some {α : Type} {g : Machine → α} {f : Machine → Machine} {Q : α → Machine → Prop} :
    Proc.Yields (fun m => (some (g m), f m)) m Q ↔ Q (g m) (f m) := by
  constructor
  · rintro ⟨a, m', h, hq⟩
    cases h
    exact hq
  · exact fun hq => ⟨g m, f m, rfl, hq⟩

@[simp] theorem yields_rxByte {i : Nat} {Q : UInt8 → Machine → Prop} :
    Proc.Yields (rxByte b i) m Q ↔ Q (m.rxAt b i) (m.access (.rx i)) := yields_of_some

theorem yields_rxBytes {i n : Nat} {Q : List UInt8 → Machine → Prop} :
    Proc.Yields (rxBytes b i n) m Q ↔
      Q ((List.range' i n).map (m.rxAt b))
        { m with accesses := m.accesses ++ (List.range' i n).map .rx } := by
  induction n generalizing i m Q with
  | zero => simp [rxBytes]
  | succ n ih =>
    simp only [rxBytes, Proc.yields_bind, yields_rxByte, ih, Proc.yields_pure, List.range'_succ,
      List.map_cons, Machine.access, List.append_assoc, List.singleton_append]
    rfl

@[simp] theorem yields_rxSet {i : Nat} {f : UInt8 → UInt8} {Q : Unit → Machine → Prop} :
    Proc.Yields (rxSet b i f) m Q ↔
      Q () { m.access (.rx i) with rx := m.rx.setIfInBounds i (f (m.rxAt b i)) } :=
  Proc.yields_modify

@[simp] theorem yields_txSet {i : Nat} {v : UInt8} {Q : Unit → Machine → Prop} :
    Proc.Yields (txSet i v) m Q ↔
      Q () { m.access (.tx i) with tx := m.tx.setIfInBounds i v } :=
  Proc.yields_modify

@[simp] theorem yields_setStatus {s : CmdStatus} {Q : Unit → Machine → Prop} :
    Proc.Yields (setStatus s) m Q ↔ Q () { m with status := s } := Proc.yields_modify

@[simp] theorem yields_addErrors {n : UInt8} {Q : Unit → Machine → Prop} :
    Proc.Yields (addErrors n) m Q ↔ Q () { m with cmdErrors := m.cmdErrors + n } :=
  Proc.yields_modify

@[simp] theorem yields_i2c {o : Op} {Q : UInt8 → Machine → Prop} :
    Proc.Yields (i2c b o) m Q ↔ Q (if b.nack m.nextNack then 1 else 0)
      { m.perform o (!b.nack m.nextNack) with nextNack := m.nextNack + 1 } := yields_of_some

@[simp] theorem yields_i2cRead {last : Bool} {Q : UInt8 → Machine → Prop} :
    Proc.Yields (i2cRead b last) m Q ↔ Q (b.i2cByte m.nextI2cByte)
      { m.perform (.i2cRead last) true with nextI2cByte := m.nextI2cByte + 1 } := yields_of_some

@[simp] theorem yields_gpio {v : UInt8} {Q : Unit → Machine → Prop} :
    Proc.Yields (gpio v) m Q ↔ Q () (m.perform (.gpio v) true) := Proc.yields_modify

@[simp] theorem yields_spiWrite {dev : SpiDev} {w : List UInt8} {Q : Unit → Machine → Prop} :
    Proc.Yields (spiWrite dev w) m Q ↔ Q () (m.perform (.spi dev w) true) := Proc.yields_modify

@[simp] theorem yields_spiRead {dev : SpiDev} {w : List UInt8}
    {Q : UInt8 × UInt8 → Machine → Prop} :
    Proc.Yields (spiRead b dev w) m Q ↔ Q (b.spiBytes m.nextSpiBytes)
      { m.perform (.spiRead dev w) true with nextSpiBytes := m.nextSpiBytes + 1 } := yields_of_some

@[simp] theorem yields_eraseSector {sector : Nat} {Q : UInt8 → Machine → Prop} :
    Proc.Yields (eraseSector b sector) m Q ↔
      Q (if (erasePoll b m.nextFlashStatus).1 then 0 else 1)
        { m.perform (.eraseSector sector) (erasePoll b m.nextFlashStatus).1 with
          nextFlashStatus := (erasePoll b m.nextFlashStatus).2 } := yields_of_some

@[simp] theorem yields_programPage {page : Nat} {Q : UInt8 → Machine → Prop} :
    Proc.Yields (programPage b page) m Q ↔
      Q (if (cyFxSpiWaitForStatus b m.nextFlashStatus).1 then 0 else 1)
        { m.perform (.programPage page) (cyFxSpiWaitForStatus b m.nextFlashStatus).1 with
          nextFlashStatus := (cyFxSpiWaitForStatus b m.nextFlashStatus).2 } := yields_of_some

end Yields

end Fw
