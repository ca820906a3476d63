import LimeSdrGw.Fw.Board
/-
# The command dispatcher of main.c

One definition per `case` of the `switch` on the command (main.c:385-1236), and `handle` for a packet
from reading it to answering it.

| here | there |
| --- | --- |
| `checkManyBlocks`  | `Check_many_blocks` (:80-87); `unlessManyBlocks` is `if(Check_many_blocks(..)) break;` |
| `controlTcxoDac`, `controlTcxoAdf` | `Control_TCXO_DAC`, `Control_TCXO_ADF` (:185-252) |
| `cmdLms7002Wr`, `cmdBrdspi16Wr`, `cmdLms7002Rd`, `cmdBrdspi16Rd` | :431-532, two pairs that differ in the slave |
| `cmdGwWr`          | :741-857; `gwBitstreamToFlash` is `case 1` |
| `cmdMemoryWr`, `cmdMemoryRd` | :929-998; `forEeprom` is the test of the target and of the mode |
| `cmdLmsMcuFwWr`    | :1001-1176; `mcuFirstPortion` is :1017-1063, `mcuWriteFifo` what follows (:1065) |
| `cmdGpioDirWr`, `cmdGpioWr`, `cmdGpioDirRd`, `cmdGpioRd` | :1178-1232 |

`block` counts up to `Data_blocks`, both a `uint8_t`. In `k < data_cnt - 1` the difference is an `int`,
so that no round is made for `data_cnt = 0`. `fuel` bounds the rounds of every loop on `MCU_retries`.
-/
namespace Fw

open Effect Proc

section Handlers

variable (b : Board) (p : Packet)

def checkManyBlocks (blockSize : Nat) : Bool := p.dataBlocks.toNat > dataFieldSize / blockSize

def unlessManyBlocks (blockSize : Nat) (c : Ctr Unit) : Ctr Unit :=
  if checkManyBlocks p blockSize then setStatus .blocksError else c

/-- `if(cmd_errors) Status = STATUS_ERROR_CMD; else Status = STATUS_COMPLETED_CMD;` -/
def answer : Ctr Unit :=
  Proc.modify fun m => { m with status := if m.cmdErrors ≠ 0 then .error else .completed }

def cmdGetInfo : Ctr Unit := do
  txSet 0 7
  txSet 1 15
  txSet 2 1
  txSet 3 3
  txSet 4 0
  setStatus .completed

/-- `LMS_RST_DEACTIVATE`, `LMS_RST_ACTIVATE`, `LMS_RST_PULSE`. -/
def lmsRst (mode : UInt8) : Ctr Unit :=
  if mode = 0 then gpio 0x07
  else if mode = 1 then gpio 0x06
  else if mode = 2 then do
    gpio 0x06
    gpio 0x07
  else addErrors 1

def cmdLmsRst : Ctr Unit := do
  lmsRst (← rxByte b 0)
  setStatus .completed

/-! ## SPI slaves -/

/-- Registers of 16 + 16 bits: `sbi(.., 7)` sets the write bit of the address. -/
def spiWrBlocks (dev : SpiDev) : Ctr Unit :=
  unlessManyBlocks p 4 do
    upTo p.dataBlocks.toNat fun block => do
      rxSet b (block * 4) (· ||| 0x80)
      spiWrite dev (← rxBytes b (block * 4) 4)
    setStatus .completed

def spiRdBlocks (dev : SpiDev) : Ctr Unit :=
  unlessManyBlocks p 4 do
    upTo p.dataBlocks.toNat fun block => do
      rxSet b (block * 2) (· &&& ~~~0x80)
      let r ← spiRead b dev (← rxBytes b (block * 2) 2)
      txSet (2 + block * 4) r.1
      txSet (3 + block * 4) r.2
    setStatus .completed

def cmdLms7002Wr : Ctr Unit := spiWrBlocks b p .lms7002m
def cmdLms7002Rd : Ctr Unit := spiRdBlocks b p .lms7002m
def cmdBrdspi16Wr : Ctr Unit := spiWrBlocks b p .fpga
def cmdBrdspi16Rd : Ctr Unit := spiRdBlocks b p .fpga

def controlTcxoDac (oe : Bool) (data : UInt8) : Ctr Unit :=
  if oe then spiWrite .dac [data >>> 2, data <<< 6] else spiWrite .dac [0xC0, 0x00]

/-- With `oe = 0` the charge pump goes to three-state, else `data` is sent. -/
def controlTcxoAdf (oe : Bool) (data : List UInt8) : Ctr Unit :=
  if oe then spiWrite .adf4002 data
  else do
    spiWrite .adf4002 [0x1f, 0x81, 0xf3]
    spiWrite .adf4002 [0x1f, 0x81, 0xf2]
    spiWrite .adf4002 [0x00, 0x01, 0xf4]
    spiWrite .adf4002 [0x01, 0x80, 0x01]

def cmdAdf4002Wr : Ctr Unit :=
  unlessManyBlocks p 3 do
    controlTcxoDac false 0
    upTo p.dataBlocks.toNat fun block => do
      controlTcxoAdf true (← rxBytes b (block * 3) 3)
    Proc.modify fun m =>
      { m with status := if m.cmdErrors ≠ 0 then .invalidPeriphId else .completed }

/-! ## Analog values -/

def lm75I2cAddr : UInt8 := 0x48
def eepromI2cAddr : UInt8 := 0x50
def si5351I2cAddr : UInt8 := 0x60

/-- `converted_val` from the two bytes of the temperature register. -/
def convertedVal (msb lsb : UInt8) : Int :=
  10 * msb.toInt8.toInt + if lsb &&& 0x80 ≠ 0 then 5 else 0

def analogAnswer (block : Nat) (unit : UInt8) (val : Int) : Ctr Unit := do
  txSet (block * 4) (← rxByte b block)
  txSet (1 + block * 4) unit
  txSet (2 + block * 4) (.ofNat (val / 256 % 256).toNat)
  txSet (3 + block * 4) (.ofNat (val % 256).toNat)

/-- The results of the first three I2C operations go to `spirez`, which nothing reads. -/
def readTemperature (block : Nat) : Ctr Unit := do
  let _ ← i2cStart b lm75I2cAddr false
  let _ ← i2cWrite b 0x00 true
  let _ ← i2cStart b lm75I2cAddr true
  let msb ← i2cRead b false
  let lsb ← i2cRead b true
  analogAnswer b block 0x50 (convertedVal msb lsb)

def analogRound (block : Nat) : Ctr Unit := do
  let ch ← rxByte b block
  if ch = 0 then do
    let m ← Proc.get
    analogAnswer b block 0x00 m.dacVal.toNat
  else if ch = 1 then readTemperature b block
  else addErrors 1

def cmdAnalogValRd : Ctr Unit := do
  upTo p.dataBlocks.toNat (analogRound b)
  setStatus .completed

/-- Channel 0, the DAC, takes raw units with an empty high byte. -/
def analogValWrRound (block : Nat) : Ctr Unit := do
  if (← rxByte b (block * 4)) = 0 then do
    if (← rxByte b (1 + block * 4)) = 0 then do
      if (← rxByte b (2 + block * 4)) = 0 then do
        controlTcxoAdf false []
        let v ← rxByte b (3 + block * 4)
        Proc.modify fun m => { m with dacVal := v }
        controlTcxoDac true v
      else addErrors 1
    else addErrors 1
  else addErrors 1

def cmdAnalogValWr : Ctr Unit :=
  unlessManyBlocks p 4 do
    upTo p.dataBlocks.toNat (analogValWrRound b)
    answer

/-! ## Gateware -/

/-- The packet as `GwState` takes it. -/
def Machine.gwPacket (m : Machine) : GwPacket := ⟨m.rx⟩

/-- The access of a `memcpy` to the page buffer. -/
def gwCopy (n : Machine → Nat) : Ctr Unit :=
  Proc.modify fun m => m.access (.copy m.gw.flashPageDataCnt (n m))

def gwFillPage : Ctr Unit := do
  let m ← Proc.get
  when (m.gw.flashPageDataCnt < flashPageSize)
    (gwCopy fun m => min (flashPageSize - m.gw.flashPageDataCnt) m.gwPacket.dataCnt)
  Proc.modify fun m => { m with gw := m.gw.fillPage m.gwPacket }

/-- The sector is erased before the first page of it. -/
def gwErase (flashPage : Nat) : Ctr UInt8 :=
  if flashPage % pagesPerSector = 0 then
    eraseSector b (flashLayoutFpgaBitstream + flashPage / pagesPerSector)
  else pure 0

/-- Writes a full page; whether the flash reported an error. -/
def gwWritePage : Ctr Bool := do
  let m ← Proc.get
  if m.gw.flashPageDataCnt ≥ flashPageSize then do
    let er ← gwErase b m.gw.flashPage
    let tr ← programPage b (flashLayoutFpgaBitstream * pagesPerSector + m.gw.flashPage)
    match (m.gw.writePage ⟨er, tr⟩).1 with
    | none => pure true
    | some gw => do
      Proc.modify fun m => { m with gw := gw }
      pure false
  else pure false

def gwKeepRest : Ctr Unit := do
  let m ← Proc.get
  when (m.gwPacket.dataCnt > m.gw.flashDataCounterToCopy) (gwCopy fun m => m.gwPacket.dataCnt)
  Proc.modify fun m => { m with gw := m.gw.keepRest m.gwPacket }

def gwCount : Ctr Unit :=
  Proc.modify fun m =>
    { m with
      gw := (m.gw.count m.gwPacket).1
      status := match (m.gw.count m.gwPacket).2 with
        | .completed => .completed
        | .error => .error }

def gwBitstreamToFlash : Ctr Unit := do
  Proc.modify fun m => { m with gw := m.gw.beginning m.gwPacket }
  gwFillPage
  if ← gwWritePage b then setStatus .error
  else do
    gwKeepRest
    gwCount

def cmdGwWr : Ctr Unit := do
  let head ← rxBytes b 0 6
  let mode := head.headD 0
  if mode = 0 then setStatus .error
  else if mode = 1 then gwBitstreamToFlash b
  else if mode = 2 then setStatus .error
  else setStatus .completed

/-! ## Clock generator and EEPROM -/

def cmdSi5351Wr : Ctr Unit :=
  unlessManyBlocks p 2 do
    upTo p.dataBlocks.toNat fun block => do
      countErrors (i2cStart b si5351I2cAddr false)
      countErrors (i2cWrite b (← rxByte b (block * 2)) false)
      countErrors (i2cWrite b (← rxByte b (block * 2 + 1)) true)
    answer

def cmdSi5351Rd : Ctr Unit :=
  unlessManyBlocks p 2 do
    upTo p.dataBlocks.toNat fun block => do
      countErrors (i2cStart b si5351I2cAddr false)
      countErrors (i2cWrite b (← rxByte b block) true)
      countErrors (i2cStart b si5351I2cAddr true)
      txSet (block * 2) (← rxByte b block)
      txSet (block * 2 + 1) (← i2cRead b true)
    answer

/-- Target 3 in `Data_field[10]`, `[11]` and mode 0 in `Data_field[0]`. -/
def forEeprom (c : UInt8 → Ctr Unit) : Ctr Unit := do
  let head ← rxBytes b 1 5
  if (← rxByte b 10) = 0 then do
    if (← rxByte b 11) = 3 then do
      if (← rxByte b 0) = 0 then c (head.getD 4 0)
      else setStatus .error
    else setStatus .error
  else setStatus .error

/-- `cmd_errors =` for the first operation, then `+=`. -/
def eepromAddress : Ctr Unit := do
  let e ← i2cStart b eepromI2cAddr false
  Proc.modify fun m => { m with cmdErrors := e }
  countErrors (i2cWrite b (← rxByte b 8) false)
  countErrors (i2cWrite b (← rxByte b 9) false)

def memoryWr (dataCnt : UInt8) : Ctr Unit := do
  eepromAddress b
  upTo (dataCnt.toNat - 1) fun k => do
    countErrors (i2cWrite b (← rxByte b (24 + k)) false)
  countErrors (i2cWrite b (← rxByte b (24 + (dataCnt.toNat - 1))) true)
  answer

def memoryRd (dataCnt : UInt8) : Ctr Unit := do
  eepromAddress b
  countErrors (i2cStart b eepromI2cAddr true)
  upTo (dataCnt.toNat - 1) fun k => do
    txSet (24 + k) (← i2cRead b false)
  txSet (24 + (dataCnt.toNat - 1)) (← i2cRead b true)
  answer

def cmdMemoryWr : Ctr Unit := forEeprom b (memoryWr b)

/-- `Data_field[0]` is tested twice (:970-972). -/
def cmdMemoryRd : Ctr Unit := do
  let head ← rxBytes b 1 5
  if (← rxByte b 10) = 0 then do
    if (← rxByte b 11) = 3 then do
      if (← rxByte b 0) = 0 then do
        if (← rxByte b 0) = 0 then memoryRd b (head.getD 4 0)
        else setStatus .error
      else setStatus .error
    else setStatus .error
  else setStatus .error

/-- The second test sees the byte of the first and never fails. -/
theorem cmdMemoryRd_eq :
    cmdMemoryRd b = forEeprom b fun dataCnt => rxByte b 0 >>= fun _ => memoryRd b dataCnt := by
  have hx : ∀ (c d : Ctr Unit) (m : Machine), (do if (← rxByte b 0) = 0 then c else d : Ctr Unit) m =
      (if m.rxAt b 0 = 0 then c else d) (m.access (.rx 0)) := fun _ _ _ => rfl
  unfold cmdMemoryRd forEeprom
  congr
  funext head
  congr
  funext v10
  split
  · congr
    funext v11
    split
    · funext m
      rw [hx, hx]
      by_cases h : m.rxAt b 0 = 0
      · rw [if_pos h, if_pos h, hx]
        exact congrFun (if_pos h) _
      · rw [if_neg h, if_neg h]
    · rfl
  · rfl

/-! ## The MCU of the transceiver -/

def maxMcuRetries : Nat := 30

/-- Write of `MCU_CONTROL_REG`. -/
def mcuControl (data : UInt8) : Ctr Unit := spiWrite .lms7002m [0x80, 0x02, 0x00, data]

def mcuCheckProgrammed (fuel : Nat) : Ctr Unit := do
  let retries ← mcuWait b fuel 0x40 maxMcuRetries
  when (retries.toNat = maxMcuRetries) (addErrors 1)

def mcuWriteFifo (fuel : Nat) (currentPortion : UInt8) : Ctr Unit := do
  let _ ← mcuWait b fuel 0x01 maxMcuRetries
  upTo 32 fun block => do
    spiWrite .lms7002m [0x80, 0x04, 0x00, ← rxByte b (2 + block)]
  let _ ← mcuWait b fuel 0x01 500
  when (currentPortion = 255) (mcuCheckProgrammed b fuel)
  Proc.modify fun m => { m with lastPortion := currentPortion.toNat }
  answer

/-- The first portion resets the MCU and sets the mode: EEPROM, SRAM, or to boot. -/
def mcuFirstPortion (fuel : Nat) (currentPortion : UInt8) : Ctr Unit := do
  mcuControl 0x00
  let progMode ← rxByte b 0
  if progMode = 1 then do
    mcuControl 0x01
    mcuWriteFifo b fuel currentPortion
  else if progMode = 2 then do
    mcuControl 0x02
    mcuWriteFifo b fuel currentPortion
  else if progMode = 3 then do
    mcuControl 0x03
    let _ ← spiRead b .lms7002m [0x00, 0x03]
    answer
  else mcuWriteFifo b fuel currentPortion

/-- `last_portion` is an `unsigned long`: `current_portion - 1` does not wrap here. -/
def cmdLmsMcuFwWr (fuel : Nat) : Ctr Unit := do
  let currentPortion ← rxByte b 1
  let m ← Proc.get
  if currentPortion ≠ 0 then do
    if m.lastPortion ≠ currentPortion.toNat - 1 then setStatus .wrongOrder
    else mcuWriteFifo b fuel currentPortion
  else mcuFirstPortion b fuel currentPortion

/-! ## GPIO -/

/-- A register of the FPGA is written with `Data_field[1]`, `Data_field[0]`. -/
def gpioWr (reg : UInt8) : Ctr Unit := do
  let msb ← rxByte b 1
  let lsb ← rxByte b 0
  spiWrite .fpga [0x80, reg, msb, lsb]
  setStatus .completed

def gpioRd (reg : UInt8) : Ctr Unit := do
  let r ← spiRead b .fpga [0x00, reg]
  txSet 0 r.2
  txSet 1 r.1
  setStatus .completed

def cmdGpioDirWr : Ctr Unit := gpioWr b 0xC4
def cmdGpioDirRd : Ctr Unit := gpioRd b 0xC4
def cmdGpioWr : Ctr Unit := gpioWr b 0xC6
def cmdGpioRd : Ctr Unit := gpioRd b 0xC2

end Handlers

/-! ## The dispatcher -/

inductive Command
  | getInfo | si5351Wr | si5351Rd | lmsRst | lms7002Wr | lms7002Rd | lmsMcuFwWr | adf4002Wr
  | gpioDirWr | gpioDirRd | gpioWr | gpioRd | gwWr | brdspi16Wr | brdspi16Rd | analogValWr
  | analogValRd | memoryWr | memoryRd
deriving DecidableEq, Repr

/-- `CMD_…` of LMS64C_protocol.h:55-110, as far as main.c handles them. -/
def Command.ofCode (c : UInt8) : Option Command :=
  [(0x00, .getInfo), (0x13, .si5351Wr), (0x14, .si5351Rd), (0x20, .lmsRst), (0x21, .lms7002Wr),
    (0x22, .lms7002Rd), (0x2C, .lmsMcuFwWr), (0x31, .adf4002Wr), (0x4F, .gpioDirWr),
    (0x50, .gpioDirRd), (0x51, .gpioWr), (0x52, .gpioRd), (0x53, .gwWr), (0x55, .brdspi16Wr),
    (0x56, .brdspi16Rd), (0x61, .analogValWr), (0x62, .analogValRd), (0x8C, .memoryWr),
    (0x8D, .memoryRd)].lookup c

def dispatch (b : Board) (fuel : Nat) (p : Packet) : Ctr Unit :=
  match Command.ofCode p.command with
  | some .getInfo => cmdGetInfo
  | some .lmsRst => cmdLmsRst b
  | some .lms7002Wr => cmdLms7002Wr b p
  | some .lms7002Rd => cmdLms7002Rd b p
  | some .brdspi16Wr => cmdBrdspi16Wr b p
  | some .brdspi16Rd => cmdBrdspi16Rd b p
  | some .adf4002Wr => cmdAdf4002Wr b p
  | some .analogValRd => cmdAnalogValRd b p
  | some .analogValWr => cmdAnalogValWr b p
  | some .gwWr => cmdGwWr b
  | some .si5351Wr => cmdSi5351Wr b p
  | some .si5351Rd => cmdSi5351Rd b p
  | some .memoryWr => cmdMemoryWr b
  | some .memoryRd => cmdMemoryRd b
  | some .lmsMcuFwWr => cmdLmsMcuFwWr b fuel
  | some .gpioDirWr => cmdGpioDirWr b
  | some .gpioDirRd => cmdGpioDirRd b
  | some .gpioWr => cmdGpioWr b
  | some .gpioRd => cmdGpioRd b
  | none => setStatus .unknown

/-- The packet is in `glEp0Buffer_Rx`, `glEp0Buffer_Tx` is cleared, `cmd_errors = 0`. -/
def Machine.receive (m : Machine) (p : Packet) : Machine :=
  { m with
    rx := p.dataField, header := p.toHeader, tx := .replicate dataFieldSize 0
    status := .busy, cmdErrors := 0
    accesses := [], ops := []
    nextNack := 0, nextI2cByte := 0, nextSpiBytes := 0, nextFlashStatus := 0, nextMcuStatus := 0 }

/-- One packet. The result is `none` when the answer is not sent within `fuel`. -/
def handle (b : Board) (fuel : Nat) (p : Packet) (m : Machine) : Option Unit × Machine :=
  dispatch b fuel p (m.receive p)

end Fw
