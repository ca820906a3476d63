import LimeSdrGw.Fw.Bounds
/-
# When the status `completed` can be trusted

`requested` says what a packet asks the devices for, in terms of the packet and, for a portion of the
bitstream, of how full the page is; `Truthful` says that the answer `completed` means all of it was done
and nothing failed, and that anything failed makes the answer an error. Five commands can break it:
`CMD_LMS_RST` and `CMD_ALTERA_FPGA_GW_WR` complete modes they do not have, `CMD_ANALOG_VAL_RD` completes
whatever happens, `CMD_MEMORY_WR` loses its error count when it gets to 256, and `CMD_LMS_MCU_FW_WR` goes
on when the MCU does not get ready, or when it does not know the mode.
-/
namespace Fw

open Effect Proc

/-! ## What a packet asks for -/

/-- A byte of the packet, or what lies behind it. -/
def Packet.byte (p : Packet) (b : Board) (i : Nat) : UInt8 := byteAt p.dataField b i

section Requests

variable (d : Nat → UInt8) (n : Nat)

def registerWrite (dev : SpiDev) (k : Nat) : List Op :=
  [.spi dev [d (k * 4) ||| 0x80, d (k * 4 + 1), d (k * 4 + 2), d (k * 4 + 3)]]

def registerRead (dev : SpiDev) (k : Nat) : List Op :=
  [.spiRead dev [d (k * 2) &&& ~~~0x80, d (k * 2 + 1)]]

def adfWrite (k : Nat) : List Op := [.spi .adf4002 [d (k * 3), d (k * 3 + 1), d (k * 3 + 2)]]

def adfOff : List Op :=
  [.spi .adf4002 [0x1f, 0x81, 0xf3], .spi .adf4002 [0x1f, 0x81, 0xf2],
    .spi .adf4002 [0x00, 0x01, 0xf4], .spi .adf4002 [0x01, 0x80, 0x01]]

def temperature : List Op :=
  [.i2cStart lm75I2cAddr false, .i2cWrite 0x00 true, .i2cStart lm75I2cAddr true, .i2cRead false,
    .i2cRead true]

/-- Channel 0 is a value of the firmware, channel 1 the temperature. -/
def analogRead (k : Nat) : List Op := if d k = 1 then temperature else []

/-- The DAC takes the place of the ADF4002. -/
def dacWrite (k : Nat) : List Op :=
  adfOff ++ [.spi .dac [d (3 + k * 4) >>> 2, d (3 + k * 4) <<< 6]]

def si5351Write (k : Nat) : List Op :=
  [.i2cStart si5351I2cAddr false, .i2cWrite (d (k * 2)) false, .i2cWrite (d (k * 2 + 1)) true]

def si5351Read (k : Nat) : List Op :=
  [.i2cStart si5351I2cAddr false, .i2cWrite (d k) true, .i2cStart si5351I2cAddr true, .i2cRead true]

def eepromAt : List Op :=
  [.i2cStart eepromI2cAddr false, .i2cWrite (d 8) false, .i2cWrite (d 9) false]

/-- The bytes are sent in one transfer, which the last of them ends. -/
def eepromWrite : List Op :=
  eepromAt d ++ (List.range n).map fun k => .i2cWrite (d (24 + k)) (k + 1 == n)

def eepromRead : List Op :=
  eepromAt d ++ .i2cStart eepromI2cAddr true :: (List.range n).map fun k => .i2cRead (k + 1 == n)

def mcuBytes : List Op :=
  (List.range 32).map fun k => .spi .lms7002m [0x80, 0x04, 0x00, d (2 + k)]

/-- 32 bytes of the firmware, the MCU being ready before and after them. -/
def mcuPortion : List Op :=
  .mcuWait 0x01 :: mcuBytes d ++ [.mcuWait 0x01] ++ if d 1 = 255 then [.mcuWait 0x40] else []

def mcuStart (mode : UInt8) : List Op :=
  [.spi .lms7002m [0x80, 0x02, 0x00, 0x00], .spi .lms7002m [0x80, 0x02, 0x00, mode]]

def lmsRstOps (mode : UInt8) : Option (List Op) :=
  if mode = 0 then some [.gpio 0x07] else if mode = 1 then some [.gpio 0x06]
  else if mode = 2 then some [.gpio 0x06, .gpio 0x07] else none

end Requests

/-- The page is to be written, with its sector before the first page of it, when the portion fills it,
    when the upload ends within it, or when it is full already: then it has not been written yet. -/
def gwOps (s : GwState) (q : GwPacket) : List Op :=
  let page := if q.currentPortion = 0 then 0 else s.flashPage
  let cnt := if q.currentPortion = 0 then 0 else s.flashPageDataCnt
  if flashPageSize ≤ cnt + q.dataCnt ∨ q.dataCnt = 0 ∧ 0 < cnt then
    (if page % pagesPerSector = 0 then [.eraseSector (page / pagesPerSector)] else []) ++
      [.programPage page]
  else []

/-- What the packet asks for; `none` when it asks for something the board does not have. -/
def requested (b : Board) (p : Packet) (s : GwState) : Option (List Op) :=
  let d := p.byte b
  let n := p.dataBlocks.toNat
  match Command.ofCode p.command with
  | some .getInfo => some []
  | some .lmsRst => lmsRstOps (d 0)
  | some .lms7002Wr => some ((List.range n).flatMap (registerWrite d .lms7002m))
  | some .lms7002Rd => some ((List.range n).flatMap (registerRead d .lms7002m))
  | some .brdspi16Wr => some ((List.range n).flatMap (registerWrite d .fpga))
  | some .brdspi16Rd => some ((List.range n).flatMap (registerRead d .fpga))
  | some .adf4002Wr => some (.spi .dac [0xC0, 0x00] :: (List.range n).flatMap (adfWrite d))
  | some .analogValRd =>
    if ∀ k < n, d k = 0 ∨ d k = 1 then some ((List.range n).flatMap (analogRead d)) else none
  | some .analogValWr =>
    if ∀ k < n, d (k * 4) = 0 ∧ d (1 + k * 4) = 0 ∧ d (2 + k * 4) = 0 then
      some ((List.range n).flatMap (dacWrite d)) else none
  | some .gwWr => if d 0 = 1 then some (gwOps s ⟨p.dataField⟩) else none
  | some .si5351Wr => some ((List.range n).flatMap (si5351Write d))
  | some .si5351Rd => some ((List.range n).flatMap (si5351Read d))
  | some .memoryWr =>
    if d 10 = 0 ∧ d 11 = 3 ∧ d 0 = 0 then some (eepromWrite d (d 5).toNat) else none
  | some .memoryRd =>
    if d 10 = 0 ∧ d 11 = 3 ∧ d 0 = 0 then some (eepromRead d (d 5).toNat) else none
  | some .lmsMcuFwWr =>
    if d 1 ≠ 0 then some (mcuPortion d)
    else if d 0 = 1 ∨ d 0 = 2 then some (mcuStart (d 0) ++ mcuPortion d)
    else if d 0 = 3 then some (mcuStart 3 ++ [.spiRead .lms7002m [0x00, 0x03]]) else none
  | some .gpioDirWr => some [.spi .fpga [0x80, 0xC4, d 1, d 0]]
  | some .gpioDirRd => some [.spiRead .fpga [0x00, 0xC4]]
  | some .gpioWr => some [.spi .fpga [0x80, 0xC6, d 1, d 0]]
  | some .gpioRd => some [.spiRead .fpga [0x00, 0xC2]]
  | none => none

def Done (l : List (Op × Bool)) : Prop := ∀ o ∈ l, o.2 = true

/-- `completed` means that all that was asked for was done, and that nothing failed. -/
def Trusted (b : Board) (p : Packet) (s : GwState) (m' : Machine) : Prop :=
  m'.status = .completed →
    Done m'.ops ∧ ∃ ops, requested b p s = some ops ∧ ops.Sublist (m'.ops.map Prod.fst)

/-- The values that tell the host of an error. -/
def CmdStatus.IsError (c : CmdStatus) : Prop := c ≠ .completed ∧ c ≠ .busy

/-- The answer can be trusted, and what failed makes it an error. -/
structure Truthful (b : Board) (p : Packet) (s : GwState) (m' : Machine) : Prop where
  completed : Trusted b p s m'
  failed : ¬ Done m'.ops → m'.status.IsError

/-! ## What breaks it -/

/-- I2C operations without acknowledge, of the first `n`. -/
def nacks (b : Board) (n : Nat) : Nat := (List.range n).countP b.nack

/-- `bit` is first seen in poll `k`, from poll `pos` on. -/
def Board.SeenAt (b : Board) (bit : UInt8) (pos k : Nat) : Prop :=
  pos ≤ k ∧ b.mcuStatus k &&& bit ≠ 0 ∧ ∀ j, pos ≤ j → j < k → b.mcuStatus j &&& bit = 0

/-- The portion is in order and is not the command to boot; the MCU gets ready in poll `k` at last,
    after 30 polls in which it was not or after a start in a mode that does not exist; and a last
    portion is found programmed. -/
def McuMisled (b : Board) (d : Nat → UInt8) (lastPortion : Nat) : Prop :=
  (d 1 = 0 ∧ d 0 ≠ 3 ∨ d 1 ≠ 0 ∧ lastPortion = (d 1).toNat - 1) ∧
  ∃ k, ((∀ j < 30, b.mcuStatus j &&& 0x01 = 0) ∧ b.SeenAt 0x01 30 k ∨
      (d 1 = 0 ∧ d 0 ≠ 1 ∧ d 0 ≠ 2) ∧ ∃ i < 30, b.SeenAt 0x01 0 i ∧ b.SeenAt 0x01 (i + 1) k) ∧
    (d 1 = 255 → ∃ j < 30, b.mcuStatus (k + 1 + j) &&& 0x40 ≠ 0)

/-- The answer is `completed` and should not be. -/
def Misled (b : Board) (p : Packet) (lastPortion : Nat) : Prop :=
  let d := p.byte b
  let n := p.dataBlocks.toNat
  match Command.ofCode p.command with
  | some .lmsRst => 2 < (d 0).toNat
  | some .gwWr => 2 < (d 0).toNat
  | some .analogValRd =>
    (∃ k < n, d k ≠ 0 ∧ d k ≠ 1) ∨ nacks b (3 * (List.range n).countP fun k => d k == 1) ≠ 0
  | some .memoryWr =>
    (d 10 = 0 ∧ d 11 = 3 ∧ d 0 = 0) ∧ nacks b (3 + max 1 (d 5).toNat) = 256
  | some .lmsMcuFwWr => McuMisled b d lastPortion
  | _ => False

/-! ## Commands without an error result -/

section

variable {b : Board} {p : Packet} {m : Machine} {s : GwState}

@[simp] theorem done_nil : Done [] := fun _ h => nomatch h

@[simp] theorem done_append {l₁ l₂ : List (Op × Bool)} : Done (l₁ ++ l₂) ↔ Done l₁ ∧ Done l₂ := by
  simp only [Done, List.mem_append]
  constructor
  · intro h
    exact ⟨fun o ho => h o (Or.inl ho), fun o ho => h o (Or.inr ho)⟩
  · rintro ⟨h₁, h₂⟩ o (ho | ho)
    · exact h₁ o ho
    · exact h₂ o ho

@[simp] theorem done_cons {o : Op × Bool} {l : List (Op × Bool)} :
    Done (o :: l) ↔ o.2 = true ∧ Done l := by simp [Done]

@[simp] theorem done_map {l : List Op} : Done (l.map (·, true)) := by
  simp only [Done, List.mem_map]
  rintro _ ⟨o, -, rfl⟩
  rfl

theorem sublist_of_eq {l l' : List Op} (h : l = l') : l.Sublist l' := by
  subst h
  exact .refl l

theorem Trusted.of_status {m' : Machine} (h : m'.status ≠ .completed) : Trusted b p s m' :=
  fun hc => absurd hc h

theorem Trusted.of_ops {m' : Machine} {ops : List Op} (hr : requested b p s = some ops)
    (h : m'.ops = ops.map (·, true)) : Trusted b p s m' := by
  intro _
  rw [h]
  refine ⟨done_map, ops, hr, sublist_of_eq ?_⟩
  rw [List.map_map]
  exact (List.map_id _).symm

theorem rxAt_congr {m' : Machine} (h : m'.rx = m.rx) : m'.rxAt b = m.rxAt b := by
  ext i
  rw [Machine.rxAt, Machine.rxAt, h]

/-- `ops` have been carried out, since `m`, and none of them can fail. -/
def Carried (ops : List Op) (m m' : Machine) : Prop := m'.ops = m.ops ++ ops.map (·, true)

theorem spiWrBlocks_ops {dev : SpiDev} (hn : ¬ checkManyBlocks p 4 = true) :
    Yields (spiWrBlocks b p dev) m fun _ m' =>
      Carried ((List.range p.dataBlocks.toNat).flatMap (registerWrite (m.rxAt b) dev)) m m' := by
  have hn' := blocks_le (by decide) hn
  rw [spiWrBlocks, unlessManyBlocks, if_neg hn, yields_bind]
  refine (Yields.upTo_append Machine.ops
    (fun k => (registerWrite (m.rxAt b) dev k).map (·, true))
    (fun k m' => ∀ j, k * 4 ≤ j → byteAt m'.rx b j = m.rxAt b j) (fun j _ => rfl) ?_).mono ?_
  · intro k hk m' h
    simp only [yields_bind, yields_rxSet, yields_rxBytes, yields_spiWrite, Machine.access,
      Machine.perform, Machine.rxAt]
    refine ⟨?_, ?_⟩
    · have hk' : k * 4 < 56 := by omega
      have hr : List.range' (k * 4) 4 = [k * 4, k * 4 + 1, k * 4 + 2, k * 4 + 3] := rfl
      simp [registerWrite, hr, byteAt_set, hk', h, Machine.rxAt]
    · intro j hj
      rw [byteAt_set, if_neg (by omega)]
      exact h j (by omega)
  · rintro _ m' ⟨h, -⟩
    rw [yields_setStatus, Carried, List.map_flatMap]
    exact h

theorem spiRdBlocks_ops {dev : SpiDev} (hn : ¬ checkManyBlocks p 4 = true) :
    Yields (spiRdBlocks b p dev) m fun _ m' =>
      Carried ((List.range p.dataBlocks.toNat).flatMap (registerRead (m.rxAt b) dev)) m m' := by
  have hn' := blocks_le (by decide) hn
  rw [spiRdBlocks, unlessManyBlocks, if_neg hn, yields_bind]
  refine (Yields.upTo_append Machine.ops
    (fun k => (registerRead (m.rxAt b) dev k).map (·, true))
    (fun k m' => ∀ j, k * 2 ≤ j → byteAt m'.rx b j = m.rxAt b j) (fun j _ => rfl) ?_).mono ?_
  · intro k hk m' h
    simp only [yields_bind, yields_rxSet, yields_rxBytes, yields_spiRead, yields_txSet,
      Machine.access, Machine.perform, Machine.rxAt]
    refine ⟨?_, ?_⟩
    · have hk' : k * 2 < 56 := by omega
      have hr : List.range' (k * 2) 2 = [k * 2, k * 2 + 1] := rfl
      simp [registerRead, hr, byteAt_set, hk', h, Machine.rxAt]
    · intro j hj
      rw [byteAt_set, if_neg (by omega)]
      exact h j (by omega)
  · rintro _ m' ⟨h, -⟩
    rw [yields_setStatus, Carried, List.map_flatMap]
    exact h

theorem cmdAdf4002Wr_ops (hn : ¬ checkManyBlocks p 3 = true) :
    Yields (cmdAdf4002Wr b p) m fun _ m' =>
      Carried (.spi .dac [0xC0, 0x00] ::
        (List.range p.dataBlocks.toNat).flatMap (adfWrite (m.rxAt b))) m m' := by
  simp only [cmdAdf4002Wr, unlessManyBlocks, if_neg hn, yields_bind, controlTcxoDac,
    Bool.false_eq_true, if_false, yields_spiWrite]
  refine (Yields.upTo_append Machine.ops (fun k => (adfWrite (m.rxAt b) k).map (·, true))
    (fun _ m' => m'.rx = m.rx) (by rfl) ?_).mono ?_
  · intro k hk m' h
    simp only [yields_bind, controlTcxoAdf, if_true, yields_rxBytes, yields_spiWrite,
      Machine.perform, rxAt_congr h]
    exact ⟨rfl, h⟩
  · rintro _ m' ⟨h, -⟩
    rw [yields_modify, Carried, List.map_cons, List.map_flatMap]
    simpa [Machine.perform] using h

theorem gpioWr_ops {reg : UInt8} : Yields (gpioWr b reg) m fun _ m' =>
    Carried [.spi .fpga [0x80, reg, m.rxAt b 1, m.rxAt b 0]] m m' := by
  simp only [gpioWr, yields_bind, yields_rxByte, yields_spiWrite, yields_setStatus]
  rfl

theorem gpioRd_ops {reg : UInt8} : Yields (gpioRd b reg) m fun _ m' =>
    Carried [.spiRead .fpga [0x00, reg]] m m' := by
  simp only [gpioRd, yields_bind, yields_txSet, yields_spiRead, yields_setStatus]
  rfl

theorem cmdLmsRst_ops :
    Yields (cmdLmsRst b) m fun _ m' => m'.status = .completed ∧
      m'.ops = m.ops ++ ((lmsRstOps (m.rxAt b 0)).getD []).map (·, true) := by
  simp only [cmdLmsRst, lmsRst, lmsRstOps, yields_bind, yields_rxByte, yields_ite, yields_gpio,
    yields_addErrors, yields_setStatus, Machine.access, Machine.perform]
  split
  · simp
  · split
    · simp
    · split <;> simp

theorem two_lt_iff {v : UInt8} : 2 < v.toNat ↔ v ≠ 0 ∧ v ≠ 1 ∧ v ≠ 2 := by
  obtain ⟨v⟩ := v
  revert v
  decide

theorem lmsRstOps_none {mode : UInt8} (h : 2 < mode.toNat) : lmsRstOps mode = none := by
  obtain ⟨h0, h1, h2⟩ := two_lt_iff.1 h
  rw [lmsRstOps, if_neg h0, if_neg h1, if_neg h2]

theorem lmsRstOps_some {mode : UInt8} (h : ¬ 2 < mode.toNat) : ∃ ops, lmsRstOps mode = some ops := by
  rw [two_lt_iff] at h
  rw [lmsRstOps]
  split
  · exact ⟨_, rfl⟩
  · split
    · exact ⟨_, rfl⟩
    · split
      · exact ⟨_, rfl⟩
      · exact absurd ⟨‹_›, ‹_›, ‹_›⟩ h

/-- A block that the DAC takes: raw units, high byte 0, channel 0. -/
def DacBlock (d : Nat → UInt8) (k : Nat) : Prop :=
  d (k * 4) = 0 ∧ d (1 + k * 4) = 0 ∧ d (2 + k * 4) = 0

/-- The DAC is set, or an error is counted. -/
theorem analogValWrRound_ops {k n : Nat} {m' : Machine} (hn : m'.cmdErrors.toNat ≤ n) (h255 : n < 255)
    (hr : m'.rx = m.rx) :
    Yields (analogValWrRound b k) m' fun _ m'' => m''.rx = m.rx ∧ m''.cmdErrors.toNat ≤ n + 1 ∧
      (m''.cmdErrors = 0 ↔ m'.cmdErrors = 0 ∧ DacBlock (m.rxAt b) k) ∧
      (DacBlock (m.rxAt b) k → m''.ops = m'.ops ++ (dacWrite (m.rxAt b) k).map (·, true)) := by
  have h1 : (m'.cmdErrors + 1).toNat = m'.cmdErrors.toNat + 1 := by
    rw [UInt8.toNat_add]
    have : (1 : UInt8).toNat = 1 := rfl
    omega
  have h0 : m'.cmdErrors + 1 ≠ 0 := fun h => by
    rw [h] at h1
    exact nomatch h1
  simp only [analogValWrRound, controlTcxoAdf, controlTcxoDac, yields_bind, yields_rxByte,
    yields_ite, yields_addErrors, yields_spiWrite, yields_modify, Machine.access,
    Machine.perform, DacBlock, Machine.rxAt, hr]
  by_cases ha : byteAt m.rx b (k * 4) = 0
  · by_cases hb : byteAt m.rx b (1 + k * 4) = 0
    · by_cases hc : byteAt m.rx b (2 + k * 4) = 0
      · simp [ha, hb, hc, dacWrite, adfOff, Machine.rxAt]
        omega
      · simp [ha, hb, hc, h0, h1]
        omega
    · simp [ha, hb, h0, h1]
      omega
  · simp [ha, h0, h1]
    omega

theorem cmdAnalogValWr_ops (hn : ¬ checkManyBlocks p 4 = true) (h0 : m.cmdErrors = 0) :
    Yields (cmdAnalogValWr b p) m fun _ m' => m'.status = .completed →
      (∀ k < p.dataBlocks.toNat, DacBlock (m.rxAt b) k) ∧
      Carried ((List.range p.dataBlocks.toNat).flatMap (dacWrite (m.rxAt b))) m m' := by
  have hn' := blocks_le (by decide) hn
  rw [cmdAnalogValWr, unlessManyBlocks, if_neg hn, yields_bind]
  refine (Yields.upTo (fun k m' => m'.rx = m.rx ∧ m'.cmdErrors.toNat ≤ k ∧
    (m'.cmdErrors = 0 → (∀ j < k, DacBlock (m.rxAt b) j) ∧
      Carried ((List.range k).flatMap (dacWrite (m.rxAt b))) m m'))
    ⟨rfl, by rw [h0]; exact Nat.le_refl _, fun _ => ⟨by simp, by simp [Carried]⟩⟩ ?_).mono ?_
  · rintro k hk m' ⟨hr, hle, hz⟩
    refine (analogValWrRound_ops hle (by omega) hr).mono ?_
    rintro _ m'' ⟨hr', hle', hz', ho⟩
    refine ⟨hr', hle', fun h => ?_⟩
    obtain ⟨hk0, hb⟩ := hz'.1 h
    obtain ⟨hall, hc⟩ := hz hk0
    constructor
    · intro j hj
      rcases Nat.lt_succ_iff_lt_or_eq.1 hj with hj | rfl
      · exact hall j hj
      · exact hb
    · rw [Carried] at hc ⊢
      rw [ho hb, hc, List.range_succ, List.flatMap_append, List.map_append, List.append_assoc]
      simp
  · rintro _ m' ⟨-, -, hz⟩
    rw [answer, yields_modify]
    intro hs
    refine hz ?_
    simpa using hs

/-! ## I2C -/

theorem nacks_succ (n : Nat) : nacks b (n + 1) = nacks b n + if b.nack n then 1 else 0 := by
  rw [nacks, nacks, List.range_succ, List.countP_append, List.countP_singleton]

theorem nacks_le (n : Nat) : nacks b n ≤ n := by
  have h := List.countP_le_length (p := b.nack) (l := List.range n)
  rw [List.length_range] at h
  exact h

/-- Every missing acknowledge of the first `n` operations is in the log, and nothing else failed. -/
def Logged (b : Board) (l : List (Op × Bool)) (n : Nat) : Prop := Done l ↔ nacks b n = 0

/-- It has been counted, as far as a `uint8_t` counts. -/
def Counted (b : Board) (n : Nat) (e : UInt8) : Prop := e = UInt8.ofNat (nacks b n)

section Logged

variable {l : List (Op × Bool)} {n : Nat} {e : UInt8} {o : Op}

theorem Logged.step (h : Logged b l n) : Logged b (l ++ [(o, !b.nack n)]) (n + 1) := by
  rw [Logged, nacks_succ, done_append, done_cons]
  rw [Logged] at h
  rw [h]
  cases b.nack n <;> simp

theorem Logged.other (h : Logged b l n) : Logged b (l ++ [(o, true)]) n := by
  rw [Logged, done_append, done_cons]
  rw [Logged] at h
  simp [h]

theorem Counted.step (h : Counted b n e) :
    Counted b (n + 1) (e + if b.nack n then 1 else 0) := by
  rw [Counted, nacks_succ, UInt8.ofNat_add, ← h]
  cases b.nack n <;> rfl

/-- As long as there are less than 256 of them, the count is 0 only when there are none. -/
theorem Counted.eq_zero_iff (h : Counted b n e) : e = 0 ↔ nacks b n % 256 = 0 := by
  rw [h, ← UInt8.toNat_inj, UInt8.toNat_ofNat']
  rfl

end Logged

/-- The operations so far, with whatever result. -/
def Machine.asked (m : Machine) : List Op := m.ops.map Prod.fst

/-- Nothing has been asked yet. -/
structure Fresh (m : Machine) : Prop where
  ops : m.ops = []
  nextNack : m.nextNack = 0
  cmdErrors : m.cmdErrors = 0
  nextMcuStatus : m.nextMcuStatus = 0
  nextFlashStatus : m.nextFlashStatus = 0

theorem Fresh.logged (h : Fresh m) : Logged b m.ops m.nextNack := by
  rw [h.ops, h.nextNack]
  simp [Logged, nacks]

theorem Fresh.counted (h : Fresh m) : Counted b m.nextNack m.cmdErrors := by
  rw [h.nextNack, h.cmdErrors]
  rfl

/-- All of `ops` has been asked, and `completed` means that all of it was acknowledged. -/
def Acknowledged (ops : List Op) (m' : Machine) : Prop :=
  m'.asked = ops ∧ (m'.status = .completed → Done m'.ops)

theorem completed_iff {e : UInt8} :
    (if e ≠ 0 then CmdStatus.error else .completed) = .completed ↔ e = 0 := by
  split <;> simp_all

theorem acknowledged_answer {m' : Machine} {ops : List Op} (ha : m'.asked = ops)
    (hl : Logged b m'.ops m'.nextNack) (hc : Counted b m'.nextNack m'.cmdErrors)
    (hn : m'.nextNack < 256) : Yields answer m' fun _ => Acknowledged ops := by
  rw [answer, yields_modify]
  refine ⟨ha, fun hs => hl.2 ?_⟩
  have h := hc.eq_zero_iff.1 (completed_iff.1 hs)
  have hle := nacks_le (b := b) m'.nextNack
  omega

theorem cmdSi5351Wr_ops (hn : ¬ checkManyBlocks p 2 = true) (hf : Fresh m) :
    Yields (cmdSi5351Wr b p) m fun _ =>
      Acknowledged ((List.range p.dataBlocks.toNat).flatMap (si5351Write (m.rxAt b))) := by
  have hn' := blocks_le (by decide) hn
  rw [cmdSi5351Wr, unlessManyBlocks, if_neg hn, yields_bind]
  refine (Yields.upTo_append Machine.asked (si5351Write (m.rxAt b))
    (fun k m' => m'.rx = m.rx ∧ m'.nextNack = 3 * k ∧ Logged b m'.ops m'.nextNack ∧
      Counted b m'.nextNack m'.cmdErrors) ⟨rfl, hf.nextNack, hf.logged, hf.counted⟩ ?_).mono ?_
  · rintro k hk m' ⟨hr, hk', hl, hc⟩
    simp only [countErrors, i2cStart, i2cWrite, yields_bind, yields_i2c, yields_addErrors,
      yields_rxByte, Machine.access, Machine.perform, Machine.rxAt, hr]
    refine ⟨by simp [Machine.asked, si5351Write, Machine.rxAt], trivial, by omega, ?_, ?_⟩
    · exact hl.step.step.step
    · exact hc.step.step.step
  · rintro _ m' ⟨ha, -, hk, hl, hc⟩
    rw [Machine.asked, Machine.asked, hf.ops] at ha
    exact acknowledged_answer ha hl hc (by omega)

theorem cmdSi5351Rd_ops (hn : ¬ checkManyBlocks p 2 = true) (hf : Fresh m) :
    Yields (cmdSi5351Rd b p) m fun _ =>
      Acknowledged ((List.range p.dataBlocks.toNat).flatMap (si5351Read (m.rxAt b))) := by
  have hn' := blocks_le (by decide) hn
  rw [cmdSi5351Rd, unlessManyBlocks, if_neg hn, yields_bind]
  refine (Yields.upTo_append Machine.asked (si5351Read (m.rxAt b))
    (fun k m' => m'.rx = m.rx ∧ m'.nextNack = 3 * k ∧ Logged b m'.ops m'.nextNack ∧
      Counted b m'.nextNack m'.cmdErrors) ⟨rfl, hf.nextNack, hf.logged, hf.counted⟩ ?_).mono ?_
  · rintro k hk m' ⟨hr, hk', hl, hc⟩
    simp only [countErrors, i2cStart, i2cWrite, yields_bind, yields_i2c, yields_addErrors,
      yields_i2cRead, yields_txSet, yields_rxByte, Machine.access, Machine.perform, Machine.rxAt,
      hr]
    refine ⟨by simp [Machine.asked, si5351Read, Machine.rxAt], trivial, by omega, ?_, ?_⟩
    · exact hl.step.step.step.other
    · exact hc.step.step.step
  · rintro _ m' ⟨ha, -, hk, hl, hc⟩
    rw [Machine.asked, Machine.asked, hf.ops] at ha
    exact acknowledged_answer ha hl hc (by omega)

/-- The data bytes, of which the last ends the transfer. -/
theorem range_last {α : Type} (f : Nat → Bool → α) (n : Nat) :
    ((List.range n).map fun k => f k (k + 1 == n)).Sublist
      ((List.range (n - 1)).map (f · false) ++ [f (n - 1) true]) := by
  cases n with
  | zero => simp
  | succ n =>
    have h : (List.range n).map (fun k => f k (k + 1 == n + 1)) = (List.range n).map (f · false) := by
      refine List.map_congr_left fun k hk => ?_
      have hk' := List.mem_range.1 hk
      have : (k + 1 == n + 1) = false := by simp; omega
      rw [this]
    rw [List.range_succ, List.map_append, h]
    simp

theorem eepromAddress_ops (hf : Fresh m) :
    Yields (eepromAddress b) m fun _ m' => m'.asked = eepromAt (m.rxAt b) ∧ m'.rx = m.rx ∧
      m'.nextNack = 3 ∧ Logged b m'.ops 3 ∧ Counted b 3 m'.cmdErrors := by
  have hl := hf.logged (b := b)
  have hc : Counted b 1 (if b.nack 0 then 1 else 0) := by
    have h : Counted b 0 0 := rfl
    simpa using h.step
  rw [hf.ops, hf.nextNack] at hl
  simp only [eepromAddress, countErrors, i2cStart, i2cWrite, yields_bind, yields_i2c,
    yields_modify, yields_rxByte, yields_addErrors, Machine.access, Machine.perform,
    Machine.rxAt, hf.ops, hf.nextNack]
  exact ⟨rfl, trivial, trivial, hl.step.step.step, hc.step.step⟩

theorem memoryWr_ops (v : UInt8) (hf : Fresh m) :
    Yields (memoryWr b v) m fun _ m' =>
      (eepromWrite (m.rxAt b) v.toNat).Sublist m'.asked ∧
      (Done m'.ops ↔ nacks b (3 + max 1 v.toNat) = 0) ∧
      (m'.status = .completed ↔ nacks b (3 + max 1 v.toNat) % 256 = 0) := by
  rw [memoryWr, yields_bind]
  refine (eepromAddress_ops hf).mono ?_
  rintro _ m₁ ⟨ha₁, hr₁, hn₁, hl₁, hc₁⟩
  rw [yields_bind]
  refine (Yields.upTo_append Machine.asked (fun k => [.i2cWrite (m.rxAt b (24 + k)) false])
    (fun k m' => m'.rx = m.rx ∧ m'.nextNack = 3 + k ∧ Logged b m'.ops m'.nextNack ∧
      Counted b m'.nextNack m'.cmdErrors) ⟨hr₁, hn₁, hn₁ ▸ hl₁, hn₁ ▸ hc₁⟩ ?_).mono ?_
  · rintro k hk m' ⟨hr, hk', hl, hc⟩
    simp only [countErrors, i2cWrite, yields_bind, yields_i2c, yields_addErrors, yields_rxByte,
      Machine.access, Machine.perform, Machine.rxAt, hr]
    exact ⟨by simp [Machine.asked], trivial, by omega, hl.step, hc.step⟩
  · rintro _ m' ⟨ha, hr, hk, hl, hc⟩
    have hN : m'.nextNack + 1 = 3 + max 1 v.toNat := by omega
    simp only [countErrors, i2cWrite, yields_bind, yields_i2c, yields_addErrors, yields_rxByte,
      answer, yields_modify, Machine.access, Machine.perform]
    refine ⟨?_, ?_, ?_⟩
    · have hs := range_last (fun k last => Op.i2cWrite (m.rxAt b (24 + k)) last) v.toNat
      have ha' : m'.asked = eepromAt (m.rxAt b) ++
          (List.range (v.toNat - 1)).map fun k => Op.i2cWrite (m.rxAt b (24 + k)) false := by
        rw [ha, ha₁, List.map_eq_flatMap]
      rw [Machine.asked, List.map_append, ← Machine.asked, ha', eepromWrite, List.append_assoc]
      simpa [Machine.rxAt, hr] using hs
    · have h := hl.step (o := .i2cWrite (m'.rxAt b (24 + (v.toNat - 1))) true)
      rw [hN] at h
      exact h
    · have h := hc.step
      rw [hN] at h
      exact completed_iff.trans h.eq_zero_iff

theorem memoryRd_ops (v : UInt8) (hf : Fresh m) :
    Yields (memoryRd b v) m fun _ m' =>
      (eepromRead (m.rxAt b) v.toNat).Sublist m'.asked ∧
      (m'.status = .completed → Done m'.ops) := by
  simp only [memoryRd, yields_bind]
  refine (eepromAddress_ops hf).mono ?_
  rintro _ m₁ ⟨ha₁, hr₁, hn₁, hl₁, hc₁⟩
  simp only [countErrors, i2cStart, yields_bind, yields_i2c, yields_addErrors, Machine.perform]
  rw [← hn₁] at hl₁ hc₁
  refine (Yields.upTo_append Machine.asked (fun k => [.i2cRead false])
    (fun k m' => m'.nextNack = 4 ∧ Logged b m'.ops m'.nextNack ∧
      Counted b m'.nextNack m'.cmdErrors)
    ⟨by simp only; omega, hl₁.step, hc₁.step⟩ ?_).mono ?_
  · rintro k hk m' ⟨hk', hl, hc⟩
    simp only [yields_bind, yields_i2cRead, yields_txSet, Machine.access, Machine.perform]
    exact ⟨by simp [Machine.asked], hk', hl.other, hc⟩
  · rintro _ m' ⟨ha, hk, hl, hc⟩
    simp only [yields_i2cRead, yields_txSet, answer, yields_modify, Machine.access,
      Machine.perform]
    refine ⟨?_, fun hs => ?_⟩
    · have hs := range_last (fun _ last => Op.i2cRead last) v.toNat
      have ha' : m'.asked = eepromAt (m.rxAt b) ++ Op.i2cStart eepromI2cAddr true ::
          (List.range (v.toNat - 1)).map fun k => Op.i2cRead false := by
        rw [ha, Machine.asked, List.map_append, ← Machine.asked, ha₁,
          ← List.map_eq_flatMap, List.append_assoc]
        rfl
      rw [Machine.asked, List.map_append, ← Machine.asked, ha', eepromRead, List.append_assoc]
      simpa using hs
    · have h := hc.eq_zero_iff.1 (completed_iff.1 hs)
      have hle := nacks_le (b := b) m'.nextNack
      exact hl.other.2 (by omega)

theorem cmdAnalogValRd_ops (hf : Fresh m) :
    Yields (cmdAnalogValRd b p) m fun _ m' => m'.status = .completed ∧
      m'.asked = (List.range p.dataBlocks.toNat).flatMap (analogRead (m.rxAt b)) ∧
      (Done m'.ops ↔
        nacks b (3 * (List.range p.dataBlocks.toNat).countP fun k => m.rxAt b k == 1) = 0) := by
  rw [cmdAnalogValRd, yields_bind]
  refine (Yields.upTo_append Machine.asked (analogRead (m.rxAt b))
    (fun k m' => m'.rx = m.rx ∧
      m'.nextNack = 3 * (List.range k).countP (fun k => m.rxAt b k == 1) ∧
      Logged b m'.ops m'.nextNack) ⟨rfl, by simp [hf.nextNack], hf.logged⟩ ?_).mono ?_
  · rintro k hk m' ⟨hr, hk', hl⟩
    have hc : (List.range (k + 1)).countP (fun k => m.rxAt b k == 1) =
        (List.range k).countP (fun k => m.rxAt b k == 1) + if m.rxAt b k == 1 then 1 else 0 := by
      rw [List.range_succ, List.countP_append, List.countP_singleton]
    have hx := congrFun (rxAt_congr (b := b) hr) k
    simp only [analogRound, analogAnswer, readTemperature, i2cStart, i2cWrite, yields_bind,
      yields_rxByte, yields_ite, yields_get, yields_i2c, yields_i2cRead, yields_txSet,
      yields_addErrors, Machine.access, Machine.perform, hx, hc]
    split
    next h0 =>
      exact ⟨by simp [analogRead, h0, Machine.asked], hr, by simp [hk', h0], hl⟩
    next h0 =>
      split
      next h1 =>
        refine ⟨by simp [analogRead, h1, temperature, Machine.asked], hr, ?_, ?_⟩
        · simp [hk', h1]
          omega
        · exact hl.step.step.step.other.other
      next h1 => exact ⟨by simp [analogRead, h1, Machine.asked], hr, by simp [hk', h1], hl⟩
  · rintro _ m' ⟨ha, -, hk, hl⟩
    rw [yields_setStatus]
    refine ⟨rfl, ?_, ?_⟩
    · rw [Machine.asked, Machine.asked, hf.ops] at ha
      exact ha
    · rw [← hk]
      exact hl

/-! ## Gateware -/

theorem gwWritePage_ops :
    Yields (gwWritePage b) m fun failed m' => m'.asked = m.asked ++
        (if flashPageSize ≤ m.gw.flashPageDataCnt then
          (if m.gw.flashPage % pagesPerSector = 0 then
            [.eraseSector (m.gw.flashPage / pagesPerSector)] else []) ++
          [.programPage m.gw.flashPage] else []) ∧
      (failed = false → Done m.ops → Done m'.ops) := by
  by_cases hc : flashPageSize ≤ m.gw.flashPageDataCnt
  · simp only [gwWritePage, gwErase, yields_bind, yields_get, yields_ite, yields_eraseSector,
      yields_pure, yields_programPage, if_pos hc]
    by_cases hp : m.gw.flashPage % pagesPerSector = 0
    · simp only [hp, if_true]
      cases (erasePoll b m.nextFlashStatus).1 <;>
        cases (cyFxSpiWaitForStatus b (erasePoll b m.nextFlashStatus).2).1 <;>
        simp [GwState.writePage, flashSpiEraseSector, flashSpiTransfer, hp, hc, Machine.perform,
          Machine.asked]
    · simp only [hp, if_false]
      cases (cyFxSpiWaitForStatus b m.nextFlashStatus).1 <;>
        simp [GwState.writePage, flashSpiTransfer, hp, hc, Machine.perform, Machine.asked]
  · simp [gwWritePage, hc]

theorem fillPage_flashPage {q : GwPacket} : (s.fillPage q).flashPage = s.flashPage := by
  rw [GwState.fillPage]
  simp only
  split <;> rfl

theorem gwOps_eq {q : GwPacket} : gwOps s q =
    if flashPageSize ≤ ((s.beginning q).fillPage q).flashPageDataCnt then
      (if (s.beginning q).flashPage % pagesPerSector = 0 then
        [.eraseSector ((s.beginning q).flashPage / pagesPerSector)] else []) ++
      [.programPage (s.beginning q).flashPage]
    else [] := by
  simp only [fillPage_full_iff]
  unfold gwOps GwState.beginning
  by_cases h : q.currentPortion = 0
  · simp only [h, if_true]
  · simp only [h, if_false]

theorem gwBitstreamToFlash_ops (hf : Fresh m) :
    Yields (gwBitstreamToFlash b) m fun _ m' => m'.asked = gwOps m.gw m.gwPacket ∧
      (m'.status = .completed → Done m'.ops) := by
  simp only [gwBitstreamToFlash, yields_bind, yields_modify]
  have hfill : ∀ m₁ : Machine, Yields gwFillPage m₁ fun _ m' => m'.ops = m₁.ops ∧
      m'.gw = m₁.gw.fillPage m₁.gwPacket := by
    intro m₁
    simp only [gwFillPage, gwCopy, yields_bind, yields_get, yields_when, yields_modify]
    split <;> simp [Machine.access, Machine.gwPacket]
  refine (hfill _).mono ?_
  rintro _ m₁ ⟨ho, hg⟩
  refine gwWritePage_ops.mono ?_
  rintro failed m₂ ⟨ha, hd⟩
  have hd' : Done m₁.ops := by
    rw [ho]
    simp [hf.ops]
  have ha' : m₂.asked = gwOps m.gw m.gwPacket := by
    rw [ha, hg, Machine.asked, ho, gwOps_eq]
    simp only [hf.ops, List.map_nil, List.nil_append, fillPage_flashPage]
    rfl
  cases failed with
  | true =>
    rw [yields_ite, if_pos rfl, yields_setStatus]
    exact ⟨ha', fun h => by cases h⟩
  | false =>
    rw [yields_ite, if_neg (by decide)]
    simp only [gwKeepRest, gwCopy, gwCount, yields_bind, yields_get, yields_when, yields_modify]
    split <;> exact ⟨ha', fun _ => hd rfl hd'⟩

theorem cmdGwWr_ops (hf : Fresh m) :
    Yields (cmdGwWr b) m fun _ m' =>
      if m.rxAt b 0 = 1 then m'.asked = gwOps m.gw m.gwPacket ∧
        (m'.status = .completed → Done m'.ops)
      else (m'.status = .completed ↔ m.rxAt b 0 ≠ 0 ∧ m.rxAt b 0 ≠ 2) := by
  have hd : ((List.range' 0 6).map (m.rxAt b)).headD 0 = m.rxAt b 0 := rfl
  simp only [cmdGwWr, yields_bind, yields_rxBytes, hd, yields_ite]
  by_cases h1 : m.rxAt b 0 = 1
  · simp only [h1, if_true]
    rw [if_neg (by decide)]
    exact gwBitstreamToFlash_ops ⟨hf.ops, hf.nextNack, hf.cmdErrors, hf.nextMcuStatus,
      hf.nextFlashStatus⟩
  · simp only [h1, if_false, yields_setStatus]
    split
    next h0 => simp [h0]
    next h0 =>
      split
      next h2 => simp [h2]
      next h2 => simp [h0, h2]

/-! ## Every answer -/

/-- Every answer of `c` satisfies `T`. -/
def Answers (c : Nat → Ctr Unit) (m : Machine) (T : Machine → Prop) : Prop :=
  ∀ fuel m', c fuel m = (some (), m') → T m'

/-- Of a command that always answers it is enough to know one answer. -/
theorem Answers.iff_of_yields {c : Ctr Unit} {T : Machine → Prop} {C : Prop}
    {Q : Unit → Machine → Prop} (h : Yields c m Q) (hq : ∀ m', Q () m' → (T m' ↔ C)) :
    Answers (fun _ => c) m T ↔ C := by
  obtain ⟨_, m', hc, hm'⟩ := h
  constructor
  · exact fun ha => (hq m' hm').1 (ha 0 m' hc)
  · intro hC fuel m'' hc'
    cases hc.symm.trans hc'
    exact (hq m' hm').2 hC

theorem Answers.of_yields {c : Ctr Unit} {T : Machine → Prop} (h : Yields c m fun _ => T) :
    Answers (fun _ => c) m T := by
  rw [Answers.iff_of_yields (C := True) h fun m' hm' => iff_true_intro hm']
  trivial

theorem Answers.congr {c : Nat → Ctr Unit} (c' : Nat → Ctr Unit) {m' : Machine} {T : Machine → Prop}
    (h : ∀ fuel, c fuel m = c' fuel m') : Answers c m T ↔ Answers c' m' T :=
  forall_congr' fun fuel => by rw [h]

/-! ## Waiting for the MCU -/

section Wait

variable {bit r r' : UInt8} {limit fuel pos pos' k : Nat}

theorem Board.SeenAt.unique {k' : Nat} (h : b.SeenAt bit pos k) (h' : b.SeenAt bit pos k') :
    k = k' := by
  rcases Nat.lt_trichotomy k k' with hk | hk | hk
  · exact absurd (h'.2.2 k h.1 hk) h.2.1
  · exact hk
  · exact absurd (h.2.2 k' h'.1 hk) h'.2.1

/-- A poll without the bit before the one that shows it. -/
theorem Board.SeenAt.before (h0 : b.mcuStatus pos &&& bit = 0) (h : b.SeenAt bit (pos + 1) k) :
    b.SeenAt bit pos k := by
  refine ⟨by have := h.1; omega, h.2.1, fun j hj hk => ?_⟩
  rcases Nat.eq_or_lt_of_le hj with rfl | hj
  · exact h0
  · exact h.2.2 j hj hk

theorem Board.SeenAt.after (h0 : b.mcuStatus pos &&& bit = 0) (h : b.SeenAt bit pos k) :
    b.SeenAt bit (pos + 1) k := by
  refine ⟨?_, h.2.1, fun j hj hk => h.2.2 j (by omega) hk⟩
  rcases Nat.eq_or_lt_of_le h.1 with rfl | hk
  · exact absurd h0 h.2.1
  · exact hk

/-- The loop ends with the poll that shows the bit, or after `limit` polls without it. -/
theorem waitLoop_some (hl : limit ≤ 255) (hr : r.toNat ≤ limit)
    (h : waitLoop bit limit b.mcuStatus fuel r pos = (some r', pos')) :
    (∃ k, k < pos + (limit - r.toNat) ∧ b.SeenAt bit pos k ∧ pos' = k + 1 ∧ r'.toNat < limit) ∨
    (∀ j, pos ≤ j → j < pos + (limit - r.toNat) → b.mcuStatus j &&& bit = 0) ∧
      pos' = pos + (limit - r.toNat) ∧ r'.toNat = limit := by
  induction fuel generalizing r pos with
  | zero => cases h
  | succ fuel ih =>
    rw [waitLoop] at h
    split at h
    next hlt =>
      split at h
      next hs =>
        cases h
        exact Or.inl ⟨pos, by omega, ⟨Nat.le_refl _, hs, fun j _ _ => by omega⟩, rfl, hlt⟩
      next hs =>
        have hs' : b.mcuStatus pos &&& bit = 0 := by simpa using hs
        have hr1 : (r + 1).toNat = r.toNat + 1 := by
          rw [UInt8.toNat_add]
          have : (1 : UInt8).toNat = 1 := rfl
          omega
        rcases ih (by omega) h with ⟨k, hk, hseen, hp, hr'⟩ | ⟨hno, hp, hr'⟩
        · exact Or.inl ⟨k, by omega, hseen.before hs', hp, hr'⟩
        · refine Or.inr ⟨fun j hj hlt => ?_, by omega, hr'⟩
          rcases Nat.eq_or_lt_of_le hj with rfl | hj
          · exact hs'
          · exact hno j hj (by omega)
    next hlt =>
      cases h
      exact Or.inr ⟨fun j _ _ => by omega, by omega, by omega⟩

/-- A `uint8_t` never gets to a limit above 255. -/
theorem waitLoop_endless (hl : 255 < limit)
    (h : waitLoop bit limit b.mcuStatus fuel r pos = (some r', pos')) :
    ∃ k, b.SeenAt bit pos k ∧ pos' = k + 1 := by
  induction fuel generalizing r pos with
  | zero => cases h
  | succ fuel ih =>
    have hlt : r.toNat < limit := by
      have := r.toNat_lt
      omega
    rw [waitLoop, if_pos hlt] at h
    split at h
    next hs =>
      cases h
      exact ⟨pos, ⟨Nat.le_refl _, hs, fun j _ _ => by omega⟩, rfl⟩
    next hs =>
      obtain ⟨k, hk, hp⟩ := ih h
      exact ⟨k, hk.before (by simpa using hs), hp⟩

theorem waitLoop_returns (hl : limit ≤ 255) (hr : r.toNat ≤ limit) (hf : limit - r.toNat < fuel) :
    ∃ r' pos', waitLoop bit limit b.mcuStatus fuel r pos = (some r', pos') := by
  induction fuel generalizing r pos with
  | zero => omega
  | succ fuel ih =>
    rw [waitLoop]
    split
    next hlt =>
      split
      next hs => exact ⟨_, _, rfl⟩
      next hs =>
        have hr1 : (r + 1).toNat = r.toNat + 1 := by
          rw [UInt8.toNat_add]
          have : (1 : UInt8).toNat = 1 := rfl
          omega
        exact ih (by omega) (by omega)
    next hlt => exact ⟨_, _, rfl⟩

theorem waitLoop_endless_returns (hl : 255 < limit) (hs : b.SeenAt bit pos k) (hf : k - pos < fuel) :
    ∃ r', waitLoop bit limit b.mcuStatus fuel r pos = (some r', k + 1) := by
  induction fuel generalizing r pos with
  | zero => omega
  | succ fuel ih =>
    have hlt : r.toNat < limit := by
      have := r.toNat_lt
      omega
    rw [waitLoop, if_pos hlt]
    split
    next h =>
      have hu := hs.unique ⟨Nat.le_refl _, h, fun j _ _ => by omega⟩
      exact ⟨r, by rw [hu]⟩
    next h =>
      have h' := hs.after (by simpa using h)
      have := h'.1
      exact ih h' (by omega)

end Wait

/-- The three loops of one portion: `MCU_retries` behind each of them, and the next poll. -/
structure McuWaits (b : Board) (fuel : Nat) (portion r₁ r₂ r₃ : UInt8) (p₁ p₂ p₃ : Nat) : Prop where
  empty : waitLoop 0x01 30 b.mcuStatus fuel 0 0 = (some r₁, p₁)
  written : waitLoop 0x01 500 b.mcuStatus fuel 0 p₁ = (some r₂, p₂)
  programmed : portion = 255 → waitLoop 0x40 30 b.mcuStatus fuel 0 p₂ = (some r₃, p₃)

section Mcu

variable {bit r portion r₁ r₂ r₃ : UInt8} {limit fuel pos p₁ p₂ p₃ : Nat} {d : Nat → UInt8}

theorem mcuWait_eq_some {m' : Machine} (h : mcuWait b fuel bit limit m = (some r, m')) :
    waitLoop bit limit b.mcuStatus fuel 0 m.nextMcuStatus = (some r, m'.nextMcuStatus) := by
  rw [mcuWait] at h
  split at h
  next h1 =>
    cases h
    exact h1
  next h1 => cases h

theorem yields_mcuWait {Q : UInt8 → Machine → Prop}
    (h : waitLoop bit limit b.mcuStatus fuel 0 m.nextMcuStatus = (some r, pos)) :
    Yields (mcuWait b fuel bit limit) m Q ↔ Q r
      { m.perform (.mcuWait bit) (decide (r.toNat < limit)) with nextMcuStatus := pos } := by
  have e : mcuWait b fuel bit limit m = (some r,
      { m.perform (.mcuWait bit) (decide (r.toNat < limit)) with nextMcuStatus := pos }) := by
    rw [mcuWait, h]
  constructor
  · rintro ⟨_, _, h', hq⟩
    rw [e] at h'
    cases h'
    exact hq
  · exact fun hq => ⟨_, _, e, hq⟩

theorem mcuBytes_ops :
    Yields (upTo 32 fun block => do
      spiWrite .lms7002m [0x80, 0x04, 0x00, ← rxByte b (2 + block)]) m fun _ m' =>
      m'.ops = m.ops ++ (mcuBytes (m.rxAt b)).map (·, true) ∧ m'.rx = m.rx ∧
      m'.nextMcuStatus = m.nextMcuStatus ∧ m'.cmdErrors = m.cmdErrors := by
  refine (Yields.upTo_append Machine.ops
    (fun k => [(.spi .lms7002m [0x80, 0x04, 0x00, m.rxAt b (2 + k)], true)])
    (fun _ m' => m'.rx = m.rx ∧ m'.nextMcuStatus = m.nextMcuStatus ∧ m'.cmdErrors = m.cmdErrors)
    ⟨rfl, rfl, rfl⟩ ?_).mono ?_
  · rintro k hk m' ⟨hr, hn, he⟩
    simp only [yields_bind, yields_rxByte, yields_spiWrite, Machine.access, Machine.perform,
      Machine.rxAt, hr]
    exact ⟨trivial, trivial, hn, he⟩
  · rintro _ m' ⟨ho, hr⟩
    refine ⟨?_, hr⟩
    rw [ho, mcuBytes, List.map_map, List.map_eq_flatMap]
    rfl

theorem mcuWriteFifo_returns {m' : Machine} (hm : m.nextMcuStatus = 0)
    (h : mcuWriteFifo b fuel portion m = (some (), m')) :
    ∃ r₁ r₂ r₃ p₁ p₂ p₃, McuWaits b fuel portion r₁ r₂ r₃ p₁ p₂ p₃ := by
  rw [mcuWriteFifo] at h
  obtain ⟨r₁, m₁, h1, h⟩ := bind_eq_some h
  obtain ⟨_, m₂, h2, h⟩ := bind_eq_some h
  obtain ⟨r₂, m₃, h3, h⟩ := bind_eq_some h
  obtain ⟨_, m₄, h4, h⟩ := bind_eq_some h
  have e1 := mcuWait_eq_some h1
  have e3 := mcuWait_eq_some h3
  obtain ⟨_, -, -, -, e2, -⟩ := mcuBytes_ops.of_eq h2
  rw [hm] at e1
  rw [e2] at e3
  by_cases hp : portion = 255
  · rw [when, if_pos hp, mcuCheckProgrammed] at h4
    obtain ⟨r₃, m₅, h5, -⟩ := bind_eq_some h4
    exact ⟨r₁, r₂, r₃, _, _, _, e1, e3, fun _ => mcuWait_eq_some h5⟩
  · exact ⟨r₁, r₂, 0, _, _, 0, e1, e3, fun hp' => absurd hp' hp⟩

theorem mcuWriteFifo_ops (hw : McuWaits b fuel portion r₁ r₂ r₃ p₁ p₂ p₃)
    (hm : m.nextMcuStatus = 0) (he : m.cmdErrors = 0) :
    Yields (mcuWriteFifo b fuel portion) m fun _ m' =>
      m'.ops = m.ops ++ (.mcuWait 0x01, decide (r₁.toNat < 30)) ::
        (mcuBytes (m.rxAt b)).map (·, true) ++ [(.mcuWait 0x01, true)] ++
        (if portion = 255 then [(.mcuWait 0x40, decide (r₃.toNat < 30))] else []) ∧
      (m'.status = .completed ↔ (portion = 255 → r₃.toNat ≠ 30)) := by
  have h2 : decide (r₂.toNat < 500) = true := by
    have := r₂.toNat_lt
    simp
    omega
  rw [mcuWriteFifo, yields_bind, yields_mcuWait (by rw [hm]; exact hw.empty), yields_bind]
  refine mcuBytes_ops.mono ?_
  rintro _ m₂ ⟨ho, hr, hn, he'⟩
  rw [yields_bind, yields_mcuWait (by rw [hn]; exact hw.written)]
  have hc : m₂.cmdErrors = 0 := he'.trans he
  have ho' : m₂.ops = m.ops ++ [(.mcuWait 0x01, decide (r₁.toNat < 30))] ++
    (mcuBytes (m.rxAt b)).map (·, true) := ho
  simp only [yields_bind, yields_when, yields_modify, answer]
  split
  next hp =>
    rw [mcuCheckProgrammed, maxMcuRetries, yields_bind, yields_mcuWait (hw.programmed hp)]
    simp only [yields_when, yields_addErrors]
    split
    next h30 => simp [Machine.perform, ho', h2, hc, hp, h30]
    next h30 => simp [Machine.perform, ho', h2, hc, hp, h30]
  next hp => simp [Machine.perform, ho', h2, hc, hp]

/-- What `McuMisled` says about the polls, `known` telling whether the mode exists. -/
def PollsMislead (b : Board) (portion : UInt8) (known : Prop) : Prop :=
  ∃ k, ((∀ j < 30, b.mcuStatus j &&& 0x01 = 0) ∧ b.SeenAt 0x01 30 k ∨
      ¬ known ∧ ∃ i < 30, b.SeenAt 0x01 0 i ∧ b.SeenAt 0x01 (i + 1) k) ∧
    (portion = 255 → ∃ j < 30, b.mcuStatus (k + 1 + j) &&& 0x40 ≠ 0)

/-- When a portion is answered with `completed`, the three waits as the polls tell them. -/
theorem McuWaits.polls (hw : McuWaits b fuel portion r₁ r₂ r₃ p₁ p₂ p₃)
    (hc : portion = 255 → r₃.toNat ≠ 30) :
    ∃ k, ((∀ j < 30, b.mcuStatus j &&& 0x01 = 0) ∧ b.SeenAt 0x01 30 k ∨
        r₁.toNat < 30 ∧ ∃ i < 30, b.SeenAt 0x01 0 i ∧ b.SeenAt 0x01 (i + 1) k) ∧
      (portion = 255 → r₃.toNat < 30 ∧ ∃ j < 30, b.mcuStatus (k + 1 + j) &&& 0x40 ≠ 0) := by
  obtain ⟨k, hk, rfl⟩ := waitLoop_endless (by decide) hw.written
  refine ⟨k, ?_, fun hp => ?_⟩
  · rcases waitLoop_some (by decide) (by decide) hw.empty with ⟨i, hi, hs, rfl, hr⟩ | ⟨hno, rfl, -⟩
    · exact Or.inr ⟨hr, i, by simpa using hi, hs, hk⟩
    · exact Or.inl ⟨fun j hj => hno j (Nat.zero_le j) (by simpa using hj), by simpa using hk⟩
  · rcases waitLoop_some (by decide) (by decide) (hw.programmed hp) with ⟨j, hj, hs, -, hr⟩ | h
    · have h0 : (0 : UInt8).toNat = 0 := rfl
      have h1 := hs.1
      refine ⟨hr, j - (k + 1), by omega, ?_⟩
      rw [show k + 1 + (j - (k + 1)) = j by omega]
      exact hs.2.1
    · exact absurd h.2.2 (hc hp)

/-- Polls that mislead let the loops end. -/
theorem PollsMislead.waits {known : Prop} (h : PollsMislead b portion known) :
    ∃ fuel r₁ r₂ r₃ p₁ p₂ p₃, McuWaits b fuel portion r₁ r₂ r₃ p₁ p₂ p₃ ∧
      (known → r₁.toNat = 30) ∧ (portion = 255 → r₃.toNat ≠ 30) := by
  obtain ⟨k, hk, hlast⟩ := h
  have h0 : (0 : UInt8).toNat = 0 := rfl
  obtain ⟨r₁, p₁, h1⟩ : ∃ r p, waitLoop 0x01 30 b.mcuStatus (k + 31) 0 0 = (some r, p) :=
    waitLoop_returns (by decide) (by decide) (by omega)
  obtain ⟨r₃, p₃, h3⟩ : ∃ r p, waitLoop 0x40 30 b.mcuStatus (k + 31) 0 (k + 1) = (some r, p) :=
    waitLoop_returns (by decide) (by decide) (by omega)
  have hkn : b.SeenAt 0x01 p₁ k ∧ (known → r₁.toNat = 30) := by
    rcases waitLoop_some (by decide) (by decide) h1 with ⟨i, hi, hs, rfl, hr⟩ | ⟨hno, hp, hr⟩
    · rcases hk with ⟨hno, -⟩ | ⟨hkn, i', hi', hs', hk⟩
      · exact absurd (hno i (by omega)) hs.2.1
      · rw [hs.unique hs']
        exact ⟨hk, fun h => absurd h hkn⟩
    · rcases hk with ⟨-, hk⟩ | ⟨hkn, i', hi', hs', hk⟩
      · have hp30 : p₁ = 30 := by omega
        exact ⟨hp30 ▸ hk, fun _ => hr⟩
      · exact absurd (hno i' (by omega) (by omega)) hs'.2.1
  obtain ⟨r₂, h2⟩ : ∃ r, waitLoop 0x01 500 b.mcuStatus (k + 31) 0 p₁ = (some r, k + 1) :=
    waitLoop_endless_returns (by decide) hkn.1 (by omega)
  refine ⟨k + 31, r₁, r₂, r₃, p₁, k + 1, p₃, ⟨h1, h2, fun _ => h3⟩, hkn.2, fun hp => ?_⟩
  obtain ⟨j, hj, hs⟩ := hlast hp
  rcases waitLoop_some (by decide) (by decide) h3 with ⟨_, -, -, -, hr⟩ | ⟨hno, -, -⟩
  · omega
  · exact absurd (hno (k + 1 + j) (by omega) (by omega)) hs

theorem mcuWriteFifo_trusted (known : Prop) (pre : List Op) (hm : m.nextMcuStatus = 0)
    (he : m.cmdErrors = 0) (hx : m.rxAt b = p.byte b) (hops : m.ops = pre.map (·, true))
    (hreq : known → requested b p s = some (pre ++ mcuPortion (p.byte b)))
    (hnot : ¬ known → requested b p s = none) :
    Answers (fun fuel => mcuWriteFifo b fuel (p.byte b 1)) m (Trusted b p s) ↔
      ¬ PollsMislead b (p.byte b 1) known := by
  constructor
  · rintro ht hmis
    obtain ⟨fuel, r₁, r₂, r₃, p₁, p₂, p₃, hw, hr₁, hr₃⟩ := hmis.waits
    obtain ⟨_, m', hrun, ho, hs⟩ := mcuWriteFifo_ops hw hm he
    obtain ⟨hd, ops, hr, -⟩ := ht fuel m' hrun (hs.2 hr₃)
    by_cases hk : known
    · rw [ho] at hd
      simp [hr₁ hk] at hd
    · rw [hnot hk] at hr
      cases hr
  · intro hmis fuel m' hrun hs
    obtain ⟨r₁, r₂, r₃, p₁, p₂, p₃, hw⟩ := mcuWriteFifo_returns hm hrun
    obtain ⟨_, -, ho, hs'⟩ := (mcuWriteFifo_ops hw hm he).of_eq hrun
    obtain ⟨k, hk, hl⟩ := hw.polls (hs'.1 hs)
    rcases hk with hk | ⟨hr₁, hk⟩
    · exact absurd ⟨k, Or.inl hk, fun hp => (hl hp).2⟩ hmis
    · by_cases hkn : known
      · refine Trusted.of_ops (hreq hkn) ?_ hs
        rw [ho, hops, hx, mcuPortion]
        split
        next hp => simp [hr₁, (hl hp).1]
        next hp => simp [hr₁]
      · exact absurd ⟨k, Or.inr ⟨hkn, hk⟩, fun hp => (hl hp).2⟩ hmis

end Mcu

/-! ## Any packet -/

theorem receive_fresh : Fresh (m.receive p) := ⟨rfl, rfl, rfl, rfl, rfl⟩

/-- Too many blocks are an error. -/
theorem trusted_unlessManyBlocks {size : Nat} {c : Ctr Unit}
    (hc : ¬ checkManyBlocks p size = true →
      Yields (unlessManyBlocks p size c) m fun _ => Trusted b p s) :
    Yields (unlessManyBlocks p size c) m fun _ => Trusted b p s := by
  by_cases hn : checkManyBlocks p size = true
  · rw [unlessManyBlocks, if_pos hn, yields_setStatus]
    exact .of_status fun h => nomatch h
  · exact hc hn

theorem Trusted.of_carried {m' : Machine} {ops : List Op} (hr : requested b p s = some ops)
    (hf : Fresh m) (h : Carried ops m m') : Trusted b p s m' := by
  refine .of_ops hr ?_
  rw [h, hf.ops, List.nil_append]

theorem Trusted.of_acknowledged {m' : Machine} {ops : List Op} (hr : requested b p s = some ops)
    (h : Acknowledged ops m') : Trusted b p s m' := by
  intro hs
  exact ⟨h.2 hs, ops, hr, sublist_of_eq h.1.symm⟩

theorem forEeprom_trusted {c : UInt8 → Ctr Unit} {Q : Unit → Machine → Prop} (hf : Fresh m)
    (hc : ∀ m' : Machine, Fresh m' → m'.rx = m.rx → Yields (c (m.rxAt b 5)) m' Q) :
    Yields (forEeprom b c) m fun _ m' =>
      if m.rxAt b 10 = 0 ∧ m.rxAt b 11 = 3 ∧ m.rxAt b 0 = 0 then Q () m' else m'.status = .error := by
  simp only [forEeprom, yields_bind, yields_rxBytes, yields_rxByte, yields_ite, yields_setStatus]
  have hx : ∀ i (l : List Access), ({ m with accesses := l } : Machine).rxAt b i = m.rxAt b i :=
    fun _ _ => rfl
  have h5 : ((List.range' 1 5).map (m.rxAt b)).getD 4 0 = m.rxAt b 5 := rfl
  simp only [Machine.access, hx, h5]
  by_cases h10 : m.rxAt b 10 = 0
  · by_cases h11 : m.rxAt b 11 = 3
    · by_cases h0 : m.rxAt b 0 = 0
      · simp only [h10, h11, h0, if_true, and_self]
        exact hc _ ⟨hf.ops, hf.nextNack, hf.cmdErrors, hf.nextMcuStatus, hf.nextFlashStatus⟩ rfl
      · simp [h10, h11, h0]
    · simp [h10, h11]
  · simp [h10]

theorem requested_mcu (hc : Command.ofCode p.command = some .lmsMcuFwWr) :
    requested b p s = if p.byte b 1 ≠ 0 then some (mcuPortion (p.byte b))
      else if p.byte b 0 = 1 ∨ p.byte b 0 = 2 then
        some (mcuStart (p.byte b 0) ++ mcuPortion (p.byte b))
      else if p.byte b 0 = 3 then some (mcuStart 3 ++ [.spiRead .lms7002m [0x00, 0x03]])
      else none := by
  rw [requested, hc]

/-- The first portion resets the MCU, and its mode says what follows. -/
theorem mcuFirstPortion_eq {fuel : Nat} {portion : UInt8} : mcuFirstPortion b fuel portion m =
    (if m.rxAt b 0 = 1 then do
      mcuControl 0x01
      mcuWriteFifo b fuel portion
    else if m.rxAt b 0 = 2 then do
      mcuControl 0x02
      mcuWriteFifo b fuel portion
    else if m.rxAt b 0 = 3 then do
      mcuControl 0x03
      let _ ← spiRead b .lms7002m [0x00, 0x03]
      answer
    else mcuWriteFifo b fuel portion : Ctr Unit)
    ((m.perform (.spi .lms7002m [0x80, 0x02, 0x00, 0x00]) true).access (.rx 0)) := rfl

theorem cmdLmsMcuFwWr_eq {fuel : Nat} : cmdLmsMcuFwWr b fuel m =
    (if m.rxAt b 1 ≠ 0 then
      if m.lastPortion ≠ (m.rxAt b 1).toNat - 1 then setStatus .wrongOrder
      else mcuWriteFifo b fuel (m.rxAt b 1)
    else mcuFirstPortion b fuel (m.rxAt b 1) : Ctr Unit) (m.access (.rx 1)) := rfl

theorem mcuFirstPortion_trusted (hc : Command.ofCode p.command = some .lmsMcuFwWr)
    (h1 : p.byte b 1 = 0) (hf : Fresh m) (hx : m.rxAt b = p.byte b) :
    Answers (fun fuel => mcuFirstPortion b fuel (p.byte b 1)) m (Trusted b p s) ↔
      ¬ (p.byte b 0 ≠ 3 ∧ PollsMislead b (p.byte b 1) (p.byte b 0 = 1 ∨ p.byte b 0 = 2)) := by
  have hreq := requested_mcu (b := b) (s := s) hc
  rw [if_neg (by simp [h1])] at hreq
  have hmode : m.rxAt b 0 = p.byte b 0 := congrFun hx 0
  -- the mode goes to the control register, and the portion follows
  have hknown : ∀ mode : UInt8, p.byte b 0 = mode → mode = 1 ∨ mode = 2 →
      (∀ fuel, mcuFirstPortion b fuel (p.byte b 1) m = (do
        mcuControl mode
        mcuWriteFifo b fuel (p.byte b 1) : Ctr Unit)
        ((m.perform (.spi .lms7002m [0x80, 0x02, 0x00, 0x00]) true).access (.rx 0))) →
      (Answers (fun fuel => mcuFirstPortion b fuel (p.byte b 1)) m (Trusted b p s) ↔
        ¬ (p.byte b 0 ≠ 3 ∧ PollsMislead b (p.byte b 1) (p.byte b 0 = 1 ∨ p.byte b 0 = 2))) := by
    intro mode hm hk hrun
    rw [hm, if_pos hk] at hreq
    have hctl : ∀ fuel, mcuFirstPortion b fuel (p.byte b 1) m =
        mcuWriteFifo b fuel (p.byte b 1)
          (((m.perform (.spi .lms7002m [0x80, 0x02, 0x00, 0x00]) true).access (.rx 0)).perform
            (.spi .lms7002m [0x80, 0x02, 0x00, mode]) true) := hrun
    rw [Answers.congr _ hctl]
    refine (mcuWriteFifo_trusted (mode = 1 ∨ mode = 2) (mcuStart mode)
      (by exact hf.nextMcuStatus) (by exact hf.cmdErrors) (by exact hx) ?_ (fun _ => hreq)
      (fun h => absurd hk h)).trans ?_
    · simp [hf.ops, Machine.perform, Machine.access, mcuStart]
    · have h3 : mode ≠ 3 := by rcases hk with rfl | rfl <;> decide
      rw [hm]
      exact not_congr ⟨fun h => ⟨h3, h⟩, And.right⟩
  by_cases m1 : p.byte b 0 = 1
  · exact hknown 1 m1 (Or.inl rfl) fun fuel => by rw [mcuFirstPortion_eq, hmode, if_pos m1]
  by_cases m2 : p.byte b 0 = 2
  · exact hknown 2 m2 (Or.inr rfl) fun fuel => by
      rw [mcuFirstPortion_eq, hmode, if_neg m1, if_pos m2]
  by_cases m3 : p.byte b 0 = 3
  · rw [Answers.congr (fun _ => _) fun fuel => by
      rw [mcuFirstPortion_eq, hmode, if_neg m1, if_neg m2, if_pos m3]]
    refine iff_of_true (.of_yields ?_) fun h => h.1 m3
    simp only [mcuControl, answer, yields_bind, yields_spiWrite, yields_spiRead, yields_modify]
    rw [if_neg (by simp [m1, m2]), if_pos m3] at hreq
    refine .of_ops hreq ?_
    · simp [hf.ops, Machine.perform, Machine.access, mcuStart]
  · rw [Answers.congr (fun fuel => mcuWriteFifo b fuel (p.byte b 1)) fun fuel => by
      rw [mcuFirstPortion_eq, hmode, if_neg m1, if_neg m2, if_neg m3]]
    refine (mcuWriteFifo_trusted (p.byte b 0 = 1 ∨ p.byte b 0 = 2)
      [.spi .lms7002m [0x80, 0x02, 0x00, 0x00]] (by exact hf.nextMcuStatus)
      (by exact hf.cmdErrors) (by exact hx) ?_
      (fun h => absurd h (by simp [m1, m2]))
      (fun _ => by rw [hreq, if_neg (by simp [m1, m2]), if_neg m3])).trans ?_
    · simp [hf.ops, Machine.perform, Machine.access]
    · exact not_congr ⟨fun h => ⟨m3, h⟩, And.right⟩

theorem cmdLmsMcuFwWr_trusted (hc : Command.ofCode p.command = some .lmsMcuFwWr) (hf : Fresh m)
    (hx : m.rxAt b = p.byte b) :
    Answers (fun fuel => cmdLmsMcuFwWr b fuel) m (Trusted b p s) ↔
      ¬ McuMisled b (p.byte b) m.lastPortion := by
  have hreq := requested_mcu (b := b) (s := s) hc
  have hf' : Fresh (m.access (.rx 1)) :=
    ⟨hf.ops, hf.nextNack, hf.cmdErrors, hf.nextMcuStatus, hf.nextFlashStatus⟩
  have hportion : m.rxAt b 1 = p.byte b 1 := congrFun hx 1
  rw [McuMisled]
  by_cases h1 : p.byte b 1 = 0
  · rw [Answers.congr (fun fuel => mcuFirstPortion b fuel (p.byte b 1)) fun fuel => by
      rw [cmdLmsMcuFwWr_eq, hportion, if_neg (by simp [h1])], mcuFirstPortion_trusted hc h1 hf' hx]
    simp [PollsMislead, h1]
  · rw [if_pos h1] at hreq
    by_cases hl : m.lastPortion = (p.byte b 1).toNat - 1
    · rw [Answers.congr (fun fuel => mcuWriteFifo b fuel (p.byte b 1)) fun fuel => by
        rw [cmdLmsMcuFwWr_eq, hportion, if_pos h1, if_neg (by simp [hl])]]
      refine (mcuWriteFifo_trusted True [] hf'.nextMcuStatus hf'.cmdErrors hx
        hf'.ops (fun _ => hreq) (fun h => absurd trivial h)).trans ?_
      simp [PollsMislead, h1, hl]
    · rw [Answers.congr (fun _ => setStatus .wrongOrder) fun fuel => by
        rw [cmdLmsMcuFwWr_eq, hportion, if_pos h1, if_pos hl]]
      refine iff_of_true (.of_yields ?_) (by simp [h1, hl])
      rw [yields_setStatus]
      exact .of_status fun h => nomatch h

theorem cmdLmsRst_trusted (hc : Command.ofCode p.command = some .lmsRst) (hf : Fresh m)
    (hx : m.rxAt b = p.byte b) :
    Answers (fun _ => cmdLmsRst b) m (Trusted b p s) ↔ ¬ 2 < (p.byte b 0).toNat := by
  refine Answers.iff_of_yields cmdLmsRst_ops ?_
  rintro m' ⟨hs, ho⟩
  rw [hx, hf.ops, List.nil_append] at ho
  have hr : requested b p s = lmsRstOps (p.byte b 0) := by rw [requested, hc]
  by_cases h2 : 2 < (p.byte b 0).toNat
  · refine iff_of_false (fun ht => ?_) (fun h => h h2)
    obtain ⟨-, ops, hn, -⟩ := ht hs
    rw [hr, lmsRstOps_none h2] at hn
    cases hn
  · obtain ⟨ops, hn⟩ := lmsRstOps_some h2
    refine iff_of_true (.of_ops (hr.trans hn) ?_) h2
    rw [ho, hn, Option.getD_some]

theorem cmdAnalogValRd_trusted (hc : Command.ofCode p.command = some .analogValRd) (hf : Fresh m)
    (hx : m.rxAt b = p.byte b) : Answers (fun _ => cmdAnalogValRd b p) m (Trusted b p s) ↔
      ¬ ((∃ k < p.dataBlocks.toNat, p.byte b k ≠ 0 ∧ p.byte b k ≠ 1) ∨
        nacks b (3 * (List.range p.dataBlocks.toNat).countP fun k => p.byte b k == 1) ≠ 0) := by
  refine Answers.iff_of_yields (cmdAnalogValRd_ops hf) ?_
  rintro m' ⟨hs, ha, hd⟩
  rw [hx] at ha hd
  have hr : requested b p s =
      if ∀ k < p.dataBlocks.toNat, p.byte b k = 0 ∨ p.byte b k = 1 then
        some ((List.range p.dataBlocks.toNat).flatMap (analogRead (p.byte b))) else none := by
    rw [requested, hc]
  constructor
  · rintro ht (⟨k, hk, hk0, hk1⟩ | hn)
    · obtain ⟨-, ops, hn, -⟩ := ht hs
      rw [hr, if_neg fun h => (h k hk).elim hk0 hk1] at hn
      cases hn
    · exact hn (hd.1 (ht hs).1)
  · intro hmis _
    have hall : ∀ k < p.dataBlocks.toNat, p.byte b k = 0 ∨ p.byte b k = 1 := by
      intro k hk
      by_cases hk0 : p.byte b k = 0
      · exact Or.inl hk0
      · exact Or.inr (Decidable.byContradiction fun hk1 => hmis (Or.inl ⟨k, hk, hk0, hk1⟩))
    refine ⟨hd.2 (Decidable.byContradiction fun hn => hmis (Or.inr hn)), _,
      hr.trans (if_pos hall), sublist_of_eq ha.symm⟩

theorem cmdGwWr_trusted (hc : Command.ofCode p.command = some .gwWr) (hf : Fresh m)
    (hx : m.rxAt b = p.byte b) (hg : m.gwPacket = ⟨p.dataField⟩) :
    Answers (fun _ => cmdGwWr b) m (Trusted b p m.gw) ↔ ¬ 2 < (p.byte b 0).toNat := by
  refine Answers.iff_of_yields (cmdGwWr_ops hf) ?_
  intro m' h
  have hr : requested b p m.gw = if p.byte b 0 = 1 then some (gwOps m.gw ⟨p.dataField⟩) else none := by
    rw [requested, hc]
  rw [hx, hg] at h
  by_cases h1 : p.byte b 0 = 1
  · rw [if_pos h1] at h hr
    exact iff_of_true (.of_acknowledged hr h) (by rw [h1]; decide)
  · rw [if_neg h1] at h hr
    rw [two_lt_iff]
    constructor
    · rintro ht ⟨h0, -, h2⟩
      obtain ⟨-, ops, hn, -⟩ := ht (h.2 ⟨h0, h2⟩)
      rw [hr] at hn
      cases hn
    · intro hmis hs
      exact absurd ⟨(h.1 hs).1, h1, (h.1 hs).2⟩ hmis

theorem cmdMemoryWr_trusted (hc : Command.ofCode p.command = some .memoryWr) (hf : Fresh m)
    (hx : m.rxAt b = p.byte b) : Answers (fun _ => cmdMemoryWr b) m (Trusted b p s) ↔
      ¬ ((p.byte b 10 = 0 ∧ p.byte b 11 = 3 ∧ p.byte b 0 = 0) ∧
        nacks b (3 + max 1 (p.byte b 5).toNat) = 256) := by
  refine Answers.iff_of_yields (forEeprom_trusted hf fun m' hf' hr => by
    have h := memoryWr_ops (b := b) (m.rxAt b 5) hf'
    rw [rxAt_congr hr] at h
    exact h) ?_
  intro m' h
  rw [hx] at h
  have hr : requested b p s = if p.byte b 10 = 0 ∧ p.byte b 11 = 3 ∧ p.byte b 0 = 0 then
      some (eepromWrite (p.byte b) (p.byte b 5).toNat) else none := by
    rw [requested, hc]
  by_cases ht : p.byte b 10 = 0 ∧ p.byte b 11 = 3 ∧ p.byte b 0 = 0
  · rw [if_pos ht] at h hr
    obtain ⟨ha, hd, hs⟩ := h
    have hle := nacks_le (b := b) (3 + max 1 (p.byte b 5).toNat)
    have hlt := (p.byte b 5).toNat_lt
    constructor
    · rintro htr ⟨-, hn⟩
      have := hd.1 (htr (hs.2 (by omega))).1
      omega
    · intro hmis hc'
      have hn : nacks b (3 + max 1 (p.byte b 5).toNat) ≠ 256 := fun hn => hmis ⟨ht, hn⟩
      have := hs.1 hc'
      exact ⟨hd.2 (by omega), _, hr, ha⟩
  · rw [if_neg ht] at h
    refine iff_of_true (.of_status ?_) fun hmis => ht hmis.1
    rw [h]
    decide

theorem cmdMemoryRd_trusted (hc : Command.ofCode p.command = some .memoryRd) (hf : Fresh m)
    (hx : m.rxAt b = p.byte b) : Answers (fun _ => cmdMemoryRd b) m (Trusted b p s) := by
  rw [cmdMemoryRd_eq]
  refine .of_yields ((forEeprom_trusted hf fun m' hf' hr => by
    rw [yields_bind, yields_rxByte]
    have hf'' : Fresh (m'.access (.rx 0)) :=
      ⟨hf'.ops, hf'.nextNack, hf'.cmdErrors, hf'.nextMcuStatus, hf'.nextFlashStatus⟩
    have h := memoryRd_ops (b := b) (m.rxAt b 5) hf''
    rw [rxAt_congr (show (m'.access (.rx 0)).rx = m.rx from hr)] at h
    exact h).mono ?_)
  intro _ m' h
  rw [hx] at h
  split at h
  next ht =>
    intro hs
    refine ⟨h.2 hs, _, ?_, h.1⟩
    rw [requested, hc]
    exact if_pos ht
  next ht =>
    refine .of_status ?_
    rw [h]
    decide

/-- `completed` can be trusted, whatever the devices answer, unless the packet is one that misleads.
    -/
theorem trusted_iff (b : Board) (p : Packet) (m : Machine) :
    (∀ fuel m', handle b fuel p m = (some (), m') → Trusted b p m.gw m') ↔
      ¬ Misled b p m.lastPortion := by
  have hf : Fresh (m.receive p) := receive_fresh
  have hx : (m.receive p).rxAt b = p.byte b := rfl
  show Answers (fun fuel => dispatch b fuel p) (m.receive p) (Trusted b p m.gw) ↔ _
  rcases hc : Command.ofCode p.command with _ | c
  · simp only [dispatch, hc, Misled, not_false_eq_true, iff_true]
    refine .of_yields ?_
    rw [yields_setStatus]
    exact .of_status fun h => by cases h
  cases c with
  | lmsMcuFwWr =>
    simp only [dispatch, hc, Misled]
    exact cmdLmsMcuFwWr_trusted hc hf hx
  | lmsRst =>
    simp only [dispatch, hc, Misled]
    exact cmdLmsRst_trusted hc hf hx
  | analogValRd =>
    simp only [dispatch, hc, Misled]
    exact cmdAnalogValRd_trusted hc hf hx
  | gwWr =>
    simp only [dispatch, hc, Misled]
    exact cmdGwWr_trusted hc hf hx rfl
  | memoryWr =>
    simp only [dispatch, hc, Misled]
    exact cmdMemoryWr_trusted hc hf hx
  | memoryRd =>
    simp only [dispatch, hc, Misled, not_false_eq_true, iff_true]
    exact cmdMemoryRd_trusted hc hf hx
  | getInfo =>
    simp only [dispatch, hc, Misled, not_false_eq_true, iff_true]
    refine .of_yields ?_
    simp only [cmdGetInfo, yields_bind, yields_txSet, yields_setStatus]
    have hr : requested b p m.gw = some [] := by rw [requested, hc]
    exact .of_ops hr hf.ops
  | lms7002Wr | brdspi16Wr =>
    simp only [dispatch, hc, Misled, not_false_eq_true, iff_true]
    exact .of_yields (trusted_unlessManyBlocks fun hn => (spiWrBlocks_ops hn).mono fun _ _ h =>
      .of_carried (by rw [requested, hc]; rfl) hf h)
  | lms7002Rd | brdspi16Rd =>
    simp only [dispatch, hc, Misled, not_false_eq_true, iff_true]
    exact .of_yields (trusted_unlessManyBlocks fun hn => (spiRdBlocks_ops hn).mono fun _ _ h =>
      .of_carried (by rw [requested, hc]; rfl) hf h)
  | adf4002Wr =>
    simp only [dispatch, hc, Misled, not_false_eq_true, iff_true]
    exact .of_yields (trusted_unlessManyBlocks fun hn => (cmdAdf4002Wr_ops hn).mono fun _ _ h =>
      .of_carried (by rw [requested, hc]; rfl) hf h)
  | si5351Wr =>
    simp only [dispatch, hc, Misled, not_false_eq_true, iff_true]
    exact .of_yields (trusted_unlessManyBlocks fun hn => (cmdSi5351Wr_ops hn hf).mono fun _ _ h =>
      .of_acknowledged (by rw [requested, hc]; rfl) h)
  | si5351Rd =>
    simp only [dispatch, hc, Misled, not_false_eq_true, iff_true]
    exact .of_yields (trusted_unlessManyBlocks fun hn => (cmdSi5351Rd_ops hn hf).mono fun _ _ h =>
      .of_acknowledged (by rw [requested, hc]; rfl) h)
  | analogValWr =>
    simp only [dispatch, hc, Misled, not_false_eq_true, iff_true]
    refine .of_yields (trusted_unlessManyBlocks fun hn =>
      (cmdAnalogValWr_ops hn hf.cmdErrors).mono fun _ m' h hs => ?_)
    obtain ⟨hall, hcar⟩ := h hs
    refine Trusted.of_carried ?_ hf hcar hs
    rw [requested, hc]
    exact if_pos hall
  | gpioDirWr | gpioWr =>
    simp only [dispatch, hc, Misled, not_false_eq_true, iff_true]
    exact .of_yields (gpioWr_ops.mono fun _ _ h => .of_carried (by rw [requested, hc]; rfl) hf h)
  | gpioDirRd | gpioRd =>
    simp only [dispatch, hc, Misled, not_false_eq_true, iff_true]
    exact .of_yields (gpioRd_ops.mono fun _ _ h => .of_carried (by rw [requested, hc]) hf h)

/-! ## The status is set -/

theorem ends_setStatus {c : CmdStatus} (h : c ≠ .busy) :
    Ends (fun m' => m'.status ≠ .busy) (setStatus c) := .modify fun _ => h

theorem ends_answer : Ends (fun m' => m'.status ≠ .busy) answer := by
  refine .modify fun m' => ?_
  dsimp only
  split <;> decide

theorem ends_unlessManyBlocks {size : Nat} {c : Ctr Unit}
    (hc : Ends (fun m' => m'.status ≠ .busy) c) :
    Ends (fun m' => m'.status ≠ .busy) (unlessManyBlocks p size c) :=
  .ite (ends_setStatus (by decide)) hc

theorem ends_mcuWriteFifo {fuel : Nat} {portion : UInt8} :
    Ends (fun m' => m'.status ≠ .busy) (mcuWriteFifo b fuel portion) := by
  unfold mcuWriteFifo
  repeat refine .bind fun _ => ?_
  exact ends_answer

theorem ends_forEeprom {c : UInt8 → Ctr Unit}
    (hc : ∀ v, Ends (fun m' => m'.status ≠ .busy) (c v)) :
    Ends (fun m' => m'.status ≠ .busy) (forEeprom b c) := by
  have herr := ends_setStatus (c := .error) (by decide)
  exact .bind fun _ => .bind fun _ => .ite
    (.bind fun _ => .ite (.bind fun _ => .ite (hc _) herr) herr) herr

/-- Every handler that comes to its end has set the status. -/
theorem dispatch_ends (fuel : Nat) : Ends (fun m' => m'.status ≠ .busy) (dispatch b fuel p) := by
  unfold dispatch
  rcases Command.ofCode p.command with _ | c
  · exact ends_setStatus (by decide)
  cases c with
  | getInfo | lmsRst | analogValRd | gpioDirWr | gpioWr | gpioDirRd | gpioRd =>
    repeat refine .bind fun _ => ?_
    exact ends_setStatus (by decide)
  | lms7002Wr | lms7002Rd | brdspi16Wr | brdspi16Rd =>
    exact ends_unlessManyBlocks (.bind fun _ => ends_setStatus (by decide))
  | adf4002Wr =>
    refine ends_unlessManyBlocks (.bind fun _ => .bind fun _ => .modify fun m' => ?_)
    dsimp only
    split <;> decide
  | analogValWr | si5351Wr | si5351Rd => exact ends_unlessManyBlocks (.bind fun _ => ends_answer)
  | gwWr =>
    have hcount : Ends (fun m' => m'.status ≠ .busy) gwCount := by
      refine .modify fun m' => ?_
      dsimp only
      split <;> decide
    exact .bind fun _ => .ite (ends_setStatus (by decide)) (.ite
      (.bind fun _ => .bind fun _ => .bind fun _ => .ite (ends_setStatus (by decide))
        (.bind fun _ => hcount))
      (.ite (ends_setStatus (by decide)) (ends_setStatus (by decide))))
  | memoryWr =>
    refine ends_forEeprom fun _ => ?_
    unfold memoryWr
    repeat refine .bind fun _ => ?_
    exact ends_answer
  | memoryRd =>
    dsimp only
    rw [cmdMemoryRd_eq]
    refine ends_forEeprom fun _ => .bind fun _ => ?_
    unfold memoryRd
    repeat refine .bind fun _ => ?_
    exact ends_answer
  | lmsMcuFwWr =>
    refine .bind fun _ => .bind fun _ => .ite (.ite (ends_setStatus (by decide)) ends_mcuWriteFifo) ?_
    refine .bind fun _ => .bind fun _ => .ite (.bind fun _ => ends_mcuWriteFifo) ?_
    refine .ite (.bind fun _ => ends_mcuWriteFifo) (.ite ?_ ends_mcuWriteFifo)
    exact .bind fun _ => .bind fun _ => ends_answer

/-- For every packet, in every state: the answer is truthful, whatever the devices answer, unless the
    packet is one that misleads. -/
theorem truthful_iff (b : Board) (p : Packet) (m : Machine) :
    (∀ fuel m', handle b fuel p m = (some (), m') → Truthful b p m.gw m') ↔
      ¬ Misled b p m.lastPortion := by
  rw [← trusted_iff]
  refine ⟨fun h fuel m' e => (h fuel m' e).completed, fun h fuel m' e => ?_⟩
  refine ⟨h fuel m' e, fun hfail => ⟨fun hc => hfail (h fuel m' e hc).1, ?_⟩⟩
  exact dispatch_ends fuel (m.receive p) () m' e

/-- No slave acknowledges anything. -/
def Board.deaf : Board := { Board.quiet with nack := fun _ => true }

/-- The temperature is read from a bus on which nothing answers, and the command completes. -/
theorem temperature_without_sensor :
    ¬ ∀ fuel m', handle .deaf fuel ⟨⟨0x62, 1, 0⟩, .replicate dataFieldSize 1⟩ (.boot 134) =
        (some (), m') →
      Truthful .deaf ⟨⟨0x62, 1, 0⟩, .replicate dataFieldSize 1⟩ (Machine.boot 134).gw m' := by
  intro h
  have hd := ((h 0 _ rfl).completed (by decide +kernel)).1 (.i2cStart lm75I2cAddr false, false)
    (by decide +kernel)
  exact nomatch hd

end

end Fw
