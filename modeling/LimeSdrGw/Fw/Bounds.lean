import LimeSdrGw.Fw.Commands
/-
# Which packets make the dispatcher leave its arrays

Most commands test `Data_blocks` against the size of one block, or use fixed indices. Three do not:
`CMD_ANALOG_VAL_RD` tests nothing, `CMD_MEMORY_WR`, `CMD_MEMORY_RD` and `CMD_ALTERA_FPGA_GW_WR` take
the count of bytes behind `Data_field[24]` from the packet.
-/
namespace Fw

open Effect Proc

def AllIn (l : List Access) : Prop := ∀ a ∈ l, a.InBounds

section AllIn

variable {a : Access} {l l₁ l₂ : List Access} {i n : Nat}

@[simp] theorem allIn_nil : AllIn [] := fun _ h => nomatch h

@[simp] theorem allIn_cons : AllIn (a :: l) ↔ a.InBounds ∧ AllIn l := by simp [AllIn]

@[simp] theorem allIn_append : AllIn (l₁ ++ l₂) ↔ AllIn l₁ ∧ AllIn l₂ := by
  simp only [AllIn, List.mem_append]
  constructor
  · intro h
    exact ⟨fun a ha => h a (Or.inl ha), fun a ha => h a (Or.inr ha)⟩
  · rintro ⟨h₁, h₂⟩ a (ha | ha)
    · exact h₁ a ha
    · exact h₂ a ha

@[simp] theorem inBounds_rx : (Access.rx i).InBounds ↔ i < 56 := Iff.rfl

@[simp] theorem inBounds_tx : (Access.tx i).InBounds ↔ i < 56 := Iff.rfl

@[simp] theorem inBounds_copy {off : Nat} :
    (Access.copy off n).InBounds ↔ off < 256 ∧ off + n ≤ 256 ∧ 24 + n ≤ 56 := Iff.rfl

theorem allIn_rx : AllIn ((List.range' i n).map .rx) ↔ n = 0 ∨ i + n ≤ 56 := by
  simp only [AllIn, List.mem_map, List.mem_range'_1]
  constructor
  · intro h
    rcases Nat.eq_zero_or_pos n with h0 | h0
    · exact Or.inl h0
    · have h1 := h (.rx (i + n - 1)) ⟨i + n - 1, by omega, rfl⟩
      simp only [inBounds_rx] at h1
      omega
  · rintro h a ⟨j, hj, rfl⟩
    simp only [inBounds_rx]
    omega

end AllIn

section

variable {b : Board} {p : Packet} {m : Machine}

/-! ## Commands that stay inside -/

/-- Between the two states no access went outside, and the page buffer is as it was. -/
def Quiet (m m' : Machine) : Prop := (AllIn m'.accesses ↔ AllIn m.accesses) ∧ m'.gw = m.gw

theorem Quiet.refl : Quiet m m := ⟨Iff.rfl, rfl⟩

section Quiet

variable {i n : Nat}

theorem quiet_rxByte (h : i < 56) : Keeps (Quiet m) (rxByte b i) := by
  rintro m' ⟨h1, h2⟩
  exact ⟨by simp [rxByte, Machine.access, h1, h], h2⟩

theorem quiet_rxBytes (h : i + n ≤ 56) : Keeps (Quiet m) (rxBytes b i n) := by
  induction n generalizing i with
  | zero => exact .pure
  | succ n ih =>
    refine .bind (quiet_rxByte (by omega)) fun _ => .bind (ih (by omega)) fun _ => .pure

theorem quiet_rxSet {f : UInt8 → UInt8} (h : i < 56) : Keeps (Quiet m) (rxSet b i f) := by
  rintro m' ⟨h1, h2⟩
  exact ⟨by simp [rxSet, Proc.modify, Machine.access, h1, h], h2⟩

theorem quiet_txSet {v : UInt8} (h : i < 56) : Keeps (Quiet m) (txSet i v) := by
  rintro m' ⟨h1, h2⟩
  exact ⟨by simp [txSet, Proc.modify, Machine.access, h1, h], h2⟩

/-- Nothing is accessed where the state changes in other fields only. -/
theorem quiet_modify {g : Machine → Machine}
    (hg : ∀ m', (g m').accesses = m'.accesses ∧ (g m').gw = m'.gw) :
    Keeps (Quiet m) (Proc.modify g) := by
  rintro m' ⟨h1, h2⟩
  have h3 : ((Proc.modify g m').2).accesses = m'.accesses := (hg m').1
  exact ⟨by rw [h3, h1], (hg m').2.trans h2⟩

theorem quiet_setStatus {s : CmdStatus} : Keeps (Quiet m) (setStatus s) :=
  quiet_modify fun _ => ⟨rfl, rfl⟩

theorem quiet_addErrors {v : UInt8} : Keeps (Quiet m) (addErrors v) :=
  quiet_modify fun _ => ⟨rfl, rfl⟩

theorem quiet_answer : Keeps (Quiet m) answer := quiet_modify fun _ => ⟨rfl, rfl⟩

theorem quiet_gpio {v : UInt8} : Keeps (Quiet m) (gpio v) := quiet_modify fun _ => ⟨rfl, rfl⟩

theorem quiet_spiWrite {dev : SpiDev} {w : List UInt8} : Keeps (Quiet m) (spiWrite dev w) :=
  quiet_modify fun _ => ⟨rfl, rfl⟩

theorem quiet_spiRead {dev : SpiDev} {w : List UInt8} : Keeps (Quiet m) (spiRead b dev w) :=
  fun _ h => h

theorem quiet_i2c {o : Op} : Keeps (Quiet m) (i2c b o) := fun _ h => h

theorem quiet_countErrors {c : Ctr UInt8} (hc : Keeps (Quiet m) c) :
    Keeps (Quiet m) (countErrors c) := .bind hc fun _ => quiet_addErrors

theorem quiet_i2cRead {last : Bool} : Keeps (Quiet m) (i2cRead b last) := fun _ h => h

theorem quiet_mcuWait {fuel limit : Nat} {bit : UInt8} :
    Keeps (Quiet m) (mcuWait b fuel bit limit) := by
  intro m' h
  rw [mcuWait]
  split <;> exact h

end Quiet

theorem blocks_le {size : Nat} (hs : 0 < size) (h : ¬ checkManyBlocks p size = true) :
    p.dataBlocks.toNat * size ≤ 56 := by
  rw [checkManyBlocks, decide_eq_true_eq, Nat.not_lt] at h
  exact (Nat.le_div_iff_mul_le hs).1 h

/-- A command that tests its blocks only has to keep inside with the blocks it has. -/
theorem quiet_unlessManyBlocks {size : Nat} {c : Ctr Unit} (hs : 0 < size)
    (hc : p.dataBlocks.toNat * size ≤ 56 → Keeps (Quiet m) c) :
    Keeps (Quiet m) (unlessManyBlocks p size c) :=
  .ite (fun _ => quiet_setStatus) fun h => hc (blocks_le hs h)

theorem quiet_cmdGetInfo : Keeps (Quiet m) cmdGetInfo :=
  .bind (quiet_txSet (by decide)) fun _ => .bind (quiet_txSet (by decide)) fun _ =>
    .bind (quiet_txSet (by decide)) fun _ => .bind (quiet_txSet (by decide)) fun _ =>
      .bind (quiet_txSet (by decide)) fun _ => quiet_setStatus

theorem quiet_cmdLmsRst : Keeps (Quiet m) (cmdLmsRst b) := by
  refine .bind (quiet_rxByte (by decide)) fun mode => .bind ?_ fun _ => quiet_setStatus
  rw [lmsRst]
  refine .ite (fun _ => quiet_gpio) fun _ => .ite (fun _ => quiet_gpio) fun _ => .ite ?_ ?_
  · exact fun _ => .bind quiet_gpio fun _ => quiet_gpio
  · exact fun _ => quiet_addErrors

theorem quiet_spiWrBlocks {dev : SpiDev} : Keeps (Quiet m) (spiWrBlocks b p dev) := by
  refine quiet_unlessManyBlocks (by decide) fun h => .bind (.upTo fun k hk => ?_) fun _ =>
    quiet_setStatus
  refine .bind (quiet_rxSet (by omega)) fun _ => .bind (quiet_rxBytes (by omega)) fun _ =>
    quiet_spiWrite

theorem quiet_spiRdBlocks {dev : SpiDev} : Keeps (Quiet m) (spiRdBlocks b p dev) := by
  refine quiet_unlessManyBlocks (by decide) fun h => .bind (.upTo fun k hk => ?_) fun _ =>
    quiet_setStatus
  refine .bind (quiet_rxSet (by omega)) fun _ => .bind (quiet_rxBytes (by omega)) fun _ =>
    .bind quiet_spiRead fun _ => .bind (quiet_txSet (by omega)) fun _ => quiet_txSet (by omega)

theorem quiet_controlTcxoDac {oe : Bool} {v : UInt8} : Keeps (Quiet m) (controlTcxoDac oe v) :=
  .ite (fun _ => quiet_spiWrite) fun _ => quiet_spiWrite

theorem quiet_controlTcxoAdf {oe : Bool} {d : List UInt8} :
    Keeps (Quiet m) (controlTcxoAdf oe d) :=
  .ite (fun _ => quiet_spiWrite) fun _ => .bind quiet_spiWrite fun _ =>
    .bind quiet_spiWrite fun _ => .bind quiet_spiWrite fun _ => quiet_spiWrite

theorem quiet_cmdAdf4002Wr : Keeps (Quiet m) (cmdAdf4002Wr b p) := by
  refine quiet_unlessManyBlocks (by decide) fun h => .bind quiet_controlTcxoDac fun _ =>
    .bind (.upTo fun k hk => ?_) fun _ => quiet_modify fun _ => ⟨rfl, rfl⟩
  exact .bind (quiet_rxBytes (by omega)) fun _ => quiet_controlTcxoAdf

theorem quiet_cmdAnalogValWr : Keeps (Quiet m) (cmdAnalogValWr b p) := by
  refine quiet_unlessManyBlocks (by decide) fun h => .bind (.upTo fun k hk => ?_) fun _ =>
    quiet_answer
  refine .bind (quiet_rxByte (by omega)) fun _ => .ite (fun _ => ?_) fun _ => quiet_addErrors
  refine .bind (quiet_rxByte (by omega)) fun _ => .ite (fun _ => ?_) fun _ => quiet_addErrors
  refine .bind (quiet_rxByte (by omega)) fun _ => .ite (fun _ => ?_) fun _ => quiet_addErrors
  exact .bind quiet_controlTcxoAdf fun _ => .bind (quiet_rxByte (by omega)) fun _ =>
    .bind (quiet_modify fun _ => ⟨rfl, rfl⟩) fun _ => quiet_controlTcxoDac

theorem quiet_cmdSi5351Wr : Keeps (Quiet m) (cmdSi5351Wr b p) := by
  refine quiet_unlessManyBlocks (by decide) fun h => .bind (.upTo fun k hk => ?_) fun _ =>
    quiet_answer
  exact .bind (quiet_countErrors quiet_i2c) fun _ => .bind (quiet_rxByte (by omega)) fun _ =>
    .bind (quiet_countErrors quiet_i2c) fun _ => .bind (quiet_rxByte (by omega)) fun _ =>
    quiet_countErrors quiet_i2c

theorem quiet_cmdSi5351Rd : Keeps (Quiet m) (cmdSi5351Rd b p) := by
  refine quiet_unlessManyBlocks (by decide) fun h => .bind (.upTo fun k hk => ?_) fun _ =>
    quiet_answer
  refine .bind (quiet_countErrors quiet_i2c) fun _ => .bind (quiet_rxByte (by omega)) fun _ =>
    .bind (quiet_countErrors quiet_i2c) fun _ => .bind (quiet_countErrors quiet_i2c) fun _ => ?_
  exact .bind (quiet_rxByte (by omega)) fun _ => .bind (quiet_txSet (by omega)) fun _ =>
    .bind quiet_i2cRead fun _ => quiet_txSet (by omega)

theorem quiet_mcuWriteFifo {fuel : Nat} {portion : UInt8} :
    Keeps (Quiet m) (mcuWriteFifo b fuel portion) := by
  refine .bind quiet_mcuWait fun _ => .bind (.upTo fun k hk => ?_) fun _ =>
    .bind quiet_mcuWait fun _ => .bind (.when ?_) fun _ =>
    .bind (quiet_modify fun _ => ⟨rfl, rfl⟩) fun _ => quiet_answer
  · exact .bind (quiet_rxByte (by omega)) fun _ => quiet_spiWrite
  · exact fun _ => .bind quiet_mcuWait fun _ => .when fun _ => quiet_addErrors

theorem quiet_mcuFirstPortion {fuel : Nat} {portion : UInt8} :
    Keeps (Quiet m) (mcuFirstPortion b fuel portion) := by
  refine .bind quiet_spiWrite fun _ => .bind (quiet_rxByte (by decide)) fun _ => .ite ?_ fun _ =>
    .ite ?_ fun _ => .ite ?_ fun _ => quiet_mcuWriteFifo
  · exact fun _ => .bind quiet_spiWrite fun _ => quiet_mcuWriteFifo
  · exact fun _ => .bind quiet_spiWrite fun _ => quiet_mcuWriteFifo
  · exact fun _ => .bind quiet_spiWrite fun _ => .bind quiet_spiRead fun _ => quiet_answer

theorem quiet_cmdLmsMcuFwWr {fuel : Nat} : Keeps (Quiet m) (cmdLmsMcuFwWr b fuel) :=
  .bind (quiet_rxByte (by decide)) fun _ => .bind .get fun _ =>
    .ite (fun _ => .ite (fun _ => quiet_setStatus) fun _ => quiet_mcuWriteFifo) fun _ =>
    quiet_mcuFirstPortion

theorem quiet_gpioWr {reg : UInt8} : Keeps (Quiet m) (gpioWr b reg) :=
  .bind (quiet_rxByte (by decide)) fun _ => .bind (quiet_rxByte (by decide)) fun _ =>
    .bind quiet_spiWrite fun _ => quiet_setStatus

theorem quiet_gpioRd {reg : UInt8} : Keeps (Quiet m) (gpioRd b reg) :=
  .bind quiet_spiRead fun _ => .bind (quiet_txSet (by decide)) fun _ =>
    .bind (quiet_txSet (by decide)) fun _ => quiet_setStatus

/-! ## `CMD_ANALOG_VAL_RD` -/

/-- The channel is one that is answered. -/
def Known (ch : UInt8) : Prop := ch = 0 ∨ ch = 1

theorem analogRound_bounds {k : Nat} :
    Yields (analogRound b k) m fun _ m' =>
      (AllIn m'.accesses ↔ AllIn m.accesses ∧ k < 56 ∧ (Known (m.rxAt b k) → k < 14)) ∧
      m'.gw = m.gw ∧ m'.rx = m.rx := by
  simp only [analogRound, Known, analogAnswer, readTemperature, i2cStart, i2cWrite, yields_bind,
    yields_rxByte, yields_ite, yields_get, yields_i2c, yields_i2cRead, yields_txSet,
    yields_addErrors, Machine.access, Machine.perform]
  split
  next h0 =>
    simp only [allIn_append, allIn_cons, allIn_nil, inBounds_rx, inBounds_tx]
    grind
  next h0 =>
    split
    next h1 =>
      simp only [allIn_append, allIn_cons, allIn_nil, inBounds_rx, inBounds_tx]
      grind
    next h1 =>
      simp only [allIn_append, allIn_cons, allIn_nil, inBounds_rx]
      grind

theorem cmdAnalogValRd_bounds :
    Yields (cmdAnalogValRd b p) m fun _ m' =>
      (AllIn m'.accesses ↔ AllIn m.accesses ∧
        ∀ k < p.dataBlocks.toNat, k < 56 ∧ (Known (m.rxAt b k) → k < 14)) ∧ m'.gw = m.gw := by
  rw [cmdAnalogValRd, yields_bind]
  refine (Yields.upTo (fun n m' => (AllIn m'.accesses ↔ AllIn m.accesses ∧
    ∀ k < n, k < 56 ∧ (Known (m.rxAt b k) → k < 14)) ∧ m'.gw = m.gw ∧ m'.rx = m.rx)
    ⟨by simp, rfl, rfl⟩ ?_).mono ?_
  · rintro n hn m' ⟨h1, h2, h3⟩
    refine analogRound_bounds.mono ?_
    rintro _ m'' ⟨h4, h5, h6⟩
    have hx : m'.rxAt b n = m.rxAt b n := by rw [Machine.rxAt, Machine.rxAt, h3]
    refine ⟨?_, h5.trans h2, h6.trans h3⟩
    rw [h4, h1, hx, and_assoc]
    refine and_congr_right fun _ => ?_
    constructor
    · rintro ⟨hl, hn⟩ k hk
      rcases Nat.lt_succ_iff_lt_or_eq.1 hk with hk | rfl
      · exact hl k hk
      · exact hn
    · exact fun hl => ⟨fun k hk => hl k (by omega), hl n (by omega)⟩
  · rintro _ m' ⟨h1, h2, -⟩
    rw [yields_setStatus]
    exact ⟨h1, h2⟩

/-- What a packet of `CMD_ANALOG_VAL_RD` must be. -/
structure AnalogFits (p : Packet) : Prop where
  blocks : p.dataBlocks.toNat ≤ 56
  /-- An answer of four bytes fits for the first 14 blocks only. -/
  known : ∀ k (hk : k < 56), 14 ≤ k → k < p.dataBlocks.toNat → ¬ Known p.dataField[k]

theorem analogFits_iff (h : m.rx = p.dataField) :
    (∀ k < p.dataBlocks.toNat, k < 56 ∧ (Known (m.rxAt b k) → k < 14)) ↔ AnalogFits p := by
  have hx : ∀ k (hk : k < 56), m.rxAt b k = p.dataField[k] := fun k hk => by
    rw [Machine.rxAt, byteAt, dif_pos hk]
    simp only [h]
  constructor
  · intro hl
    refine ⟨?_, ?_⟩
    · rcases Nat.lt_or_ge 56 p.dataBlocks.toNat with h56 | h56
      · exact absurd (hl 56 h56).1 (by omega)
      · exact h56
    · intro k hk h14 hn hc
      rw [← hx k hk] at hc
      have := (hl k hn).2 hc
      omega
  · rintro ⟨hb, hc⟩ k hk
    have hk' : k < 56 := by omega
    refine ⟨hk', fun hkn => ?_⟩
    rw [hx k hk'] at hkn
    rcases Nat.lt_or_ge k 14 with h14 | h14
    · exact h14
    · exact absurd hkn (hc k hk' h14 hk)

/-! ## `CMD_MEMORY_WR` and `CMD_MEMORY_RD` -/

theorem memoryWr_bounds {v : UInt8} {m : Machine} :
    Yields (memoryWr b v) m fun _ m' =>
      (AllIn m'.accesses ↔ AllIn m.accesses ∧ v.toNat ≤ 32) ∧ m'.gw = m.gw := by
  simp only [memoryWr, eepromAddress, countErrors, i2cStart, i2cWrite, yields_bind, yields_i2c, yields_modify,
    yields_rxByte, yields_addErrors]
  refine (Yields.upTo (fun n m' => (AllIn m'.accesses ↔ AllIn m.accesses ∧ (n = 0 ∨ n ≤ 32)) ∧
    m'.gw = m.gw) ⟨by simp [Machine.access, Machine.perform], rfl⟩ ?_).mono ?_
  · rintro n hn m' ⟨h1, h2⟩
    simp [Machine.access, Machine.perform, h1, h2]
    grind
  · rintro _ m' ⟨h1, h2⟩
    simp [answer, Machine.access, Machine.perform, h1, h2]
    grind

theorem memoryRd_bounds {v : UInt8} {m : Machine} :
    Yields (memoryRd b v) m fun _ m' =>
      (AllIn m'.accesses ↔ AllIn m.accesses ∧ v.toNat ≤ 32) ∧ m'.gw = m.gw := by
  simp only [memoryRd, eepromAddress, countErrors, i2cStart, i2cWrite, yields_bind, yields_i2c, yields_modify,
    yields_rxByte, yields_addErrors]
  refine (Yields.upTo (fun n m' => (AllIn m'.accesses ↔ AllIn m.accesses ∧ (n = 0 ∨ n ≤ 32)) ∧
    m'.gw = m.gw) ⟨by simp [Machine.access, Machine.perform], rfl⟩ ?_).mono ?_
  · rintro n hn m' ⟨h1, h2⟩
    simp [Machine.access, Machine.perform, h1, h2]
    grind
  · rintro _ m' ⟨h1, h2⟩
    simp [answer, Machine.access, Machine.perform, h1, h2]
    grind

theorem forEeprom_bounds {c : UInt8 → Ctr Unit}
    (hc : ∀ v m, Yields (c v) m fun _ m' =>
      (AllIn m'.accesses ↔ AllIn m.accesses ∧ v.toNat ≤ 32) ∧ m'.gw = m.gw) :
    Yields (forEeprom b c) m fun _ m' =>
      (AllIn m'.accesses ↔ AllIn m.accesses ∧
        (m.rxAt b 10 = 0 → m.rxAt b 11 = 3 → m.rxAt b 0 = 0 → (m.rxAt b 5).toNat ≤ 32)) ∧
      m'.gw = m.gw := by
  simp only [forEeprom, yields_bind, yields_rxBytes, yields_rxByte, yields_ite, yields_setStatus]
  have hx : ∀ i (l : List Access), ({ m with accesses := l } : Machine).rxAt b i = m.rxAt b i :=
    fun _ _ => rfl
  have h5 : ((List.range' 1 5).map (m.rxAt b)).getD 4 0 = m.rxAt b 5 := rfl
  simp only [Machine.access, hx, h5]
  by_cases h10 : m.rxAt b 10 = 0
  · by_cases h11 : m.rxAt b 11 = 3
    · by_cases h0 : m.rxAt b 0 = 0
      · simp only [h10, h11, h0, if_true]
        refine (hc _ _).mono ?_
        rintro _ m' ⟨h1, h2⟩
        refine ⟨?_, h2⟩
        rw [h1]
        simp [allIn_rx]
      · simp [h10, h11, h0, allIn_rx]
    · simp [h10, h11, allIn_rx]
  · simp [h10, allIn_rx]

/-! ## `CMD_ALTERA_FPGA_GW_WR` -/

/-- The flash reports an error for page `flashPage`. -/
def FlashFails (b : Board) (flashPage : Nat) : Prop :=
  if flashPage % pagesPerSector = 0 then
    (erasePoll b 0).1 = false ∨ (cyFxSpiWaitForStatus b (erasePoll b 0).2).1 = false
  else (cyFxSpiWaitForStatus b 0).1 = false

/-- What a portion must be for the page buffer it comes to: 32 bytes at most, or no more room than
    that and nothing left to copy when the page has been written. -/
def GwFits (b : Board) (s : GwState) (q : GwPacket) : Prop :=
  q.dataCnt ≤ 32 ∨ flashPageSize ≤ s.flashPageDataCnt + 32 ∧
    (FlashFails b s.flashPage ∨
      s.flashPageDataCnt = flashPageSize ∧ q.dataCnt ≤ s.flashDataCounterToCopy)

section GwState

variable {s : GwState} {q : GwPacket}

theorem fillPage_below (h : s.flashPageDataCnt < flashPageSize) :
    (s.fillPage q).flashPage = s.flashPage ∧
    (s.fillPage q).flashDataCounterToCopy = min (flashPageSize - s.flashPageDataCnt) q.dataCnt ∧
    (s.fillPage q).flashPageDataCnt = if q.dataCnt = 0 ∧ 0 < s.flashPageDataCnt then flashPageSize
      else s.flashPageDataCnt + min (flashPageSize - s.flashPageDataCnt) q.dataCnt := by
  have hm : (if flashPageSize - s.flashPageDataCnt > q.dataCnt then q.dataCnt
      else flashPageSize - s.flashPageDataCnt) =
      min (flashPageSize - s.flashPageDataCnt) q.dataCnt := by
    split <;> omega
  rw [GwState.fillPage, if_pos (by omega)]
  simp only [hm, true_and]
  split <;> split <;> omega

theorem fillPage_at_end (h : flashPageSize ≤ s.flashPageDataCnt) :
    (s.fillPage q).flashPage = s.flashPage ∧
    (s.fillPage q).flashDataCounterToCopy = s.flashDataCounterToCopy ∧
    (s.fillPage q).flashPageDataCnt = s.flashPageDataCnt := by
  rw [GwState.fillPage, if_neg (by omega)]
  exact ⟨rfl, rfl, rfl⟩

theorem keepRest_cnt : (s.keepRest q).flashPageDataCnt =
    s.flashPageDataCnt + (q.dataCnt - s.flashDataCounterToCopy) := by
  rw [GwState.keepRest]
  split
  · rfl
  · omega

theorem count_cnt : ((s.count q).1).flashPageDataCnt = s.flashPageDataCnt := by
  rw [GwState.count]
  split
  · show (ite _ _ _ : GwState).flashPageDataCnt = _
    split <;> rfl
  · rfl

/-- The first `memcpy`. -/
def copyFill (s : GwState) (q : GwPacket) : List Access :=
  if s.flashPageDataCnt < flashPageSize then
    [.copy s.flashPageDataCnt (min (flashPageSize - s.flashPageDataCnt) q.dataCnt)]
  else []

/-- The second one. -/
def copyRest (s : GwState) (q : GwPacket) : List Access :=
  if q.dataCnt > s.flashDataCounterToCopy then [.copy s.flashPageDataCnt q.dataCnt] else []

theorem allIn_copyFill : AllIn (copyFill s q) ↔
    (s.flashPageDataCnt < flashPageSize →
      min (flashPageSize - s.flashPageDataCnt) q.dataCnt ≤ 32) := by
  rw [copyFill]
  split
  next h =>
    simp only [allIn_cons, inBounds_copy, allIn_nil, and_true, flashPageSize] at *
    exact ⟨fun hc _ => by omega, fun hc => by have := hc h; omega⟩
  next h => simp [h]

theorem allIn_copyRest (h : s.flashPageDataCnt = 0) (hq : q.dataCnt ≤ 255) :
    AllIn (copyRest s q) ↔ (s.flashDataCounterToCopy < q.dataCnt → q.dataCnt ≤ 32) := by
  rw [copyRest, h]
  split
  next hc =>
    simp only [allIn_cons, inBounds_copy, allIn_nil, and_true]
    exact ⟨fun h32 _ => by omega, fun h32 => by have := h32 hc; omega⟩
  next hc => simp [hc]

/-- The page is full behind the first `memcpy`. -/
theorem fillPage_full_iff : flashPageSize ≤ (s.fillPage q).flashPageDataCnt ↔
    flashPageSize ≤ s.flashPageDataCnt + q.dataCnt ∨ q.dataCnt = 0 ∧ 0 < s.flashPageDataCnt := by
  rcases Nat.lt_or_ge s.flashPageDataCnt flashPageSize with h | h
  · rw [(fillPage_below h).2.2]
    split <;> omega
  · rw [(fillPage_at_end h).2.2]
    omega

theorem dataCnt_le : q.dataCnt ≤ 255 := by
  have := q.dataField[5].toNat_lt
  rw [GwPacket.dataCnt]
  omega

end GwState

theorem gwFillPage_bounds :
    Yields gwFillPage m fun _ m' => m'.accesses = m.accesses ++ copyFill m.gw m.gwPacket ∧
      m'.rx = m.rx ∧ m'.nextFlashStatus = m.nextFlashStatus ∧
      m'.gw = m.gw.fillPage m.gwPacket := by
  simp only [gwFillPage, gwCopy, copyFill, yields_bind, yields_get, yields_when, yields_modify]
  split <;> simp [Machine.access, Machine.gwPacket]

/-- A page that is due is written, unless the flash reports an error. -/
theorem gwWritePage_due (h0 : m.nextFlashStatus = 0) (hc : flashPageSize ≤ m.gw.flashPageDataCnt) :
    Yields (gwWritePage b) m fun failed m' => m'.accesses = m.accesses ∧ m'.rx = m.rx ∧
      (failed = true ↔ FlashFails b m.gw.flashPage) ∧
      m'.gw = if failed then m.gw else { m.gw with
        flashPage := m.gw.flashPage + 1, flashPageDataCnt := 0
        flashDataCntFree := flashPageSize } := by
  simp only [gwWritePage, gwErase, yields_bind, yields_get, yields_ite, yields_eraseSector,
    yields_pure, yields_programPage, if_pos hc]
  by_cases hp : m.gw.flashPage % pagesPerSector = 0
  · simp only [hp, if_true, h0]
    rcases he : (erasePoll b 0).1 <;> rcases hw : (cyFxSpiWaitForStatus b (erasePoll b 0).2).1 <;>
      simp [GwState.writePage, flashSpiEraseSector, flashSpiTransfer, hp, hc, FlashFails, he, hw,
        Machine.perform]
  · simp only [hp, if_false, h0]
    rcases hw : (cyFxSpiWaitForStatus b 0).1 <;>
      simp [GwState.writePage, flashSpiTransfer, hp, hc, FlashFails, hw, Machine.perform]

theorem gwWritePage_idle (hc : m.gw.flashPageDataCnt < flashPageSize) :
    Yields (gwWritePage b) m fun failed m' => failed = false ∧ m' = m := by
  simp [gwWritePage, Nat.not_le.2 hc]

theorem gwKeepRest_bounds :
    Yields gwKeepRest m fun _ m' => m'.accesses = m.accesses ++ copyRest m.gw m.gwPacket ∧
      m'.rx = m.rx ∧ m'.gw = m.gw.keepRest m.gwPacket := by
  simp only [gwKeepRest, gwCopy, copyRest, yields_bind, yields_get, yields_when, yields_modify]
  split <;> simp [Machine.access, Machine.gwPacket]

/-- What follows the page write. -/
theorem gwFinish_bounds :
    Yields (do gwKeepRest; gwCount) m fun _ m' =>
      m'.accesses = m.accesses ++ copyRest m.gw m.gwPacket ∧
      m'.gw.flashPageDataCnt =
        m.gw.flashPageDataCnt + (m.gwPacket.dataCnt - m.gw.flashDataCounterToCopy) := by
  rw [yields_bind]
  refine gwKeepRest_bounds.mono ?_
  rintro _ m' ⟨ha, hr, hg⟩
  rw [gwCount, yields_modify]
  refine ⟨ha, ?_⟩
  simp only [count_cnt]
  rw [hg, keepRest_cnt]

theorem gwBitstreamToFlash_bounds (h0 : m.nextFlashStatus = 0)
    (hs : m.gw.flashPageDataCnt ≤ flashPageSize) :
    Yields (gwBitstreamToFlash b) m fun _ m' =>
      (AllIn m'.accesses ↔ AllIn m.accesses ∧
        GwFits b (m.gw.beginning m.gwPacket) m.gwPacket) ∧
      m'.gw.flashPageDataCnt ≤ flashPageSize := by
  have hq := dataCnt_le (q := m.gwPacket)
  have hs' : (m.gw.beginning m.gwPacket).flashPageDataCnt ≤ flashPageSize := by
    rw [GwState.beginning]
    split
    · exact Nat.zero_le _
    · exact hs
  generalize hg : m.gw.beginning m.gwPacket = s at hs'
  generalize hp : m.gwPacket = q at hq hg
  simp only [gwBitstreamToFlash, yields_bind, yields_modify, hp, hg]
  refine gwFillPage_bounds.mono ?_
  rintro _ m₁ ⟨ha₁, hr₁, hn₁, hg₁⟩
  have hp₁ : m₁.gwPacket = q := by
    rw [Machine.gwPacket, hr₁]
    exact hp
  have ha₁ : m₁.accesses = m.accesses ++ copyFill s q := by
    rw [ha₁]
    exact congrArg (m.accesses ++ copyFill s ·) hp
  have hg₁ : m₁.gw = s.fillPage q := hg₁.trans (congrArg s.fillPage hp)
  have hroom := fillPage_below (s := s) (q := q)
  have hfull := fillPage_at_end (s := s) (q := q)
  rw [← hg₁] at hroom hfull
  have hle : m₁.gw.flashPageDataCnt ≤ flashPageSize := by
    rcases Nat.lt_or_ge s.flashPageDataCnt flashPageSize with h | h
    · rw [(hroom h).2.2]
      split <;> omega
    · rw [(hfull h).2.2]
      exact hs'
  by_cases due : flashPageSize ≤ m₁.gw.flashPageDataCnt
  · refine (gwWritePage_due (hn₁.trans h0) due).mono ?_
    rintro failed m₂ ⟨ha₂, hr₂, hf₂, hg₂⟩
    have hp₂ : m₂.gwPacket = q := by
      rw [Machine.gwPacket, hr₂]
      exact hp₁
    have hpage : m₁.gw.flashPage = s.flashPage := by
      rcases Nat.lt_or_ge s.flashPageDataCnt flashPageSize with h | h
      · exact (hroom h).1
      · exact (hfull h).1
    rw [hpage] at hf₂
    cases failed with
    | true =>
      rw [yields_ite, if_pos rfl, yields_setStatus]
      simp only [ha₂, ha₁, hg₂, if_true, allIn_append, allIn_copyFill, GwFits, hf₂.1 rfl]
      refine ⟨and_congr_right fun _ => ?_, hle⟩
      grind
    | false =>
      have hff : ¬ FlashFails b s.flashPage := fun h => by cases hf₂.2 h
      rw [yields_ite, if_neg (by decide)]
      refine gwFinish_bounds.mono ?_
      rintro _ m₃ ⟨ha₃, hc₃⟩
      have hc₂ : m₂.gw.flashPageDataCnt = 0 := by rw [hg₂]; rfl
      have ht₂ : m₂.gw.flashDataCounterToCopy = m₁.gw.flashDataCounterToCopy := by rw [hg₂]; rfl
      simp only [hp₂, ha₂, ha₁] at ha₃ hc₃
      simp only [ha₃, hc₃, hc₂, allIn_append, allIn_copyFill, allIn_copyRest hc₂ hq, GwFits, hff,
        ht₂, and_assoc]
      refine ⟨and_congr_right fun _ => ?_, ?_⟩
      · grind
      · show _ ≤ 256
        omega
  · refine (gwWritePage_idle (Nat.not_le.1 due)).mono ?_
    rintro failed m₂ ⟨rfl, rfl⟩
    rw [yields_ite, if_neg (by decide)]
    refine gwFinish_bounds.mono ?_
    rintro _ m₃ ⟨ha₃, hc₃⟩
    simp only [hp₁, ha₁] at ha₃ hc₃
    -- all of the portion is in the page
    have hx : s.flashPageDataCnt < flashPageSize := by grind
    have hn : q.dataCnt ≤ m₂.gw.flashDataCounterToCopy := by grind
    rw [copyRest, if_neg (by omega), List.append_nil] at ha₃
    simp only [ha₃, hc₃, allIn_append, allIn_copyFill, GwFits]
    refine ⟨and_congr_right fun _ => ?_, by omega⟩
    grind

theorem cmdGwWr_bounds (h0 : m.nextFlashStatus = 0)
    (hs : m.gw.flashPageDataCnt ≤ flashPageSize) :
    Yields (cmdGwWr b) m fun _ m' =>
      (AllIn m'.accesses ↔ AllIn m.accesses ∧
        (m.rxAt b 0 = 1 → GwFits b (m.gw.beginning m.gwPacket) m.gwPacket)) ∧
      m'.gw.flashPageDataCnt ≤ flashPageSize := by
  have hd : ((List.range' 0 6).map (m.rxAt b)).headD 0 = m.rxAt b 0 := rfl
  have hrx : AllIn ((List.range' 0 6).map .rx) := allIn_rx.2 (Or.inr (by decide))
  simp only [cmdGwWr, yields_bind, yields_rxBytes, hd, yields_ite]
  by_cases h1 : m.rxAt b 0 = 1
  · simp only [h1, if_true, true_implies]
    rw [if_neg (by decide)]
    refine (gwBitstreamToFlash_bounds (by exact h0) (by exact hs)).mono ?_
    rintro _ m' ⟨ha, hc⟩
    refine ⟨?_, hc⟩
    rw [ha]
    simp only [allIn_append, hrx, and_true]
    rfl
  · simp only [h1, if_false]
    split
    · simpa [hrx] using hs
    · split <;> simpa [hrx] using hs

/-! ## Any packet -/

/-- What a packet must be, in the state it comes to. -/
def Fits (b : Board) (p : Packet) (s : GwState) : Prop :=
  match Command.ofCode p.command with
  | some .analogValRd => AnalogFits p
  | some .memoryWr | some .memoryRd =>
    -- for the EEPROM
    p.dataField[10] = 0 → p.dataField[11] = 3 → p.dataField[0] = 0 → p.dataField[5].toNat ≤ 32
  | some .gwWr =>
    p.dataField[0] = 1 → GwFits b (s.beginning ⟨p.dataField⟩) ⟨p.dataField⟩
  | _ => True

/-- What a command does to the arrays, and what it keeps of the page buffer. -/
structure Bounded (cond : Prop) (m m' : Machine) : Prop where
  bounds : AllIn m'.accesses ↔ cond
  page : m.gw.flashPageDataCnt ≤ flashPageSize → m'.gw.flashPageDataCnt ≤ flashPageSize

theorem Bounded.of_keeps {c : Ctr Unit} {m₀ : Machine} (hk : Keeps (Quiet m₀) c)
    (h0 : AllIn m₀.accesses) : Bounded True m₀ (c m₀).2 :=
  have h := hk m₀ .refl
  ⟨by simpa [h0] using h.1, fun hc => by rw [h.2]; exact hc⟩

theorem Bounded.of_yields {c : Ctr Unit} {m₀ : Machine} {cond : Prop}
    (hy : Yields c m₀ fun _ m' => (AllIn m'.accesses ↔ AllIn m₀.accesses ∧ cond) ∧
      (m₀.gw.flashPageDataCnt ≤ flashPageSize → m'.gw.flashPageDataCnt ≤ flashPageSize))
    (h0 : AllIn m₀.accesses) : Bounded cond m₀ (c m₀).2 := by
  obtain ⟨a, m', hc, hb, hp⟩ := hy
  rw [hc]
  exact ⟨by simpa [h0] using hb, hp⟩

theorem handle_bounded (fuel : Nat) (hs : m.gw.flashPageDataCnt ≤ flashPageSize) :
    Bounded (Fits b p m.gw) (m.receive p) (handle b fuel p m).2 := by
  have h0 : AllIn (m.receive p).accesses := allIn_nil
  have hx : ∀ i (hi : i < 56), (m.receive p).rxAt b i = p.dataField[i] := fun i hi => by
    rw [Machine.rxAt, byteAt, dif_pos hi]
    rfl
  have hmem : ∀ {c : UInt8 → Ctr Unit}, (∀ v m, Yields (c v) m fun _ m' =>
      (AllIn m'.accesses ↔ AllIn m.accesses ∧ v.toNat ≤ 32) ∧ m'.gw = m.gw) →
      Bounded (p.dataField[10] = 0 → p.dataField[11] = 3 → p.dataField[0] = 0 →
        p.dataField[5].toNat ≤ 32) (m.receive p) (forEeprom b c (m.receive p)).2 := by
    intro c hc
    refine .of_yields ((forEeprom_bounds hc).mono ?_) h0
    rintro _ m' ⟨ha, hg⟩
    rw [hx 10 (by decide), hx 11 (by decide), hx 0 (by decide), hx 5 (by decide)] at ha
    exact ⟨ha, fun h => by rw [hg]; exact h⟩
  rw [handle, dispatch, Fits]
  rcases Command.ofCode p.command with _ | c
  · exact .of_keeps quiet_setStatus h0
  cases c with
  | getInfo => exact .of_keeps quiet_cmdGetInfo h0
  | lmsRst => exact .of_keeps quiet_cmdLmsRst h0
  | lms7002Wr | brdspi16Wr => exact .of_keeps quiet_spiWrBlocks h0
  | lms7002Rd | brdspi16Rd => exact .of_keeps quiet_spiRdBlocks h0
  | adf4002Wr => exact .of_keeps quiet_cmdAdf4002Wr h0
  | analogValWr => exact .of_keeps quiet_cmdAnalogValWr h0
  | si5351Wr => exact .of_keeps quiet_cmdSi5351Wr h0
  | si5351Rd => exact .of_keeps quiet_cmdSi5351Rd h0
  | lmsMcuFwWr => exact .of_keeps quiet_cmdLmsMcuFwWr h0
  | gpioDirWr | gpioWr => exact .of_keeps quiet_gpioWr h0
  | gpioDirRd | gpioRd => exact .of_keeps quiet_gpioRd h0
  | memoryWr => exact hmem fun _ _ => memoryWr_bounds
  | memoryRd =>
    dsimp only
    rw [cmdMemoryRd_eq]
    exact hmem fun _ _ => by
      rw [yields_bind, yields_rxByte]
      exact memoryRd_bounds.mono fun _ _ h => by simpa [Machine.access] using h
  | analogValRd =>
    refine .of_yields (cmdAnalogValRd_bounds.mono ?_) h0
    rintro _ m' ⟨ha, hg⟩
    rw [analogFits_iff rfl] at ha
    exact ⟨ha, fun h => by rw [hg]; exact h⟩
  | gwWr =>
    refine .of_yields ((cmdGwWr_bounds (m := m.receive p) rfl hs).mono ?_) h0
    rintro _ m' ⟨ha, hc⟩
    rw [hx 0 (by decide)] at ha
    exact ⟨ha, fun _ => hc⟩

end

/-! ## Any sequence of packets -/

/-- A packet and what the devices answer while it is handled. -/
structure Request where
  board : Board
  fuel : Nat
  packet : Packet

/-- The processor when it enters `while (1)`. -/
def Machine.boot (dacVal : UInt8) : Machine where
  rx := .replicate dataFieldSize 0
  header := ⟨0, 0, 0⟩
  tx := .replicate dataFieldSize 0
  status := .busy
  cmdErrors := 0
  dacVal := dacVal
  lastPortion := 0
  gw := ⟨0, 0, 0, 0, 0, .replicate flashPageSize 0⟩
  accesses := []
  ops := []
  nextNack := 0
  nextI2cByte := 0
  nextSpiBytes := 0
  nextFlashStatus := 0
  nextMcuStatus := 0

def Machine.serve (m : Machine) (rs : List Request) : Machine :=
  rs.foldl (fun m r => (handle r.board r.fuel r.packet m).2) m

theorem serve_page {m : Machine} (h : m.gw.flashPageDataCnt ≤ flashPageSize) (rs : List Request) :
    (m.serve rs).gw.flashPageDataCnt ≤ flashPageSize := by
  induction rs generalizing m with
  | nil => exact h
  | cons r rs ih => exact ih ((handle_bounded r.fuel h).page h)

/-- In every state, whatever the devices answer: all accesses of a packet are inside exactly when it
    fits. -/
theorem accesses_in_bounds_iff (dacVal : UInt8) (rs : List Request) (b : Board) (fuel : Nat)
    (p : Packet) :
    (∀ a ∈ (handle b fuel p ((Machine.boot dacVal).serve rs)).2.accesses, a.InBounds) ↔
      Fits b p ((Machine.boot dacVal).serve rs).gw :=
  (handle_bounded fuel (serve_page (Nat.zero_le _) rs)).bounds

/-- A board on which everything answers at once. -/
def Board.quiet : Board where
  nack := fun _ => false
  i2cByte := fun _ => 0
  spiBytes := fun _ => (0, 0)
  flashStatus := fun _ => 0x40
  mcuStatus := fun _ => 0x41
  stray := fun _ => 0

/-- Fifteen blocks of channel 0: the answer to the last one goes behind `Data_field`. -/
theorem analog_fifteen_blocks :
    ¬ ∀ a ∈ (handle .quiet 0 ⟨⟨0x62, 15, 0⟩, .replicate dataFieldSize 0⟩ (.boot 134)).2.accesses,
      a.InBounds := by
  decide +kernel

end Fw
