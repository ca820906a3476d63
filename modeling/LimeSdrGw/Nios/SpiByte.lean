import LimeSdrGw.Nios.SpiMaster
/-
# One byte through `spi_lms`

A byte is `Primed` in the holding register, `Shifting` through the states of the shifter, `Received` when
`RRDY` stands. The accesses of the processor touch it at two places only, where the byte is handed over
and where it is taken back; in between the clocks run through the states whatever the port does.
-/
namespace Nios

open Clocked

namespace SpiMaster

/-- Nothing is being sent, nothing waits to be read. -/
structure Rest (s : SpiMaster) : Prop where
  transmitting : s.transmitting = false
  primed : s.txHoldingPrimed = false
  slowcount : s.slowcount = 0
  state : s.state = 0
  stateZero : s.stateZero = true
  sclk : s.sclkReg = false
  rrdy : s.rrdy = false

/-- `b` waits for the shift register. -/
structure Primed (s : SpiMaster) (b : BitVec 8) : Prop where
  transmitting : s.transmitting = false
  primed : s.txHoldingPrimed = true
  holding : s.txHoldingReg = b
  slowcount : s.slowcount = 0
  state : s.state = 0
  stateZero : s.stateZero = true
  sclk : s.sclkReg = false
  rrdy : s.rrdy = false

/-- `b` is being sent, and the bits `m` have come back. The clock rises at the ends of the odd states and
    falls at those of the even ones. -/
structure Shifting (s : SpiMaster) (b : BitVec 8) (m : List Bool) : Prop where
  transmitting : s.transmitting = true
  primed : s.txHoldingPrimed = false
  slowcount : s.slowcount ≤ 24
  state : s.state ≤ 17
  stateZero : s.stateZero = (s.state == 0)
  sclk : s.sclkReg = (s.state != 0 && s.state % 2 == 0)
  rises : m.length = s.state / 2
  shift : s.shiftReg = (m.take ((s.state - 1) / 2)).foldl shiftIn b
  miso : s.sclkReg = true → m.getLast? = some s.misoReg
  rrdy : s.rrdy = false

/-- All of `m` has come back. -/
structure Received (s : SpiMaster) (m : List Bool) : Prop where
  transmitting : s.transmitting = false
  primed : s.txHoldingPrimed = false
  slowcount : s.slowcount = 0
  state : s.state = 0
  stateZero : s.stateZero = true
  sclk : s.sclkReg = false
  rrdy : s.rrdy = true
  length : m.length = 8
  rxHolding : s.rxHoldingReg = word 8 m

section

variable {s : SpiMaster} {acc : Option Access} {miso : Bool} {b : BitVec 8} {m : List Bool}

/-- The second clock of a write to the status register, which no driver makes. -/
def ClearsStatus (s : SpiMaster) (acc : Option Access) : Bool :=
  s.wrStrobe && (acc.map Access.addr).getD 0 == Access.status

/-- What the clock does on the wires: whether it rises, and the bit that goes out then. -/
def risesOn (s : SpiMaster) (acc : Option Access) (miso : Bool) : Option (Bool × Bool) :=
  if !s.sclkReg && (s.step acc miso).sclkReg then some (s.mosi, miso) else none

theorem Rest.step (h : s.Rest) (hw : s.dataWrStrobe = false) : (s.step acc miso).Rest := by
  constructor <;>
    simp [SpiMaster.step, byteEnds, slowclock, writeTxHolding, writeShiftReg, hw, h.transmitting,
      h.primed, h.slowcount, h.state, h.stateZero, h.sclk, h.rrdy]

theorem Rest.quiet (h : s.Rest) : s.risesOn acc miso = none := by
  simp [risesOn, SpiMaster.step, slowclock, h.sclk, h.slowcount]

/-- The second clock of a write to the data register. -/
theorem Rest.load {d : BitVec 16} (h : s.Rest) (hw : s.dataWrStrobe = true) :
    (s.step (some (.write Access.txdata d)) miso).Primed (d.setWidth 8) := by
  constructor <;>
    simp [SpiMaster.step, byteEnds, slowclock, writeTxHolding, writeShiftReg, trdy, hw, h.transmitting,
      h.primed, h.slowcount, h.state, h.stateZero, h.sclk, h.rrdy, Access.dataFromCpu]

theorem Primed.step (h : s.Primed b) (hw : s.dataWrStrobe = false) :
    (s.step acc miso).Shifting b [] := by
  constructor <;>
    simp [SpiMaster.step, byteEnds, slowclock, writeTxHolding, writeShiftReg, hw, h.transmitting,
      h.primed, h.holding, h.slowcount, h.state, h.stateZero, h.sclk, h.rrdy]

theorem Primed.quiet (h : s.Primed b) : s.risesOn acc miso = none := by
  simp [risesOn, SpiMaster.step, slowclock, h.sclk, h.slowcount]

theorem Received.step (h : s.Received m) (hw : s.dataWrStrobe = false)
    (hr : s.dataRdStrobe = false) (hc : s.ClearsStatus acc = false) :
    (s.step acc miso).Received m := by
  have hst : s.wrStrobe = false ∨ ¬ (acc.map Access.addr).getD 0#3 = Access.status := by
    simpa [ClearsStatus, Decidable.imp_iff_not_or] using hc
  constructor <;>
    simp [SpiMaster.step, byteEnds, slowclock, writeTxHolding, writeShiftReg, hw, hr, hst,
      h.transmitting, h.primed, h.slowcount, h.state, h.stateZero, h.sclk, h.rrdy, h.length,
      h.rxHolding]

/-- The second clock of a read of the data register. -/
theorem Received.take (h : s.Received m) (hw : s.dataWrStrobe = false)
    (hr : s.dataRdStrobe = true) : (s.step acc miso).Rest := by
  constructor <;>
    simp [SpiMaster.step, byteEnds, slowclock, writeTxHolding, writeShiftReg, hw, hr,
      h.transmitting, h.primed, h.slowcount, h.state, h.stateZero, h.sclk, h.rrdy]

theorem Received.quiet (h : s.Received m) : s.risesOn acc miso = none := by
  simp [risesOn, SpiMaster.step, slowclock, h.sclk, h.slowcount]

variable (acc miso) in
/-- Between two slow clocks. -/
theorem Shifting.wait (h : s.Shifting b m) (hw : s.dataWrStrobe = false) (hs : s.slowcount < 24) :
    (s.step acc miso).Shifting b m ∧ s.risesOn acc miso = none ∧
      (s.step acc miso).state = s.state ∧ (s.step acc miso).slowcount = s.slowcount + 1 := by
  have hslow : s.slowclock = false := by
    rw [slowclock, beq_eq_false_iff_ne]
    omega
  have hstate : (s.step acc miso).state = s.state := by simp [SpiMaster.step, hslow]
  have hcount : (s.step acc miso).slowcount = s.slowcount + 1 := by
    simp [SpiMaster.step, hslow, h.transmitting]
  have hsclk : (s.step acc miso).sclkReg = s.sclkReg := by simp [SpiMaster.step, hslow]
  refine ⟨?_, ?_, hstate, hcount⟩
  · constructor
    · simp [SpiMaster.step, byteEnds, hslow, h.transmitting]
    · simp [SpiMaster.step, writeTxHolding, hw, h.primed]
    · rw [hcount]
      exact hs
    · rw [hstate]
      exact h.state
    · rw [hstate, ← h.stateZero]
      simp [SpiMaster.step, hslow]
    · rw [hsclk, hstate]
      exact h.sclk
    · rw [hstate]
      exact h.rises
    · rw [hstate, ← h.shift]
      simp [SpiMaster.step, hslow, writeShiftReg, h.primed]
    · rw [hsclk]
      intro hc
      rw [h.miso hc]
      simp [SpiMaster.step, hslow]
    · simp [SpiMaster.step, byteEnds, hslow, h.rrdy]
  · simp [risesOn, hsclk]

variable (acc miso) in
/-- The registers a slow clock within a byte moves on. -/
theorem Shifting.slow_eqs (h : s.Shifting b m) (hs : s.slowcount = 24) (hk : s.state < 17)
    (hw : s.dataWrStrobe = false) :
    (s.step acc miso).transmitting = true ∧ (s.step acc miso).txHoldingPrimed = false ∧
      (s.step acc miso).slowcount = 0 ∧ (s.step acc miso).state = s.state + 1 ∧
      (s.step acc miso).stateZero = false ∧ (s.step acc miso).rrdy = false ∧
      (s.step acc miso).sclkReg = (decide (s.state ≠ 0) && !s.sclkReg) ∧
      (s.step acc miso).shiftReg = (if s.sclkReg then shiftIn s.shiftReg s.misoReg else s.shiftReg) ∧
      (s.step acc miso).misoReg = if s.sclkReg then s.misoReg else miso := by
  have hslow : s.slowclock = true := by rw [slowclock, hs]; rfl
  have hne : s.state ≠ 17 := Nat.ne_of_lt hk
  have hends : s.byteEnds = false := by simp [byteEnds, hne]
  refine ⟨?_, ?_, ?_, ?_, ?_, ?_, ?_, ?_, ?_⟩
  · simp [SpiMaster.step, hends, h.transmitting]
  · simp [SpiMaster.step, writeTxHolding, hw, h.primed]
  · simp [SpiMaster.step, hslow]
  · simp [SpiMaster.step, hslow, h.transmitting, hne]
  · simp [SpiMaster.step, hslow, h.transmitting, hne]
  · simp [SpiMaster.step, hends, h.rrdy]
  · have hlow : s.state = 0 → s.sclkReg = false := by
      intro h0
      rw [h.sclk, h0]
      rfl
    by_cases h0 : s.state = 0
    · simp [SpiMaster.step, hslow, h0, hlow h0]
    · simp [SpiMaster.step, hslow, hne, h0, h.transmitting]
  · cases hc : s.sclkReg <;> simp [SpiMaster.step, hslow, hc, writeShiftReg, h.primed]
  · cases hc : s.sclkReg <;> simp [SpiMaster.step, hslow, hc]

/-- The end of state 0 has no edge. -/
theorem Shifting.first (h : s.Shifting b m) (hs : s.slowcount = 24) (h0 : s.state = 0)
    (hw : s.dataWrStrobe = false) :
    (s.step acc miso).Shifting b m ∧ s.risesOn acc miso = none := by
  obtain ⟨e1, e2, e3, e4, e5, e6, e7, e8, -⟩ := h.slow_eqs acc miso hs (by omega) hw
  have hlow : s.sclkReg = false := by
    rw [h.sclk, h0]
    rfl
  have hm : m = [] := by
    have := h.rises
    rw [h0] at this
    exact List.eq_nil_of_length_eq_zero this
  have hsclk : (s.step acc miso).sclkReg = false := by rw [e7, h0]; rfl
  refine ⟨⟨e1, e2, by omega, by omega, ?_, ?_, ?_, ?_, ?_, e6⟩, ?_⟩
  · rw [e5, e4, h0]
    rfl
  · rw [hsclk, e4, h0]
    rfl
  · rw [hm, e4, h0]
    rfl
  · rw [e8, hlow, hm, h.shift, hm]
    simp
  · rw [hsclk]
    exact fun hc => absurd hc (by decide)
  · simp [risesOn, hsclk]

/-- The end of an odd state: the clock rises, and the bit that is there is taken. -/
theorem Shifting.rise (h : s.Shifting b m) (hs : s.slowcount = 24) (hk : s.state < 17)
    (hodd : s.state % 2 = 1) (hw : s.dataWrStrobe = false) :
    (s.step acc miso).Shifting b (m ++ [miso]) ∧
      s.risesOn acc miso = some (b.getMsbD m.length, miso) := by
  obtain ⟨e1, e2, e3, e4, e5, e6, e7, e8, e9⟩ := h.slow_eqs acc miso hs hk hw
  have hlow : s.sclkReg = false := by
    rw [h.sclk, hodd]
    simp
  have hsclk : (s.step acc miso).sclkReg = true := by
    rw [e7, hlow]
    simp only [Bool.not_false, Bool.and_true, decide_eq_true_eq]
    omega
  have hlen := h.rises
  have hall : m.take ((s.state - 1) / 2) = m := List.take_of_length_le (by omega)
  refine ⟨⟨e1, e2, by omega, by omega, ?_, ?_, ?_, ?_, ?_, e6⟩, ?_⟩
  · rw [e5, e4]
    simp
  · rw [hsclk, e4]
    have : (s.state + 1) % 2 = 0 := by omega
    simp [this]
  · rw [e4, List.length_append, hlen, List.length_singleton]
    omega
  · have htake : (m ++ [miso]).take ((s.state + 1 - 1) / 2) = m := by
      have hidx : (s.state + 1 - 1) / 2 = m.length := by omega
      rw [hidx, List.take_left]
    rw [e8, hlow, e4, htake, h.shift, hall]
    rfl
  · rw [e9, hlow]
    simp
  · have hbit : s.mosi = b.getMsbD m.length := by
      rw [mosi, h.shift, hall]
      exact getMsbD_zero_foldl_shiftIn b m (by omega)
    simp [risesOn, hlow, hsclk, hbit]

/-- The end of an even state: the clock falls, and the next bit goes out. -/
theorem Shifting.fall (h : s.Shifting b m) (hs : s.slowcount = 24) (h0 : s.state ≠ 0) (hk : s.state < 17)
    (heven : s.state % 2 = 0) (hw : s.dataWrStrobe = false) :
    (s.step acc miso).Shifting b m ∧ s.risesOn acc miso = none := by
  obtain ⟨e1, e2, e3, e4, e5, e6, e7, e8, -⟩ := h.slow_eqs acc miso hs hk hw
  have hhigh : s.sclkReg = true := by
    rw [h.sclk, heven]
    simp [h0]
  have hsclk : (s.step acc miso).sclkReg = false := by rw [e7, hhigh]; simp
  have hlen := h.rises
  refine ⟨⟨e1, e2, by omega, by omega, ?_, ?_, ?_, ?_, ?_, e6⟩, ?_⟩
  · rw [e5, e4]
    simp
  · rw [hsclk, e4]
    have : (s.state + 1) % 2 = 1 := by omega
    simp [this]
  · rw [e4, hlen]
    omega
  · -- the bit taken at the rising edge is the last of `m`
    obtain ⟨l, hl⟩ := List.getLast?_eq_some_iff.1 (h.miso hhigh)
    have hidx : (s.state - 1) / 2 = l.length := by
      rw [hl, List.length_append, List.length_singleton] at hlen
      omega
    have hidx' : (s.state + 1 - 1) / 2 = m.length := by omega
    rw [e8, hhigh, e4, if_pos rfl, h.shift, hidx, hidx', List.take_length, hl, List.take_left,
      List.foldl_append]
    rfl
  · rw [hsclk]
    exact fun hc => absurd hc (by decide)
  · simp [risesOn, hhigh]

variable (acc miso) in
/-- The end of the last state. -/
theorem Shifting.ends (h : s.Shifting b m) (hs : s.slowcount = 24) (hk : s.state = 17)
    (hw : s.dataWrStrobe = false) : (s.step acc miso).Received m ∧ s.risesOn acc miso = none := by
  have hslow : s.slowclock = true := by rw [slowclock, hs]; rfl
  have hends : s.byteEnds = true := by rw [byteEnds, hslow, hk]; rfl
  have hlow : s.sclkReg = false := by
    rw [h.sclk, hk]
    rfl
  have hlen : m.length = 8 := by rw [h.rises, hk]
  refine ⟨⟨?_, ?_, ?_, ?_, ?_, ?_, ?_, hlen, ?_⟩, ?_⟩
  · simp [SpiMaster.step, hends]
  · simp [SpiMaster.step, writeTxHolding, hw, h.primed]
  · simp [SpiMaster.step, hslow]
  · simp [SpiMaster.step, hslow, h.transmitting, hk]
  · simp [SpiMaster.step, hslow, h.transmitting, hk]
  · simp [SpiMaster.step, hslow, hk]
  · simp [SpiMaster.step, hends]
  · have hall : m.take ((s.state - 1) / 2) = m := List.take_of_length_le (by omega)
    have hreg : (s.step acc miso).rxHoldingReg = s.shiftReg := by simp [SpiMaster.step, hends]
    rw [hreg, h.shift, hall]
    exact foldl_shiftIn_eq_word (by omega) b
  · simp [risesOn, SpiMaster.step, hslow, hk]

variable (acc miso) in
/-- One clock while a byte is being sent. -/
theorem Shifting.step (h : s.Shifting b m) (hw : s.dataWrStrobe = false) :
    (s.step acc miso).Shifting b m ∧ s.risesOn acc miso = none ∨
      (s.step acc miso).Shifting b (m ++ [miso]) ∧
        s.risesOn acc miso = some (b.getMsbD m.length, miso) ∨
      (s.step acc miso).Received m ∧ s.risesOn acc miso = none := by
  by_cases hs : s.slowcount = 24
  · by_cases hk : s.state = 17
    · exact .inr (.inr (h.ends acc miso hs hk hw))
    have hlt : s.state < 17 := Nat.lt_of_le_of_ne h.state hk
    by_cases h0 : s.state = 0
    · exact .inl (h.first hs h0 hw)
    rcases Nat.mod_two_eq_zero_or_one s.state with heven | hodd
    · exact .inl (h.fall hs h0 hlt heven hw)
    · exact .inr (.inl (h.rise hs hlt hodd hw))
  · have hlt : s.slowcount < 24 := Nat.lt_of_le_of_ne h.slowcount hs
    obtain ⟨hstep, hquiet, -⟩ := h.wait acc miso hw hlt
    exact .inl ⟨hstep, hquiet⟩

variable (acc miso) in
/-- A byte comes nearer to its end in every clock. -/
theorem Shifting.step_count (h : s.Shifting b m) (ht : (s.step acc miso).transmitting = true)
    (hw : s.dataWrStrobe = false) :
    25 * (s.step acc miso).state + (s.step acc miso).slowcount = 25 * s.state + s.slowcount + 1 := by
  by_cases hs : s.slowcount = 24
  · by_cases hk : s.state = 17
    · have hends := (h.ends acc miso hs hk hw).1.transmitting
      rw [hends] at ht
      exact absurd ht (by decide)
    · have hlt : s.state < 17 := Nat.lt_of_le_of_ne h.state hk
      obtain ⟨-, -, hcount, hstate, -⟩ := h.slow_eqs acc miso hs hlt hw
      omega
  · have hlt : s.slowcount < 24 := Nat.lt_of_le_of_ne h.slowcount hs
    obtain ⟨-, -, hstate, hcount⟩ := h.wait acc miso hw hlt
    omega

end

end SpiMaster

end Nios
