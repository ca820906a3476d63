import LimeSdrGw.Clocked.Progress
import LimeSdrGw.Nios.SpiByte
import LimeSdrGw.Nios.SpiCommand
/-
# A command on the wires

Only one byte is under way at a time (`credits`), so that the driver and the master go through a command
hand in hand: `Stage` names where both of them stand, what the slaves have seen of the command, and how
far the end is. Each clock leads from one stage to the next, whenever the processor comes by.
-/
namespace Nios

open Clocked

/-! ## Bytes and bits -/

@[simp] theorem packBytes_nil : packBytes [] = [] := rfl

theorem length_packBytes (l : List Bool) : (packBytes l).length = l.length / 8 := by
  simp [packBytes]

theorem packBytes_append {l m : List Bool} {k : Nat} (hl : l.length = 8 * k) (hm : m.length = 8) :
    packBytes (l ++ m) = packBytes l ++ [word 8 m] := by
  have hk : (l ++ m).length / 8 = k + 1 := by
    rw [List.length_append, hl, hm]
    omega
  have hk' : l.length / 8 = k := by omega
  rw [packBytes, packBytes, hk, hk', List.range_succ, List.map_append]
  congr 1
  · apply List.map_congr_left
    intro j hj
    have hj := List.mem_range.1 hj
    rw [List.drop_append_of_le_length (by omega), List.take_append_of_le_length]
    rw [List.length_drop]
    omega
  · rw [List.map_singleton, ← hl, List.drop_left, List.take_of_length_le (Nat.le_of_eq hm)]

theorem length_flatMap_msbBits (l : List (BitVec 8)) : (l.flatMap msbBits).length = 8 * l.length := by
  induction l with
  | nil => rfl
  | cons b l ih =>
    rw [List.flatMap_cons, List.length_append, ih, List.length_cons]
    simp [msbBits]
    omega

/-- Bits that have gone out and come back; the rest of what is to be sent is not seen yet. -/
def rises (sent : List (BitVec 8)) (got : List Bool) : List WireEvent :=
  List.zipWith .rise (sent.flatMap msbBits) got

theorem zipWith_append_of_le {α β γ : Type} {f : α → β → γ} {l l' : List α} {r : List β}
    (h : r.length ≤ l.length) : List.zipWith f (l ++ l') r = List.zipWith f l r := by
  induction l generalizing r with
  | nil =>
    obtain rfl := List.eq_nil_of_length_eq_zero (Nat.le_zero.1 h)
    simp
  | cons a l ih =>
    cases r with
    | nil => rfl
    | cons b r => exact congrArg (f a b :: ·) (ih (Nat.le_of_succ_le_succ h))

theorem zipWith_concat {α β γ : Type} {f : α → β → γ} {l : List α} {r : List β} {b : β}
    (h : r.length < l.length) :
    List.zipWith f l (r ++ [b]) = List.zipWith f l r ++ [f (l[r.length]) b] := by
  induction r generalizing l with
  | nil =>
    cases l with
    | nil => exact absurd h (Nat.lt_irrefl 0)
    | cons a l => simp
  | cons c r ih =>
    cases l with
    | nil => exact absurd h (Nat.not_lt_zero _)
    | cons a l => exact congrArg (f a c :: ·) (ih (Nat.lt_of_succ_lt_succ h))

theorem rises_append_sent {sent : List (BitVec 8)} {got : List Bool} (l : List (BitVec 8))
    (h : got.length ≤ 8 * sent.length) : rises (sent ++ l) got = rises sent got := by
  rw [rises, List.flatMap_append]
  exact zipWith_append_of_le (by rw [length_flatMap_msbBits]; exact h)

theorem rises_concat {sent : List (BitVec 8)} {b : BitVec 8} {got m : List Bool} (q : Bool)
    (h : got.length = 8 * sent.length) (hm : m.length < 8) :
    rises (sent ++ [b]) (got ++ (m ++ [q])) =
      rises (sent ++ [b]) (got ++ m) ++ [.rise (b.getMsbD m.length) q] := by
  have hlen : ((sent ++ [b]).flatMap msbBits).length = 8 * sent.length + 8 := by
    rw [length_flatMap_msbBits, List.length_append, List.length_singleton, Nat.mul_add]
  have hlt : (got ++ m).length < ((sent ++ [b]).flatMap msbBits).length := by
    rw [hlen, List.length_append]
    omega
  have hbit : ((sent ++ [b]).flatMap msbBits)[(got ++ m).length] = b.getMsbD m.length := by
    have hidx : (got ++ m).length = (sent.flatMap msbBits).length + m.length := by
      rw [List.length_append, length_flatMap_msbBits, h]
    simp only [hidx, List.flatMap_append]
    rw [List.getElem_append_right (Nat.le_add_right _ _)]
    simp [msbBits]
  rw [rises, ← List.append_assoc, zipWith_concat hlt, hbit]
  rfl

/-! ## The port -/

/-- The access that is in its second clock. -/
def Driver.pending (d : Driver) : Option Access := if d.second then d.pc.access d.cmd.slave else none

/-- The strobes are those of `acc`. -/
structure Strobes (acc : Option Access) (s : SpiMaster) : Prop where
  rd : s.rdStrobe = acc.any Access.isRead
  wr : s.wrStrobe = acc.any Access.isWrite
  dataRd : s.dataRdStrobe = acc.any fun a => a.isRead && a.addr == Access.rxdata
  dataWr : s.dataWrStrobe = acc.any fun a => a.isWrite && a.addr == Access.txdata

section port

variable {d : Driver} {s : SpiMaster} {c : SpiCommand} {acc : Option Access} {go miso : Bool}
  {data : BitVec 16}

theorem Driver.step_hold (h2 : d.second = false) (hpc : d.pc ≠ .idle) :
    d.step go data = { d with second := go } := by
  obtain ⟨pc, second⟩ := d
  obtain rfl : second = false := h2
  cases go
  · rfl
  · cases pc <;> first | rfl | exact absurd rfl hpc

theorem Driver.step_next (h2 : d.second = true) :
    d.step go data = { d.next data with second := false } := by
  rw [Driver.step, if_pos h2]

theorem Driver.access_second (h2 : d.second = true) : d.access go = d.pc.access d.cmd.slave := by
  rw [Driver.access, h2]
  rfl

theorem Driver.access_hold (h2 : d.second = false) :
    d.access go = if go then d.pc.access d.cmd.slave else none := by
  rw [Driver.access, h2]
  rfl

theorem Strobes.step (h : Strobes d.pending s) :
    Strobes (d.step go data).pending (s.step (d.access go) miso) := by
  cases h2 : d.second with
  | true =>
    have hp : (d.step go data).pending = none := by rw [Driver.step_next h2]; rfl
    have ha : d.pending = d.access go := by rw [Driver.access_second h2, Driver.pending, h2]; rfl
    rw [hp]
    rw [ha] at h
    constructor <;> simp [SpiMaster.step, h.rd, h.wr]
  | false =>
    have hnone : d.pending = none := by rw [Driver.pending, h2]; rfl
    rw [hnone] at h
    have ha : (d.step go data).pending = d.access go := by
      by_cases hpc : d.pc = .idle
      · have hacc : d.access go = none := by
          rw [Driver.access_hold h2, hpc]
          cases go <;> rfl
        have hsec : (d.step go data).second = false := by
          rw [Driver.step, h2, hpc]
          cases go
          · exact h2
          · cases d.todo <;> exact h2
        rw [hacc, Driver.pending, hsec]
        rfl
      · rw [Driver.step_hold h2 hpc, Driver.access_hold h2]
        rfl
    rw [ha]
    cases hacc : d.access go with
    | none => constructor <;> simp [SpiMaster.step, h.rd, h.wr]
    | some a => constructor <;> simp [SpiMaster.step, h.rd, h.wr]

/-- The clock writes none of the control registers. -/
def Neutral (s : SpiMaster) (acc : Option Access) : Prop :=
  s.wrStrobe = false ∨ (acc.map Access.addr).getD 0#3 = 1#3

theorem Neutral.clears (h : Neutral s acc) : s.ClearsStatus acc = false := by
  rcases h with h | h
  · rw [SpiMaster.ClearsStatus, h]
    rfl
  · have haddr : (acc.map Access.addr).getD 0 = Access.txdata := h
    rw [SpiMaster.ClearsStatus, haddr]
    cases s.wrStrobe <;> rfl

theorem Neutral.sso (h : Neutral s acc) : (s.step acc miso).ssoReg = s.ssoReg := by
  rcases h with h | h
  · simp [SpiMaster.step, h]
  · simp [SpiMaster.step, h, Access.control]

theorem Neutral.holding (h : Neutral s acc) :
    (s.step acc miso).spiSlaveSelectHoldingReg = s.spiSlaveSelectHoldingReg := by
  rcases h with h | h
  · simp [SpiMaster.step, h]
  · simp [SpiMaster.step, h, Access.slaveSel]

structure Selected (s : SpiMaster) (c : SpiCommand) : Prop where
  sso : s.ssoReg = true
  reg : s.spiSlaveSelectReg = 1 <<< c.slave.val
  holding : s.spiSlaveSelectHoldingReg = 1 <<< c.slave.val

theorem Selected.step (h : Selected s c) (hn : Neutral s acc) : Selected (s.step acc miso) c := by
  refine ⟨hn.sso.trans h.sso, ?_, hn.holding.trans h.holding⟩
  simp only [SpiMaster.step, h.sso, Bool.not_true, Bool.and_false, Bool.or_false]
  split
  · exact h.holding
  · exact h.reg

theorem select_eq (k : Fin 5) : ~~~(1#16 <<< k.val).setWidth 5 = ~~~(1#5 <<< k.val) := by
  revert k
  decide

theorem Selected.ssN (h : Selected s c) : s.ssN = c.select := by
  rw [SpiMaster.ssN, h.sso, Bool.or_true, if_pos rfl, h.reg, SpiCommand.select]
  exact select_eq c.slave

theorem ssN_of_rest (h : s.Rest) (hs : s.ssoReg = false) : s.ssN = BitVec.allOnes 5 := by
  simp [SpiMaster.ssN, SpiMaster.enableSS, h.transmitting, hs]

theorem select_ne (c : SpiCommand) : c.select ≠ BitVec.allOnes 5 := by
  have key : ∀ k : Fin 5, ~~~(1#5 <<< k.val) ≠ BitVec.allOnes 5 := by decide
  exact key c.slave

/-- What the slaves see in a clock of the core. -/
def SpiMaster.wire (s : SpiMaster) (acc : Option Access) (miso : Bool) : List WireEvent :=
  (if (s.step acc miso).ssN = s.ssN then [] else [.ss (s.step acc miso).ssN]) ++
    (s.risesOn acc miso).toList.map fun p => .rise p.1 p.2

theorem SpiHost.wire_eq (s : SpiHost) (i : SpiHostIn) :
    s.wire i = s.core.wire (s.cpu.access i.go) i.miso := by
  rw [SpiHost.wire, SpiMaster.wire, SpiMaster.risesOn]
  congr 1
  show (if !s.core.sclkReg && (s.core.step (s.cpu.access i.go) i.miso).sclkReg then _ else _) = _
  split
  · rfl
  · rfl

theorem wire_of_same {r : Option (Bool × Bool)} (h : (s.step acc miso).ssN = s.ssN)
    (hr : s.risesOn acc miso = r) : s.wire acc miso = r.toList.map fun p => .rise p.1 p.2 := by
  rw [SpiMaster.wire, if_pos h, hr]
  rfl

theorem trdy_of_status : s.spiStatus &&& 0x40 = 0 ↔ s.trdy = false := by
  rw [SpiMaster.spiStatus]
  generalize s.eop = a, s.e = b, s.rrdy = c, s.trdy = d, s.tmt = e, s.toe = f, s.roe = g
  revert a b c d e f g
  decide

theorem rrdy_of_status : s.spiStatus &&& 0x80 = 0 ↔ s.rrdy = false := by
  rw [SpiMaster.spiStatus]
  generalize s.eop = a, s.e = b, s.rrdy = c, s.trdy = d, s.tmt = e, s.toe = f, s.roe = g
  revert a b c d e f g
  decide

theorem tmt_of_status : s.spiStatus &&& 0x20 = 0 ↔ s.tmt = false := by
  rw [SpiMaster.spiStatus]
  generalize s.eop = a, s.e = b, s.rrdy = c, s.trdy = d, s.tmt = e, s.toe = f, s.roe = g
  revert a b c d e f g
  decide

end port

end Nios
