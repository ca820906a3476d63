import LimeSdrGw.Nios.SpiCommand
import LimeSdrGw.Spi.RegisterFile
/-
# Registers behind a select line

What the configuration logic is for, seen from the wires: a slave that is selected by line 1 takes frames
of 32 bits, and a register holds what the last frame wrote to it. Registers that show or take over
signals of the hardware are left out (`own`).
-/
namespace Nios

open Clocked Spi

/-! ## Registers of the software's own -/

/-- Registers that read or reload signals of the hardware. -/
def hardwareRegisters : Block → List Nat
  | .fpgacfg => [3]
  | .pllcfg => [1, 2]
  | .tstcfg => [5, 7, 9, 10, 11, 12, 13, 15, 16, 17, 18, 19, 20, 22, 23, 24, 26, 27, 28]
  | .periphcfg => [2, 3, 8, 9]

def own (b : Block) (a : BitVec 5) : Bool := !(hardwareRegisters b).contains a.toNat

theorem readMux_congr {b : Block} {a : BitVec 5} (h : own b a = true) {mem mem' : Regs}
    (hmem : mem a = mem' a) (hw hw' : Hw) : b.readMux hw mem a = b.readMux hw' mem' a := by
  cases b with
  | pllcfg => exact hmem
  | tstcfg =>
    by_cases h0 : a = 0
    · subst h0
      have hmem : mem 0#5 = mem' 0#5 := hmem
      simp [Block.readMux, hmem]
    · have h0 : a.toNat ≠ 0 := fun h => h0 (BitVec.eq_of_toNat_eq h)
      simp only [Block.readMux]
      split <;> simp_all [own, hardwareRegisters]
  | _ =>
    simp only [Block.readMux]
    split <;> simp_all [own, hardwareRegisters]

theorem settle_of_own {b : Block} {a : BitVec 5} (h : own b a = true) (hw : Hw)
    (old v : BitVec 16) : b.settle hw a old v = v := by
  have hne (k : BitVec 5) (hk : k.toNat ∈ hardwareRegisters b) : a ≠ k := by
    rintro rfl
    rw [own, List.contains_iff_mem.2 hk] at h
    exact absurd h (by decide)
  cases b with
  | pllcfg => rw [Block.settle, if_neg (hne 1 (by decide)), if_neg (hne 2 (by decide))]
  | periphcfg => rw [Block.settle, if_neg (hne 3 (by decide))]
  | fpgacfg => rfl
  | tstcfg => rfl

/-! ## The slave -/

structure RegisterSlave where
  selected : Bool
  /-- Of the frame under way, or of the last one. -/
  bits : List Bool
  regs : Block → Regs

/-- What a frame does. -/
def writeFrame (m : AddressMap) (regs : Block → Regs) (f : List Bool) : Block → Regs := fun b =>
  if writesTo f (m.maddress b) then (regs b).set (registerOf f) (dataOf f) else regs b

namespace RegisterSlave

variable (m : AddressMap) (r : RegisterSlave)

/-- The select line goes to `v`. -/
def select (v : Bool) : RegisterSlave :=
  if v then { r with selected := false, bits := [] } else { r with selected := true }

def event : WireEvent → RegisterSlave
  | .ss n => r.select (n.getLsbD 1)
  | .rise mosi _ =>
    if r.selected then
      let f := CfgTop.Bus.open r.bits r.bits ++ [mosi]
      { r with bits := f, regs := if f.length = 32 then writeFrame m r.regs f else r.regs }
    else r

/-- The bit that comes back in a frame that reads a register. -/
def Answers : WireEvent → Prop
  | .ss _ => True
  | .rise _ miso => r.selected = true → 16 ≤ r.bits.length → r.bits.length < 32 →
    ∀ b, readsFrom r.bits (m.maddress b) = true → own b (registerOf r.bits) = true →
      ∀ hw, miso = (b.readMux hw (r.regs b) (registerOf r.bits)).getMsbD (r.bits.length - 16)

def run (r : RegisterSlave) : List WireEvent → RegisterSlave := List.foldl (event m) r

def Answered (r : RegisterSlave) : List WireEvent → Prop
  | [] => True
  | e :: l => Answers m r e ∧ Answered (event m r e) l

variable {m r}

theorem select_same {v : Bool} (hs : r.selected = !v) (hb : v = true → r.bits = []) :
    r.select v = r := by
  obtain ⟨selected, bits, regs⟩ := r
  obtain rfl : selected = !v := hs
  cases v with
  | false => rfl
  | true =>
    obtain rfl : bits = [] := hb rfl
    rfl

theorem run_append (l l' : List WireEvent) : run m r (l ++ l') = run m (run m r l) l' :=
  List.foldl_append

theorem answered_append {l l' : List WireEvent} :
    Answered m r (l ++ l') ↔ Answered m r l ∧ Answered m (run m r l) l' := by
  induction l generalizing r with
  | nil => exact ⟨fun h => ⟨trivial, h⟩, And.right⟩
  | cons e l ih =>
    show Answers m r e ∧ Answered m (event m r e) (l ++ l') ↔ _
    rw [ih, ← and_assoc]
    rfl

end RegisterSlave

end Nios
