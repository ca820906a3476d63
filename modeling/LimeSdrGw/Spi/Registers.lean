/-
# Configuration registers

Every configuration block keeps 32 registers of 16 bits. Here are the defaults of `fpgacfg` and the
fields that steer the waveform player.

| here | there |
| --- | --- |
| `Regs`, `Regs.set` | `marray32x16`, `ram` (fpgacfg.vhd:60, 174-233) |
| `fpgacfgDefaults`  | fpgacfg.vhd:180-219 |
| `wfmPlay` ..       | fpgacfg.vhd:263-265 |
-/
namespace Spi

abbrev Regs := BitVec 5 → BitVec 16

def Regs.set (m : Regs) (a : BitVec 5) (d : BitVec 16) : Regs := fun b => if b = a then d else m b

@[simp] theorem Regs.set_same (m : Regs) (a : BitVec 5) (d : BitVec 16) : m.set a d a = d :=
  if_pos rfl

theorem Regs.set_other (m : Regs) {a b : BitVec 5} (d : BitVec 16) (h : b ≠ a) :
    m.set a d b = m b :=
  if_neg h

/-- A table of registers from address 0 on. -/
def Regs.ofList (l : List (BitVec 16)) : Regs := fun a => l.getD a.toNat 0

def fpgacfgDefaults : Regs := .ofList [
  0x0000, 0x0000, 0x0000, 0x0000,
  0x0000, 0x0000, 0x0000,
  0x0003, 0x0102, 0x0003, 0x0000, 0x0000, 0x0003, 0x0000, 0x0002, 0x03FC,
  0x0001, 0x0001, 0xFFFF, 0x6F6B, 0x0003, 0x0000, 0x0000, 0x1144,
  0x0000, 0x0000, 0x0000, 0x0000, 0x0000, 0x000F, 0x0003, 0xD090]

section fields

variable (mem : Regs)

def wfmPlay : Bool := (mem 13).getLsbD 1
def wfmLoad : Bool := (mem 13).getLsbD 2
def wfmSmplWidth : BitVec 2 := (mem 13).extractLsb' 0 2

end fields

end Spi
