import Mathlib.Algebra.GroupWithZero.Nat
import LimeSdrGw.Clocked.Registers
/-
# TX stream packets

A packet is one 128-bit header word and its payload. The header carries the payload size in bytes in
bits 23..8 (0 stands for the largest payload, 4080 bytes), the "do not synchronise" bit in bit 4 and
the 64-bit timestamp in bits 127..64.

| here | there |
| --- | --- |
| `pctMaxSize`, `pctHdrSize`, `buffCount` | `g_TX_PCT_SIZE`, `g_TX_IN_PCT_HDR_SIZE`, `g_TX_N_BUFF` (lms7_trx_top.vhd:38-40) |
| `Word128.sizeField`                     | `in_pct_data(23 downto 8)`, `inst2_q(23 downto 8)`, `infifo_data(23 downto 8)` |
| `Word128.halves`                        | a 128-bit write of `dcfifo_mixed_widths` read back in 64-bit words, low half first |
-/
namespace Tx

open Clocked

abbrev Word128 := BitVec 128
abbrev Word64 := BitVec 64

/-- Whole packet size in bytes. -/
abbrev pctMaxSize : Nat := 4096
/-- Header size in bytes. -/
abbrev pctHdrSize : Nat := 16
/-- Number of packet slots. -/
abbrev buffCount : Nat := 2

instance : NeZero buffCount := ⟨Nat.succ_ne_zero 1⟩

/-- 16-bit counters wrap. -/
def inc16 (n : Nat) : Nat := (n + 1) % 65536
def dec16 (n : Nat) : Nat := (n + 65535) % 65536

theorem inc16_of_lt {n : Nat} (h : n < 65535) : inc16 n = n + 1 := by unfold inc16; omega

theorem dec16_of_pos {n : Nat} (h : 0 < n) (h' : n < 65536) : dec16 n = n - 1 := by
  unfold dec16; omega

def Word128.hdr0 (w : Word128) : Word64 := w.extractLsb' 0 64
def Word128.hdr1 (w : Word128) : Word64 := w.extractLsb' 64 64

/-- Bits 23..8 of a 64-bit header word. -/
def Word64.sizeField (w : Word64) : Nat := (w.extractLsb' 8 16).toNat
/-- Bits 23..8 of a 128-bit word. -/
def Word128.sizeField (w : Word128) : Nat := (w.extractLsb' 8 16).toNat
/-- Bit 4 of a 64-bit header word. -/
def Word64.syncDisBit (w : Word64) : Bool := w.getLsbD 4

/-- The two 64-bit words a 128-bit word is read back as. -/
def Word128.halves (w : Word128) : List Word64 := [w.hdr0, w.hdr1]

@[simp] theorem Word128.sizeField_hdr0 (w : Word128) : Word64.sizeField w.hdr0 = w.sizeField := by
  unfold Word64.sizeField Word128.hdr0 Word128.sizeField
  congr 1
  ext i
  simp

theorem Word128.sizeField_lt (w : Word128) : w.sizeField < 65536 := BitVec.isLt _

/-- Payload of a packet in 128-bit words: 4080 bytes when the size field is 0. -/
def Word128.payloadWords (hdr : Word128) : Nat :=
  if hdr.sizeField = 0 then 255 else hdr.sizeField / 16

/-- The size fields on which the five length computations agree and the packet fits the FIFOs:
    0 and, among others, every multiple of 16 from 32 to 4080. -/
def Word128.SizeOk (hdr : Word128) : Prop :=
  hdr.sizeField = 0 ∨ (32 ≤ hdr.sizeField ∧ hdr.sizeField < 4088 ∧ hdr.sizeField % 16 < 8)

instance (hdr : Word128) : Decidable hdr.SizeOk := inferInstanceAs (Decidable (_ ∨ _))

/-- One packet of the host's TX stream. -/
structure Packet where
  hdr : Word128
  payload : List Word128
  sizeOk : hdr.SizeOk
  length_eq : payload.length = hdr.payloadWords
deriving DecidableEq

namespace Packet

def words (p : Packet) : List Word128 := p.hdr :: p.payload

/-- The payload as the packet slots hand it out. -/
def payload64 (p : Packet) : List Word64 := p.payload.flatMap Word128.halves

def timestamp (p : Packet) : Word64 := p.hdr.hdr1

/-- Header bit 4: the packet is not synchronised to the sample number. -/
def syncDis (p : Packet) : Bool := Word64.syncDisBit p.hdr.hdr0

/-- Payload length in 128-bit words. -/
def len (p : Packet) : Nat := p.payload.length

theorem two_le_len (p : Packet) : 2 ≤ p.len := by
  rw [len, p.length_eq, Word128.payloadWords]
  split
  · omega
  · have := p.sizeOk.resolve_left ‹_›; omega

theorem len_le (p : Packet) : p.len ≤ 255 := by
  rw [len, p.length_eq, Word128.payloadWords]
  split
  · omega
  · have := p.sizeOk.resolve_left ‹_›; omega

@[simp] theorem length_words (p : Packet) : p.words.length = p.len + 1 := rfl

end Packet

theorem length_flatMap_halves (l : List Word128) : (l.flatMap Word128.halves).length = 2 * l.length := by
  induction l with
  | nil => rfl
  | cons w l ih => rw [List.flatMap_cons, List.length_append, ih, List.length_cons]; simp [Word128.halves]; omega

theorem take_flatMap_halves (l : List Word128) (k : Nat) :
    (l.flatMap Word128.halves).take (2 * k) = (l.take k).flatMap Word128.halves := by
  induction l generalizing k with
  | nil => simp
  | cons w l ih =>
    cases k with
    | zero => rfl
    | succ k =>
      rw [show 2 * (k + 1) = 2 * k + 1 + 1 by omega]
      simp only [List.flatMap_cons, Word128.halves, List.cons_append, List.nil_append,
        List.take_succ_cons, ih]

/-- One more 128-bit word is two more 64-bit words. -/
theorem Packet.take_payload64_succ (p : Packet) {k : Nat} {w : Word128} (h : p.payload[k]? = some w) :
    p.payload64.take (2 * (k + 1)) = p.payload64.take (2 * k) ++ w.halves := by
  rw [payload64, take_flatMap_halves, take_flatMap_halves, List.take_add_one, h]
  simp

@[simp] theorem Packet.length_payload64 (p : Packet) : p.payload64.length = 2 * p.len :=
  length_flatMap_halves _

/-- LPM_COMPARE, unsigned: `aeb` and `alb`. -/
def lpmCompare (dataa datab : Word64) : Bool × Bool := (dataa == datab, decide (dataa < datab))

end Tx
