import LimeSdrGw.Clocked.Stream
import LimeSdrGw.Tx.Packet
/-
# `unpack_64_to_56`

64-bit words in, 128-bit words out: seven words hold 32 samples of 14 bits, which leave in the upper
bits of eight 16-bit fields each time. `data56_out` is 128 bits wide in spite of its name.

| here | there |
| --- | --- |
| `field14`           | `data64_in(lo + 13 downto lo) & "00"` |
| `formedAt`, `word128Of` | the conditions and the slices of the four processes (unpack_64_to_56.vhd:127-223) |
| `Unpack64To56`, `.step` | unpack_64_to_56.vhd:72-271 |
| `unpack56Gear`      | the same by `wr_cnt` |
| `unpacked56`        | `data56_out` in the clocks with `data_out_valid` |

The reset leaves `data64_in_reg_1` alone, so what it holds at first is a parameter.
-/
namespace Tx

open Clocked

/-- Fourteen bits from `lo` on, as a 16-bit field. -/
def field14 (w : Word64) (lo : Nat) : BitVec 16 := w.extractLsb' lo 14 ++ 0#2

structure Unpack64To56 where
  word128 : Fin 4 → Word128
  word128Valid : Fin 4 → Bool
  wrCnt : Nat
  data64InReg0 : Word64
  data64InReg1 : Word64
  muxStage010Reg : Word128
  muxStage032Reg : Word128
  muxStage130Sel : Bool
  muxStage130Reg : Word128
  dataOutValidReg : Bool
  dataOutValidPipe : Bool

namespace Unpack64To56

def init (data64InReg1 : Word64) : Unpack64To56 where
  word128 _ := 0
  word128Valid _ := false
  wrCnt := 0
  data64InReg0 := 0
  data64InReg1 := data64InReg1
  muxStage010Reg := 0
  muxStage032Reg := 0
  muxStage130Sel := false
  muxStage130Reg := 0
  dataOutValidReg := false
  dataOutValidPipe := false

/-- The count at which process `k` forms its word. -/
def formedAt : Fin 4 → Nat
  | 0 => 1
  | 1 => 3
  | 2 => 5
  | 3 => 6

/-- The word that process `k` forms of `data64_in`, `data64_in_reg_0` and `data64_in_reg_1`. -/
def word128Of (data64In reg0 reg1 : Word64) : Fin 4 → Word128
  | 0 =>
    field14 data64In 34 ++ field14 data64In 20 ++ field14 data64In 6 ++
    (data64In.extractLsb' 0 6 ++ reg0.extractLsb' 56 8 ++ 0#2) ++
    field14 reg0 42 ++ field14 reg0 28 ++ field14 reg0 14 ++ field14 reg0 0
  | 1 =>
    field14 data64In 18 ++ field14 data64In 4 ++
    (data64In.extractLsb' 0 4 ++ reg0.extractLsb' 54 10 ++ 0#2) ++
    field14 reg0 40 ++ field14 reg0 26 ++ field14 reg0 12 ++
    (reg0.extractLsb' 0 12 ++ reg1.extractLsb' 62 2 ++ 0#2) ++ field14 reg1 48
  | 2 =>
    field14 data64In 2 ++ (data64In.extractLsb' 0 2 ++ reg0.extractLsb' 52 12 ++ 0#2) ++
    field14 reg0 38 ++ field14 reg0 24 ++ field14 reg0 10 ++
    (reg0.extractLsb' 0 10 ++ reg1.extractLsb' 60 4 ++ 0#2) ++ field14 reg1 46 ++ field14 reg1 32
  | 3 =>
    field14 data64In 50 ++ field14 data64In 36 ++ field14 data64In 22 ++ field14 data64In 8 ++
    (data64In.extractLsb' 0 8 ++ reg0.extractLsb' 58 6 ++ 0#2) ++
    field14 reg0 44 ++ field14 reg0 30 ++ field14 reg0 16

variable (s : Unpack64To56)

def muxStage010 : Word128 := if s.word128Valid 0 then s.word128 0 else s.word128 1
def muxStage032 : Word128 := if s.word128Valid 2 then s.word128 2 else s.word128 3

def muxStage130 : Word128 := if s.muxStage130Sel then s.muxStage010Reg else s.muxStage032Reg

def word128ValidAny : Bool :=
  s.word128Valid 0 || s.word128Valid 1 || s.word128Valid 2 || s.word128Valid 3

def step (dataInWrreq : Bool) (data64In : Word64) : Unpack64To56 where
  word128 k := if s.wrCnt = formedAt k ∧ dataInWrreq then
      word128Of data64In s.data64InReg0 s.data64InReg1 k else s.word128 k
  word128Valid k := decide (s.wrCnt = formedAt k) && dataInWrreq
  wrCnt := if dataInWrreq then if s.wrCnt < 6 then s.wrCnt + 1 else 0 else s.wrCnt
  data64InReg0 := if dataInWrreq then data64In else s.data64InReg0
  data64InReg1 := if dataInWrreq then s.data64InReg0 else s.data64InReg1
  muxStage010Reg := s.muxStage010
  muxStage032Reg := s.muxStage032
  muxStage130Sel := s.word128Valid 0 || s.word128Valid 1
  muxStage130Reg := s.muxStage130
  dataOutValidReg := s.word128ValidAny
  dataOutValidPipe := s.dataOutValidReg

end Unpack64To56

def unpacker56 (data64InReg1 : Word64) : Machine Unpack64To56 (Bool × Word64) :=
  ⟨.init data64InReg1, fun s i => s.step i.1 i.2⟩

/-- The words `unpack_64_to_56` puts out in the clocks before `n`. -/
def unpacked56 (data64InReg1 : Word64) (x : Nat → Bool × Word64) (n : Nat) : List Word128 :=
  (unpacker56 data64InReg1).log (fun s _ => validWord s.dataOutValidPipe s.muxStage130Reg) x n

/-! ## As a converter with two words of memory -/

def unpack56Gear : Mealy (Nat × Word64 × Word64) Word64 Word128 where
  out c a :=
    match c.1 with
    | 1 => [Unpack64To56.word128Of a c.2.1 c.2.2 0]
    | 3 => [Unpack64To56.word128Of a c.2.1 c.2.2 1]
    | 5 => [Unpack64To56.word128Of a c.2.1 c.2.2 2]
    | 6 => [Unpack64To56.word128Of a c.2.1 c.2.2 3]
    | _ => []
  next c a := (if c.1 < 6 then c.1 + 1 else 0, a, c.2.1)

theorem unpack56Gear_drives (data64InReg1 : Word64) :
    unpack56Gear.Drives (unpacker56 data64InReg1) (fun i => i)
      fun s => (s.wrCnt, s.data64InReg0, s.data64InReg1) := by
  intro s i
  show (if i.1 then if s.wrCnt < 6 then s.wrCnt + 1 else 0 else s.wrCnt,
    if i.1 then i.2 else s.data64InReg0, if i.1 then s.data64InReg0 else s.data64InReg1) = _
  split <;> rfl

namespace Unpack64To56

/-- The word on its way through the multiplexers, from the stage it has got to. -/
def onItsWay : Nat → Unpack64To56 → List Word128
  | 0, s => validWord s.dataOutValidPipe s.muxStage130Reg
  | 1, s => validWord s.dataOutValidReg s.muxStage130
  | _, s => validWord s.word128ValidAny
    (if s.word128Valid 0 || s.word128Valid 1 then s.muxStage010 else s.muxStage032)

theorem onItsWay_init (data64InReg1 : Word64) (k : Nat) : onItsWay k (init data64InReg1) = [] := by
  match k with
  | 0 => rfl
  | 1 => rfl
  | k + 2 => rfl

theorem onItsWay_move (s : Unpack64To56) (i : Bool × Word64) {k : Nat} (hk : k < 2) :
    onItsWay k (s.step i.1 i.2) = onItsWay (k + 1) s := by
  match k, hk with
  | 0, _ => rfl
  | 1, _ => rfl

/-- The multiplexers choose the word that is valid. -/
theorem onItsWay_of_valid {s : Unpack64To56} {k : Fin 4}
    (h : ∀ j, s.word128Valid j = decide (j = k)) : onItsWay 2 s = [s.word128 k] := by
  match k with
  | 0 => simp [onItsWay, validWord, word128ValidAny, muxStage010, h]
  | 1 => simp [onItsWay, validWord, word128ValidAny, muxStage010, h]
  | 2 => simp [onItsWay, validWord, word128ValidAny, muxStage032, h]
  | 3 => simp [onItsWay, validWord, word128ValidAny, muxStage032, h]

theorem onItsWay_of_none {s : Unpack64To56} (h : ∀ j, s.word128Valid j = false) :
    onItsWay 2 s = [] := by
  simp [onItsWay, validWord, word128ValidAny, h]

/-- No two processes form a word at the same count. -/
theorem formedAt_inj {j k : Fin 4} : formedAt j = formedAt k ↔ j = k := by
  revert j k
  decide

theorem out_formedAt (k : Fin 4) (a reg0 reg1 : Word64) :
    unpack56Gear.out (formedAt k, reg0, reg1) a = [word128Of a reg0 reg1 k] := by
  match k with
  | 0 => rfl
  | 1 => rfl
  | 2 => rfl
  | 3 => rfl

theorem out_none {p : Nat} (h : ∀ k, p ≠ formedAt k) (a reg0 reg1 : Word64) :
    unpack56Gear.out (p, reg0, reg1) a = [] := by
  dsimp only [unpack56Gear]
  split
  · exact absurd rfl (h 0)
  · exact absurd rfl (h 1)
  · exact absurd rfl (h 2)
  · exact absurd rfl (h 3)
  · rfl

/-- What is completed in a clock. -/
theorem onItsWay_fresh (s : Unpack64To56) (i : Bool × Word64) : onItsWay 2 (s.step i.1 i.2) =
    unpack56Gear.fresh (fun i => i) (fun s => (s.wrCnt, s.data64InReg0, s.data64InReg1)) s i := by
  obtain ⟨dataInWrreq, data64In⟩ := i
  cases dataInWrreq with
  | false =>
    refine onItsWay_of_none fun j => ?_
    exact Bool.and_false _
  | true =>
    show onItsWay 2 (s.step true data64In) =
      unpack56Gear.out (s.wrCnt, s.data64InReg0, s.data64InReg1) data64In
    have hv : ∀ j, (s.step true data64In).word128Valid j = decide (s.wrCnt = formedAt j) :=
      fun j => Bool.and_true _
    by_cases hcnt : ∃ k, s.wrCnt = formedAt k
    · obtain ⟨k, hk⟩ := hcnt
      have hvalid : ∀ j, (s.step true data64In).word128Valid j = decide (j = k) := by
        intro j
        rw [hv, decide_eq_decide, hk, formedAt_inj]
        exact eq_comm
      rw [onItsWay_of_valid hvalid, hk, out_formedAt]
      exact congrArg (fun w => [w]) (if_pos ⟨hk, rfl⟩)
    · have hnot : ∀ k, s.wrCnt ≠ formedAt k := fun k hk => hcnt ⟨k, hk⟩
      rw [out_none hnot]
      refine onItsWay_of_none fun j => ?_
      rw [hv, decide_eq_false (hnot j)]

end Unpack64To56

/-- What has become complete of the words that came in, three clocks later. -/
theorem unpacked56_eq (data64InReg1 : Word64) (x : Nat → Bool × Word64) (n : Nat) :
    unpacked56 data64InReg1 x (n + 3) = unpack56Gear.run (0, 0, data64InReg1) (words x n) := by
  refine Eq.trans (Machine.log_delayed Unpack64To56.onItsWay 2 ?_ ?_ ?_ x n)
    ((unpack56Gear_drives data64InReg1).log_fresh x n)
  · intro k hk
    exact Unpack64To56.onItsWay_init data64InReg1 k
  · intro k s i hk
    exact s.onItsWay_move i hk
  · intro s i
    exact s.onItsWay_fresh i

end Tx
