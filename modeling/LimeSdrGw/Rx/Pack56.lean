import LimeSdrGw.Clocked.Stream
import LimeSdrGw.Tx.Packet
/-
# `pack_56_to_64`

56-bit words of four 14-bit samples in, 64-bit words out: eight become seven. Each of the seven is
formed in a register of its own, by the count of the words; three stages of multiplexers with registers
bring it to the output.

| here | there |
| --- | --- |
| `word64Of`          | the slices of the seven processes (pack_56_to_64.vhd:137-247) |
| `Pack56To64`, `.step` | pack_56_to_64.vhd:102-379; `word64_k_valid_pipe` is read by nothing |
| `pack56Gear`        | the same by `wr_cnt` |
| `packed56`          | `data64_out` in the clocks with `data_out_valid` |
-/
namespace Rx

open Clocked Tx

abbrev Word56 := BitVec 56

structure Pack56To64 where
  word64 : Fin 7 → Word64
  word64Valid : Fin 7 → Bool
  wrCnt : Nat
  data56InReg : Word56
  muxStage0X0Reg : Word64
  muxStage021Reg : Word64
  muxStage043Reg : Word64
  muxStage065Reg : Word64
  muxStage120Sel : Bool
  muxStage163Sel0 : Bool
  muxStage163Sel1 : Bool
  muxStage120Reg : Word64
  muxStage163Reg : Word64
  muxStage260Sel : Bool
  muxStage260Reg : Word64
  dataOutValidReg : Bool
  dataOutValidPipe0 : Bool
  dataOutValidPipe1 : Bool

namespace Pack56To64

def init : Pack56To64 where
  word64 _ := 0
  word64Valid _ := false
  wrCnt := 0
  data56InReg := 0
  muxStage0X0Reg := 0
  muxStage021Reg := 0
  muxStage043Reg := 0
  muxStage065Reg := 0
  muxStage120Sel := false
  muxStage163Sel0 := false
  muxStage163Sel1 := false
  muxStage120Reg := 0
  muxStage163Reg := 0
  muxStage260Sel := false
  muxStage260Reg := 0
  dataOutValidReg := false
  dataOutValidPipe0 := false
  dataOutValidPipe1 := false

/-- The word that process `k` forms of `data56_in` and `data56_in_reg`. -/
def word64Of (data56In reg : Word56) : Fin 7 → Word64
  | 0 => data56In.extractLsb' 0 8 ++ reg
  | 1 => data56In.extractLsb' 0 16 ++ reg.extractLsb' 8 48
  | 2 => data56In.extractLsb' 0 24 ++ reg.extractLsb' 16 40
  | 3 => data56In.extractLsb' 0 32 ++ reg.extractLsb' 24 32
  | 4 => data56In.extractLsb' 0 40 ++ reg.extractLsb' 32 24
  | 5 => data56In.extractLsb' 0 48 ++ reg.extractLsb' 40 16
  | 6 => data56In ++ reg.extractLsb' 48 8

variable (s : Pack56To64)

def muxStage0X0 : Word64 := if s.word64Valid 0 then s.word64 0 else 0
def muxStage021 : Word64 := if s.word64Valid 1 then s.word64 1 else s.word64 2
def muxStage043 : Word64 := if s.word64Valid 3 then s.word64 3 else s.word64 4
def muxStage065 : Word64 := if s.word64Valid 5 then s.word64 5 else s.word64 6

def muxStage120 : Word64 := if s.muxStage120Sel then s.muxStage021Reg else s.muxStage0X0Reg
def muxStage163 : Word64 := if s.muxStage163Sel1 then s.muxStage065Reg else s.muxStage043Reg

def muxStage260 : Word64 := if s.muxStage260Sel then s.muxStage163Reg else s.muxStage120Reg

def word64ValidAny : Bool :=
  s.word64Valid 0 || s.word64Valid 1 || s.word64Valid 2 || s.word64Valid 3 || s.word64Valid 4 ||
    s.word64Valid 5 || s.word64Valid 6

/-- Process `k` waits for count `k + 1`. -/
def step (dataInWrreq : Bool) (data56In : Word56) : Pack56To64 where
  word64 k := if s.wrCnt = k + 1 ∧ dataInWrreq then word64Of data56In s.data56InReg k else s.word64 k
  word64Valid k := decide (s.wrCnt = k + 1) && dataInWrreq
  wrCnt := if dataInWrreq then if s.wrCnt < 7 then s.wrCnt + 1 else 0 else s.wrCnt
  data56InReg := if dataInWrreq then data56In else s.data56InReg
  muxStage0X0Reg := s.muxStage0X0
  muxStage021Reg := s.muxStage021
  muxStage043Reg := s.muxStage043
  muxStage065Reg := s.muxStage065
  muxStage120Sel := s.word64Valid 1 || s.word64Valid 2
  muxStage163Sel0 := s.word64Valid 3 || s.word64Valid 4
  muxStage163Sel1 := s.word64Valid 5 || s.word64Valid 6
  muxStage120Reg := s.muxStage120
  muxStage163Reg := s.muxStage163
  muxStage260Sel := s.muxStage163Sel0 || s.muxStage163Sel1
  muxStage260Reg := s.muxStage260
  dataOutValidReg := s.word64ValidAny
  dataOutValidPipe0 := s.dataOutValidReg
  dataOutValidPipe1 := s.dataOutValidPipe0

end Pack56To64

def packer56 : Machine Pack56To64 (Bool × Word56) := ⟨.init, fun s i => s.step i.1 i.2⟩

/-- The words `pack_56_to_64` puts out in the clocks before `n`. -/
def packed56 (x : Nat → Bool × Word56) (n : Nat) : List Word64 :=
  packer56.log (fun s _ => validWord s.dataOutValidPipe1 s.muxStage260Reg) x n

/-! ## As a gear -/

def pack56Gear : Mealy (Nat × Word56) Word56 Word64 where
  out c a := if h : 0 < c.1 ∧ c.1 ≤ 7 then [Pack56To64.word64Of a c.2 ⟨c.1 - 1, by omega⟩] else []
  next c a := (if c.1 < 7 then c.1 + 1 else 0, a)

theorem pack56Gear_out {p : Nat} {reg a : Word56} (h : 0 < p ∧ p ≤ 7) :
    pack56Gear.out (p, reg) a = [Pack56To64.word64Of a reg ⟨p - 1, by omega⟩] := dif_pos h

theorem pack56Gear_out_none {p : Nat} {reg a : Word56} (h : ¬ (0 < p ∧ p ≤ 7)) :
    pack56Gear.out (p, reg) a = [] := dif_neg h

theorem pack56Gear_drives : pack56Gear.Drives packer56 (fun i => i)
    fun s => (s.wrCnt, s.data56InReg) := by
  intro s i
  show (if i.1 then if s.wrCnt < 7 then s.wrCnt + 1 else 0 else s.wrCnt,
    if i.1 then i.2 else s.data56InReg) = _
  split <;> rfl

namespace Pack56To64

/-- The word on its way through the multiplexers, from the stage it has got to. -/
def onItsWay : Nat → Pack56To64 → List Word64
  | 0, s => validWord s.dataOutValidPipe1 s.muxStage260Reg
  | 1, s => validWord s.dataOutValidPipe0 s.muxStage260
  | 2, s => validWord s.dataOutValidReg
    (if s.muxStage163Sel0 || s.muxStage163Sel1 then s.muxStage163 else s.muxStage120)
  | _, s => validWord s.word64ValidAny
    (if (s.word64Valid 3 || s.word64Valid 4) || (s.word64Valid 5 || s.word64Valid 6) then
      if s.word64Valid 5 || s.word64Valid 6 then s.muxStage065 else s.muxStage043
    else if s.word64Valid 1 || s.word64Valid 2 then s.muxStage021 else s.muxStage0X0)

theorem onItsWay_init (k : Nat) : onItsWay k init = [] := by
  match k with
  | 0 => rfl
  | 1 => rfl
  | 2 => rfl
  | k + 3 => rfl

theorem onItsWay_move (s : Pack56To64) (i : Bool × Word56) {k : Nat} (hk : k < 3) :
    onItsWay k (s.step i.1 i.2) = onItsWay (k + 1) s := by
  match k, hk with
  | 0, _ => rfl
  | 1, _ => rfl
  | 2, _ => rfl

/-- The multiplexers choose the word that is valid. -/
theorem onItsWay_of_valid {s : Pack56To64} {k : Fin 7} (h : ∀ j, s.word64Valid j = decide (j = k)) :
    onItsWay 3 s = [s.word64 k] := by
  match k with
  | 0 => simp [onItsWay, validWord, word64ValidAny, muxStage0X0, h]
  | 1 => simp [onItsWay, validWord, word64ValidAny, muxStage021, h]
  | 2 => simp [onItsWay, validWord, word64ValidAny, muxStage021, h]
  | 3 => simp [onItsWay, validWord, word64ValidAny, muxStage043, h]
  | 4 => simp [onItsWay, validWord, word64ValidAny, muxStage043, h]
  | 5 => simp [onItsWay, validWord, word64ValidAny, muxStage065, h]
  | 6 => simp [onItsWay, validWord, word64ValidAny, muxStage065, h]

theorem onItsWay_of_none {s : Pack56To64} (h : ∀ j, s.word64Valid j = false) :
    onItsWay 3 s = [] := by
  simp [onItsWay, validWord, word64ValidAny, h]

/-- What is completed in a clock. -/
theorem onItsWay_fresh (s : Pack56To64) (i : Bool × Word56) : onItsWay 3 (s.step i.1 i.2) =
    pack56Gear.fresh (fun i => i) (fun s => (s.wrCnt, s.data56InReg)) s i := by
  obtain ⟨dataInWrreq, data56In⟩ := i
  cases dataInWrreq with
  | false =>
    refine onItsWay_of_none fun j => ?_
    exact Bool.and_false _
  | true =>
    show onItsWay 3 (s.step true data56In) = pack56Gear.out (s.wrCnt, s.data56InReg) data56In
    have hv : ∀ j, (s.step true data56In).word64Valid j = decide (s.wrCnt = j + 1) :=
      fun j => Bool.and_true _
    by_cases hcnt : 0 < s.wrCnt ∧ s.wrCnt ≤ 7
    · have hvalid : ∀ j, (s.step true data56In).word64Valid j =
          decide (j = ⟨s.wrCnt - 1, by omega⟩) := by
        intro j
        rw [hv, decide_eq_decide, Fin.ext_iff]
        show s.wrCnt = j.val + 1 ↔ j.val = s.wrCnt - 1
        omega
      have hcnt' : s.wrCnt = s.wrCnt - 1 + 1 := by omega
      rw [onItsWay_of_valid hvalid, pack56Gear_out hcnt]
      exact congrArg (fun w => [w]) (if_pos ⟨hcnt', rfl⟩)
    · rw [pack56Gear_out_none hcnt]
      refine onItsWay_of_none fun j => ?_
      rw [hv, decide_eq_false_iff_not]
      omega

end Pack56To64

/-- The packing of what came in, four clocks later. -/
theorem packed56_eq (x : Nat → Bool × Word56) (n : Nat) :
    packed56 x (n + 4) = pack56Gear.run (0, 0) (words x n) := by
  refine Eq.trans (Machine.log_delayed Pack56To64.onItsWay 3 ?_ ?_ ?_ x n)
    (pack56Gear_drives.log_fresh x n)
  · intro k hk
    exact Pack56To64.onItsWay_init k
  · intro k s i hk
    exact s.onItsWay_move i hk
  · intro s i
    exact s.onItsWay_fresh i

end Rx
