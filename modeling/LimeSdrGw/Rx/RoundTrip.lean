import LimeSdrGw.Rx.BitPack
import LimeSdrGw.Tx.BitUnpack
/-
# `bit_unpack_64` undoes `bit_pack`

The two are written apart, with slices of their own. Taken as gears they are inverse to each other on
whole groups of sample words, so the wire format of the RX path is the one the TX path reads.

| here | there |
| --- | --- |
| `packer`, `packed`     | bit_pack.vhd: `data_out` in the clocks with `data_out_valid` |
| `unpacker`, `unpacked` | bit_unpack_64.vhd: the same |
| `packGear`             | pack_48_to_64.vhd:98-137 by `wr_cnt` |
| `unpackGear`           | unpack_64_to_48.vhd:97-133 by `wr_cnt` |
| `pairGear`             | unpack_64_to_64.vhd |
-/
namespace Rx

open Clocked Tx

/-! ## Slices -/

theorem extractLsb'_extractLsb' {w a b c d : Nat} (x : BitVec w) (h : c + d ≤ b) :
    (x.extractLsb' a b).extractLsb' c d = x.extractLsb' (a + c) d := by
  ext i hi
  have hlt : c + i < b := by omega
  rw [BitVec.getElem_extractLsb', BitVec.getElem_extractLsb', BitVec.getLsbD_extractLsb',
    Nat.add_assoc, decide_eq_true hlt, Bool.true_and]

/-- The 16-bit fields of a word, lowest first. -/
def fields {w : Nat} (n : Nat) (x : BitVec w) : List (BitVec 16) :=
  (List.range n).map fun k => x.extractLsb' (16 * k) 16

/-- Samples of twelve bits: the low four bits of every field are zero. -/
def TwelveBit (x : Word64) : Prop := ∀ k < 4, x.extractLsb' (16 * k) 4 = 0

instance (x : Word64) : Decidable (TwelveBit x) := inferInstanceAs (Decidable (∀ k < 4, _))

/-- Four fields of a 48-bit word. -/
def fields12 (x : Word48) : List (BitVec 16) :=
  [x.extractLsb' 0 12 ++ 0#4, x.extractLsb' 12 12 ++ 0#4, x.extractLsb' 24 12 ++ 0#4,
    x.extractLsb' 36 12 ++ 0#4]

/-- Cutting off four zeros and putting them back. -/
theorem rejoin {x : Word64} {lo : Nat} (h : x.extractLsb' lo 4 = 0) :
    x.extractLsb' (lo + 4) 12 ++ 0#4 = x.extractLsb' lo 16 :=
  calc x.extractLsb' (lo + 4) 12 ++ 0#4
      = x.extractLsb' (lo + 4) 12 ++ x.extractLsb' lo 4 := by rw [h]; rfl
    _ = x.extractLsb' lo 16 := BitVec.extractLsb'_append_extractLsb'_eq_extractLsb' rfl

theorem fields12_inst0Data48In {x : Word64} (h : TwelveBit x) :
    fields12 (inst0Data48In x) = fields 4 x := by
  have h0 := rejoin (h 0 (by decide))
  have h1 := rejoin (h 1 (by decide))
  have h2 := rejoin (h 2 (by decide))
  have h3 := rejoin (h 3 (by decide))
  simp only [fields12, inst0Data48In]
  simp (disch := decide) only [BitVec.extractLsb'_append_eq_of_add_le,
    BitVec.extractLsb'_append_eq_of_le, extractLsb'_extractLsb']
  simp only [fields, List.range, List.range.loop, List.map, List.cons.injEq, and_true]
  exact ⟨h0, h1, h2, h3⟩

/-- The first output word holds the first two sample words. -/
theorem fields_word0Of (x0 x1 x2 : Word48) :
    fields 8 (Unpack64To48.word0Of (Pack48To64.word1Of x2 x1) (Pack48To64.word0Of x1 x0)) =
      fields12 x0 ++ fields12 x1 := by
  have hsplit : x1.extractLsb' 16 8 ++ x1.extractLsb' 12 4 = x1.extractLsb' 12 12 :=
    BitVec.extractLsb'_append_extractLsb'_eq_extractLsb' rfl
  simp only [fields, List.range, List.range.loop, List.map, Unpack64To48.word0Of,
    Pack48To64.word1Of, Pack48To64.word0Of, field12, fields12]
  simp (disch := decide) only [BitVec.extractLsb'_append_eq_of_add_le,
    BitVec.extractLsb'_append_eq_of_le, extractLsb'_extractLsb']
  simp [hsplit]

/-- The second output word holds the other two. -/
theorem fields_word1Of (x1 x2 x3 : Word48) :
    fields 8 (Unpack64To48.word1Of (Pack48To64.word2Of x3 x2) (Pack48To64.word1Of x2 x1)) =
      fields12 x2 ++ fields12 x3 := by
  have hsplit : x2.extractLsb' 32 4 ++ x2.extractLsb' 24 8 = x2.extractLsb' 24 12 :=
    BitVec.extractLsb'_append_extractLsb'_eq_extractLsb' rfl
  simp only [fields, List.range, List.range.loop, List.map, Unpack64To48.word1Of,
    Pack48To64.word1Of, Pack48To64.word2Of, field12, fields12]
  simp (disch := decide) only [BitVec.extractLsb'_append_eq_of_add_le,
    BitVec.extractLsb'_append_eq_of_le, extractLsb'_extractLsb']
  simp [hsplit]

theorem fields_append (a b : Word64) : fields 8 (b ++ a) = fields 4 a ++ fields 4 b := by
  simp only [fields, List.range, List.range.loop, List.map]
  simp (disch := decide) only [BitVec.extractLsb'_append_eq_of_add_le,
    BitVec.extractLsb'_append_eq_of_le]
  rfl

/-! ## Gears -/

def packGear : Gear Word48 Word64 where
  phases := 4
  out p prev a :=
    match p with
    | 1 => [Pack48To64.word0Of a prev]
    | 2 => [Pack48To64.word1Of a prev]
    | 3 => [Pack48To64.word2Of a prev]
    | _ => []

def unpackGear : Gear Word64 Word128 where
  phases := 3
  out p prev a :=
    match p with
    | 1 => [Unpack64To48.word0Of a prev]
    | 2 => [Unpack64To48.word1Of a prev]
    | _ => []

/-- Words of 16-bit samples are paired. -/
def pairGear : Gear Word64 Word128 where
  phases := 2
  out p prev a :=
    match p with
    | 1 => [a ++ prev]
    | _ => []

/-- Four sample words, three payload words, two output words. -/
theorem unpack_pack (k : Nat) (p : Word48) (q : Word64) : ∀ xs : List Word48, xs.length = 4 * k →
    (unpackGear.run 0 q (packGear.run 0 p xs)).flatMap (fields 8) = xs.flatMap fields12 := by
  induction k generalizing p q with
  | zero =>
    intro xs h
    obtain rfl := List.eq_nil_of_length_eq_zero h
    rfl
  | succ k ih =>
    intro xs h
    match xs, h with
    | x0 :: x1 :: x2 :: x3 :: rest, h =>
      have hlen : rest.length = 4 * k := by
        simp only [List.length_cons] at h
        omega
      have hrun : unpackGear.run 0 q (packGear.run 0 p (x0 :: x1 :: x2 :: x3 :: rest)) =
          Unpack64To48.word0Of (Pack48To64.word1Of x2 x1) (Pack48To64.word0Of x1 x0) ::
          Unpack64To48.word1Of (Pack48To64.word2Of x3 x2) (Pack48To64.word1Of x2 x1) ::
          unpackGear.run 0 (Pack48To64.word2Of x3 x2) (packGear.run 0 x3 rest) := rfl
      rw [hrun, List.flatMap_cons, List.flatMap_cons, fields_word0Of, fields_word1Of, ih _ _ _ hlen]
      simp only [List.flatMap_cons, List.append_assoc]

theorem pair_run (k : Nat) (q : Word64) : ∀ ws : List Word64, ws.length = 2 * k →
    (pairGear.run 0 q ws).flatMap (fields 8) = ws.flatMap (fields 4) := by
  induction k generalizing q with
  | zero =>
    intro ws h
    obtain rfl := List.eq_nil_of_length_eq_zero h
    rfl
  | succ k ih =>
    intro ws h
    match ws, h with
    | a :: b :: rest, h =>
      have hlen : rest.length = 2 * k := by
        simp only [List.length_cons] at h
        omega
      have hrun : pairGear.run 0 q (a :: b :: rest) = (b ++ a) :: pairGear.run 0 b rest := rfl
      rw [hrun, List.flatMap_cons, fields_append, ih _ _ hlen]
      simp only [List.flatMap_cons, List.append_assoc]

/-- Two words for three. -/
theorem length_unpackGear_run (ws : List Word64) (p : Nat) (q : Word64) (hp : p < 3) :
    (unpackGear.run p q ws).length + 2 * p / 3 = 2 * (p + ws.length) / 3 := by
  induction ws generalizing p q with
  | nil => exact Nat.zero_add _
  | cons a ws ih =>
    rw [Gear.run, List.length_append, List.length_cons]
    obtain rfl | rfl | rfl : p = 0 ∨ p = 1 ∨ p = 2 := by omega
    · have hrest : (unpackGear.run 1 a ws).length + 2 * 1 / 3 = 2 * (1 + ws.length) / 3 :=
        ih 1 a (by decide)
      show 0 + (unpackGear.run 1 a ws).length + _ = _
      omega
    · have hrest : (unpackGear.run 2 a ws).length + 2 * 2 / 3 = 2 * (2 + ws.length) / 3 :=
        ih 2 a (by decide)
      show 1 + (unpackGear.run 2 a ws).length + _ = _
      omega
    · have hrest : (unpackGear.run 0 a ws).length + 2 * 0 / 3 = 2 * (0 + ws.length) / 3 :=
        ih 0 a (by decide)
      show 1 + (unpackGear.run 0 a ws).length + _ = _
      omega

/-- One word for two. -/
theorem length_pairGear_run (ws : List Word64) (p : Nat) (q : Word64) (hp : p < 2) :
    (pairGear.run p q ws).length = (p + ws.length) / 2 := by
  induction ws generalizing p q with
  | nil =>
    rw [Gear.run, List.length_nil, List.length_nil, Nat.add_zero, Nat.div_eq_of_lt hp]
  | cons a ws ih =>
    rw [Gear.run, List.length_append, List.length_cons]
    obtain rfl | rfl : p = 0 ∨ p = 1 := by omega
    · have hrest : (pairGear.run 1 a ws).length = (1 + ws.length) / 2 := ih 1 a (by decide)
      show 0 + (pairGear.run 1 a ws).length = _
      omega
    · have hrest : (pairGear.run 0 a ws).length = (0 + ws.length) / 2 := ih 0 a (by decide)
      show 1 + (pairGear.run 0 a ws).length = _
      omega

/-! ## The clocked converters -/

/-- Sample widths in use; `sample_width = "01"` has no converter. -/
inductive SampleWidth
  | w12
  | w16
deriving Repr, DecidableEq

namespace SampleWidth

def code : SampleWidth → BitVec 2
  | w12 => 2
  | w16 => 0

/-- Sample words that are packed together. -/
def group : SampleWidth → Nat
  | w12 => 4
  | w16 => 2

/-- Clocks from a word at the input to the words it completes at the output. -/
def packLatency : SampleWidth → Nat
  | w12 => 4
  | w16 => 1

def unpackLatency (wd : SampleWidth) : Nat := BitUnpack64.latency wd.code

end SampleWidth

def packer (sampleWidth : BitVec 2) : Machine BitPack (Bool × Word64) :=
  ⟨.init, fun s i => s.step sampleWidth i.1 i.2⟩

def unpacker (sampleWidth : BitVec 2) : Machine BitUnpack64 (Bool × Word64) :=
  ⟨.init, fun s i => s.step sampleWidth i.1 i.2⟩

/-- The words `bit_pack` puts out in the clocks before `n`. -/
def packed (wd : SampleWidth) (x : Nat → Bool × Word64) (n : Nat) : List Word64 :=
  (packer wd.code).log (fun s _ => validWord s.mux1DataOutValidReg s.mux1Data64Reg) x n

/-- The words `bit_unpack_64` puts out in the clocks before `n`. -/
def unpacked (wd : SampleWidth) (x : Nat → Bool × Word64) (n : Nat) : List Word128 :=
  (unpacker wd.code).log (fun s _ => validWord s.mux1DataOutValidReg s.mux1Data128Reg) x n

/-- A phase counter up to `top`. -/
theorem next_eq {α β : Type} {g : Gear α β} (top p : Nat) (h : g.phases = top + 1) :
    (if p < top then p + 1 else 0) = g.next p := by
  unfold Gear.next
  rw [h]
  simp only [Nat.add_lt_add_iff_right]

theorem packGear_drives : packGear.Drives (packer SampleWidth.w12.code)
    (fun i => (i.1, inst0Data48In i.2)) (fun s => s.inst0.wrCnt) (fun s => s.inst0.data48InReg) where
  phase_step s i := by
    rw [← next_eq 3 _ rfl]
    rfl
  prev_step _ _ := rfl

theorem unpackGear_drives : unpackGear.Drives (unpacker SampleWidth.w12.code)
    (fun i => i) (fun s => s.inst0.wrCnt) (fun s => s.inst0.data64InReg) where
  phase_step s i := by
    rw [← next_eq 2 _ rfl]
    rfl
  prev_step _ _ := rfl

theorem pairGear_drives : pairGear.Drives (unpacker SampleWidth.w16.code)
    (fun i => i) (fun s => s.inst2.wrCnt) (fun s => s.inst2.data64InReg) where
  phase_step s i := by
    rw [← next_eq 1 _ rfl]
    rfl
  prev_step _ _ := rfl

/-- The registers a packed word goes through, the output first. -/
def packStage : Nat → BitPack → List Word64
  | 0, s => validWord s.mux1DataOutValidReg s.mux1Data64Reg
  | 1, s => validWord s.mux0DataOutValidReg s.mux0Data64Reg
  | 2, s => validWord s.inst0.dataOutValidReg s.inst0.data64OutReg
  | _, s => validWord (s.inst0.word640Valid || s.inst0.word641Valid || s.inst0.word642Valid)
      s.inst0.data64OutMux

/-- What `pack_48_to_64` completes in a clock. -/
theorem completes48 (s : Pack48To64) (dataInWrreq : Bool) (data48In : Word48) :
    validWord ((s.step dataInWrreq data48In).word640Valid ||
        (s.step dataInWrreq data48In).word641Valid || (s.step dataInWrreq data48In).word642Valid)
      (s.step dataInWrreq data48In).data64OutMux =
    if dataInWrreq then packGear.out s.wrCnt s.data48InReg data48In else [] := by
  cases dataInWrreq
  · simp [Pack48To64.step, validWord]
  · rcases hcnt : s.wrCnt with _ | _ | _ | _ | k
    · simp [Pack48To64.step, validWord, packGear, hcnt]
    · simp [Pack48To64.step, Pack48To64.data64OutMux, validWord, packGear, hcnt]
    · simp [Pack48To64.step, Pack48To64.data64OutMux, validWord, packGear, hcnt]
    · simp [Pack48To64.step, Pack48To64.data64OutMux, validWord, packGear, hcnt]
    · simp [Pack48To64.step, validWord, packGear, hcnt]

theorem packStage_move (s : BitPack) (i : Bool × Word64) {k : Nat} (hk : k < 3) :
    packStage k ((packer SampleWidth.w12.code).step s i) = packStage (k + 1) s := by
  match k, hk with
  | 0, _ => rfl
  | 1, _ => rfl
  | 2, _ => rfl

/-- From any state in which nothing is under way. -/
theorem packLog_w12 {s : BitPack} (h0 : ∀ k, k ≤ 3 → packStage k s = []) (hcnt : s.inst0.wrCnt = 0)
    (x : Nat → Bool × Word64) (n : Nat) :
    ((packer SampleWidth.w12.code).startAt s).log
      (fun s _ => validWord s.mux1DataOutValidReg s.mux1Data64Reg) x (n + 4) =
    packGear.run 0 s.inst0.data48InReg ((words x n).map inst0Data48In) := by
  have hlog := (packGear_drives.startAt s).log_fresh x n
  rw [words_map, show ((packer SampleWidth.w12.code).startAt s).init = s from rfl, hcnt] at hlog
  refine Eq.trans (Machine.log_delayed packStage 3 h0 ?_ ?_ x n) hlog
  · intro k s i hk
    exact packStage_move s i hk
  · intro s i
    exact completes48 s.inst0 i.1 (inst0Data48In i.2)

/-- With 16-bit samples only the last register is in the way. -/
theorem packLog_w16 {s : BitPack} (h0 : packStage 0 s = []) (x : Nat → Bool × Word64) (n : Nat) :
    ((packer SampleWidth.w16.code).startAt s).log
      (fun s _ => validWord s.mux1DataOutValidReg s.mux1Data64Reg) x (n + 1) = words x n := by
  have hlog : ((packer SampleWidth.w16.code).startAt s).log (fun _ i => validWord i.1 i.2) x n =
      words x n := by
    induction n with
    | zero => rfl
    | succ n ih => rw [Machine.log_succ, words, ih]
  refine Eq.trans (Machine.log_delayed packStage 0 ?_ ?_ ?_ x n) hlog
  · intro k hk
    obtain rfl := Nat.le_zero.1 hk
    exact h0
  · intro k s i hk
    exact absurd hk (Nat.not_lt_zero k)
  · intro s i
    rfl

theorem packStage_init (k : Nat) : packStage k BitPack.init = [] := by
  match k with
  | 0 => rfl
  | 1 => rfl
  | 2 => rfl
  | k + 3 => rfl

theorem packed_w12 (x : Nat → Bool × Word64) (n : Nat) :
    packed .w12 x (n + 4) = packGear.run 0 0 ((words x n).map inst0Data48In) :=
  packLog_w12 (s := .init) (fun k _ => packStage_init k) rfl x n

theorem packed_w16 (x : Nat → Bool × Word64) (n : Nat) : packed .w16 x (n + 1) = words x n :=
  packLog_w16 (s := .init) rfl x n

/-- The registers an unpacked word goes through, the output first. -/
def unpackStage : Nat → BitUnpack64 → List Word128
  | 0, s => validWord s.mux1DataOutValidReg s.mux1Data128Reg
  | 1, s => validWord s.mux0DataOutValidReg s.mux0Data128Reg
  | 2, s => validWord s.inst0.dataOutValidReg s.inst0.data128OutReg
  | _, s => validWord (s.inst0.word1280Valid || s.inst0.word1281Valid)
      (if s.inst0.word1280Valid then s.inst0.word1280 else s.inst0.word1281)

/-- What `unpack_64_to_48` completes in a clock. -/
theorem completes128 (s : Unpack64To48) (dataInWrreq : Bool) (data64In : Word64) :
    validWord ((s.step dataInWrreq data64In).word1280Valid ||
        (s.step dataInWrreq data64In).word1281Valid)
      (if (s.step dataInWrreq data64In).word1280Valid then (s.step dataInWrreq data64In).word1280
        else (s.step dataInWrreq data64In).word1281) =
    if dataInWrreq then unpackGear.out s.wrCnt s.data64InReg data64In else [] := by
  cases dataInWrreq
  · simp [Unpack64To48.step, validWord]
  · rcases hcnt : s.wrCnt with _ | _ | _ | k
    · simp [Unpack64To48.step, validWord, unpackGear, hcnt]
    · simp [Unpack64To48.step, validWord, unpackGear, hcnt]
    · simp [Unpack64To48.step, validWord, unpackGear, hcnt]
    · simp [Unpack64To48.step, validWord, unpackGear, hcnt]

theorem unpacked_w12 (x : Nat → Bool × Word64) (n : Nat) :
    unpacked .w12 x (n + 4) = unpackGear.run 0 0 (words x n) := by
  refine Eq.trans (Machine.log_delayed unpackStage 3 ?_ ?_ ?_ x n) (unpackGear_drives.log_fresh x n)
  · intro k hk
    match k with
    | 0 => rfl
    | 1 => rfl
    | 2 => rfl
    | k + 3 => rfl
  · intro k s i hk
    match k, hk with
    | 0, _ => rfl
    | 1, _ => rfl
    | 2, _ => rfl
  · intro s i
    exact completes128 s.inst0 i.1 i.2

def pairStage : Nat → BitUnpack64 → List Word128
  | 0, s => validWord s.mux1DataOutValidReg s.mux1Data128Reg
  | _, s => validWord s.inst2.word1280Valid s.inst2.word1280

theorem completesPair (s : Unpack64To64) (dataInWrreq : Bool) (data64In : Word64) :
    validWord (s.step dataInWrreq data64In).word1280Valid (s.step dataInWrreq data64In).word1280 =
    if dataInWrreq then pairGear.out s.wrCnt s.data64InReg data64In else [] := by
  cases dataInWrreq
  · simp [Unpack64To64.step, validWord]
  · rcases hcnt : s.wrCnt with _ | _ | k
    · simp [Unpack64To64.step, validWord, pairGear, hcnt]
    · simp [Unpack64To64.step, validWord, pairGear, hcnt]
    · simp [Unpack64To64.step, validWord, pairGear, hcnt]

theorem unpacked_w16 (x : Nat → Bool × Word64) (n : Nat) :
    unpacked .w16 x (n + 2) = pairGear.run 0 0 (words x n) := by
  refine Eq.trans (Machine.log_delayed pairStage 1 ?_ ?_ ?_ x n) (pairGear_drives.log_fresh x n)
  · intro k hk
    match k with
    | 0 => rfl
    | k + 1 => rfl
  · intro k s i hk
    match k, hk with
    | 0, _ => rfl
  · intro s i
    exact completesPair s.inst2 i.1 i.2

/-! ## The round trip -/

/-- Sample words in whole groups; the low bits are zero where samples have twelve bits. -/
structure SampleWords (wd : SampleWidth) where
  toList : List Word64
  grouped : wd.group ∣ toList.length
  twelveBit : wd = .w12 → ∀ w ∈ toList, TwelveBit w

/-- A stream that has presented the words `ws` after `clocks` clocks, with gaps anywhere. -/
structure Presents (ws : List Word64) where
  stream : Nat → Bool × Word64
  clocks : Nat
  words_eq : words stream clocks = ws

/-- Every list of words can be presented. -/
def Presents.gapless (ws : List Word64) : Presents ws where
  stream := Clocked.gapless ws 0
  clocks := ws.length
  words_eq := (words_gapless ws 0 ws.length).trans List.take_length

/-- Whatever the gaps in front of `bit_pack` and in front of `bit_unpack_64`, the 16-bit values come
out as they went in. -/
theorem unpacks_packed (wd : SampleWidth) (ws : SampleWords wd) (rx : Presents ws.toList)
    (tx : Presents (packed wd rx.stream (rx.clocks + wd.packLatency))) :
    (unpacked wd tx.stream (tx.clocks + wd.unpackLatency)).flatMap (fields 8) =
      ws.toList.flatMap (fields 4) := by
  obtain ⟨k, hk⟩ := ws.grouped
  cases wd with
  | w12 =>
    have htx : words tx.stream tx.clocks =
        packGear.run 0 0 (ws.toList.map inst0Data48In) :=
      calc words tx.stream tx.clocks
          = packed .w12 rx.stream (rx.clocks + 4) := tx.words_eq
        _ = packGear.run 0 0 ((words rx.stream rx.clocks).map inst0Data48In) := packed_w12 _ _
        _ = packGear.run 0 0 (ws.toList.map inst0Data48In) :=
          congrArg (fun l => packGear.run 0 0 (l.map inst0Data48In)) rx.words_eq
    have hlen : (ws.toList.map inst0Data48In).length = 4 * k := by
      rw [List.length_map]
      exact hk
    calc (unpacked .w12 tx.stream (tx.clocks + 4)).flatMap (fields 8)
        = (ws.toList.map inst0Data48In).flatMap fields12 := by
          rw [unpacked_w12, htx, unpack_pack k 0 0 _ hlen]
      _ = ws.toList.flatMap (fields 4) := by
          rw [List.flatMap_map, List.flatMap_def, List.flatMap_def]
          congr 1
          apply List.map_congr_left
          intro w hw
          exact fields12_inst0Data48In (ws.twelveBit rfl w hw)
  | w16 =>
    have htx : words tx.stream tx.clocks = ws.toList :=
      tx.words_eq.trans ((packed_w16 rx.stream rx.clocks).trans rx.words_eq)
    calc (unpacked .w16 tx.stream (tx.clocks + 2)).flatMap (fields 8)
        = ws.toList.flatMap (fields 4) := by rw [unpacked_w16, htx, pair_run k 0 _ hk]

/-- Sixteen values of twelve bits, in four words. -/
def fourWords : SampleWords .w12 where
  toList := [0x0040003000200010, 0x0080007000600050, 0x00C000B000A00090, 0x010000F000E000D0]
  grouped := by decide
  twelveBit _ := by
    simp only [List.forall_mem_cons]
    exact ⟨by decide, by decide, by decide, by decide, nofun⟩

/-- One such group without gaps. -/
theorem unpacks_packed_four :
    (unpacked .w12 (gapless (packed .w12 (gapless fourWords.toList 0) 8) 0) 7).flatMap (fields 8) =
      fourWords.toList.flatMap (fields 4) :=
  unpacks_packed .w12 fourWords (.gapless _) (.gapless _)

end Rx
