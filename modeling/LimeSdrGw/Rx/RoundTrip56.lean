import LimeSdrGw.Rx.Pack56
import LimeSdrGw.Rx.RoundTrip
import LimeSdrGw.Tx.Unpack56
/-
# `unpack_64_to_56` undoes `pack_56_to_64`

Eight words of four 14-bit samples become seven words, and these become four words of eight 16-bit
fields, two of the words that went in each time (`expand56`).
-/
namespace Rx

open Clocked Tx

/-! ## The format of `data56_out` -/

/-- A sample of a 56-bit word as a 16-bit field. -/
def field56 (x : Word56) (lo : Nat) : BitVec 16 := x.extractLsb' lo 14 ++ 0#2

/-- Two words, the first in the lower half. -/
def expandPair (a b : Word56) : Word128 :=
  field56 b 42 ++ field56 b 28 ++ field56 b 14 ++ field56 b 0 ++
  field56 a 42 ++ field56 a 28 ++ field56 a 14 ++ field56 a 0

def expand56 : List Word56 → List Word128
  | a :: b :: l => expandPair a b :: expand56 l
  | _ => []

/-- The samples of four fields from bit `lo` on. -/
def word56Of (w : Word128) (lo : Nat) : Word56 :=
  w.extractLsb' (lo + 50) 14 ++ w.extractLsb' (lo + 34) 14 ++ w.extractLsb' (lo + 18) 14 ++
    w.extractLsb' (lo + 2) 14

def words56Of (w : Word128) : List Word56 := [word56Of w 0, word56Of w 64]

theorem join56 (x : Word56) : x.extractLsb' 42 14 ++ x.extractLsb' 28 14 ++ x.extractLsb' 14 14 ++
    x.extractLsb' 0 14 = x := by
  have h28 : x.extractLsb' 42 14 ++ x.extractLsb' 28 14 = x.extractLsb' 28 28 :=
    BitVec.extractLsb'_append_extractLsb'_eq_extractLsb' rfl
  have h14 : x.extractLsb' 28 28 ++ x.extractLsb' 14 14 = x.extractLsb' 14 42 :=
    BitVec.extractLsb'_append_extractLsb'_eq_extractLsb' rfl
  have h0 : x.extractLsb' 14 42 ++ x.extractLsb' 0 14 = x.extractLsb' 0 56 :=
    BitVec.extractLsb'_append_extractLsb'_eq_extractLsb' rfl
  calc x.extractLsb' 42 14 ++ x.extractLsb' 28 14 ++ x.extractLsb' 14 14 ++ x.extractLsb' 0 14
      = x.extractLsb' 28 28 ++ x.extractLsb' 14 14 ++ x.extractLsb' 0 14 := by rw [h28]
    _ = x.extractLsb' 14 42 ++ x.extractLsb' 0 14 := by rw [h14]
    _ = x.extractLsb' 0 56 := h0
    _ = x := BitVec.extractLsb'_eq_self

theorem words56Of_expandPair (a b : Word56) : words56Of (expandPair a b) = [a, b] := by
  have ha := join56 a
  have hb := join56 b
  simp only [words56Of, word56Of, expandPair, field56]
  simp (disch := decide) only [BitVec.extractLsb'_append_eq_of_add_le,
    BitVec.extractLsb'_append_eq_of_le, extractLsb'_extractLsb']
  simp [ha, hb]

/-! ## A group of eight words -/

section group

open Pack56To64 (word64Of)

variable (reg1 : Word64)

/-- The first output word, of the first two packed words. -/
theorem unpack_pack0 (x0 x1 x2 : Word56) :
    Unpack64To56.word128Of (word64Of x2 x1 1) (word64Of x1 x0 0) reg1 0 = expandPair x0 x1 := by
  have hsplit : x1.extractLsb' 8 6 ++ x1.extractLsb' 0 8 = x1.extractLsb' 0 14 :=
    BitVec.extractLsb'_append_extractLsb'_eq_extractLsb' rfl
  simp only [Unpack64To56.word128Of, word64Of, field14, expandPair, field56]
  simp (disch := decide) only [BitVec.extractLsb'_append_eq_of_add_le,
    BitVec.extractLsb'_append_eq_of_le, extractLsb'_extractLsb']
  simp [hsplit]

theorem unpack_pack1 (x1 x2 x3 x4 : Word56) :
    Unpack64To56.word128Of (word64Of x4 x3 3) (word64Of x3 x2 2) (word64Of x2 x1 1) 1 =
      expandPair x2 x3 := by
  have hsplit2 : x2.extractLsb' 16 12 ++ x2.extractLsb' 14 2 = x2.extractLsb' 14 14 :=
    BitVec.extractLsb'_append_extractLsb'_eq_extractLsb' rfl
  have hsplit3 : x3.extractLsb' 24 4 ++ x3.extractLsb' 14 10 = x3.extractLsb' 14 14 :=
    BitVec.extractLsb'_append_extractLsb'_eq_extractLsb' rfl
  simp only [Unpack64To56.word128Of, word64Of, field14, expandPair, field56]
  simp (disch := decide) only [BitVec.extractLsb'_append_eq_of_add_le,
    BitVec.extractLsb'_append_eq_of_le, extractLsb'_extractLsb']
  simp [hsplit2, hsplit3]

theorem unpack_pack2 (x3 x4 x5 x6 : Word56) :
    Unpack64To56.word128Of (word64Of x6 x5 5) (word64Of x5 x4 4) (word64Of x4 x3 3) 2 =
      expandPair x4 x5 := by
  have hsplit4 : x4.extractLsb' 32 10 ++ x4.extractLsb' 28 4 = x4.extractLsb' 28 14 :=
    BitVec.extractLsb'_append_extractLsb'_eq_extractLsb' rfl
  have hsplit5 : x5.extractLsb' 40 2 ++ x5.extractLsb' 28 12 = x5.extractLsb' 28 14 :=
    BitVec.extractLsb'_append_extractLsb'_eq_extractLsb' rfl
  simp only [Unpack64To56.word128Of, word64Of, field14, expandPair, field56]
  simp (disch := decide) only [BitVec.extractLsb'_append_eq_of_add_le,
    BitVec.extractLsb'_append_eq_of_le, extractLsb'_extractLsb']
  simp [hsplit4, hsplit5]

theorem unpack_pack3 (x5 x6 x7 : Word56) :
    Unpack64To56.word128Of (word64Of x7 x6 6) (word64Of x6 x5 5) reg1 3 = expandPair x6 x7 := by
  have hsplit : x6.extractLsb' 48 8 ++ x6.extractLsb' 42 6 = x6.extractLsb' 42 14 :=
    BitVec.extractLsb'_append_extractLsb'_eq_extractLsb' rfl
  simp only [Unpack64To56.word128Of, word64Of, field14, expandPair, field56]
  simp (disch := decide) only [BitVec.extractLsb'_append_eq_of_add_le,
    BitVec.extractLsb'_append_eq_of_le, extractLsb'_extractLsb']
  simp [hsplit]

/-- Whatever the registers hold when the first group begins. -/
theorem unpack_pack56 (k : Nat) (p : Word56) (r0 r1 : Word64) : ∀ xs : List Word56,
    xs.length = 8 * k →
    unpack56Gear.run (0, r0, r1) (pack56Gear.run (0, p) xs) = expand56 xs := by
  induction k generalizing p r0 r1 with
  | zero =>
    intro xs h
    obtain rfl := List.eq_nil_of_length_eq_zero h
    rfl
  | succ k ih =>
    intro xs h
    match xs, h with
    | x0 :: x1 :: x2 :: x3 :: x4 :: x5 :: x6 :: x7 :: rest, h =>
      have hlen : rest.length = 8 * k := by
        simp only [List.length_cons] at h
        omega
      have hpack : pack56Gear.run (0, p) (x0 :: x1 :: x2 :: x3 :: x4 :: x5 :: x6 :: x7 :: rest) =
          word64Of x1 x0 0 :: word64Of x2 x1 1 :: word64Of x3 x2 2 :: word64Of x4 x3 3 ::
          word64Of x5 x4 4 :: word64Of x6 x5 5 :: word64Of x7 x6 6 :: pack56Gear.run (0, x7) rest := by
        simp [Mealy.run, pack56Gear]
      have hunpack : ∀ w0 w1 w2 w3 w4 w5 w6 ws,
          unpack56Gear.run (0, r0, r1) (w0 :: w1 :: w2 :: w3 :: w4 :: w5 :: w6 :: ws) =
          Unpack64To56.word128Of w1 w0 r0 0 :: Unpack64To56.word128Of w3 w2 w1 1 ::
          Unpack64To56.word128Of w5 w4 w3 2 :: Unpack64To56.word128Of w6 w5 w4 3 ::
          unpack56Gear.run (0, w6, w5) ws := by
        intro w0 w1 w2 w3 w4 w5 w6 ws
        simp [Mealy.run, unpack56Gear]
      rw [hpack, hunpack, unpack_pack0, unpack_pack1, unpack_pack2, unpack_pack3, ih _ _ _ _ hlen]
      rfl

end group

/-! ## The round trip -/

/-- What `data56_out` holds are the words themselves, two each. -/
theorem flatMap_expand56 (xs : List Word56) (h : 2 ∣ xs.length) :
    (expand56 xs).flatMap words56Of = xs := by
  induction xs using expand56.induct with
  | case1 a b l ih =>
    have hl : 2 ∣ l.length := (Nat.dvd_add_left (Nat.dvd_refl 2)).1 h
    rw [expand56, List.flatMap_cons, words56Of_expandPair, ih hl]
    rfl
  | case2 l hl =>
    match l, hl with
    | [], _ => rfl
    | [a], _ => exact absurd (show 2 ∣ 1 from h) (by decide)
    | a :: b :: l, hl => exact absurd rfl (hl a b l)

/-- Sample words in whole groups of eight. -/
structure Groups56 where
  toList : List Word56
  grouped : 8 ∣ toList.length

/-- A stream that has presented the words `ws` after `clocks` clocks, with gaps anywhere. -/
structure Presents56 (ws : List Word56) where
  stream : Nat → Bool × Word56
  clocks : Nat
  words_eq : words stream clocks = ws

/-- Every list of words can be presented. -/
def Presents56.gapless (ws : List Word56) : Presents56 ws where
  stream := Clocked.gapless ws 0
  clocks := ws.length
  words_eq := (words_gapless ws 0 ws.length).trans List.take_length

/-- Whatever the gaps in front of `pack_56_to_64` and in front of `unpack_64_to_56`, and whatever
`data64_in_reg_1` holds at first, the 56-bit words come out as they went in, two in every output word. -/
theorem unpacks_packed56 (ws : Groups56) (rx : Presents56 ws.toList)
    (tx : Presents (packed56 rx.stream (rx.clocks + 4))) (data64InReg1 : Word64) :
    unpacked56 data64InReg1 tx.stream (tx.clocks + 3) = expand56 ws.toList ∧
      (unpacked56 data64InReg1 tx.stream (tx.clocks + 3)).flatMap words56Of = ws.toList := by
  obtain ⟨k, hk⟩ := ws.grouped
  have htx : words tx.stream tx.clocks = pack56Gear.run (0, 0) ws.toList :=
    calc words tx.stream tx.clocks
        = packed56 rx.stream (rx.clocks + 4) := tx.words_eq
      _ = pack56Gear.run (0, 0) (words rx.stream rx.clocks) := packed56_eq _ _
      _ = pack56Gear.run (0, 0) ws.toList := by rw [rx.words_eq]
  have hout : unpacked56 data64InReg1 tx.stream (tx.clocks + 3) = expand56 ws.toList := by
    rw [unpacked56_eq, htx, unpack_pack56 k 0 0 data64InReg1 _ hk]
  have heven : 2 ∣ ws.toList.length := ⟨4 * k, by omega⟩
  exact ⟨hout, by rw [hout, flatMap_expand56 _ heven]⟩

/-- Eight words, each with its place in the lowest byte and the highest. -/
def eightWords : Groups56 where
  toList := [0x01000000000001, 0x02000000000002, 0x03000000000003, 0x04000000000004,
    0x05000000000005, 0x06000000000006, 0x07000000000007, 0x08000000000008]
  grouped := by decide

/-- One such group without gaps. -/
theorem unpacks_packed56_eight :
    unpacked56 0 (gapless (packed56 (gapless eightWords.toList 0) 12) 0) 10 =
        expand56 eightWords.toList ∧
      (unpacked56 0 (gapless (packed56 (gapless eightWords.toList 0) 12) 0) 10).flatMap words56Of =
        eightWords.toList :=
  unpacks_packed56 eightWords (.gapless _) (.gapless _) 0

end Rx
