import LimeSdrGw.Tx.PctSeparate
import LimeSdrGw.Wfm.WcmdFsm
/-
# `pct_payload_extrct` and the packets of the TX path

The host writes one kind of packet. On the way to the waveform memory `pct_payload_extrct` takes the
payload out of the stream, in 32-bit words; on the way to the transmitter `pct_separate_fsm` cuts the
stream into packets, in 128-bit words.

| here | there |
| --- | --- |
| `PctPayloadExtrct`, `.step`, `.pctPayloadValid` | pct_payload_extrct.vhd:62-109, with `data_w` 32 and `header_size` 16 (pcie_top.vhd:586-602) |
| `Extractor.taken`                               | words that came with `pct_wr` so far |
| `wide`                                          | a 32-bit write of the TX stream FIFO read back in 128-bit words, low word first |

`pct_payload_dest` is open where the entity is used; `wr_cnt_all` and `valid_cnt_all` are read by nobody.
-/
namespace Wfm

open Clocked

/-- Bits 23..8 of a header word. -/
def Word32.sizeField (w : Word32) : Nat := (w.extractLsb' 8 16).toNat

structure PctPayloadExtrct where
  wrCnt : Nat
  hdrPayloadReg : Word32

namespace PctPayloadExtrct

abbrev dataW : Nat := 32
abbrev headerSize : Nat := 16

def init : PctPayloadExtrct := ⟨0, BitVec.allOnes 32⟩

def payloadSizeReg (s : PctPayloadExtrct) : Nat := Word32.sizeField s.hdrPayloadReg

/-- The last value of `wr_cnt` in the packet. -/
def last (s : PctPayloadExtrct) : Nat := (s.payloadSizeReg + headerSize) * 8 / dataW - 1

def pctPayloadValid (s : PctPayloadExtrct) (pctWr : Bool) : Bool :=
  if 3 < s.wrCnt ∧ s.wrCnt ≤ s.last then pctWr else false

def step (s : PctPayloadExtrct) (pctData : Word32) (pctWr : Bool) : PctPayloadExtrct where
  wrCnt := if pctWr then (if s.wrCnt < s.last then (s.wrCnt + 1) % 65536 else 0) else s.wrCnt
  hdrPayloadReg := if s.wrCnt = 0 ∧ pctWr then pctData else s.hdrPayloadReg

end PctPayloadExtrct

structure Extractor where
  core : PctPayloadExtrct
  taken : Nat

namespace Extractor

def init : Extractor := ⟨.init, 0⟩

/-- `ws` are the words of the host, one comes with every `pct_wr`. -/
def step (ws : Nat → Word32) (s : Extractor) (pctWr : Bool) : Extractor where
  core := s.core.step (ws s.taken) pctWr
  taken := if pctWr then s.taken + 1 else s.taken

/-- The payload word given in this clock. -/
def payload (ws : Nat → Word32) (s : Extractor) (pctWr : Bool) : List Word32 :=
  if s.core.pctPayloadValid pctWr then [ws s.taken] else []

end Extractor

def extractor (ws : Nat → Word32) : Machine Extractor Bool := ⟨.init, Extractor.step ws⟩

/-- Words of a packet on the waveform path, from its first word. -/
def pctWordsOf (w : Word32) : Nat := (Word32.sizeField w + PctPayloadExtrct.headerSize) * 8 / PctPayloadExtrct.dataW

/-- Header words of a packet. -/
abbrev hdrWords : Nat := PctPayloadExtrct.headerSize * 8 / PctPayloadExtrct.dataW

section

variable (ws : Nat → Word32)

def payloads (y : Nat → Bool) : Nat → List Word32 := (extractor ws).log (Extractor.payload ws) y

abbrev wfmStart : Nat → Nat := cut pctWordsOf ws

abbrev wfmLen (k : Nat) : Nat := pctWordsOf (heads pctWordsOf ws k)

/-- The extractor is in packet `k`, and what it has given so far is the payload up to here. -/
structure Extracts (s : Extractor) (given : List Word32) (k : Nat) : Prop where
  taken : s.taken = wfmStart ws k + s.core.wrCnt
  lt : s.core.wrCnt < wfmLen ws k
  size : 0 < s.core.wrCnt → s.core.hdrPayloadReg = heads pctWordsOf ws k
  given : given = bodies hdrWords pctWordsOf ws k ++ slice ws (wfmStart ws k + hdrWords) s.taken

end

theorem four_le_pctWordsOf (w : Word32) : 4 ≤ pctWordsOf w := by
  unfold pctWordsOf
  show 4 ≤ (_ + 16) * 8 / 32
  omega

theorem pctWordsOf_lt (w : Word32) : pctWordsOf w < 65536 := by
  unfold pctWordsOf
  have : Word32.sizeField w < 65536 := BitVec.isLt _
  show (_ + 16) * 8 / 32 < _
  omega

namespace Extractor

variable {ws : Nat → Word32} {s : Extractor} {given : List Word32} {k : Nat}

theorem last_eq (s : PctPayloadExtrct) : s.last + 1 = pctWordsOf s.hdrPayloadReg := by
  have := four_le_pctWordsOf s.hdrPayloadReg
  unfold PctPayloadExtrct.last PctPayloadExtrct.payloadSizeReg
  unfold pctWordsOf at this ⊢
  omega

/-- A clock without a word changes nothing. -/
theorem step_false (ws : Nat → Word32) (s : Extractor) : s.step ws false = s ∧ s.payload ws false = [] := by
  constructor
  · simp [step, PctPayloadExtrct.step]
  · simp [payload, PctPayloadExtrct.pctPayloadValid]

/-- A word of packet `k`. -/
theorem step_true (h : Extracts ws s given k) : ∃ k',
    Extracts ws (s.step ws true) (given ++ s.payload ws true) k' := by
  have h4 : 4 ≤ wfmLen ws k := four_le_pctWordsOf _
  have h16 : wfmLen ws k < 65536 := pctWordsOf_lt _
  have hlast := last_eq s.core
  have htaken : (s.step ws true).taken = s.taken + 1 := rfl
  have hlt := h.lt
  by_cases h0 : s.core.wrCnt = 0
  · have hl4 := four_le_pctWordsOf s.core.hdrPayloadReg
    have hwr : (s.step ws true).core.wrCnt = 1 := by
      show (if _ < _ then (s.core.wrCnt + 1) % 65536 else 0) = 1
      rw [if_pos (by omega), h0]
    have hs : s.taken = wfmStart ws k := by rw [h.taken, h0, Nat.add_zero]
    refine ⟨k, ?_, ?_, fun _ => ?_, ?_⟩
    · rw [htaken, hwr, hs]
    · rw [hwr]; omega
    · show (if s.core.wrCnt = 0 ∧ true then ws s.taken else _) = _
      rw [if_pos ⟨h0, rfl⟩, hs]
      rfl
    · have hnv : s.payload ws true = [] := by
        simp [payload, PctPayloadExtrct.pctPayloadValid, h0]
      rw [hnv, List.append_nil, h.given, htaken, hs, slice_of_le _ (Nat.le_add_right _ _),
        slice_of_le _ (Nat.add_le_add_left (by decide) _)]
  · have hall : s.core.last + 1 = wfmLen ws k := by rw [hlast, h.size (Nat.pos_of_ne_zero h0)]
    have hhdr : (s.step ws true).core.hdrPayloadReg = heads pctWordsOf ws k := by
      show (if s.core.wrCnt = 0 ∧ true then ws s.taken else s.core.hdrPayloadReg) = _
      rw [if_neg fun hh => h0 hh.1, h.size (Nat.pos_of_ne_zero h0)]
    have hle : s.core.wrCnt ≤ s.core.last := by omega
    -- the words of the payload up to and including this one
    have hgiven : given ++ s.payload ws true = bodies hdrWords pctWordsOf ws k ++
        slice ws (wfmStart ws k + hdrWords) (s.taken + 1) := by
      by_cases h3 : 3 < s.core.wrCnt
      · have hv : s.payload ws true = [ws s.taken] := by
          simp [payload, PctPayloadExtrct.pctPayloadValid, h3, hle]
        have hge : wfmStart ws k + hdrWords ≤ s.taken := by
          rw [h.taken]
          exact Nat.add_le_add_left h3 _
        rw [hv, h.given, slice_succ _ hge, List.append_assoc]
      · have hnv : s.payload ws true = [] := by
          simp [payload, PctPayloadExtrct.pctPayloadValid, h3]
        have hge : s.taken + 1 ≤ wfmStart ws k + hdrWords := by
          rw [h.taken, Nat.add_assoc]
          exact Nat.add_le_add_left (Nat.lt_of_not_le h3) _
        rw [hnv, h.given, slice_of_le _ hge, slice_of_le _ (Nat.le_of_succ_le hge), List.append_nil]
    by_cases hend : s.core.wrCnt < s.core.last
    · have hwr : (s.step ws true).core.wrCnt = s.core.wrCnt + 1 := by
        show (if _ < _ then (s.core.wrCnt + 1) % 65536 else 0) = _
        rw [if_pos hend]
        omega
      refine ⟨k, ?_, ?_, fun _ => hhdr, hgiven⟩
      · rw [htaken, hwr, h.taken, Nat.add_assoc]
      · rw [hwr]; omega
    · have hwr : (s.step ws true).core.wrCnt = 0 := by
        show (if _ < _ then (s.core.wrCnt + 1) % 65536 else 0) = 0
        rw [if_neg hend]
      have hnext : s.taken + 1 = wfmStart ws (k + 1) := by
        rw [h.taken, Nat.add_assoc, show s.core.wrCnt + 1 = wfmLen ws k by omega]
        rfl
      refine ⟨k + 1, ?_, ?_, ?_, ?_⟩
      · exact hnext.trans (congrArg (wfmStart ws (k + 1) + ·) hwr).symm
      · rw [hwr]
        exact Nat.lt_of_lt_of_le (by decide) (four_le_pctWordsOf _)
      · rw [hwr]; exact nofun
      · rw [hgiven, htaken, hnext, bodies_succ, slice_of_le _ (Nat.le_add_right _ _),
          List.append_nil]

theorem run (ws : Nat → Word32) (y : Nat → Bool) (n : Nat) :
    ∃ k, Extracts ws ((extractor ws).state y n) (payloads ws y n) k := by
  induction n with
  | zero =>
    refine ⟨0, rfl, ?_, nofun, rfl⟩
    exact Nat.lt_of_lt_of_le (Nat.zero_lt_succ 3) (four_le_pctWordsOf _)
  | succ n ih =>
    obtain ⟨k, ih⟩ := ih
    show ∃ k', Extracts ws (((extractor ws).state y n).step ws (y n))
      (payloads ws y n ++ ((extractor ws).state y n).payload ws (y n)) k'
    cases y n with
    | false =>
      obtain ⟨hs, hp⟩ := Extractor.step_false ws ((extractor ws).state y n)
      rw [hs, hp, List.append_nil]
      exact ⟨k, ih⟩
    | true => exact step_true ih

end Extractor

/-- Whatever the pauses, the extractor has given the payload words of the packets that are over and
    of the packet it is in, each once, and no header word. -/
theorem payloads_eq (ws : Nat → Word32) (y : Nat → Bool) (n : Nat) :
    ∃ k, wfmStart ws k ≤ ((extractor ws).state y n).taken ∧
      ((extractor ws).state y n).taken < wfmStart ws (k + 1) ∧
      payloads ws y n = bodies hdrWords pctWordsOf ws k ++
        slice ws (wfmStart ws k + hdrWords) ((extractor ws).state y n).taken := by
  obtain ⟨k, h⟩ := Extractor.run ws y n
  have ht := h.taken
  refine ⟨k, by omega, ?_, h.given⟩
  rw [ht]
  exact Nat.add_lt_add_left h.lt _

/-! ### Both paths -/

/-- The stream in the words of the TX path. -/
def wide (ws : Nat → Word32) (m : Nat) : Tx.Word128 :=
  ws (4 * m + 3) ++ ws (4 * m + 2) ++ ws (4 * m + 1) ++ ws (4 * m)

theorem sizeField_wide (ws : Nat → Word32) (m : Nat) :
    (wide ws m).sizeField = Word32.sizeField (ws (4 * m)) := by
  have hbit (i : Nat) (hi : i < 32) : (wide ws m).getLsbD i = (ws (4 * m)).getLsbD i :=
    BitVec.getLsbD_append.trans (if_pos hi)
  unfold Tx.Word128.sizeField Word32.sizeField
  congr 1
  ext i hi
  have := hbit (8 + i) (by omega)
  simpa using this

/-- Both paths give the packet of this header the same length. -/
def SameLength (hdr : Tx.Word128) : Prop := hdr.sizeField ≠ 0 ∧ hdr.sizeField % 16 < 4

theorem sameLength_iff {hdr : Tx.Word128} {w : Word32} (h : hdr.sizeField = Word32.sizeField w) :
    pctWordsOf w = 4 * Tx.packetWords hdr ↔ SameLength hdr := by
  unfold SameLength pctWordsOf Tx.packetWords
  rw [h]
  have : Word32.sizeField w < 65536 := BitVec.isLt _
  constructor
  · intro he
    split at he
    · rename_i h0
      rw [h0] at he
      exact absurd he (by decide)
    · refine ⟨by assumption, ?_⟩
      have he' : (Word32.sizeField w + 16) * 8 / 32 = 4 * (Word32.sizeField w / 16 + 1) := he
      omega
  · rintro ⟨h0, hr⟩
    rw [if_neg h0]
    show (Word32.sizeField w + 16) * 8 / 32 = 4 * (Word32.sizeField w / 16 + 1)
    omega

/-- Both paths read the packets of the stream `ws` and cut it at the same places. -/
structure SameCuts (ws : Nat → Word32) (x : Nat → Tx.SepIn) (y : Nat → Bool) : Prop where
  /-- The headers are at the same places of the stream. -/
  starts : ∀ k, wfmStart ws k = 4 * Tx.pctStart (wide ws) k
  /-- The packets have the same number of payload words. -/
  words : ∀ k, wfmLen ws k - hdrWords = 4 * (Tx.pctLen (wide ws) k - 1)
  /-- The TX path reads the packets it cuts. -/
  tx : ∀ n, Tx.OneAtATime (wide ws) x n
  /-- The waveform path passes on the payload of the packets it cuts. -/
  wfm : ∀ n, ∃ k, wfmStart ws k ≤ ((extractor ws).state y n).taken ∧
      ((extractor ws).state y n).taken < wfmStart ws (k + 1) ∧
      payloads ws y n = bodies hdrWords pctWordsOf ws k ++
        slice ws (wfmStart ws k + hdrWords) ((extractor ws).state y n).taken

/-- The two paths agree on the packets exactly when every size field counts whole 32-bit words of
    whole 128-bit words, is not 0, and the TX path is not drawn into the packet behind a short one. -/
theorem same_cuts (ws : Nat → Word32) (x : Nat → Tx.SepIn) (y : Nat → Bool) :
    SameCuts ws x y ↔ (∀ k, SameLength (heads Tx.packetWords (wide ws) k)) ∧
      ∀ n, ((Tx.separator (wide ws)).state x n).Held (wide ws) (x n) (Tx.begun (wide ws) x n) := by
  have hlen : (∀ k, wfmStart ws k = 4 * Tx.pctStart (wide ws) k) ↔
      ∀ k, SameLength (heads Tx.packetWords (wide ws) k) := by
    refine cut_scale.trans (forall_congr' fun k => ?_)
    exact sameLength_iff (sizeField_wide ws _)
  constructor
  · intro h
    exact ⟨hlen.1 h.starts, (Tx.one_packet_at_a_time (wide ws) x).1 h.tx⟩
  · rintro ⟨hsame, hheld⟩
    have hstarts := hlen.2 hsame
    refine ⟨hstarts, fun k => ?_, (Tx.one_packet_at_a_time (wide ws) x).2 hheld, payloads_eq ws y⟩
    have hk : wfmLen ws k = 4 * Tx.pctLen (wide ws) k := by
      show pctWordsOf (ws (wfmStart ws k)) = _
      rw [hstarts k]
      exact (sameLength_iff (sizeField_wide ws _)).2 (hsame k)
    rw [hk]
    exact (Nat.mul_sub 4 (Tx.pctLen (wide ws) k) 1).symm

/-- A header with size field 0: 1024 words on one path, 4 on the other. -/
theorem same_cuts_zero :
    ¬ ∀ (ws : Nat → Word32) (x : Nat → Tx.SepIn) (y : Nat → Bool), SameCuts ws x y := by
  intro h
  have h1 := (h (fun _ => 0) (fun _ => ⟨true, true⟩) (fun _ => false)).starts 1
  exact absurd h1 (by decide)

end Wfm
