import LimeSdrGw.Rx.RoundTrip
import LimeSdrGw.Tx.NoStall
/-
# 12-bit samples of a packet

`unpack_64_to_48` makes two words of eight samples from every three payload words. It counts the words
that come, whichever packet they are of; where a packet begins it is at the first of its three phases
only if the packets before had a number of words that is a multiple of three.

| here | there |
| --- | --- |
| `smplBuff`   | `smpl_buff_valid`, `smpl_buff_q` of `packets2data`, the input of `bit_unpack_64_inst1` (packets2data_top.vhd:115-140) |
| `decode`     | the samples of a payload by its bits alone |
| `pieces`     | the words presented, cut where a packet begins |
-/
namespace Tx

open Clocked Rx

/-! ### Decoding one payload -/

/-- Three words have sixteen samples of twelve bits, from the first bit on. -/
theorem fields_group (a b c : Word64) :
    fields 8 (Unpack64To48.word0Of b a) ++ fields 8 (Unpack64To48.word1Of c b) =
      (List.range 16).map fun k => (c ++ b ++ a).extractLsb' (12 * k) 12 ++ 0#4 := by
  have h5 : (c ++ b ++ a).extractLsb' 64 8 ++ (c ++ b ++ a).extractLsb' 60 4 =
      (c ++ b ++ a).extractLsb' 60 12 := BitVec.extractLsb'_append_extractLsb'_eq_extractLsb' rfl
  have h10 : (c ++ b ++ a).extractLsb' 128 4 ++ (c ++ b ++ a).extractLsb' 120 8 =
      (c ++ b ++ a).extractLsb' 120 12 := BitVec.extractLsb'_append_extractLsb'_eq_extractLsb' rfl
  simp only [fields, List.range, List.range.loop, List.map, Unpack64To48.word0Of,
    Unpack64To48.word1Of, field12, List.cons_append, List.nil_append, Nat.reduceMul, ← h5, ← h10]
  simp (disch := decide) only [BitVec.extractLsb'_append_eq_of_add_le,
    BitVec.extractLsb'_append_eq_of_le, Nat.reduceSub]
  simp

/-- A payload as a number, first word lowest. -/
def payloadNat : List Word64 → Nat
  | [] => 0
  | w :: ws => w.toNat + 2 ^ 64 * payloadNat ws

/-- The twelve bits from bit `12 k` of the payload on, left aligned in sixteen. -/
def sample12 (ws : List Word64) (k : Nat) : BitVec 16 :=
  BitVec.ofNat 12 (payloadNat ws >>> (12 * k)) ++ 0#4

/-- The samples of a payload from its own first bit on, as many groups of eight as its bits are
    enough for two words at a time. -/
def decode (ws : List Word64) : List (BitVec 16) :=
  (List.range (8 * (2 * ws.length / 3))).map (sample12 ws)

theorem length_decode (ws : List Word64) : (decode ws).length = 8 * (2 * ws.length / 3) := by
  rw [decode, List.length_map, List.length_range]

theorem sample12_lt (a b c : Word64) (ws : List Word64) {k : Nat} (hk : k < 16) :
    sample12 (a :: b :: c :: ws) k = (c ++ b ++ a).extractLsb' (12 * k) 12 ++ 0#4 := by
  have hnum : payloadNat (a :: b :: c :: ws) = (c ++ b ++ a).toNat + 2 ^ 192 * payloadNat ws := by
    simp only [payloadNat, BitVec.toNat_append]
    rw [← Nat.shiftLeft_add_eq_or_of_lt a.isLt, ← Nat.shiftLeft_add_eq_or_of_lt b.isLt,
      Nat.shiftLeft_eq, Nat.shiftLeft_eq]
    omega
  rw [sample12, hnum]
  congr 1
  ext i hi
  have hlt : 12 * k + i < 192 := by omega
  rw [← BitVec.getLsbD_eq_getElem, BitVec.getLsbD_ofNat, decide_eq_true hi, Bool.true_and,
    BitVec.getElem_extractLsb', Nat.testBit_shiftRight, Nat.add_comm _ (2 ^ 192 * _),
    Nat.testBit_two_pow_mul_add _ (c ++ b ++ a).isLt, if_pos hlt, BitVec.getLsbD]

theorem sample12_add (a b c : Word64) (ws : List Word64) (k : Nat) :
    sample12 (a :: b :: c :: ws) (16 + k) = sample12 ws k := by
  have hnum : payloadNat (a :: b :: c :: ws) >>> 192 = payloadNat ws := by
    have ha := a.isLt
    have hb := b.isLt
    have hc := c.isLt
    rw [Nat.shiftRight_eq_div_pow]
    simp only [payloadNat]
    omega
  rw [sample12, Nat.mul_add, Nat.shiftRight_add, hnum, sample12]

/-- `unpack_64_to_48` on a payload alone. -/
def unpackAlone (ws : List Word64) : List (BitVec 16) := (unpackGear.run 0 0 ws).flatMap (fields 8)

/-- What was before is not looked at where a group begins. -/
theorem run_group (q : Word64) (ws : List Word64) : unpackGear.run 0 q ws = unpackGear.run 0 0 ws := by
  cases ws with
  | nil => rfl
  | cons a ws =>
    have hout : ∀ p : Word64, unpackGear.out 0 p a = [] := fun _ => rfl
    rw [Gear.run, Gear.run, hout, hout]

/-- Three words at a time. -/
theorem unpackAlone_cons (a b c : Word64) (ws : List Word64) : unpackAlone (a :: b :: c :: ws) =
    fields 8 (Unpack64To48.word0Of b a) ++ fields 8 (Unpack64To48.word1Of c b) ++
      unpackAlone ws := by
  have h0 : unpackGear.out 0 0 a = [] := rfl
  have h1 : unpackGear.out 1 a b = [Unpack64To48.word0Of b a] := rfl
  have h2 : unpackGear.out 2 b c = [Unpack64To48.word1Of c b] := rfl
  have n0 : unpackGear.next 0 = 1 := rfl
  have n1 : unpackGear.next 1 = 2 := rfl
  have n2 : unpackGear.next 2 = 0 := rfl
  rw [unpackAlone, Gear.run, Gear.run, Gear.run, n0, n1, n2, h0, h1, h2, run_group, List.nil_append,
    List.flatMap_append, List.flatMap_append, List.flatMap_singleton, List.flatMap_singleton,
    ← List.append_assoc, unpackAlone]

/-- On a payload alone `unpack_64_to_48` is right. -/
theorem unpackAlone_eq : ∀ ws : List Word64, unpackAlone ws = decode ws
  | [] => rfl
  | [a] => by
    have hlen : 8 * (2 * [a].length / 3) = 0 := by simp
    have hrun : unpackGear.run 0 0 [a] = [] := rfl
    rw [unpackAlone, hrun, decode, hlen, List.flatMap_nil, List.range_zero, List.map_nil]
  | [a, b] => by
    -- the third word of the group is not there: the first eight samples do not need it
    have hlen : 8 * (2 * [a, b].length / 3) = 8 := by simp
    have hrun : unpackGear.run 0 0 [a, b] = [Unpack64To48.word0Of b a] := rfl
    have hgroup := congrArg (List.take 8) (fields_group a b 0)
    rw [List.take_append_of_le_length (by simp [fields]),
      List.take_of_length_le (by simp [fields]), ← List.map_take, List.take_range] at hgroup
    rw [unpackAlone, hrun, List.flatMap_singleton, decode, hlen, hgroup]
    refine List.map_congr_left fun k hk => ?_
    have hk8 : k < 8 := List.mem_range.1 hk
    rw [← sample12_lt a b 0 [] (by omega)]
    simp [sample12, payloadNat]
  | a :: b :: c :: ws => by
    have hlen : 8 * (2 * (a :: b :: c :: ws).length / 3) = 16 + 8 * (2 * ws.length / 3) := by
      simp only [List.length_cons]
      omega
    rw [unpackAlone_cons, unpackAlone_eq ws, fields_group, decode, decode, hlen, List.range_add,
      List.map_append, List.map_map]
    congr 1
    · exact List.map_congr_left fun k hk => (sample12_lt a b c ws (List.mem_range.1 hk)).symm
    · exact List.map_congr_left fun k _ => (sample12_add a b c ws k).symm

/-- Behind whole groups the decoding begins anew. -/
theorem unpackAlone_append {as bs : List Word64} (h : as.length % 3 = 0) :
    unpackAlone (as ++ bs) = unpackAlone as ++ unpackAlone bs := by
  have hphase : (unpackGear.after 0 0 as).1 = 0 := by
    rw [unpackGear.after_phase (by decide), Nat.zero_add]
    exact h
  rw [unpackAlone, Gear.run_append, hphase, run_group _ bs, List.flatMap_append,
    unpackAlone, unpackAlone]

/-- Behind whole groups the decoding begins anew. -/
theorem decode_append {as bs : List Word64} (h : as.length % 3 = 0) :
    decode (as ++ bs) = decode as ++ decode bs := by
  rw [← unpackAlone_eq, ← unpackAlone_eq, ← unpackAlone_eq, unpackAlone_append h]

/-- Payloads of whole groups are decoded one by one. -/
theorem decode_flatMap {ι : Type} (f : ι → List Word64) (l : List ι) (rest : List Word64)
    (h : ∀ j ∈ l, (f j).length % 3 = 0) :
    decode (l.flatMap f ++ rest) = l.flatMap (fun j => decode (f j)) ++ decode rest := by
  induction l with
  | nil => rfl
  | cons j l ih =>
    rw [List.flatMap_cons, List.append_assoc, decode_append (h j (List.mem_cons_self ..)),
      ih fun k hk => h k (List.mem_cons_of_mem j hk), List.flatMap_cons, List.append_assoc]

namespace TxPath

section run

variable (ps : List Packet) (x : Nat → TxIn) (n : Nat)

/-- What `bit_unpack_64` is given. -/
def smplBuff (k : Nat) : Bool × Word64 :=
  ((pathAt ps x k).inst1.smplBuffValid, (pathAt ps x k).inst1.smplBuffQ)

theorem words_smplBuff : words (smplBuff ps x) n = emitted ps x n := by
  induction n with
  | zero => rfl
  | succ n ih => rw [words, ih]; rfl

/-- The words presented, by the packet they are of; the last piece may still be under way. -/
def pieces : List (List Word64) :=
  (book ps x n).kept.dropLast.map (payloadAt ps) ++
    [(emitted ps x n).drop ((book ps x n).kept.dropLast.flatMap (payloadAt ps)).length]

/-- The samples put out so far are those of each packet alone. -/
def DecodedAlone : Prop :=
  (unpacked .w12 (smplBuff ps x) (n + 4)).flatMap (fields 8) = (pieces ps x n).flatMap decode

variable {ps x n}

theorem decodedAlone_iff : DecodedAlone ps x n ↔
    decode (emitted ps x n) = (pieces ps x n).flatMap decode := by
  rw [DecodedAlone, unpacked_w12, words_smplBuff, ← unpackAlone_eq, unpackAlone]

/-- Whole groups in every packet but the last of the stream. -/
def WholeGroups (ps : List Packet) : Prop :=
  ∀ j p, j + 1 < ps.length → ps[j]? = some p → p.len % 3 = 0

theorem decodedAlone (h : WholeGroups ps) : DecodedAlone ps x n := by
  rw [decodedAlone_iff]
  have T := tx_packet_integrity ps x n
  obtain ⟨rest, he⟩ := T.whole
  have hgroups : ∀ j ∈ (book ps x n).kept.dropLast, (payloadAt ps j).length % 3 = 0 := by
    intro j hj
    rcases List.eq_nil_or_concat (book ps x n).kept with hnil | ⟨done, last, hk⟩
    · rw [hnil] at hj
      cases hj
    · rw [hk, List.concat_eq_append, List.dropLast_concat] at hj
      have hord := T.order
      rw [hk, List.concat_eq_append] at hord
      have hlt := (List.pairwise_append.1 hord).2.2 j hj last (List.mem_singleton.2 rfl)
      have hlast : last < (book ps x n).next := (inv ps x n).book.lt_next
        (List.mem_append_left _ (List.mem_append_left _ (by rw [hk]; simp)))
      have hb := T.bound
      have hget : ps[j]? = some ps[j] := List.getElem?_eq_getElem (by omega)
      rw [payloadAt_eq hget, Packet.length_payload64]
      have := h j _ (by omega) hget
      omega
  have hpieces : (pieces ps x n).flatMap decode =
      (book ps x n).kept.dropLast.flatMap (fun j => decode (payloadAt ps j)) ++ decode rest := by
    rw [pieces, List.flatMap_append, ← he, List.drop_left, List.flatMap_singleton, List.flatMap_map]
  rw [hpieces, ← he, decode_flatMap _ _ _ hgroups]

end run

/-! ### The first packet without whole groups -/

section first

variable {ps : List Packet} {x : Nat → TxIn}

/-- A clock presents one word at most. -/
theorem length_emitted_succ (n : Nat) :
    (emitted ps x (n + 1)).length ≤ (emitted ps x n).length + 1 := by
  have hlog : emitted ps x (n + 1) = emitted ps x n ++ presented (pathAt ps x n) (x n) := rfl
  rw [hlog, List.length_append, presented]
  split <;> simp

/-- So every number of words on the way is met. -/
theorem exists_emitted {N k : Nat} (h : k ≤ (emitted ps x N).length) :
    ∃ n, (emitted ps x n).length = k := by
  induction N with
  | zero => exact ⟨0, (Nat.le_zero.1 h).symm⟩
  | succ N ih =>
    have hle : (emitted ps x (N + 1)).length ≤ (emitted ps x N).length + 1 := length_emitted_succ N
    by_cases hk : k ≤ (emitted ps x N).length
    · exact ih hk
    · exact ⟨N + 1, by omega⟩

/-- Nothing is lost without synchronisation: the packets kept are the first ones. -/
theorem kept_range (U : Unsync ps x) (n : Nat) :
    (book ps x n).kept = List.range (book ps x n).kept.length := by
  have hok := (inv ps x n).book
  have hp := hok.places
  rw [lost_eq_nil U n, List.append_nil] at hp
  have hr := eq_range_of_perm hok.sorted hp
  have ht := congrArg (List.take (book ps x n).kept.length) hr
  rw [List.take_left, List.take_range, Nat.min_eq_left] at ht
  · exact ht
  · have := congrArg List.length hr
    rw [List.length_append, List.length_range] at this
    omega

/-- Words of the first `k` packets. -/
def total (ps : List Packet) (k : Nat) : Nat := ((List.range k).flatMap (payloadAt ps)).length

theorem total_succ (k : Nat) : total ps (k + 1) = total ps k + (payloadAt ps k).length := by
  rw [total, total, List.range_succ, List.flatMap_append, List.length_append,
    List.flatMap_singleton]

theorem total_mono {k l : Nat} (h : k ≤ l) : total ps k ≤ total ps l := by
  induction h with
  | refl => exact Nat.le_refl _
  | step _ ih => exact Nat.le_trans ih (by rw [total_succ]; exact Nat.le_add_right _ _)

theorem four_le_payloadAt {j : Nat} (h : j < ps.length) : 4 ≤ (payloadAt ps j).length := by
  rw [payloadAt_eq (List.getElem?_eq_getElem h), Packet.length_payload64]
  have := ps[j].two_le_len
  omega

/-- With synchronisation disabled there is a clock in which one word of the packet behind `j` has
    been presented. -/
theorem one_word_on (U : Unsync ps x) (F : Fair x) {j : Nat} (hj : j + 1 < ps.length) : ∃ n w,
    (book ps x n).kept.dropLast = List.range (j + 1) ∧
    emitted ps x n = (List.range (j + 1)).flatMap (payloadAt ps) ++ [w] := by
  obtain ⟨N, hN⟩ := comes_through U F
  have h4 := four_le_payloadAt hj
  have hall : total ps (j + 1) + 1 ≤ (emitted ps x N).length := by
    rw [(hN N (Nat.le_refl N)).emitted, ← flatMap_payloadAt]
    have hm : total ps (j + 2) ≤ total ps ps.length := total_mono (by omega)
    rw [total_succ] at hm
    exact Nat.le_trans (by omega) hm
  obtain ⟨n, hn⟩ := exists_emitted hall
  have T := tx_packet_integrity ps x n
  have hkept := kept_range U n
  generalize (book ps x n).kept.length = m at hkept
  -- the packet behind `j` is being read, and the one behind that is not
  have hwhole := T.whole.length_le
  have honly := T.only.length_le
  rw [hkept] at hwhole honly
  have hlt : j + 1 < m := by
    refine Nat.lt_of_not_le fun hle => ?_
    have hm : total ps m ≤ total ps (j + 1) := total_mono hle
    have honly' : (emitted ps x n).length ≤ total ps m := honly
    omega
  have hdrop : (List.range m).dropLast = List.range (m - 1) := by
    rw [List.dropLast_eq_take, List.length_range, List.take_range, Nat.min_eq_left (Nat.sub_le ..)]
  have hm : m = j + 2 := by
    refine Nat.le_antisymm (Nat.le_of_not_lt fun hgt => ?_) hlt
    have hm : total ps (j + 2) ≤ total ps (m - 1) := total_mono (by omega)
    rw [hdrop] at hwhole
    have hwhole' : total ps (m - 1) ≤ (emitted ps x n).length := hwhole
    rw [total_succ] at hm
    omega
  subst hm
  have hkd : (book ps x n).kept.dropLast = List.range (j + 1) := by rw [hkept, hdrop]; rfl
  obtain ⟨rest, hrest⟩ := T.whole
  rw [hkd] at hrest
  have hlen := congrArg List.length hrest
  rw [List.length_append, hn] at hlen
  have hlen' : total ps (j + 1) + rest.length = total ps (j + 1) + 1 := hlen
  obtain ⟨w, rfl⟩ := List.length_eq_one_iff.1 (Nat.add_left_cancel hlen')
  exact ⟨n, w, hkd, hrest.symm⟩

/-- In that clock its word has already completed a group of the packet before. -/
theorem wholeGroups (h : ∀ n, DecodedAlone ps (fun _ => openFlow) n) : WholeGroups ps := by
  intro j
  induction j using Nat.strongRecOn with
  | ind j ih =>
    intro p hj hget
    obtain ⟨n, w, hkd, he⟩ := one_word_on (fun _ _ _ => .inl rfl) fair_openFlow hj
    have hd := decodedAlone_iff.1 (h n)
    have hgroups : ∀ k ∈ List.range j, (payloadAt ps k).length % 3 = 0 := by
      intro k hk
      have hkj := List.mem_range.1 hk
      have hgk : ps[k]? = some ps[k] := List.getElem?_eq_getElem (by omega)
      have := ih k hkj _ (by omega) hgk
      rw [payloadAt_eq hgk, Packet.length_payload64]
      omega
    rw [pieces, hkd, he, List.drop_left, List.range_succ, List.flatMap_append, List.flatMap_singleton,
      List.append_assoc, decode_flatMap _ _ _ hgroups, List.map_append, List.flatMap_append,
      List.flatMap_append, List.flatMap_map, List.append_assoc] at hd
    have hlen := congrArg List.length (List.append_cancel_left hd)
    simp only [List.map_cons, List.map_nil, List.flatMap_singleton, List.length_append,
      length_decode, List.length_singleton, payloadAt_eq hget, Packet.length_payload64] at hlen
    omega

end first

/-- 12-bit samples are those of each packet alone, in every run with this stream, exactly if all
    packets but the last have whole groups of three 128-bit payload words. -/
theorem pct_samples_alone (ps : List Packet) :
    (∀ x n, DecodedAlone ps x n) ↔ WholeGroups ps :=
  ⟨fun h => wholeGroups (h _), fun h _ _ => decodedAlone h⟩

/-- Two packets of four words: the last word of the first one has half a group, which the second one
    completes. -/
theorem pct_samples_alone_32 : ¬ ∀ ps x n, DecodedAlone ps x n := by
  intro h
  refine absurd (h [packet32, packet32] (fun _ => openFlow) 60) ?_
  rw [decodedAlone_iff]
  decide +kernel

end TxPath

end Tx
