import LimeSdrGw.Clocked.Framing
import LimeSdrGw.Rx.Delivery
import LimeSdrGw.Tx.BurstReady
import Mathlib.Data.List.Infix
/-
# From the packets to the interface

The whole of `tx_path_top`, in the normal and in the external pulse mode: the payloads of the packets
that are kept go through `bit_unpack_64` and the sample FIFO to the serialiser. Whatever the pace of the
host, the sample numbers and the triggers are, the words on the interface are the unpacked payloads, in
their order and each once, with whole words of zeros where the FIFO had none. In the normal mode and
without synchronisation none stays behind: the stream of packets ends, so the FIFO runs empty and the
reader of the slots always has room again.

| here | there |
| --- | --- |
| `BurstPath.stepMode` | tx_path_top.vhd:287-396, `pct_sync_mode` either way |
| `TxTop.log_unpacked` | packets2data_top.vhd:155-165: `bit_unpack_64_inst1` by itself |
| `read`               | the words taken out of `fifo_inst_isnt2` |
| `wordOut`            | `fifo_q` of the serialiser, by the number of the word |
| `slotContent`        | what a slot of `inst1_txiq` takes from the FIFO, `none` for zeros |
-/
namespace Tx

open Clocked Rx

namespace TxTop

variable {ws : List Word128} {sampleWidth : BitVec 2} {x : Nat → TopIn}

/-- What `bit_unpack_64` is given. -/
def smplBuffIn (ws : List Word128) (sampleWidth : BitVec 2) (x : Nat → TopIn) (n : Nat) : Bool × Word64 :=
  ((topAt ws sampleWidth x n).path.inst1.smplBuffValid, (topAt ws sampleWidth x n).path.inst1.smplBuffQ)

/-- What `bit_unpack_64` has put out, in halves. -/
theorem log_unpacked (n : Nat) : (machine ws sampleWidth).log unpacked x n =
    ((unpacker sampleWidth).log (fun s _ => validWord s.mux1DataOutValidReg s.mux1Data128Reg)
      (smplBuffIn ws sampleWidth x) n).flatMap Word128.halves := by
  induction n with
  | zero => rfl
  | succ n ih =>
    have hpart : (topAt ws sampleWidth x n).inst1 =
        (unpacker sampleWidth).state (smplBuffIn ws sampleWidth x) n :=
      Machine.state_part (machine ws sampleWidth) TxTop.inst1
        (fun (u : BitUnpack64) (i : Bool × Word64) => u.step sampleWidth i.1 i.2)
        (fun s _ => (s.path.inst1.smplBuffValid, s.path.inst1.smplBuffQ)) (fun _ _ => rfl) x n
    rw [Machine.log_succ, Machine.log_succ, List.flatMap_append, ih, ← hpart]
    congr 1
    unfold unpacked validWord
    show (if (topAt ws sampleWidth x n).inst1.mux1DataOutValidReg then _ else _) = _
    split <;> rfl

end TxTop

theorem fields_halves (w : Word128) : w.halves.flatMap (fields 4) = fields 8 w := by
  have hsplit : w.hdr1 ++ w.hdr0 = w :=
    (BitVec.extractLsb'_append_extractLsb'_eq_extractLsb' rfl).trans BitVec.extractLsb'_eq_self
  have hfields := fields_append w.hdr0 w.hdr1
  rw [hsplit] at hfields
  rw [hfields, Word128.halves, List.flatMap_cons, List.flatMap_singleton]

theorem fields_flatMap_halves (l : List Word128) :
    (l.flatMap Word128.halves).flatMap (fields 4) = l.flatMap (fields 8) := by
  rw [List.flatMap_assoc]
  simp only [fields_halves]

theorem length_flatMap_fields (l : List Word64) : (l.flatMap (fields 4)).length = 4 * l.length := by
  induction l with
  | nil => rfl
  | cons w l ih =>
    have hfour : (fields 4 w).length = 4 := rfl
    rw [List.flatMap_cons, List.length_append, ih, hfour, List.length_cons]
    omega

/-- With 14-bit samples nothing comes out. -/
theorem log_unpacker_w14 (y : Nat → Bool × Word64) (n : Nat) :
    (unpacker 1).log (fun s _ => validWord s.mux1DataOutValidReg s.mux1Data128Reg) y n = [] := by
  have hvalid : ∀ k, ((unpacker 1).state y k).mux0DataOutValidReg = false ∧
      ((unpacker 1).state y k).mux1DataOutValidReg = false := by
    intro k
    induction k with
    | zero => exact ⟨rfl, rfl⟩
    | succ k ih => exact ⟨rfl, ih.1⟩
  induction n with
  | zero => rfl
  | succ n ih =>
    rw [Machine.log_succ, ih, (hvalid n).2]
    rfl

/-- Whatever the gaps are, what comes out of `bit_unpack_64` is the payload stream unpacked; it takes
    no notice of the lower bit where the upper one is set. -/
theorem log_unpacker (wd : BitVec 2) (y : Nat → Bool × Word64) (n : Nat) :
    ((unpacker wd).log (fun s _ => validWord s.mux1DataOutValidReg s.mux1Data128Reg) y
      (n + BitUnpack64.latency wd)).flatMap (fields 8) = unpackWords wd (words y n) := by
  obtain rfl | rfl | rfl | rfl := code_cases wd
  · exact congrArg (List.flatMap (fields 8)) (unpacked_w16 y n)
  · exact congrArg (List.flatMap (fields 8)) (log_unpacker_w14 y _)
  · exact congrArg (List.flatMap (fields 8)) (unpacked_w12 y n)
  · exact congrArg (List.flatMap (fields 8)) (unpacked_w12 y n)

/-- Payload words that are unpacked together. -/
def unpackGroup (wd : BitVec 2) : Nat :=
  if BitUnpack64.mux0Sel wd then 3 else if BitUnpack64.mux1Sel wd then 1 else 2

/-- Behind whole groups the unpacking begins anew. -/
theorem unpack_append (wd : BitVec 2) {as : List Word64} (h : as.length % unpackGroup wd = 0)
    (bs : List Word64) : unpackWords wd (as ++ bs) = unpackWords wd as ++ unpackWords wd bs := by
  rw [unpackGroup] at h
  rw [unpackWords, unpackWords, unpackWords]
  split
  case isTrue hsel =>
    rw [if_pos hsel] at h
    exact unpackAlone_append h
  case isFalse hsel =>
    rw [if_neg hsel] at h
    split
    case isTrue hsel' => rfl
    case isFalse hsel' =>
      rw [if_neg hsel'] at h
      have hphase : (pairGear.after 0 0 as).1 = 0 := by
        rw [pairGear.after_phase (by decide), Nat.zero_add]
        exact h
      have hprev : pairGear.run 0 (pairGear.after 0 0 as).2 bs = pairGear.run 0 0 bs := by
        cases bs with
        | nil => rfl
        | cons b bs => rfl
      rw [Gear.run_append, hphase, hprev, List.flatMap_append]

theorem unpack_begins (wd : BitVec 2) {as bs : List Word64} (h : as <+: bs) :
    unpackWords wd as <+: unpackWords wd bs := by
  obtain ⟨t, rfl⟩ := h
  rw [unpackWords, unpackWords]
  split
  · rw [Gear.run_append, List.flatMap_append]
    exact List.prefix_append _ _
  · split
    · exact List.prefix_rfl
    · rw [Gear.run_append, List.flatMap_append]
      exact List.prefix_append _ _

@[simp] theorem unpackWords_nil (wd : BitVec 2) : unpackWords wd [] = [] := by
  rw [unpackWords, Gear.run, Gear.run, List.flatMap_nil, ite_self, ite_self]

/-- Packets of whole groups are unpacked one by one; the last one need not be. -/
theorem unpack_flatMap (wd : BitVec 2) (f : Nat → List Word64) (l : List Nat) (last : Nat)
    (h : ∀ j ∈ l, (f j).length % unpackGroup wd = 0) : unpackWords wd ((l ++ [last]).flatMap f) =
      (l ++ [last]).flatMap fun j => unpackWords wd (f j) := by
  induction l with
  | nil => rw [List.nil_append, List.flatMap_singleton, List.flatMap_singleton]
  | cons j l ih =>
    rw [List.cons_append, List.flatMap_cons, unpack_append wd (h j List.mem_cons_self),
      ih fun k hk => h k (List.mem_cons_of_mem j hk), List.flatMap_cons]

/-- The upper twelve bits of a field. -/
def upperBits (v : BitVec 16) : BitVec 12 := v.extractLsb' 4 12

/-- The four samples of a word at the serialiser. -/
def diqSmpls (q : BitVec (4 * 12)) : List (BitVec 12) := (List.range 4).map (diqSmpl q)

theorem diqSmpls_fifoQ (v : Word64) :
    diqSmpls (BurstPath.inst2FifoQ v) = (fields 4 v).map upperBits := by
  have h0 : diqSmpl (w := 12) (BurstPath.inst2FifoQ v) 0 = v.extractLsb' 4 12 :=
    BitVec.extractLsb'_append_eq_right ..
  have h1 : diqSmpl (w := 12) (BurstPath.inst2FifoQ v) 1 = v.extractLsb' 20 12 := by
    rw [diqSmpl, BurstPath.inst2FifoQ, BitVec.extractLsb'_append_eq_of_le (by decide)]
    exact BitVec.extractLsb'_append_eq_right ..
  have h2 : diqSmpl (w := 12) (BurstPath.inst2FifoQ v) 2 = v.extractLsb' 36 12 := by
    rw [diqSmpl, BurstPath.inst2FifoQ, BitVec.extractLsb'_append_eq_of_le (by decide),
      BitVec.extractLsb'_append_eq_of_le (by decide)]
    exact BitVec.extractLsb'_append_eq_right ..
  have h3 : diqSmpl (w := 12) (BurstPath.inst2FifoQ v) 3 = v.extractLsb' 52 12 := by
    rw [diqSmpl, BurstPath.inst2FifoQ, BitVec.extractLsb'_append_eq_of_le (by decide),
      BitVec.extractLsb'_append_eq_of_le (by decide), BitVec.extractLsb'_append_eq_left]
  have hfield : ∀ k, upperBits (v.extractLsb' (16 * k) 16) = v.extractLsb' (16 * k + 4) 12 := by
    intro k
    apply BitVec.eq_of_getLsbD_eq
    intro i hi
    have hlt : 4 + i < 16 := by omega
    rw [upperBits, BitVec.getLsbD_extractLsb', BitVec.getLsbD_extractLsb', BitVec.getLsbD_extractLsb',
      decide_eq_true hlt, Bool.true_and, Nat.add_assoc]
  simp only [diqSmpls, fields, List.range, List.range.loop, List.map, h0, h1, h2, h3, hfield]

theorem flatMap_diqSmpls (l : List Word64) : (l.map BurstPath.inst2FifoQ).flatMap diqSmpls =
    (l.flatMap (fields 4)).map upperBits := by
  rw [List.flatMap_map, List.map_flatMap]
  simp only [diqSmpls_fifoQ]

/-- The payloads of the packets that `bit_unpack_64` takes together are whole groups. -/
theorem payload_groups {ps : List Packet} {wd : BitVec 2}
    (h : BitUnpack64.mux0Sel wd = true → TxPath.WholeGroups ps)
    {j : Nat} (hj : j + 1 < ps.length) :
    (TxPath.payloadAt ps j).length % unpackGroup wd = 0 := by
  have hget : ps[j]? = some ps[j] := List.getElem?_eq_getElem (by omega)
  rw [TxPath.payloadAt_eq hget, Packet.length_payload64, unpackGroup]
  split
  case isTrue hsel =>
    have hthree := h hsel j _ hj hget
    omega
  case isFalse hsel =>
    split
    · exact Nat.mod_one _
    · exact Nat.mul_mod_right 2 _

/-- Packets in order, each of whole groups but for the last of the stream, are unpacked one by one. -/
theorem unpack_kept {ps : List Packet} {wd : BitVec 2}
    (h : BitUnpack64.mux0Sel wd = true → TxPath.WholeGroups ps)
    {l : List Nat} (hs : l.Pairwise (· < ·)) (hl : ∀ j ∈ l, j < ps.length) :
    unpackWords wd (l.flatMap (TxPath.payloadAt ps)) =
      l.flatMap fun j => unpackWords wd (TxPath.payloadAt ps j) := by
  rcases List.eq_nil_or_concat l with rfl | ⟨done, last, rfl⟩
  · exact unpackWords_nil wd
  · rw [List.concat_eq_append] at hs hl ⊢
    refine unpack_flatMap wd _ done last fun j hj => payload_groups h ?_
    have hlt := (List.pairwise_append.1 hs).2.2 j hj last (List.mem_singleton.2 rfl)
    have hlast := hl last (List.mem_append_right _ (List.mem_singleton.2 rfl))
    omega

/-- The payloads by the number of the packet, and by the packets. -/
theorem map_payloadAt (ps : List Packet) :
    (List.range ps.length).map (TxPath.payloadAt ps) = ps.map Packet.payload64 := by
  apply List.ext_getElem
  · rw [List.length_map, List.length_map, List.length_range]
  · intro k hk hk'
    rw [List.length_map] at hk'
    rw [List.getElem_map, List.getElem_map, List.getElem_range,
      TxPath.payloadAt_eq (List.getElem?_eq_getElem hk')]

/-- The samples that a packet carries: four to a word with 16-bit samples, else of twelve bits. -/
def samplesOf (sampleWidth : BitVec 2) (p : Packet) : List (BitVec 16) :=
  if sampleWidth = 0 then p.payload64.flatMap (fields 4) else decode p.payload64

theorem unpackWords_payload {wd : BitVec 2} (hwd : wd ≠ 1) (p : Packet) :
    unpackWords wd p.payload64 = samplesOf wd p := by
  obtain rfl | rfl | rfl | rfl := code_cases wd
  · exact pair_run p.len 0 p.payload64 p.length_payload64
  · exact absurd rfl hwd
  · exact unpackAlone_eq p.payload64
  · exact unpackAlone_eq p.payload64

theorem unpack_all {ps : List Packet} {wd : BitVec 2} (hwd : wd ≠ 1)
    (h : BitUnpack64.mux0Sel wd = true → TxPath.WholeGroups ps) :
    unpackWords wd (ps.flatMap Packet.payload64) = ps.flatMap (samplesOf wd) := by
  have hall := unpack_kept h (l := List.range ps.length) List.pairwise_lt_range fun _ => List.mem_range.1
  have hmap : (List.range ps.length).flatMap (fun j => unpackWords wd (TxPath.payloadAt ps j)) =
      ((List.range ps.length).map (TxPath.payloadAt ps)).flatMap (unpackWords wd) := by
    rw [List.flatMap_map]
  rw [TxPath.flatMap_payloadAt, hmap, map_payloadAt, List.flatMap_map] at hall
  rw [hall]
  simp only [unpackWords_payload hwd]

/-! ## The path in either mode -/

namespace BurstPath

/-- `tx_path_top`; without `pct_sync_mode` the serialiser is always enabled. -/
def stepMode (pctSyncMode : Bool) (sampleWidth : BitVec 2) (c : TxSettings) (s : BurstPath)
    (i : BurstPathIn) : BurstPath where
  inst1 := s.inst1.step sampleWidth (s.topIn i)
  pctSync :=
    s.pctSync.step sampleWidth c.pctSyncSize s.inst1.path.inst1.pctBuffRdyInt s.inst1.fifoFullSig
  inst2 := s.inst2.step pctSyncMode c (s.diqIn i)

theorem stepMode_true (sampleWidth : BitVec 2) (c : TxSettings) :
    stepMode true sampleWidth c = step sampleWidth c := rfl

def txPathTop (ws : List Word128) (pctSyncMode : Bool) (sampleWidth : BitVec 2) (c : TxSettings) :
    Machine BurstPath BurstPathIn := ⟨init ws, stepMode pctSyncMode sampleWidth c⟩

section run

variable (ps : List Packet) (pctSyncMode : Bool) (wd : BitVec 2) (c : TxSettings)
  (x : Nat → BurstPathIn)

/-- The state in clock `n`, the host sending the packets `ps`. -/
abbrev sendAt (n : Nat) : BurstPath :=
  (txPathTop (ps.flatMap Packet.words) pctSyncMode wd c).state x n

def sendTopIn (n : Nat) : TopIn := (sendAt ps pctSyncMode wd c x n).topIn (x n)

def sendTxIn (n : Nat) : TxIn :=
  (sendAt ps pctSyncMode wd c x n).inst1.txIn (sendTopIn ps pctSyncMode wd c x n)

/-- What the serialiser sees. -/
def sendDiqIn (n : Nat) : TxiqIn where
  mode := c.mode
  en := (sendAt ps pctSyncMode wd c x n).inst2.ctrl.txiqEn pctSyncMode
  fifoRdempty := (sendAt ps pctSyncMode wd c x n).smplBuffRdempty

/-- The payload words presented by `p2d_rd`. -/
def presented (n : Nat) : List Word64 := TxPath.emitted ps (sendTxIn ps pctSyncMode wd c x) n

/-- The words taken out of the sample FIFO. -/
def read (n : Nat) : List Word64 := (TxTop.machine (ps.flatMap Packet.words) wd).log
  TxTop.consumed (sendTopIn ps pctSyncMode wd c x) n

theorem send_inst1 (n : Nat) : (sendAt ps pctSyncMode wd c x n).inst1 =
    TxTop.topAt (ps.flatMap Packet.words) wd (sendTopIn ps pctSyncMode wd c x) n :=
  Machine.state_part _ BurstPath.inst1 (TxTop.step wd) topIn (fun _ _ => rfl) x n

theorem send_path (n : Nat) : (sendAt ps pctSyncMode wd c x n).inst1.path =
    TxPath.pathAt ps (sendTxIn ps pctSyncMode wd c x) n :=
  Machine.state_part _ (fun s : BurstPath => s.inst1.path) TxPath.step
    (fun s i => s.inst1.txIn (s.topIn i)) (fun _ _ => rfl) x n

variable {ps pctSyncMode wd c x}

/-- The words for `bit_unpack_64` are the words presented. -/
theorem words_smplBuffIn (n : Nat) : words (TxTop.smplBuffIn (ps.flatMap Packet.words) wd
    (sendTopIn ps pctSyncMode wd c x)) n = presented ps pctSyncMode wd c x n := by
  have hin : TxTop.smplBuffIn (ps.flatMap Packet.words) wd (sendTopIn ps pctSyncMode wd c x) =
      TxPath.smplBuff ps (sendTxIn ps pctSyncMode wd c x) := by
    funext k
    rw [TxTop.smplBuffIn, ← send_inst1, TxPath.smplBuff, ← send_path]
  rw [hin, TxPath.words_smplBuff, presented]

variable (ps pctSyncMode wd c x) in
/-- The FIFO holds what has come out of `bit_unpack_64` and has not been read. -/
theorem read_append (n : Nat) : read ps pctSyncMode wd c x n ++
    (sendAt ps pctSyncMode wd c x n).inst1.inst2.items =
      (TxTop.machine (ps.flatMap Packet.words) wd).log TxTop.unpacked
        (sendTopIn ps pctSyncMode wd c x) n := by
  rw [send_inst1]
  exact TxTop.consumed_append n

variable (ps pctSyncMode wd c x) in
/-- All that comes out of `bit_unpack_64` of the words presented up to clock `n`. -/
theorem fields_unpacked (n : Nat) : ((TxTop.machine (ps.flatMap Packet.words) wd).log
    TxTop.unpacked (sendTopIn ps pctSyncMode wd c x) (n + BitUnpack64.latency wd)).flatMap
      (fields 4) = unpackWords wd (presented ps pctSyncMode wd c x n) := by
  rw [TxTop.log_unpacked, fields_flatMap_halves, log_unpacker, words_smplBuffIn]

/-- The words read are a beginning of the payloads unpacked. -/
theorem read_begins (n : Nat) : (read ps pctSyncMode wd c x n).flatMap (fields 4) <+:
    unpackWords wd (presented ps pctSyncMode wd c x n) := by
  have hread : read ps pctSyncMode wd c x n <+: (TxTop.machine (ps.flatMap Packet.words) wd).log
      TxTop.unpacked (sendTopIn ps pctSyncMode wd c x) (n + BitUnpack64.latency wd) :=
    (read_append ps pctSyncMode wd c x n ▸ List.prefix_append _ _).trans
      (Machine.log_grows _ _ _ (Nat.le_add_right _ _))
  rw [← fields_unpacked]
  exact List.IsPrefix.flatMap hread _

/-! ### The serialiser in place -/

variable (ps pctSyncMode wd c x) in
/-- A word of the sample FIFO is read in clock `n`. -/
def sendReads (n : Nat) : Bool := (sendAt ps pctSyncMode wd c x n).inst2FifoRdreq (x n)

theorem items_of_sendReads {n : Nat} (h : sendReads ps pctSyncMode wd c x n = true) :
    ∃ a l, (sendAt ps pctSyncMode wd c x n).inst1.inst2.items = a :: l := by
  have hne : (sendAt ps pctSyncMode wd c x n).smplBuffRdempty = false := by
    have hreq : (_ && !(sendAt ps pctSyncMode wd c x n).smplBuffRdempty) = true := h
    simpa using (Bool.and_eq_true_iff.1 hreq).2
  cases hitems : (sendAt ps pctSyncMode wd c x n).inst1.inst2.items with
  | nil =>
    rw [smplBuffRdempty, hitems] at hne
    cases hne
  | cons a l => exact ⟨a, l, rfl⟩

variable (ps pctSyncMode wd c x) in
theorem read_succ (n : Nat) : read ps pctSyncMode wd c x (n + 1) = read ps pctSyncMode wd c x n ++
    if sendReads ps pctSyncMode wd c x n then
      (sendAt ps pctSyncMode wd c x n).inst1.inst2.items.head?.toList else [] := by
  rw [send_inst1]
  rfl

theorem read_grows {n k : Nat} (h : n ≤ k) :
    read ps pctSyncMode wd c x n <+: read ps pctSyncMode wd c x k := Machine.log_grows _ _ _ h

variable (ps pctSyncMode wd c x) in
/-- The serialiser with the number of words it has read and what the FIFO shows. -/
def serialiserAt (n : Nat) : Serialiser 12 where
  txiq := (sendAt ps pctSyncMode wd c x n).inst2.txiq
  popped := (read ps pctSyncMode wd c x n).length
  fifoQ := inst2FifoQ (sendAt ps pctSyncMode wd c x n).inst1.inst2.q

def wordOut (ws : Nat → Word64) (k : Nat) : BitVec (4 * 12) := inst2FifoQ (ws k)

/-- It is the serialiser on its own, in front of the words that will be read. -/
theorem serialiser_step {ws : Nat → Word64}
    (hws : ∀ n, read ps pctSyncMode wd c x n = firstWords ws (read ps pctSyncMode wd c x n).length)
    (n : Nat) : serialiserAt ps pctSyncMode wd c x (n + 1) =
      (serialiserAt ps pctSyncMode wd c x n).step (wordOut ws)
        (sendDiqIn ps pctSyncMode wd c x n) := by
  have hpops : (serialiserAt ps pctSyncMode wd c x n).pops (sendDiqIn ps pctSyncMode wd c x n) =
      sendReads ps pctSyncMode wd c x n := rfl
  have hq : (sendAt ps pctSyncMode wd c x (n + 1)).inst1.inst2.q =
      if sendReads ps pctSyncMode wd c x n then
        (sendAt ps pctSyncMode wd c x n).inst1.inst2.items.head?.getD
          (sendAt ps pctSyncMode wd c x n).inst1.inst2.q
      else (sendAt ps pctSyncMode wd c x n).inst1.inst2.q := rfl
  have hread := read_succ ps pctSyncMode wd c x n
  rw [Serialiser.step, hpops]
  cases hr : sendReads ps pctSyncMode wd c x n with
  | false =>
    rw [hr, if_neg Bool.false_ne_true] at hq hread
    rw [List.append_nil] at hread
    rw [serialiserAt, hq, hread, if_neg Bool.false_ne_true, if_neg Bool.false_ne_true]
    rfl
  | true =>
    obtain ⟨a, l, hitems⟩ := items_of_sendReads hr
    rw [hr, if_pos rfl, hitems, List.head?_cons] at hq hread
    -- the word read is the next one of the stream
    have hnext : a = ws (read ps pctSyncMode wd c x n).length := by
      have hlast := hws (n + 1)
      rw [hread, List.length_append, Option.toList_some, List.length_singleton, firstWords_succ,
        ← hws n] at hlast
      exact List.singleton_inj.1 (List.append_cancel_left hlast)
    rw [serialiserAt, hq, hread, if_pos rfl, if_pos rfl, List.length_append]
    rw [hnext]
    rfl

variable (ps pctSyncMode wd c x) in
theorem exists_words : ∃ ws : Nat → Word64, ∀ n,
    read ps pctSyncMode wd c x n = firstWords ws (read ps pctSyncMode wd c x n).length :=
  exists_stream 0 fun _ _ => read_grows

theorem serialiser_eq {ws : Nat → Word64}
    (hws : ∀ n, read ps pctSyncMode wd c x n = firstWords ws (read ps pctSyncMode wd c x n).length)
    (n : Nat) : Serialiser.stateAt (wordOut ws) (sendDiqIn ps pctSyncMode wd c x) n =
      serialiserAt ps pctSyncMode wd c x n := by
  induction n with
  | zero =>
    have hq : inst2FifoQ 0 = 0#48 := by decide
    exact (congrArg (Serialiser.mk .init 0) hq).symm
  | succ n ih =>
    rw [serialiser_step hws, ← ih]
    rfl

/-- The word of a clock is the next word read. -/
theorem read_content {ws : Nat → Word64}
    (hws : ∀ n, read ps pctSyncMode wd c x n = firstWords ws (read ps pctSyncMode wd c x n).length)
    (n : Nat) : (read ps pctSyncMode wd c x (n + 1)).map inst2FifoQ =
      (read ps pctSyncMode wd c x n).map inst2FifoQ ++
        (Serialiser.content (wordOut ws) (sendDiqIn ps pctSyncMode wd c x) n).toList := by
  have hpops : (serialiserAt ps pctSyncMode wd c x n).pops (sendDiqIn ps pctSyncMode wd c x n) =
      sendReads ps pctSyncMode wd c x n := rfl
  rw [Serialiser.content, serialiser_eq hws, hpops]
  have hread := read_succ ps pctSyncMode wd c x n
  cases hr : sendReads ps pctSyncMode wd c x n with
  | false =>
    rw [hr, if_neg Bool.false_ne_true, List.append_nil] at hread
    rw [hread, if_neg Bool.false_ne_true, Option.toList_none, List.append_nil]
  | true =>
    obtain ⟨a, l, hitems⟩ := items_of_sendReads hr
    rw [hr, if_pos rfl, hitems, List.head?_cons, Option.toList_some] at hread
    have hlen : (read ps pctSyncMode wd c x (n + 1)).length =
        (read ps pctSyncMode wd c x n).length + 1 := by rw [hread, List.length_append]; rfl
    rw [hws (n + 1), hlen, firstWords_succ, ← hws n, List.map_append, if_pos rfl]
    rfl

/-- Only the serialiser empties the FIFO. -/
theorem sole_reader (n : Nat) (h : (sendAt ps pctSyncMode wd c x (n + 1)).smplBuffRdempty = true) :
    (sendAt ps pctSyncMode wd c x n).smplBuffRdempty = true ∨
      sendReads ps pctSyncMode wd c x n = true := by
  cases hr : sendReads ps pctSyncMode wd c x n with
  | true => exact .inr rfl
  | false =>
    have hitems : (sendAt ps pctSyncMode wd c x (n + 1)).inst1.inst2.items =
        Fifo.popped (sendReads ps pctSyncMode wd c x n)
          (sendAt ps pctSyncMode wd c x n).inst1.inst2.items ++
        Fifo.pushed (2 * decompFifoWords) (sendAt ps pctSyncMode wd c x n).inst1.inst1DataOutValid
          (sendAt ps pctSyncMode wd c x n).inst1.inst1DataOut.halves
          (sendAt ps pctSyncMode wd c x n).inst1.inst2.items := rfl
    rw [smplBuffRdempty, List.isEmpty_iff, hitems, hr, List.append_eq_nil_iff] at h
    exact .inl (List.isEmpty_iff.2 h.1)

theorem send_serial {ws : Nat → Word64}
    (hws : ∀ n, read ps pctSyncMode wd c x n = firstWords ws (read ps pctSyncMode wd c x n).length) :
    Serialiser.Serial (wordOut ws) (sendDiqIn ps pctSyncMode wd c x) := by
  apply Serialiser.serial
  apply Serialiser.ready_of_sole_reader
  intro n h
  rw [serialiser_eq hws]
  exact sole_reader n h

/-- A slot takes the word that was there in the clock before. -/
theorem reads_of_slot {ws : Nat → Word64}
    (hws : ∀ n, read ps pctSyncMode wd c x n = firstWords ws (read ps pctSyncMode wd c x n).length)
    {n : Nat} (hslot : (sendAt ps pctSyncMode wd c x (n + 1)).inst2.txiq.slot = true)
    (hne : (sendAt ps pctSyncMode wd c x n).inst1.inst2.items ≠ []) :
    sendReads ps pctSyncMode wd c x (n + 1) = true := by
  have hempty : (sendDiqIn ps pctSyncMode wd c x n).fifoRdempty = false := by
    show (sendAt ps pctSyncMode wd c x n).inst1.inst2.items.isEmpty = false
    rw [List.isEmpty_eq_false_iff]
    exact hne
  have hser := serialiser_eq hws
  have havail := (send_serial hws).available n (by rw [Serialiser.txiqAt, hser]; exact hslot)
  rw [hempty, Serialiser.content, hser] at havail
  cases hr : sendReads ps pctSyncMode wd c x (n + 1) with
  | true => rfl
  | false =>
    have hpops : (serialiserAt ps pctSyncMode wd c x (n + 1)).pops
        (sendDiqIn ps pctSyncMode wd c x (n + 1)) = false := hr
    rw [hpops] at havail
    cases havail

/-- What has come out of `bit_unpack_64` only grows. -/
theorem made_grows {n k : Nat} (h : n ≤ k) :
    read ps pctSyncMode wd c x n ++ (sendAt ps pctSyncMode wd c x n).inst1.inst2.items <+:
      read ps pctSyncMode wd c x k ++ (sendAt ps pctSyncMode wd c x k).inst1.inst2.items := by
  rw [read_append, read_append]
  exact Machine.log_grows _ _ _ h

/-! ### Always enabled -/

section normal

variable {ws : Nat → Word64}

/-- One slot after the other, from the second clock on. -/
theorem slot_at (hws : ∀ n, read ps false wd c x n = firstWords ws (read ps false wd c x n).length)
    (k : Nat) : (sendAt ps false wd c x (1 + k * c.mode.period)).inst2.txiq.slot = true := by
  have hserial := send_serial hws
  have htxiq : ∀ n, Serialiser.txiqAt (wordOut ws) (sendDiqIn ps false wd c x) n =
      (sendAt ps false wd c x n).inst2.txiq := fun n => congrArg Serialiser.txiq (serialiser_eq hws n)
  induction k with
  | zero =>
    rw [Nat.zero_mul, ← htxiq]
    exact hserial.starts 0 rfl rfl
  | succ k ih =>
    rw [← htxiq] at ih
    have hnext := (hserial.follows c.mode _ ih fun _ _ _ => rfl).1 rfl
    rw [htxiq, Nat.add_assoc, ← Nat.succ_mul] at hnext
    exact hnext

/-- A word in the FIFO does not stay there. -/
theorem reads_later (hws : ∀ n, read ps false wd c x n = firstWords ws (read ps false wd c x n).length)
    (n : Nat) (h : (sendAt ps false wd c x n).inst1.inst2.items ≠ []) :
    ∃ m, n ≤ m ∧ (read ps false wd c x n).length < (read ps false wd c x m).length := by
  have hper : n ≤ n * c.mode.period := Nat.le_mul_of_pos_right n (Nat.le_add_left 1 _)
  have hslot := slot_at hws n
  rw [Nat.add_comm] at hslot
  generalize n * c.mode.period = k at hper hslot
  have hgrow : read ps false wd c x n <+: read ps false wd c x k := read_grows hper
  have hnext : read ps false wd c x k <+: read ps false wd c x (k + 1) := read_grows (Nat.le_succ k)
  obtain hlt | heq := Nat.lt_or_eq_of_le hgrow.length_le
  · exact ⟨k, hper, hlt⟩
  · -- nothing has been read, so the word is still there when the next slot is due
    have hmade : read ps false wd c x n ++ (sendAt ps false wd c x n).inst1.inst2.items <+:
        read ps false wd c x k ++ (sendAt ps false wd c x k).inst1.inst2.items := made_grows hper
    rw [hgrow.eq_of_length heq, List.prefix_append_right_inj] at hmade
    have hne : (sendAt ps false wd c x k).inst1.inst2.items ≠ [] := by
      intro hnil
      rw [hnil, List.prefix_nil] at hmade
      exact h hmade
    have hreads := reads_of_slot hws hslot hne
    obtain ⟨a, l, hitems⟩ := items_of_sendReads hreads
    have hlast := congrArg List.length (read_succ ps false wd c x (k + 1))
    rw [hreads, if_pos rfl, hitems, List.length_append, List.head?_cons, Option.toList_some,
      List.length_singleton] at hlast
    have hle := hnext.length_le
    exact ⟨k + 1 + 1, by omega, by omega⟩

/-- Everything is read in the end. -/
theorem drains (hws : ∀ n, read ps false wd c x n = firstWords ws (read ps false wd c x n).length)
    {l : Nat} (d n : Nat) (hl : l ≤ (read ps false wd c x n ++
      (sendAt ps false wd c x n).inst1.inst2.items).length)
    (hd : l ≤ (read ps false wd c x n).length + d) :
    ∃ m, n ≤ m ∧ l ≤ (read ps false wd c x m).length := by
  induction d generalizing n with
  | zero => exact ⟨n, Nat.le_refl n, hd⟩
  | succ d ih =>
    by_cases hdone : l ≤ (read ps false wd c x n).length
    · exact ⟨n, Nat.le_refl n, hdone⟩
    · have hne : (sendAt ps false wd c x n).inst1.inst2.items ≠ [] := by
        intro hnil
        rw [hnil, List.append_nil] at hl
        exact hdone hl
      obtain ⟨k, hk, hlt⟩ := reads_later hws n hne
      obtain ⟨m, hm, hle⟩ := ih k (Nat.le_trans hl (made_grows hk).length_le) (by omega)
      exact ⟨m, Nat.le_trans hk hm, hle⟩

/-- What has been presented is on the interface later. -/
theorem sent_later (hws : ∀ n, read ps false wd c x n = firstWords ws (read ps false wd c x n).length)
    (n : Nat) : ∃ m, n ≤ m ∧
      unpackWords wd (presented ps false wd c x n) <+: (read ps false wd c x m).flatMap (fields 4) := by
  obtain ⟨k, hk⟩ : ∃ k, k = n + BitUnpack64.latency wd := ⟨_, rfl⟩
  have hfields := fields_unpacked ps false wd c x n
  rw [← hk, ← read_append] at hfields
  obtain ⟨m, hm, hle⟩ := drains hws _ k (Nat.le_refl _)
    (Nat.le_add_left _ (read ps false wd c x k).length)
  have hgrow : read ps false wd c x k ++ (sendAt ps false wd c x k).inst1.inst2.items <+:
      read ps false wd c x m :=
    List.prefix_of_prefix_length_le (made_grows hm) (List.prefix_append _ _) hle
  refine ⟨m, by omega, ?_⟩
  rw [← hfields]
  exact List.IsPrefix.flatMap hgrow _

/-! ### The slots -/

variable (ps wd c x) in
/-- What slot `k` puts on the interface. -/
def slotContent (ws : Nat → Word64) (k : Nat) : Option (BitVec (4 * 12)) :=
  Serialiser.content (wordOut ws) (sendDiqIn ps false wd c x) (1 + k * c.mode.period)

/-- Between the slots nothing is read. -/
theorem read_between (hws : ∀ n, read ps false wd c x n = firstWords ws (read ps false wd c x n).length)
    (k : Nat) {j : Nat} (hj : j < c.mode.period) :
    read ps false wd c x (1 + k * c.mode.period + 1 + j) =
      read ps false wd c x (1 + k * c.mode.period + 1) := by
  induction j with
  | zero => rfl
  | succ j ih =>
    have hserial := send_serial hws
    have hslot : (Serialiser.txiqAt (wordOut ws) (sendDiqIn ps false wd c x)
        (1 + k * c.mode.period)).slot = true := by
      rw [Serialiser.txiqAt, serialiser_eq hws]
      exact slot_at hws k
    have hnone := (hserial.follows c.mode _ hslot fun _ _ _ => rfl).2 (j + 1) (Nat.succ_pos j) hj
    have hquiet : sendReads ps false wd c x (1 + k * c.mode.period + 1 + j) = false := by
      rw [Bool.eq_false_iff]
      intro hr
      have hreads := hserial.reads (1 + k * c.mode.period + 1 + j)
      rw [serialiser_eq hws] at hreads
      have hone := hreads hr
      rw [Nat.add_assoc, Nat.add_comm 1 j, hnone] at hone
      cases hone
    rw [← Nat.add_assoc, read_succ, hquiet, if_neg Bool.false_ne_true, List.append_nil]
    exact ih (Nat.lt_of_succ_lt hj)

/-- The words read are the words of the slots. -/
theorem slots_read (hws : ∀ n, read ps false wd c x n = firstWords ws (read ps false wd c x n).length)
    (k : Nat) : (List.range k).filterMap (slotContent ps wd c x ws) =
      (read ps false wd c x (1 + k * c.mode.period)).map inst2FifoQ := by
  induction k with
  | zero =>
    rw [Nat.zero_mul]
    rfl
  | succ k ih =>
    have hper : 1 + (k + 1) * c.mode.period =
        1 + k * c.mode.period + 1 + (c.mode.period - 1) := by
      have hpos : 0 < c.mode.period := Nat.succ_pos _
      rw [Nat.succ_mul]
      omega
    rw [hper, read_between hws k (Nat.sub_lt (Nat.succ_pos _) Nat.one_pos), read_content hws, ← ih,
      List.range_succ, List.filterMap_append]
    rw [List.filterMap_cons, List.filterMap_nil, slotContent]
    cases Serialiser.content (wordOut ws) (sendDiqIn ps false wd c x) (1 + k * c.mode.period) with
    | none => rfl
    | some q => rfl

/-! ### Everything is sent -/

theorem prefix_of_unsync (U : TxPath.Unsync ps (sendTxIn ps false wd c x)) (n : Nat) :
    presented ps false wd c x n <+: ps.flatMap Packet.payload64 := by
  have I := TxPath.inv ps (sendTxIn ps false wd c x) n
  refine (TxPath.kept_emitted ps I).2.trans ?_
  rw [TxPath.kept_range U, ← TxPath.flatMap_payloadAt]
  refine List.IsPrefix.flatMap ?_ _
  have hle : (TxPath.book ps (sendTxIn ps false wd c x) n).kept.length ≤ ps.length := by
    have hp := I.book.places.length_eq
    have hb := I.bound
    rw [List.length_append, List.length_append, List.length_range] at hp
    omega
  have htake := List.take_prefix (TxPath.book ps (sendTxIn ps false wd c x) n).kept.length
    (List.range ps.length)
  rwa [List.take_range, Nat.min_eq_left hle] at htake

/-- The stream of packets ends, so the FIFO is empty in the end. -/
theorem empty_later (hws : ∀ n, read ps false wd c x n = firstWords ws (read ps false wd c x n).length)
    (U : TxPath.Unsync ps (sendTxIn ps false wd c x)) :
    ∃ n, ∀ k, n ≤ k → (sendAt ps false wd c x k).inst1.inst2.items = [] := by
  have hbound : ∀ n, (read ps false wd c x n ++
      (sendAt ps false wd c x n).inst1.inst2.items).length ≤
        (unpackWords wd (ps.flatMap Packet.payload64)).length := by
    intro n
    obtain ⟨k, hk⟩ : ∃ k, k = n + BitUnpack64.latency wd := ⟨_, rfl⟩
    have hmade : (read ps false wd c x n ++ (sendAt ps false wd c x n).inst1.inst2.items).length ≤
        (read ps false wd c x k ++ (sendAt ps false wd c x k).inst1.inst2.items).length :=
      (made_grows (by omega)).length_le
    have hlog := congrArg List.length (fields_unpacked ps false wd c x n)
    have hall := (unpack_begins wd (prefix_of_unsync U n)).length_le
    rw [← hk, ← read_append, length_flatMap_fields] at hlog
    omega
  obtain ⟨n, hrest⟩ := LeadsTo.rest (fun n k h => (made_grows h).length_le) hbound
  obtain ⟨m, hm, hall⟩ := drains hws _ n (Nat.le_refl _) (Nat.le_add_left _ _)
  refine ⟨m, fun k hk => List.eq_nil_of_length_eq_zero ?_⟩
  have hmade := hrest k (Nat.le_trans hm hk)
  have hread : (read ps false wd c x m).length ≤ (read ps false wd c x k).length :=
    (read_grows hk).length_le
  rw [List.length_append] at hmade
  omega

/-- With words from the host again and again the whole stream is read in the end. -/
theorem all_sent (hws : ∀ n, read ps false wd c x n = firstWords ws (read ps false wd c x n).length)
    (U : TxPath.Unsync ps (sendTxIn ps false wd c x)) (hsupply : ∀ n, ∃ k, n ≤ k ∧ (x k).gap = false) :
    ∃ m, ∀ k, m ≤ k → (read ps false wd c x k).flatMap (fields 4) =
      unpackWords wd (ps.flatMap Packet.payload64) := by
  obtain ⟨e, hempty⟩ := empty_later hws U
  have hroom : ∀ k, e ≤ k → (sendTxIn ps false wd c x (k + 1)).smplBuffAlmostFull = false := by
    intro k hk
    have hused : (sendAt ps false wd c x k).inst1.wrusedw = 0 := by
      rw [TxTop.wrusedw, hempty k hk]
      rfl
    show decide ((sendAt ps false wd c x k).inst1.fifoLimit <
      (sendAt ps false wd c x k).inst1.wrusedw) = false
    rw [hused]
    exact decide_eq_false (Nat.not_lt_zero _)
  have F : TxPath.Fair (sendTxIn ps false wd c x) := by
    refine ⟨hsupply, fun n => ⟨n + e + 1, by omega, hroom _ (by omega), hroom _ (by omega)⟩⟩
  obtain ⟨t, hthrough⟩ := TxPath.comes_through U F
  obtain ⟨m, hm, hsent⟩ := sent_later hws t
  have hall : ∀ k, t ≤ k → presented ps false wd c x k = ps.flatMap Packet.payload64 :=
    fun k hk => (hthrough k hk).emitted
  refine ⟨m, fun k hk => ?_⟩
  have hread : (read ps false wd c x k).flatMap (fields 4) <+:
      unpackWords wd (presented ps false wd c x k) :=
    read_begins k
  have hlater : (read ps false wd c x m).flatMap (fields 4) <+:
      (read ps false wd c x k).flatMap (fields 4) := List.IsPrefix.flatMap (read_grows hk) _
  rw [hall t (Nat.le_refl t)] at hsent
  rw [hall k (Nat.le_trans hm hk)] at hread
  exact hread.eq_of_length_le (hsent.trans hlater).length_le

/-- Two clocks later the slot is on the interface. -/
theorem slot_shown (hws : ∀ n, read ps false wd c x n = firstWords ws (read ps false wd c x n).length)
    (k : Nat) {j : Nat} (hj : j < c.mode.period) :
    (sendAt ps false wd c x (3 + k * c.mode.period + j)).inst2.txiq.diqL.reg0 =
      c.mode.emitL (slotContent ps wd c x ws k) j ∧
    (sendAt ps false wd c x (3 + k * c.mode.period + j)).inst2.txiq.diqH.reg0 =
      c.mode.emitH (slotContent ps wd c x ws k) j := by
  have hslot := slot_at hws k
  have htxiq : ∀ n, (sendAt ps false wd c x n).inst2.txiq =
      Serialiser.txiqAt (wordOut ws) (sendDiqIn ps false wd c x) n := fun n =>
    (congrArg Serialiser.txiq (serialiser_eq hws n)).symm
  rw [htxiq] at hslot ⊢
  have hemits := (send_serial hws).emits c.mode _ hslot (fun _ _ _ => rfl) j hj
  have hclock : 3 + k * c.mode.period + j = 1 + k * c.mode.period + 2 + j := by omega
  rw [hclock]
  exact hemits

/-- In the end the words of the slots are the samples of all packets. -/
theorem slots_sent (hws : ∀ n, read ps false wd c x n = firstWords ws (read ps false wd c x n).length)
    (U : TxPath.Unsync ps (sendTxIn ps false wd c x)) (hsupply : ∀ n, ∃ k, n ≤ k ∧ (x k).gap = false)
    (hwd : wd ≠ 1) (hwhole : BitUnpack64.mux0Sel wd = true → TxPath.WholeGroups ps) : ∃ m, ∀ k, m ≤ k →
      ((List.range k).filterMap (slotContent ps wd c x ws)).flatMap diqSmpls =
        (ps.flatMap (samplesOf wd)).map upperBits := by
  obtain ⟨m, hsent⟩ := all_sent hws U hsupply
  refine ⟨m, fun k hk => ?_⟩
  have hper : k ≤ k * c.mode.period := Nat.le_mul_of_pos_right k (Nat.succ_pos _)
  rw [slots_read hws, flatMap_diqSmpls, hsent _ (by omega), unpack_all hwd hwhole]

end normal

/-! ### The results -/

variable (ps pctSyncMode wd c x) in
/-- Packets read out of their slot, or being read. -/
def kept (n : Nat) : List Nat := (TxPath.book ps (sendTxIn ps pctSyncMode wd c x) n).kept

theorem kept_lt (n : Nat) {j : Nat} (h : j ∈ kept ps pctSyncMode wd c x n) : j < ps.length := by
  have I := TxPath.inv ps (sendTxIn ps pctSyncMode wd c x) n
  have hnext := I.book.lt_next (List.mem_append_left _ (List.mem_append_left _ h))
  exact Nat.lt_of_lt_of_le hnext I.bound

theorem kept_sorted (n : Nat) : (kept ps pctSyncMode wd c x n).Pairwise (· < ·) :=
  (List.pairwise_append.1 (TxPath.inv ps (sendTxIn ps pctSyncMode wd c x) n).book.sorted).1

/-- What is on the interface, and where it comes from. -/
structure Delivers (ps : List Packet) (pctSyncMode : Bool) (sampleWidth : BitVec 2) (c : TxSettings)
    (x : Nat → BurstPathIn) (ws : Nat → Word64) : Prop where
  /-- The serialiser of the path runs as one that reads the words `ws`, -/
  inPlace : ∀ n, (sendAt ps pctSyncMode sampleWidth c x n).inst2.txiq =
    Serialiser.txiqAt (wordOut ws) (sendDiqIn ps pctSyncMode sampleWidth c x) n
  /-- and puts them on the interface one by one, with zeros only where the FIFO was empty. -/
  serial : Serialiser.Serial (wordOut ws) (sendDiqIn ps pctSyncMode sampleWidth c x)
  /-- The packets kept, each once and in the order of the stream. -/
  order : ∀ n, (kept ps pctSyncMode sampleWidth c x n).Pairwise (· < ·) ∧
    ∀ j ∈ kept ps pctSyncMode sampleWidth c x n, j < ps.length
  /-- The words read are a beginning of their payloads unpacked. -/
  words : ∀ n, (firstWords ws (Serialiser.stateAt (wordOut ws)
      (sendDiqIn ps pctSyncMode sampleWidth c x) n).popped).flatMap (fields 4) <+:
    unpackWords sampleWidth ((kept ps pctSyncMode sampleWidth c x n).flatMap (TxPath.payloadAt ps))
  /-- Packets of whole groups are unpacked as if each were alone. -/
  alone : (BitUnpack64.mux0Sel sampleWidth = true → TxPath.WholeGroups ps) → ∀ n,
    unpackWords sampleWidth ((kept ps pctSyncMode sampleWidth c x n).flatMap (TxPath.payloadAt ps)) =
      (kept ps pctSyncMode sampleWidth c x n).flatMap fun j =>
        unpackWords sampleWidth (TxPath.payloadAt ps j)

/-- `tx_path_top` delivers, whatever the pace of the host, the sample numbers and the triggers are: on
    the interface are the words of the packets kept, in order and each once. -/
theorem tx_path_delivers (ps : List Packet) (pctSyncMode : Bool) (sampleWidth : BitVec 2)
    (c : TxSettings) (x : Nat → BurstPathIn) : ∃ ws, Delivers ps pctSyncMode sampleWidth c x ws := by
  obtain ⟨ws, hws⟩ := exists_words ps pctSyncMode sampleWidth c x
  refine ⟨ws, ?_, send_serial hws, fun n => ⟨kept_sorted n, fun _ h => kept_lt n h⟩, ?_, ?_⟩
  · intro n
    rw [Serialiser.txiqAt, serialiser_eq hws]
    rfl
  · intro n
    rw [serialiser_eq hws]
    show (firstWords ws (read ps pctSyncMode sampleWidth c x n).length).flatMap (fields 4) <+: _
    rw [← hws n]
    have hkept := (TxPath.kept_emitted ps (TxPath.inv ps (sendTxIn ps pctSyncMode sampleWidth c x) n)).2
    exact (read_begins n).trans (unpack_begins sampleWidth hkept)
  · intro h n
    exact unpack_kept h (kept_sorted n) fun _ => kept_lt n

/-- In the normal mode, without synchronisation and with words from the host again and again, with
    12-bit samples in packets of whole groups or with 16-bit samples, all that the host has sent is
    put on the interface: slot follows slot without a gap, some with zeros, and the words of the
    others are the samples of the packets, none lost and none twice. -/
theorem tx_path_sends_all (ps : List Packet) (sampleWidth : BitVec 2) (hsw : sampleWidth ≠ 1)
    (c : TxSettings) (x : Nat → BurstPathIn)
    (hsync : ∀ n, ∀ p ∈ ps, (x n).pctSyncDis = true ∨ p.syncDis = true)
    (hsupply : ∀ n, ∃ k, n ≤ k ∧ (x k).gap = false)
    (hwhole : BitUnpack64.mux0Sel sampleWidth = true → TxPath.WholeGroups ps) :
    ∃ slots : Nat → Option (BitVec (4 * 12)),
      (∀ k j, j < c.mode.period →
        (sendAt ps false sampleWidth c x (3 + k * c.mode.period + j)).inst2.txiq.diqL.reg0 =
          c.mode.emitL (slots k) j ∧
        (sendAt ps false sampleWidth c x (3 + k * c.mode.period + j)).inst2.txiq.diqH.reg0 =
          c.mode.emitH (slots k) j) ∧
      ∃ m, ∀ k, m ≤ k → ((List.range k).filterMap slots).flatMap diqSmpls =
        (ps.flatMap (samplesOf sampleWidth)).map upperBits := by
  obtain ⟨ws, hws⟩ := exists_words ps false sampleWidth c x
  exact ⟨slotContent ps sampleWidth c x ws, fun k j hj => slot_shown hws k hj,
    slots_sent hws hsync hsupply hsw hwhole⟩

end run

/-- A packet of the samples 1 to 16. -/
def countingPacket : Packet :=
  ⟨0x2010, [0x00800070006000500040003000200010, 0x010000f000e000d000c000b000a00090], by decide, by decide⟩

/-- Two channels, words in every clock. -/
theorem tx_path_sends_all_counting : ∃ slots : Nat → Option (BitVec (4 * 12)), ∃ m, ∀ k, m ≤ k →
    ((List.range k).filterMap slots).flatMap diqSmpls =
      [1, 2, 3, 4, 5, 6, 7, 8, 9, 10, 11, 12, 13, 14, 15, 16] := by
  obtain ⟨slots, -, m, h⟩ := tx_path_sends_all [countingPacket] 0 (by decide)
    ⟨⟨false, true, true, 3, false⟩, 0, 0, 0⟩ (fun _ => ⟨false, true, 0, false⟩)
    (fun _ _ _ => .inl rfl) (fun n => ⟨n, Nat.le_refl n, rfl⟩) nofun
  refine ⟨slots, m, fun k hk => (h k hk).trans ?_⟩
  decide

end BurstPath

end Tx
