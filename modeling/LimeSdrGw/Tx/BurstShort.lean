import LimeSdrGw.Tx.BurstReady
import LimeSdrGw.Tx.PctWait
/-
# Bursts that come up short

For all settings but those of `ReadySafe` there is a run in which `inst2_pct_buff_rdy` is wrong.

A packet that just sets the almost-full bit leaves 496 words in the sample FIFO and none elsewhere. Two
words into a burst the signal, two clocks behind the FIFO, is still high over 494 words; and a burst of
no words has its counter run round (`not_readyRight_alone`). Where the tables ask for packets in the
slots as well, two of 32 bytes do (`not_readyRight_waiting`).
-/
namespace Tx

open Clocked Rx P2dWrFsm

/-! ### Numbers of words -/

namespace BurstPath

/-- Words of the sample FIFO made of `n` payload words: pairs of 128 bits. -/
def madeWords (sampleWidth : BitVec 2) (n : Nat) : Nat :=
  2 * (if BitUnpack64.mux1Sel sampleWidth then 2 * n / 3 else n / 2)

theorem madeWords_mono (sampleWidth : BitVec 2) {n m : Nat} (h : n ≤ m) :
    madeWords sampleWidth n ≤ madeWords sampleWidth m := by
  unfold madeWords
  split <;> omega

/-- The words `bit_unpack_64` has put out for a stream of payload words. -/
theorem length_unpacker {sampleWidth : BitVec 2} (hw : sampleWidth ≠ 1) (y : Nat → Bool × Word64)
    (n : Nat) : 2 * ((unpacker sampleWidth).log
      (fun s _ => validWord s.mux1DataOutValidReg s.mux1Data128Reg) y
      (n + BitUnpack64.latency sampleWidth)).length = madeWords sampleWidth (words y n).length := by
  have h12 : 2 * (unpackGear.run 0 0 (words y n)).length = 2 * (2 * (words y n).length / 3) := by
    have hlen := length_unpackGear_run (words y n) 0 0 (by decide)
    omega
  match sampleWidth, hw with
  | 0, _ =>
    have hlog : (unpacker 0).log _ y (n + 2) = pairGear.run 0 0 (words y n) := unpacked_w16 y n
    show 2 * ((unpacker 0).log _ y (n + 2)).length = 2 * ((words y n).length / 2)
    rw [hlog, length_pairGear_run _ _ _ (by decide), Nat.zero_add]
  | 2, _ =>
    have hlog : (unpacker 2).log _ y (n + 4) = unpackGear.run 0 0 (words y n) := unpacked_w12 y n
    show 2 * ((unpacker 2).log _ y (n + 4)).length = _
    rw [hlog, h12]
    rfl
  | 3, _ =>
    have hlog : (unpacker 3).log _ y (n + 4) = unpackGear.run 0 0 (words y n) := unpacked_w12 y n
    show 2 * ((unpacker 3).log _ y (n + 4)).length = _
    rw [hlog, h12]
    rfl

section run

variable {ps : List Packet} {sampleWidth : BitVec 2} {c : TxSettings} {x : Nat → BurstPathIn}

variable (ps sampleWidth c x)

/-- Words put into the sample FIFO. -/
def madeAt (n : Nat) : Nat := ((TxTop.machine (ps.flatMap Packet.words) sampleWidth).log
  TxTop.unpacked (topIns ps sampleWidth c x) n).length

/-- Words read out of the sample FIFO. -/
def takenAt (n : Nat) : Nat := ((TxTop.machine (ps.flatMap Packet.words) sampleWidth).log
  TxTop.consumed (topIns ps sampleWidth c x) n).length

/-- Payload words read out of the slots. -/
def sentAt (n : Nat) : Nat := (TxPath.emitted ps (txIns ps sampleWidth c x) n).length

variable {ps sampleWidth c x}

variable (ps sampleWidth c x) in
theorem taken_add_level (n : Nat) : takenAt ps sampleWidth c x n + levelAt ps sampleWidth c x n =
    madeAt ps sampleWidth c x n := by
  have happend : (TxTop.machine (ps.flatMap Packet.words) sampleWidth).log TxTop.consumed
      (topIns ps sampleWidth c x) n ++ (TxTop.topAt (ps.flatMap Packet.words) sampleWidth
        (topIns ps sampleWidth c x) n).inst2.items = _ := TxTop.consumed_append n
  rw [← inst1_eq] at happend
  have hlen := congrArg List.length happend
  rw [List.length_append] at hlen
  exact hlen

variable (ps sampleWidth c x) in
theorem madeAt_mono {n m : Nat} (h : n ≤ m) :
    madeAt ps sampleWidth c x n ≤ madeAt ps sampleWidth c x m :=
  (Machine.log_grows _ _ _ h).length_le

theorem takenAt_succ (n : Nat) : takenAt ps sampleWidth c x (n + 1) =
    takenAt ps sampleWidth c x n + (readsAt ps sampleWidth c x n).toNat := by
  have hlog : takenAt ps sampleWidth c x (n + 1) = takenAt ps sampleWidth c x n +
      (TxTop.consumed (burstAt ps sampleWidth c x n).inst1 (topIns ps sampleWidth c x n)).length := by
    rw [takenAt, Machine.log_succ, List.length_append, inst1_eq]
    rfl
  rw [hlog]
  congr 1
  show (if readsAt ps sampleWidth c x n then
    (burstAt ps sampleWidth c x n).inst1.inst2.items.head?.toList else []).length = _
  cases hr : readsAt ps sampleWidth c x n with
  | false => rfl
  | true =>
    have hne : (burstAt ps sampleWidth c x n).smplBuffRdempty = false := by
      rw [readsAt_eq] at hr
      exact (Fifo2diq.readAt_eq_true.1 hr).2
    cases hi : (burstAt ps sampleWidth c x n).inst1.inst2.items with
    | nil =>
      rw [smplBuffRdempty, hi] at hne
      cases hne
    | cons w ws => rfl

/-- What `bit_unpack_64` has put out, in halves. -/
theorem log_unpacked (n : Nat) :
    (TxTop.machine (ps.flatMap Packet.words) sampleWidth).log TxTop.unpacked
      (topIns ps sampleWidth c x) n =
    ((unpacker sampleWidth).log (fun s _ => validWord s.mux1DataOutValidReg s.mux1Data128Reg)
      (TxPath.smplBuff ps (txIns ps sampleWidth c x)) n).flatMap Word128.halves := by
  induction n with
  | zero => rfl
  | succ n ih =>
    have hpart : (burstAt ps sampleWidth c x n).inst1.inst1 = (unpacker sampleWidth).state
        (TxPath.smplBuff ps (txIns ps sampleWidth c x)) n := by
      have hp := Machine.state_part (machine (ps.flatMap Packet.words) sampleWidth c)
        (fun s => s.inst1.inst1) (fun (u : BitUnpack64) (i : Bool × Word64) =>
          u.step sampleWidth i.1 i.2)
        (fun s _ => (s.inst1.path.inst1.smplBuffValid, s.inst1.path.inst1.smplBuffQ))
        (fun _ _ => rfl) x n
      have hin : (fun k => ((burstAt ps sampleWidth c x k).inst1.path.inst1.smplBuffValid,
          (burstAt ps sampleWidth c x k).inst1.path.inst1.smplBuffQ)) =
          TxPath.smplBuff ps (txIns ps sampleWidth c x) := by
        funext k
        rw [path_eq]
        rfl
      rw [hp, hin]
      rfl
    have hinst : (TxTop.machine (ps.flatMap Packet.words) sampleWidth).state
      (topIns ps sampleWidth c x) n = (burstAt ps sampleWidth c x n).inst1 := (inst1_eq ..).symm
    rw [Machine.log_succ, Machine.log_succ, List.flatMap_append, ih, ← hpart, hinst]
    congr 1
    unfold TxTop.unpacked validWord
    cases hv : (burstAt ps sampleWidth c x n).inst1.inst1.mux1DataOutValidReg with
    | false => rw [TxTop.inst1DataOutValid, hv]; rfl
    | true => rw [TxTop.inst1DataOutValid, hv]; exact (List.flatMap_singleton ..).symm

variable (ps sampleWidth c x) in
theorem madeAt_latency (hw : sampleWidth ≠ 1) (n : Nat) :
    madeAt ps sampleWidth c x (n + BitUnpack64.latency sampleWidth) =
      madeWords sampleWidth (sentAt ps sampleWidth c x n) := by
  rw [madeAt, log_unpacked, length_flatMap_halves, length_unpacker hw, TxPath.words_smplBuff]
  rfl

variable (ps sampleWidth c x) in
theorem madeAt_le (hw : sampleWidth ≠ 1) (n : Nat) : madeAt ps sampleWidth c x n ≤
    madeWords sampleWidth (sentAt ps sampleWidth c x n) := by
  rw [← madeAt_latency ps sampleWidth c x hw]
  exact madeAt_mono ps sampleWidth c x (Nat.le_add_right _ _)

variable (ps sampleWidth c x) in
/-- A burst has not read more than has been taken. -/
theorem burstReads_le (n : Nat) : Fifo2diq.burstReads c (diqIns ps sampleWidth c x) n ≤
    takenAt ps sampleWidth c x n := by
  induction n with
  | zero => exact Nat.le_refl 0
  | succ n ih =>
    rw [Fifo2diq.burstReads_succ, takenAt_succ, readsAt_eq]
    split
    · exact Nat.zero_le _
    · cases Fifo2diq.readAt c (diqIns ps sampleWidth c x) n
      · exact Nat.le_trans ih (Nat.le_add_right _ _)
      · exact Nat.add_le_add_right ih 1

end run

end BurstPath

/-! ### A packet that fills the sample FIFO -/

/-- A packet of 186 payload words. -/
def packet2976 : Packet := ⟨0xBA000, List.replicate 186 0, by decide, List.length_replicate⟩

/-- A packet of 248 payload words. -/
def packet3968 : Packet := ⟨0xF8000, List.replicate 248 0, by decide, List.length_replicate⟩

namespace BurstPath

/-- A packet with just enough samples for the almost-full bit. -/
def fillPacket (sampleWidth : BitVec 2) : Packet :=
  if BitUnpack64.mux1Sel sampleWidth then packet2976 else packet3968

theorem len_fillPacket (sampleWidth : BitVec 2) : (fillPacket sampleWidth).len =
    if BitUnpack64.mux1Sel sampleWidth then 186 else 248 := by
  unfold fillPacket
  split
  · exact List.length_replicate
  · exact List.length_replicate

theorem madeWords_fill (sampleWidth : BitVec 2) :
    madeWords sampleWidth (2 * (fillPacket sampleWidth).len) = 496 := by
  rw [len_fillPacket, madeWords]
  split <;> rfl

/-- With less than the whole packet the bit is not set. -/
theorem sent_of_made {sampleWidth : BitVec 2} {n : Nat} (h : 495 ≤ madeWords sampleWidth n) :
    2 * (fillPacket sampleWidth).len ≤ n := by
  rw [len_fillPacket]
  unfold madeWords at h
  split at h
  · rename_i hsel
    rw [if_pos hsel]
    omega
  · rename_i hsel
    rw [if_neg hsel]
    omega

section fill

variable {ps : List Packet} {sampleWidth : BitVec 2} {c : TxSettings} {x : Nat → BurstPathIn}

theorem unsync (hsync : ∀ n, (x n).pctSyncDis = true) :
    TxPath.Unsync ps (txIns ps sampleWidth c x) := fun n _ _ => .inl (hsync n)

theorem takenAt_quiet (hquiet : ∀ n, readsAt ps sampleWidth c x n = false) (n : Nat) :
    takenAt ps sampleWidth c x n = 0 := by
  induction n with
  | zero => rfl
  | succ n ih => rw [takenAt_succ, ih, hquiet]; rfl

/-- The packet sets the bit, if nothing is read before. -/
theorem level_reached (hw : sampleWidth ≠ 1) (hsync : ∀ n, (x n).pctSyncDis = true)
    (hgap : ∀ n, (x n).gap = false)
    (hquiet : ∀ n, readsAt [fillPacket sampleWidth] sampleWidth c x n = false) :
    ∃ n, 495 ≤ levelAt [fillPacket sampleWidth] sampleWidth c x n := by
  refine Classical.byContradiction fun hnone => ?_
  have hlow : ∀ n, levelAt [fillPacket sampleWidth] sampleWidth c x n < 495 := fun n =>
    Nat.lt_of_not_le fun hn => hnone ⟨n, hn⟩
  have hroom : ∀ n,
      (txIns [fillPacket sampleWidth] sampleWidth c x n).smplBuffAlmostFull = false := by
    intro n
    cases n with
    | zero => rfl
    | succ n =>
      refine Bool.eq_false_iff.2 fun hfull => ?_
      have hle := (fifoFullSig_succ n).1 hfull
      exact absurd (hlow n) (Nat.not_lt.2 hle)
  have hfair : TxPath.Fair (txIns [fillPacket sampleWidth] sampleWidth c x) :=
    ⟨fun n => ⟨n, Nat.le_refl n, hgap n⟩, fun n => ⟨n, Nat.le_refl n, hroom n, hroom (n + 1)⟩⟩
  obtain ⟨N, hN⟩ := TxPath.comes_through (unsync hsync) hfair
  have hsent : sentAt [fillPacket sampleWidth] sampleWidth c x N =
      2 * (fillPacket sampleWidth).len := by
    rw [sentAt, (hN N (Nat.le_refl N)).emitted, List.flatMap_singleton, Packet.length_payload64]
  have hmade := madeAt_latency [fillPacket sampleWidth] sampleWidth c x hw N
  rw [hsent, madeWords_fill] at hmade
  have hadd := taken_add_level [fillPacket sampleWidth] sampleWidth c x
    (N + BitUnpack64.latency sampleWidth)
  rw [takenAt_quiet hquiet, hmade] at hadd
  have := hlow (N + BitUnpack64.latency sampleWidth)
  omega

/-- From then on the slots are empty: all samples are in the FIFO or read. -/
structure Loaded (sampleWidth : BitVec 2) (c : TxSettings) (x : Nat → BurstPathIn) (n : Nat) :
    Prop where
  free : ∀ k, (TxPath.book [fillPacket sampleWidth]
    (txIns [fillPacket sampleWidth] sampleWidth c x) n).slot k = .free
  next : (TxPath.book [fillPacket sampleWidth]
    (txIns [fillPacket sampleWidth] sampleWidth c x) n).next = 1
  made : madeAt [fillPacket sampleWidth] sampleWidth c x n = 496

theorem loaded (hw : sampleWidth ≠ 1) {n : Nat}
    (h : 495 ≤ madeAt [fillPacket sampleWidth] sampleWidth c x n) : Loaded sampleWidth c x n := by
  have hle := madeAt_le [fillPacket sampleWidth] sampleWidth c x hw n
  have hsent := sent_of_made (Nat.le_trans h hle)
  have hmost : sentAt [fillPacket sampleWidth] sampleWidth c x n ≤ 2 * (fillPacket sampleWidth).len :=
    TxPath.sent_le n
  obtain ⟨hfree, hnext⟩ := TxPath.free_of_sent hsent
  refine ⟨hfree, hnext, ?_⟩
  have heven : madeAt [fillPacket sampleWidth] sampleWidth c x n % 2 = 0 := by
    rw [madeAt, log_unpacked, length_flatMap_halves, Nat.mul_mod_right]
  have h496 := Nat.le_trans hle (madeWords_mono sampleWidth hmost)
  rw [madeWords_fill] at h496
  omega

/-- What is buffered is what is in the FIFO. -/
theorem Loaded.buffered {n : Nat} (h : Loaded sampleWidth c x n) :
    (burstAt [fillPacket sampleWidth] sampleWidth c x n).buffered sampleWidth =
      levelAt [fillPacket sampleWidth] sampleWidth c x n := by
  have hunread : ∀ i,
      (burstAt [fillPacket sampleWidth] sampleWidth c x n).unread sampleWidth i = 0 := by
    intro i
    have hs := (TxPath.inv [fillPacket sampleWidth]
      (txIns [fillPacket sampleWidth] sampleWidth c x) n).slots i
    rw [h.free i] at hs
    cases hs with
    | free empty =>
      rw [← path_eq] at empty
      unfold unread
      rw [empty, List.length_nil]
      unfold sampleWords
      split
      · split <;> rfl
      · rfl
  rw [BurstPath.buffered, hunread, hunread]
  rfl

end fill

end BurstPath

/-! ### Bursts until a zero -/

namespace Fifo2diq

variable {w : Nat} {c : TxSettings} {x : Nat → BurstIn w}

/-- As long as no zeros are inserted, a burst goes on until its counter is at its end. -/
theorem burst_lasts (hsole : SoleReader c x) (hzero : ∀ n, (ctrlAt c x n).currentState = .rdSamples →
    (pulseAt c x n).txiq.currentState ≠ .zeroSamples) {t : Nat}
    (ht : (ctrlAt c x t).currentState = .txantEnableWait) (v : Nat) :
    v ≤ (c.syncSize - 1).toNat → ∃ n, t ≤ n ∧ RdAt c x v n := by
  induction v with
  | zero => exact fun _ => wait_leads t ht
  | succ v ih =>
    intro hv
    obtain ⟨n, hn, hrd⟩ := ih (by omega)
    obtain ⟨m, hm, hrd', hr⟩ := reads_or_zeros hsole v n hrd
    have hread := hr.resolve_right (hzero m hrd'.1)
    have hcnt := cnt_le m hrd'.1
    obtain ⟨k, rfl⟩ : ∃ k, m = k + 2 := ⟨m - 2, by have := two_le_of_rd hrd'.1; omega⟩
    refine ⟨k + 2 + 1, by omega, ?_, ?_⟩
    · rw [ctrl_next, TxiqCtrl.nextState, hrd'.1]
      refine if_neg fun hend => ?_
      have hle := hend.1
      rw [cntMax_eq] at hle
      rw [hrd'.2] at hcnt
      omega
    · rw [burstReads_succ, if_neg (by rw [hrd'.1]; decide), if_pos hread, hrd'.2]

end Fifo2diq

namespace BurstPath

section short

variable {sampleWidth : BitVec 2} {c : TxSettings}

theorem soleReader (ps : List Packet) (x : Nat → BurstPathIn) :
    Fifo2diq.SoleReader c (diqIns ps sampleWidth c x) := by
  intro t hempty
  have hlevel := levelAt_le ps sampleWidth c x t
  have h0 : levelAt ps sampleWidth c x (t + 1) = 0 :=
    List.length_eq_zero_iff.2 (List.isEmpty_iff.1 hempty)
  rw [h0, Nat.zero_add, readsAt_eq] at hlevel
  cases hr : Fifo2diq.readAt c (diqIns ps sampleWidth c x) t with
  | true => exact .inr rfl
  | false =>
    rw [hr] at hlevel
    exact .inl (List.isEmpty_iff.2 (List.length_eq_zero_iff.1 (Nat.le_zero.1 hlevel)))

/-- A trigger in every clock, and words without gaps. -/
def eager : Nat → BurstPathIn := fun _ => ⟨false, true, 0, true⟩

/-- The signal rises some time when no packets are waited for. -/
theorem rises (hw : sampleWidth ≠ 1) (hneeded : needed sampleWidth c = 0) :
    ∃ n, rdyAt [fillPacket sampleWidth] sampleWidth c eager n = true := by
  refine Classical.byContradiction fun hnone => ?_
  have hnever : ∀ n, rdyAt [fillPacket sampleWidth] sampleWidth c eager n = false := fun n =>
    Bool.eq_false_iff.2 fun h => hnone ⟨n, h⟩
  have hquiet : ∀ n, readsAt [fillPacket sampleWidth] sampleWidth c eager n = false := fun n =>
    no_read (by rw [ctrl_idle fun k _ => by rw [hnever k]; rfl]; nofun)
  obtain ⟨n, hn⟩ := level_reached hw (fun _ => rfl) (fun _ => rfl) hquiet
  refine hnone ⟨n + 2, (rdyAt_succ _).2 ⟨(fifoFullSig_succ n).2 hn, ?_⟩⟩
  rw [hneeded]
  exact Nat.zero_le _

/-- The burst that is triggered then. -/
theorem first_burst {n : Nat} (h : rdyAt [fillPacket sampleWidth] sampleWidth c eager n = true) :
    ∃ t m, 495 ≤ levelAt [fillPacket sampleWidth] sampleWidth c eager m ∧ m < t ∧
      (Fifo2diq.ctrlAt c (diqIns [fillPacket sampleWidth] sampleWidth c eager) t).currentState =
        .txantEnableWait := by
  obtain ⟨d, -, hrdy, hfirst⟩ := first_reached
    (p := fun n => rdyAt [fillPacket sampleWidth] sampleWidth c eager n = true) h
  obtain ⟨m, rfl, hlevel⟩ := full_of_rdyAt hrdy
  have hidle : (Fifo2diq.ctrlAt c (diqIns [fillPacket sampleWidth] sampleWidth c eager)
      (m + 2)).currentState = .idle :=
    ctrl_idle fun k hk => by rw [Bool.eq_false_iff.2 (hfirst k hk)]; rfl
  refine ⟨m + 3, m, hlevel, by omega, ?_⟩
  have hb : (diqIns [fillPacket sampleWidth] sampleWidth c eager (m + 2)).pctBuffRdy = true := hrdy
  rw [Fifo2diq.ctrl_next, TxiqCtrl.nextState, hidle, hb]
  rfl

/-- The almost-full bit stands for 494 words and not for more. -/
theorem not_readyRight_alone (hw : sampleWidth ≠ 1) (hneeded : needed sampleWidth c = 0)
    (hshort : c.words = 0 ∨ 494 < c.words) :
    ¬ ReadyRight [fillPacket sampleWidth] sampleWidth c eager := by
  intro h
  obtain ⟨n, hn⟩ := rises (c := c) hw hneeded
  obtain ⟨t, m, hlevel, hmt, hwait⟩ := first_burst hn
  have hmade : ∀ k, m ≤ k → Loaded sampleWidth c eager k := by
    intro k hk
    have hadd := taken_add_level [fillPacket sampleWidth] sampleWidth c eager m
    have hmono := madeAt_mono [fillPacket sampleWidth] sampleWidth c eager hk
    exact loaded hw (by omega)
  have htotal : ∀ k, m ≤ k → takenAt [fillPacket sampleWidth] sampleWidth c eager k +
      levelAt [fillPacket sampleWidth] sampleWidth c eager k = 496 := fun k hk =>
    (taken_add_level _ _ _ _ k).trans (hmade k hk).made
  have hlasts := Fifo2diq.burst_lasts (soleReader [fillPacket sampleWidth] eager) (fun k hk => by
    rw [← inst2_eq]
    exact h.noZeros k (by rw [inst2_eq]; exact hk)) hwait
  have hsize := c.syncSize_toNat
  rcases hshort with h0 | hlong
  · -- a burst of no words would go on for all words there are and more
    obtain ⟨k, hk, hrd⟩ := hlasts 497 (by bv_omega)
    have hreads := burstReads_le [fillPacket sampleWidth] sampleWidth c eager k
    have := htotal k (by omega)
    rw [hrd.2] at hreads
    omega
  · -- two words on, the signal is still high for what the FIFO held before
    have hlt := c.words_lt
    obtain ⟨e, he, hrd⟩ := hlasts 2 (by bv_omega)
    have hreads := burstReads_le [fillPacket sampleWidth] sampleWidth c eager e
    have hend := htotal e (by omega)
    rw [hrd.2] at hreads
    obtain ⟨k, hmk, -, hk, hk'⟩ := falls_between
      (f := fun k => decide (495 ≤ levelAt [fillPacket sampleWidth] sampleWidth c eager k))
      (b := m) (e := e) (by omega) (decide_eq_true hlevel) (decide_eq_false (by omega))
    have hrdy : rdyAt [fillPacket sampleWidth] sampleWidth c eager (k + 2) = true := by
      refine (rdyAt_succ _).2 ⟨(fifoFullSig_succ k).2 (of_decide_eq_true hk), ?_⟩
      rw [hneeded]
      exact Nat.zero_le _
    have henough := h.enough (k + 2) hrdy
    rw [(hmade (k + 2) (by omega)).buffered] at henough
    have hlow := of_decide_eq_false hk'
    have h1 := htotal (k + 1) (by omega)
    have h2 := htotal (k + 2) (by omega)
    have htaken : takenAt [fillPacket sampleWidth] sampleWidth c eager (k + 1) ≤
        takenAt [fillPacket sampleWidth] sampleWidth c eager (k + 2) := by
      rw [takenAt_succ (k + 1)]
      exact Nat.le_add_right _ _
    omega

end short

end BurstPath

/-! ### A host that holds packets back -/

namespace BurstPath

def withMore (ws : List Word128) (s : BurstPath) : BurstPath :=
  { s with inst1 := { s.inst1 with path := s.inst1.path.withMore ws } }

theorem step_withMore (sampleWidth : BitVec 2) (c : TxSettings) (ws : List Word128) (s : BurstPath)
    {i i' : BurstPathIn} (hgap : i.gap = false)
    (hi' : i' = { i with gap := s.inst1.path.infifo.isEmpty }) :
    (s.withMore ws).step sampleWidth c i' = (s.step sampleWidth c i).withMore ws := by
  subst hi'
  have hpath := TxPath.step_withMore ws s.inst1.path (i := s.inst1.txIn (s.topIn i)) hgap rfl
  show BurstPath.mk { TxTop.step sampleWidth s.inst1 (s.topIn i) with path := _ } _ _ =
    BurstPath.mk { TxTop.step sampleWidth s.inst1 (s.topIn i) with path := _ } _ _
  exact congrArg (fun q => BurstPath.mk
    { TxTop.step sampleWidth s.inst1 (s.topIn i) with path := q } _ _) hpath

/-- Words without gaps and no trigger. -/
def calm : Nat → BurstPathIn := fun _ => ⟨false, true, 0, false⟩

/-- The host sends one packet at first and the rest from clock `N` on. -/
def holdBack (p : Packet) (sampleWidth : BitVec 2) (c : TxSettings) (N : Nat) : Nat → BurstPathIn :=
  fun n => ⟨decide (n < N) && (burstAt [p] sampleWidth c calm n).inst1.path.infifo.isEmpty, true, 0,
    false⟩

section hold

variable {p : Packet} {rest : List Packet} {sampleWidth : BitVec 2} {c : TxSettings} {N : Nat}

/-- Until then the run is that of the first packet alone. -/
theorem burstAt_holdBack {n : Nat} (hn : n ≤ N) :
    burstAt (p :: rest) sampleWidth c (holdBack p sampleWidth c N) n =
      (burstAt [p] sampleWidth c calm n).withMore (rest.flatMap Packet.words) := by
  induction n with
  | zero =>
    show BurstPath.init ((p :: rest).flatMap Packet.words) =
      (BurstPath.init ([p].flatMap Packet.words)).withMore _
    rw [List.flatMap_cons, List.flatMap_singleton]
    rfl
  | succ n ih =>
    have hstep : burstAt (p :: rest) sampleWidth c (holdBack p sampleWidth c N) (n + 1) =
      (burstAt (p :: rest) sampleWidth c (holdBack p sampleWidth c N) n).step sampleWidth c
        (holdBack p sampleWidth c N n) := rfl
    rw [hstep, ih (by omega)]
    refine step_withMore sampleWidth c _ _ (i := calm n) rfl ?_
    rw [holdBack, decide_eq_true (by omega : n < N)]
    rfl

theorem book_holdBack {n : Nat} (hn : n ≤ N) :
    TxPath.book (p :: rest) (txIns (p :: rest) sampleWidth c (holdBack p sampleWidth c N)) n =
      TxPath.book [p] (txIns [p] sampleWidth c calm) n := by
  induction n with
  | zero => rfl
  | succ n ih =>
    rw [TxPath.book_succ, TxPath.book_succ, ih (by omega), ← path_eq, ← path_eq,
      burstAt_holdBack (by omega)]
    have hin : txIns (p :: rest) sampleWidth c (holdBack p sampleWidth c N) n =
        { txIns [p] sampleWidth c calm n with
          gap := (holdBack p sampleWidth c N n).gap } := by
      rw [txIns, topIns, burstAt_holdBack (by omega)]
      rfl
    rw [hin]
    rfl

end hold

/-! ### Small packets in the slots -/

section waiting

variable {ps : List Packet} {sampleWidth : BitVec 2} {c : TxSettings} {x : Nat → BurstPathIn} {N : Nat}

theorem quiet_of_no_pulse (hpulse : ∀ n, (x n).pctSyncPulse = false) (n : Nat) :
    readsAt ps sampleWidth c x n = false :=
  no_read (by rw [ctrl_idle fun k _ => by rw [hpulse k, Bool.and_false]]; nofun)

variable (ps sampleWidth c x) in
/-- Without reads the FIFO stays as full as it is. -/
theorem levelAt_mono (hquiet : ∀ n, readsAt ps sampleWidth c x n = false) {n m : Nat} (h : n ≤ m) :
    levelAt ps sampleWidth c x n ≤ levelAt ps sampleWidth c x m := by
  induction h with
  | refl => exact Nat.le_refl _
  | @step m _ ih =>
    have hlevel := levelAt_le ps sampleWidth c x m
    rw [hquiet, Bool.toNat_false] at hlevel
    exact Nat.le_trans ih hlevel

/-- The packets held back find the FIFO full and the slots empty. -/
theorem stopped_holdBack (hw : sampleWidth ≠ 1) (rest : List Packet)
    (hN : 495 ≤ levelAt [fillPacket sampleWidth] sampleWidth c calm N) :
    TxPath.Stopped (fillPacket sampleWidth :: rest) (txIns (fillPacket sampleWidth :: rest)
        sampleWidth c (holdBack (fillPacket sampleWidth) sampleWidth c N)) N ∧
      (TxPath.book (fillPacket sampleWidth :: rest) (txIns (fillPacket sampleWidth :: rest)
        sampleWidth c (holdBack (fillPacket sampleWidth) sampleWidth c N)) N).next = 1 := by
  have hadd := taken_add_level [fillPacket sampleWidth] sampleWidth c calm N
  have hloaded := loaded (c := c) (x := calm) (n := N) hw (by omega)
  have hlevel : levelAt (fillPacket sampleWidth :: rest) sampleWidth c
      (holdBack (fillPacket sampleWidth) sampleWidth c N) N =
      levelAt [fillPacket sampleWidth] sampleWidth c calm N := by
    rw [levelAt, burstAt_holdBack (Nat.le_refl N)]
    rfl
  refine ⟨⟨fun _ => rfl, fun n hn => ?_, fun n hn => ?_, fun k => ?_⟩, ?_⟩
  · show (decide (n < N) && _) = false
    rw [decide_eq_false (Nat.not_lt.2 hn), Bool.false_and]
  · obtain ⟨m, rfl⟩ : ∃ m, n = m + 1 := ⟨n - 1, by omega⟩
    have hle := levelAt_mono (fillPacket sampleWidth :: rest) sampleWidth c _
      (quiet_of_no_pulse (x := holdBack (fillPacket sampleWidth) sampleWidth c N) fun _ => rfl)
      (Nat.le_of_lt_succ hn)
    exact (fifoFullSig_succ m).2 (by omega)
  · rw [book_holdBack (Nat.le_refl N)]
    exact hloaded.free k
  · rw [book_holdBack (Nat.le_refl N)]
    exact hloaded.next

/-- Two packets of 32 bytes behind the one that fills the FIFO. -/
def smallStream (sampleWidth : BitVec 2) : List Packet :=
  [fillPacket sampleWidth, TxPath.packet32, TxPath.packet32]

theorem total_smallStream (sampleWidth : BitVec 2) :
    TxPath.total (smallStream sampleWidth) (smallStream sampleWidth).length =
      2 * (fillPacket sampleWidth).len + 8 := by
  rw [TxPath.total, TxPath.flatMap_payloadAt, smallStream, List.flatMap_cons, List.length_append,
    Packet.length_payload64]
  rfl

/-- All is there, and it is not much: 506 words of the FIFO. -/
theorem buffered_le (hw : sampleWidth ≠ 1)
    (hquiet : ∀ n, readsAt (smallStream sampleWidth) sampleWidth c x n = false) {n : Nat}
    (hsum : sentAt (smallStream sampleWidth) sampleWidth c x n +
      ((burstAt (smallStream sampleWidth) sampleWidth c x n).inst1.path.inst1.slotVisible 0).length +
      ((burstAt (smallStream sampleWidth) sampleWidth c x n).inst1.path.inst1.slotVisible 1).length ≤
        2 * (fillPacket sampleWidth).len + 8) :
    (burstAt (smallStream sampleWidth) sampleWidth c x n).buffered sampleWidth ≤ 506 := by
  have hmade := madeAt_le (smallStream sampleWidth) sampleWidth c x hw n
  rw [← taken_add_level, takenAt_quiet hquiet, Nat.zero_add] at hmade
  have hunread : ∀ i, (burstAt (smallStream sampleWidth) sampleWidth c x n).unread sampleWidth i ≤
      sampleWords sampleWidth ((burstAt (smallStream sampleWidth) sampleWidth c x
        n).inst1.path.inst1.slotVisible i).length := by
    intro i
    unfold unread
    split
    · exact Nat.le_refl _
    · exact Nat.zero_le _
  have h0 := hunread 0
  have h1 := hunread 1
  rw [len_fillPacket] at hsum
  unfold buffered
  unfold sampleWords at h0 h1
  unfold madeWords at hmade
  split at hmade
  · rename_i hsel
    rw [if_pos hsel] at hsum h0 h1
    show levelAt (smallStream sampleWidth) sampleWidth c x n + _ ≤ 506
    omega
  · rename_i hsel
    rw [if_neg hsel] at hsum h0 h1
    show levelAt (smallStream sampleWidth) sampleWidth c x n + _ ≤ 506
    omega

/-- With small packets in the slots everything looks full. -/
theorem looks_full (hw : sampleWidth ≠ 1) : ∃ x M, ∀ n, M ≤ n →
    (burstAt (smallStream sampleWidth) sampleWidth c x n).inst1.fifoFullSig = true ∧
    (∀ k, (burstAt (smallStream sampleWidth) sampleWidth c x n).inst1.path.inst1.pctBuffRdyInt k =
      true) ∧
    (burstAt (smallStream sampleWidth) sampleWidth c x n).buffered sampleWidth ≤ 506 := by
  have hcalm : ∀ n, readsAt [fillPacket sampleWidth] sampleWidth c calm n = false :=
    quiet_of_no_pulse fun _ => rfl
  obtain ⟨N, hN⟩ := level_reached (c := c) hw (fun _ => rfl) (fun _ => rfl) hcalm
  have hstop := stopped_holdBack (c := c) hw [TxPath.packet32, TxPath.packet32] hN
  generalize hx : holdBack (fillPacket sampleWidth) sampleWidth c N = x at hstop
  obtain ⟨S, hnext⟩ : TxPath.Stopped (smallStream sampleWidth)
      (txIns (smallStream sampleWidth) sampleWidth c x) N ∧ (TxPath.book (smallStream sampleWidth)
        (txIns (smallStream sampleWidth) sampleWidth c x) N).next = 1 := hstop
  have hquiet : ∀ n, readsAt (smallStream sampleWidth) sampleWidth c x n = false :=
    quiet_of_no_pulse fun _ => by rw [← hx]; rfl
  obtain ⟨M, hM, hback⟩ := S.stay (by rw [hnext]; rfl)
  refine ⟨x, M + 1, fun n hn => ?_⟩
  obtain ⟨m, rfl⟩ : ∃ m, n = m + 1 := ⟨n - 1, by omega⟩
  refine ⟨S.full (m + 1) (by omega), fun k => ?_, buffered_le hw hquiet ?_⟩
  · rw [path_eq]
    exact S.ready_of_back (by omega) (hback m (by omega) k)
  · have hsum := TxPath.sent_add_slots S.unsync (hback (m + 1) (by omega))
    rw [path_eq]
    exact Nat.le_trans hsum (Nat.le_of_eq (total_smallStream sampleWidth))

theorem not_readyRight_waiting (hw : sampleWidth ≠ 1)
    (h : c.pctSyncSize.toNat = 0 ∨ needed sampleWidth c ≤ 2 ∧ 506 < c.words) :
    ∃ x, ¬ ReadyRight (smallStream sampleWidth) sampleWidth c x := by
  obtain ⟨x, M, hM⟩ := looks_full (c := c) hw
  refine ⟨x, fun hright => ?_⟩
  have hcount : ∀ n, M ≤ n → (burstAt (smallStream sampleWidth) sampleWidth c x
      (n + 1)).pctSync.pctSyncNumOfRdyPackets = 2 := by
    intro n hn
    have hrdy := (hM n hn).2.1
    show countOnes (burstAt (smallStream sampleWidth) sampleWidth c x
      n).inst1.path.inst1.pctBuffRdyInt = 2
    rw [countOnes, hrdy, hrdy]
    rfl
  rcases h with hzero | ⟨hneeded, hlong⟩
  · -- no burst at all: the tables say three packets
    have hwords := c.size_of_words
    obtain ⟨m, hm, hrdy⟩ := hright.ready (by omega) M ⟨(hM M (Nat.le_refl M)).1, fun i => by
      rw [inUse, (hM M (Nat.le_refl M)).2.1 i, Bool.true_or]⟩
    obtain ⟨k, rfl⟩ : ∃ k, m = k + 1 := by
      cases m with
      | zero => cases hrdy
      | succ k => exact ⟨k, rfl⟩
    have hle := ((rdyAt_succ k).1 hrdy).2
    have hmost := numOfRdyPackets_le (smallStream sampleWidth) sampleWidth c x k
    have hthree : needed sampleWidth c = 3 := needed_eq_three (.inl hzero)
    omega
  · have hrdy : rdyAt (smallStream sampleWidth) sampleWidth c x (M + 2) = true :=
      (rdyAt_succ _).2 ⟨(hM (M + 1) (Nat.le_succ M)).1, by
        rw [hcount M (Nat.le_refl M)]
        exact hneeded⟩
    have henough := hright.enough (M + 2) hrdy
    have hfew := (hM (M + 2) (by omega)).2.2
    omega

end waiting

end BurstPath

/-- The signal for a burst is right, whatever the packets and the triggers are, exactly if it never
    rises or the burst has from 1 to 494 words. -/
theorem burst_ready_iff (sampleWidth : BitVec 2) (c : TxSettings) :
    (∀ ps x, BurstPath.ReadyRight ps sampleWidth c x) ↔ ReadySafe sampleWidth c := by
  refine ⟨fun h => Decidable.byContradiction fun hunsafe => ?_, fun h _ _ => BurstPath.readyRight h⟩
  unfold ReadySafe at hunsafe
  have hw : sampleWidth ≠ 1 := fun hw => hunsafe (.inl hw)
  have hsize := c.size_of_words
  have hfull := le_fullSamples sampleWidth
  by_cases hzero : c.pctSyncSize.toNat = 0
  · obtain ⟨x, hx⟩ := BurstPath.not_readyRight_waiting hw (.inl hzero)
    exact hx (h _ x)
  · by_cases hone : c.pctSyncSize.toNat ≤ fullSamples sampleWidth
    · have hneeded : needed sampleWidth c = 0 := needed_eq_zero (by omega) hone
      exact BurstPath.not_readyRight_alone hw hneeded (by omega) (h _ _)
    · have hneeded : needed sampleWidth c ≤ 2 := by
        rw [needed, numOfPackets, if_neg (by omega)]
        split
        · decide
        · exact Nat.le_of_eq (if_pos (by omega))
      obtain ⟨x, hx⟩ := BurstPath.not_readyRight_waiting hw (.inr ⟨hneeded, by omega⟩)
      exact hx (h _ x)

/-- 16-bit samples of both channels: one packet of 3968 bytes makes the signal rise for a burst of
    1000 words. -/
theorem burst_not_ready_1000 : ¬ ∀ (sampleWidth : BitVec 2) (c : TxSettings) ps x,
    BurstPath.ReadyRight ps sampleWidth c x := fun h =>
  BurstPath.not_readyRight_alone (by decide) (by decide) (by decide)
    (h 0 ⟨⟨false, true, true, 3, false⟩, 1000, 1, 1⟩ _ _)

end Tx
