import LimeSdrGw.Clocked.Registers
import LimeSdrGw.Rx.WidthCodes
/-
# RX timestamps

`smpl_cnt` counts the words read from the sample FIFO; its value goes through a multiplexer register and
six more registers into the second header word. The header is taken a few clocks into a cycle, so what it
shows is the count at a clock in which nothing of the cycle has been counted yet.

| here | there |
| --- | --- |
| `lpmCnt`              | lpm_cnt_inst.vhd, `lpm_counter`: clear before load before count |
| `SmplCnt`, `.step`    | smpl_cnt.vhd:56-105 |
| `RxTimed`, `.step`    | rx_path_top.vhd:217-345 |
| `samplesPerWord`      | what `cnt_mux` makes of the count |
| `sinceClear`          | the clock behind the last `clr_smpl_nr` |
-/
namespace Rx

open Clocked Tx

/-- An up-counter; `data` is loaded, not counted, with `sload`. -/
def lpmCnt (q : Word64) (sclr sload : Bool) (data : Word64) (cntEn : Bool) : Word64 :=
  if sclr then 0 else if sload then data else if cntEn then q + 1 else q

structure SmplCnt where
  shiftCntOut : Bool
  inst0Q : Word64
  cntMux : Word64
deriving Repr, DecidableEq

/-- The channel settings. -/
structure ChSetting where
  mimoEn : Bool
  chEn : BitVec 2
deriving Repr, DecidableEq

namespace ChSetting

/-- `one_ch`. -/
def oneCh (ch : ChSetting) : Bool := ch.chEn.getLsbD 1 ^^ ch.chEn.getLsbD 0

/-- The count is of samples of one channel. -/
def shifts (ch : ChSetting) : Bool := (ch.mimoEn && ch.oneCh) || !ch.mimoEn

def samplesPerWord (ch : ChSetting) : Nat := if ch.mimoEn = false ∨ ch.oneCh then 2 else 1

end ChSetting

namespace SmplCnt

def init : SmplCnt := ⟨false, 0, 0⟩

def step (ch : ChSetting) (s : SmplCnt) (sclr sload : Bool) (data : Word64) (cntEn : Bool) :
    SmplCnt where
  shiftCntOut := ch.shifts
  inst0Q := lpmCnt s.inst0Q sclr sload data cntEn
  cntMux := if s.shiftCntOut then s.inst0Q.extractLsb' 0 63 ++ 0#1 else s.inst0Q

def q (s : SmplCnt) : Word64 := s.cntMux

end SmplCnt

structure TimedIn where
  pctHdr0 : Word64
  smplWrreq : Bool
  smplData : Word64
  pctBuffWrusedw : Nat
  clrSmplNrSync : Bool
  ldSmplNrSync : Bool
  smplNrInSync : Word64
deriving Repr, DecidableEq

structure RxTimed where
  former : RxFormer
  inst3 : SmplCnt
  delayChain : DelayLine 6 Word64

namespace RxTimed

def init : RxTimed := ⟨.init, .init, .fill 0⟩

def inst2PctHdr1 (s : RxTimed) : Word64 := s.delayChain ⟨5, by decide⟩

def formIn (s : RxTimed) (i : TimedIn) : FormIn where
  pctHdr0 := i.pctHdr0
  pctHdr1 := s.inst2PctHdr1
  smplWrreq := i.smplWrreq
  smplData := i.smplData
  pctBuffWrusedw := i.pctBuffWrusedw

def step (sampleWidth : BitVec 2) (ch : ChSetting) (s : RxTimed) (i : TimedIn) : RxTimed where
  former := s.former.step sampleWidth (s.formIn i)
  inst3 := s.inst3.step ch i.clrSmplNrSync i.ldSmplNrSync i.smplNrInSync s.former.core.smplBuffRdreq
  delayChain := s.delayChain.shift s.inst3.q

def machine (sampleWidth : BitVec 2) (ch : ChSetting) : Machine RxTimed TimedIn :=
  ⟨init, step sampleWidth ch⟩

end RxTimed

section run

variable (sampleWidth : BitVec 2) (ch : ChSetting) (x : Nat → TimedIn)

/-- The state in clock `n`. -/
abbrev timedAt (n : Nat) : RxTimed := (RxTimed.machine sampleWidth ch).state x n

/-- What the packet former sees, the timestamp among it. -/
def timedFormIn (n : Nat) : FormIn := (timedAt sampleWidth ch x n).formIn (x n)

/-- Words read before clock `n`. -/
def readBefore (n : Nat) : Nat :=
  ((RxFormer.machine sampleWidth).log RxFormer.consumed (timedFormIn sampleWidth ch x) n).length

/-- The first clock behind the last clear before clock `n`. -/
def sinceClear (x : Nat → TimedIn) : Nat → Nat
  | 0 => 0
  | n + 1 => if (x n).clrSmplNrSync then n + 1 else sinceClear x n

variable {wd : WidthSetting} {ch : ChSetting} {x : Nat → TimedIn}

theorem timedFormer_eq {sampleWidth : BitVec 2} (n : Nat) : (timedAt sampleWidth ch x n).former =
    formerAt sampleWidth (timedFormIn sampleWidth ch x) n :=
  Machine.state_part (RxTimed.machine sampleWidth ch) RxTimed.former (RxFormer.step sampleWidth)
    RxTimed.formIn (fun _ _ => rfl) x n

theorem readBefore_succ (n : Nat) : readBefore wd ch x (n + 1) =
    readBefore wd ch x n + (timedAt wd ch x n).former.core.smplBuffRdreq.toNat := by
  rw [readBefore, Machine.log_succ, List.length_append, ← readBefore, timedFormer_eq,
    RxFormer.consumed]
  congr 1
  cases hrd : (formerAt wd (timedFormIn wd ch x) n).core.smplBuffRdreq with
  | false => rfl
  | true =>
    obtain ⟨w, l, hl⟩ := List.exists_cons_of_ne_nil (ne_nil_of_read hrd)
    rw [if_pos rfl, hl]
    rfl

theorem sinceClear_le (n : Nat) : sinceClear x n ≤ n := by
  induction n with
  | zero => exact Nat.le_refl 0
  | succ n ih =>
    rw [sinceClear]
    split
    · exact Nat.le_refl _
    · exact Nat.le_succ_of_le ih

theorem readBefore_mono {n m : Nat} (h : n ≤ m) : readBefore wd ch x n ≤ readBefore wd ch x m := by
  induction m with
  | zero =>
    obtain rfl := Nat.le_zero.1 h
    exact Nat.le_refl _
  | succ m ih =>
    obtain rfl | hle : n = m + 1 ∨ n ≤ m := by omega
    · exact Nat.le_refl _
    · rw [readBefore_succ]
      exact Nat.le_trans (ih hle) (Nat.le_add_right _ _)

variable (wd ch) in
/-- `smpl_cnt` counts the words read since the last clear. -/
theorem inst0Q_eq (hld : ∀ n, (x n).ldSmplNrSync = false) (n : Nat) :
    (timedAt wd ch x n).inst3.inst0Q =
      BitVec.ofNat 64 (readBefore wd ch x n - readBefore wd ch x (sinceClear x n)) := by
  induction n with
  | zero => rfl
  | succ n ih =>
    show lpmCnt (timedAt wd ch x n).inst3.inst0Q _ _ _ _ = _
    rw [lpmCnt, hld n, sinceClear]
    cases hclr : (x n).clrSmplNrSync with
    | true =>
      rw [if_pos rfl, if_pos rfl, Nat.sub_self]
      rfl
    | false =>
      have hmono : readBefore wd ch x (sinceClear x n) ≤ readBefore wd ch x n :=
        readBefore_mono (sinceClear_le n)
      rw [if_neg Bool.false_ne_true, if_neg Bool.false_ne_true, if_neg Bool.false_ne_true,
        readBefore_succ, ih]
      cases (timedAt wd ch x n).former.core.smplBuffRdreq with
      | false => rfl
      | true =>
        rw [if_pos rfl, Bool.toNat_true, Nat.sub_add_comm hmono, BitVec.ofNat_add]
        rfl

theorem shifted_eq (a : Word64) : a.extractLsb' 0 63 ++ 0#1 = BitVec.ofNat 64 (2 * a.toNat) := by
  apply BitVec.eq_of_toNat_eq
  rw [BitVec.toNat_append, BitVec.extractLsb'_toNat, BitVec.toNat_ofNat, Nat.shiftRight_zero,
    BitVec.toNat_ofNat, Nat.zero_mod, Nat.or_zero, Nat.shiftLeft_eq]
  omega

/-- The multiplexer register shows samples, one clock later. -/
theorem cntMux_eq (hld : ∀ n, (x n).ldSmplNrSync = false) (n : Nat) :
    (timedAt wd ch x (n + 1)).inst3.cntMux = BitVec.ofNat 64 (ch.samplesPerWord *
      (readBefore wd ch x n - readBefore wd ch x (sinceClear x n))) := by
  have hq := inst0Q_eq wd ch hld n
  show (if (timedAt wd ch x n).inst3.shiftCntOut then
    (timedAt wd ch x n).inst3.inst0Q.extractLsb' 0 63 ++ 0#1
    else (timedAt wd ch x n).inst3.inst0Q) = _
  cases n with
  | zero => rfl
  | succ n =>
    have hshift : (timedAt wd ch x (n + 1)).inst3.shiftCntOut = ch.shifts := rfl
    have hper : ch.samplesPerWord = if ch.shifts then 2 else 1 := by
      rw [ChSetting.samplesPerWord, ChSetting.shifts]
      cases ch.mimoEn <;> cases ch.oneCh <;> rfl
    rw [hshift, hper, hq]
    cases ch.shifts with
    | false => rw [if_neg Bool.false_ne_true, if_neg Bool.false_ne_true, Nat.one_mul]
    | true =>
      rw [if_pos rfl, if_pos rfl, shifted_eq, BitVec.toNat_ofNat]
      apply BitVec.eq_of_toNat_eq
      rw [BitVec.toNat_ofNat, BitVec.toNat_ofNat]
      omega

variable (wd ch x) in
/-- What the delay chain shows entered it as many clocks earlier. -/
theorem delayChain_eq (n k : Nat) (hk : k < 6) :
    (timedAt wd ch x (n + k + 1)).delayChain ⟨k, hk⟩ = (timedAt wd ch x n).inst3.q := by
  induction k with
  | zero =>
    show ((timedAt wd ch x n).delayChain.shift (timedAt wd ch x n).inst3.q) ⟨0, hk⟩ = _
    exact DelayLine.shift_zero _ _ _ rfl
  | succ k ih =>
    show ((timedAt wd ch x (n + k + 1)).delayChain.shift
      (timedAt wd ch x (n + k + 1)).inst3.q) ⟨k + 1, hk⟩ = _
    rw [DelayLine.shift_succ]
    exact ih (by omega)

/-- The second header word, seven clocks behind the count. -/
theorem pctHdr1_eq (hld : ∀ n, (x n).ldSmplNrSync = false) (n : Nat) :
    (timedFormIn wd ch x (n + 7)).pctHdr1 = BitVec.ofNat 64 (ch.samplesPerWord *
      (readBefore wd ch x n - readBefore wd ch x (sinceClear x n))) := by
  have hchain := delayChain_eq wd ch x (n + 1) 5 (by decide)
  rw [show n + 1 + 5 + 1 = n + 7 from rfl, SmplCnt.q, cntMux_eq hld n] at hchain
  rw [timedFormIn, RxTimed.formIn, RxTimed.inst2PctHdr1, hchain]

/-! ## The count at the right clock -/

/-- Behind the last read of a cycle the next one does not begin for a while. -/
theorem read_before_check {y : Nat → FormIn} {t m : Nat} (ht : Starts wd (formerAt wd y t))
    (hm : m ≤ t) (hrd : (formerAt wd y m).core.smplBuffRdreq = true) :
    m + (cycle wd - smplRdSize wd.code) < t := by
  obtain ⟨u, a, rfl, h1, h2, hst⟩ := cycle_of_read hrd
  have hcyc : smplRdSize wd.code + 2 ≤ cycle wd := by cases wd <;> decide
  apply Decidable.of_not_not
  intro hlt
  obtain ⟨b, rfl⟩ : ∃ b, t = u + b := ⟨t - u, by omega⟩
  have hat := onTime (y := fun k => y (u + k)) hst (a := b) (by omega) b (Nat.le_refl b)
  rw [← formerAt_add] at hat
  obtain hle | hgt | heq : b ≤ smplRdSize wd.code ∨ (smplRdSize wd.code < b ∧ b < cycle wd) ∨
    cycle wd ≤ b := by omega
  · exact absurd ((hat.rd (by omega) hle).symm.trans ht.fsm) nofun
  · exact absurd ((hat.wait hgt.1 hgt.2).symm.trans ht.fsm) nofun
  · exact absurd ((hat.rest heq).symm.trans ht.fsm) nofun

theorem readBefore_gap {n m : Nat} (hnm : n ≤ m) (h : ∀ k, n ≤ k → k < m →
    (timedAt wd ch x k).former.core.smplBuffRdreq = false) :
    readBefore wd ch x m = readBefore wd ch x n := by
  induction m with
  | zero =>
    obtain rfl := Nat.le_zero.1 hnm
    rfl
  | succ m ih =>
    obtain rfl | hle : n = m + 1 ∨ n ≤ m := by omega
    · rfl
    · rw [readBefore_succ, h m hle (Nat.lt_succ_self m), ih hle fun k h1 h2 => h k h1 (by omega)]
      rfl

theorem sinceClear_gap {n m : Nat} (hnm : n ≤ m)
    (h : ∀ k, n ≤ k → k < m → (x k).clrSmplNrSync = false) : sinceClear x m = sinceClear x n := by
  induction m with
  | zero =>
    obtain rfl := Nat.le_zero.1 hnm
    rfl
  | succ m ih =>
    obtain rfl | hle : n = m + 1 ∨ n ≤ m := by omega
    · rfl
    · rw [sinceClear, h m hle (Nat.lt_succ_self m), ih hle fun k h1 h2 => h k h1 (by omega)]
      rfl

/-- A cycle needs as many clocks before it as it needs words. -/
theorem late_of_starts {y : Nat → FormIn} {t : Nat} (ht : Starts wd (formerAt wd y t)) :
    smplRdSize wd.code ≤ t := by
  have hlevel : ∀ n, (formerAt wd y n).smplBuff.items.length ≤ n := by
    intro n
    induction n with
    | zero => exact Nat.le_refl 0
    | succ n ih =>
      have hstep := length_succ wd y n
      have hbit := Bool.toNat_le (y n).smplWrreq
      omega
  exact Nat.le_trans ht.enough (hlevel t)

/-- The header of the cycle begun in clock `t` counts the words read before its own first one, if no
    clear comes too late for the registers. -/
theorem timestamp_at (hld : ∀ n, (x n).ldSmplNrSync = false) (hwd : wd ≠ .w14) {t : Nat}
    (ht : Starts wd (timedAt wd ch x t).former)
    (hclr : ∀ c, c ≤ t → t + hdrAge wd ≤ c + 7 → (x c).clrSmplNrSync = false) :
    (timedFormIn wd ch x (t + hdrAge wd)).pctHdr1 = BitVec.ofNat 64 (ch.samplesPerWord *
      (readBefore wd ch x (t + 1) - readBefore wd ch x (sinceClear x (t + 1)))) := by
  rw [timedFormer_eq] at ht
  have hsize : hdrAge wd ≤ 7 ∧ 7 ≤ hdrAge wd + (cycle wd - smplRdSize wd.code) ∧
      7 ≤ smplRdSize wd.code := by
    cases wd with
    | w12 => decide
    | w14 => exact absurd rfl hwd
    | w16 => decide
  have hlate := late_of_starts ht
  obtain ⟨n, hn⟩ : ∃ n, t + hdrAge wd = n + 7 := ⟨t + hdrAge wd - 7, by omega⟩
  rw [hn, pctHdr1_eq hld, sinceClear_gap (n := n) (m := t + 1) (by omega),
    readBefore_gap (n := n) (m := t + 1) (by omega)]
  · intro k h1 h2
    rw [timedFormer_eq]
    apply Bool.eq_false_iff.2
    intro hrd
    have hgap := read_before_check ht (m := k) (by omega) hrd
    omega
  · intro c h1 h2
    exact hclr c (by omega) (by omega)

/-- In the cycle begun in clock `t` payload words leave `bit_pack`: a packet is formed, be it written
    or not. -/
def Formed (sampleWidth : BitVec 2) (y : Nat → FormIn) (t : Nat) : Prop :=
  (formerAt sampleWidth y t).core.inst0.currentState = .checkPctBuff ∧
    payload sampleWidth (formerAt sampleWidth y t) (fun k => y (t + k)) (cycle sampleWidth) ≠ []

theorem Formed.starts {y : Nat → FormIn} {t : Nat} (h : Formed wd y t) :
    Starts wd (formerAt wd y t) := starts_of_check h.1

theorem Formed.ne_w14 {y : Nat → FormIn} {t : Nat} (h : Formed wd y t) : wd ≠ .w14 := by
  rintro rfl
  exact h.2 (payload_eq h.starts)

/-- With the other two widths every cycle forms a packet. -/
theorem formed_of_starts {y : Nat → FormIn} {t : Nat} (h : Starts wd (formerAt wd y t))
    (hwd : wd ≠ .w14) : Formed wd y t := by
  refine ⟨h.fsm, fun hnil => ?_⟩
  have hlen := madePacket_length (y := fun k => y (t + k)) h hwd
  rw [madePacket, hnil, List.length_cons, List.length_cons, List.length_nil] at hlen
  cases wd with
  | w12 => exact absurd hlen (by decide)
  | w14 => exact hwd rfl
  | w16 => exact absurd hlen (by decide)

/-- The words counted up to a cycle are those of the cycles before it. -/
theorem readBefore_getElem {n : Nat} {ts : List Nat} (h : Cycles wd (timedFormIn wd ch x) n ts)
    {j : Nat} (hj : j < ts.length) :
    readBefore wd ch x (ts[j] + 1) = smplRdSize wd.code * j := by
  have hst := h.starts (List.getElem_mem hj)
  have hrd : (timedAt wd ch x ts[j]).former.core.smplBuffRdreq = false := by
    rw [timedFormer_eq, Data2PacketsTop.smplBuffRdreq, Data2PacketsFsm.smplBuffRdreq, hst.fsm]
    rfl
  rw [readBefore_succ, hrd]
  exact h.count j hj

/-- Between two cycles with no clear the timestamp grows by the samples of the cycles between. -/
theorem timestamp_diff (hld : ∀ n, (x n).ldSmplNrSync = false) (hwd : wd ≠ .w14) {n : Nat}
    {ts : List Nat} (h : Cycles wd (timedFormIn wd ch x) n ts) {i j : Nat} (hij : i ≤ j)
    (hj : j < ts.length)
    (hclr : ∀ c, c ≤ ts[j] → ts[i] + hdrAge wd ≤ c + 7 → (x c).clrSmplNrSync = false) :
    (timedFormIn wd ch x (ts[j] + hdrAge wd)).pctHdr1 =
      (timedFormIn wd ch x (ts[i] + hdrAge wd)).pctHdr1 +
        BitVec.ofNat 64 (ch.samplesPerWord * (smplRdSize wd.code * (j - i))) := by
  have hi : i < ts.length := Nat.lt_of_le_of_lt hij hj
  have hle : ts[i] ≤ ts[j] := by
    obtain rfl | hlt : i = j ∨ i < j := by omega
    · exact Nat.le_refl _
    · have := List.pairwise_iff_getElem.1 h.apart i j hi hj hlt
      omega
  have hsti := h.starts (List.getElem_mem hi)
  have hstj := h.starts (List.getElem_mem hj)
  rw [← timedFormer_eq] at hsti hstj
  rw [timestamp_at hld hwd hstj fun c h1 h2 => hclr c h1 (by omega),
    timestamp_at hld hwd hsti fun c h1 h2 => hclr c (by omega) h2,
    sinceClear_gap (n := ts[i] + 1) (m := ts[j] + 1) (by omega), ← BitVec.ofNat_add, ← Nat.mul_add]
  · have hmono : readBefore wd ch x (sinceClear x (ts[i] + 1)) ≤ readBefore wd ch x (ts[i] + 1) :=
      readBefore_mono (sinceClear_le _)
    rw [readBefore_getElem h hi] at hmono ⊢
    rw [readBefore_getElem h hj]
    have hprod : smplRdSize wd.code * i ≤ smplRdSize wd.code * j := Nat.mul_le_mul_left _ hij
    have hsub := Nat.mul_sub (smplRdSize wd.code) j i
    have heq : smplRdSize wd.code * j - readBefore wd ch x (sinceClear x (ts[i] + 1)) =
        smplRdSize wd.code * i - readBefore wd ch x (sinceClear x (ts[i] + 1)) +
          smplRdSize wd.code * (j - i) := by omega
    rw [heq]
  · intro c h1 h2
    exact hclr c (by omega) (by have : hdrAge wd ≤ 7 := by cases wd <;> decide
                                omega)

end run

/-- RX timestamps, at the widths the ports name: as long as no clear comes in the last clocks before
    the first word of a packet is read (`t` with 12-bit samples, `t - 4` to `t` with 16-bit samples,
    the first read being in `t + 1`), the second header word of the packet is the number of samples in
    the words read since the last clear and before its own; and over a stretch without a clear it
    grows by the samples of the packets between, written or not. -/
theorem rx_timestamp (sampleWidth : BitVec 2) (hsw : sampleWidth ≠ 3) (ch : ChSetting)
    (x : Nat → TimedIn) (hld : ∀ n, (x n).ldSmplNrSync = false) :
    (∀ t, Formed sampleWidth (timedFormIn sampleWidth ch x) t →
      (∀ c, c ≤ t → t + hdrAge sampleWidth ≤ c + 7 → (x c).clrSmplNrSync = false) →
      (packetAt sampleWidth (timedFormIn sampleWidth ch x) t)[1]? =
        some (BitVec.ofNat 64 (ch.samplesPerWord * (readBefore sampleWidth ch x (t + 1) -
          readBefore sampleWidth ch x (sinceClear x (t + 1)))))) ∧
    ∀ n ts, Cycles sampleWidth (timedFormIn sampleWidth ch x) n ts → ∀ i j, i ≤ j →
      ∀ (hi : i < ts.length) (hj : j < ts.length),
      Formed sampleWidth (timedFormIn sampleWidth ch x) ts[j] →
      (∀ c, c ≤ ts[j] → ts[i] + hdrAge sampleWidth ≤ c + 7 → (x c).clrSmplNrSync = false) →
      ∃ a, (packetAt sampleWidth (timedFormIn sampleWidth ch x) ts[i])[1]? = some a ∧
        (packetAt sampleWidth (timedFormIn sampleWidth ch x) ts[j])[1]? = some (a +
          BitVec.ofNat 64 (ch.samplesPerWord * (smplRdSize sampleWidth * (j - i)))) := by
  obtain ⟨wd, rfl⟩ := WidthSetting.exists_code hsw
  refine ⟨?_, ?_⟩
  · intro t hform hclr
    have hst := hform.starts
    rw [← timedFormer_eq] at hst
    exact congrArg some (timestamp_at hld hform.ne_w14 hst hclr)
  · intro n ts h i j hij hi hj hform hclr
    exact ⟨_, rfl, congrArg some (timestamp_diff hld hform.ne_w14 h hij hj hclr)⟩

/-! ## A clear that comes too late -/

/-- A word in every second clock, and one clear in clock 2044. -/
def lateClear (n : Nat) : TimedIn := ⟨0, n % 2 == 0, 0, 0, n == 2044, false, 0⟩

/-- The system with the fill level in place of the sample FIFO. -/
structure RxLevel where
  core : Data2PacketsTop
  level : Nat
  inst3 : SmplCnt
  delayChain : DelayLine 6 Word64

namespace RxLevel

def step (sampleWidth : BitVec 2) (ch : ChSetting) (s : RxLevel) (i : TimedIn) : RxLevel where
  core := s.core.step sampleWidth ⟨0, s.delayChain ⟨5, by decide⟩, 0, s.level, 0⟩
  level := nextLevel s.core.smplBuffRdreq i.smplWrreq s.level
  inst3 := s.inst3.step ch i.clrSmplNrSync i.ldSmplNrSync i.smplNrInSync s.core.smplBuffRdreq
  delayChain := s.delayChain.shift s.inst3.q

def machine (sampleWidth : BitVec 2) (ch : ChSetting) : Machine RxLevel TimedIn :=
  ⟨⟨.init, 0, .init, .fill 0⟩, step sampleWidth ch⟩

/-- The system with as many zeros in the FIFO. -/
def expand (s : RxLevel) : RxTimed :=
  ⟨⟨s.core, ⟨List.replicate s.level 0, 0⟩⟩, s.inst3, s.delayChain⟩

theorem expand_step (sampleWidth : BitVec 2) (ch : ChSetting) (s : RxLevel) (n : Nat) :
    s.expand.step sampleWidth ch (lateClear n) = (s.step sampleWidth ch (lateClear n)).expand := by
  have hformer := former_step_zeros sampleWidth s.core s.level 0 (s.delayChain ⟨5, by decide⟩)
    (lateClear n).smplWrreq 0
  show RxTimed.mk (RxFormer.step sampleWidth ⟨s.core, ⟨List.replicate s.level 0, 0⟩⟩
    ⟨0, s.delayChain ⟨5, by decide⟩, (lateClear n).smplWrreq, 0, 0⟩) _ _ = _
  rw [hformer]
  rfl

theorem expand_state (sampleWidth : BitVec 2) (ch : ChSetting) (n : Nat) :
    timedAt sampleWidth ch lateClear n = ((machine sampleWidth ch).state lateClear n).expand := by
  induction n with
  | zero => rfl
  | succ n ih =>
    exact (congrArg (RxTimed.step sampleWidth ch · (lateClear n)) ih).trans
      (expand_step sampleWidth ch _ n)

end RxLevel

/-- A packet of 16-bit samples is formed wherever a cycle begins. -/
theorem formed_lateClear {t : Nat} (h : ((RxLevel.machine 0 ⟨false, 1⟩).state lateClear
    t).core.inst0.currentState = .checkPctBuff) :
    Formed 0 (timedFormIn 0 ⟨false, 1⟩ lateClear) t := by
  have hcheck : (formerAt WidthSetting.w16 (timedFormIn 0 ⟨false, 1⟩ lateClear)
      t).core.inst0.currentState = .checkPctBuff := by
    show (formerAt 0 (timedFormIn 0 ⟨false, 1⟩ lateClear) t).core.inst0.currentState = _
    rw [← timedFormer_eq, RxLevel.expand_state]
    exact h
  exact formed_of_starts (starts_of_check hcheck) (by decide)

/-- The second packet still shows the 1020 samples of the first one, though the counter is cleared in
    the clock before its own first word is read. -/
theorem rx_timestamp_lateClear : ¬ ∀ (sampleWidth : BitVec 2) (ch : ChSetting) (x : Nat → TimedIn),
    (∀ n, (x n).ldSmplNrSync = false) →
    (∀ n, (x n).smplWrreq = true → (x (n + 1)).smplWrreq = false) →
    ∀ t, Formed sampleWidth (timedFormIn sampleWidth ch x) t →
      (packetAt sampleWidth (timedFormIn sampleWidth ch x) t)[1]? =
        some (BitVec.ofNat 64 (ch.samplesPerWord * (readBefore sampleWidth ch x (t + 1) -
          readBefore sampleWidth ch x (sinceClear x (t + 1))))) := by
  intro hall
  have hcheck : ((RxLevel.machine 0 ⟨false, 1⟩).state lateClear 2044).core.inst0.currentState =
      .checkPctBuff := by decide +kernel
  have hhdr : ((RxLevel.machine 0 ⟨false, 1⟩).state lateClear 2047).delayChain ⟨5, by decide⟩ =
      1020#64 := by decide +kernel
  have hhalf : ∀ n, (lateClear n).smplWrreq = true → (lateClear (n + 1)).smplWrreq = false :=
    halfRate_alternates
  have hbad := hall 0 ⟨false, 1⟩ lateClear (fun _ => rfl) hhalf 2044 (formed_lateClear hcheck)
  have hsince : sinceClear lateClear (2044 + 1) = 2044 + 1 := if_pos rfl
  rw [hsince, Nat.sub_self] at hbad
  have hval := Option.some.inj hbad
  rw [show 2044 + hdrAge 0 = 2047 from rfl, timedFormIn, RxTimed.formIn, RxTimed.inst2PctHdr1,
    RxLevel.expand_state, RxLevel.expand] at hval
  simp only [hhdr] at hval
  exact absurd hval (by decide)

/-- The first packet has no clear in its way. -/
theorem rx_timestamp_first : (packetAt 0 (timedFormIn 0 ⟨false, 1⟩ lateClear) 1024)[1]? =
    some (BitVec.ofNat 64 (ChSetting.samplesPerWord ⟨false, 1⟩ *
      (readBefore 0 ⟨false, 1⟩ lateClear (1024 + 1) -
        readBefore 0 ⟨false, 1⟩ lateClear (sinceClear lateClear (1024 + 1))))) := by
  refine (rx_timestamp 0 (by decide) ⟨false, 1⟩ lateClear (fun _ => rfl)).1 1024 ?_ ?_
  · exact formed_lateClear (by decide +kernel)
  · intro c hc _
    exact beq_false_of_ne (by omega)

end Rx
