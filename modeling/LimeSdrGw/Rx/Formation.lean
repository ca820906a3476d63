import LimeSdrGw.Rx.Making
import LimeSdrGw.Rx.Packing
/-
# One packet formation cycle

From the clock in which `pct_buff_rdy` is looked at, everything that controls a cycle goes by the
clock: the reads, the words `bit_pack` completes, the states of `data2packets`. The cycle ends as it
began, with nothing under way.

| here | there |
| --- | --- |
| `Starts`               | data2packets_fsm.vhd: the state `check_pct_buff` |
| `FsmAt`                | data2packets_fsm.vhd:72-155, `a` clocks later |
| `cycle`                | clocks from there to `idle` |
| `hdrAge`               | clocks from there to the capture of the header |
-/
namespace Rx

open Clocked Tx

def cycle (sampleWidth : BitVec 2) : Nat :=
  if sampleWidth = 2 then 690 else if sampleWidth = 1 then 146 else 517

def hdrAge (sampleWidth : BitVec 2) : Nat :=
  if sampleWidth = 2 then 7 else if sampleWidth = 1 then 0 else 3

/-! ## At rest -/

/-- The registers that follow the settings have their final values. -/
structure Settled (wd : WidthSetting) (s : Data2PacketsTop) : Prop where
  inst2PctSize : s.inst2PctSize = pctSize wd.code
  maxLimit : s.pctBuffWrusedwMaxLimit = pctBuffWrusedwMaxWords - pctSize wd.code
  rdusedwMin : s.smplBuffRdusedwMin = smplRdSize wd.code
  inst0SmplRdSize : s.inst0SmplRdSize = smplRdSize wd.code
  rdCntMax : s.inst0.smplBuffRdCntMax = smplRdSize wd.code - 2
  wrCntMax : s.inst2.pctDataWrCntMax = pctSize wd.code - 4

theorem Settled.step {wd : WidthSetting} {s : Data2PacketsTop} (h : Settled wd s) (i : PctIn) :
    Settled wd (s.step wd.code i) where
  inst2PctSize := rfl
  maxLimit := by
    show (pctBuffWrusedwMaxWords + 2048 - s.inst2PctSize) % 2048 = _
    rw [h.inst2PctSize]
    cases wd <;> rfl
  rdusedwMin := rfl
  inst0SmplRdSize := rfl
  rdCntMax := by
    show (s.inst0SmplRdSize + 4094) % 4096 = _
    rw [h.inst0SmplRdSize]
    cases wd <;> rfl
  wrCntMax := by
    show (s.inst2PctSize + 2044) % 2048 = _
    rw [h.inst2PctSize]
    cases wd <;> rfl

/-- Nothing under way behind the sample FIFO. -/
structure Quiet (wd : WidthSetting) (s : RxFormer) : Prop where
  settled : Settled wd s.core
  dataInValid : s.core.inst1DataInValid = false
  pack : s.core.inst1.Quiet wd
  making : Making [] 0 0 s.core.inst2
  wrreq : s.core.smplBuffRdreqReg = false

/-- Between two cycles. -/
structure Idle (wd : WidthSetting) (s : RxFormer) : Prop extends Quiet wd s where
  fsm : s.core.inst0.currentState = .idle
  rdusedwReg : s.core.smplBuffRdusedwReg ≤ s.smplBuff.items.length
  enough : s.core.inst0SmplBuffRdy = true → smplRdSize wd.code ≤ s.smplBuff.items.length

/-- A cycle begins, and there are words for it. -/
structure Starts (wd : WidthSetting) (s : RxFormer) : Prop extends Quiet wd s where
  fsm : s.core.inst0.currentState = .checkPctBuff
  rdCnt : s.core.inst0.smplBuffRdCnt = 0
  enough : smplRdSize wd.code ≤ s.smplBuff.items.length

section step

variable {wd : WidthSetting} {s : RxFormer}

theorem popped_length_le {α : Type} (r : Bool) (l : List α) :
    l.length ≤ (Fifo.popped r l).length + r.toNat := by
  cases r with
  | false => exact Nat.le_refl _
  | true =>
    rw [Fifo.popped_true, List.length_tail, Bool.toNat_true]
    omega

variable (wd) in
/-- Only a read makes the sample FIFO shorter. -/
theorem smplBuff_length_le (s : RxFormer) (i : FormIn) : s.smplBuff.items.length ≤
    (s.step wd i).smplBuff.items.length + s.core.smplBuffRdreq.toNat := by
  have h := popped_length_le s.core.smplBuffRdreq s.smplBuff.items
  simp only [RxFormer.step, Fifo.step_items, List.length_append]
  omega

/-- As long as nothing is read, nothing gets under way. -/
theorem Quiet.step (h : Quiet wd s) (hrd : s.core.smplBuffRdreq = false) (i : FormIn) :
    Quiet wd (s.step wd i) where
  settled := h.settled.step _
  dataInValid := hrd
  pack := by
    show (s.core.inst1.step wd.code s.core.inst1DataInValid s.smplBuff.q).Quiet wd
    rw [h.dataInValid]
    exact h.pack.step _
  making := by
    show Making [] 0 0 (s.core.inst2.step s.core.inst1.mux1DataOutValidReg _ _ _ _)
    rw [h.pack.dataOutValid]
    exact h.making.rest_step _ _ _ _
  wrreq := by
    show (s.core.inst2.pctWrreqInt && _) = false
    rw [h.making.rest_wrreq]
    rfl

/-- From rest, a cycle begins or nothing does. -/
theorem Idle.step (h : Idle wd s) (i : FormIn) : Idle wd (s.step wd i) ∨ Starts wd (s.step wd i) := by
  have hrd : s.core.smplBuffRdreq = false := by
    rw [Data2PacketsTop.smplBuffRdreq, Data2PacketsFsm.smplBuffRdreq, h.fsm]
    rfl
  have hquiet := h.toQuiet.step hrd i
  have hsmpl := smplBuff_length_le wd s i
  rw [hrd] at hsmpl
  cases hrdy : s.core.inst0SmplBuffRdy with
  | false =>
    refine .inl ⟨hquiet, ?_, hsmpl, ?_⟩
    · show s.core.inst0.next s.core.inst0SmplBuffRdy _ = .idle
      rw [Data2PacketsFsm.next, h.fsm, hrdy]
      rfl
    · intro hnext
      have hlt := of_decide_eq_true (show decide (s.core.smplBuffRdusedwMin <
        s.core.smplBuffRdusedwReg) = true from hnext)
      rw [h.settled.rdusedwMin] at hlt
      exact Nat.le_trans (Nat.le_of_lt hlt) (Nat.le_trans h.rdusedwReg hsmpl)
  | true =>
    refine .inr ⟨hquiet, ?_, ?_, Nat.le_trans (h.enough hrdy) hsmpl⟩
    · show s.core.inst0.next s.core.inst0SmplBuffRdy _ = .checkPctBuff
      rw [Data2PacketsFsm.next, h.fsm, hrdy]
      rfl
    · show (if s.core.inst0.currentState = .rdSmplBuff then _ else 0) = 0
      rw [h.fsm]
      rfl

end step

/-! ## The state machine -/

/-- `data2packets_fsm` in clock `a` of a cycle. -/
structure FsmAt (wd : WidthSetting) (a : Nat) (s : Data2PacketsFsm) : Prop where
  check : a = 0 → s.currentState = .checkPctBuff
  rd : 1 ≤ a → a ≤ smplRdSize wd.code → s.currentState = .rdSmplBuff
  wait : smplRdSize wd.code < a → a < cycle wd → s.currentState = .waitData2packetsDone
  rest : cycle wd ≤ a → s.currentState = .idle
  rdCnt : a ≤ smplRdSize wd.code → s.smplBuffRdCnt = a - 1
  rdDone : 1 ≤ a → a ≤ smplRdSize wd.code → s.smplBuffRdDone = decide (a = smplRdSize wd.code)

namespace FsmAt

variable {wd : WidthSetting} {a : Nat} {s : Data2PacketsFsm}

theorem smplBuffRdreq (h : FsmAt wd a s) (ha : a ≤ cycle wd) :
    s.smplBuffRdreq = decide (1 ≤ a ∧ a ≤ smplRdSize wd.code) := by
  rw [Data2PacketsFsm.smplBuffRdreq]
  by_cases h1 : 1 ≤ a ∧ a ≤ smplRdSize wd.code
  · rw [h.rd h1.1 h1.2, decide_eq_true h1]
    rfl
  · rw [decide_eq_false h1]
    obtain h0 | hgt : a = 0 ∨ smplRdSize wd.code < a := by omega
    · rw [h.check h0]
      rfl
    · obtain hlt | heq : a < cycle wd ∨ cycle wd ≤ a := by omega
      · rw [h.wait hgt hlt]
        rfl
      · rw [h.rest heq]
        rfl

/-- The read counter runs up to the size less two; the reads end one clock behind that. -/
theorem step (h : FsmAt wd a s) (hmax : s.smplBuffRdCntMax = smplRdSize wd.code - 2)
    (ha : a < cycle wd) {rdy smplRdy done : Bool} (size : Nat)
    (hdone : smplRdSize wd.code < a → done = decide (a + 1 = cycle wd)) :
    FsmAt wd (a + 1) (s.step rdy size smplRdy done) := by
  have hsize : 3 ≤ smplRdSize wd.code ∧ smplRdSize wd.code ≤ 680 := by cases wd <;> decide
  have hcyc : smplRdSize wd.code + 2 ≤ cycle wd := by cases wd <;> decide
  obtain h0 | ⟨h1, h2⟩ | h3 : a = 0 ∨ (1 ≤ a ∧ a ≤ smplRdSize wd.code) ∨ smplRdSize wd.code < a := by
    omega
  · have hst := h.check h0
    have hcnt := h.rdCnt (by omega)
    refine ⟨nofun, fun _ _ => ?_, fun _ _ => by omega, fun _ => by omega, fun _ => ?_, fun _ _ => ?_⟩
    · simp [Data2PacketsFsm.step, Data2PacketsFsm.next, hst]
    · simp [Data2PacketsFsm.step, hst, h0]
    · simp only [Data2PacketsFsm.step, hmax, hcnt, h0]
      rw [decide_eq_decide]
      omega
  · have hst := h.rd h1 h2
    have hcnt := h.rdCnt h2
    have hdn := h.rdDone h1 h2
    have hnext : s.next smplRdy done =
        if a = smplRdSize wd.code then .waitData2packetsDone else .rdSmplBuff := by
      simp [Data2PacketsFsm.next, hst, hdn]
    refine ⟨nofun, fun _ hle => ?_, fun hgt _ => ?_, fun _ => by omega, fun hle => ?_, fun _ hle => ?_⟩
    · exact hnext.trans (if_neg (by omega))
    · exact hnext.trans (if_pos (by omega))
    · simp only [Data2PacketsFsm.step, hst, hcnt, if_true]
      omega
    · simp only [Data2PacketsFsm.step, hmax, hcnt]
      rw [decide_eq_decide]
      omega
  · have hst := h.wait h3 ha
    have hnext : s.next smplRdy done = if a + 1 = cycle wd then .idle else .waitData2packetsDone := by
      simp [Data2PacketsFsm.next, hst, hdone h3]
    refine ⟨nofun, fun _ _ => by omega, fun _ hlt => ?_, fun hle => ?_, fun _ => by omega, fun _ _ => by omega⟩
    · exact hnext.trans (if_neg (by omega))
    · exact hnext.trans (if_pos (by omega))

end FsmAt

/-! ## The run of a cycle -/

/-- The system in clock `a` of a cycle begun in the state `s`. -/
abbrev cycleAt (sampleWidth : BitVec 2) (s : RxFormer) (y : Nat → FormIn) (a : Nat) : RxFormer :=
  ((RxFormer.machine sampleWidth).startAt s).state y a

/-- What `bit_pack` gets. -/
def packIn (sampleWidth : BitVec 2) (s : RxFormer) (y : Nat → FormIn) (a : Nat) : Bool × Word64 :=
  ((cycleAt sampleWidth s y a).core.inst1DataInValid, (cycleAt sampleWidth s y a).smplBuff.q)

/-- The payload words that have left `bit_pack`. -/
def payload (sampleWidth : BitVec 2) (s : RxFormer) (y : Nat → FormIn) (a : Nat) : List Word64 :=
  (packerAt sampleWidth s.core.inst1).log packOut (packIn sampleWidth s y) a

/-- The packet of a cycle. -/
def madePacket (sampleWidth : BitVec 2) (s : RxFormer) (y : Nat → FormIn) : List Word64 :=
  (y (hdrAge sampleWidth)).pctHdr0 :: (y (hdrAge sampleWidth)).pctHdr1 ::
    payload sampleWidth s y (cycle sampleWidth)

/-- Clocks in which `pct_wrreq` was high. -/
def emitted (sampleWidth : BitVec 2) (s : RxFormer) (y : Nat → FormIn) : Nat → Nat
  | 0 => 0
  | a + 1 => emitted sampleWidth s y a + (cycleAt sampleWidth s y a).core.inst2.pctWrreqInt.toNat

section cycle

variable {wd : WidthSetting} {s : RxFormer} {y : Nat → FormIn}

theorem cycleAt_settled (h : Starts wd s) (a : Nat) : Settled wd (cycleAt wd s y a).core := by
  induction a with
  | zero => exact h.settled
  | succ a ih => exact ih.step _

theorem inst1_eq (a : Nat) :
    (cycleAt wd s y a).core.inst1 = (packerAt wd s.core.inst1).state (packIn wd s y) a :=
  Machine.state_part ((RxFormer.machine wd).startAt s) (fun s => s.core.inst1)
    (packer wd.code).step (fun s _ => (s.core.inst1DataInValid, s.smplBuff.q)) (fun _ _ => rfl) y a

theorem payload_succ (a : Nat) : payload wd s y (a + 1) = payload wd s y a ++
    validWord (cycleAt wd s y a).core.inst1DataOutValid (cycleAt wd s y a).core.inst1DataOut := by
  rw [payload, Machine.log_succ, payload, Data2PacketsTop.inst1DataOutValid,
    Data2PacketsTop.inst1DataOut, inst1_eq]

/-- The state machine has kept to the schedule up to clock `a`. -/
def OnTime (wd : WidthSetting) (s : RxFormer) (y : Nat → FormIn) (a : Nat) : Prop :=
  ∀ b, b ≤ a → FsmAt wd b (cycleAt wd s y b).core.inst0

theorem dataInValid_eq (h : Starts wd s) {a b : Nat} (ht : OnTime wd s y a) (ha : a ≤ cycle wd)
    (hb : b ≤ a + 1) : (packIn wd s y b).1 = decide (2 ≤ b ∧ b ≤ smplRdSize wd.code + 1) := by
  cases b with
  | zero => exact h.dataInValid
  | succ b =>
    refine ((ht b (by omega)).smplBuffRdreq (by omega)).trans ?_
    rw [decide_eq_decide]
    omega

theorem words_length (h : Starts wd s) {a b : Nat} (ht : OnTime wd s y a) (ha : a ≤ cycle wd)
    (hb : b ≤ a + 2) :
    (words (packIn wd s y) b).length = min (b - 2) (smplRdSize wd.code) := by
  induction b with
  | zero => simp [words]
  | succ b ih =>
    have hv := dataInValid_eq h ht ha (b := b) (by omega)
    rw [words, List.length_append, ih (by omega), validWord, hv]
    split
    · rename_i hin
      have := of_decide_eq_true hin
      rw [List.length_singleton]
      omega
    · rename_i hout
      rw [decide_eq_true_eq] at hout
      rw [List.length_nil]
      omega

/-- How many payload words have left `bit_pack`. -/
theorem payload_length (h : Starts wd s) {a b : Nat} (ht : OnTime wd s y a) (ha : a ≤ cycle wd)
    (hb : b ≤ a + 2 + wd.lat) : (payload wd s y b).length =
      wd.packCnt (min (b - wd.lat - 2) (smplRdSize wd.code)) := by
  obtain hlt | hle : b < wd.lat ∨ wd.lat ≤ b := by omega
  · have hzero : b - wd.lat - 2 = 0 := by omega
    rw [payload, packOut_early _ h.pack (Nat.le_of_lt hlt), hzero, Nat.zero_min]
    cases wd <;> rfl
  · obtain ⟨n, rfl⟩ : ∃ n, b = n + wd.lat := ⟨b - wd.lat, by omega⟩
    rw [payload, packOut_log _ h.pack, wd.packOutput_length, words_length h ht ha (by omega),
      Nat.add_sub_cancel]

/-- No more than fit into a packet. -/
theorem packCnt_le (wd : WidthSetting) (k : Nat) :
    wd.packCnt (min k (smplRdSize wd.code)) ≤ 510 := by
  cases wd with
  | w12 =>
    show 3 * min k 680 / 4 ≤ 510
    omega
  | w14 => exact Nat.zero_le 510
  | w16 => exact Nat.min_le_right k 510

theorem payload_getElem? {a : Nat} (ha : a < cycle wd)
    (hv : (cycleAt wd s y a).core.inst1DataOutValid = true) :
    (payload wd s y (cycle wd))[(payload wd s y a).length]? =
      some (cycleAt wd s y a).core.inst1DataOut := by
  have hpre : payload wd s y (a + 1) <+: payload wd s y (cycle wd) :=
    Machine.log_grows _ _ _ (by omega)
  rw [payload_succ, hv] at hpre
  obtain ⟨t, ht⟩ := hpre
  rw [← ht]
  simp [validWord]

/-- The first payload word comes `hdrAge` clocks into the cycle. -/
theorem hdrAge_eq (h : Starts wd s) {a b : Nat} (ht : OnTime wd s y a) (ha : a ≤ cycle wd)
    (hb : b ≤ a + 1) (h0 : payload wd s y b = [])
    (hv : (cycleAt wd s y b).core.inst1DataOutValid = true) : b = hdrAge wd := by
  have hlen := payload_length h ht ha (b := b) (by omega)
  have hlen' := payload_length h ht ha (b := b + 1) (by omega)
  rw [payload_succ, h0, hv] at hlen'
  rw [h0] at hlen
  simp only [validWord, if_true, List.nil_append, List.length_singleton] at hlen'
  rw [List.length_nil] at hlen
  cases wd with
  | w12 =>
    simp only [WidthSetting.packCnt, WidthSetting.lat] at *
    show b = 7
    omega
  | w14 => simp [WidthSetting.packCnt] at hlen'
  | w16 =>
    simp only [WidthSetting.packCnt, WidthSetting.lat] at *
    show b = 3
    omega

/-- `data2packets` makes the packet of the cycle. -/
theorem making_at (h : Starts wd s) {a b : Nat} (ht : OnTime wd s y a) (ha : a < cycle wd)
    (hb : b ≤ a + 1) : Making (madePacket wd s y) (payload wd s y b).length (emitted wd s y b)
      (cycleAt wd s y b).core.inst2 := by
  induction b with
  | zero => exact h.making.rest_of
  | succ b ih =>
    have hmake := ih (by omega)
    have hset := cycleAt_settled (y := y) h b
    have hlen := payload_length h ht (by omega) (b := b + 1) (by omega)
    have hle := packCnt_le wd (b + 1 - wd.lat - 2)
    rw [payload_succ, List.length_append] at hlen ⊢
    have hcnt : (validWord (cycleAt wd s y b).core.inst1DataOutValid
        (cycleAt wd s y b).core.inst1DataOut).length =
        (cycleAt wd s y b).core.inst1DataOutValid.toNat := by
      cases (cycleAt wd s y b).core.inst1DataOutValid <;> rfl
    rw [hcnt] at hlen ⊢
    refine hmake.step ?_ _ ?_ ?_
    · intro hk
      have hlen0 := payload_length h ht (by omega) (b := b) (by omega)
      rw [hset.wrCntMax]
      cases wd with
      | w12 => rfl
      | w14 =>
        rw [WidthSetting.packCnt] at hlen0
        omega
      | w16 => rfl
    · intro hv
      rw [hv, Bool.toNat_true] at hlen
      refine ⟨by omega, ?_⟩
      exact payload_getElem? (by omega) hv
    · intro hv hk
      have hage := hdrAge_eq h ht (by omega) (by omega) (List.eq_nil_of_length_eq_zero hk) hv
      subst hage
      exact ⟨rfl, rfl⟩

/-- The last payload word comes five clocks before the end of the cycle. -/
theorem payload_full (h : Starts wd s) {a b : Nat} (ht : OnTime wd s y a) (ha : a ≤ cycle wd)
    (hb : b ≤ a + 2) (hwd : wd ≠ .w14) :
    (cycle wd ≤ b + 4 → (payload wd s y b).length = 510) ∧
    (b + 5 = cycle wd → (payload wd s y b).length = 509) ∧
    (b + 4 < cycle wd → (payload wd s y b).length < 510) := by
  rw [payload_length h ht ha (by omega)]
  cases wd with
  | w12 =>
    simp only [WidthSetting.packCnt, WidthSetting.lat, cycle, smplRdSize,
      WidthSetting.code, if_true]
    omega
  | w14 => exact absurd rfl hwd
  | w16 =>
    have hsize : smplRdSize WidthSetting.w16.code = 510 := rfl
    have hcyc : cycle WidthSetting.w16 = 517 := rfl
    simp only [WidthSetting.packCnt, WidthSetting.lat, hcyc, hsize]
    omega

/-- What is given out follows the payload one clock later; behind it the last words come. -/
theorem emitted_eq (h : Starts wd s) {a b : Nat} (ht : OnTime wd s y a) (ha : a < cycle wd)
    (hb : b ≤ a + 1) (hwd : wd ≠ .w14) : emitted wd s y (b + 1) =
      if cycle wd ≤ b + 4 then min (b + 514 - cycle wd) 512 else (payload wd s y b).length := by
  induction b with
  | zero =>
    have hfull := payload_full h ht (by omega) (b := 0) (by omega) hwd
    have hmake := (making_at h ht ha (b := 0) (by omega)).emitted
    have hcyc : 100 < cycle wd := by cases wd <;> decide
    rw [if_neg (by omega)] at hmake
    rw [if_neg (by omega)]
    exact hmake
  | succ b ih =>
    have hfull := payload_full h ht (by omega) (b := b + 1) (by omega) hwd
    have hfull' := payload_full h ht (by omega) (b := b) (by omega) hwd
    have hmake := (making_at h ht ha (b := b + 1) (by omega)).emitted
    have hprev := ih (by omega)
    rw [emitted, hmake]
    obtain hlt | heq | hgt : b + 5 < cycle wd ∨ b + 5 = cycle wd ∨ cycle wd ≤ b + 4 := by omega
    · rw [if_neg (by omega), if_neg (by omega)]
    · rw [if_neg (by omega)] at hprev
      rw [if_neg (by omega), if_pos (by omega)]
      omega
    · rw [if_pos hgt] at hprev
      rw [if_pos (by omega), if_pos (by omega)]
      omega

theorem pctState_eq_zero (s : Data2Packets) (wr : Bool) :
    (s.pctState wr == 0) = decide (s.currentState = .idle) := by
  rw [Data2Packets.pctState]
  cases s.currentState <;> cases wr <;> rfl

/-- `data2packets_done` comes one clock before the end of the cycle. -/
theorem done_eq (h : Starts wd s) {a : Nat} (ht : OnTime wd s y a) (ha : a < cycle wd)
    (hrd : smplRdSize wd.code < a) :
    (cycleAt wd s y a).core.inst0Data2packetsDone = decide (a + 1 = cycle wd) := by
  obtain ⟨b, rfl⟩ : ∃ b, a = b + 1 := ⟨a - 1, by omega⟩
  have hmake := making_at h ht ha (b := b) (by omega)
  have hidle := pctState_eq_zero (cycleAt wd s y b).core.inst2
    (cycleAt wd s y b).core.inst1DataOutValid
  refine hidle.trans ?_
  rw [decide_eq_decide, hmake.idle_iff]
  by_cases hwd : wd = .w14
  · subst hwd
    have hlen := payload_length h ht (by omega) (b := b) (by omega)
    have hcyc : smplRdSize WidthSetting.w14.code + 2 = cycle WidthSetting.w14 := rfl
    refine iff_of_true (.inl hlen) ?_
    omega
  · have hcyc : 100 < smplRdSize wd.code := by cases wd <;> decide
    obtain ⟨c, rfl⟩ : ∃ c, b = c + 1 := ⟨b - 1, by omega⟩
    have hpos : (payload wd s y (c + 1)).length ≠ 0 := by
      rw [payload_length h ht (by omega) (by omega)]
      cases wd with
      | w12 =>
        simp only [WidthSetting.packCnt, WidthSetting.lat]
        omega
      | w14 => exact absurd rfl hwd
      | w16 =>
        simp only [WidthSetting.packCnt, WidthSetting.lat]
        omega
    have hle := payload_length h ht (by omega) (b := c) (by omega)
    have hle' := packCnt_le wd (c - wd.lat - 2)
    have hout := emitted_eq h ht ha (b := c) (by omega) hwd
    refine ⟨?_, ?_⟩
    · rintro (h0 | hge)
      · exact absurd h0 hpos
      · rw [hout] at hge
        split at hge
        · omega
        · omega
    · intro hend
      right
      rw [hout, if_pos (by omega)]
      omega

/-- The state machine keeps to the schedule to the end. -/
theorem onTime (h : Starts wd s) {a : Nat} (ha : a ≤ cycle wd) : OnTime wd s y a := by
  induction a with
  | zero =>
    intro b hb
    obtain rfl := Nat.le_zero.1 hb
    have hcyc : 0 < cycle wd := by cases wd <;> decide
    exact ⟨fun _ => h.fsm, fun h1 => absurd h1 (by omega), fun _ _ => by omega, fun _ => by omega,
      fun _ => h.rdCnt, fun h1 => absurd h1 (by omega)⟩
  | succ a ih =>
    have ht := ih (by omega)
    intro b hb
    obtain hle | rfl : b ≤ a ∨ b = a + 1 := by omega
    · exact ht b hle
    · exact (ht a (Nat.le_refl a)).step (cycleAt_settled h a).rdCntMax ha _
        (done_eq h ht ha)

/-! ## The words read -/

/-- In clock `a` of a cycle one word a clock is read, `smplRdSize` of them. -/
theorem smplBuffRdreq_at (h : Starts wd s) {a : Nat} (ha : a ≤ cycle wd) :
    (cycleAt wd s y a).core.smplBuffRdreq = decide (1 ≤ a ∧ a ≤ smplRdSize wd.code) :=
  (onTime h ha a (Nat.le_refl a)).smplBuffRdreq ha

/-- The words still to be read are there. -/
theorem smplBuff_enough (h : Starts wd s) {a : Nat} (ha : a ≤ smplRdSize wd.code + 1) :
    smplRdSize wd.code ≤ (cycleAt wd s y a).smplBuff.items.length + (a - 1) := by
  have hcyc : smplRdSize wd.code + 2 ≤ cycle wd := by cases wd <;> decide
  induction a with
  | zero => exact h.enough
  | succ a ih =>
    have hle := smplBuff_length_le wd (cycleAt wd s y a) (y a)
    have hrd := smplBuffRdreq_at (y := y) h (a := a) (by omega)
    have hprev := ih (by omega)
    rw [hrd] at hle
    show _ ≤ ((cycleAt wd s y a).step wd (y a)).smplBuff.items.length + _
    by_cases h1 : 1 ≤ a ∧ a ≤ smplRdSize wd.code
    · rw [decide_eq_true h1, Bool.toNat_true] at hle
      omega
    · rw [decide_eq_false h1, Bool.toNat_false] at hle
      omega

/-- A word is read only where there is one. -/
theorem smplBuff_ne_nil (h : Starts wd s) {a : Nat} (ha : a ≤ cycle wd)
    (hrd : (cycleAt wd s y a).core.smplBuffRdreq = true) :
    (cycleAt wd s y a).smplBuff.items ≠ [] := by
  rw [smplBuffRdreq_at h ha] at hrd
  have hin := of_decide_eq_true hrd
  have henough := smplBuff_enough (y := y) h (a := a) (by omega)
  intro hnil
  rw [hnil, List.length_nil] at henough
  omega

/-- The sample words of a cycle. -/
def cycleSamples (sampleWidth : BitVec 2) (s : RxFormer) (y : Nat → FormIn) : List Word64 :=
  ((RxFormer.machine sampleWidth).startAt s).log RxFormer.consumed y (cycle sampleWidth)

/-- `bit_pack` gets the words in the clock behind the read. -/
theorem words_eq (h : Starts wd s) {a : Nat} (ha : a ≤ cycle wd) : words (packIn wd s y) (a + 1) =
    ((RxFormer.machine wd).startAt s).log RxFormer.consumed y a := by
  induction a with
  | zero =>
    show [] ++ validWord s.core.inst1DataInValid s.smplBuff.q = []
    rw [h.dataInValid]
    rfl
  | succ a ih =>
    rw [words, ih (by omega), Machine.log_succ]
    congr 1
    show validWord (cycleAt wd s y a).core.smplBuffRdreq
      ((cycleAt wd s y a).step wd (y a)).smplBuff.q = RxFormer.consumed (cycleAt wd s y a) (y a)
    rw [RxFormer.consumed, validWord]
    cases hrd : (cycleAt wd s y a).core.smplBuffRdreq with
    | false => rfl
    | true =>
      have hne := smplBuff_ne_nil h (by omega) hrd
      obtain ⟨w, l, hl⟩ := List.exists_cons_of_ne_nil hne
      rw [if_pos rfl, if_pos rfl, hl]
      simp only [RxFormer.step, hrd, Fifo.step_q, if_true, hl, List.head?_cons, Option.getD_some,
        Option.toList_some]

theorem cycleSamples_length (h : Starts wd s) :
    (cycleSamples wd s y).length = smplRdSize wd.code := by
  have hlen := words_length h (onTime (y := y) h (Nat.le_refl (cycle wd))) (Nat.le_refl _)
    (b := cycle wd + 1) (by omega)
  rw [words_eq h (Nat.le_refl _)] at hlen
  have hcyc : smplRdSize wd.code + 2 ≤ cycle wd := by cases wd <;> decide
  rw [cycleSamples, hlen]
  omega

/-- All payload words of a cycle are the packing of its sample words. -/
theorem payload_eq (h : Starts wd s) :
    payload wd s y (cycle wd) = wd.packOutput (cycleSamples wd s y) := by
  have hcyc : smplRdSize wd.code + 2 + wd.lat ≤ cycle wd := by cases wd <;> decide
  obtain ⟨n, hn⟩ : ∃ n, cycle wd = n + wd.lat := ⟨cycle wd - wd.lat, by omega⟩
  have hgap : words (packIn wd s y) (cycle wd + 1) = words (packIn wd s y) n := by
    apply words_gap (by omega)
    intro k hk hk'
    rw [dataInValid_eq h (onTime h (Nat.le_refl _)) (Nat.le_refl _) (by omega)]
    exact decide_eq_false (by omega)
  rw [payload, hn, packOut_log _ h.pack, ← hgap, words_eq h (Nat.le_refl _)]
  rfl

/-! ## The words written -/

/-- The decision made in the first clock stands for the whole cycle. -/
theorem wrDis_at (h : Starts wd s) {a : Nat} (ha : a < cycle wd) :
    (cycleAt wd s y (a + 1)).core.inst0.pctBuffWrDisSig = s.core.inst0PctBuffRdy := by
  induction a with
  | zero =>
    show (if s.core.inst0.currentState = .checkPctBuff then _ else _) = _
    rw [h.fsm, if_pos rfl]
    rfl
  | succ a ih =>
    have hat := onTime (y := y) h (a := a + 1) (by omega) (a + 1) (Nat.le_refl _)
    have hne : (cycleAt wd s y (a + 1)).core.inst0.currentState ≠ .checkPctBuff := by
      obtain hle | hgt : a + 1 ≤ smplRdSize wd.code ∨ smplRdSize wd.code < a + 1 := by omega
      · rw [hat.rd (by omega) hle]
        exact nofun
      · rw [hat.wait hgt ha]
        exact nofun
    rw [← ih (by omega)]
    exact if_neg hne

/-- What has been written is the packet as far as it has been given out, or nothing at all. -/
theorem written_at (h : Starts wd s) {a : Nat} (ha : a < cycle wd) :
    ((RxFormer.machine wd).startAt s).log RxFormer.written y (a + 1) =
      if s.core.inst0PctBuffRdy then (madePacket wd s y).take (emitted wd s y a) else [] := by
  induction a with
  | zero =>
    show [] ++ validWord s.core.smplBuffRdreqReg s.core.pctBuffWrdataReg = _
    rw [h.wrreq, emitted, List.take_zero, ite_self]
    rfl
  | succ a ih =>
    have hmake := making_at h (onTime (y := y) h (a := a) (by omega)) (by omega) (b := a) (by omega)
    rw [Machine.log_succ, ih (by omega)]
    show _ ++ validWord ((cycleAt wd s y a).core.inst2.pctWrreqInt &&
      (cycleAt wd s y a).core.inst0.pctBuffWrDisSig) (cycleAt wd s y a).core.inst2.reg0 = _
    rw [emitted]
    cases hwr : (cycleAt wd s y a).core.inst2.pctWrreqInt with
    | false =>
      rw [Bool.false_and, Bool.toNat_false, Nat.add_zero]
      exact List.append_nil _
    | true =>
      have hword := hmake.emits hwr
      have hdis : (cycleAt wd s y a).core.inst0.pctBuffWrDisSig = s.core.inst0PctBuffRdy := by
        cases a with
        | zero => exact absurd hwr (by rw [show (cycleAt wd s y 0).core.inst2.pctWrreqInt = false
            from h.making.rest_wrreq]; decide)
        | succ a => exact wrDis_at h (by omega)
      rw [hdis, Bool.true_and, Bool.toNat_true, List.take_add_one, hword]
      cases s.core.inst0PctBuffRdy <;> rfl

/-- No more is given out than the packet holds. -/
theorem emitted_le (h : Starts wd s) {a : Nat} (ha : a ≤ cycle wd) : emitted wd s y a ≤ 512 := by
  cases a with
  | zero => exact Nat.zero_le _
  | succ a =>
    have hmake := making_at h (onTime (y := y) h (a := a) (by omega)) (by omega) (b := a) (by omega)
    have hle := packCnt_le wd (a - wd.lat - 2)
    have hlen := payload_length h (onTime (y := y) h (a := a) (by omega)) (by omega) (b := a) (by omega)
    rw [emitted, hmake.emitted]
    split
    · exact Nat.min_le_right _ _
    · omega

theorem emitted_w14 {s : RxFormer} (h : Starts .w14 s) {a : Nat} (ha : a ≤ 146) :
    emitted WidthSetting.w14 s y a = 0 := by
  induction a with
  | zero => rfl
  | succ a ih =>
    have ht := onTime (y := y) h (a := a) (by show a ≤ 146; omega)
    have hmake := making_at h ht (by show a < 146; omega) (b := a) (by omega)
    have hlen := payload_length h ht (by show a ≤ 146; omega) (b := a) (by omega)
    rw [emitted, hmake.emitted, hlen, if_neg (by rintro ⟨h1, -⟩; exact nomatch h1)]
    rfl

/-- At the end of the cycle all of the packet has been given out. -/
theorem emitted_all (h : Starts wd s) (hwd : wd ≠ .w14) : emitted wd s y (cycle wd - 1) = 512 := by
  have hcyc : 100 < cycle wd := by cases wd <;> decide
  have hout := emitted_eq h (onTime (y := y) h (a := cycle wd - 2) (by omega)) (by omega)
    (b := cycle wd - 2) (by omega) hwd
  rw [if_pos (by omega), show cycle wd - 2 + 1 = cycle wd - 1 by omega] at hout
  omega

theorem madePacket_length (h : Starts wd s) (hwd : wd ≠ .w14) :
    (madePacket wd s y).length = pctSize wd.code := by
  have hfull := payload_full h (onTime (y := y) h (Nat.le_refl (cycle wd))) (Nat.le_refl _)
    (b := cycle wd) (by omega) hwd
  rw [madePacket, List.length_cons, List.length_cons, hfull.1 (by omega)]
  cases wd with
  | w12 => rfl
  | w14 => exact absurd rfl hwd
  | w16 => rfl

/-- What one cycle writes. -/
theorem written_cycle (h : Starts wd s) :
    ((RxFormer.machine wd).startAt s).log RxFormer.written y (cycle wd) =
      if s.core.inst0PctBuffRdy ∧ wd ≠ .w14 then madePacket wd s y else [] := by
  have hcyc : 100 < cycle wd := by cases wd <;> decide
  have hout := written_at (y := y) h (a := cycle wd - 1) (by omega)
  rw [show cycle wd - 1 + 1 = cycle wd by omega] at hout
  rw [hout]
  by_cases hwd : wd = .w14
  · subst hwd
    rw [emitted_w14 h (by decide), List.take_zero, ite_self, if_neg (by rintro ⟨-, h2⟩; exact h2 rfl)]
  · have hlen := madePacket_length (y := y) h hwd
    have hsize : pctSize wd.code = 512 := by
      cases wd with
      | w12 => rfl
      | w14 => exact absurd rfl hwd
      | w16 => rfl
    rw [emitted_all h hwd, List.take_of_length_le (by omega)]
    cases s.core.inst0PctBuffRdy with
    | false => rfl
    | true => rw [if_pos rfl, if_pos ⟨rfl, hwd⟩]

theorem making_end (h : Starts wd s) {a : Nat} (ha : cycle wd ≤ a + 1) (ha' : a ≤ cycle wd) :
    Making [] 0 0 (cycleAt wd s y a).core.inst2 := by
  have hcyc : 100 < cycle wd := by cases wd <;> decide
  have ht := onTime (y := y) h (a := a - 1) (by omega)
  have hmake := making_at h ht (by omega) (b := a) (by omega)
  by_cases hwd : wd = .w14
  · subst hwd
    have hlen := payload_length h ht (by omega) (b := a) (by omega)
    rw [show (payload WidthSetting.w14 s y a).length = 0 from hlen, emitted_w14 h ha'] at hmake
    exact hmake.rest_of
  · have hfull := payload_full h ht (by omega) (b := a) (by omega) hwd
    have hout := emitted_eq h ht (by omega) (b := a - 1) (by omega) hwd
    rw [show a - 1 + 1 = a by omega, if_pos (by omega)] at hout
    have hall : emitted wd s y a = 512 := by omega
    rw [hfull.1 (by omega), hall] at hmake
    exact hmake.rest_of_done

/-- The cycle ends as it began. -/
theorem Starts.ends (h : Starts wd s) : Idle wd (cycleAt wd s y (cycle wd)) := by
  have hcyc : smplRdSize wd.code + 2 + wd.lat ≤ cycle wd ∧ 100 < smplRdSize wd.code := by
    cases wd <;> decide
  have ht := onTime (y := y) h (Nat.le_refl (cycle wd))
  have hgap : ∀ k, smplRdSize wd.code + 1 < k → k ≤ cycle wd → (packIn wd s y k).1 = false := by
    intro k hk hk'
    rw [dataInValid_eq h ht (Nat.le_refl _) (by omega)]
    exact decide_eq_false (by omega)
  obtain ⟨n, hn⟩ : ∃ n, cycle wd = n + 2 := ⟨cycle wd - 2, by omega⟩
  have hrd := smplBuffRdreq_at (y := y) h (a := n + 1) (by omega)
  rw [decide_eq_false (by omega)] at hrd
  have hlast := smplBuff_length_le wd (cycleAt wd s y (n + 1)) (y (n + 1))
  rw [hrd] at hlast
  refine ⟨⟨cycleAt_settled h _, hgap _ (by omega) (Nat.le_refl _), ?_,
    making_end h (by omega) (Nat.le_refl _), ?_⟩,
    (ht _ (Nat.le_refl _)).rest (Nat.le_refl _), ?_, ?_⟩
  · obtain ⟨m, hm⟩ : ∃ m, cycle wd = m + wd.lat := ⟨cycle wd - wd.lat, by omega⟩
    rw [inst1_eq, hm]
    apply quiet_again _ h.pack
    · intro k hk hk'
      exact hgap k (by omega) (by omega)
    · have hlen := words_length h ht (Nat.le_refl _) (b := m) (by omega)
      rw [hlen, Nat.min_eq_right (by omega)]
      cases wd <;> decide
  · have hrest := (making_end (y := y) h (a := n + 1) (by omega) (by omega)).rest_wrreq
    rw [hn]
    show ((cycleAt wd s y (n + 1)).core.inst2.pctWrreqInt && _) = false
    rw [hrest]
    rfl
  · rw [hn]
    exact hlast
  · intro hrdy
    rw [hn] at hrdy ⊢
    have hlt := of_decide_eq_true (show decide ((cycleAt wd s y (n + 1)).core.smplBuffRdusedwMin <
      (cycleAt wd s y (n + 1)).core.smplBuffRdusedwReg) = true from hrdy)
    rw [(cycleAt_settled h (n + 1)).rdusedwMin] at hlt
    have hlevel : (cycleAt wd s y (n + 1)).core.smplBuffRdusedwReg =
        (cycleAt wd s y n).smplBuff.items.length := rfl
    have hprev := smplBuff_length_le wd (cycleAt wd s y n) (y n)
    have hbit := Bool.toNat_le (cycleAt wd s y n).core.smplBuffRdreq
    rw [hlevel] at hlt
    exact Nat.le_trans (Nat.le_of_lt_succ (Nat.lt_of_lt_of_le hlt (Nat.le_trans hprev
      (Nat.add_le_add_left hbit _)))) hlast

end cycle

end Rx
