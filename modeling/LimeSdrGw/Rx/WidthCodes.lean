import LimeSdrGw.Rx.SmplBuff
/-
# The codes of `sample_width`

`sample_width` has two bits and three settings with a meaning. Of these "01" asks for the 14-bit packer
that is commented out of `bit_pack`: a cycle reads 144 words and nothing comes of them. The fourth code
reads as many words as 16-bit samples do and packs them as 12-bit ones: 382 words come where 510 are
waited for, and the state machine waits for ever.

| here | there |
| --- | --- |
| `Stuck`       | data2packets_fsm.vhd: `wait_data2packets_done`, with `data2packets` in `s0` |
| `RxFill`      | the fill levels of the FIFOs, with words that are all alike |
| `halfRate`    | a sample word in every second clock, and a host that takes every word at once |
-/
namespace Rx

open Clocked Tx

/-! ## By the fill levels -/

/-- The fill level of the sample FIFO one clock later. -/
def nextLevel (rd wr : Bool) (level : Nat) : Nat :=
  (if rd then level - 1 else level) + if wr && decide (level + 1 ≤ smplBuffWords) then 1 else 0

/-- With words that are all alike the sample FIFO is as good as its fill level. -/
theorem former_step_zeros (sampleWidth : BitVec 2) (core : Data2PacketsTop) (level : Nat)
    (hdr0 hdr1 : Word64) (wr : Bool) (wusedw : Nat) :
    RxFormer.step sampleWidth ⟨core, ⟨List.replicate level 0, 0⟩⟩ ⟨hdr0, hdr1, wr, 0, wusedw⟩ =
      ⟨core.step sampleWidth ⟨hdr0, hdr1, wusedw, level, 0⟩,
        ⟨List.replicate (nextLevel core.smplBuffRdreq wr level) 0, 0⟩⟩ := by
  have hitems : Fifo.popped core.smplBuffRdreq (List.replicate level (0 : Word64)) ++
      Fifo.pushed smplBuffWords wr [0] (List.replicate level 0) =
      List.replicate (nextLevel core.smplBuffRdreq wr level) 0 := by
    rw [nextLevel, ← List.replicate_append_replicate]
    congr 1
    · cases core.smplBuffRdreq with
      | false => rfl
      | true => exact List.tail_replicate
    · simp only [Fifo.pushed, List.length_replicate, List.length_singleton]
      split <;> rfl
  have hq : (if core.smplBuffRdreq then ((List.replicate level (0 : Word64)).head?).getD 0
      else 0) = 0 := by
    cases level <;> cases core.smplBuffRdreq <;> rfl
  have hin : RxFormer.pctIn ⟨core, ⟨List.replicate level 0, 0⟩⟩ ⟨hdr0, hdr1, wr, 0, wusedw⟩ =
      ⟨hdr0, hdr1, wusedw, level, 0⟩ := by
    show PctIn.mk _ _ _ _ _ = _
    rw [List.length_replicate]
  have hfifo : Fifo.step smplBuffWords false wr [0] core.smplBuffRdreq
      ⟨List.replicate level (0 : Word64), 0⟩ = ⟨_, 0⟩ := congr (congrArg Fifo.mk hitems) hq
  rw [RxFormer.step, hin, hfifo]

/-- The system with its fill levels in place of the FIFOs, and the words written so far. -/
structure RxFill where
  core : Data2PacketsTop
  level : Nat
  pctLevel : Nat
  wrote : Nat

namespace RxFill

def step (sampleWidth : BitVec 2) (s : RxFill) (i : RxIn) : RxFill where
  core := s.core.step sampleWidth ⟨i.pctHdr0, i.pctHdr1, s.pctLevel, s.level, 0⟩
  level := nextLevel s.core.smplBuffRdreq i.smplWrreq s.level
  pctLevel := s.pctLevel - i.drained +
    if s.core.pctBuffWrreq && decide (s.pctLevel < pctBuffWords) then 1 else 0
  wrote := s.wrote + s.core.pctBuffWrreq.toNat

def machine (sampleWidth : BitVec 2) : Machine RxFill RxIn := ⟨⟨.init, 0, 0, 0⟩, step sampleWidth⟩

end RxFill

def halfRate (n : Nat) : RxIn := ⟨0, 0, n % 2 == 0, 0, 1024⟩

abbrev fillAt (sampleWidth : BitVec 2) (n : Nat) : RxFill :=
  (RxFill.machine sampleWidth).state halfRate n

theorem former_fill (sampleWidth : BitVec 2) (n : Nat) :
    (packetsAt sampleWidth halfRate n).former =
        ⟨(fillAt sampleWidth n).core, ⟨List.replicate (fillAt sampleWidth n).level 0, 0⟩⟩ ∧
      (packetsAt sampleWidth halfRate n).pctBuff.length = (fillAt sampleWidth n).pctLevel := by
  induction n with
  | zero => exact ⟨rfl, rfl⟩
  | succ n ih =>
    obtain ⟨hformer, hlevel⟩ := ih
    refine ⟨?_, ?_⟩
    · show (packetsAt sampleWidth halfRate n).former.step sampleWidth
        ((packetsAt sampleWidth halfRate n).formIn (halfRate n)) = _
      rw [RxPackets.formIn, hformer, hlevel]
      exact former_step_zeros sampleWidth _ _ 0 0 _ _
    · show ((packetsAt sampleWidth halfRate n).pctBuff.drop 1024 ++
        (packetsAt sampleWidth halfRate n).pushed).length = _
      rw [List.length_append, List.length_drop, hlevel, RxPackets.pushed, hformer, hlevel]
      show _ = (fillAt sampleWidth n).pctLevel - 1024 +
        if (fillAt sampleWidth n).core.pctBuffWrreq &&
          decide ((fillAt sampleWidth n).pctLevel < pctBuffWords) then 1 else 0
      split <;> rfl

theorem written_length_fill (sampleWidth : BitVec 2) (n : Nat) :
    ((RxFormer.machine sampleWidth).log RxFormer.written (formInAt sampleWidth halfRate) n).length =
      (fillAt sampleWidth n).wrote := by
  induction n with
  | zero => rfl
  | succ n ih =>
    have hstate : (RxFormer.machine sampleWidth).state (formInAt sampleWidth halfRate) n = _ :=
      (former_eq sampleWidth n).symm.trans (former_fill sampleWidth n).1
    rw [Machine.log_succ, List.length_append, ih, RxFormer.written, hstate]
    show _ = (fillAt sampleWidth n).wrote + (fillAt sampleWidth n).core.pctBuffWrreq.toNat
    cases (fillAt sampleWidth n).core.pctBuffWrreq <;> rfl

/-! ## The fourth code -/

/-- All that was read has been packed and has left, and `data2packets` waits for more. -/
structure Stuck (s : Data2PacketsTop) : Prop where
  fsm : s.inst0.currentState = .waitData2packetsDone
  done : s.inst0Data2packetsDone = false
  inst2 : s.inst2.currentState = .s0
  pctWrreqInt : s.inst2.pctWrreqInt = false
  pctBuffWrreq : s.pctBuffWrreq = false
  dataInValid : s.inst1DataInValid = false
  word640 : s.inst1.inst0.word640Valid = false
  word641 : s.inst1.inst0.word641Valid = false
  word642 : s.inst1.inst0.word642Valid = false
  inst0 : s.inst1.inst0.dataOutValidReg = false
  mux0 : s.inst1.mux0DataOutValidReg = false
  mux1 : s.inst1DataOutValid = false

instance (s : Data2PacketsTop) : Decidable (Stuck s) :=
  decidable_of_iff (s.inst0.currentState = .waitData2packetsDone ∧
      s.inst0Data2packetsDone = false ∧ s.inst2.currentState = .s0 ∧
      s.inst2.pctWrreqInt = false ∧ s.pctBuffWrreq = false ∧ s.inst1DataInValid = false ∧
      s.inst1.inst0.word640Valid = false ∧ s.inst1.inst0.word641Valid = false ∧
      s.inst1.inst0.word642Valid = false ∧ s.inst1.inst0.dataOutValidReg = false ∧
      s.inst1.mux0DataOutValidReg = false ∧ s.inst1DataOutValid = false)
    ⟨fun ⟨h1, h2, h3, h4, h5, h6, h7, h8, h9, h10, h11, h12⟩ =>
      ⟨h1, h2, h3, h4, h5, h6, h7, h8, h9, h10, h11, h12⟩,
    fun h => ⟨h.fsm, h.done, h.inst2, h.pctWrreqInt, h.pctBuffWrreq, h.dataInValid, h.word640,
      h.word641, h.word642, h.inst0, h.mux0, h.mux1⟩⟩

theorem Stuck.no_read {s : Data2PacketsTop} (h : Stuck s) : s.smplBuffRdreq = false := by
  rw [Data2PacketsTop.smplBuffRdreq, Data2PacketsFsm.smplBuffRdreq, h.fsm]
  rfl

/-- No input and no setting gets it going again. -/
theorem Stuck.step {s : Data2PacketsTop} (h : Stuck s) (sampleWidth : BitVec 2) (i : PctIn) :
    Stuck (s.step sampleWidth i) where
  fsm := by
    show s.inst0.next s.inst0SmplBuffRdy s.inst0Data2packetsDone = _
    rw [Data2PacketsFsm.next, h.fsm, h.done]
    rfl
  done := by
    show (s.inst2.pctState s.inst1DataOutValid == 0) = false
    rw [Data2Packets.pctState, h.inst2]
    rfl
  inst2 := by
    show s.inst2.next s.inst1DataOutValid = _
    rw [Data2Packets.next, h.inst2, h.mux1]
    exact if_neg fun hand => Bool.false_ne_true hand.2
  pctWrreqInt := by
    show (s.inst1DataOutValid || s.inst2.currentState == .s2) = false
    rw [h.mux1, h.inst2]
    rfl
  pctBuffWrreq := by
    show (s.inst2.pctWrreqInt && s.inst0.pctBuffWrDisSig) = false
    rw [h.pctWrreqInt, Bool.false_and]
  dataInValid := h.no_read
  word640 := by
    show (decide (s.inst1.inst0.wrCnt = 1) && s.inst1DataInValid) = false
    rw [h.dataInValid, Bool.and_false]
  word641 := by
    show (decide (s.inst1.inst0.wrCnt = 2) && s.inst1DataInValid) = false
    rw [h.dataInValid, Bool.and_false]
  word642 := by
    show (decide (s.inst1.inst0.wrCnt = 3) && s.inst1DataInValid) = false
    rw [h.dataInValid, Bool.and_false]
  inst0 := by
    show (s.inst1.inst0.word640Valid || s.inst1.inst0.word641Valid ||
      s.inst1.inst0.word642Valid) = false
    rw [h.word640, h.word641, h.word642]
    rfl
  mux0 := by
    show (if BitPack.mux0Sel sampleWidth then s.inst1.inst0.dataOutValidReg else false) = false
    rw [h.inst0, ite_self]
  mux1 := by
    show (if BitPack.mux1Sel sampleWidth then s.inst1.mux0DataOutValidReg
      else s.inst1DataInValid) = false
    rw [h.mux0, h.dataInValid, ite_self]

section stuck

variable {sampleWidth : BitVec 2} {x : Nat → FormIn} {n : Nat}

theorem stuck_add (h : Stuck (formerAt sampleWidth x n).core) (k : Nat) :
    Stuck (formerAt sampleWidth x (n + k)).core := by
  induction k with
  | zero => exact h
  | succ k ih => exact ih.step sampleWidth _

/-- Nothing more is written. -/
theorem written_stuck (h : Stuck (formerAt sampleWidth x n).core) (k : Nat) :
    (RxFormer.machine sampleWidth).log RxFormer.written x (n + k) =
      (RxFormer.machine sampleWidth).log RxFormer.written x n := by
  induction k with
  | zero => rfl
  | succ k ih =>
    rw [← Nat.add_assoc, Machine.log_succ, ih, RxFormer.written, (stuck_add h k).pctBuffWrreq]
    exact List.append_nil _

end stuck

theorem stuck_halfRate : Stuck (formerAt 3 (formInAt 3 halfRate) 1546).core ∧
    ((RxFormer.machine 3).log RxFormer.written (formInAt 3 halfRate) 1546).length = 382 := by
  rw [← former_eq, (former_fill 3 1546).1, written_length_fill]
  decide +kernel

/-- What has been written is no list of whole packets, and stays so. -/
theorem not_packetStream_three : ¬ PacketStream 3 halfRate := by
  intro h
  obtain ⟨hstuck, hwrote⟩ := stuck_halfRate
  obtain ⟨k, hk, ts, hwhole, hsize⟩ := h.whole 1546
  obtain ⟨j, rfl⟩ : ∃ j, k = 1546 + j := ⟨k - 1546, by omega⟩
  have hlen := congrArg List.length hwhole.written
  have hpackets : ((ts.filter (isWritten 3 (formInAt 3 halfRate))).flatMap
      (packetAt 3 (formInAt 3 halfRate))).length = 512 * _ :=
    Repeats.length_flatMap fun t ht => (hsize t (List.mem_filter.1 ht).1).2
  rw [written_stuck hstuck, hwrote, hpackets] at hlen
  omega

section w14

variable {x : Nat → RxIn}

/-- No word leaves `bit_pack`, and none is written. -/
theorem silent_w14 (n : Nat) : (packetsAt 1 x n).former.core.inst1.Quiet .w14 ∧
    (packetsAt 1 x n).former.core.inst2.currentState = .idle ∧
    (packetsAt 1 x n).former.core.inst2.pctWrreqInt = false ∧
    (packetsAt 1 x n).former.core.pctBuffWrreq = false ∧ (packetsAt 1 x n).pctBuff = [] := by
  induction n with
  | zero => exact ⟨BitPack.quiet_init _, rfl, rfl, rfl, rfl⟩
  | succ n ih =>
    obtain ⟨hquiet, hidle, hint, hwr, hnil⟩ := ih
    have hvalid : (packetsAt 1 x n).former.core.inst1DataOutValid = false := hquiet.dataOutValid
    refine ⟨⟨hquiet.2, rfl⟩, ?_, ?_, ?_, ?_⟩
    · show (packetsAt 1 x n).former.core.inst2.next _ = .idle
      rw [Data2Packets.next, hidle, hvalid]
      rfl
    · show ((packetsAt 1 x n).former.core.inst1DataOutValid ||
        (packetsAt 1 x n).former.core.inst2.currentState == .s2) = false
      rw [hidle, hvalid]
      rfl
    · show ((packetsAt 1 x n).former.core.inst2.pctWrreqInt && _) = false
      rw [hint, Bool.false_and]
    · show (packetsAt 1 x n).pctBuff.drop (x n).drained ++ (packetsAt 1 x n).pushed = []
      rw [RxPackets.pushed, hwr, hnil, List.drop_nil]
      rfl

theorem written_w14 (n : Nat) :
    (RxFormer.machine 1).log RxFormer.written (formInAt 1 x) n = [] := by
  induction n with
  | zero => rfl
  | succ n ih =>
    have hstate : (RxFormer.machine 1).state (formInAt 1 x) n = _ := (former_eq 1 n).symm
    rw [Machine.log_succ, ih, RxFormer.written, hstate, (silent_w14 n).2.2.2.1]
    rfl

/-- A cycle finds room. -/
theorem isWritten_w14 {n : Nat}
    (h : (formerAt WidthSetting.w14 (formInAt 1 x) n).core.inst0.currentState = .checkPctBuff) :
    isWritten 1 (formInAt 1 x) n = true := by
  obtain ⟨u, ts, rfl, hidle, -, -⟩ := ran_of_check h
  have hlimit : (formerAt 1 (formInAt 1 x) u).core.pctBuffWrusedwMaxLimit = 896 :=
    hidle.settled.maxLimit
  show decide ((packetsAt 1 x u).pctBuff.length <
    (formerAt 1 (formInAt 1 x) u).core.pctBuffWrusedwMaxLimit) = true
  rw [(silent_w14 u).2.2.2.2, hlimit]
  rfl

/-- What is asked holds only of runs in which no cycle ever begins. -/
theorem no_check_of_packetStream (h : PacketStream 1 x) (n : Nat) :
    (packetsAt 1 x n).former.core.inst0.currentState ≠ .checkPctBuff := by
  rw [former_eq]
  intro hcheck
  have hread : (RxFormer.machine 1).log RxFormer.consumed (formInAt 1 x) (n + 2) ≠ [] :=
    consumed_of_check (show (formerAt WidthSetting.w14 _ n).core.inst0.currentState = _ from hcheck)
  obtain ⟨k, hk, ts, hwhole, -⟩ := h.whole (n + 2)
  have hnone : ts = [] := by
    cases ts with
    | nil => rfl
    | cons t ts =>
      have ht := isWritten_w14 (hwhole.checks t List.mem_cons_self)
      have hwritten := hwhole.written
      rw [written_w14, List.filter_cons_of_pos ht, List.flatMap_cons] at hwritten
      exact nomatch hwritten
  have hgrow := (RxFormer.machine 1).log_grows RxFormer.consumed (formInAt 1 x) hk
  rw [hwhole.consumed, hnone, List.flatMap_nil] at hgrow
  exact hread (List.prefix_nil.1 hgrow)

end w14

theorem check_halfRate :
    (packetsAt 1 halfRate 292).former.core.inst0.currentState = .checkPctBuff := by
  rw [(former_fill 1 292).1]
  decide +kernel

/-! ## What holds at which code -/

theorem halfRate_alternates (n : Nat) (h : (halfRate n).smplWrreq = true) :
    (halfRate (n + 1)).smplWrreq = false := by
  have h0 : n % 2 = 0 := by simpa [halfRate] using h
  have h1 : (n + 1) % 2 ≠ 0 := by omega
  simpa [halfRate] using h1

theorem code_cases (sampleWidth : BitVec 2) :
    sampleWidth = 0 ∨ sampleWidth = 1 ∨ sampleWidth = 2 ∨ sampleWidth = 3 := by
  revert sampleWidth
  decide

/-- The stream of RX packets is whole, for all sample words at half the clock and every host, with
    12-bit and with 16-bit samples and with no other code of `sample_width`. -/
theorem rx_packet_stream (sampleWidth : BitVec 2) :
    (∀ x : Nat → RxIn, (∀ n, (x n).smplWrreq = true → (x (n + 1)).smplWrreq = false) →
      PacketStream sampleWidth x) ↔ sampleWidth = 0 ∨ sampleWidth = 2 := by
  refine ⟨?_, ?_⟩
  · intro hall
    have hrun := hall halfRate halfRate_alternates
    obtain rfl | rfl | rfl | rfl := code_cases sampleWidth
    · exact .inl rfl
    · exact absurd check_halfRate (no_check_of_packetStream hrun 292)
    · exact .inr rfl
    · exact absurd hrun not_packetStream_three
  · rintro (rfl | rfl) x -
    · exact show PacketStream WidthSetting.w16 x from packetStream (by decide)
    · exact show PacketStream WidthSetting.w12 x from packetStream (by decide)

/-- Neither code brings whole packets, with a sample word in every second clock. -/
theorem rx_packet_stream_halfRate : ¬ PacketStream 1 halfRate ∧ ¬ PacketStream 3 halfRate :=
  ⟨fun h => no_check_of_packetStream h 292 check_halfRate, not_packetStream_three⟩

end Rx
