import LimeSdrGw.Clocked.Repeats
import LimeSdrGw.Rx.Formation
/-
# The stream of RX packets

Cycle follows cycle, each of them complete in itself. So what has been read is a list of whole cycles,
what has been written is a list of whole packets, and a packet that finds no room is left out whole.

| here | there |
| --- | --- |
| `cycleStarts`  | data2packets_fsm.vhd: the clocks in which a cycle begins |
| `samplesAt`    | the sample words read in a cycle |
| `packetAt`     | data2packets.vhd:129-195: header words, then the payload |
| `isWritten`    | data2packets_top.vhd:246-292, data2packets_fsm.vhd:72-86: `pct_buff_wr_dis` |
-/
namespace Rx

open Clocked Tx

section former

variable (sampleWidth : BitVec 2) (x : Nat → FormIn)

/-- The state in clock `n`. -/
abbrev formerAt (n : Nat) : RxFormer := (RxFormer.machine sampleWidth).state x n

/-- The sample words read in the cycle that begins in clock `t`. -/
def samplesAt (t : Nat) : List Word64 :=
  cycleSamples sampleWidth (formerAt sampleWidth x t) fun k => x (t + k)

/-- The packet they should make: the header words as they are `hdrAge` clocks later, and the samples
    packed at the width set. -/
def packetAt (t : Nat) : List Word64 :=
  (x (t + hdrAge sampleWidth)).pctHdr0 :: (x (t + hdrAge sampleWidth)).pctHdr1 ::
    packing sampleWidth (samplesAt sampleWidth x t)

/-- `pct_buff_rdy` where it is looked at: the packet is to be written, not suppressed. -/
def isWritten (t : Nat) : Bool := (formerAt sampleWidth x t).core.inst0PctBuffRdy

/-- Up to clock `n` there were the cycles that began in the clocks `ts`, and no other reads. -/
structure Cycles (n : Nat) (ts : List Nat) : Prop where
  checks : ∀ t ∈ ts, (formerAt sampleWidth x t).core.inst0.currentState = .checkPctBuff
  apart : ts.Pairwise fun t u => t + cycle sampleWidth ≤ u
  past : ∀ t ∈ ts, t + cycle sampleWidth ≤ n
  consumed : (RxFormer.machine sampleWidth).log RxFormer.consumed x n =
    ts.flatMap (samplesAt sampleWidth x)
  count : ∀ j (hj : j < ts.length),
    ((RxFormer.machine sampleWidth).log RxFormer.consumed x ts[j]).length =
      smplRdSize sampleWidth * j

/-- And what was written are their packets, each of them whole or left out. -/
structure Whole (n : Nat) (ts : List Nat) : Prop extends Cycles sampleWidth x n ts where
  written : (RxFormer.machine sampleWidth).log RxFormer.written x n =
    (ts.filter (isWritten sampleWidth x)).flatMap (packetAt sampleWidth x)

end former

section former

/-- `Whole` as it comes about: with 14-bit samples nothing is written. -/
structure Ran (wd : WidthSetting) (x : Nat → FormIn) (n : Nat) (ts : List Nat) : Prop
    extends Cycles wd x n ts where
  starts : ∀ t ∈ ts, Starts wd (formerAt wd x t)
  written : (RxFormer.machine wd).log RxFormer.written x n =
    if wd = .w14 then [] else (ts.filter (isWritten wd x)).flatMap (packetAt wd x)

variable {wd : WidthSetting} {x : Nat → FormIn}

theorem Ran.whole {n : Nat} {ts : List Nat} (h : Ran wd x n ts) (hwd : wd ≠ .w14) :
    Whole wd x n ts :=
  ⟨h.toCycles, h.written.trans (if_neg hwd)⟩

theorem formerAt_add (t a : Nat) : formerAt wd x (t + a) =
    cycleAt wd (formerAt wd x t) (fun k => x (t + k)) a := Machine.state_add _ x t a

theorem madePacket_eq {t : Nat} (h : Starts wd (formerAt wd x t)) (hwd : wd ≠ .w14) :
    madePacket wd (formerAt wd x t) (fun k => x (t + k)) = packetAt wd x t := by
  rw [madePacket, packetAt, payload_eq h, samplesAt, packing_code hwd]

/-- Two clocks after the start everything is at rest. -/
theorem idle_two : Idle wd (formerAt wd x 2) where
  settled := by
    refine ⟨rfl, ?_, rfl, rfl, ?_, ?_⟩
    · show (pctBuffWrusedwMaxWords + 2048 - pctSize wd.code) % 2048 = _
      cases wd <;> rfl
    · show (smplRdSize wd.code + 4094) % 4096 = _
      cases wd <;> rfl
    · show (pctSize wd.code + 2044) % 2048 = _
      cases wd <;> rfl
  dataInValid := rfl
  pack := ((BitPack.quiet_init wd).step _).step _
  making := by cases wd <;> exact .rest rfl rfl rfl
  wrreq := rfl
  fsm := rfl
  rdusedwReg := smplBuff_length_le wd (formerAt wd x 1) (x 1)
  enough := by
    intro h
    have hlt := of_decide_eq_true (show decide (smplRdSize wd.code < 0) = true from h)
    exact absurd hlt (Nat.not_lt_zero _)

theorem ran_two : Ran wd x 2 [] := by
  refine ⟨⟨nofun, List.Pairwise.nil, nofun, rfl, nofun⟩, nofun, ?_⟩
  rw [List.filter_nil, List.flatMap_nil, ite_self]
  rfl

/-- A clock at rest changes nothing. -/
theorem Ran.rest {n : Nat} {ts : List Nat} (h : Ran wd x n ts) (hidle : Idle wd (formerAt wd x n)) :
    Ran wd x (n + 1) ts where
  checks := h.checks
  starts := h.starts
  apart := h.apart
  past t ht := Nat.le_succ_of_le (h.past t ht)
  consumed := by
    have hrd : (formerAt wd x n).core.smplBuffRdreq = false := by
      rw [Data2PacketsTop.smplBuffRdreq, Data2PacketsFsm.smplBuffRdreq, hidle.fsm]
      rfl
    rw [Machine.log_succ, h.consumed, RxFormer.consumed, hrd]
    exact List.append_nil _
  written := by
    rw [Machine.log_succ, h.written, RxFormer.written, Data2PacketsTop.pctBuffWrreq, hidle.wrreq]
    exact List.append_nil _
  count := h.count

theorem samplesAt_length {t : Nat} (h : Starts wd (formerAt wd x t)) :
    (samplesAt wd x t).length = smplRdSize wd := cycleSamples_length h

theorem Ran.samples_length {n : Nat} {ts : List Nat} (h : Ran wd x n ts) :
    (ts.flatMap (samplesAt wd x)).length = smplRdSize wd * ts.length :=
  Repeats.length_flatMap fun t ht => samplesAt_length (h.starts t ht)

/-- A cycle writes its packet, or nothing. -/
theorem written_packet {t : Nat} (h : Starts wd (formerAt wd x t)) :
    ((RxFormer.machine wd).startAt (formerAt wd x t)).log RxFormer.written (fun k => x (t + k))
        (cycle wd) =
      if wd = .w14 then [] else ([t].filter (isWritten wd x)).flatMap (packetAt wd x) := by
  rw [written_cycle h]
  by_cases hwd : wd = .w14
  · rw [if_pos hwd, if_neg fun hand => hand.2 hwd]
  · rw [if_neg hwd, madePacket_eq h hwd]
    cases hw : isWritten wd x t with
    | true =>
      rw [if_pos ⟨hw, hwd⟩, List.filter_cons_of_pos hw, List.filter_nil, List.flatMap_singleton]
    | false =>
      have hno : ¬ ((formerAt wd x t).core.inst0PctBuffRdy = true ∧ wd ≠ .w14) :=
        fun hand => Bool.false_ne_true (hw.symm.trans hand.1)
      rw [if_neg hno, List.filter_cons_of_neg (by rw [hw]; decide), List.filter_nil]
      rfl

/-- A cycle adds its samples and its packet. -/
theorem Ran.cycle {t : Nat} {ts : List Nat} (h : Ran wd x t ts) (hst : Starts wd (formerAt wd x t)) :
    Ran wd x (t + cycle wd) (ts ++ [t]) where
  checks u hu := by
    rcases List.mem_append.1 hu with hu | hu
    · exact h.checks u hu
    · rw [List.mem_singleton.1 hu]
      exact hst.fsm
  starts u hu := by
    rcases List.mem_append.1 hu with hu | hu
    · exact h.starts u hu
    · rw [List.mem_singleton.1 hu]
      exact hst
  apart := by
    rw [List.pairwise_append]
    refine ⟨h.apart, List.pairwise_singleton _ _, ?_⟩
    intro u hu v hv
    rw [List.mem_singleton.1 hv]
    exact h.past u hu
  past u hu := by
    rcases List.mem_append.1 hu with hu | hu
    · exact Nat.le_trans (h.past u hu) (Nat.le_add_right _ _)
    · exact Nat.le_of_eq (congrArg (· + Rx.cycle wd) (List.mem_singleton.1 hu))
  consumed := by
    rw [Machine.log_add, h.consumed, List.flatMap_append, List.flatMap_singleton]
    rfl
  written := by
    rw [Machine.log_add, h.written, written_packet hst]
    split
    · rfl
    · rw [List.filter_append, List.flatMap_append]
  count j hj := by
    rw [List.length_append, List.length_singleton] at hj
    obtain hlt | rfl : j < ts.length ∨ j = ts.length := by omega
    · rw [List.getElem_append_left hlt]
      exact h.count j hlt
    · rw [List.getElem_concat_length rfl, h.consumed]
      exact h.samples_length

/-- Where a run is in clock `n`. -/
inductive Located (wd : WidthSetting) (x : Nat → FormIn) (n : Nat) : Prop
  | idle (ts : List Nat) (h : Ran wd x n ts) (hidle : Idle wd (formerAt wd x n))
  | busy (u a : Nat) (ts : List Nat) (hn : n = u + 1 + a) (hu : 2 ≤ u) (ha : a < cycle wd)
      (hidle : Idle wd (formerAt wd x u)) (hst : Starts wd (formerAt wd x (u + 1)))
      (h : Ran wd x (u + 1) ts)

variable (wd x) in
theorem located (n : Nat) : Located wd x (n + 2) := by
  induction n with
  | zero => exact .idle [] ran_two idle_two
  | succ n ih =>
    cases ih with
    | idle ts h hidle =>
      rcases hidle.step (x (n + 2)) with hnext | hnext
      · exact .idle ts (h.rest hidle) hnext
      · have hcyc : 0 < cycle wd := by cases wd <;> decide
        exact .busy (n + 2) 0 ts rfl (Nat.le_add_left 2 n) hcyc hidle hnext (h.rest hidle)
    | busy u a ts hn hu ha hidle hst h =>
      obtain hlt | heq : a + 1 < cycle wd ∨ a + 1 = cycle wd := by omega
      · exact .busy u (a + 1) ts (by omega) hu hlt hidle hst h
      · have hend : n + 1 + 2 = u + 1 + cycle wd := by omega
        rw [hend]
        have hidle' := hst.ends (y := fun k => x (u + 1 + k))
        rw [← formerAt_add] at hidle'
        exact .idle _ (h.cycle hst) hidle'

variable (wd x) in
/-- Never more than one cycle away from rest. -/
theorem ran_soon (n : Nat) : ∃ k, n ≤ k ∧ ∃ ts, Ran wd x k ts := by
  cases located wd x n with
  | idle ts h hidle => exact ⟨n + 2, by omega, ts, h⟩
  | busy u a ts hn hu ha hidle hst h => exact ⟨u + 1 + cycle wd, by omega, _, h.cycle hst⟩

/-- A clock in which `pct_buff_rdy` is looked at begins a cycle, and ends what was before. -/
theorem ran_of_check {n : Nat} (h : (formerAt wd x n).core.inst0.currentState = .checkPctBuff) :
    ∃ u ts, n = u + 1 ∧ Idle wd (formerAt wd x u) ∧ Starts wd (formerAt wd x n) ∧ Ran wd x n ts := by
  match n with
  | 0 => exact nomatch h
  | 1 => exact nomatch h
  | n + 2 =>
    cases located wd x n with
    | idle ts hw hidle => exact absurd (hidle.fsm.symm.trans h) nofun
    | busy u a ts hn hu ha hidle hst hw =>
      have hat := onTime (y := fun k => x (u + 1 + k)) hst (Nat.le_of_lt ha) a (Nat.le_refl a)
      rw [← formerAt_add, ← hn] at hat
      obtain rfl | hpos : a = 0 ∨ 1 ≤ a := by omega
      · rw [hn]
        exact ⟨u, ts, rfl, hidle, hst, hw⟩
      · obtain hle | hgt : a ≤ smplRdSize wd.code ∨ smplRdSize wd.code < a := by omega
        · exact absurd ((hat.rd hpos hle).symm.trans h) nofun
        · exact absurd ((hat.wait hgt ha).symm.trans h) nofun

theorem starts_of_check {n : Nat} (h : (formerAt wd x n).core.inst0.currentState = .checkPctBuff) :
    Starts wd (formerAt wd x n) := by
  obtain ⟨u, ts, -, -, hst, -⟩ := ran_of_check h
  exact hst

theorem Cycles.starts {n : Nat} {ts : List Nat} (h : Cycles wd x n ts) {t : Nat} (ht : t ∈ ts) :
    Starts wd (formerAt wd x t) := starts_of_check (h.checks t ht)

/-- A packet FIFO that is never more than half full takes every packet. -/
theorem Whole.all_written {n : Nat} {ts : List Nat} (h : Whole wd x n ts)
    (hlow : ∀ k, (x k).pctBuffWrusedw < 512) :
    (RxFormer.machine wd).log RxFormer.written x n = ts.flatMap (packetAt wd x) := by
  rw [h.written, List.filter_eq_self.2]
  intro t ht
  obtain ⟨u, -, rfl, hidle, -, -⟩ := ran_of_check (h.checks t ht)
  have hlimit : 512 ≤ (formerAt wd x u).core.pctBuffWrusedwMaxLimit := by
    rw [hidle.settled.maxLimit]
    cases wd <;> decide
  exact decide_eq_true (Nat.lt_of_lt_of_le (hlow u) hlimit)

/-- `pct_buff_wr_dis` changes only where `pct_buff_rdy` is looked at. -/
theorem check_of_wrDis {sampleWidth : BitVec 2} {n : Nat}
    (hne : (formerAt sampleWidth x (n + 1)).core.inst0.pctBuffWrDisSig ≠
      (formerAt sampleWidth x n).core.inst0.pctBuffWrDisSig) :
    (formerAt sampleWidth x n).core.inst0.currentState = .checkPctBuff := by
  apply Decidable.of_not_not
  intro hst
  exact hne (if_neg hst)

/-- A header is captured `hdrAge` clocks into a cycle, when it is settled whether the packet is
    written. -/
theorem starts_of_regLd {n : Nat} (h : (formerAt wd x n).core.inst2.regLd
    (formerAt wd x n).core.inst1DataOutValid = true) : ∃ t, t + hdrAge wd = n ∧
    Starts wd (formerAt wd x t) ∧
    isWritten wd x t = (formerAt wd x n).core.inst0.pctBuffWrDisSig ∧ wd ≠ .w14 := by
  obtain ⟨hst, hv⟩ := Bool.and_eq_true_iff.1 h
  have hst := eq_of_beq hst
  rcases n with _ | _ | n
  · cases hv
  · cases ((BitPack.quiet_init wd).step _).dataOutValid.symm.trans hv
  · cases located wd x n with
    | idle ts hw hidle => cases hidle.pack.dataOutValid.symm.trans hv
    | busy u a ts hn hu ha hidle hstart hw =>
      rw [hn, formerAt_add] at hst hv ⊢
      have ht := onTime (y := fun k => x (u + 1 + k)) hstart (Nat.le_of_lt ha)
      have hlen := payload_length hstart ht (Nat.le_of_lt ha) (b := a + 1) (by omega)
      have hle := packCnt_le wd (a + 1 - wd.lat - 2)
      have hmake := making_at hstart ht ha (b := a) (by omega)
      have hnil : payload wd (formerAt wd x (u + 1)) (fun k => x (u + 1 + k)) a = [] := by
        rcases hmake.idle_iff.1 hst with h0 | hend
        · exact List.eq_nil_of_length_eq_zero h0
        · -- all words have come, and here is another one
          have hfull := hmake.emitted
          have hlen' := payload_length hstart ht (Nat.le_of_lt ha) (b := a) (by omega)
          have hle' := packCnt_le wd (a - wd.lat - 2)
          rw [payload_succ, hv, List.length_append, validWord, if_pos rfl,
            List.length_singleton] at hlen
          split at hfull
          next hk => omega
          next => omega
      have hage := hdrAge_eq hstart ht (Nat.le_of_lt ha) (by omega) hnil hv
      have hwd : wd ≠ .w14 := by
        rintro rfl
        rw [payload_succ, hv, List.length_append, validWord, if_pos rfl, WidthSetting.packCnt] at hlen
        simp at hlen
      refine ⟨u + 1, by rw [hage], hstart, ?_, hwd⟩
      rw [isWritten]
      subst hage
      cases wd with
      | w12 => exact (wrDis_at hstart (a := 6) (by decide)).symm
      | w14 => exact absurd rfl hwd
      | w16 => exact (wrDis_at hstart (a := 2) (by decide)).symm

theorem packetAt_length {t : Nat} (h : Starts wd (formerAt wd x t)) (hwd : wd ≠ .w14) :
    (packetAt wd x t).length = pctSize wd := by
  rw [← madePacket_eq h hwd]
  exact madePacket_length h hwd

end former

/-! ## The packet FIFO -/

section packets

variable {wd : WidthSetting} {x : Nat → RxIn}

/-- The system in clock `n`. -/
abbrev packetsAt (sampleWidth : BitVec 2) (x : Nat → RxIn) (n : Nat) : RxPackets :=
  (RxPackets.machine sampleWidth).state x n

/-- What the packet former sees, the fill level of the packet FIFO among it. -/
def formInAt (sampleWidth : BitVec 2) (x : Nat → RxIn) (n : Nat) : FormIn :=
  (packetsAt sampleWidth x n).formIn (x n)

theorem former_eq (sampleWidth : BitVec 2) (n : Nat) : (packetsAt sampleWidth x n).former =
    formerAt sampleWidth (formInAt sampleWidth x) n :=
  Machine.state_part (RxPackets.machine sampleWidth) RxPackets.former (RxFormer.step sampleWidth)
    RxPackets.formIn (fun _ _ => rfl) x n

variable (wd) in
/-- Only a write makes the packet FIFO longer. -/
theorem pctBuff_length_le (s : RxPackets) (i : RxIn) : (s.step wd i).pctBuff.length ≤
    s.pctBuff.length + (s.former.written (s.formIn i)).length := by
  have h : s.pushed.length ≤ (s.former.written (s.formIn i)).length := by
    rw [RxPackets.pushed, RxFormer.written, validWord]
    cases s.former.core.pctBuffWrreq with
    | false => exact Nat.le_refl _
    | true =>
      rw [if_pos rfl]
      split
      · exact Nat.le_refl _
      · exact Nat.zero_le _
  simp only [RxPackets.step, List.length_append, List.length_drop]
  omega

variable (wd x) in
theorem pctBuff_length_add (t a : Nat) : (packetsAt wd x (t + a)).pctBuff.length ≤
    (packetsAt wd x t).pctBuff.length +
      (((RxFormer.machine wd).startAt (formerAt wd (formInAt wd x) t)).log RxFormer.written
        (fun k => formInAt wd x (t + k)) a).length := by
  induction a with
  | zero => exact Nat.le_add_right _ _
  | succ a ih =>
    have hstep := pctBuff_length_le wd (packetsAt wd x (t + a)) (x (t + a))
    rw [former_eq, formerAt_add] at hstep
    rw [Machine.log_succ, List.length_append]
    show ((packetsAt wd x (t + a)).step wd (x (t + a))).pctBuff.length ≤ _
    exact Nat.le_trans hstep (Nat.le_trans (Nat.add_le_add_right ih _)
      (Nat.le_of_eq (Nat.add_assoc _ _ _)))

/-- A packet is only begun where all of it finds room. -/
theorem room {u : Nat} (hidle : Idle wd (formerAt wd (formInAt wd x) u))
    (hrdy : (formerAt wd (formInAt wd x) (u + 1)).core.inst0PctBuffRdy = true) :
    (packetsAt wd x (u + 1)).pctBuff.length + pctSize wd.code < 1024 := by
  have hlt := of_decide_eq_true (show decide ((packetsAt wd x u).pctBuff.length <
    (formerAt wd (formInAt wd x) u).core.pctBuffWrusedwMaxLimit) = true from hrdy)
  rw [hidle.settled.maxLimit] at hlt
  have hlt' : (packetsAt wd x u).pctBuff.length < 1024 - pctSize wd.code := hlt
  have hle := pctBuff_length_le wd (packetsAt wd x u) (x u)
  rw [former_eq, RxFormer.written, Data2PacketsTop.pctBuffWrreq, hidle.wrreq, validWord,
    if_neg Bool.false_ne_true, List.length_nil] at hle
  show ((packetsAt wd x u).step wd (x u)).pctBuff.length + _ < _
  omega

/-- No word is written into a full packet FIFO. -/
theorem pctBuff_not_full (n : Nat) (hwr : (packetsAt wd x n).former.core.pctBuffWrreq = true) :
    (packetsAt wd x n).pctBuff.length < pctBuffWords := by
  rw [former_eq] at hwr
  rcases n with _ | _ | n
  · cases hwr
  · cases hwr
  · cases located wd (formInAt wd x) n with
    | idle ts h hidle => cases hidle.wrreq.symm.trans hwr
    | busy u a ts hn hu ha hidle hst h =>
      have hlen := written_at (y := fun k => formInAt wd x (u + 1 + k)) hst ha
      have hlevel := pctBuff_length_add wd x (u + 1) a
      rw [hn, formerAt_add] at hwr
      rw [Machine.log_succ, RxFormer.written, hwr] at hlen
      have hcount := congrArg List.length hlen
      rw [List.length_append, validWord, if_pos rfl, List.length_singleton] at hcount
      cases hrdy : (formerAt wd (formInAt wd x) (u + 1)).core.inst0PctBuffRdy with
      | false =>
        rw [hrdy, if_neg Bool.false_ne_true, List.length_nil] at hcount
        omega
      | true =>
        have hroom := room hidle hrdy
        have hle := emitted_le (y := fun k => formInAt wd x (u + 1 + k)) hst (Nat.le_of_lt ha)
        rw [hrdy, if_pos rfl, List.length_take] at hcount
        have hwd : wd ≠ .w14 := by
          rintro rfl
          rw [emitted_w14 hst (Nat.le_of_lt ha)] at hcount
          omega
        have hsize : pctSize wd.code = 512 := by
          cases wd with
          | w12 => rfl
          | w14 => exact absurd rfl hwd
          | w16 => rfl
        rw [hn]
        show _ < 1024
        omega

/-- No word is on its way from the sample FIFO to the packet FIFO. -/
structure Drained (s : Data2PacketsTop) : Prop where
  inst1DataInValid : s.inst1DataInValid = false
  inst1DataOutValid : s.inst1DataOutValid = false
  inst2 : s.inst2.currentState = .idle
  pctWrreqInt : s.inst2.pctWrreqInt = false
  pctBuffWrreq : s.pctBuffWrreq = false

theorem Quiet.drained {s : RxFormer} (h : Quiet wd s) : Drained s.core where
  inst1DataInValid := h.dataInValid
  inst1DataOutValid := h.pack.dataOutValid
  inst2 := h.making.idle_iff.2 (.inl rfl)
  pctWrreqInt := h.making.rest_wrreq
  pctBuffWrreq := h.wrreq

/-- What is asked of a run: at clocks as late as one likes, what has been read is a list of whole
    cycles and what has been written the packets of those that are not suppressed, each of them whole;
    `pct_buff_wr_dis` changes only where that is so, with nothing on its way; no word is written into
    a full FIFO. -/
structure PacketStream (sampleWidth : BitVec 2) (x : Nat → RxIn) : Prop where
  whole : ∀ n, ∃ k, n ≤ k ∧ ∃ ts, Whole sampleWidth (formInAt sampleWidth x) k ts ∧
    ∀ t ∈ ts, (samplesAt sampleWidth (formInAt sampleWidth x) t).length = smplRdSize sampleWidth ∧
      (packetAt sampleWidth (formInAt sampleWidth x) t).length = pctSize sampleWidth
  steady : ∀ n, (packetsAt sampleWidth x (n + 1)).former.core.inst0.pctBuffWrDisSig ≠
      (packetsAt sampleWidth x n).former.core.inst0.pctBuffWrDisSig →
    Drained (packetsAt sampleWidth x n).former.core ∧
      ∃ ts, Whole sampleWidth (formInAt sampleWidth x) n ts
  room : ∀ n, (packetsAt sampleWidth x n).former.core.pctBuffWrreq = true →
    (packetsAt sampleWidth x n).pctBuff.length < pctBuffWords

theorem packetStream (hwd : wd ≠ .w14) : PacketStream wd x where
  whole n := by
    obtain ⟨k, hk, ts, h⟩ := ran_soon wd (formInAt wd x) n
    refine ⟨k, hk, ts, h.whole hwd, fun t ht => ?_⟩
    exact ⟨samplesAt_length (h.starts t ht), packetAt_length (h.starts t ht) hwd⟩
  steady n hne := by
    rw [former_eq, former_eq] at hne
    obtain ⟨-, ts, -, -, hst, hran⟩ := ran_of_check (check_of_wrDis hne)
    rw [former_eq]
    exact ⟨hst.drained, ts, hran.whole hwd⟩
  room := pctBuff_not_full

end packets

end Rx
