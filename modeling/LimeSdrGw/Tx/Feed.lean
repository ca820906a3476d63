import LimeSdrGw.Tx.Packets2data
/-
# `one_pct_fifo` between two packets

The phases `one_pct_fifo` goes through with every packet, each as a predicate on the whole path:
nothing stored (`Idle`), the packet coming in (`Load`), `p2d_wr_fsm` reading it (`Drain`), the FIFO
empty but `pct_separate_fsm` not yet back (`Drained`). `coming` is the part of the stream that
`p2d_wr_fsm` has not begun to read.
-/
namespace Tx

open Clocked

namespace Feed

/-- No header is on its way to `pct_words`. -/
structure HdrNone (o : OnePctFifo) : Prop where
  valid : o.inst0.headerValidReg = false
  stored : o.inst2.items = []
  shown : o.pctHeaderValid = false

/-- The header, captured by `pct_separate_fsm`, passes through a FIFO of its own to `pct_words`. -/
inductive HdrPath (hdr : Word128) (o : OnePctFifo) : Prop
  | captured (valid : o.inst0.headerValidReg = true) (header : o.inst0.header = hdr)
      (stored : o.inst2.items = []) (shown : o.pctHeaderValid = false) (words : o.pctWords = 65535)
  | stored (valid : o.inst0.headerValidReg = false) (stored : o.inst2.items = [hdr])
      (shown : o.pctHeaderValid = false) (words : o.pctWords = 65535)
  | shown (valid : o.inst0.headerValidReg = false) (stored : o.inst2.items = [])
      (shown : o.pctHeaderValid = true) (q : o.inst2.q = hdr) (words : o.pctWords = 65535)
  | known (none : HdrNone o) (words : o.pctWords = OnePctFifo.pctWordsOf hdr)

/-- Nothing is stored and `pct_separate_fsm` waits for the next packet. -/
structure Idle (coming : List Packet) (s : TxPath) : Prop where
  state : s.sep.currentState = .idle
  valid : s.sep.infifoDataValid = false
  wrreq : s.sep.pctWrreqReg = false
  infifo : s.infifo = coming.flatMap Packet.words
  items : s.inst0.inst1.items = []
  hdr : HdrNone s.inst0
  words : s.inst0.pctWords = 65535
  notRdy : s.inst0.pctRdyReg = false
  resetN : s.wr.inPctResetNReq = true

/-- Packet `p` comes in. -/
structure Load (p : Packet) (rest : List Packet) (s : TxPath) : Prop where
  state : s.sep.currentState = if s.sep.rdCnt ≤ p.len then .rdPct else .rdDone
  le : s.sep.rdCnt ≤ p.len + 1
  wrreq : s.sep.pctWrreqReg = s.sep.infifoDataValid
  count : s.sep.wrCnt + s.sep.infifoDataValid.toNat = s.sep.rdCnt
  max : s.sep.rdCntMax = if s.sep.wrCnt = 0 then 65535 else p.len + 1
  infifo : s.infifo = p.words.drop s.sep.rdCnt ++ rest.flatMap Packet.words
  infifoQ : s.sep.infifoDataValid = true → p.words[s.sep.wrCnt]? = some s.infifoQ
  items : s.inst0.inst1.items = p.words.take s.sep.wrCnt
  none : s.sep.wrCnt = 0 → HdrNone s.inst0 ∧ s.inst0.pctWords = 65535
  hdr : 0 < s.sep.wrCnt → HdrPath p.hdr s.inst0
  rdy : s.inst0.pctRdyReg = true → s.sep.wrCnt = p.len + 1 ∧ s.inst0.pctWords = p.len + 1
  sync0 : s.inst0.inst1ResetN.r0 = true
  sync1 : 0 < s.sep.rdCnt → s.inst0.inst1ResetN.r1 = true
  resetN : s.wr.inPctResetNReq = true

/-- `p2d_wr_fsm` has taken `r` words of the packet. -/
structure Drain (p : Packet) (r : Nat) (coming : List Packet) (s : TxPath) : Prop where
  state : s.sep.currentState = .rdDone
  valid : s.sep.infifoDataValid = false
  wrreq : s.sep.pctWrreqReg = false
  infifo : s.infifo = coming.flatMap Packet.words
  le : r ≤ p.len
  items : s.inst0.inst1.items = p.words.drop r
  hdr : HdrNone s.inst0
  words : s.inst0.pctWords = if r = 0 then p.len + 1 else 65535
  sync1 : s.inst0.inst1ResetN.r0 = true ∧ s.inst0.inst1ResetN.r1 = true
  resetN : s.wr.inPctResetNReq = true

/-- The last word has been taken, or the FIFO is being cleared. -/
structure Drained (coming : List Packet) (s : TxPath) : Prop where
  state : s.sep.currentState = .rdDone
  valid : s.sep.infifoDataValid = false
  wrreq : s.sep.pctWrreqReg = false
  infifo : s.infifo = coming.flatMap Packet.words
  stored : s.inst0.stored s.wr.inPctResetNReq = []
  hdr : HdrNone s.inst0
  words : s.inst0.pctWords = 65535
  notRdy : s.inst0.pctRdyReg = false

/-- `p2d_wr_fsm` is not reading a packet. -/
inductive Filling (coming : List Packet) (s : TxPath) : Prop
  | idle (h : Idle coming s)
  | load (p : Packet) (rest : List Packet) (eq : coming = p :: rest) (h : Load p rest s)
  | drained (h : Drained coming s)

/-! ## The header on its way -/

section header

variable {hdr : Word128} {o : OnePctFifo} {infifoData : Word128} {infifoRdempty : Bool}

/-- Neither the clears nor a read disturb the absence of a header. -/
theorem HdrNone.step (h : HdrNone o) (hv : o.inst0.headerHere = false) (resetN rdreq : Bool) :
    HdrNone (o.step infifoData infifoRdempty resetN rdreq) where
  valid := hv
  stored := by
    cases hc : o.aclr resetN <;>
      simp [OnePctFifo.step, hc, h.valid, h.stored, Fifo.popped, Fifo.step]
  shown := by
    cases hc : o.aclr resetN <;> simp [OnePctFifo.step, OnePctFifo.inst2Rdreq, hc, h.stored]

theorem HdrNone.pctWords (h : HdrNone o) (w : o.pctWords = 65535) (resetN rdreq : Bool) :
    (o.step infifoData infifoRdempty resetN rdreq).pctWords = 65535 := by
  simp [OnePctFifo.step, h.shown, w]

theorem HdrPath.pctWords_eq (h : HdrPath hdr o) :
    o.pctWords = 65535 ∨ HdrNone o ∧ o.pctWords = OnePctFifo.pctWordsOf hdr := by
  cases h with
  | captured _ _ _ _ w | stored _ _ _ w | shown _ _ _ _ w => exact .inl w
  | known n w => exact .inr ⟨n, w⟩

theorem HdrPath.step (h : HdrPath hdr o) (hv : o.inst0.headerHere = false)
    (hc : o.aclr true = false) (hne : o.inst1.items ≠ []) :
    HdrPath hdr (o.step infifoData infifoRdempty true false) := by
  have hw : o.inst1Wrempty true = false := by
    simp [OnePctFifo.inst1Wrempty, OnePctFifo.stored, hc, hne]
  cases h with
  | captured valid header stored shown words =>
    refine .stored hv ?_ ?_ ?_
    · simp [OnePctFifo.step, OnePctFifo.inst2Rdreq, hc, valid, header, stored, Fifo.pushed]
    · simp [OnePctFifo.step, OnePctFifo.inst2Rdreq, hc, stored]
    · simp [OnePctFifo.step, shown, words]
  | stored valid stored shown words =>
    refine .shown hv ?_ ?_ ?_ ?_
    · simp [OnePctFifo.step, OnePctFifo.inst2Rdreq, hc, valid, stored]
    · simp [OnePctFifo.step, OnePctFifo.inst2Rdreq, hc, stored]
    · simp [OnePctFifo.step, OnePctFifo.inst2Rdreq, hc, stored]
    · simp [OnePctFifo.step, shown, words]
  | shown valid stored shown q words =>
    refine .known (HdrNone.mk hv ?_ ?_) ?_
    · simp [OnePctFifo.step, OnePctFifo.inst2Rdreq, hc, valid, stored]
    · simp [OnePctFifo.step, OnePctFifo.inst2Rdreq, hc, stored]
    · simp [OnePctFifo.step, shown, q, hw]
  | known none words =>
    refine .known (none.step hv _ _) ?_
    simp [OnePctFifo.step, none.shown, words, hw]

/-- Registers the header still has to pass. -/
def stage (o : OnePctFifo) : Nat :=
  if o.inst0.headerValidReg then 3 else if o.inst2.items ≠ [] then 2
  else if o.pctHeaderValid then 1 else 0

theorem HdrPath.stage_step (h : HdrPath hdr o) (hv : o.inst0.headerHere = false)
    (hc : o.aclr true = false) :
    stage (o.step infifoData infifoRdempty true false) = stage o - 1 := by
  have hv' : (o.step infifoData infifoRdempty true false).inst0.headerValidReg = false := hv
  unfold stage
  rw [hv']
  cases h with
  | captured valid header stored shown words =>
    simp [OnePctFifo.step, OnePctFifo.inst2Rdreq, hc, valid, stored, Fifo.pushed]
  | stored valid stored shown words =>
    simp [OnePctFifo.step, OnePctFifo.inst2Rdreq, hc, valid, stored]
  | shown valid stored shown q words =>
    simp [OnePctFifo.step, OnePctFifo.inst2Rdreq, hc, valid, stored, shown]
  | known none words =>
    simp [OnePctFifo.step, OnePctFifo.inst2Rdreq, hc, none.valid, none.stored, none.shown]

theorem HdrPath.words_of_stage (h : HdrPath hdr o) (hs : stage o = 0) :
    o.pctWords = OnePctFifo.pctWordsOf hdr := by
  unfold stage at hs
  cases h with
  | captured valid => simp [valid] at hs
  | stored valid stored => simp [valid, stored] at hs
  | shown valid stored shown => simp [valid, stored, shown] at hs
  | known _ words => exact words

end header

/-! ## One clock in each phase -/

section steps

variable {coming rest : List Packet} {p : Packet} {r : Nat} {s : TxPath} {i : TxIn}

theorem step_resetN (hc : s.wr.currentState ≠ .clrFifo) :
    (s.step i).wr.inPctResetNReq = true := by
  simpa [TxPath.step, Packets2data.step, P2dWrFsm.step] using hc

/-- The q of the packet FIFO only moves with a read. -/
theorem step_q (hr : s.wr.inPctRdreqInt = false) : (s.step i).inst0.inst1.q = s.inst0.inst1.q := by
  have hq : ∀ cap c w d, (s.inst0.inst1.step cap c w d false).q = s.inst0.inst1.q := by
    intro cap c w d; cases c <;> rfl
  simp only [TxPath.step, OnePctFifo.step, hr, hq]

theorem step_items (hr : s.wr.inPctRdreqInt = false) (hw : s.sep.pctWrreqReg = false) :
    (s.step i).inst0.inst1.items = s.inst0.stored s.wr.inPctResetNReq := by
  simp only [TxPath.step, OnePctFifo.step, hr, hw, OnePctFifo.stored]
  cases s.inst0.aclr s.wr.inPctResetNReq <;> simp

section idle

variable (h : Idle coming s) (hr : s.wr.inPctRdreqInt = false)
include h

theorem Idle.stored : s.inst0.stored s.wr.inPctResetNReq = [] := by
  simp only [OnePctFifo.stored, h.items, Fifo.visible]; split <;> rfl

theorem Idle.wrempty : s.inst0.inst1Wrempty s.wr.inPctResetNReq = true := by
  rw [OnePctFifo.inst1Wrempty, h.stored]; rfl

theorem Idle.infifoRdreq : s.infifoRdreq i = false := by
  simp [TxPath.infifoRdreq, PctSeparateFsm.infifoRdreq, h.state]

theorem Idle.step_hdr : HdrNone (s.step i).inst0 ∧ (s.step i).inst0.pctWords = 65535 :=
  ⟨h.hdr.step (by simp [PctSeparateFsm.headerHere, h.valid]) _ _, h.hdr.pctWords h.words _ _⟩

theorem Idle.step_notRdy : (s.step i).inst0.pctRdyReg = false := by
  simp [TxPath.step, OnePctFifo.step, h.stored, h.words]

include hr

theorem Idle.step_items : (s.step i).inst0.inst1.items = [] := by
  rw [Feed.step_items hr h.wrreq, h.stored]

/-- Nothing to read. -/
theorem Idle.stay (hc : s.wr.currentState ≠ .clrFifo) (he : s.infifoRdempty i = true) :
    Idle coming (s.step i) where
  state := by
    simp [TxPath.step, OnePctFifo.step, PctSeparateFsm.step, PctSeparateFsm.nextState, h.state, he]
  valid := h.infifoRdreq
  wrreq := h.infifoRdreq
  infifo := by simp [TxPath.step, h.infifoRdreq, h.infifo]
  items := h.step_items hr
  hdr := h.step_hdr.1
  words := h.step_hdr.2
  notRdy := h.step_notRdy
  resetN := step_resetN hc

/-- The next packet is there. -/
theorem Idle.load (hc : s.wr.currentState ≠ .clrFifo) (he : s.infifoRdempty i = false) :
    ∃ p rest, coming = p :: rest ∧ Load p rest (s.step i) := by
  cases coming with
  | nil => simp [TxPath.infifoRdempty, h.infifo] at he
  | cons p rest =>
    have hcnt : (s.step i).sep.rdCnt = 0 ∧ (s.step i).sep.wrCnt = 0 := by
      simp [TxPath.step, OnePctFifo.step, PctSeparateFsm.step, h.state]
    have hdv : (s.step i).sep.infifoDataValid = false := h.infifoRdreq
    refine ⟨p, rest, rfl,
      { state := ?_, le := ?_, wrreq := ?_, count := ?_, max := ?_, infifo := ?_, infifoQ := ?_
        items := ?_, none := fun _ => h.step_hdr, hdr := ?_, rdy := ?_, sync0 := ?_
        sync1 := ?_, resetN := step_resetN hc }⟩
    · simp [TxPath.step, OnePctFifo.step, PctSeparateFsm.step, PctSeparateFsm.nextState, h.state,
        he, h.wrempty]
    · rw [hcnt.1]; exact Nat.zero_le _
    · rw [hdv]; exact h.infifoRdreq
    · rw [hdv, hcnt.1, hcnt.2]; rfl
    · simp [TxPath.step, OnePctFifo.step, PctSeparateFsm.step, h.state]
    · have hin : (s.step i).infifo = s.infifo := by simp [TxPath.step, h.infifoRdreq]
      rw [hcnt.1, hin, h.infifo]; simp
    · simp [hdv]
    · rw [hcnt.2, h.step_items hr]; simp
    · simp [hcnt.2]
    · simp [h.step_notRdy]
    · simp [TxPath.step, OnePctFifo.step, SyncReg.step, h.resetN]
    · simp [hcnt.1]

end idle

theorem Drained.step (h : Drained coming s) (hr : s.wr.inPctRdreqInt = false)
    (hc : s.wr.currentState ≠ .clrFifo) : Idle coming (s.step i) := by
  have hh : s.sep.headerHere = false := by simp [PctSeparateFsm.headerHere, h.valid]
  have hrq : s.infifoRdreq i = false := by
    simp [TxPath.infifoRdreq, PctSeparateFsm.infifoRdreq, h.state]
  have hwe : s.inst0.inst1Wrempty s.wr.inPctResetNReq = true := by
    rw [OnePctFifo.inst1Wrempty, h.stored]; rfl
  refine ⟨?_, hrq, hrq, ?_, ?_, h.hdr.step hh _ _, h.hdr.pctWords h.words _ _, ?_, step_resetN hc⟩
  · simp [TxPath.step, OnePctFifo.step, PctSeparateFsm.step, PctSeparateFsm.nextState, h.state, hwe]
  · simp [TxPath.step, hrq, h.infifo]
  · rw [step_items hr h.wrreq, h.stored]
  · simp [TxPath.step, OnePctFifo.step, h.stored, h.words]

/-! ### A packet comes in -/

namespace Load

theorem aclr (h : Load p rest s) (hk : 0 < s.sep.rdCnt) :
    s.inst0.aclr s.wr.inPctResetNReq = false := by
  simp [OnePctFifo.aclr, SyncReg.syncOut, h.resetN, h.sync1 hk]

theorem wrCnt_le (h : Load p rest s) : s.sep.wrCnt ≤ s.sep.rdCnt := by have := h.count; omega

theorem stored (h : Load p rest s) :
    s.inst0.stored s.wr.inPctResetNReq = p.words.take s.sep.wrCnt := by
  by_cases hk : 0 < s.sep.rdCnt
  · simp [OnePctFifo.stored, h.aclr hk, h.items]
  · have hw : s.sep.wrCnt = 0 := by have := h.wrCnt_le; omega
    simp only [OnePctFifo.stored, h.items, hw, List.take_zero, Fifo.visible]
    split <;> rfl

theorem length_stored (h : Load p rest s) :
    (s.inst0.stored s.wr.inPctResetNReq).length = s.sep.wrCnt := by
  rw [h.stored, List.length_take, Packet.length_words]
  have := h.wrCnt_le; have := h.le; omega

theorem wrempty (h : Load p rest s) :
    s.inst0.inst1Wrempty s.wr.inPctResetNReq = decide (s.sep.wrCnt = 0) := by
  rw [OnePctFifo.inst1Wrempty, Bool.eq_iff_iff, List.isEmpty_iff_length_eq_zero, h.length_stored,
    decide_eq_true_iff]

theorem pctWords (h : Load p rest s) : s.inst0.pctWords = 65535 ∨
    0 < s.sep.wrCnt ∧ HdrNone s.inst0 ∧ s.inst0.pctWords = p.len + 1 := by
  by_cases hw : 0 < s.sep.wrCnt
  · refine (h.hdr hw).pctWords_eq.imp id fun ⟨n, e⟩ => ⟨hw, n, ?_⟩
    rw [e, OnePctFifo.pctWordsOf_hdr]
  · exact .inl (h.none (by omega)).2

/-- The word counter and the FIFO move together. -/
theorem infifoRdreq (h : Load p rest s) :
    s.infifoRdreq i = (decide (s.sep.rdCnt ≤ p.len) && !s.infifoRdempty i) := by
  rw [TxPath.infifoRdreq, PctSeparateFsm.infifoRdreq, h.state]
  by_cases hk : s.sep.rdCnt ≤ p.len
  · simp [hk]
  · simp only [hk, if_false, decide_false, Bool.false_and]; rfl

theorem step_rdCnt (h : Load p rest s) :
    (s.step i).sep.rdCnt = s.sep.rdCnt + (s.infifoRdreq i).toNat := by
  have hi : s.sep.currentState ≠ .idle := by rw [h.state]; split <;> nofun
  have hs : (s.step i).sep.rdCnt = if s.sep.currentState = .idle then 0
      else if s.infifoRdreq i then inc16 s.sep.rdCnt else s.sep.rdCnt := rfl
  rw [hs, if_neg hi]
  have := h.le; have := p.len_le
  cases s.infifoRdreq i
  · rfl
  · simp only [if_true, Bool.toNat_true]; exact inc16_of_lt (by omega)

theorem step_wrCnt (h : Load p rest s) :
    (s.step i).sep.wrCnt = s.sep.wrCnt + s.sep.infifoDataValid.toNat := by
  have hi : s.sep.currentState ≠ .idle := by rw [h.state]; split <;> nofun
  have hs : (s.step i).sep.wrCnt = if s.sep.currentState = .idle then 0
      else if s.sep.infifoDataValid then inc16 s.sep.wrCnt else s.sep.wrCnt := rfl
  rw [hs, if_neg hi]
  have := h.le; have := p.len_le; have := h.wrCnt_le
  cases s.sep.infifoDataValid
  · rfl
  · simp only [if_true, Bool.toNat_true]; exact inc16_of_lt (by omega)

theorem headerHere (h : Load p rest s) (hh : s.sep.headerHere = true) :
    s.sep.wrCnt = 0 ∧ s.sep.infifoDataValid = true ∧ s.infifoQ = p.hdr := by
  simp only [PctSeparateFsm.headerHere, Bool.and_eq_true, beq_iff_eq] at hh
  have hq := h.infifoQ hh.2
  rw [hh.1] at hq
  exact ⟨hh.1, hh.2, (Option.some.inj hq).symm⟩

/-- While the header has not been seen, at most one word has been asked for. -/
theorem rdCnt_le_one (h : Load p rest s) (hw : s.sep.wrCnt = 0) : s.sep.rdCnt ≤ 1 := by
  have := h.count; have := Bool.toNat_le s.sep.infifoDataValid; omega

theorem step_state (h : Load p rest s) : (s.step i).sep.currentState =
    if (s.step i).sep.rdCnt ≤ p.len then .rdPct else .rdDone := by
  have hs : (s.step i).sep.currentState =
      s.sep.nextState (s.infifoRdempty i) (s.inst0.inst1Wrempty s.wr.inPctResetNReq) := rfl
  have h2 := p.two_le_len
  have h255 := p.len_le
  rw [hs, PctSeparateFsm.nextState, h.step_rdCnt, h.infifoRdreq, h.wrempty, h.state]
  by_cases hk : s.sep.rdCnt ≤ p.len
  · -- one word may be asked for; the header has been seen before the last one
    obtain ⟨hmax, heq⟩ : (s.sep.rdCnt < dec16 s.sep.rdCntMax ↔ s.sep.rdCnt < p.len) ∧
        (s.sep.rdCnt = dec16 s.sep.rdCntMax ↔ s.sep.rdCnt = p.len) := by
      rw [h.max]
      split
      · have := h.rdCnt_le_one ‹_›
        rw [dec16_of_pos (by omega) (by omega)]; omega
      · rw [dec16_of_pos (by omega) (by omega)]; omega
    simp only [hk, if_true, hmax, heq, decide_true, Bool.true_and]
    cases s.infifoRdempty i <;>
      simp only [Bool.not_true, Bool.not_false, Bool.toNat_true, Bool.toNat_false] <;> grind
  · have hw : s.sep.wrCnt ≠ 0 := by
      intro hw; have := h.rdCnt_le_one hw; omega
    simp [hk, hw]

theorem step_infifo (h : Load p rest s) : (s.step i).infifo =
    p.words.drop (s.step i).sep.rdCnt ++ rest.flatMap Packet.words := by
  have hs : (s.step i).infifo = Fifo.popped (s.infifoRdreq i) s.infifo := rfl
  rw [hs, h.step_rdCnt]
  cases hq : s.infifoRdreq i
  · simpa using h.infifo
  · have hk : s.sep.rdCnt ≤ p.len := by
      rw [h.infifoRdreq, Bool.and_eq_true, decide_eq_true_iff] at hq; exact hq.1
    have hlt : s.sep.rdCnt < p.words.length := by rw [Packet.length_words]; omega
    rw [h.infifo, List.drop_eq_getElem_cons hlt, List.cons_append, Fifo.popped_true, List.tail_cons,
      Bool.toNat_true]

theorem step_infifoQ (h : Load p rest s) (hq : s.infifoRdreq i = true) :
    p.words[(s.step i).sep.wrCnt]? = some (s.step i).infifoQ := by
  have hk : s.sep.rdCnt ≤ p.len := by
    rw [h.infifoRdreq, Bool.and_eq_true, decide_eq_true_iff] at hq; exact hq.1
  have hlt : s.sep.rdCnt < p.words.length := by rw [Packet.length_words]; omega
  have hs : (s.step i).infifoQ = s.infifo.head?.getD s.infifoQ := by simp [TxPath.step, hq]
  rw [h.step_wrCnt, h.count, hs, h.infifo, List.drop_eq_getElem_cons hlt, List.cons_append,
    List.head?_cons, Option.getD_some, List.getElem?_eq_getElem hlt]

theorem step_items (h : Load p rest s) (hr : s.wr.inPctRdreqInt = false) :
    (s.step i).inst0.inst1.items = p.words.take (s.step i).sep.wrCnt := by
  have hs : (s.step i).inst0.inst1.items = (s.inst0.inst1.step 256 (s.inst0.aclr s.wr.inPctResetNReq)
      s.sep.pctWrreqReg [s.infifoQ] s.wr.inPctRdreqInt).items := rfl
  rw [hs, h.step_wrCnt, h.wrreq, hr]
  cases hd : s.sep.infifoDataValid
  · have hst := h.stored
    rw [OnePctFifo.stored] at hst
    cases hc : s.inst0.aclr s.wr.inPctResetNReq <;> simpa [hc] using hst
  · have hk : 0 < s.sep.rdCnt := by have := h.count; rw [hd] at this; simp at this; omega
    have hw : s.sep.wrCnt < p.words.length := by
      have := h.count; have := h.le; rw [hd] at *; simp at *; omega
    have hcap : s.inst0.inst1.items.length + 1 ≤ 256 := by
      have := p.len_le
      rw [h.items, List.length_take]; simp only [Packet.length_words] at hw; omega
    have hq := h.infifoQ hd
    rw [List.getElem?_eq_getElem hw] at hq
    simp only [h.aclr hk, Fifo.step_items, Fifo.popped_false, Bool.toNat_true]
    rw [Fifo.pushed_true (by simpa using hcap), h.items, ← Option.some.inj hq, List.take_succ_eq_append_getElem hw]

theorem step_hdr (h : Load p rest s) (hr : s.wr.inPctRdreqInt = false)
    (hw : 0 < (s.step i).sep.wrCnt) : HdrPath p.hdr (s.step i).inst0 := by
  by_cases hh : s.sep.headerHere = true
  · -- the header word is on the input now: it is captured
    obtain ⟨hw0, hd, hq⟩ := h.headerHere hh
    obtain ⟨hn, hwords⟩ := h.none hw0
    have hk : 0 < s.sep.rdCnt := by have := h.count; rw [hd] at this; simp at this; omega
    refine .captured hh ?_ ?_ ?_ (hn.pctWords hwords _ _)
    · simp [TxPath.step, OnePctFifo.step, PctSeparateFsm.step, hh, hq]
    · simp [TxPath.step, OnePctFifo.step, hn.stored, hn.valid, h.aclr hk, Fifo.popped]
    · simp [TxPath.step, OnePctFifo.step, OnePctFifo.inst2Rdreq, hn.stored, h.aclr hk]
  · have hw' : 0 < s.sep.wrCnt := by
      rw [h.step_wrCnt] at hw
      simp only [PctSeparateFsm.headerHere, Bool.and_eq_true, beq_iff_eq, not_and,
        Bool.not_eq_true] at hh
      rcases Nat.eq_zero_or_pos s.sep.wrCnt with h0 | h0
      · rw [h0, hh h0] at hw; exact absurd hw (by decide)
      · exact h0
    have hk : 0 < s.sep.rdCnt := Nat.lt_of_lt_of_le hw' h.wrCnt_le
    have hne : s.inst0.inst1.items ≠ [] := by
      rw [h.items, ne_eq, List.take_eq_nil_iff]
      simp only [Packet.words, List.cons_ne_nil, or_false]; omega
    have hst : HdrPath p.hdr (s.inst0.step s.infifoQ (s.infifoRdempty i) true false) :=
      (h.hdr hw').step (by simpa using hh) (h.resetN ▸ h.aclr hk) hne
    have hs : (s.step i).inst0 = s.inst0.step s.infifoQ (s.infifoRdempty i) s.wr.inPctResetNReq
      s.wr.inPctRdreqInt := rfl
    rw [hs, h.resetN, hr]
    exact hst

theorem step_rdy (h : Load p rest s) (hr : (s.step i).inst0.pctRdyReg = true) :
    s.sep.wrCnt = p.len + 1 ∧ s.inst0.pctWords = p.len + 1 := by
  have hs : (s.step i).inst0.pctRdyReg =
      ((s.inst0.stored s.wr.inPctResetNReq).length == s.inst0.pctWords) := rfl
  rw [hs, beq_iff_eq, h.length_stored] at hr
  have := h.wrCnt_le; have := h.le; have := p.len_le
  rcases h.pctWords with e | ⟨_, _, e⟩
  · omega
  · exact ⟨by omega, e⟩

/-- With all words written nothing is on its way any more. -/
theorem complete (h : Load p rest s) (hw : s.sep.wrCnt = p.len + 1) :
    s.sep.rdCnt = p.len + 1 ∧ s.sep.infifoDataValid = false ∧ s.sep.currentState = .rdDone := by
  have hk : s.sep.rdCnt = p.len + 1 := by have := h.wrCnt_le; have := h.le; omega
  refine ⟨hk, ?_, ?_⟩
  · have := h.count
    cases hd : s.sep.infifoDataValid
    · rfl
    · rw [hd, Bool.toNat_true] at this; omega
  · rw [h.state, if_neg (by omega)]

theorem step_pctWords (h : Load p rest s) (hw : s.inst0.pctWords = p.len + 1)
    (hr : s.wr.inPctRdreqInt = false) : (s.step i).inst0.pctWords = p.len + 1 := by
  obtain e | ⟨hpos, hn, _⟩ := h.pctWords
  · have := p.len_le; omega
  · have he : s.inst0.inst1Wrempty s.wr.inPctResetNReq = false := by
      rw [h.wrempty]; exact decide_eq_false (by omega)
    simp [TxPath.step, OnePctFifo.step, hr, he, hn.shown, hw]

theorem step (h : Load p rest s) (hr : s.wr.inPctRdreqInt = false)
    (hc : s.wr.currentState ≠ .clrFifo) : Load p rest (s.step i) := by
  have hle : (s.step i).sep.rdCnt ≤ p.len + 1 := by
    rw [h.step_rdCnt, h.infifoRdreq]
    have := h.le
    by_cases hk : s.sep.rdCnt ≤ p.len
    · have := Bool.toNat_le (decide (s.sep.rdCnt ≤ p.len) && !s.infifoRdempty i); omega
    · simp [hk]; omega
  have hcount : (s.step i).sep.wrCnt + (s.step i).sep.infifoDataValid.toNat =
      (s.step i).sep.rdCnt := by
    rw [h.step_wrCnt, h.step_rdCnt, h.count]; rfl
  exact
    { state := h.step_state
      le := hle
      wrreq := rfl
      count := hcount
      max := by
        have hi : s.sep.currentState ≠ .idle := by rw [h.state]; split <;> nofun
        have hs : (s.step i).sep.rdCntMax = if s.sep.currentState = .idle then 65535
          else if s.sep.headerHere then PctSeparateFsm.rdCntMaxOf s.infifoQ else s.sep.rdCntMax := rfl
        rw [hs, if_neg hi, h.step_wrCnt]
        split
        next hh =>
          obtain ⟨_, hd, hq⟩ := h.headerHere hh
          rw [hq, PctSeparateFsm.rdCntMaxOf_hdr, hd]; simp
        next hh =>
          rw [h.max]
          simp only [PctSeparateFsm.headerHere, Bool.and_eq_true, beq_iff_eq] at hh
          cases hd : s.sep.infifoDataValid
          · simp
          · have : s.sep.wrCnt ≠ 0 := fun h0 => hh ⟨h0, hd⟩
            simp [this]
      infifo := h.step_infifo
      infifoQ := h.step_infifoQ
      items := h.step_items hr
      none := fun hw => by
        have hw0 : s.sep.wrCnt = 0 := by rw [h.step_wrCnt] at hw; omega
        obtain ⟨hn, hwords⟩ := h.none hw0
        refine ⟨hn.step ?_ _ _, hn.pctWords hwords _ _⟩
        rw [h.step_wrCnt, hw0] at hw
        simp only [PctSeparateFsm.headerHere, hw0, beq_self_eq_true, Bool.true_and]
        simpa using hw
      hdr := h.step_hdr hr
      rdy := fun hrdy => by
        obtain ⟨hw, hwords⟩ := h.step_rdy hrdy
        refine ⟨?_, h.step_pctWords hwords hr⟩
        rw [h.step_wrCnt, hw, (h.complete hw).2.1]; rfl
      sync0 := by
        simp [TxPath.step, OnePctFifo.step, SyncReg.step, h.resetN]
      sync1 := fun _ => by
        simp [TxPath.step, OnePctFifo.step, SyncReg.step, h.resetN, h.sync0]
      resetN := step_resetN hc }

/-- Words of the packet are still to come. -/
theorem infifoRdempty (h : Load p rest s) (hk : s.sep.rdCnt ≤ p.len) :
    s.infifoRdempty i = i.gap := by
  have hne : s.infifo ≠ [] := by
    rw [h.infifo]
    intro he
    have := congrArg List.length (List.append_eq_nil_iff.1 he).1
    rw [List.length_drop, Packet.length_words, List.length_nil] at this
    omega
  rw [TxPath.infifoRdempty, List.isEmpty_eq_false_iff.2 hne, Bool.or_false]

/-- With all words asked for, `pct_rdy` comes after the last one is written and the header has
    reached `pct_words`. -/
theorem rdy_or_closer (h : Load p rest s) (hr : s.wr.inPctRdreqInt = false)
    (hk : s.sep.rdCnt = p.len + 1) : (s.step i).inst0.pctRdyReg = true ∨
      stage (s.step i).inst0 + (p.len + 1 - (s.step i).sep.wrCnt) <
        stage s.inst0 + (p.len + 1 - s.sep.wrCnt) := by
  have h2 := p.two_le_len
  have hcount := h.count
  have hdv := Bool.toNat_le s.sep.infifoDataValid
  have hpos : 0 < s.sep.wrCnt := by omega
  have hh : s.sep.headerHere = false := by
    have : (s.sep.wrCnt == 0) = false := by rw [beq_eq_false_iff_ne]; omega
    rw [PctSeparateFsm.headerHere, this, Bool.false_and]
  have hst : stage (s.step i).inst0 = stage s.inst0 - 1 := by
    have hs : (s.step i).inst0 = s.inst0.step s.infifoQ (s.infifoRdempty i) s.wr.inPctResetNReq
      s.wr.inPctRdreqInt := rfl
    rw [hs, h.resetN, hr]
    exact (h.hdr hpos).stage_step hh (h.resetN ▸ h.aclr (by omega))
  have hw := h.step_wrCnt (i := i)
  by_cases hz : stage s.inst0 = 0 ∧ s.sep.wrCnt = p.len + 1
  · left
    have hwords := (h.hdr hpos).words_of_stage hz.1
    rw [OnePctFifo.pctWordsOf_hdr] at hwords
    simp [TxPath.step, OnePctFifo.step, h.length_stored, hz.2, hwords]
  · right
    rw [hst, hw, hcount, hk]
    omega

/-- `p2d_wr_fsm` sees `pct_rdy` and goes to read the packet. -/
theorem open_step (h : Load p rest s) (hrdy : s.inst0.pctRdyReg = true)
    (hr : s.wr.inPctRdreqInt = false) (hc : s.wr.currentState ≠ .clrFifo) :
    Drain p 0 rest (s.step i) := by
  have h' := h.step (i := i) hr hc
  obtain ⟨hw, hwords⟩ := h.rdy hrdy
  have hw' : (s.step i).sep.wrCnt = p.len + 1 := by
    rw [h.step_wrCnt, hw, (h.complete hw).2.1]; rfl
  obtain ⟨hk, hd, hst⟩ := h'.complete hw'
  have hws := h.step_pctWords (i := i) hwords hr
  obtain e | ⟨_, hn, _⟩ := h'.pctWords
  · have := p.len_le; omega
  · exact
      { state := hst
        valid := hd
        wrreq := h'.wrreq.trans hd
        infifo := by rw [h'.infifo, hk, ← Packet.length_words, List.drop_length, List.nil_append]
        le := Nat.zero_le _
        items := by
          rw [h'.items, hw', ← Packet.length_words, List.take_length, List.drop_zero]
        hdr := hn
        words := hws
        sync1 := ⟨h'.sync0, h'.sync1 (by omega)⟩
        resetN := h'.resetN }

end Load

/-! ### `p2d_wr_fsm` takes the packet -/

namespace Drain

theorem stored (h : Drain p r coming s) :
    s.inst0.stored s.wr.inPctResetNReq = p.words.drop r := by
  simp [OnePctFifo.stored, OnePctFifo.aclr, SyncReg.syncOut, h.resetN, h.sync1.2, h.items]

theorem length_stored (h : Drain p r coming s) :
    (s.inst0.stored s.wr.inPctResetNReq).length = p.len + 1 - r := by
  rw [h.stored, List.length_drop, Packet.length_words]

theorem wrempty (h : Drain p r coming s) : s.inst0.inst1Wrempty s.wr.inPctResetNReq = false := by
  rw [OnePctFifo.inst1Wrempty, ← Bool.not_eq_true, List.isEmpty_iff_length_eq_zero, h.length_stored]
  have := h.le; omega

theorem infifoRdreq (h : Drain p r coming s) : s.infifoRdreq i = false := by
  simp [TxPath.infifoRdreq, PctSeparateFsm.infifoRdreq, h.state]

theorem step_state (h : Drain p r coming s) : (s.step i).sep.currentState = .rdDone := by
  simp [TxPath.step, OnePctFifo.step, PctSeparateFsm.step, PctSeparateFsm.nextState, h.state,
    h.wrempty]

theorem step_hdr (h : Drain p r coming s) : HdrNone (s.step i).inst0 :=
  h.hdr.step (by simp [PctSeparateFsm.headerHere, h.valid]) _ _

theorem step_infifo (h : Drain p r coming s) :
    (s.step i).infifo = coming.flatMap Packet.words := by
  simp [TxPath.step, h.infifoRdreq, h.infifo]

theorem step_sync (h : Drain p r coming s) :
    (s.step i).inst0.inst1ResetN.r0 = true ∧ (s.step i).inst0.inst1ResetN.r1 = true := by
  simp [TxPath.step, OnePctFifo.step, SyncReg.step, h.resetN, h.sync1]

theorem step (h : Drain p r coming s) (hr : s.wr.inPctRdreqInt = false)
    (hc : s.wr.currentState ≠ .clrFifo) : Drain p r coming (s.step i) where
  state := h.step_state
  valid := h.infifoRdreq
  wrreq := h.infifoRdreq
  infifo := h.step_infifo
  le := h.le
  items := by rw [step_items hr h.wrreq, h.stored]
  hdr := h.step_hdr
  words := by simp [TxPath.step, OnePctFifo.step, hr, h.wrempty, h.hdr.shown, h.words]
  sync1 := h.step_sync
  resetN := step_resetN hc

theorem read_q (h : Drain p r coming s) (hr : s.wr.inPctRdreqInt = true) :
    p.words[r]? = some (s.step i).inst0.inst1.q := by
  have hlt : r < p.words.length := by rw [Packet.length_words]; have := h.le; omega
  have hc : s.inst0.aclr s.wr.inPctResetNReq = false := by
    simp [OnePctFifo.aclr, SyncReg.syncOut, h.resetN, h.sync1.2]
  have hs : (s.step i).inst0.inst1 = s.inst0.inst1.step 256 (s.inst0.aclr s.wr.inPctResetNReq)
      s.sep.pctWrreqReg [s.infifoQ] s.wr.inPctRdreqInt := rfl
  rw [hs, hc, Fifo.step_q, hr, if_pos rfl, h.items, List.drop_eq_getElem_cons hlt, List.head?_cons,
    Option.getD_some, List.getElem?_eq_getElem hlt]

theorem read_items (h : Drain p r coming s) (hr : s.wr.inPctRdreqInt = true) :
    (s.step i).inst0.inst1.items = p.words.drop (r + 1) := by
  have hc : s.inst0.aclr s.wr.inPctResetNReq = false := by
    simp [OnePctFifo.aclr, SyncReg.syncOut, h.resetN, h.sync1.2]
  have hs : (s.step i).inst0.inst1 = s.inst0.inst1.step 256 (s.inst0.aclr s.wr.inPctResetNReq)
      s.sep.pctWrreqReg [s.infifoQ] s.wr.inPctRdreqInt := rfl
  rw [hs, hc, Fifo.step_items, hr, h.wrreq, Fifo.pushed_false, List.append_nil, h.items,
    Fifo.popped_true, List.tail_drop]

theorem read_words (hr : s.wr.inPctRdreqInt = true) : (s.step i).inst0.pctWords = 65535 := by
  simp [TxPath.step, OnePctFifo.step, hr]

theorem read (h : Drain p r coming s) (hr : s.wr.inPctRdreqInt = true)
    (hc : s.wr.currentState ≠ .clrFifo) (hlt : r < p.len) : Drain p (r + 1) coming (s.step i) where
  state := h.step_state
  valid := h.infifoRdreq
  wrreq := h.infifoRdreq
  infifo := h.step_infifo
  le := hlt
  items := h.read_items hr
  hdr := h.step_hdr
  words := read_words hr
  sync1 := h.step_sync
  resetN := step_resetN hc

/-- Once a word has been read, `pct_rdy` does not come back. -/
theorem step_notRdy (h : Drain p r coming s) (hpos : 0 < r) :
    (s.step i).inst0.pctRdyReg = false := by
  have hs : (s.step i).inst0.pctRdyReg =
      ((s.inst0.stored s.wr.inPctResetNReq).length == s.inst0.pctWords) := rfl
  have := p.len_le
  rw [hs, h.length_stored, h.words, if_neg (by omega), beq_eq_false_iff_ne]
  omega

theorem read_last (h : Drain p p.len coming s) (hr : s.wr.inPctRdreqInt = true) :
    Drained coming (s.step i) where
  state := h.step_state
  valid := h.infifoRdreq
  wrreq := h.infifoRdreq
  infifo := h.step_infifo
  stored := by
    have hi : (s.step i).inst0.inst1.items = [] := by
      rw [h.read_items hr, ← Packet.length_words, List.drop_length]
    simp only [OnePctFifo.stored, Fifo.visible, hi, ite_self]
  hdr := h.step_hdr
  words := read_words hr
  notRdy := h.step_notRdy (by have := p.two_le_len; omega)

theorem clear (h : Drain p r coming s) (hc : s.wr.currentState = .clrFifo) (hpos : 0 < r) :
    Drained coming (s.step i) where
  state := h.step_state
  valid := h.infifoRdreq
  wrreq := h.infifoRdreq
  infifo := h.step_infifo
  stored := by
    have hn : (s.step i).wr.inPctResetNReq = false := by
      simp [TxPath.step, Packets2data.step, P2dWrFsm.step, hc]
    simp [OnePctFifo.stored, OnePctFifo.aclr, SyncReg.syncOut, hn]
  hdr := h.step_hdr
  words := by
    have : s.inst0.pctWords = 65535 := by rw [h.words, if_neg (by omega)]
    exact h.hdr.pctWords this _ _
  notRdy := h.step_notRdy hpos

end Drain

theorem Filling.step (h : Filling coming s) (hr : s.wr.inPctRdreqInt = false)
    (hc : s.wr.currentState ≠ .clrFifo) : Filling coming (s.step i) := by
  cases h with
  | idle h =>
    cases he : s.infifoRdempty i
    · obtain ⟨p, rest, eq, h'⟩ := h.load hr hc he
      exact .load p rest eq h'
    · exact .idle (h.stay hr hc he)
  | load p rest eq h => exact .load p rest eq (h.step hr hc)
  | drained h => exact .idle (h.step hr hc)

theorem Filling.open_step (h : Filling coming s) (hrdy : s.inst0.pctRdyReg = true)
    (hr : s.wr.inPctRdreqInt = false) (hc : s.wr.currentState ≠ .clrFifo) :
    ∃ p rest, coming = p :: rest ∧ Drain p 0 rest (s.step i) := by
  cases h with
  | idle h => exact absurd hrdy (by simp [h.notRdy])
  | load p rest eq h => exact ⟨p, rest, eq, h.open_step hrdy hr hc⟩
  | drained h => exact absurd hrdy (by simp [h.notRdy])

end steps

end Feed

end Tx
