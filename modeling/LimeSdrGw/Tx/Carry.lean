import LimeSdrGw.Tx.P2dWrFsm
/-
# `p2d_wr_fsm` with a packet

From `rd_hdr` to `wait_wr_end` the machine carries one packet from `one_pct_fifo` to a slot.
`rd_cnt` counts the words asked for, `pct_data_wrreq_cnt` those that have come through the two
registers behind the read request; `Carry` says how far each of them is in every state.
-/
namespace Tx

open Clocked

namespace P2dWrFsm

/-- The word after the last one taken from `one_pct_fifo`. -/
def taken (w : P2dWrFsm) : Nat := w.pctDataWrreqCnt + w.inPctDataValid.toNat

/-- A word goes to the current slot. -/
def writes (w : P2dWrFsm) : Bool := w.pctDataWrreq w.currentBuffCnt

/-- The header captured for the current slot is shown to the reader. -/
def tags (w : P2dWrFsm) : Bool := w.currentState == .waitCmprPipe && w.pipeCnt == 2

/-- The reader's tables hold the header of the packet. -/
def Tagged (w : P2dWrFsm) : Prop :=
  w.currentState ≠ .rdHdr ∧ (w.currentState = .waitCmprPipe → 3 ≤ w.pipeCnt)

/-- 128-bit words of the packet that are in the slot. -/
def stored (w : P2dWrFsm) : Nat := w.pctDataWrreqCnt - 1 - w.writes.toNat

/-- The machine has no packet in hand. -/
inductive Away : WrState → Prop
  | idle : Away .idle
  | checkNextBuf : Away .checkNextBuf
  | switchCurrentBuff : Away .switchCurrentBuff

/-- Nothing is read and nothing is written. -/
structure Quiet (w : P2dWrFsm) : Prop where
  rdreq : w.inPctRdreqInt = false
  valid : w.inPctDataValid = false
  hdr0 : ∀ i, w.pctHdr0Valid i = false
  hdr1 : ∀ i, w.pctHdr1Valid i = false
  wrreq : ∀ i, w.pctDataWrreq i = false

/-- How far the read request and the data are, state by state. -/
inductive Phase (p : Packet) (w : P2dWrFsm) : Prop
  | rdHdr (state : w.currentState = .rdHdr) (cnt : w.rdCnt = 0) (pipe : w.pipeCnt = 0)
  | waitCmprPipe (state : w.currentState = .waitCmprPipe) (cnt : w.rdCnt = 1) (le : w.pipeCnt ≤ 4)
      (rdreq : w.inPctRdreqInt = decide (w.pipeCnt = 0))
      (valid : w.inPctDataValid = decide (w.pipeCnt = 1))
  | check (state : w.currentState = .checkSmplNr ∨ w.currentState = .clrFifo ∨
        w.currentState = .switchNextBuff) (cnt : w.rdCnt = 1)
      (rdreq : w.inPctRdreqInt = false) (valid : w.inPctDataValid = false)
  | rdPct (state : w.currentState = .rdPct) (pos : 1 ≤ w.rdCnt) (le : w.rdCnt ≤ p.len)
      (rdreq : w.inPctRdreqInt = decide (2 ≤ w.rdCnt))
      (valid : w.inPctDataValid = decide (3 ≤ w.rdCnt))
  | waitWrEnd (state : w.currentState = .waitWrEnd) (cnt : w.rdCnt = p.len + 1)
      (valid : w.inPctRdreqInt = true → w.inPctDataValid = true)
      (writes : w.inPctDataValid = false → w.writes = true)

/-- The machine carries `p`, and `q` is the output of `one_pct_fifo`. -/
structure Carry (p : Packet) (q : Word128) (w : P2dWrFsm) : Prop where
  phase : w.Phase p
  count : w.taken + w.inPctRdreqInt.toNat = w.rdCnt
  data : 0 < w.taken → p.words[w.taken - 1]? = some q
  regs : 0 < w.pctDataWrreqCnt →
    w.rdCntMax = p.len + 1 ∧ w.pctHdr0Reg = p.hdr.hdr0 ∧ w.pctHdr1Reg = p.hdr.hdr1
  hdr0 : ∀ i, w.pctHdr0Valid i = (w.tags && i == w.currentBuffCnt)
  hdr1 : ∀ i, w.pctHdr1Valid i = (w.tags && i == w.currentBuffCnt)
  wrreq : ∀ i, w.pctDataWrreq i = (w.writes && i == w.currentBuffCnt)
  wdata : w.writes = true → 2 ≤ w.pctDataWrreqCnt ∧ p.words[w.pctDataWrreqCnt - 1]? = some w.pctData

section carry

variable {p : Packet} {q q' : Word128} {w : P2dWrFsm}

theorem Carry.rdCnt_le (h : Carry p q w) : w.rdCnt ≤ p.len + 1 := by
  cases h.phase <;> omega

theorem Carry.not_away (h : Carry p q w) : ¬ Away w.currentState := by
  intro ha
  generalize hs : w.currentState = st at ha
  cases h.phase <;> cases ha <;> simp_all

/-- After the header has been read it is on its way or in the registers. -/
theorem Carry.cnt_pos (h : Carry p q w)
    (hs : w.currentState = .waitCmprPipe → 2 ≤ w.pipeCnt) (hr : w.currentState ≠ .rdHdr) :
    0 < w.pctDataWrreqCnt := by
  have hc := h.count
  have h2 := p.two_le_len
  unfold taken at hc
  cases h.phase with
  | rdHdr state => exact absurd state hr
  | waitCmprPipe state cnt le rdreq valid =>
    have := hs state
    simp only [rdreq, valid, cnt, show w.pipeCnt ≠ 0 by omega, show w.pipeCnt ≠ 1 by omega,
      decide_false, Bool.toNat_false] at hc
    omega
  | check _ cnt rdreq valid =>
    simp only [rdreq, valid, cnt, Bool.toNat_false] at hc; omega
  | rdPct _ pos le rdreq valid =>
    by_cases h3 : 3 ≤ w.rdCnt
    · simp only [rdreq, valid, h3, show 2 ≤ w.rdCnt by omega, decide_true, Bool.toNat_true] at hc
      omega
    · simp only [rdreq, valid, h3, decide_false, Bool.toNat_false] at hc
      by_cases h4 : 2 ≤ w.rdCnt
      · simp only [h4, decide_true, Bool.toNat_true] at hc; omega
      · simp only [h4, decide_false, Bool.toNat_false] at hc; omega
  | waitWrEnd _ cnt =>
    have := Bool.toNat_le w.inPctRdreqInt
    have := Bool.toNat_le w.inPctDataValid
    omega

/-- The word on `in_pct_data` is the header in the second clock of `wait_cmpr_pipe` only. -/
theorem Carry.headerHere (h : Carry p q w) :
    w.headerHere = (w.currentState == .waitCmprPipe && w.pipeCnt == 1) := by
  have hc := h.count
  have h2 := p.two_le_len
  unfold taken at hc
  unfold P2dWrFsm.headerHere
  cases h.phase with
  | rdHdr state cnt =>
    have : w.inPctDataValid = false := by
      cases hd : w.inPctDataValid
      · rfl
      · simp only [hd, cnt, Bool.toNat_true] at hc; omega
    simp [this, state]
  | waitCmprPipe state cnt le rdreq valid =>
    by_cases h1 : w.pipeCnt = 1
    · simp only [rdreq, valid, cnt, h1, decide_true, Bool.toNat_true] at hc
      have : w.pctDataWrreqCnt = 0 := by simp at hc; omega
      simp [valid, state, this, h1]
    · simp [valid, state, h1]
  | check state _ _ valid => rcases state with e | e | e <;> simp [valid, e]
  | rdPct state | waitWrEnd state =>
    have := h.cnt_pos (by simp [state]) (by simp [state])
    have hz : (w.pctDataWrreqCnt == 0) = false := by rw [beq_eq_false_iff_ne]; omega
    simp [state, hz]

end carry

/-! ## One clock -/

section steps

variable {p : Packet} {q q' : Word128} {w : P2dWrFsm} {pctSyncDis : Bool} {sampleNr : Word64}
  {inPctRdy : Bool} {pctBuffRdy : Fin buffCount → Bool}

theorem Carry.not_idle (h : Carry p q w) : w.currentState ≠ .idle :=
  fun e => h.not_away (e ▸ .idle)

theorem Carry.step_taken (h : Carry p q w) :
    (w.step pctSyncDis sampleNr q inPctRdy pctBuffRdy).taken = w.rdCnt := by
  have hc := h.count
  have := h.rdCnt_le
  have := p.len_le
  have hcnt : (w.step pctSyncDis sampleNr q inPctRdy pctBuffRdy).pctDataWrreqCnt = w.taken := by
    unfold taken at hc ⊢
    simp only [step, if_neg h.not_idle]
    cases hd : w.inPctDataValid
    · rfl
    · rw [hd, Bool.toNat_true] at hc
      simp only [if_true, Bool.toNat_true]
      exact inc16_of_lt (by omega)
  rw [taken, hcnt, ← hc]; rfl

theorem Carry.step_rdCnt (h : Carry p q w) :
    (w.step pctSyncDis sampleNr q inPctRdy pctBuffRdy).rdCnt = w.rdCnt + w.reads.toNat := by
  have := h.rdCnt_le
  have := p.len_le
  simp only [step, if_neg h.not_idle]
  cases w.reads
  · rfl
  · exact inc16_of_lt (by omega)

theorem Carry.step_data (h : Carry p q w) (hread : w.inPctRdreqInt = true → p.words[w.taken]? = some q')
    (hkeep : w.inPctRdreqInt = false → q' = q) (hpos : 0 < w.rdCnt) :
    p.words[w.rdCnt - 1]? = some q' := by
  have hc := h.count
  cases hr : w.inPctRdreqInt
  · rw [hr, Bool.toNat_false] at hc
    rw [hkeep hr, ← hc]
    exact h.data (by omega)
  · rw [hr, Bool.toNat_true] at hc
    rw [← hc]
    exact hread hr

/-- What is captured as a header is the header. -/
theorem Carry.q_eq_hdr (h : Carry p q w) (hh : w.headerHere = true) : q = p.hdr := by
  simp only [P2dWrFsm.headerHere, Bool.and_eq_true, beq_iff_eq] at hh
  have hd := h.data
  rw [taken, hh.1, hh.2, Bool.toNat_true] at hd
  exact (Option.some.inj (hd (by decide))).symm

theorem Carry.step_regs (h : Carry p q w)
    (hpos : 0 < (w.step pctSyncDis sampleNr q inPctRdy pctBuffRdy).pctDataWrreqCnt) :
    (w.step pctSyncDis sampleNr q inPctRdy pctBuffRdy).rdCntMax = p.len + 1 ∧
    (w.step pctSyncDis sampleNr q inPctRdy pctBuffRdy).pctHdr0Reg = p.hdr.hdr0 ∧
    (w.step pctSyncDis sampleNr q inPctRdy pctBuffRdy).pctHdr1Reg = p.hdr.hdr1 := by
  by_cases hh : w.headerHere = true
  · simp [step, hh, h.q_eq_hdr hh, rdCntMaxOf_hdr]
  · have hc : 0 < w.pctDataWrreqCnt := by
      simp only [step, if_neg h.not_idle] at hpos
      simp only [P2dWrFsm.headerHere, Bool.and_eq_true, beq_iff_eq, not_and] at hh
      by_cases hd : w.inPctDataValid = true
      · exact Nat.pos_of_ne_zero (hh hd)
      · simpa [hd] using hpos
    simpa [step, hh] using h.regs hc

theorem Carry.step_wdata (h : Carry p q w) (hp : w.payloadHere = true) :
    2 ≤ (w.step pctSyncDis sampleNr q inPctRdy pctBuffRdy).pctDataWrreqCnt ∧
    p.words[(w.step pctSyncDis sampleNr q inPctRdy pctBuffRdy).pctDataWrreqCnt - 1]? =
      some (w.step pctSyncDis sampleNr q inPctRdy pctBuffRdy).pctData := by
  have hp' := hp
  simp only [P2dWrFsm.payloadHere, Bool.and_eq_true, decide_eq_true_iff] at hp'
  have hc := h.count
  have hd := h.data
  have := h.rdCnt_le
  have := p.len_le
  rw [taken, hp'.1, Bool.toNat_true] at hc hd
  have hcnt : (w.step pctSyncDis sampleNr q inPctRdy pctBuffRdy).pctDataWrreqCnt =
      w.pctDataWrreqCnt + 1 := by
    simp only [step, hp'.1, if_true]
    exact inc16_of_lt (by omega)
  refine ⟨by rw [hcnt]; omega, ?_⟩
  rw [hcnt]
  simpa [step, hp] using hd (by omega)

/-- A word written goes to the slot the machine is at. -/
theorem step_writes (hcur : w.currentState ≠ .checkNextBuf) :
    (w.step pctSyncDis sampleNr q inPctRdy pctBuffRdy).writes = w.payloadHere := by
  simp [writes, step, hcur]

theorem Carry.step_tags (h : Carry p q w) :
    (w.step pctSyncDis sampleNr q inPctRdy pctBuffRdy).tags = w.headerHere := by
  rw [h.headerHere]
  have hp : (w.step pctSyncDis sampleNr q inPctRdy pctBuffRdy).pipeCnt =
      if w.currentState = .waitCmprPipe then (w.pipeCnt + 1) % 16 else 0 := rfl
  have hs : (w.step pctSyncDis sampleNr q inPctRdy pctBuffRdy).currentState =
      w.nextState pctSyncDis inPctRdy := rfl
  rw [tags, hp, hs]
  cases h.phase with
  | rdHdr state => simp [nextState, state]
  | waitCmprPipe state cnt le =>
    by_cases h4 : w.pipeCnt = 4
    · simp [nextState, state, h4]
    · have h3 : ¬ w.pipeCnt > 3 := by omega
      have hm : (w.pipeCnt + 1) % 16 = w.pipeCnt + 1 := by omega
      simp [nextState, state, h3, hm]
  | check state => rcases state with e | e | e <;> simp [e]
  | rdPct state => simp [state]
  | waitWrEnd state => simp [state]

theorem Carry.cur_eq (h : Carry p q w) :
    (w.step pctSyncDis sampleNr q inPctRdy pctBuffRdy).currentBuffCnt = w.currentBuffCnt := by
  have : w.currentState ≠ .checkNextBuf := fun e => h.not_away (e ▸ .checkNextBuf)
  simp [step, this]

/-- The phase after one clock, as long as the machine keeps the packet. -/
theorem Carry.step_phase (h : Carry p q w) (hclr : w.currentState ≠ .clrFifo)
    (hend : w.currentState = .waitWrEnd → w.inPctDataValid = true) :
    Phase p (w.step pctSyncDis sampleNr q inPctRdy pctBuffRdy) := by
  have hcnt : (w.step pctSyncDis sampleNr q inPctRdy pctBuffRdy).rdCnt = w.rdCnt + w.reads.toNat :=
    h.step_rdCnt
  have hs : (w.step pctSyncDis sampleNr q inPctRdy pctBuffRdy).currentState =
      w.nextState pctSyncDis inPctRdy := rfl
  have hr : (w.step pctSyncDis sampleNr q inPctRdy pctBuffRdy).inPctRdreqInt = w.reads := rfl
  have hv : (w.step pctSyncDis sampleNr q inPctRdy pctBuffRdy).inPctDataValid = w.inPctRdreqInt := rfl
  have hpipe : (w.step pctSyncDis sampleNr q inPctRdy pctBuffRdy).pipeCnt =
      if w.currentState = .waitCmprPipe then (w.pipeCnt + 1) % 16 else 0 := rfl
  have hw : (w.step pctSyncDis sampleNr q inPctRdy pctBuffRdy).writes = w.payloadHere :=
    step_writes fun e => h.not_away (e ▸ .checkNextBuf)
  have h2 := p.two_le_len
  have h255 := p.len_le
  have hcount := h.count
  generalize w.step pctSyncDis sampleNr q inPctRdy pctBuffRdy = w' at hcnt hs hr hv hpipe hw ⊢
  cases h.phase with
  | rdHdr state cnt =>
    have hrd : w.reads = true := by rw [reads, state]; rfl
    have hrq : w.inPctRdreqInt = false := by
      cases hq : w.inPctRdreqInt
      · rfl
      · rw [hq, cnt, Bool.toNat_true] at hcount; omega
    have hpipe0 : w'.pipeCnt = 0 := by simpa [state] using hpipe
    refine .waitCmprPipe (by simpa [nextState, state] using hs) ?_ (by omega) ?_ ?_
    · rw [hcnt, cnt, hrd]; rfl
    · rw [hr, hrd, hpipe0]; rfl
    · rw [hv, hrq, hpipe0]; rfl
  | waitCmprPipe state cnt le rdreq valid =>
    have hrd : w.reads = false := by rw [reads, state]; rfl
    have hcnt1 : w'.rdCnt = 1 := by rw [hcnt, hrd, cnt]; rfl
    by_cases h4 : w.pipeCnt > 3
    · refine .check (.inl (by simpa [nextState, state, h4] using hs)) hcnt1 (hr.trans hrd) ?_
      rw [hv, rdreq]; exact decide_eq_false (by omega)
    · have hpipe' : w'.pipeCnt = w.pipeCnt + 1 := by rw [hpipe, if_pos state]; omega
      refine .waitCmprPipe (by simpa [nextState, state, h4] using hs) hcnt1 (by omega) ?_ ?_
      · rw [hr, hrd, hpipe']; exact (decide_eq_false (by omega)).symm
      · rw [hv, rdreq, hpipe']; simp
  | check state cnt rdreq valid =>
    rcases state with e | e | e
    · have hrd : w.reads = false := by rw [reads, e]; rfl
      refine .check ?_ (by rw [hcnt, hrd, cnt]; rfl) (hr.trans hrd) (hv.trans rdreq)
      simp only [hs, nextState, e]
      split
      · exact .inr (.inl rfl)
      · split
        · exact .inr (.inr rfl)
        · exact .inl rfl
    · exact absurd e hclr
    · have hrd : w.reads = false := by rw [reads, e]; rfl
      have hcnt1 : w'.rdCnt = 1 := by rw [hcnt, hrd, cnt]; rfl
      refine .rdPct (by simpa [nextState, e] using hs) (by omega) (by omega) ?_ ?_
      · rw [hr, hrd, hcnt1]; rfl
      · rw [hv, rdreq, hcnt1]; rfl
  | rdPct state pos le rdreq valid =>
    have hrd : w.reads = true := by rw [reads, state]; rfl
    have hmax : dec16 w.rdCntMax = p.len := by
      rw [(h.regs (h.cnt_pos (by simp [state]) (by simp [state]))).1]
      exact dec16_of_pos (Nat.succ_pos _) (by omega)
    have hcnt' : w'.rdCnt = w.rdCnt + 1 := by rw [hcnt, hrd]; rfl
    simp only [nextState, state, hmax] at hs
    by_cases hlt : w.rdCnt < p.len
    · refine .rdPct (by simpa [hlt] using hs) (by omega) (by omega) ?_ ?_
      · rw [hr, hrd, hcnt']; exact (decide_eq_true (by omega)).symm
      · rw [hv, rdreq, hcnt']; simp
    · refine .waitWrEnd (by simpa [hlt] using hs) (by omega) ?_ ?_
      · intro _; rw [hv, rdreq]; exact decide_eq_true (by omega)
      · intro hf; rw [hv, rdreq] at hf; simp only [decide_eq_false_iff_not] at hf; omega
  | waitWrEnd state cnt valid writes =>
    have hrd : w.reads = false := by rw [reads, state]; rfl
    have hdv := hend state
    have hpos := h.cnt_pos (by simp [state]) (by simp [state])
    simp only [nextState, state, hdv] at hs
    refine .waitWrEnd (by simpa using hs) (by rw [hcnt, hrd, cnt]; rfl) ?_ ?_
    · intro hq; rw [hr, hrd] at hq; exact absurd hq (by decide)
    · intro _; rw [hw, payloadHere, hdv]; simpa using hpos

/-- The packet is carried one clock further; `q'` is what `one_pct_fifo` shows then. -/
theorem Carry.step (h : Carry p q w) (hread : w.inPctRdreqInt = true → p.words[w.taken]? = some q')
    (hkeep : w.inPctRdreqInt = false → q' = q) (hclr : w.currentState ≠ .clrFifo)
    (hend : w.currentState = .waitWrEnd → w.inPctDataValid = true) :
    Carry p q' (w.step pctSyncDis sampleNr q inPctRdy pctBuffRdy) where
  phase := h.step_phase hclr hend
  count := by rw [h.step_taken, h.step_rdCnt]; rfl
  data := by rw [h.step_taken]; exact h.step_data hread hkeep
  regs := h.step_regs
  hdr0 i := by rw [h.step_tags, h.cur_eq]; simp [P2dWrFsm.step]
  hdr1 i := by rw [h.step_tags, h.cur_eq]; simp [P2dWrFsm.step]
  wrreq i := by
    rw [step_writes (fun e => h.not_away (e ▸ .checkNextBuf)), h.cur_eq]; simp [P2dWrFsm.step]
  wdata hw := by
    rw [step_writes (fun e => h.not_away (e ▸ .checkNextBuf))] at hw
    exact h.step_wdata hw

theorem quiet_step (hr : w.reads = false) (hq : w.inPctRdreqInt = false)
    (hv : w.inPctDataValid = false) :
    Quiet (w.step pctSyncDis sampleNr q inPctRdy pctBuffRdy) where
  rdreq := hr
  valid := hq
  hdr0 := by simp [step, headerHere, hv]
  hdr1 := by simp [step, headerHere, hv]
  wrreq := by simp [step, payloadHere, hv]

/-- `clr_fifo`: the packet is given up. -/
theorem Carry.step_clrFifo (h : Carry p q w) (hs : w.currentState = .clrFifo) :
    (w.step pctSyncDis sampleNr q inPctRdy pctBuffRdy).currentState = .idle ∧
    Quiet (w.step pctSyncDis sampleNr q inPctRdy pctBuffRdy) := by
  refine ⟨by simp [P2dWrFsm.step, nextState, hs], ?_⟩
  cases h.phase with
  | check _ _ rdreq valid => exact quiet_step (by simp [reads, hs]) rdreq valid
  | rdHdr e | waitCmprPipe e | rdPct e | waitWrEnd e => simp [hs] at e

/-- The last word is in the slot. -/
theorem Carry.step_finish (h : Carry p q w) (hs : w.currentState = .waitWrEnd)
    (hv : w.inPctDataValid = false) :
    (w.step pctSyncDis sampleNr q inPctRdy pctBuffRdy).currentState = .checkNextBuf ∧
    Quiet (w.step pctSyncDis sampleNr q inPctRdy pctBuffRdy) := by
  refine ⟨by simp [P2dWrFsm.step, nextState, hs, hv], ?_⟩
  cases h.phase with
  | waitWrEnd _ _ valid =>
    refine quiet_step (by simp [reads, hs]) ?_ hv
    cases hq : w.inPctRdreqInt
    · rfl
    · rw [valid hq] at hv; exact absurd hv (by decide)
  | rdHdr e | waitCmprPipe e | rdPct e => simp [hs] at e
  | check e => simp [hs] at e

/-- Nothing happens until `in_pct_rdy` is seen in `idle`. -/
theorem Quiet.step (h : Quiet w) (ha : Away w.currentState)
    (hrdy : w.currentState = .idle → inPctRdy = false) :
    Away (w.step pctSyncDis sampleNr q inPctRdy pctBuffRdy).currentState ∧
    Quiet (w.step pctSyncDis sampleNr q inPctRdy pctBuffRdy) := by
  refine ⟨?_, quiet_step ?_ h.rdreq h.valid⟩
  · generalize hs : w.currentState = st at ha
    cases ha with
    | idle => simp only [P2dWrFsm.step, nextState, hs, hrdy hs]; exact .idle
    | checkNextBuf =>
      simp only [P2dWrFsm.step, nextState, hs]
      split
      · exact .switchCurrentBuff
      · exact .checkNextBuf
    | switchCurrentBuff => simp only [P2dWrFsm.step, nextState, hs]; exact .idle
  · generalize hs : w.currentState = st at ha
    cases ha <;> simp [reads, hs]

/-- `idle` with `in_pct_rdy`: the machine goes to read the header. -/
theorem Quiet.step_open (h : Quiet w) (hs : w.currentState = .idle) (hrdy : inPctRdy = true)
    (p : Packet) : Carry p q' (w.step pctSyncDis sampleNr q inPctRdy pctBuffRdy) := by
  have hq : Quiet (w.step pctSyncDis sampleNr q inPctRdy pctBuffRdy) :=
    quiet_step (by simp [reads, hs]) h.rdreq h.valid
  have ht : (w.step pctSyncDis sampleNr q inPctRdy pctBuffRdy).taken = 0 := by
    rw [taken, hq.valid]; simp [P2dWrFsm.step, h.valid, hs]
  have hstate : (w.step pctSyncDis sampleNr q inPctRdy pctBuffRdy).currentState = .rdHdr := by
    simp [P2dWrFsm.step, nextState, hs, hrdy]
  have hcnt : (w.step pctSyncDis sampleNr q inPctRdy pctBuffRdy).rdCnt = 0 := by
    simp [P2dWrFsm.step, reads, hs]
  have htags : (w.step pctSyncDis sampleNr q inPctRdy pctBuffRdy).tags = false := by
    rw [tags, hstate]; rfl
  have hwr : (w.step pctSyncDis sampleNr q inPctRdy pctBuffRdy).writes = false := hq.wrreq _
  exact
    { phase := .rdHdr hstate hcnt (by simp [P2dWrFsm.step, hs])
      count := by rw [ht, hq.rdreq, hcnt]; rfl
      data := by rw [ht]; exact fun h => absurd h (by decide)
      regs := by
        rw [taken] at ht
        intro hpos; omega
      hdr0 := fun i => by rw [hq.hdr0, htags]; rfl
      hdr1 := fun i => by rw [hq.hdr1, htags]; rfl
      wrreq := fun i => by rw [hq.wrreq, hwr]; rfl
      wdata := by rw [hwr]; exact fun h => absurd h (by decide) }

/-! ### The slot's side -/

theorem Carry.step_tagged (h : Carry p q w) :
    Tagged (w.step pctSyncDis sampleNr q inPctRdy pctBuffRdy) ↔ w.Tagged ∨ w.tags = true := by
  have hp : (w.step pctSyncDis sampleNr q inPctRdy pctBuffRdy).pipeCnt =
      if w.currentState = .waitCmprPipe then (w.pipeCnt + 1) % 16 else 0 := rfl
  have hs : (w.step pctSyncDis sampleNr q inPctRdy pctBuffRdy).currentState =
      w.nextState pctSyncDis inPctRdy := rfl
  rw [Tagged, Tagged, tags, hp, hs]
  cases h.phase with
  | rdHdr state => simp [nextState, state]
  | waitCmprPipe state cnt le =>
    by_cases h4 : w.pipeCnt = 4
    · simp [nextState, state, h4]
    · have h3 : ¬ w.pipeCnt > 3 := by omega
      simp [nextState, state, h3]
      omega
  | check state =>
    rcases state with e | e | e <;> simp only [nextState, e] <;> repeat' split
    all_goals simp
  | rdPct state => simp only [nextState, state]; split <;> simp
  | waitWrEnd state => simp only [nextState, state]; split <;> simp

theorem Carry.stored_add (h : Carry p q w) :
    w.stored + w.writes.toNat = w.pctDataWrreqCnt - 1 := by
  unfold stored
  cases hw : w.writes
  · simp
  · have := (h.wdata hw).1
    simp only [Bool.toNat_true]; omega

theorem Carry.step_stored (h : Carry p q w) :
    (w.step pctSyncDis sampleNr q inPctRdy pctBuffRdy).stored = w.stored + w.writes.toNat := by
  have ht : (w.step pctSyncDis sampleNr q inPctRdy pctBuffRdy).taken = w.rdCnt := h.step_taken
  have hv : (w.step pctSyncDis sampleNr q inPctRdy pctBuffRdy).inPctDataValid = w.inPctRdreqInt := rfl
  have hc := h.count
  rw [h.stored_add, stored, step_writes (fun e => h.not_away (e ▸ .checkNextBuf)), payloadHere]
  rw [taken, hv] at ht
  rw [taken] at hc
  cases hd : w.inPctDataValid
  · rw [hd, Bool.toNat_false] at hc
    simp only [Bool.false_and, Bool.toNat_false]; omega
  · rw [hd, Bool.toNat_true] at hc
    by_cases hz : w.pctDataWrreqCnt > 0
    · simp only [hz, decide_true, Bool.and_self, Bool.toNat_true]; omega
    · simp only [hz, decide_false, Bool.and_false, Bool.toNat_false]; omega

/-- When the header is shown to the reader the slot is still empty. -/
theorem Carry.stored_of_tags (h : Carry p q w) (ht : w.tags = true) : w.stored = 0 := by
  simp only [tags, Bool.and_eq_true, beq_iff_eq] at ht
  have hs := h.stored_add
  have hc := h.count
  rw [taken] at hc
  cases h.phase with
  | waitCmprPipe _ cnt => omega
  | rdHdr e | rdPct e | waitWrEnd e => simp [ht.1] at e
  | check e => simp [ht.1] at e

/-- In `check_smpl_nr` the header has been taken, and nothing has been stored. -/
theorem Carry.of_check (h : Carry p q w) (hs : w.currentState = .checkSmplNr) :
    w.taken = 1 ∧ w.stored = 0 := by
  have hc := h.count
  cases h.phase with
  | check _ cnt rdreq =>
    rw [cnt, rdreq, Bool.toNat_false] at hc
    refine ⟨hc, ?_⟩
    have hst := h.stored_add
    rw [taken] at hc
    omega
  | rdHdr state | waitCmprPipe state | rdPct state | waitWrEnd state => simp [hs] at state

/-- The word being written is the next one of the payload. -/
theorem Carry.payload_stored (h : Carry p q w) (hw : w.writes = true) :
    p.payload[w.stored]? = some w.pctData := by
  obtain ⟨h2, hd⟩ := h.wdata hw
  have hs := h.stored_add
  rw [hw, Bool.toNat_true] at hs
  rw [show w.pctDataWrreqCnt - 1 = w.stored + 1 by omega] at hd
  exact hd

/-- The slot is full only after the last write. -/
theorem Carry.stored_lt (h : Carry p q w) : w.stored < p.len := by
  have hs := h.stored_add
  have hc := h.count
  have h2 := p.two_le_len
  rw [taken] at hc
  cases h.phase with
  | rdHdr _ cnt | waitCmprPipe _ cnt | check _ cnt => omega
  | rdPct _ _ le => omega
  | waitWrEnd _ cnt _ writes =>
    cases hd : w.inPctDataValid
    · rw [writes hd, Bool.toNat_true] at hs; omega
    · rw [hd, Bool.toNat_true] at hc; omega

/-- With the last word on the write port of the slot the packet is complete. -/
theorem Carry.finish_stored (h : Carry p q w) (hs : w.currentState = .waitWrEnd)
    (hv : w.inPctDataValid = false) : w.writes = true ∧ w.stored + 1 = p.len ∧ w.taken = p.len + 1 := by
  have hst := h.stored_add
  have hc := h.count
  have h2 := p.two_le_len
  cases h.phase with
  | waitWrEnd _ cnt valid writes =>
    have hq : w.inPctRdreqInt = false := by
      cases hq : w.inPctRdreqInt
      · rfl
      · rw [valid hq] at hv; exact absurd hv (by decide)
    rw [hq, Bool.toNat_false] at hc
    have ht : w.taken = w.pctDataWrreqCnt := by rw [taken, hv]; rfl
    rw [writes hv, Bool.toNat_true] at hst
    exact ⟨writes hv, by omega, by omega⟩
  | rdHdr e | waitCmprPipe e | rdPct e => simp [hs] at e
  | check e => simp [hs] at e

end steps

end P2dWrFsm

end Tx
