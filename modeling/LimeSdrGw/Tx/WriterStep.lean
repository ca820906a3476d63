import LimeSdrGw.Tx.Inv
/-
# One clock of `p2d_wr_fsm` and `one_pct_fifo`

`Writer` passes from one clock to the next: in `idle` the machine may find a packet, on the way it
moves words and at the end it goes round the ring, and in each case `one_pct_fifo` is in the phase
that fits.
-/
namespace Tx

open Clocked P2dWrFsm

namespace TxPath

section notFilling

variable {ps : List Packet} {b : Book} {e : List Word64} {s : TxPath} {i : TxIn}
  {k : Fin buffCount}

/-- Only the writer's own slot begins to be filled. -/
theorem note_notFilling (h : b.Ok) (f : Fits b s i) (hk : ∀ j, b.slot k ≠ .filling j)
    (ho : s.opens = true → k ≠ b.wp) (j : Nat) : (note b s i).slot k ≠ .filling j := by
  cases hu : b.slot k with
  | free =>
    rw [note_slot_free f hu]
    split
    next h' => exact absurd h'.2 (ho h'.1)
    · nofun
  | filling j => exact absurd hu (hk j)
  | full j => rw [note_slot_full f hu]; repeat' split
              all_goals nofun
  | reading j => rw [note_slot_reading h f hu]; split <;> nofun

/-- Only the slot at `rp` begins to be read. -/
theorem note_notReading (h : b.Ok) (f : Fits b s i) (hk : ∀ j, b.slot k ≠ .reading j)
    (ht : s.takes i = true → k ≠ b.rp) (j : Nat) : (note b s i).slot k ≠ .reading j := by
  cases hu : b.slot k with
  | free => rw [note_slot_free f hu]; split <;> nofun
  | filling j => rw [note_slot_filling h f hu]; repeat' split
                 all_goals nofun
  | full j =>
    rw [note_slot_full f hu]
    split
    next hr =>
      split
      next h' => exact absurd hr (ht h')
      · split <;> nofun
    · nofun
  | reading j => exact absurd hu (hk j)

/-- A packet being moved has just been found, or was being moved before. -/
theorem of_note_filling (h : b.Ok) (f : Fits b s i) {j : Nat}
    (hk : (note b s i).slot k = .filling j) : s.opens = true ∨
      b.slot k = .filling j ∧ s.rejects = false ∧ s.finishes = false := by
  by_cases ho : s.opens = true
  · exact .inl ho
  · refine .inr ?_
    cases hu : b.slot k with
    | filling l =>
      rw [note_slot_filling h f hu] at hk
      cases hr : s.rejects <;> cases hf : s.finishes <;> simp [hr, hf] at hk ⊢
      exact hk
    | free | full | reading =>
      exact absurd hk (note_notFilling h f (by simp [hu]) (fun h => absurd h ho) j)

end notFilling

namespace Inv

variable {ps : List Packet} {b : Book} {e : List Word64} {s : TxPath} {i : TxIn}

/-- `idle` finds a complete packet. -/
theorem writer_opens (I : Inv ps b e s) (ho : s.opens = true) :
    Writer ps (note b s i) (s.step i) := by
  have f := I.fits (i := i)
  have hs := ho
  simp only [opens, Bool.and_eq_true, beq_iff_eq] at hs
  cases I.writer with
  | carry _ _ _ _ carry => exact absurd hs.1 carry.not_idle
  | away state quiet feed next cur free =>
    obtain ⟨p, rest, hd, drain⟩ := feed.open_step (i := i) hs.2 quiet.rdreq (by simp [hs.1])
    have hat : ps[b.next]? = some p := by
      have := congrArg List.head? hd
      simpa [List.head?_drop] using this
    have hrest : ps.drop (b.next + 1) = rest := by
      have := congrArg List.tail hd
      simpa [List.tail_drop] using this
    have hf : s.finishes = false := by simp [finishes, hs.1]
    have hw : (note b s i).wp = b.wp := by rw [note_wp f, hf]; rfl
    have hc : (s.step i).wr.Carry p (s.step i).inst0.inst1.q :=
      quiet.step_open hs.1 hs.2 p
    have hstate : (s.step i).wr.currentState = .rdHdr := by
      simp [TxPath.step, Packets2data.step, P2dWrFsm.step, nextState, hs.1, hs.2]
    have ht : (s.step i).wr.taken = 0 := by
      have := hc.count
      cases hc.phase with
      | rdHdr _ cnt => omega
      | waitCmprPipe e | rdPct e | waitWrEnd e => simp [hstate] at e
      | check e => simp [hstate] at e
    refine .carry b.next p hat ?_ hc ?_ ?_ (fun _ => ?_) (fun h => ?_)
    · rw [hw, note_slot_free f (free (by simp [hs.1]))]; simp [ho]
    · rw [hw]; simp [TxPath.step, Packets2data.step, P2dWrFsm.step, hs.1, cur]
    · rw [hw, hstate]; simp [TxPath.step, Packets2data.step, P2dWrFsm.step, hs.1, next]
    · rw [ht, note_next, ho, if_pos rfl, hrest]; exact drain
    · omega

/-- No packet is in hand and none is found. -/
theorem writer_away (I : Inv ps b e s) (ha : Away s.wr.currentState) (ho : s.opens = false) :
    Writer ps (note b s i) (s.step i) := by
  have f := I.fits (i := i)
  cases I.writer with
  | carry _ _ _ _ carry => exact absurd ha carry.not_away
  | away _ quiet feed next cur free notFilling rdy =>
    have hrdy : s.wr.currentState = .idle → s.inst0.pctRdyReg = false := by
      intro h; simpa [opens, h] using ho
    have hclr : s.wr.currentState ≠ .clrFifo := fun h => by rw [h] at ha; cases ha
    have hfin : s.finishes = false := by
      generalize hst : s.wr.currentState = st at ha
      cases ha <;> simp [finishes, hst]
    have hsw : s.wr.currentState ≠ .switchNextBuff := fun h => by rw [h] at ha; cases ha
    have hwp : (note b s i).wp = b.wp := by rw [note_wp f, hfin]; rfl
    have hnx : (note b s i).next = b.next := by rw [note_next, ho]; rfl
    obtain ⟨ha', hq'⟩ : Away (s.step i).wr.currentState ∧ (s.step i).wr.Quiet :=
      quiet.step ha hrdy
    have hnext : (s.step i).wr.nextBuffCnt = b.wp := by
      simp [TxPath.step, Packets2data.step, P2dWrFsm.step, hsw, next]
    have hstay : b.slot b.wp = .free → (note b s i).slot b.wp = .free := fun h => by
      rw [note_slot_free f h, ho]; simp
    have hnf := note_notFilling (i := i) I.book f notFilling (fun h => absurd h (by simp [ho]))
    refine .away ha' hq' (hnx ▸ feed.step quiet.rdreq hclr) (hwp ▸ hnext) ?_ ?_ (hwp ▸ hnf) ?_
    all_goals
      rw [hwp]
      have hs : (s.step i).wr.currentState = s.wr.nextState i.pctSyncDis s.inst0.pctRdyReg := rfl
    · -- the current slot follows the next one in `check_next_buf`
      intro h
      by_cases hc : s.wr.currentState = .checkNextBuf
      · simp [TxPath.step, Packets2data.step, P2dWrFsm.step, hc, next]
      · simp [TxPath.step, Packets2data.step, P2dWrFsm.step, hc, cur hc]
    · intro h
      by_cases hc : s.wr.currentState = .checkNextBuf
      · cases hn : s.wr.nextBuffRdy
        · exact absurd (by rw [hs]; simp [nextState, hc, hn]) h
        · exact hstay (rdy hc hn)
      · exact hstay (free hc)
    · intro _ hr
      have hr' : s.inst1.wrempty s.wr.nextBuffCnt = true := hr
      rw [next] at hr'
      exact hstay (I.free_of_wrempty notFilling hr')

/-- `clr_fifo`. -/
theorem writer_rejects (I : Inv ps b e s) (hr : s.rejects = true) :
    Writer ps (note b s i) (s.step i) := by
  have f := I.fits (i := i)
  have hs : s.wr.currentState = .clrFifo := by simpa [rejects] using hr
  cases I.writer with
  | away state => rw [hs] at state; cases state
  | carry j p hat slot carry cur next drain =>
    have hpos := carry.cnt_pos (by simp [hs]) (by simp [hs])
    have h2 := p.two_le_len
    have ht : s.wr.taken = 1 := by
      have hc := carry.count
      cases carry.phase with
      | check _ cnt rdreq => rw [rdreq, Bool.toNat_false] at hc; omega
      | rdHdr e | waitCmprPipe e | rdPct e | waitWrEnd e => simp [hs] at e
    have ho : s.opens = false := by simp [opens, hs]
    have hfin : s.finishes = false := by simp [finishes, hs]
    have hwp : (note b s i).wp = b.wp := by rw [note_wp f, hfin]; rfl
    have hnx : (note b s i).next = b.next := by rw [note_next, ho]; rfl
    have hfree : (note b s i).slot b.wp = .free := by
      rw [note_slot_filling I.book f slot, hr]; rfl
    obtain ⟨hidle', hq'⟩ : (s.step i).wr.currentState = .idle ∧ (s.step i).wr.Quiet :=
      carry.step_clrFifo hs
    refine .away (hidle' ▸ .idle) hq' (.drained ?_) ?_ (fun _ => ?_) (fun _ => ?_) ?_ ?_
    · rw [hnx]; exact (drain (by omega)).clear hs (by omega)
    · rw [hwp]; simp [TxPath.step, Packets2data.step, P2dWrFsm.step, hs, next]
    · rw [hwp]; simp [TxPath.step, Packets2data.step, P2dWrFsm.step, hs, cur]
    · rw [hwp, hfree]
    · rw [hwp, hfree]; simp
    · rw [hidle']; simp

/-- The last word is in the slot. -/
theorem writer_finishes (I : Inv ps b e s) (hf : s.finishes = true) :
    Writer ps (note b s i) (s.step i) := by
  have f := I.fits (i := i)
  have hs := hf
  simp only [finishes, Bool.and_eq_true, beq_iff_eq, Bool.not_eq_true'] at hs
  cases I.writer with
  | away state => rw [hs.1] at state; cases state
  | carry j p hat slot carry cur next drain done =>
    obtain ⟨hw, -, ht⟩ := carry.finish_stored hs.1 hs.2
    have ho : s.opens = false := by simp [opens, hs.1]
    have hwp : (note b s i).wp = nextBuff b.wp := by rw [note_wp f, hf]; rfl
    have hnx : (note b s i).next = b.next := by rw [note_next, ho]; rfl
    have hrq : s.wr.inPctRdreqInt = false := by
      have hc := carry.count
      have := carry.rdCnt_le
      cases hq : s.wr.inPctRdreqInt
      · rfl
      · rw [hq, Bool.toNat_true] at hc; omega
    have hnf : ∀ j, b.slot (nextBuff b.wp) ≠ .filling j := fun j h =>
      nextBuff_ne _ (I.book.eq_wp_of_filling h)
    obtain ⟨hchk', hq'⟩ : (s.step i).wr.currentState = .checkNextBuf ∧ (s.step i).wr.Quiet :=
      carry.step_finish hs.1 hs.2
    have hnext : s.wr.nextBuffCnt = nextBuff b.wp := by rw [next, hs.1]; simp
    refine .away (hchk' ▸ .checkNextBuf) hq' ?_ ?_ ?_ ?_ ?_ ?_
    · rw [hnx]; exact (done (by omega)).step hrq (by simp [hs.1])
    · rw [hwp]; simp [TxPath.step, Packets2data.step, P2dWrFsm.step, hs.1, hnext]
    · intro h; exact absurd hchk' h
    · intro h; exact absurd hchk' h
    · rw [hwp]
      exact note_notFilling I.book f hnf fun _ => nextBuff_ne _
    · intro _ hr
      have hr' : s.inst1.wrempty s.wr.nextBuffCnt = true := hr
      rw [hnext] at hr'
      rw [hwp, note_slot_free f (I.free_of_wrempty hnf hr')]
      simp [ho]

/-- The packet in hand is carried on. -/
theorem writer_carry (I : Inv ps b e s) (ha : ¬ Away s.wr.currentState) (hr : s.rejects = false)
    (hf : s.finishes = false) : Writer ps (note b s i) (s.step i) := by
  have f := I.fits (i := i)
  cases I.writer with
  | away state => exact absurd state ha
  | carry j p hat slot carry cur next drain done =>
    have hclr : s.wr.currentState ≠ .clrFifo := by simpa [rejects] using hr
    have hend : s.wr.currentState = .waitWrEnd → s.wr.inPctDataValid = true := by
      intro h; simpa [finishes, h] using hf
    have ho : s.opens = false := by simp [opens, carry.not_idle]
    have hwp : (note b s i).wp = b.wp := by rw [note_wp f, hf]; rfl
    have hnx : (note b s i).next = b.next := by rw [note_next, ho]; rfl
    have hcount := carry.count
    have hle := carry.rdCnt_le
    have hcarry : (s.step i).wr.Carry p (s.step i).inst0.inst1.q := by
      refine carry.step ?_ ?_ hclr hend
      · intro hq
        rw [hq, Bool.toNat_true] at hcount
        exact (drain (by omega)).read_q hq
      · exact Feed.step_q
    have ht : (s.step i).wr.taken = s.wr.rdCnt := carry.step_taken
    refine .carry j p hat ?_ hcarry ?_ ?_ ?_ ?_
    · rw [hwp, note_slot_filling I.book f slot, hr, hf]; rfl
    · rw [hwp, ← cur]; exact carry.cur_eq
    · -- `next_buff_cnt` moves on in `switch_next_buff`, just before `rd_pct`
      have hn : (s.step i).wr.nextBuffCnt = if s.wr.currentState = .switchNextBuff
        then nextBuff s.wr.nextBuffCnt else s.wr.nextBuffCnt := rfl
      have hst : (s.step i).wr.currentState = s.wr.nextState i.pctSyncDis s.inst0.pctRdyReg := rfl
      rw [hwp, hn, next, hst]
      cases carry.phase with
      | rdHdr state => simp [nextState, state]
      | waitCmprPipe state => by_cases h4 : s.wr.pipeCnt > 3 <;> simp [nextState, state, h4]
      | check state =>
        rcases state with h | h | h
        · simp only [nextState, h]; repeat' split
          all_goals simp_all
        · exact absurd h hclr
        · simp [nextState, h]
      | rdPct state => by_cases hl : s.wr.rdCnt < dec16 s.wr.rdCntMax <;> simp [nextState, state, hl]
      | waitWrEnd state => simp [nextState, state, hend state]
    · intro h
      rw [hnx, ht, ← hcount] at *
      cases hq : s.wr.inPctRdreqInt
      · rw [hq, Bool.toNat_false, Nat.add_zero] at h
        exact (drain h).step hq hclr
      · rw [hq, Bool.toNat_true] at h
        exact (drain (by omega)).read hq hclr h
    · intro h
      rw [hnx, ht, ← hcount] at *
      cases hq : s.wr.inPctRdreqInt
      · rw [hq, Bool.toNat_false, Nat.add_zero] at h
        exact (done h).step hq hclr
      · rw [hq, Bool.toNat_true] at h hle
        have heq : s.wr.taken = p.len := by omega
        exact .drained ((heq ▸ drain (by omega) : Feed.Drain p p.len _ _).read_last hq)

theorem writer_step (I : Inv ps b e s) : Writer ps (note b s i) (s.step i) := by
  by_cases ho : s.opens = true
  · exact I.writer_opens ho
  by_cases hr : s.rejects = true
  · exact I.writer_rejects hr
  by_cases hf : s.finishes = true
  · exact I.writer_finishes hf
  by_cases ha : Away s.wr.currentState
  · exact I.writer_away ha (by simpa using ho)
  · exact I.writer_carry ha (by simpa using hr) (by simpa using hf)

end Inv

end TxPath

end Tx
