import LimeSdrGw.Tx.WriterStep
/-
# One clock of the slot FIFOs

What a slot FIFO holds follows the use of the slot: nothing while it is free, the words moved so far
while it is being filled, the payload when it is full, what is left of it while it is being read.
-/
namespace Tx

open Clocked P2dWrFsm

namespace TxPath

section registers

variable {p : Packet} {s : TxPath} {i : TxIn} {k : Fin buffCount}

theorem step_instx : (s.step i).inst1.instx k = (s.inst1.instx k).step 512 (!(s.rd.pctBuffClrN k))
    (s.wr.pctDataWrreq k) s.wr.pctData.halves (s.rd.pctBuffRdreq i.smplBuffAlmostFull k) := by
  simp [TxPath.step, Packets2data.step]

/-- A slot with no write holds what a read leaves of what its flags see. -/
theorem step_items_of_quiet (hw : s.wr.pctDataWrreq k = false) : ((s.step i).inst1.instx k).items =
    Fifo.popped (s.rd.pctBuffRdreq i.smplBuffAlmostFull k) (s.inst1.slotVisible k) := by
  rw [step_instx, hw, Packets2data.slotVisible]
  cases s.rd.pctBuffClrN k
  · cases s.rd.pctBuffRdreq i.smplBuffAlmostFull k <;> rfl
  · simp

theorem visible_of_items (h : ((s.step i).inst1.instx k).items = []) :
    (s.step i).inst1.slotVisible k = [] := by
  rw [Packets2data.slotVisible, Fifo.visible, h, ite_self]

/-- The tables keep a header until the next one comes. -/
theorem TaggedAs.step (h : TaggedAs p s k) (hv0 : s.wr.pctHdr0Valid k = false)
    (hv1 : s.wr.pctHdr1Valid k = false) : TaggedAs p (s.step i) k where
  size := by simpa [TxPath.step, Packets2data.step, hv0] using h.size
  hdr0 := by simpa [TxPath.step, Packets2data.step, P2dRd.step, hv0] using h.hdr0
  hdr1 := by simpa [TxPath.step, Packets2data.step, P2dRd.step, hv1] using h.hdr1

/-- The header reaches the tables of its slot. -/
theorem taggedAs_of_tags (h : s.wr.Carry p s.inst0.inst1.q) (ht : s.wr.tags = true)
    (hk : k = s.wr.currentBuffCnt) : TaggedAs p (s.step i) k := by
  have ht' := ht
  simp only [tags, Bool.and_eq_true, beq_iff_eq] at ht'
  have hcnt := h.cnt_pos (by omega) (by simp [ht'.1])
  obtain ⟨-, hr0, hr1⟩ := h.regs hcnt
  have hq : s.inst0.inst1.q = p.hdr := by
    have hc := h.count
    have hd := h.data
    cases h.phase with
    | waitCmprPipe _ cnt _ rdreq valid =>
      have ht1 : s.wr.taken = 1 := by
        rw [rdreq, ht'.2, cnt] at hc; simpa using hc
      rw [ht1] at hd
      exact (Option.some.inj (hd (by decide))).symm
    | rdHdr e | rdPct e | waitWrEnd e => simp [ht'.1] at e
    | check e => simp [ht'.1] at e
  have hv0 : s.wr.pctHdr0Valid k = true := by rw [h.hdr0, ht, hk]; simp
  have hv1 : s.wr.pctHdr1Valid k = true := by rw [h.hdr1, ht, hk]; simp
  constructor
  · have : (s.step i).inst1.pctBuffSize k =
        Packets2data.pctBuffSizeOf s.wr.pctHdr0Reg s.inst0.inst1.q := by
      simp [TxPath.step, Packets2data.step, hv0]
    rw [this, hr0, hq, Packets2data.pctBuffSizeOf_hdr]
  · simp [TxPath.step, Packets2data.step, P2dRd.step, hv0, hr0]
  · simp [TxPath.step, Packets2data.step, P2dRd.step, hv1, hr1]

end registers

namespace Inv

variable {ps : List Packet} {b : Book} {e : List Word64} {s : TxPath} {i : TxIn}
  {k : Fin buffCount} {j : Nat} {p : Packet}

theorem slot_free (I : Inv ps b e s) (hk : b.slot k = .free)
    (empty : s.inst1.slotVisible k = []) : SlotIs ps (s.step i) k ((note b s i).slot k) := by
  have f := I.fits (i := i)
  have hw := I.wr_quiet (k := k) (by simp [hk])
  have hitems : ((s.step i).inst1.instx k).items = [] := by
    rw [step_items_of_quiet hw.1, empty]; cases s.rd.pctBuffRdreq i.smplBuffAlmostFull k <;> rfl
  have hn := note_slot_free f hk
  by_cases ho : s.opens = true ∧ k = b.wp
  · -- the new packet has not sent a word yet
    rw [if_pos ho] at hn
    have hs := ho.1
    simp only [opens, Bool.and_eq_true, beq_iff_eq] at hs
    have hkw : k = (note b s i).wp := (note_ok I.book f).eq_wp_of_filling hn
    cases I.writer_step (i := i) with
    | away _ _ _ _ _ _ notFilling => exact absurd (hkw ▸ hn) (notFilling _)
    | carry j p hat slot =>
      have hj : j = b.next := by
        rw [← hkw, hn] at slot; exact (SlotUse.filling.inj slot).symm
      have hv : s.wr.inPctDataValid = false := by
        cases I.writer with
        | away _ quiet => exact quiet.valid
        | carry _ _ _ _ carry => exact absurd hs.1 carry.not_idle
      have hcnt : (s.step i).wr.pctDataWrreqCnt = 0 := by
        simp [TxPath.step, Packets2data.step, P2dWrFsm.step, hs.1, hv]
      rw [hn, ← hj]
      refine .filling j p hat ?_ fun h => ?_
      · rw [hitems, P2dWrFsm.stored, hcnt]; simp
      · exact absurd (by simp [TxPath.step, Packets2data.step, P2dWrFsm.step, nextState, hs.1, hs.2]) h.1
  · rw [if_neg ho] at hn
    rw [hn]
    exact .free (visible_of_items hitems)

/-- What the write of the carried word makes of the slot. -/
theorem filling_items (I : Inv ps b e s) (hk : b.slot k = .filling j) (hcur : s.wr.currentBuffCnt = k)
    (carry : s.wr.Carry p s.inst0.inst1.q)
    (items : (s.inst1.instx k).items = p.payload64.take (2 * s.wr.stored)) :
    ((s.step i).inst1.instx k).items =
      p.payload64.take (2 * (s.wr.stored + s.wr.writes.toNat)) := by
  have hc := I.clrN (k := k) (by simp [hk])
  have hr := I.rd_quiet (i := i) (k := k) (by simp [hk])
  have hw : s.wr.pctDataWrreq k = s.wr.writes := by rw [carry.wrreq, hcur]; simp
  rw [step_instx, hc, hr, hw, Bool.not_true, Fifo.step_items, Fifo.popped_false]
  cases hwr : s.wr.writes
  · simpa using items
  · have hlen : (s.inst1.instx k).items.length + s.wr.pctData.halves.length ≤ 512 := by
      have h255 := p.len_le
      have hlt := carry.stored_lt
      rw [items, List.length_take, p.length_payload64]
      simp only [Word128.halves, List.length_cons, List.length_nil]; omega
    rw [Fifo.pushed_true hlen, items, Bool.toNat_true,
      p.take_payload64_succ (carry.payload_stored hwr)]

theorem slot_filling (I : Inv ps b e s) (hk : b.slot k = .filling j) (hat : ps[j]? = some p)
    (items : (s.inst1.instx k).items = p.payload64.take (2 * s.wr.stored))
    (tag : s.wr.Tagged → TaggedAs p s k) : SlotIs ps (s.step i) k ((note b s i).slot k) := by
  have f := I.fits (i := i)
  have hkw := I.book.eq_wp_of_filling hk
  have hn := note_slot_filling I.book f hk
  cases I.writer with
  | away _ _ _ _ _ _ notFilling => exact absurd (hkw ▸ hk) (notFilling j)
  | carry j' p' at' slot carry cur =>
    rw [← hkw] at cur slot
    obtain rfl := SlotUse.filling.inj (slot.symm.trans hk)
    obtain rfl := Option.some.inj (at'.symm.trans hat)
    have hitems := I.filling_items (i := i) hk cur carry items
    by_cases hr : s.rejects = true
    · have hs : s.wr.currentState = .clrFifo := by simpa [rejects] using hr
      have hzero : s.wr.stored + s.wr.writes.toNat = 0 := by
        rw [carry.stored_add]
        have hc := carry.count
        rw [taken] at hc
        cases carry.phase with
        | check _ cnt => omega
        | rdHdr e | waitCmprPipe e | rdPct e | waitWrEnd e => simp [hs] at e
      rw [hzero] at hitems
      rw [hn, hr]
      exact .free (visible_of_items (by simpa using hitems))
    by_cases hf : s.finishes = true
    · have hs := hf
      simp only [finishes, Bool.and_eq_true, beq_iff_eq, Bool.not_eq_true'] at hs
      obtain ⟨hw, hlen, -⟩ := carry.finish_stored hs.1 hs.2
      have ht : s.wr.tags = false := by simp [tags, hs.1]
      rw [hn, if_neg hr, if_pos hf]
      refine .full _ _ hat ?_ ((tag ⟨by simp [hs.1], by simp [hs.1]⟩).step ?_ ?_)
      · rw [hitems, hw, Bool.toNat_true, hlen, ← Packet.length_payload64, List.take_length]
      · rw [carry.hdr0, ht]; rfl
      · rw [carry.hdr1, ht]; rfl
    · have hst : (s.step i).wr.stored = s.wr.stored + s.wr.writes.toNat := carry.step_stored
      rw [hn, if_neg hr, if_neg hf]
      refine .filling _ _ hat (by rw [hst, hitems]) fun ht => ?_
      by_cases htag : s.wr.tags = true
      · exact taggedAs_of_tags carry htag cur.symm
      · have htag' : s.wr.tags = false := by simpa using htag
        refine (tag ?_).step ?_ ?_
        · exact (carry.step_tagged.1 ht).resolve_right htag
        · rw [carry.hdr0, htag']; rfl
        · rw [carry.hdr1, htag']; rfl

theorem slot_full (I : Inv ps b e s) (hk : b.slot k = .full j) (hat : ps[j]? = some p)
    (items : (s.inst1.instx k).items = p.payload64) (tag : TaggedAs p s k) :
    SlotIs ps (s.step i) k ((note b s i).slot k) := by
  have f := I.fits (i := i)
  have hw := I.wr_quiet (k := k) (by simp [hk])
  have hr := I.rd_quiet (i := i) (k := k) (by simp [hk])
  have hitems : ((s.step i).inst1.instx k).items = p.payload64 := by
    rw [step_items_of_quiet hw.1, hr, I.visible (by simp [hk])]; exact items
  have htag : TaggedAs p (s.step i) k := tag.step hw.2.1 hw.2.2
  have hn := note_slot_full f hk
  by_cases hrp : k = b.rp
  · rw [if_pos hrp] at hn
    by_cases ht : s.takes i = true
    · have hs := (idle_of_takes (.inl ht)).1
      have hz : (s.step i).rd.rdCnt = 0 := by
        simp [TxPath.step, Packets2data.step, P2dRd.step, hs]
      rw [hn, if_pos ht]
      exact .reading j p hat (by rw [hitems, hz, List.drop_zero]) htag
    by_cases hd : s.discards i = true
    · -- the clear is asserted in the clock after the decision
      have hs := hd
      simp only [discards, Bool.and_eq_true, beq_iff_eq] at hs
      have hcrnt : k = s.rd.crntBuffCnt := by
        cases I.reader with
        | idle _ rp => rw [hrp, rp]
        | reading state => simp [hs.1] at state
        | clear state | leave state | arrive state => simp [hs.1] at state
      have hstate : (s.step i).rd.currentState = .clrBuff := hs.2
      have hcrnt' : (s.step i).rd.crntBuffCnt = s.rd.crntBuffCnt := by
        simp [TxPath.step, Packets2data.step, P2dRd.step, hs.1]
      rw [hn, if_neg ht, if_pos hd]
      refine .free ?_
      simp [Packets2data.slotVisible, P2dRd.pctBuffClrN, hstate, hcrnt', hcrnt]
    · rw [hn, if_neg ht, if_neg hd]
      exact .full j p hat hitems htag
  · rw [hn, if_neg hrp]
    exact .full j p hat hitems htag

/-- The counter and the slot move together while the slot is read. -/
theorem step_rdCnt (I : Inv ps b e s) (hk : b.slot k = .reading j) : (s.step i).rd.rdCnt =
    s.rd.rdCnt + (s.rd.pctBuffRdreq i.smplBuffAlmostFull k).toNat := by
  have hrp := I.book.eq_rp_of_reading hk
  cases I.reader with
  | reading state rp j' p' _ _ _ _ lt =>
    have hi : s.rd.currentState ≠ .idle := by rcases state with h | h <;> simp [h]
    have h255 := p'.len_le
    have hs : (s.step i).rd.rdCnt = if s.rd.currentState = .idle then 0
      else if s.rd.rdReqInt i.smplBuffAlmostFull then inc16 s.rd.rdCnt else s.rd.rdCnt := rfl
    rw [hs, if_neg hi, P2dRd.pctBuffRdreq, hrp, rp]
    cases s.rd.rdReqInt i.smplBuffAlmostFull
    · rfl
    · simp only [if_true, beq_self_eq_true, Bool.and_self, Bool.toNat_true]
      exact inc16_of_lt (by omega)
  | idle _ _ slot | clear _ _ _ slot | leave _ _ slot | arrive _ _ slot =>
    exact absurd (hrp ▸ hk) (slot j)

/-- The last word is read when the reader leaves. -/
theorem releases_rdCnt (I : Inv ps b e s) (hk : b.slot k = .reading j) (hat : ps[j]? = some p) :
    s.releases i = (s.rd.pctBuffRdreq i.smplBuffAlmostFull k && s.rd.rdCnt == 2 * p.len - 1) := by
  have hrp := I.book.eq_rp_of_reading hk
  cases I.reader with
  | reading state rp j' p' slot at' _ max lt =>
    rw [← hrp, hk] at slot
    obtain rfl := SlotUse.reading.inj slot
    obtain rfl := Option.some.inj (at'.symm.trans hat)
    have h255 := p'.len_le
    have h2 := p'.two_le_len
    have hd : dec16 s.rd.rdCntMax = 2 * p'.len - 1 := by
      rw [max]; exact dec16_of_pos (by omega) (by omega)
    rw [releases, P2dRd.pctBuffRdreq, P2dRd.rdReqInt, P2dRd.nextState, hd, hrp, rp]
    rcases state with h | h
    · simp only [h]
      cases i.smplBuffAlmostFull
      · by_cases hl : s.rd.rdCnt < 2 * p'.len - 1
        · have hne : (s.rd.rdCnt == 2 * p'.len - 1) = false := by rw [beq_eq_false_iff_ne]; omega
          simp [hl, hne]
        · have he : s.rd.rdCnt = 2 * p'.len - 1 := by omega
          simp [he]
      · simp
    · have hne : (RdState.rdHold == RdState.rdBuff) = false := rfl
      simp only [h, hne, Bool.false_and]
  | idle _ _ slot | clear _ _ _ slot | leave _ _ slot | arrive _ _ slot =>
    exact absurd (hrp ▸ hk) (slot j)

theorem slot_reading (I : Inv ps b e s) (hk : b.slot k = .reading j) (hat : ps[j]? = some p)
    (items : (s.inst1.instx k).items = p.payload64.drop s.rd.rdCnt) (tag : TaggedAs p s k) :
    SlotIs ps (s.step i) k ((note b s i).slot k) := by
  have f := I.fits (i := i)
  have hw := I.wr_quiet (k := k) (by simp [hk])
  have hitems : ((s.step i).inst1.instx k).items = p.payload64.drop (s.step i).rd.rdCnt := by
    rw [step_items_of_quiet hw.1, I.visible (by simp [hk]), I.step_rdCnt hk, items]
    cases s.rd.pctBuffRdreq i.smplBuffAlmostFull k
    · rfl
    · exact List.tail_drop
  rw [note_slot_reading I.book f hk]
  split
  next hrel =>
    rw [I.releases_rdCnt hk hat, Bool.and_eq_true, beq_iff_eq] at hrel
    refine .free (visible_of_items ?_)
    rw [hitems, I.step_rdCnt hk, hrel.1, List.drop_eq_nil_iff, p.length_payload64, Bool.toNat_true]
    omega
  · exact .reading j p hat hitems (tag.step hw.2.1 hw.2.2)

theorem slots_step (I : Inv ps b e s) (k : Fin buffCount) :
    SlotIs ps (s.step i) k ((note b s i).slot k) := by
  have h := I.slots k
  generalize hu : b.slot k = u at h
  cases h with
  | free empty => exact I.slot_free hu empty
  | filling j p hat items tag => exact I.slot_filling hu hat items tag
  | full j p hat items tag => exact I.slot_full hu hat items tag
  | reading j p hat items tag => exact I.slot_reading hu hat items tag

end Inv

end TxPath

end Tx
