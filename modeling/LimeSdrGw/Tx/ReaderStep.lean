import LimeSdrGw.Tx.SlotStep
/-
# One clock of `p2d_rd` and the output registers

The reader's part of the invariant, and the invariant as a whole over a run.
-/
namespace Tx

open Clocked P2dWrFsm

namespace TxPath

namespace Inv

variable {ps : List Packet} {b : Book} {e : List Word64} {s : TxPath} {i : TxIn}
  {k : Fin buffCount} {j : Nat} {p : Packet}

/-- The header of a packet that is complete is in the tables. -/
theorem tag_of_full (I : Inv ps b e s) (hk : b.slot k = .full j) (hat : ps[j]? = some p) :
    TaggedAs p s k := by
  have h := I.slots k
  rw [hk] at h
  cases h with
  | full _ p' hat' _ tag => rwa [Option.some.inj (hat.symm.trans hat')]

theorem exists_of_full (I : Inv ps b e s) (hk : b.slot k = .full j) : ∃ p, ps[j]? = some p := by
  have h := I.slots k
  rw [hk] at h
  cases h with
  | full _ p hat => exact ⟨p, hat⟩

/-- The ready flag the reader looks at next is that of a complete packet. -/
theorem full_of_rdy (I : Inv ps b e s) (hr : s.inst1.pctBuffRdyInt s.rd.crntBuffCnt = true)
    (hs : s.rd.currentState ≠ .clrBuff) (hrp : b.rp = s.rd.crntBuffCnt)
    (hn : ∀ j, b.slot b.rp ≠ .reading j) :
    ∃ j p, b.slot b.rp = .full j ∧ ps[j]? = some p ∧
      (s.step i).rd.crntBuffPayloadSize = Word64.sizeField p.hdr.hdr0 := by
  have hb := (I.rdy _ hr).resolve_right fun h => hs h.1
  rw [← hrp] at hb
  generalize hu : b.slot b.rp = u at hb
  cases hb with
  | full j =>
    obtain ⟨p, hat⟩ := I.exists_of_full hu
    refine ⟨j, p, rfl, hat, ?_⟩
    have := (I.tag_of_full hu hat).hdr0
    rw [hrp] at this
    simp [TxPath.step, Packets2data.step, P2dRd.step, this]
  | reading j => exact absurd hu (hn j)

/-- A slot that stays at the reader's mercy stays full. -/
theorem note_full_of_idle (I : Inv ps b e s) (hk : b.slot k = .full j)
    (ht : s.takes i = false) (hd : s.discards i = false) : (note b s i).slot k = .full j := by
  rw [note_slot_full I.fits hk, ht, hd]; simp

theorem releases_false (hs : s.rd.currentState ≠ .rdBuff) : s.releases i = false := by
  simp [releases, hs]

theorem takes_false (hs : s.rd.currentState ≠ .idle) : s.takes i = false ∧ s.discards i = false := by
  simp [takes, discards, hs]

/-- `idle` decides about the packet at `rp`, if there is one. -/
theorem reader_idle (I : Inv ps b e s) (hs : s.rd.currentState = .idle) :
    Reader ps (note b s i) (s.step i) := by
  have f := I.fits (i := i)
  have hrel : s.releases i = false := releases_false (by simp [hs])
  have hst : (s.step i).rd.currentState = s.rd.nextState i.pctSyncDis i.smplBuffAlmostFull := rfl
  have hcrnt : (s.step i).rd.crntBuffCnt = s.rd.crntBuffCnt := by
    simp [TxPath.step, Packets2data.step, P2dRd.step, hs]
  obtain ⟨rp, slot, rdy⟩ := I.reader.of_idle hs
  by_cases ht : s.takes i = true
  · have hd : s.discards i = false := by
      simp only [takes, Bool.and_eq_true, beq_iff_eq] at ht
      simp [discards, ht.2]
    obtain ⟨j, p, hj, hat, hsize⟩ := rdy (idle_of_takes (.inl ht)).2
    have hrp : (note b s i).rp = b.rp := by rw [note_rp f, hd, hrel]; rfl
    have h2 := p.two_le_len
    have htag := (I.tag_of_full hj hat).hdr0
    rw [rp] at htag
    refine .reading (.inl ?_) (by rw [hrp, hcrnt, rp]) j p ?_ hat ?_ ?_ ?_
    · rw [hst]; simp only [takes, Bool.and_eq_true, beq_iff_eq] at ht; exact ht.2
    · rw [hrp, note_slot_full f hj, if_pos rfl, if_pos ht]
    · simp [TxPath.step, Packets2data.step, P2dRd.step, htag]
    · have : (s.step i).rd.rdCntMax = P2dRd.rdCntMaxOf s.rd.crntBuffPayloadSize := rfl
      rw [this, hsize, P2dRd.rdCntMaxOf_hdr]
    · have : (s.step i).rd.rdCnt = 0 := by
        simp [TxPath.step, Packets2data.step, P2dRd.step, hs]
      omega
  by_cases hd : s.discards i = true
  · obtain ⟨j, p, hj, hat, -⟩ := rdy (idle_of_takes (.inr hd)).2
    have hrp : (note b s i).rp = nextBuff b.rp := by rw [note_rp f, hd]; rfl
    have hn : ∀ l, b.slot (nextBuff b.rp) ≠ .reading l := fun l h =>
      nextBuff_ne _ (I.book.eq_rp_of_reading h)
    refine .clear ?_ (by rw [hrp, hcrnt, rp]) ?_ ?_
    · rw [hst]; simp only [discards, Bool.and_eq_true, beq_iff_eq] at hd; exact hd.2
    · rw [hcrnt, ← rp, note_slot_full f hj, if_pos rfl, if_neg ht, if_pos hd]
    · rw [hrp]; exact note_notReading I.book f hn fun _ => nextBuff_ne _
  · have ht' : s.takes i = false := by simpa using ht
    have hd' : s.discards i = false := by simpa using hd
    have hrp : (note b s i).rp = b.rp := by rw [note_rp f, hd', hrel]; rfl
    refine .idle ?_ (by rw [hrp, hcrnt, rp]) ?_ fun hr => ?_
    · rw [hst]
      simp only [takes, discards, hs, beq_self_eq_true, Bool.true_and, beq_iff_eq] at ht hd
      unfold P2dRd.nextState at ht hd ⊢
      simp only [hs] at ht hd ⊢
      repeat' split
      all_goals simp_all
    · rw [hrp]; exact note_notReading I.book f slot fun h => absurd h ht
    · obtain ⟨j, p, hj, hat, hsize⟩ := I.full_of_rdy (i := i) hr (by simp [hs]) rp slot
      exact ⟨j, p, by rw [hrp]; exact I.note_full_of_idle hj ht' hd', hat, hsize⟩

/-- The reader reads, holds, or has read the last word. -/
theorem reader_reading (I : Inv ps b e s)
    (hs : s.rd.currentState = .rdBuff ∨ s.rd.currentState = .rdHold) :
    Reader ps (note b s i) (s.step i) := by
  have f := I.fits (i := i)
  have hni : s.rd.currentState ≠ .idle := by rcases hs with h | h <;> simp [h]
  have hsw : s.rd.currentState ≠ .switchNextBuff := by rcases hs with h | h <;> simp [h]
  obtain ⟨ht, hd⟩ := takes_false (i := i) hni
  have hst : (s.step i).rd.currentState = s.rd.nextState i.pctSyncDis i.smplBuffAlmostFull := rfl
  have hcrnt : (s.step i).rd.crntBuffCnt = s.rd.crntBuffCnt := by
    simp [TxPath.step, Packets2data.step, P2dRd.step, hsw]
  cases I.reader with
  | idle state => exact absurd state hni
  | clear state | leave state | arrive state => simp [state] at hs
  | reading _ rp j p slot hat size max lt =>
    have hrel := I.releases_rdCnt (i := i) slot hat
    have hcnt := I.step_rdCnt (i := i) slot
    have htag : s.rd.pctHdr0Array s.rd.crntBuffCnt = p.hdr.hdr0 := by
      have h := I.slots b.rp
      rw [slot] at h
      cases h with
      | reading _ p' hat' _ tag =>
        obtain rfl := Option.some.inj (hat.symm.trans hat')
        rw [← rp]; exact tag.hdr0
    by_cases hr : s.releases i = true
    · have hrp : (note b s i).rp = nextBuff b.rp := by rw [note_rp f, hr, Bool.or_true]; rfl
      have hn : ∀ l, b.slot (nextBuff b.rp) ≠ .reading l := fun l h =>
        nextBuff_ne _ (I.book.eq_rp_of_reading h)
      refine .leave ?_ (by rw [hrp, hcrnt, rp]) ?_
      · rw [hst]; simp only [releases, Bool.and_eq_true, beq_iff_eq] at hr; exact hr.2
      · rw [hrp]; exact note_notReading I.book f hn fun _ => nextBuff_ne _
    · have hr' : s.releases i = false := by simpa using hr
      have hrp : (note b s i).rp = b.rp := by rw [note_rp f, hd, hr']; rfl
      refine .reading ?_ (by rw [hrp, hcrnt, rp]) j p ?_ hat ?_ ?_ ?_
      · rw [hst]
        simp only [releases, Bool.and_eq_true, beq_iff_eq, not_and] at hr
        rcases hs with h | h
        · have := hr h
          unfold P2dRd.nextState at this ⊢
          simp only [h] at this ⊢
          repeat' split
          all_goals simp_all
        · unfold P2dRd.nextState
          simp only [h]
          split <;> simp
      · rw [hrp, note_slot_reading I.book f slot, hr']; rfl
      · simp [TxPath.step, Packets2data.step, P2dRd.step, htag]
      · have : (s.step i).rd.rdCntMax = P2dRd.rdCntMaxOf s.rd.crntBuffPayloadSize := rfl
        rw [this, size, P2dRd.rdCntMaxOf_hdr]
      · rw [hr'] at hrel
        rw [hcnt]
        cases hq : s.rd.pctBuffRdreq i.smplBuffAlmostFull b.rp
        · exact lt
        · have hne : s.rd.rdCnt ≠ 2 * p.len - 1 := by simpa [hq] using hrel.symm
          simp only [Bool.toNat_true]; omega

/-- On the way from one slot to the next. -/
theorem reader_moving (I : Inv ps b e s) (hni : s.rd.currentState ≠ .idle)
    (hnb : s.rd.currentState ≠ .rdBuff) (hnh : s.rd.currentState ≠ .rdHold) :
    Reader ps (note b s i) (s.step i) := by
  have f := I.fits (i := i)
  obtain ⟨ht, hd⟩ := takes_false (i := i) hni
  have hr := releases_false (i := i) hnb
  have hrp : (note b s i).rp = b.rp := by rw [note_rp f, hd, hr]; rfl
  have keep : (∀ l, b.slot b.rp ≠ .reading l) → ∀ l, (note b s i).slot (note b s i).rp ≠ .reading l :=
    fun h => by rw [hrp]; exact note_notReading I.book f h fun h => absurd h (by simp [ht])
  have hst : (s.step i).rd.currentState = s.rd.nextState i.pctSyncDis i.smplBuffAlmostFull := rfl
  have hcrnt : (s.step i).rd.crntBuffCnt = if s.rd.currentState = .switchNextBuff
    then nextBuff s.rd.crntBuffCnt else s.rd.crntBuffCnt := rfl
  cases I.reader with
  | idle state => exact absurd state hni
  | reading state => exact absurd state (by simp [hnb, hnh])
  | clear state rp free slot =>
    refine .leave ?_ ?_ (keep slot)
    · rw [hst, P2dRd.nextState, state]
    · rw [hrp, rp, hcrnt, state]; simp
  | leave state rp slot =>
    refine .arrive ?_ ?_ (keep slot)
    · rw [hst, P2dRd.nextState, state]
    · rw [hrp, rp, hcrnt, state]; simp
  | arrive state rp slot =>
    refine .idle ?_ ?_ (keep slot) fun hr => ?_
    · rw [hst, P2dRd.nextState, state]
    · rw [hrp, rp, hcrnt, state]; simp
    · obtain ⟨j, p, hj, hat, hsize⟩ := I.full_of_rdy (i := i) hr (by simp [state]) rp slot
      exact ⟨j, p, by rw [hrp]; exact I.note_full_of_idle hj ht hd, hat, hsize⟩

theorem reader_step (I : Inv ps b e s) : Reader ps (note b s i) (s.step i) := by
  by_cases hi : s.rd.currentState = .idle
  · exact I.reader_idle hi
  by_cases hb : s.rd.currentState = .rdBuff
  · exact I.reader_reading (.inl hb)
  by_cases hh : s.rd.currentState = .rdHold
  · exact I.reader_reading (.inr hh)
  · exact I.reader_moving hi hb hh

/-! ## Slot sizes and ready flags -/

theorem sizes_step (I : Inv ps b e s) (k : Fin buffCount) : 4 ≤ (s.step i).inst1.pctBuffSize k := by
  by_cases hv : s.wr.pctHdr0Valid k = true
  · cases I.writer with
    | away _ quiet => rw [quiet.hdr0 k] at hv; exact absurd hv (by decide)
    | carry j p _ _ carry cur =>
      have h2 := p.two_le_len
      rw [carry.hdr0, Bool.and_eq_true, beq_iff_eq] at hv
      rw [(taggedAs_of_tags (i := i) carry hv.1 hv.2).size]; omega
  · simpa [TxPath.step, Packets2data.step, hv] using I.sizes k

/-- Only a complete packet makes a slot ready. -/
theorem rdy_step (I : Inv ps b e s) (k : Fin buffCount)
    (hr : (s.step i).inst1.pctBuffRdyInt k = true) : ((note b s i).slot k).Back ∨
      (s.step i).rd.currentState = .clrBuff ∧ k = (s.step i).rd.crntBuffCnt := by
  have f := I.fits (i := i)
  have hlen : (s.inst1.slotVisible k).length = s.inst1.pctBuffSize k := by
    simpa [TxPath.step, Packets2data.step] using hr
  have hsz := I.sizes k
  have hs := I.slots k
  generalize hu : b.slot k = u at hs
  cases hs with
  | free empty => rw [empty] at hlen; simp at hlen; omega
  | filling j p hat items tag =>
    rw [I.visible (by simp [hu]), items, List.length_take, p.length_payload64] at hlen
    have hkw := I.book.eq_wp_of_filling hu
    cases I.writer with
    | away _ _ _ _ _ _ notFilling => exact absurd (hkw ▸ hu) (notFilling j)
    | carry j' p' at' slot carry =>
      rw [← hkw, hu] at slot
      obtain rfl := SlotUse.filling.inj slot
      obtain rfl := Option.some.inj (at'.symm.trans hat)
      have hlt := carry.stored_lt
      by_cases htag : s.wr.Tagged
      · rw [(tag htag).size] at hlen; omega
      · -- before that no payload word has arrived
        have hz : s.wr.stored = 0 := by
          have hc := carry.count
          have := carry.stored_add
          rw [taken] at hc
          unfold P2dWrFsm.Tagged at htag
          cases carry.phase with
          | rdHdr _ cnt | waitCmprPipe _ cnt | check _ cnt => omega
          | rdPct state | waitWrEnd state => simp [state] at htag
        rw [hz] at hlen; omega
  | full j p hat items tag =>
    rw [note_slot_full f hu]
    split
    next hrp =>
      split
      · exact .inl (.reading j)
      split
      next hd =>
        simp only [discards, Bool.and_eq_true, beq_iff_eq] at hd
        refine .inr ⟨hd.2, ?_⟩
        have hc : (s.step i).rd.crntBuffCnt = s.rd.crntBuffCnt := by
          simp [TxPath.step, Packets2data.step, P2dRd.step, hd.1]
        cases I.reader with
        | idle _ rp => rw [hc, hrp, rp]
        | reading state => simp [hd.1] at state
        | clear state | leave state | arrive state => simp [hd.1] at state
      · exact .inl (.full j)
    · exact .inl (.full j)
  | reading j p hat items tag =>
    have h2 := p.two_le_len
    rw [I.visible (by simp [hu]), items, List.length_drop, p.length_payload64, tag.size] at hlen
    have hrel := I.releases_rdCnt (i := i) hu hat
    have hne : (s.rd.rdCnt == 2 * p.len - 1) = false := by rw [beq_eq_false_iff_ne]; omega
    rw [hne, Bool.and_false] at hrel
    rw [note_slot_reading I.book f hu, hrel]
    exact .inl (.reading j)

end Inv

end TxPath

end Tx
