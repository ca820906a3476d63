import LimeSdrGw.Tx.ReaderStep
/-
# TX packet integrity

The invariant holds in every clock of every run, and with it: the words presented with
`smpl_buff_valid` are the payloads of the packets kept, whole and in order, and a slot is never
written while anything else uses it.
-/
namespace Tx

open Clocked P2dWrFsm

namespace TxPath

/-! ## The output registers -/

section output

variable {ps : List Packet} {b : Book} {e : List Word64} {s : TxPath} {i : TxIn}

theorem anyBit_rdreq (r : P2dRd) (almostFull : Bool) :
    Packets2data.anyBit (r.pctBuffRdreq almostFull) = r.rdReqInt almostFull := by
  unfold Packets2data.anyBit P2dRd.pctBuffRdreq
  generalize r.crntBuffCnt = c
  cases r.rdReqInt almostFull
  · rfl
  · revert c; decide

theorem step_validInt : (s.step i).inst1.smplBuffValidInt = s.rd.rdReqInt i.smplBuffAlmostFull :=
  anyBit_rdreq _ _

/-- The word presented and the words still in the registers, one clock on: a word read joins them. -/
theorem pending_step : presented s i ++ pending (s.step i) = pending s ++
    if s.rd.rdReqInt i.smplBuffAlmostFull then
      [((s.step i).inst1.instx (s.step i).rd.crntBuffCnt).q] else [] := by
  have hv : (s.step i).inst1.smplBuffValid = s.inst1.smplBuffValidInt := rfl
  have hq : (s.step i).inst1.smplBuffQ = (s.inst1.instx s.rd.crntBuffCnt).q := rfl
  rw [pending, pending, presented, step_validInt, hv, hq, List.append_assoc]

namespace Inv

theorem rdReqInt_false (hs : s.rd.currentState ≠ .rdBuff) :
    s.rd.rdReqInt i.smplBuffAlmostFull = false := by
  simp [P2dRd.rdReqInt, hs]

/-- The word read is the next one of the payload. -/
theorem read_word (I : Inv ps b e s) {j : Nat} (hk : b.slot b.rp = .reading j)
    (hr : s.rd.rdReqInt i.smplBuffAlmostFull = true) :
    (payloadAt ps j)[s.rd.rdCnt]? =
      some ((s.step i).inst1.instx (s.step i).rd.crntBuffCnt).q := by
  have hst : s.rd.currentState = .rdBuff := by
    simp only [P2dRd.rdReqInt, Bool.and_eq_true, beq_iff_eq] at hr; exact hr.1
  have hcrnt : (s.step i).rd.crntBuffCnt = s.rd.crntBuffCnt := by
    simp [TxPath.step, Packets2data.step, P2dRd.step, hst]
  cases I.reader with
  | reading _ rp j' p slot hat _ _ lt =>
    obtain rfl := SlotUse.reading.inj (slot.symm.trans hk)
    have hs := I.slots b.rp
    rw [hk] at hs
    cases hs with
    | reading _ p' hat' items =>
      obtain rfl := Option.some.inj (hat.symm.trans hat')
      have hlt : s.rd.rdCnt < p.payload64.length := by rw [p.length_payload64]; exact lt
      have hrd : s.rd.pctBuffRdreq i.smplBuffAlmostFull s.rd.crntBuffCnt = true := by
        simp [P2dRd.pctBuffRdreq, hr]
      rw [payloadAt_eq hat, hcrnt, step_instx, ← rp, I.clrN (by simp [hk]), rp, hrd, ← rp,
        Bool.not_true, Fifo.step_q, if_pos rfl, items, List.drop_eq_getElem_cons hlt,
        List.head?_cons, Option.getD_some, List.getElem?_eq_getElem hlt]
  | idle state | clear state | leave state | arrive state => simp [hst] at state

theorem out_step (I : Inv ps b e s) :
    ReadOut ps (note b s i) (s.step i).rd.rdCnt (e ++ presented s i ++ pending (s.step i)) := by
  have f := I.fits (i := i)
  rw [List.append_assoc, pending_step, ← List.append_assoc]
  cases I.out with
  | between slot words =>
    have hall : ∀ k j, b.slot k ≠ .reading j := fun k j h =>
      slot j (I.book.eq_rp_of_reading h ▸ h)
    have hrq : s.rd.rdReqInt i.smplBuffAlmostFull = false := by
      cases I.reader with
      | reading _ _ j _ h => exact absurd h (slot j)
      | idle state | clear state | leave state | arrive state => exact rdReqInt_false (by simp [state])
    rw [hrq, words]
    simp only [Bool.false_eq_true, if_false, List.append_nil]
    by_cases ht : s.takes i = true
    · obtain ⟨j, hj⟩ := f.takes ht
      have hs := (idle_of_takes (.inl ht)).1
      have hz : (s.step i).rd.rdCnt = 0 := by
        simp [TxPath.step, Packets2data.step, P2dRd.step, hs]
      have hd : s.discards i = false := by
        simp only [takes, Bool.and_eq_true, beq_iff_eq] at ht
        simp [discards, ht.2]
      have hrp : (note b s i).rp = b.rp := by
        rw [note_rp f, hd, releases_false (by simp [hs])]; rfl
      refine .reading b.kept j ?_ ?_ ?_
      · rw [hrp, note_slot_full f hj, if_pos rfl, if_pos ht]
      · rw [note_kept f hj, if_pos ht]
      · rw [hz]; simp
    · refine .between (note_notReading I.book f (hall _) fun h => absurd h ht) ?_
      rw [note_kept_of_not_takes (by simpa using ht)]
  | reading done j slot kept words =>
    have hcnt := I.step_rdCnt (i := i) slot
    have hrq : s.rd.pctBuffRdreq i.smplBuffAlmostFull b.rp = s.rd.rdReqInt i.smplBuffAlmostFull := by
      cases I.reader with
      | reading _ rp => simp [P2dRd.pctBuffRdreq, rp]
      | idle _ _ h | clear _ _ _ h | leave _ _ h | arrive _ _ h => exact absurd slot (h j)
    have ht : s.takes i = false := by
      cases ht : s.takes i
      · rfl
      · obtain ⟨l, hl⟩ := f.takes ht; rw [slot] at hl; cases hl
    have hd : s.discards i = false := by
      cases hd : s.discards i
      · rfl
      · obtain ⟨l, hl⟩ := f.discards hd; rw [slot] at hl; cases hl
    have hkept : (note b s i).kept = done ++ [j] := by rw [note_kept_of_not_takes ht, kept]
    have hwords : e ++ pending s ++ (if s.rd.rdReqInt i.smplBuffAlmostFull then
        [((s.step i).inst1.instx (s.step i).rd.crntBuffCnt).q] else []) =
        done.flatMap (payloadAt ps) ++ (payloadAt ps j).take (s.step i).rd.rdCnt := by
      rw [words, hcnt, hrq, List.append_assoc]
      congr 1
      cases hr : s.rd.rdReqInt i.smplBuffAlmostFull
      · simp
      · rw [Bool.toNat_true, List.take_add_one, I.read_word slot hr]; rfl
    rw [hwords]
    by_cases hrel : s.releases i = true
    · -- the last word: the packet has been read whole
      have hrp : (note b s i).rp = nextBuff b.rp := by rw [note_rp f, hrel, Bool.or_true]; rfl
      have hn : ∀ l, b.slot (nextBuff b.rp) ≠ .reading l := fun l h =>
        nextBuff_ne _ (I.book.eq_rp_of_reading h)
      refine .between (hrp ▸ note_notReading I.book f hn fun _ => nextBuff_ne _) ?_
      cases I.reader with
      | reading _ _ j' p slot' hat =>
        obtain rfl := SlotUse.reading.inj (slot'.symm.trans slot)
        have hl := I.releases_rdCnt (i := i) slot hat
        rw [hrel] at hl
        simp only [Eq.comm (a := true), Bool.and_eq_true, beq_iff_eq] at hl
        have hfull : (s.step i).rd.rdCnt = p.payload64.length := by
          have := p.two_le_len
          rw [hcnt, hl.1, hl.2, p.length_payload64, Bool.toNat_true]; omega
        rw [hkept, payloadAt_eq hat, hfull, List.take_length, List.flatMap_append]
        simp [payloadAt_eq hat]
      | idle _ _ h | clear _ _ _ h | leave _ _ h | arrive _ _ h => exact absurd slot (h j)
    · have hrp : (note b s i).rp = b.rp := by
        rw [note_rp f, hd, Bool.false_or, if_neg hrel]
      refine .reading done j ?_ hkept rfl
      rw [hrp, note_slot_reading I.book f slot, if_neg hrel]

theorem flushed_step (I : Inv ps b e s) : Flushed (s.step i) where
  idle hs := (I.flushed.moved (P2dRd.of_nextState_idle hs))
  moved hs := by
    refine step_validInt.trans (rdReqInt_false ?_)
    rcases hs with hs | hs
    · rcases P2dRd.of_nextState_idle hs with h | h <;> rw [h] <;> nofun
    · rw [P2dRd.of_nextState_checkNextBuf hs]; nofun
  reading hs := by
    have hv : (s.step i).inst1.smplBuffValid = s.inst1.smplBuffValidInt := rfl
    rw [hv, step_validInt]
    rcases P2dRd.of_nextState_reading hs with h | h
    · rw [I.flushed.moved (.inl h), rdReqInt_false (by simp [h])]
      exact Nat.zero_le _
    · have hle := I.flushed.reading h
      cases I.reader with
      | reading _ rp j p slot =>
        have hrq : s.rd.pctBuffRdreq i.smplBuffAlmostFull b.rp =
            s.rd.rdReqInt i.smplBuffAlmostFull := by
          simp [P2dRd.pctBuffRdreq, rp]
        rw [I.step_rdCnt slot, hrq]
        omega
      | idle state | clear state | leave state | arrive state => simp [state] at h

/-! ## The invariant over a run -/

theorem bound_step (I : Inv ps b e s) : (note b s i).next ≤ ps.length := by
  rw [note_next]
  split
  next ho =>
    simp only [opens, Bool.and_eq_true, beq_iff_eq] at ho
    cases I.writer with
    | carry _ _ _ _ carry => exact absurd ho.1 carry.not_idle
    | away _ quiet feed =>
      obtain ⟨p, rest, hd, -⟩ := feed.open_step (i := i) ho.2 quiet.rdreq (by simp [ho.1])
      have := congrArg List.length hd
      simp only [List.length_drop, List.length_cons] at this
      omega
  · exact I.bound

theorem step (I : Inv ps b e s) : Inv ps (note b s i) (e ++ presented s i) (s.step i) where
  book := note_ok I.book I.fits
  order := note_inOrder I.book I.fits I.order
  bound := I.bound_step
  writer := I.writer_step
  reader := I.reader_step
  slots := I.slots_step
  sizes := I.sizes_step
  rdy := I.rdy_step
  out := I.out_step
  flushed := I.flushed_step

theorem init (ps : List Packet) : Inv ps .empty [] (TxPath.init (ps.flatMap Packet.words)) where
  book := Book.empty_ok
  order := ⟨rfl, rfl, rfl⟩
  bound := Nat.zero_le _
  writer := by
    refine .away .idle ⟨rfl, rfl, fun _ => ?_, fun _ => ?_, fun _ => ?_⟩ (.idle ?_) rfl (fun _ => rfl)
      (fun _ => rfl) nofun nofun
    · exact Table.const_apply _ _
    · exact Table.const_apply _ _
    · exact Table.const_apply _ _
    · exact ⟨rfl, rfl, rfl, rfl, rfl, ⟨rfl, rfl, rfl⟩, rfl, rfl, rfl⟩
  reader := .idle rfl rfl nofun nofun
  slots k := by
    have hs : Book.empty.slot k = .free := Table.const_apply _ _
    rw [hs]
    refine .free ?_
    simp [Packets2data.slotVisible, TxPath.init, Packets2data.init, Fifo.empty, Fifo.visible]
  sizes k := by simp [TxPath.init, Packets2data.init]
  rdy k h := by simp [TxPath.init, Packets2data.init] at h
  out := .between nofun rfl
  flushed := ⟨fun _ => rfl, fun _ => rfl, fun _ => Nat.le_refl _⟩

end Inv

end output

section run

variable (ps : List Packet) (x : Nat → TxIn) (n : Nat)

theorem inv : Inv ps (book ps x n) (emitted ps x n)
    (pathAt ps x n) :=
  Machine.invariant (m := machine (ps.flatMap Packet.words))
    (P := fun n s => Inv ps (book ps x n) (emitted ps x n) s) (Inv.init ps) (fun _ h => h.step) n

/-- The words presented so far and those in the output registers, while no packet is being read. -/
theorem emitted_between {b : Book} {e : List Word64} {s : TxPath} (I : Inv ps b e s)
    (h : ∀ j, b.slot b.rp ≠ .reading j) : e ++ pending s = b.kept.flatMap (payloadAt ps) := by
  cases I.out with
  | reading _ j slot => exact absurd slot (h j)
  | between _ words => exact words

theorem pending_length (s : TxPath) : (pending s).length =
    s.inst1.smplBuffValid.toNat + s.inst1.smplBuffValidInt.toNat := by
  unfold pending
  cases s.inst1.smplBuffValid <;> cases s.inst1.smplBuffValidInt <;> rfl

/-- Every packet of the stream kept so far is emitted whole, once and in order; only the last one
    may still be under way. -/
theorem kept_emitted {b : Book} {e : List Word64} {s : TxPath} (I : Inv ps b e s) :
    b.kept.dropLast.flatMap (payloadAt ps) <+: e ∧ e <+: b.kept.flatMap (payloadAt ps) := by
  cases I.out with
  | reading done j slot kept words =>
    have hpre : e <+: done.flatMap (payloadAt ps) ++ (payloadAt ps j).take s.rd.rdCnt :=
      ⟨_, words⟩
    have hlen : (done.flatMap (payloadAt ps)).length ≤ e.length := by
      have hl := congrArg List.length words
      rw [List.length_append, List.length_append, pending_length] at hl
      cases I.reader with
      | reading state _ j' p slot' hat _ _ lt =>
        obtain rfl := SlotUse.reading.inj (slot'.symm.trans slot)
        have hf := I.flushed.reading state
        rw [List.length_take, payloadAt_eq hat, p.length_payload64] at hl
        omega
      | idle _ _ h | clear _ _ _ h | leave _ _ h | arrive _ _ h => exact absurd slot (h j)
    rw [kept, List.dropLast_concat, List.flatMap_append]
    refine ⟨List.prefix_of_prefix_length_le (List.prefix_append _ _) hpre hlen, hpre.trans ?_⟩
    rw [List.prefix_append_right_inj]
    simpa using List.take_prefix _ _
  | between slot words =>
    have hpre : e <+: b.kept.flatMap (payloadAt ps) := ⟨_, words⟩
    refine ⟨?_, hpre⟩
    rcases List.eq_nil_or_concat b.kept with hnil | ⟨done, j, hk⟩
    · rw [hnil]; exact List.nil_prefix
    · -- the last payload is longer than what the output registers hold
      have hj : j < b.next :=
        I.book.lt_next (List.mem_append_left _ (List.mem_append_left _ (by rw [hk]; simp)))
      have hlt : j < ps.length := Nat.lt_of_lt_of_le hj I.bound
      obtain ⟨p, hat⟩ : ∃ p, ps[j]? = some p := ⟨_, List.getElem?_eq_getElem hlt⟩
      have hl := congrArg List.length words
      have h2 := p.two_le_len
      have := Bool.toNat_le s.inst1.smplBuffValid
      have := Bool.toNat_le s.inst1.smplBuffValidInt
      rw [hk] at hpre hl ⊢
      rw [List.length_append, pending_length, List.concat_eq_append, List.flatMap_append,
        List.length_append, List.flatMap_singleton, payloadAt_eq hat, Packet.length_payload64] at hl
      rw [List.concat_eq_append] at hpre ⊢
      rw [List.dropLast_concat]
      rw [List.flatMap_append] at hpre
      exact List.prefix_of_prefix_length_le (List.prefix_append _ _) hpre (by omega)

/-- Packets are kept whole and in order, or lost. -/
structure Integrity (ps : List Packet) (b : Book) (e : List Word64) (s : TxPath) : Prop where
  /-- The packets kept are a subsequence of the stream. -/
  order : b.kept.Pairwise (· < ·)
  /-- Every packet taken from the stream is kept, lost, or still on its way. -/
  places : (b.kept ++ b.waiting ++ b.lost).Perm (List.range b.next)
  bound : b.next ≤ ps.length
  /-- All but the last have been emitted whole. -/
  whole : b.kept.dropLast.flatMap (payloadAt ps) <+: e
  /-- Nothing else has been emitted. -/
  only : e <+: b.kept.flatMap (payloadAt ps)
  /-- Back in `idle` the reader has emitted the last one too. -/
  idle : s.rd.currentState = .idle → e = b.kept.flatMap (payloadAt ps)

/-- TX packet integrity, whatever the gaps, the sample numbers, the synchronisation bits and the
    back-pressure: the words presented are the payloads of the packets kept. -/
theorem tx_packet_integrity : Integrity ps (book ps x n) (emitted ps x n) (pathAt ps x n) where
  order := (List.pairwise_append.1 (inv ps x n).book.sorted).1
  places := (inv ps x n).book.places
  bound := (inv ps x n).bound
  whole := (kept_emitted ps (inv ps x n)).1
  only := (kept_emitted ps (inv ps x n)).2
  idle hidle := by
    have I := inv ps x n
    have hnone : pending (pathAt ps x n) = [] := by
      rw [pending, I.flushed.idle hidle, I.flushed.moved (.inl hidle)]; rfl
    have h := emitted_between ps I (I.reader.of_idle hidle).2.1
    rwa [hnone, List.append_nil] at h

/-! ## Slot exclusivity -/

namespace Inv

variable {ps} {b : Book} {e : List Word64} {s : TxPath} {i : TxIn} {k : Fin buffCount}

/-- A slot shown a header or written to is the one being filled; it holds words of that packet
    only, and the reader is not at it. -/
theorem filling_of_touched (I : Inv ps b e s)
    (h : s.wr.pctHdr0Valid k = true ∨ s.wr.pctHdr1Valid k = true ∨ s.wr.pctDataWrreq k = true) :
    ∃ j p, b.slot k = .filling j ∧ ps[j]? = some p ∧ s.wr.Carry p s.inst0.inst1.q ∧
      k = s.wr.currentBuffCnt ∧
      (s.inst1.instx k).items = p.payload64.take (2 * s.wr.stored) := by
  cases I.writer with
  | away _ quiet => simp [quiet.hdr0, quiet.hdr1, quiet.wrreq] at h
  | carry j p hat slot carry cur =>
    have hk : k = s.wr.currentBuffCnt := by
      rw [carry.hdr0, carry.hdr1, carry.wrreq] at h
      simp only [Bool.and_eq_true, beq_iff_eq] at h
      rcases h with h | h | h <;> exact h.2
    have hsl : b.slot k = .filling j := by rw [hk, cur, slot]
    refine ⟨j, p, hsl, hat, carry, hk, ?_⟩
    have hs := I.slots k
    rw [hsl] at hs
    cases hs with
    | filling _ p' hat' items => rwa [Option.some.inj (hat.symm.trans hat')]

/-- The slot touched is the one at `wp`. -/
theorem at_of_touched (I : Inv ps b e s)
    (h : s.wr.pctHdr0Valid k = true ∨ s.wr.pctHdr1Valid k = true ∨ s.wr.pctDataWrreq k = true) :
    k = b.wp := by
  cases I.writer with
  | away _ quiet => simp [quiet.hdr0, quiet.hdr1, quiet.wrreq] at h
  | carry _ _ _ _ _ cur =>
    obtain ⟨_, _, _, _, _, hk, _⟩ := I.filling_of_touched h
    exact hk.trans cur

/-- The slot read is the one at `rp`. -/
theorem at_of_rdreq (I : Inv ps b e s) (h : s.rd.pctBuffRdreq i.smplBuffAlmostFull k = true) :
    k = b.rp := by
  simp only [P2dRd.pctBuffRdreq, Bool.and_eq_true, beq_iff_eq] at h
  cases I.reader with
  | reading _ rp => rw [h.2, rp]
  | idle state | clear state | leave state | arrive state =>
    simp [P2dRd.rdReqInt, state] at h

theorem rd_elsewhere (I : Inv ps b e s) {j : Nat} (h : b.slot k = .filling j) :
    (s.rd.currentState = .rdBuff ∨ s.rd.currentState = .rdHold → s.rd.crntBuffCnt ≠ k) ∧
    s.rd.pctBuffClrN k = true := by
  refine ⟨fun hs => ?_, I.clrN (by simp [h])⟩
  rintro rfl
  cases I.reader with
  | reading _ rp _ _ slot => rw [rp, h] at slot; exact nomatch slot
  | idle state | clear state | leave state | arrive state => simp [state] at hs

/-- Where the registers of `p2d_wr_fsm` point, in the slots of the book. -/
theorem writer_at (I : Inv ps b e s) :
    (s.wr.currentState ≠ .checkNextBuf → s.wr.currentBuffCnt = b.wp) ∧
    s.wr.nextBuffCnt =
      if s.wr.currentState = .rdPct ∨ s.wr.currentState = .waitWrEnd then nextBuff b.wp else b.wp := by
  cases I.writer with
  | away state _ _ next cur =>
    refine ⟨cur, ?_⟩
    generalize s.wr.currentState = st at state
    cases state <;> simp [next]
  | carry _ _ _ _ _ cur next => exact ⟨fun _ => cur, next⟩

/-- Where the register of `p2d_rd` points. -/
theorem reader_at (I : Inv ps b e s) :
    b.rp = if s.rd.currentState = .clrBuff ∨ s.rd.currentState = .switchNextBuff then
      nextBuff s.rd.crntBuffCnt else s.rd.crntBuffCnt := by
  cases I.reader with
  | idle state rp | clear state rp | leave state rp | arrive state rp => simp [state, rp]
  | reading state rp => rcases state with h | h <;> simp [h, rp]

/-- What the reader begins to read, or clears, is one complete packet. -/
theorem complete_of_takes (I : Inv ps b e s) (h : s.takes i = true ∨ s.discards i = true) :
    ∃ j p, b.slot s.rd.crntBuffCnt = .full j ∧ ps[j]? = some p ∧
      (s.inst1.instx s.rd.crntBuffCnt).items = p.payload64 ∧
      ((s.step i).inst1.instx s.rd.crntBuffCnt).items = p.payload64 := by
  have hs := (idle_of_takes h).1
  have hrp := (I.reader.of_idle hs).1
  obtain ⟨j, hj⟩ : ∃ j, b.slot b.rp = .full j := by
    rcases h with h | h
    · exact I.fits.takes h
    · exact I.fits.discards h
  rw [hrp] at hj
  have hsl := I.slots s.rd.crntBuffCnt
  rw [hj] at hsl
  cases hsl with
  | full _ p hat items =>
    refine ⟨j, p, hj, hat, items, ?_⟩
    rw [step_items_of_quiet (I.wr_quiet (by simp [hj])).1, I.rd_quiet (by simp [hj]),
      I.visible (by simp [hj])]
    exact items

theorem rest_of_rdreq (I : Inv ps b e s) (h : s.rd.pctBuffRdreq i.smplBuffAlmostFull k = true) :
    ∃ j p, b.slot k = .reading j ∧ ps[j]? = some p ∧ s.rd.rdCnt < p.payload64.length ∧
      (s.inst1.instx k).items = p.payload64.drop s.rd.rdCnt := by
  simp only [P2dRd.pctBuffRdreq, P2dRd.rdReqInt, Bool.and_eq_true, beq_iff_eq] at h
  cases I.reader with
  | reading _ rp j p slot hat _ _ lt =>
    have hk : b.slot k = .reading j := by rw [h.2, ← rp, slot]
    have hs := I.slots k
    rw [hk] at hs
    cases hs with
    | reading _ p' hat' items =>
      obtain rfl := Option.some.inj (hat.symm.trans hat')
      exact ⟨j, p, hk, hat, by rw [p.length_payload64]; exact lt, items⟩
  | idle state | clear state | leave state | arrive state => simp [state] at h

end Inv

/-- The reader neither reads nor clears slot `k`. -/
def RdElsewhere (s : TxPath) (k : Fin buffCount) : Prop :=
  (s.rd.currentState = .rdBuff ∨ s.rd.currentState = .rdHold → s.rd.crntBuffCnt ≠ k) ∧
  s.rd.pctBuffClrN k = true

/-- No slot is used by two packets, or by the writer and the reader, at a time; `s'` is the state
    after `s` under the inputs `i`. -/
structure Exclusive (ps : List Packet) (b : Book) (s s' : TxPath) (i : TxIn) : Prop where
  /-- A slot whose header is captured, or whose first payload word is written, holds nothing. -/
  first : ∀ k, s.wr.pctHdr0Valid k = true ∨ s.wr.pctHdr1Valid k = true ∨
      (s.wr.pctDataWrreq k = true ∧ s.wr.pctDataWrreqCnt = 2) →
    (s.inst1.instx k).items = [] ∧ RdElsewhere s k
  /-- Every later write continues the payload of the same packet. -/
  later : ∀ k, s.wr.pctDataWrreq k = true → ∃ p ∈ ps,
    (s.inst1.instx k).items = p.payload64.take (2 * (s.wr.pctDataWrreqCnt - 2)) ∧
    p.payload[s.wr.pctDataWrreqCnt - 2]? = some s.wr.pctData ∧ RdElsewhere s k
  oneWrite : ∀ k l, s.wr.pctDataWrreq k = true → s.wr.pctDataWrreq l = true → k = l
  oneRead : ∀ k l, s.rd.pctBuffRdreq i.smplBuffAlmostFull k = true →
    s.rd.pctBuffRdreq i.smplBuffAlmostFull l = true → k = l
  /-- `p2d_wr_fsm` is at the slot `wp`, and goes on to the next one once the header is written. -/
  writer : (s.wr.currentState ≠ .checkNextBuf → s.wr.currentBuffCnt = b.wp) ∧
    s.wr.nextBuffCnt =
      if s.wr.currentState = .rdPct ∨ s.wr.currentState = .waitWrEnd then nextBuff b.wp else b.wp
  /-- `p2d_rd` is at the slot `rp`, or on its way there. -/
  reader : b.rp =
    if s.rd.currentState = .clrBuff ∨ s.rd.currentState = .switchNextBuff then
      nextBuff s.rd.crntBuffCnt else s.rd.crntBuffCnt
  /-- Only the slot `wp` is written, and only the slot `rp` is read. -/
  written : ∀ k, s.wr.pctHdr0Valid k = true ∨ s.wr.pctHdr1Valid k = true ∨
    s.wr.pctDataWrreq k = true → k = b.wp
  isRead : ∀ k, s.rd.pctBuffRdreq i.smplBuffAlmostFull k = true → k = b.rp
  /-- Both go round the slots in the same order, the reader behind the writer. -/
  order : b.InOrder
  /-- What the reader begins to read, or goes to clear, is one complete packet. -/
  complete : s.takes i = true ∨ s.discards i = true → ∃ p ∈ ps,
    (s.inst1.instx s.rd.crntBuffCnt).items = p.payload64 ∧
    (s'.inst1.instx s.rd.crntBuffCnt).items = p.payload64
  /-- Every read takes the next word of that packet. -/
  read : ∀ k, s.rd.pctBuffRdreq i.smplBuffAlmostFull k = true → ∃ p ∈ ps,
    s.rd.rdCnt < p.payload64.length ∧ (s.inst1.instx k).items = p.payload64.drop s.rd.rdCnt

/-- TX slot exclusivity, in every clock of every run. -/
theorem tx_slot_exclusivity :
    Exclusive ps (book ps x n) (pathAt ps x n) (pathAt ps x (n + 1)) (x n) where
  first k hk := by
    have I := inv ps x n
    obtain ⟨j, p, hsl, hat, carry, hcur, items⟩ := I.filling_of_touched (hk.imp id (Or.imp id And.left))
    refine ⟨?_, I.rd_elsewhere hsl⟩
    have hz : (pathAt ps x n).wr.stored = 0 := by
      rcases hk with hk | hk | hk
      · rw [carry.hdr0, Bool.and_eq_true] at hk; exact carry.stored_of_tags hk.1
      · rw [carry.hdr1, Bool.and_eq_true] at hk; exact carry.stored_of_tags hk.1
      · have hw : (pathAt ps x n).wr.writes = true := by rw [P2dWrFsm.writes, ← hcur]; exact hk.1
        rw [P2dWrFsm.stored, hw, hk.2]; rfl
    rw [items, hz]; rfl
  later k hk := by
    have I := inv ps x n
    obtain ⟨j, p, hsl, hat, carry, hcur, items⟩ := I.filling_of_touched (.inr (.inr hk))
    have hw : (pathAt ps x n).wr.writes = true := by rw [P2dWrFsm.writes, ← hcur]; exact hk
    have hst : (pathAt ps x n).wr.pctDataWrreqCnt - 2 = (pathAt ps x n).wr.stored := by
      rw [P2dWrFsm.stored, hw, Bool.toNat_true]; omega
    refine ⟨p, List.mem_of_getElem? hat, ?_, ?_, I.rd_elsewhere hsl⟩
    · rw [items, hst]
    · rw [hst]; exact carry.payload_stored hw
  oneWrite k l hk hl := by
    have I := inv ps x n
    obtain ⟨_, _, _, _, _, hcur, _⟩ := I.filling_of_touched (.inr (.inr hk))
    obtain ⟨_, _, _, _, _, hcur', _⟩ := I.filling_of_touched (.inr (.inr hl))
    rw [hcur, hcur']
  oneRead k l hk hl := by
    simp only [P2dRd.pctBuffRdreq, Bool.and_eq_true, beq_iff_eq] at hk hl
    rw [hk.2, hl.2]
  writer := (inv ps x n).writer_at
  reader := (inv ps x n).reader_at
  written k hk := (inv ps x n).at_of_touched hk
  isRead k hk := (inv ps x n).at_of_rdreq hk
  order := (inv ps x n).order
  complete h := by
    obtain ⟨j, p, _, hat, items, items'⟩ := (inv ps x n).complete_of_takes h
    exact ⟨p, List.mem_of_getElem? hat, items, items'⟩
  read k hk := by
    obtain ⟨j, p, _, hat, lt, items⟩ := (inv ps x n).rest_of_rdreq hk
    exact ⟨p, List.mem_of_getElem? hat, lt, items⟩

end run

end TxPath

end Tx
