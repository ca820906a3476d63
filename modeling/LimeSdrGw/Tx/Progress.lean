import LimeSdrGw.Clocked.Progress
import LimeSdrGw.Tx.Stamps
/-
# No stall of the TX path

When no packet is synchronised, nothing is ever dropped, and as long as the host supplies words and
the sample FIFO has room now and then, every packet comes into a slot and out of it again.
-/
namespace Tx

open Clocked P2dWrFsm

namespace TxPath

/-- Synchronisation is disabled for every packet: by the input or by the packet's own bit. -/
def Unsync (ps : List Packet) (x : Nat → TxIn) : Prop :=
  ∀ n, ∀ p ∈ ps, (x n).pctSyncDis = true ∨ p.syncDis = true

/-- The input FIFO is not empty again and again, and the sample FIFO has room again and again, for
    two clocks on end (`rd_hold` needs one of them to get back to `rd_buff`). -/
structure Fair (x : Nat → TxIn) : Prop where
  supply : ∀ n, ∃ k, n ≤ k ∧ (x k).gap = false
  room : ∀ n, ∃ k, n ≤ k ∧ (x k).smplBuffAlmostFull = false ∧ (x (k + 1)).smplBuffAlmostFull = false

section unsync

variable {ps : List Packet} {x : Nat → TxIn} (U : Unsync ps x) (n : Nat)
include U

theorem not_clrFifo : (pathAt ps x n).wr.currentState ≠ .clrFifo := by
  cases n with
  | zero => exact fun h => by cases h
  | succ n =>
    intro h
    obtain ⟨j, p, hk, hs, hp, -⟩ := clrFifo_own ps x n h
    rcases U n p (List.mem_of_getElem? hk.inSlot.2) with e | e
    · rw [hs] at e; cases e
    · rw [hp] at e; cases e

theorem not_rejects : (pathAt ps x n).rejects = false := by
  simp [rejects, not_clrFifo U n]

theorem not_discards : (pathAt ps x n).discards (x n) = false := by
  cases hd : (pathAt ps x n).discards (x n)
  · rfl
  · simp only [discards, Bool.and_eq_true, beq_iff_eq] at hd
    obtain ⟨j, p, hk, hs, hp, -⟩ := clrBuff_own ps x n hd.2
    rcases U n p (List.mem_of_getElem? hk.inSlot.2) with e | e
    · rw [hs] at e; cases e
    · rw [hp] at e; cases e

theorem lost_eq_nil : (book ps x n).lost = [] := by
  induction n with
  | zero => rfl
  | succ n ih => exact (note_lost (not_rejects U n) (not_discards U n)).trans ih

/-- Every packet taken from the stream has been moved to a slot or is just being moved. -/
theorem next_eq : ((∀ j, (book ps x n).slot (book ps x n).wp ≠ .filling j) →
      (book ps x n).next = (book ps x n).filled.length) ∧
    (∀ j, (book ps x n).slot (book ps x n).wp = .filling j →
      (book ps x n).next = (book ps x n).filled.length + 1) := by
  induction n with
  | zero => exact ⟨fun _ => rfl, fun j h => by simp [book, Machine.track, Book.empty] at h⟩
  | succ n ih =>
    have I := inv ps x n
    have f := I.fits (i := x n)
    have hr := not_rejects U n
    rw [book_succ, note_next, note_filled_length f, note_wp f]
    by_cases ho : (pathAt ps x n).opens = true
    · have hf : (pathAt ps x n).finishes = false := by
        simp only [opens, Bool.and_eq_true, beq_iff_eq] at ho
        simp [finishes, ho.1]
      have hfree := f.opens ho
      have hn := ih.1 fun j h => by rw [hfree] at h; cases h
      have hs := note_slot_free f hfree
      simp only [ho, hf, if_true, true_and, Bool.false_eq_true, if_false] at hs ⊢
      rw [hs]
      exact ⟨fun h => absurd rfl (h _), fun _ _ => by rw [hn]; rfl⟩
    by_cases hf : (pathAt ps x n).finishes = true
    · obtain ⟨j, hj⟩ := f.finishes hf
      have hn := ih.2 j hj
      have hnf : ∀ l, (note (book ps x n) (pathAt ps x n) (x n)).slot (nextBuff (book ps x n).wp) ≠
          .filling l :=
        note_notFilling I.book f (fun l h => nextBuff_ne _ (I.book.eq_wp_of_filling h))
          fun h => absurd h ho
      simp only [ho, hf, if_true, Bool.false_eq_true, if_false, Bool.toNat_true]
      exact ⟨fun _ => hn, fun l h => absurd h (hnf l)⟩
    · simp only [ho, hf, Bool.false_eq_true, if_false, Bool.toNat_false, Nat.add_zero]
      refine ⟨fun h => ih.1 fun j hj => h j ?_, fun j h => ?_⟩
      · rw [note_slot_filling I.book f hj, hr, if_neg (by decide), if_neg hf]
      · exact ih.2 j ((of_note_filling I.book f h).resolve_left ho).1

end unsync

/-! ## The reader -/

section reader

variable {ps : List Packet} {x : Nat → TxIn} {c : Nat}

/-- Clocks until a complete packet is begun to be read. -/
def rdRank (s : TxPath) : Nat :=
  match s.rd.currentState with
  | .idle =>
    if s.rd.crntBuffRdy then 0 else if s.inst1.pctBuffRdyInt s.rd.crntBuffCnt then 1 else 2
  | .checkNextBuf => 3
  | .switchNextBuff => 4
  | .clrBuff => 5
  | .rdBuff | .rdHold => 6

/-- Slot `rp` holds a complete packet, `c` having left before. -/
def FullAt (ps : List Packet) (x : Nat → TxIn) (c n : Nat) : Prop :=
  (∃ j, (book ps x n).slot (book ps x n).rp = .full j) ∧ (book ps x n).emptied.length = c

/-- Slot `rp` is being read. -/
def ReadingAt (ps : List Packet) (x : Nat → TxIn) (c n : Nat) : Prop :=
  (∃ j, (book ps x n).slot (book ps x n).rp = .reading j) ∧ (book ps x n).emptied.length = c

theorem emptied_succ (n : Nat) : (book ps x (n + 1)).emptied.length =
    (book ps x n).emptied.length +
      ((pathAt ps x n).discards (x n) || (pathAt ps x n).releases (x n)).toNat :=
  note_emptied_length (inv ps x n).fits

/-- A complete slot shows in the ready flag one clock later. -/
theorem rdyInt_of_full {b : Book} {e : List Word64} {s : TxPath} (I : Inv ps b e s) {k : Fin buffCount}
    {j : Nat} (hk : b.slot k = .full j) (i : TxIn) : (s.step i).inst1.pctBuffRdyInt k = true := by
  have hs := I.slots k
  rw [hk] at hs
  cases hs with
  | full _ p _ items tag =>
    simp [TxPath.step, Packets2data.step, I.visible (k := k) (by simp [hk]), items, tag.size]

theorem full_step (U : Unsync ps x) {n : Nat} (h : FullAt ps x c n) :
    ReadingAt ps x c (n + 1) ∨
      FullAt ps x c (n + 1) ∧ rdRank (pathAt ps x (n + 1)) < rdRank (pathAt ps x n) := by
  obtain ⟨⟨j, hj⟩, hc⟩ := h
  have I := inv ps x n
  have f := I.fits (i := x n)
  have hd := not_discards U n
  have hrel : (pathAt ps x n).releases (x n) = false := by
    cases hrel : (pathAt ps x n).releases (x n)
    · rfl
    · obtain ⟨l, hl⟩ := f.releases hrel
      rw [hj] at hl; cases hl
  have hc' : (book ps x (n + 1)).emptied.length = c := by rw [emptied_succ, hd, hrel]; exact hc
  have hrp : (book ps x (n + 1)).rp = (book ps x n).rp := by
    rw [book_succ, note_rp f, hd, hrel]; rfl
  by_cases ht : (pathAt ps x n).takes (x n) = true
  · refine .inl ⟨⟨j, ?_⟩, hc'⟩
    rw [hrp]
    exact (note_slot_full f hj).trans (by rw [if_pos rfl, if_pos ht])
  · have ht' : (pathAt ps x n).takes (x n) = false := by simpa using ht
    refine .inr ⟨⟨⟨j, by rw [hrp]; exact I.note_full_of_idle hj ht' hd⟩, hc'⟩, ?_⟩
    have hst : (pathAt ps x (n + 1)).rd.currentState =
      (pathAt ps x n).rd.nextState (x n).pctSyncDis (x n).smplBuffAlmostFull := rfl
    have hrdy : (pathAt ps x (n + 1)).rd.crntBuffRdy =
      (pathAt ps x n).inst1.pctBuffRdyInt (pathAt ps x n).rd.crntBuffCnt := rfl
    cases I.reader with
    | reading _ _ l _ slot => rw [hj] at slot; cases slot
    | clear state => simp [rdRank, hst, P2dRd.nextState, state]
    | leave state => simp [rdRank, hst, P2dRd.nextState, state]
    | arrive state =>
      simp only [rdRank, hst, P2dRd.nextState, state]
      repeat' split
      all_goals omega
    | idle state rp =>
      have hcr : (pathAt ps x n).rd.crntBuffRdy = false := by
        -- a ready packet that is not synchronised is taken at once
        cases hr : (pathAt ps x n).rd.crntBuffRdy
        · rfl
        · obtain ⟨l, p, hk, -, -, hs, -⟩ := idle_registers ps x n state hr
          have hu : ((x n).pctSyncDis || (pathAt ps x n).rd.crntBuffPctSynchDis) = true := by
            rcases U n p (List.mem_of_getElem? hk.inSlot.2) with e | e
            · rw [e]; rfl
            · rw [hs, e, Bool.or_true]
          exact absurd (by simp [takes, state, P2dRd.nextState, hr, hu]) ht
      have hst' : (pathAt ps x (n + 1)).rd.currentState = .idle := by
        rw [hst, P2dRd.nextState, state, hcr]; rfl
      have hcrnt : (pathAt ps x (n + 1)).rd.crntBuffCnt = (book ps x n).rp := by
        have : (pathAt ps x n).rd.currentState ≠ .switchNextBuff := by rw [state]; decide
        rw [rp]; exact if_neg this
      have hint : (pathAt ps x (n + 1)).inst1.pctBuffRdyInt
          (pathAt ps x (n + 1)).rd.crntBuffCnt = true := by
        rw [hcrnt]; exact rdyInt_of_full I hj (x n)
      simp only [rdRank, hst', state, hint, hrdy, hcr, if_true, Bool.false_eq_true, if_false]
      split <;> decide

theorem full_leads (U : Unsync ps x) : LeadsTo (FullAt ps x c) (ReadingAt ps x c) :=
  LeadsTo.variant (fun n => rdRank (pathAt ps x n)) fun n h =>
    ⟨n + 1, Nat.le_succ n, full_step U h⟩

/-- One clock of reading: it goes on, a word further if one is read, or ends. -/
theorem reading_step (U : Unsync ps x) {n : Nat} (h : ReadingAt ps x c n) :
    (book ps x (n + 1)).emptied.length = c + 1 ∨
      ReadingAt ps x c (n + 1) ∧ (pathAt ps x (n + 1)).rd.rdCnt = (pathAt ps x n).rd.rdCnt +
        ((pathAt ps x n).rd.rdReqInt (x n).smplBuffAlmostFull).toNat := by
  obtain ⟨⟨j, hj⟩, hc⟩ := h
  have I := inv ps x n
  have f := I.fits (i := x n)
  have hd := not_discards U n
  have he : (book ps x (n + 1)).emptied.length = (book ps x n).emptied.length +
    ((pathAt ps x n).discards (x n) || (pathAt ps x n).releases (x n)).toNat := emptied_succ n
  by_cases hrel : (pathAt ps x n).releases (x n) = true
  · left; rw [he, hd, hrel, hc]; rfl
  · have hrel' : (pathAt ps x n).releases (x n) = false := by simpa using hrel
    have hrp : (book ps x (n + 1)).rp = (book ps x n).rp := by
      rw [book_succ, note_rp f, hd, hrel']; rfl
    refine .inr ⟨⟨⟨j, ?_⟩, by rw [he, hd, hrel']; exact hc⟩, ?_⟩
    · rw [hrp]; exact (note_slot_reading I.book f hj).trans (if_neg hrel)
    · have hcnt := I.step_rdCnt (i := x n) hj
      cases I.reader with
      | reading _ rp =>
        have hq : (pathAt ps x n).rd.pctBuffRdreq (x n).smplBuffAlmostFull (book ps x n).rp =
            (pathAt ps x n).rd.rdReqInt (x n).smplBuffAlmostFull := by
          simp [P2dRd.pctBuffRdreq, rp]
        rw [← hq]; exact hcnt
      | idle _ _ h | clear _ _ _ h | leave _ _ h | arrive _ _ h => exact absurd hj (h j)

theorem reading_state {n : Nat} (h : ReadingAt ps x c n) :
    ((pathAt ps x n).rd.currentState = .rdBuff ∨ (pathAt ps x n).rd.currentState = .rdHold) ∧
    (pathAt ps x n).rd.rdCnt < 512 := by
  obtain ⟨⟨j, hj⟩, -⟩ := h
  cases (inv ps x n).reader with
  | reading state _ _ p _ _ _ _ lt => have := p.len_le; exact ⟨state, by omega⟩
  | idle _ _ h | clear _ _ _ h | leave _ _ h | arrive _ _ h => exact absurd hj (h j)

/-- The slot is read to its end. -/
theorem reading_leads (U : Unsync ps x) (F : Fair x) :
    LeadsTo (ReadingAt ps x c) (fun n => (book ps x n).emptied.length = c + 1) := by
  refine LeadsTo.variant (fun n => 512 - (pathAt ps x n).rd.rdCnt) fun n hn => ?_
  -- until one more word has been read
  have more : LeadsTo
      (fun m => ReadingAt ps x c m ∧ (pathAt ps x m).rd.rdCnt = (pathAt ps x n).rd.rdCnt)
      (fun m => (book ps x m).emptied.length = c + 1 ∨
        ReadingAt ps x c m ∧ (pathAt ps x n).rd.rdCnt < (pathAt ps x m).rd.rdCnt) := by
    have step : ∀ m, ReadingAt ps x c m ∧ (pathAt ps x m).rd.rdCnt = (pathAt ps x n).rd.rdCnt →
        (ReadingAt ps x c (m + 1) ∧ (pathAt ps x (m + 1)).rd.rdCnt = (pathAt ps x n).rd.rdCnt ∧
          (pathAt ps x m).rd.rdReqInt (x m).smplBuffAlmostFull = false) ∨
        ((book ps x (m + 1)).emptied.length = c + 1 ∨ ReadingAt ps x c (m + 1) ∧
          (pathAt ps x n).rd.rdCnt < (pathAt ps x (m + 1)).rd.rdCnt) := by
      rintro m ⟨hm, hcnt⟩
      rcases reading_step U hm with he | ⟨hm', hcnt'⟩
      · exact .inr (.inl he)
      · cases hq : (pathAt ps x m).rd.rdReqInt (x m).smplBuffAlmostFull
        · rw [hq, Bool.toNat_false, Nat.add_zero] at hcnt'
          exact .inl ⟨hm', hcnt'.trans hcnt, rfl⟩
        · rw [hq, Bool.toNat_true] at hcnt'
          exact .inr (.inr ⟨hm', by omega⟩)
    have read : ∀ m, ReadingAt ps x c m ∧
        (pathAt ps x m).rd.rdCnt = (pathAt ps x n).rd.rdCnt →
        (pathAt ps x m).rd.currentState = .rdBuff → (x m).smplBuffAlmostFull = false →
        (book ps x (m + 1)).emptied.length = c + 1 ∨ ReadingAt ps x c (m + 1) ∧
          (pathAt ps x n).rd.rdCnt < (pathAt ps x (m + 1)).rd.rdCnt := by
      intro m hm hs ha
      rcases step m hm with ⟨-, -, hq⟩ | h
      · simp [P2dRd.rdReqInt, hs, ha] at hq
      · exact h
    refine LeadsTo.wait (fun m hm => (step m hm).imp (fun h => ⟨h.1, h.2.1⟩) id) ?_ F.room
    intro m hm ha
    rcases (reading_state hm.1).1 with hs | hs
    · exact ⟨m + 1, Nat.le_succ m, read m hm hs ha.1⟩
    · -- the first clock with room ends the hold, the second reads
      rcases step m hm with ⟨h1, h2, -⟩ | h
      · have hs' : (pathAt ps x (m + 1)).rd.currentState = .rdBuff := by
          show (pathAt ps x m).rd.nextState _ _ = _
          rw [P2dRd.nextState, hs, ha.1]; rfl
        exact ⟨m + 2, by omega, read (m + 1) ⟨h1, h2⟩ hs' ha.2⟩
      · exact ⟨m + 1, Nat.le_succ m, h⟩
  obtain ⟨m, hm, h | ⟨h, hlt⟩⟩ := more n ⟨hn, rfl⟩
  · exact ⟨m, hm, .inl h⟩
  · have := (reading_state h).2
    exact ⟨m, hm, .inr ⟨h, by omega⟩⟩

/-- A packet behind the writer leaves its slot. -/
theorem back_leads (U : Unsync ps x) (F : Fair x) :
    LeadsTo (fun n => ((book ps x n).slot (book ps x n).rp).Back ∧
      (book ps x n).emptied.length = c) (fun n => (book ps x n).emptied.length = c + 1) := by
  rintro n ⟨hb, hc⟩
  generalize hu : (book ps x n).slot (book ps x n).rp = u at hb
  cases hb with
  | full j => exact ((full_leads U).trans (reading_leads U F)) n ⟨⟨j, hu⟩, hc⟩
  | reading j => exact reading_leads U F n ⟨⟨j, hu⟩, hc⟩

end reader

/-! ## The writer -/

section writer

variable {ps : List Packet} {x : Nat → TxIn} {c : Nat}

/-- Clocks until the packet in hand is in its slot, at most. -/
def wrRank (w : P2dWrFsm) : Nat :=
  match w.currentState with
  | .rdHdr => 600
  | .waitCmprPipe => 599 - w.pipeCnt
  | .checkSmplNr => if w.currentBuffRdy then 501 else 502
  | .switchNextBuff => 500
  | .rdPct => 400 - w.rdCnt
  | .waitWrEnd => 2 * w.inPctRdreqInt.toNat + w.inPctDataValid.toNat
  | .idle | .clrFifo | .checkNextBuf | .switchCurrentBuff => 0

/-- A packet is being moved to a slot, `c` having been moved before. -/
def FillingAt (ps : List Packet) (x : Nat → TxIn) (c n : Nat) : Prop :=
  (∃ j, (book ps x n).slot (book ps x n).wp = .filling j) ∧ (book ps x n).filled.length = c

theorem filled_succ (n : Nat) : (book ps x (n + 1)).filled.length =
    (book ps x n).filled.length + (pathAt ps x n).finishes.toNat :=
  note_filled_length (inv ps x n).fits

/-- Before its first word has come the slot a packet is meant for is empty. -/
theorem Inv.wrempty_of_check {b : Book} {e : List Word64} {s : TxPath} {j : Nat} (I : Inv ps b e s)
    (hs : s.wr.currentState = .checkSmplNr) (hj : b.slot b.wp = .filling j) :
    s.inst1.wrempty s.wr.currentBuffCnt = true := by
  cases I.writer with
  | away _ _ _ _ _ _ notFilling => exact absurd hj (notFilling j)
  | carry j' p hat slot carry cur =>
    have hz : s.wr.stored = 0 := by
      have := carry.stored_add
      have hcn := carry.count
      rw [taken] at hcn
      cases carry.phase with
      | check _ cnt => omega
      | rdHdr e | waitCmprPipe e | rdPct e | waitWrEnd e => simp [hs] at e
    have hsl := I.slots b.wp
    rw [hj] at hsl
    cases hsl with
    | filling _ p' _ items =>
      rw [hz] at items
      rw [cur, Packets2data.wrempty, I.visible (by simp [hj]), items]
      rfl

/-- A packet that is not late is checked for two clocks at most. -/
theorem check_step (U : Unsync ps x) {n j : Nat}
    (hs : (pathAt ps x n).wr.currentState = .checkSmplNr)
    (hj : (book ps x n).slot (book ps x n).wp = .filling j) :
    wrRank (pathAt ps x (n + 1)).wr < wrRank (pathAt ps x n).wr := by
  have hst : (pathAt ps x (n + 1)).wr.currentState =
    (pathAt ps x n).wr.nextState (x n).pctSyncDis (pathAt ps x n).inst0.pctRdyReg := rfl
  have hst' : (pathAt ps x (n + 1)).wr.currentState ≠ .clrFifo := not_clrFifo U (n + 1)
  have hbr : (pathAt ps x (n + 1)).wr.currentBuffRdy =
    (pathAt ps x n).inst1.wrempty (pathAt ps x n).wr.currentBuffCnt := rfl
  have hempty := (inv ps x n).wrempty_of_check hs hj
  rw [hst, nextState, hs] at hst'
  simp only [wrRank, hs]
  cases hcb : (pathAt ps x n).wr.currentBuffRdy
  · simp only [hcb, Bool.false_eq_true, if_false] at hst' ⊢
    have hs' : (pathAt ps x (n + 1)).wr.currentState = .checkSmplNr := by
      rw [hst, nextState, hs]
      simp only [hcb, Bool.false_eq_true, if_false]
      split at hst'
      · exact absurd rfl hst'
      · rw [if_neg ‹_›]
    simp [hs', hbr, hempty]
  · simp only [hcb, if_true] at hst' ⊢
    have hs' : (pathAt ps x (n + 1)).wr.currentState = .switchNextBuff := by
      rw [hst, nextState, hs]
      simp only [hcb, if_true]
      split at hst'
      · exact absurd rfl hst'
      · rw [if_neg ‹_›]
    simp [hs']

theorem filling_step (U : Unsync ps x) {n : Nat} (h : FillingAt ps x c n) :
    (book ps x (n + 1)).filled.length = c + 1 ∨
      FillingAt ps x c (n + 1) ∧ wrRank (pathAt ps x (n + 1)).wr < wrRank (pathAt ps x n).wr := by
  obtain ⟨⟨j, hj⟩, hc⟩ := h
  have I := inv ps x n
  have f := I.fits (i := x n)
  have hclr := not_clrFifo U n
  by_cases hf : (pathAt ps x n).finishes = true
  · left; rw [filled_succ, hf, hc]; rfl
  · have hf' : (pathAt ps x n).finishes = false := by simpa using hf
    have hwp : (book ps x (n + 1)).wp = (book ps x n).wp := by
      rw [book_succ, note_wp f, hf']; rfl
    refine .inr ⟨⟨⟨j, ?_⟩, by rw [filled_succ, hf', hc]; rfl⟩, ?_⟩
    · rw [hwp]
      exact (note_slot_filling I.book f hj).trans (by rw [not_rejects U n, hf']; rfl)
    have hst : (pathAt ps x (n + 1)).wr.currentState =
      (pathAt ps x n).wr.nextState (x n).pctSyncDis (pathAt ps x n).inst0.pctRdyReg := rfl
    have hpc : (pathAt ps x (n + 1)).wr.pipeCnt =
      if (pathAt ps x n).wr.currentState = .waitCmprPipe
      then ((pathAt ps x n).wr.pipeCnt + 1) % 16 else 0 := rfl
    cases I.writer with
    | away _ _ _ _ _ _ notFilling => exact absurd hj (notFilling j)
    | carry j' p hat slot carry cur =>
      have h255 := p.len_le
      have hcnt : (pathAt ps x (n + 1)).wr.rdCnt =
        (pathAt ps x n).wr.rdCnt + (pathAt ps x n).wr.reads.toNat := carry.step_rdCnt
      cases carry.phase with
      | rdHdr hs => simp [wrRank, hst, hpc, nextState, hs]
      | waitCmprPipe hs _ hle =>
        by_cases h3 : (pathAt ps x n).wr.pipeCnt > 3
        · have hs' : (pathAt ps x (n + 1)).wr.currentState = .checkSmplNr := by
            simp [hst, nextState, hs, h3]
          simp only [wrRank, hs, hs']
          split <;> omega
        · simp [wrRank, hst, hpc, nextState, hs, h3]; omega
      | check hs =>
        rcases hs with hs | hs | hs
        · exact check_step U hs hj
        · exact absurd hs hclr
        · simp [wrRank, hst, nextState, hs]; omega
      | rdPct hs pos le =>
        have hrd : (pathAt ps x n).wr.reads = true := by rw [reads, hs]; rfl
        rw [hrd, Bool.toNat_true] at hcnt
        by_cases hl : (pathAt ps x n).wr.rdCnt < dec16 (pathAt ps x n).wr.rdCntMax
        · have hs' : (pathAt ps x (n + 1)).wr.currentState = .rdPct := by
            simp [hst, nextState, hs, hl]
          simp only [wrRank, hs, hs', hcnt]; omega
        · have hs' : (pathAt ps x (n + 1)).wr.currentState = .waitWrEnd := by
            simp [hst, nextState, hs, hl]
          have := Bool.toNat_le (pathAt ps x (n + 1)).wr.inPctRdreqInt
          have := Bool.toNat_le (pathAt ps x (n + 1)).wr.inPctDataValid
          simp only [wrRank, hs, hs']; omega
      | waitWrEnd hs =>
        have hdv : (pathAt ps x n).wr.inPctDataValid = true := by simpa [finishes, hs] using hf'
        have hs' : (pathAt ps x (n + 1)).wr.currentState = .waitWrEnd := by
          simp [hst, nextState, hs, hdv]
        have hrd : (pathAt ps x (n + 1)).wr.inPctRdreqInt = (pathAt ps x n).wr.reads := rfl
        have hdv' : (pathAt ps x (n + 1)).wr.inPctDataValid = (pathAt ps x n).wr.inPctRdreqInt := rfl
        have hz : (pathAt ps x n).wr.reads = false := by rw [reads, hs]; rfl
        simp only [wrRank, hs, hs', hrd, hdv', hz, hdv, Bool.toNat_true, Bool.toNat_false]
        omega

/-- A packet in hand comes into its slot. -/
theorem filling_leads (U : Unsync ps x) :
    LeadsTo (FillingAt ps x c) (fun n => (book ps x n).filled.length = c + 1) :=
  LeadsTo.variant (fun n => wrRank (pathAt ps x n).wr) fun n h =>
    ⟨n + 1, Nat.le_succ n, filling_step U h⟩

/-! ### A packet comes in -/

/-- `p2d_wr_fsm` is idle, `c` packets having been taken from the stream. -/
def IdleAt (ps : List Packet) (x : Nat → TxIn) (c n : Nat) : Prop :=
  (pathAt ps x n).wr.currentState = .idle ∧ (book ps x n).next = c

/-- It finds the next packet now. -/
def OpensAt (ps : List Packet) (x : Nat → TxIn) (c n : Nat) : Prop :=
  (pathAt ps x n).opens = true ∧ (book ps x n).next = c

/-- It does not. -/
def WaitsAt (ps : List Packet) (x : Nat → TxIn) (c n : Nat) : Prop :=
  IdleAt ps x c n ∧ (pathAt ps x n).opens = false

theorem IdleAt.cases {n : Nat} (h : IdleAt ps x c n) : WaitsAt ps x c n ∨ OpensAt ps x c n := by
  cases ho : (pathAt ps x n).opens
  · exact .inl ⟨h, ho⟩
  · exact .inr ⟨ho, h.2⟩

theorem WaitsAt.quiet {n : Nat} (h : WaitsAt ps x c n) :
    (pathAt ps x n).wr.Quiet ∧ Feed.Filling (ps.drop c) (pathAt ps x n) ∧
      (pathAt ps x n).wr.currentState ≠ .clrFifo := by
  cases (inv ps x n).writer with
  | away _ quiet feed => exact ⟨quiet, h.1.2 ▸ feed, by rw [h.1.1]; nofun⟩
  | carry _ _ _ _ carry => exact absurd h.1.1 carry.not_idle

theorem WaitsAt.step {n : Nat} (h : WaitsAt ps x c n) : IdleAt ps x c (n + 1) := by
  have hr : (pathAt ps x n).inst0.pctRdyReg = false := by
    have := h.2
    simpa [opens, h.1.1] using this
  refine ⟨?_, ?_⟩
  · show (pathAt ps x n).wr.nextState _ (pathAt ps x n).inst0.pctRdyReg = _
    rw [nextState, h.1.1, hr]; rfl
  · rw [book_succ, note_next, h.2]; exact h.1.2

section load

variable {p : Packet} {rest : List Packet} (hd : ps.drop c = p :: rest)
include hd

/-- The words of the next packet begin to come. -/
theorem idle_leads (supply : ∀ n, ∃ k, n ≤ k ∧ (x k).gap = false) :
    LeadsTo (fun n => WaitsAt ps x c n ∧ Feed.Idle (ps.drop c) (pathAt ps x n))
      (fun n => IdleAt ps x c n ∧ Feed.Load p rest (pathAt ps x n)) := by
  have begins : ∀ n, WaitsAt ps x c n ∧ Feed.Idle (ps.drop c) (pathAt ps x n) →
      (pathAt ps x n).infifoRdempty (x n) = false →
      IdleAt ps x c (n + 1) ∧ Feed.Load p rest (pathAt ps x (n + 1)) := by
    rintro n ⟨hw, hi⟩ he
    obtain ⟨p', rest', heq, hl⟩ := hi.load hw.quiet.1.rdreq hw.quiet.2.2 he
    rw [hd] at heq
    obtain ⟨rfl, rfl⟩ := List.cons.inj heq
    exact ⟨hw.step, hl⟩
  refine LeadsTo.wait (H := fun n => (x n).gap = false) ?_ ?_ supply
  · rintro n ⟨hw, hi⟩
    cases he : (pathAt ps x n).infifoRdempty (x n)
    · exact .inr (begins n ⟨hw, hi⟩ he)
    · have hi' := hi.stay hw.quiet.1.rdreq hw.quiet.2.2 he
      rcases hw.step.cases with h | h
      · exact .inl ⟨h, hi'⟩
      · -- nothing is stored, so nothing can be ready
        have hr := h.1
        simp only [opens, Bool.and_eq_true] at hr
        exact absurd (hi'.notRdy.symm.trans hr.2) (by decide)
  · rintro n ⟨hw, hi⟩ hg
    refine ⟨n + 1, Nat.le_succ n, begins n ⟨hw, hi⟩ ?_⟩
    rw [infifoRdempty, hg, hi.infifo, hd]; rfl

omit hd in
theorem load_step {n : Nat} (hw : WaitsAt ps x c n) (hl : Feed.Load p rest (pathAt ps x n)) :
    (WaitsAt ps x c (n + 1) ∧ Feed.Load p rest (pathAt ps x (n + 1))) ∨ OpensAt ps x c (n + 1) :=
  hw.step.cases.imp (fun h => ⟨h, hl.step hw.quiet.1.rdreq hw.quiet.2.2⟩) id

omit hd in
/-- All words of the packet are asked for. -/
theorem words_lead (supply : ∀ n, ∃ k, n ≤ k ∧ (x k).gap = false) :
    LeadsTo (fun n => WaitsAt ps x c n ∧ Feed.Load p rest (pathAt ps x n))
      (fun n => (WaitsAt ps x c n ∧ Feed.Load p rest (pathAt ps x n) ∧
        (pathAt ps x n).sep.rdCnt = p.len + 1) ∨ OpensAt ps x c n) := by
  refine LeadsTo.variant (fun n => p.len + 1 - (pathAt ps x n).sep.rdCnt) ?_
  rintro n ⟨hw, hl⟩
  by_cases hk : (pathAt ps x n).sep.rdCnt = p.len + 1
  · exact ⟨n, Nat.le_refl n, .inl (.inl ⟨hw, hl, hk⟩)⟩
  have hkle : (pathAt ps x n).sep.rdCnt ≤ p.len := by have := hl.le; omega
  have more : LeadsTo
      (fun m => (WaitsAt ps x c m ∧ Feed.Load p rest (pathAt ps x m)) ∧
        (pathAt ps x m).sep.rdCnt = (pathAt ps x n).sep.rdCnt)
      (fun m => OpensAt ps x c m ∨ (WaitsAt ps x c m ∧ Feed.Load p rest (pathAt ps x m)) ∧
        (pathAt ps x n).sep.rdCnt < (pathAt ps x m).sep.rdCnt) := by
    have step : ∀ m, (WaitsAt ps x c m ∧ Feed.Load p rest (pathAt ps x m)) ∧
        (pathAt ps x m).sep.rdCnt = (pathAt ps x n).sep.rdCnt →
        OpensAt ps x c (m + 1) ∨
          (WaitsAt ps x c (m + 1) ∧ Feed.Load p rest (pathAt ps x (m + 1))) ∧
          (pathAt ps x (m + 1)).sep.rdCnt = (pathAt ps x n).sep.rdCnt + (!(x m).gap).toNat := by
      rintro m ⟨⟨hwm, hlm⟩, hm⟩
      have hle : (pathAt ps x m).sep.rdCnt ≤ p.len := by omega
      have hcnt : (pathAt ps x (m + 1)).sep.rdCnt = (pathAt ps x m).sep.rdCnt +
        ((pathAt ps x m).infifoRdreq (x m)).toNat := hlm.step_rdCnt
      rw [hlm.infifoRdreq, hlm.infifoRdempty hle, decide_eq_true hle, Bool.true_and, hm] at hcnt
      exact (load_step hwm hlm).symm.imp id fun h => ⟨h, hcnt⟩
    refine LeadsTo.wait (H := fun m => (x m).gap = false) ?_ ?_ supply
    · intro m hm
      rcases step m hm with h | ⟨h, hcnt⟩
      · exact .inr (.inl h)
      · cases hg : (x m).gap
        · rw [hg] at hcnt; simp at hcnt; exact .inr (.inr ⟨h, by omega⟩)
        · rw [hg] at hcnt; exact .inl ⟨h, hcnt⟩
    · intro m hm hg
      refine ⟨m + 1, Nat.le_succ m, (step m hm).imp id fun ⟨h, hcnt⟩ => ⟨h, ?_⟩⟩
      rw [hg] at hcnt; simp at hcnt; omega
  obtain ⟨m, hm, h | ⟨h, hlt⟩⟩ := more n ⟨⟨hw, hl⟩, rfl⟩
  · exact ⟨m, hm, .inl (.inr h)⟩
  · have := h.2.le
    exact ⟨m, hm, .inr ⟨h, by omega⟩⟩

omit hd in
/-- The packet is complete and `pct_rdy` tells. -/
theorem ready_leads :
    LeadsTo (fun n => WaitsAt ps x c n ∧ Feed.Load p rest (pathAt ps x n) ∧
      (pathAt ps x n).sep.rdCnt = p.len + 1) (OpensAt ps x c) := by
  refine LeadsTo.variant
    (fun n => Feed.stage (pathAt ps x n).inst0 + (p.len + 1 - (pathAt ps x n).sep.wrCnt)) ?_
  rintro n ⟨hw, hl, hk⟩
  refine ⟨n + 1, Nat.le_succ n, ?_⟩
  rcases load_step hw hl with ⟨hw', hl'⟩ | ho
  · rcases hl.rdy_or_closer (i := x n) hw.quiet.1.rdreq hk with hr | hlt
    · have ho : (pathAt ps x (n + 1)).opens = true := by
        rw [opens, hw'.1.1]; exact hr
      exact .inl ⟨ho, hw'.1.2⟩
    · refine .inr ⟨⟨hw', hl', ?_⟩, hlt⟩
      have hcnt : (pathAt ps x (n + 1)).sep.rdCnt = (pathAt ps x n).sep.rdCnt +
        ((pathAt ps x n).infifoRdreq (x n)).toNat := hl.step_rdCnt
      rw [hcnt, hl.infifoRdreq, hk, decide_eq_false (by omega)]; rfl
  · exact .inl ho

/-- `idle` finds the next packet. -/
theorem feed_leads (supply : ∀ n, ∃ k, n ≤ k ∧ (x k).gap = false) :
    LeadsTo (IdleAt ps x c) (OpensAt ps x c) := by
  have loaded : LeadsTo (fun n => IdleAt ps x c n ∧ Feed.Load p rest (pathAt ps x n))
      (OpensAt ps x c) := by
    rintro n ⟨hi, hl⟩
    rcases hi.cases with hw | ho
    · exact ((words_lead supply).trans (ready_leads.or (LeadsTo.of_imp fun _ h => h))) n ⟨hw, hl⟩
    · exact ⟨n, Nat.le_refl n, ho⟩
  have idled := (idle_leads hd supply).trans loaded
  intro n hi
  rcases hi.cases with hw | ho
  · cases hw.quiet.2.1 with
    | idle h => exact idled n ⟨hw, h⟩
    | load p' rest' heq h =>
      rw [hd] at heq
      obtain ⟨rfl, rfl⟩ := List.cons.inj heq
      exact loaded n ⟨hi, h⟩
    | drained h =>
      have h' : Feed.Idle (ps.drop c) (pathAt ps x (n + 1)) := h.step hw.quiet.1.rdreq hw.quiet.2.2
      rcases hw.step.cases with hw' | ho
      · obtain ⟨m, hm, hq⟩ := idled (n + 1) ⟨hw', h'⟩
        exact ⟨m, by omega, hq⟩
      · exact ⟨n + 1, Nat.le_succ n, ho⟩
  · exact ⟨n, Nat.le_refl n, ho⟩

end load

end writer

end TxPath

end Tx
