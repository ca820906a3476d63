import LimeSdrGw.Tx.Book
import LimeSdrGw.Tx.Packets2data
/-
# The book of a run

Which transition of `p2d_wr_fsm` and `p2d_rd` is which entry of the `Book`, and what the two entries
of one clock do to every slot.
-/
namespace Tx

open Clocked

namespace TxPath

/-- The writer's transitions that make an entry. -/
def opens (s : TxPath) : Bool := s.wr.currentState == .idle && s.inst0.pctRdyReg
def rejects (s : TxPath) : Bool := s.wr.currentState == .clrFifo
def finishes (s : TxPath) : Bool := s.wr.currentState == .waitWrEnd && !s.wr.inPctDataValid

/-- The reader's transitions that make an entry. -/
def takes (s : TxPath) (i : TxIn) : Bool :=
  s.rd.currentState == .idle && s.rd.nextState i.pctSyncDis i.smplBuffAlmostFull == .rdBuff
def discards (s : TxPath) (i : TxIn) : Bool :=
  s.rd.currentState == .idle && s.rd.nextState i.pctSyncDis i.smplBuffAlmostFull == .clrBuff
def releases (s : TxPath) (i : TxIn) : Bool :=
  s.rd.currentState == .rdBuff && s.rd.nextState i.pctSyncDis i.smplBuffAlmostFull == .switchNextBuff

/-- The entry `p2d_wr_fsm` makes in this clock. -/
def wrEntry (s : TxPath) (b : Book) : Book :=
  if s.opens then b.openSlot else if s.rejects then b.reject
  else if s.finishes then b.finish else b

/-- The entry `p2d_rd` makes in this clock. -/
def rdEntry (s : TxPath) (i : TxIn) (b : Book) : Book :=
  if s.takes i then b.take else if s.discards i then b.discard
  else if s.releases i then b.release else b

def note (b : Book) (s : TxPath) (i : TxIn) : Book := s.rdEntry i (s.wrEntry b)

/-- The path in clock `n`, the host sending `ps`. -/
abbrev pathAt (ps : List Packet) (x : Nat → TxIn) (n : Nat) : TxPath :=
  (machine (ps.flatMap Packet.words)).state x n

/-- The book after the clocks before `n`. -/
def book (ps : List Packet) (x : Nat → TxIn) (n : Nat) : Book :=
  (machine (ps.flatMap Packet.words)).track note .empty x n

theorem book_succ (ps : List Packet) (x : Nat → TxIn) (n : Nat) :
    book ps x (n + 1) = note (book ps x n) (pathAt ps x n) (x n) := rfl

/-- What has been presented with `smpl_buff_valid` in the clocks before `n`. -/
def emitted (ps : List Packet) (x : Nat → TxIn) (n : Nat) : List Word64 :=
  (machine (ps.flatMap Packet.words)).log presented x n

/-- Every transition finds its slot as the entry expects it. -/
structure Fits (b : Book) (s : TxPath) (i : TxIn) : Prop where
  opens : s.opens = true → b.slot b.wp = .free
  rejects : s.rejects = true → ∃ j, b.slot b.wp = .filling j
  finishes : s.finishes = true → ∃ j, b.slot b.wp = .filling j
  takes : s.takes i = true → ∃ j, b.slot b.rp = .full j
  discards : s.discards i = true → ∃ j, b.slot b.rp = .full j
  releases : s.releases i = true → ∃ j, b.slot b.rp = .reading j

section entries

variable {b : Book} {s : TxPath} {i : TxIn} {k : Fin buffCount} {j : Nat}

theorem wrEntry_ok (h : b.Ok) (f : Fits b s i) : (s.wrEntry b).Ok := by
  unfold wrEntry
  split
  next ho => exact h.openSlot (f.opens ho)
  split
  · exact h.reject
  split
  · exact h.finish
  · exact h

theorem rdEntry_ok (h : b.Ok) : (s.rdEntry i b).Ok := by
  unfold rdEntry
  split
  · exact h.take
  split
  · exact h.discard
  split
  · exact h.release
  · exact h

theorem only_finishes (h : s.finishes = true) : s.opens = false ∧ s.rejects = false := by
  unfold finishes at h
  unfold opens rejects
  simp only [Bool.and_eq_true, beq_iff_eq] at h
  simp [h.1]

theorem only_takes (h : s.takes i = true) : (s.discards i || s.releases i) = false := by
  unfold takes at h
  unfold discards releases
  simp only [Bool.and_eq_true, beq_iff_eq] at h
  simp [h.1, h.2]

theorem note_ok (h : b.Ok) (f : Fits b s i) : (note b s i).Ok := rdEntry_ok (wrEntry_ok h f)

theorem note_inOrder (h : b.Ok) (f : Fits b s i) (o : b.InOrder) : (note b s i).InOrder := by
  have hw : (s.wrEntry b).InOrder := by
    unfold wrEntry
    split
    next ho => exact o.openSlot (f.opens ho)
    split
    · exact o.reject
    split
    · exact o.finish h
    · exact o
  unfold note rdEntry
  split
  · exact hw.take
  split
  · exact hw.discard
  split
  · exact hw.release
  · exact hw

/-- The slot the writer is at after its entry. -/
theorem wrEntry_slot_wp (f : Fits b s i) : (s.wrEntry b).slot b.wp =
    if s.opens then .filling b.next else if s.rejects then .free
    else match s.finishes, b.slot b.wp with
      | true, .filling j => .full j
      | _, u => u := by
  unfold wrEntry
  split
  · exact Book.set_self _ _ _
  split
  next _ hr =>
    obtain ⟨j, hj⟩ := f.rejects hr
    simp [Book.reject, hj]
  split
  next _ _ hf =>
    obtain ⟨j, hj⟩ := f.finishes hf
    simp [Book.finish, hj, hf]
  next _ _ hf => simp [hf]

theorem wrEntry_slot_ne (hk : k ≠ b.wp) : (s.wrEntry b).slot k = b.slot k := by
  unfold wrEntry Book.openSlot Book.reject Book.finish
  repeat' split
  all_goals first | rfl | exact Book.set_ne _ _ hk

/-- The writer does not touch a slot behind it. -/
theorem wrEntry_slot_back (f : Fits b s i) {u : SlotUse} (hk : b.slot k = u) (hu : u.Back) :
    (s.wrEntry b).slot k = u := by
  by_cases hw : k = b.wp
  · subst hw
    rw [wrEntry_slot_wp f, hk]
    split
    next ho => rw [f.opens ho] at hk; rw [← hk] at hu; exact nomatch hu
    split
    next _ hr => obtain ⟨j, hj⟩ := f.rejects hr; rw [← hk, hj] at hu; exact nomatch hu
    split
    · exact nomatch hu
    · rfl
  · rw [wrEntry_slot_ne hw, hk]

theorem wrEntry_wp (f : Fits b s i) :
    (s.wrEntry b).wp = if s.finishes then nextBuff b.wp else b.wp := by
  unfold wrEntry
  by_cases hf : s.finishes = true
  · obtain ⟨j, hj⟩ := f.finishes hf
    simp [hf, only_finishes hf, Book.finish, hj]
  · simp only [hf, Bool.false_eq_true, if_false]
    unfold Book.openSlot Book.reject
    repeat' split
    all_goals rfl

theorem wrEntry_next : (s.wrEntry b).next = if s.opens then b.next + 1 else b.next := by
  unfold wrEntry Book.openSlot Book.reject Book.finish
  repeat' split
  all_goals rfl

@[simp] theorem wrEntry_rp : (s.wrEntry b).rp = b.rp := by
  unfold wrEntry Book.openSlot Book.reject Book.finish
  repeat' split
  all_goals rfl

@[simp] theorem wrEntry_kept : (s.wrEntry b).kept = b.kept := by
  unfold wrEntry Book.openSlot Book.reject Book.finish
  repeat' split
  all_goals rfl

theorem rdEntry_slot_ne (hk : k ≠ b.rp) : (s.rdEntry i b).slot k = b.slot k := by
  unfold rdEntry Book.take Book.discard Book.release
  repeat' split
  all_goals first | rfl | exact Book.set_ne _ _ hk

/-- The reader does not touch the slot the writer is at. -/
theorem rdEntry_slot_front {u : SlotUse} (hk : b.slot k = u) (hu : u.Front) :
    (s.rdEntry i b).slot k = u := by
  by_cases hr : k = b.rp
  · subst hr
    unfold rdEntry Book.take Book.discard Book.release
    cases hu <;> simp only [hk] <;> repeat' split
    all_goals exact hk
  · rw [rdEntry_slot_ne hr, hk]

@[simp] theorem rdEntry_wp : (s.rdEntry i b).wp = b.wp := by
  unfold rdEntry Book.take Book.discard Book.release
  repeat' split
  all_goals rfl

@[simp] theorem rdEntry_next : (s.rdEntry i b).next = b.next := by
  unfold rdEntry Book.take Book.discard Book.release
  repeat' split
  all_goals rfl

/-! ### Both entries of a clock -/

theorem note_wp (f : Fits b s i) :
    (note b s i).wp = if s.finishes then nextBuff b.wp else b.wp := by
  rw [note, rdEntry_wp, wrEntry_wp f]

theorem note_next : (note b s i).next = if s.opens then b.next + 1 else b.next := by
  rw [note, rdEntry_next, wrEntry_next]

theorem note_slot_free (f : Fits b s i) (hk : b.slot k = .free) :
    (note b s i).slot k = if s.opens ∧ k = b.wp then .filling b.next else .free := by
  have hw : (s.wrEntry b).slot k = if s.opens ∧ k = b.wp then .filling b.next else .free := by
    by_cases hw : k = b.wp
    · subst hw
      rw [wrEntry_slot_wp f, hk]
      cases s.opens <;> cases s.finishes <;> simp
    · rw [wrEntry_slot_ne hw, hk]; simp [hw]
  refine rdEntry_slot_front hw ?_
  split
  · exact .filling _
  · exact .free

theorem note_slot_filling (h : b.Ok) (f : Fits b s i) (hk : b.slot k = .filling j) :
    (note b s i).slot k =
      if s.rejects then .free else if s.finishes then .full j else .filling j := by
  have hkw := h.eq_wp_of_filling hk
  subst hkw
  have ho : s.opens = false := by
    cases ho : s.opens
    · rfl
    · rw [f.opens ho] at hk; exact nomatch hk
  have hw := wrEntry_slot_wp f
  rw [ho, hk] at hw
  rw [note]
  by_cases hr : s.rejects = true
  · simp only [hr, if_true, Bool.false_eq_true, if_false] at hw ⊢
    exact rdEntry_slot_front hw .free
  · by_cases hf : s.finishes = true
    · -- the reader is at the other slot, or at this one with nothing to do
      simp only [hr, hf, if_true, Bool.false_eq_true, if_false] at hw ⊢
      have hne : ∀ u, b.slot b.rp = u → u.Back → b.wp ≠ (s.wrEntry b).rp := by
        intro u hu hb e
        rw [wrEntry_rp] at e
        rw [← e, hk] at hu
        rw [← hu] at hb; exact nomatch hb
      unfold rdEntry
      split
      next ht =>
        obtain ⟨l, hl⟩ := f.takes ht
        have := hne _ hl (.full l)
        unfold Book.take
        split
        · exact (Book.set_ne _ _ this).trans hw
        · exact hw
      split
      next _ ht =>
        obtain ⟨l, hl⟩ := f.discards ht
        have := hne _ hl (.full l)
        unfold Book.discard
        split
        · exact (Book.set_ne _ _ this).trans hw
        · exact hw
      split
      next _ _ ht =>
        obtain ⟨l, hl⟩ := f.releases ht
        have := hne _ hl (.reading l)
        unfold Book.release
        split
        · exact (Book.set_ne _ _ this).trans hw
        · exact hw
      · exact hw
    · simp only [hr, hf, Bool.false_eq_true, if_false] at hw ⊢
      exact rdEntry_slot_front hw (.filling j)

theorem note_slot_full (f : Fits b s i) (hk : b.slot k = .full j) :
    (note b s i).slot k =
      if k = b.rp then if s.takes i then .reading j else if s.discards i then .free else .full j
      else .full j := by
  have hw : (s.wrEntry b).slot k = .full j :=
    wrEntry_slot_back f hk (.full j)
  rw [note]
  by_cases hr : k = b.rp
  · subst hr
    have hw' : (s.wrEntry b).slot (s.wrEntry b).rp = .full j := by rw [wrEntry_rp]; exact hw
    rw [if_pos rfl]
    unfold rdEntry
    split
    · simp [Book.take, hw, wrEntry_rp]
    split
    · simp [Book.discard, hw, wrEntry_rp]
    split
    next _ _ hl => obtain ⟨l, hl⟩ := f.releases hl; rw [hl] at hk; exact nomatch hk
    · exact hw
  · rw [if_neg hr, rdEntry_slot_ne (by rwa [wrEntry_rp]), hw]

theorem note_slot_reading (h : b.Ok) (f : Fits b s i) (hk : b.slot k = .reading j) :
    (note b s i).slot k = if s.releases i then .free else .reading j := by
  have hw : (s.wrEntry b).slot k = .reading j :=
    wrEntry_slot_back f hk (.reading j)
  have hr := h.eq_rp_of_reading hk
  subst hr
  rw [note, rdEntry]
  split
  next ht => obtain ⟨l, hl⟩ := f.takes ht; rw [hl] at hk; exact nomatch hk
  split
  next _ ht => obtain ⟨l, hl⟩ := f.discards ht; rw [hl] at hk; exact nomatch hk
  split
  · simp [Book.release, hw, wrEntry_rp]
  · exact hw

theorem note_rp (f : Fits b s i) :
    (note b s i).rp = if s.discards i || s.releases i then nextBuff b.rp else b.rp := by
  rw [note, rdEntry]
  split
  next ht =>
    rw [only_takes ht]
    obtain ⟨j, hj⟩ := f.takes ht
    simp [Book.take, wrEntry_slot_back f hj (.full j)]
  split
  next _ hd =>
    obtain ⟨j, hj⟩ := f.discards hd
    simp [Book.discard, wrEntry_slot_back f hj (.full j), hd]
  split
  next _ _ hl =>
    obtain ⟨j, hj⟩ := f.releases hl
    simp [Book.release, wrEntry_slot_back f hj (.reading j), hl]
  next hd hl => simp [hd, hl]

theorem note_kept (f : Fits b s i) (hk : b.slot b.rp = .full j) :
    (note b s i).kept = if s.takes i then b.kept ++ [j] else b.kept := by
  rw [note, rdEntry]
  split
  · simp [Book.take, wrEntry_slot_back f hk (.full j)]
  · unfold Book.discard Book.release
    repeat' split
    all_goals exact wrEntry_kept

theorem wrEntry_filled_length (f : Fits b s i) :
    (s.wrEntry b).filled.length = b.filled.length + s.finishes.toNat := by
  unfold wrEntry
  by_cases hf : s.finishes = true
  · obtain ⟨j, hj⟩ := f.finishes hf
    simp [hf, only_finishes hf, Book.finish, hj]
  · have hf' : s.finishes = false := by simpa using hf
    rw [hf']
    unfold Book.openSlot Book.reject
    repeat' split
    all_goals first | rfl | contradiction

theorem note_filled_length (f : Fits b s i) :
    (note b s i).filled.length = b.filled.length + s.finishes.toNat := by
  rw [← wrEntry_filled_length f, note]
  unfold rdEntry Book.take Book.discard Book.release
  repeat' split
  all_goals rfl

theorem note_emptied_length (f : Fits b s i) :
    (note b s i).emptied.length = b.emptied.length + (s.discards i || s.releases i).toNat := by
  have hw : (s.wrEntry b).emptied = b.emptied := by
    unfold wrEntry Book.openSlot Book.reject Book.finish
    repeat' split
    all_goals rfl
  rw [note, rdEntry]
  split
  next ht =>
    rw [only_takes ht]
    unfold Book.take
    split <;> simp [hw]
  split
  next _ hd =>
    obtain ⟨j, hj⟩ := f.discards hd
    simp [Book.discard, wrEntry_slot_back f hj (.full j), hd, hw]
  split
  next _ _ hl =>
    obtain ⟨j, hj⟩ := f.releases hl
    simp [Book.release, wrEntry_slot_back f hj (.reading j), hl, hw]
  next hd hl => simp [hd, hl, hw]

/-- Nothing is lost in a clock without a rejection or a clear. -/
theorem note_lost (hr : s.rejects = false) (hd : s.discards i = false) :
    (note b s i).lost = b.lost := by
  unfold note rdEntry wrEntry Book.take Book.release Book.openSlot Book.finish
  rw [hr, hd]
  repeat' split
  all_goals first | rfl | contradiction

theorem note_kept_of_not_takes (ht : s.takes i = false) : (note b s i).kept = b.kept := by
  rw [note, rdEntry, ht]
  unfold Book.discard Book.release
  repeat' split
  all_goals first | exact wrEntry_kept | contradiction

end entries

end TxPath

end Tx
