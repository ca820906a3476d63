import LimeSdrGw.Tx.PctSamples
/-
# Packets that wait

What becomes of the packets of an unsynchronised stream when the sample FIFO has no room: the last two
stay in the slots, complete and untouched, for as long as nothing is read. Before, a stream of one
packet, and a host that holds the rest of its stream back.
-/
namespace Tx

open Clocked P2dWrFsm

namespace TxPath

/-! ### A stream of one packet -/

section single

variable {p : Packet} {x : Nat → TxIn}

theorem length_kept_le (n : Nat) :
    (book [p] x n).kept.length + (book [p] x n).waiting.length ≤ (book [p] x n).next := by
  have hp := (inv [p] x n).book.places.length_eq
  simp only [List.length_append, List.length_range] at hp
  omega

/-- With its last word sent the only packet has left its slot. -/
theorem free_of_sent {n : Nat} (h : 2 * p.len ≤ (emitted [p] x n).length) :
    (∀ k, (book [p] x n).slot k = .free) ∧ (book [p] x n).next = 1 := by
  have I := inv [p] x n
  have hlen := length_kept_le (p := p) (x := x) n
  have hnext : (book [p] x n).next ≤ 1 := I.bound
  have hpos := p.two_le_len
  cases I.out with
  | reading done j slot kept words =>
    rw [kept, List.length_append, List.length_singleton] at hlen
    have hdone : done = [] := List.length_eq_zero_iff.1 (by omega)
    cases I.reader with
    | reading _ _ j' p' slot' hat _ _ lt =>
      have hj : p' = p := by
        have hmem := List.mem_of_getElem? hat
        exact List.mem_singleton.1 hmem
      have hcount := congrArg List.length words
      rw [hdone, List.flatMap_nil, List.nil_append, List.length_append, List.length_take] at hcount
      rw [hj] at lt
      omega
    | idle _ _ h' | clear _ _ _ h' | leave _ _ h' | arrive _ _ h' => exact absurd slot (h' j)
  | between slot words =>
    have hkept : (book [p] x n).kept ≠ [] := by
      intro hnil
      rw [hnil, List.flatMap_nil] at words
      have hcount := congrArg List.length words
      rw [List.length_append, List.length_nil] at hcount
      omega
    have hone := List.length_pos_iff.2 hkept
    have hwait : (book [p] x n).waiting = [] := List.length_eq_zero_iff.1 (by omega)
    refine ⟨fun k => ?_, by omega⟩
    have hk : ((book [p] x n).slot k).waiting = [] := by
      obtain ⟨h0, h1⟩ := List.append_eq_nil_iff.1 hwait
      by_cases hk : k = (book [p] x n).rp
      · rw [hk, h0]
      · rw [eq_nextBuff_of_ne hk, h1]
    cases hu : (book [p] x n).slot k with
    | free => rfl
    | filling j => rw [hu] at hk; cases hk
    | full j => rw [hu] at hk; cases hk
    | reading j =>
      rw [I.book.eq_rp_of_reading hu] at hu
      exact absurd hu (slot j)

theorem sent_le (n : Nat) : (emitted [p] x n).length ≤ 2 * p.len := by
  have T := tx_packet_integrity [p] x n
  have honly := T.only.length_le
  have hlen := length_kept_le (p := p) (x := x) n
  have hnext : (book [p] x n).next ≤ 1 := (inv [p] x n).bound
  match hk : (book [p] x n).kept with
  | [] =>
    rw [hk] at honly
    exact Nat.le_trans honly (Nat.zero_le _)
  | [j] =>
    rw [hk, List.flatMap_singleton] at honly
    refine Nat.le_trans honly ?_
    match j with
    | 0 => exact Nat.le_of_eq ((congrArg List.length (payloadAt_eq rfl)).trans p.length_payload64)
    | j + 1 => exact Nat.zero_le _
  | _ :: _ :: _ =>
    rw [hk] at hlen
    simp only [List.length_cons] at hlen
    omega

end single

/-! ### A host that holds packets back -/

/-- The same state with more words to come. -/
def withMore (ws : List Word128) (s : TxPath) : TxPath := { s with infifo := s.infifo ++ ws }

/-- A gap where the other host is at its end makes the same step. -/
theorem step_withMore (ws : List Word128) (s : TxPath) {i i' : TxIn} (hgap : i.gap = false)
    (hi' : i' = { i with gap := s.infifo.isEmpty }) :
    (s.withMore ws).step i' = (s.step i).withMore ws := by
  subst hi'
  have hempty : (s.withMore ws).infifoRdempty { i with gap := s.infifo.isEmpty } =
      s.infifoRdempty i := by
    rw [infifoRdempty, infifoRdempty, hgap, withMore]
    cases s.infifo <;> rfl
  have hreq : (s.withMore ws).infifoRdreq { i with gap := s.infifo.isEmpty } = s.infifoRdreq i := by
    rw [infifoRdreq, hempty]
    rfl
  rw [step, hempty, hreq, withMore, withMore, step]
  cases hr : s.infifoRdreq i with
  | false => rfl
  | true =>
    cases hl : s.infifo with
    | nil =>
      rw [infifoRdreq, infifoRdempty, hl, PctSeparateFsm.infifoRdreq] at hr
      simp at hr
    | cons w l => rfl

/-! ### Packets that wait in their slots -/

section wait

variable {ps : List Packet} {x : Nat → TxIn} {N : Nat}

/-- With complete packets in both slots, these and what has been sent are no more than the stream:
    in the order of the book. -/
theorem sent_add_items (U : Unsync ps x) {n : Nat} (hb : ∀ k, ((book ps x n).slot k).Back) :
    (emitted ps x n).length + (((pathAt ps x n).inst1.instx (book ps x n).rp).items.length +
      ((pathAt ps x n).inst1.instx (nextBuff (book ps x n).rp)).items.length) ≤
      total ps ps.length := by
  have I := inv ps x n
  have hplaces := (I.book.places.flatMap_right (payloadAt ps)).length_eq
  rw [lost_eq_nil U n, List.append_nil, List.flatMap_append, List.length_append] at hplaces
  have hmono : total ps (book ps x n).next ≤ total ps ps.length := total_mono I.bound
  have hout := I.out
  have h0 := I.slots (book ps x n).rp
  have h1 := I.slots (nextBuff (book ps x n).rp)
  have hb0 := hb (book ps x n).rp
  have hb1 := hb (nextBuff (book ps x n).rp)
  -- only the slot at `rp` is ever read
  have hnot : ∀ j, (book ps x n).slot (nextBuff (book ps x n).rp) ≠ .reading j := fun j hj =>
    nextBuff_ne _ (I.book.eq_rp_of_reading hj)
  rw [Book.waiting] at hplaces
  generalize hu1 : (book ps x n).slot (nextBuff (book ps x n).rp) = u1 at h1 hb1 hplaces hnot
  generalize hu0 : (book ps x n).slot (book ps x n).rp = u0 at h0 hb0 hplaces
  cases h1 with
  | free => cases hb1
  | filling => cases hb1
  | reading j => exact absurd rfl (hnot j)
  | full j p hat items =>
    cases h0 with
    | free => cases hb0
    | filling => cases hb0
    | full i p' hat' items' =>
      cases hout with
      | reading _ _ slot => rw [hu0] at slot; cases slot
      | between _ words =>
        have hlen := congrArg List.length words
        have hwait : ((SlotUse.full i).waiting ++ (SlotUse.full j).waiting).flatMap
            (payloadAt ps) = p'.payload64 ++ p.payload64 := by
          rw [← payloadAt_eq hat, ← payloadAt_eq hat']
          simp [SlotUse.waiting]
        rw [List.length_append] at hlen
        rw [hwait, List.length_append] at hplaces
        rw [items, items']
        exact Nat.le_trans (by unfold total at *; omega) hmono
    | reading i p' hat' items' =>
      cases hout with
      | between slot _ => exact absurd hu0 (slot i)
      | reading done l slot kept words =>
        obtain rfl := SlotUse.reading.inj (hu0.symm.trans slot)
        have hlen := congrArg List.length words
        have hwait : ((SlotUse.reading i).waiting ++ (SlotUse.full j).waiting).flatMap
            (payloadAt ps) = p.payload64 := by
          rw [← payloadAt_eq hat]
          simp [SlotUse.waiting]
        rw [payloadAt_eq hat', List.length_append, List.length_append, List.length_take] at hlen
        rw [hwait, kept, List.flatMap_append, List.length_append, List.flatMap_singleton,
          payloadAt_eq hat'] at hplaces
        rw [items, items', List.length_drop]
        exact Nat.le_trans (by unfold total at *; omega) hmono

/-- The same, slot by slot. -/
theorem sent_add_slots (U : Unsync ps x) {n : Nat} (hb : ∀ k, ((book ps x n).slot k).Back) :
    (emitted ps x n).length + ((pathAt ps x n).inst1.slotVisible 0).length +
      ((pathAt ps x n).inst1.slotVisible 1).length ≤ total ps ps.length := by
  have hsum := sent_add_items U hb
  have hvis : ∀ k, (pathAt ps x n).inst1.slotVisible k = ((pathAt ps x n).inst1.instx k).items :=
    fun k => (inv ps x n).visible fun hfree => by
      have hk := hb k
      rw [hfree] at hk
      cases hk
  rw [hvis, hvis]
  generalize (book ps x n).rp = r at hsum
  match r with
  | 0 =>
    have hother : nextBuff 0 = 1 := rfl
    rw [hother] at hsum
    omega
  | 1 =>
    have hother : nextBuff 1 = 0 := rfl
    rw [hother] at hsum
    omega

/-- From clock `N` on the sample FIFO has no room; in clock `N` both slots are free. -/
structure Stopped (ps : List Packet) (x : Nat → TxIn) (N : Nat) : Prop where
  sync : ∀ n, (x n).pctSyncDis = true
  supply : ∀ n, N ≤ n → (x n).gap = false
  full : ∀ n, N < n → (x n).smplBuffAlmostFull = true
  free : ∀ k, (book ps x N).slot k = .free

namespace Stopped

variable (h : Stopped ps x N)
include h

theorem unsync : Unsync ps x := fun n _ _ => .inl (h.sync n)

/-- Nothing is read any more. -/
theorem not_rdReqInt {n : Nat} (hn : N ≤ n) :
    (pathAt ps x n).rd.rdReqInt (x n).smplBuffAlmostFull = false := by
  rcases Nat.lt_or_eq_of_le hn with hlt | rfl
  · rw [P2dRd.rdReqInt, h.full n hlt, Bool.not_true, Bool.and_false]
  · cases (inv ps x N).reader with
    | reading _ _ j _ slot => rw [h.free] at slot; cases slot
    | idle state | clear state | leave state | arrive state => simp [P2dRd.rdReqInt, state]

/-- A slot that is read now has not been read from. -/
theorem rdCnt_eq {n : Nat} (hn : N ≤ n) : (pathAt ps x n).rd.currentState = .rdBuff ∨
    (pathAt ps x n).rd.currentState = .rdHold → (pathAt ps x n).rd.rdCnt = 0 := by
  induction hn with
  | refl =>
    intro hst
    cases (inv ps x N).reader with
    | reading _ _ j _ slot => rw [h.free] at slot; cases slot
    | idle state | clear state | leave state | arrive state => simp [state] at hst
  | @step n hn ih =>
    intro hst
    have hcnt : (pathAt ps x (n + 1)).rd.rdCnt = if (pathAt ps x n).rd.currentState = .idle then 0
      else if (pathAt ps x n).rd.rdReqInt (x n).smplBuffAlmostFull then
        inc16 (pathAt ps x n).rd.rdCnt else (pathAt ps x n).rd.rdCnt := rfl
    rw [h.not_rdReqInt hn, if_neg (by decide : ¬ (false = true))] at hcnt
    rcases P2dRd.of_nextState_reading hst with hidle | hread
    · rw [hcnt, if_pos hidle]
    · rw [hcnt, ih hread, ite_self]

/-- No slot is emptied. -/
theorem emptied_eq {n : Nat} (hn : N ≤ n) :
    (book ps x n).emptied.length = (book ps x N).emptied.length := by
  induction hn with
  | refl => rfl
  | @step n hn ih =>
    have hrel : (pathAt ps x n).releases (x n) = false := by
      refine Bool.eq_false_iff.2 fun hrel => ?_
      have hreq := h.not_rdReqInt hn
      simp only [releases, Bool.and_eq_true, beq_iff_eq] at hrel
      simp only [P2dRd.rdReqInt, hrel.1] at hreq
      have hnext := hrel.2
      rw [P2dRd.nextState, hrel.1] at hnext
      simp only [beq_self_eq_true, Bool.true_and] at hreq
      rw [hreq] at hnext
      cases hnext
    rw [emptied_succ, not_discards h.unsync, hrel]
    exact ih

/-- All packets taken so far have come in and left again. -/
theorem start : (book ps x N).filled.length = (book ps x N).next ∧
    (book ps x N).emptied.length = (book ps x N).next := by
  have hfilled := (next_eq h.unsync N).1 fun j hj => by
    rw [h.free] at hj
    cases hj
  have hheld := congrArg List.length (inv ps x N).order.held
  rw [h.free, h.free] at hheld
  have hnone : (SlotUse.free.held ++ SlotUse.free.held).length = 0 := rfl
  rw [List.length_append, hnone] at hheld
  exact ⟨hfilled.symm, by omega⟩

/-- The last two packets of the stream come into the slots. -/
theorem filled_twice (hlen : (book ps x N).next + 2 = ps.length) :
    ∃ M, N ≤ M ∧ (book ps x M).filled.length = ps.length := by
  obtain ⟨hfilled, hemptied⟩ := h.start
  have hsupply : ∀ n, ∃ k, n ≤ k ∧ (x k).gap = false := fun n =>
    ⟨n + N, Nat.le_add_right _ _, h.supply _ (Nat.le_add_left _ _)⟩
  obtain ⟨m, hm, hone⟩ := filled_leads_of_room h.unsync hsupply (by omega) hfilled (by omega)
  obtain ⟨M, hM, htwo⟩ := filled_leads_of_room h.unsync hsupply (by omega) hone
    (Nat.le_of_eq (by rw [h.emptied_eq hm, hemptied]))
  exact ⟨M, Nat.le_trans hm hM, htwo.trans hlen⟩

/-- Two packets are in the slots. -/
theorem back_of_filled {n : Nat} (hn : N ≤ n)
    (hf : (book ps x n).filled.length = (book ps x N).next + 2) :
    ∀ k, ((book ps x n).slot k).Back := by
  have I := inv ps x n
  have hh := congrArg List.length I.order.held
  rw [List.length_append, List.length_append, h.emptied_eq hn, hf, h.start.2] at hh
  have hle : ∀ k, ((book ps x n).slot k).held.length ≤ 1 := fun k => by
    cases (book ps x n).slot k <;> simp [SlotUse.held]
  have hone : ∀ k, ((book ps x n).slot k).held.length = 1 := by
    intro k
    have h0 := hle (book ps x n).rp
    have h1 := hle (nextBuff (book ps x n).rp)
    by_cases hk : k = (book ps x n).rp
    · rw [hk]
      omega
    · rw [eq_nextBuff_of_ne hk]
      omega
  intro k
  have hk := hone k
  cases hu : (book ps x n).slot k with
  | free => rw [hu] at hk; cases hk
  | filling j => rw [hu] at hk; cases hk
  | full j => exact .full j
  | reading j => exact .reading j

/-- They stay there. -/
theorem stay (hlen : (book ps x N).next + 2 = ps.length) :
    ∃ M, N ≤ M ∧ ∀ n, M ≤ n → ∀ k, ((book ps x n).slot k).Back := by
  obtain ⟨M, hM, hall⟩ := h.filled_twice hlen
  refine ⟨M, hM, fun n hn => h.back_of_filled (Nat.le_trans hM hn) ?_⟩
  rw [hlen]
  exact Nat.le_antisymm (filled_le h.unsync n) (hall ▸ filled_mono hn)

/-- What a slot holds then: one whole packet. -/
theorem slot_whole {n : Nat} (hn : N ≤ n) {k : Fin buffCount} (hk : ((book ps x n).slot k).Back) :
    ∃ p : Packet, (pathAt ps x n).inst1.slotVisible k = p.payload64 ∧
      (pathAt ps x n).inst1.pctBuffSize k = 2 * p.len := by
  have I := inv ps x n
  have hs := I.slots k
  generalize hu : (book ps x n).slot k = u at hk hs
  have hne : (book ps x n).slot k ≠ .free := by rw [hu]; cases hk <;> nofun
  cases hs with
  | free => cases hk
  | filling => cases hk
  | full j p hat items tag =>
    exact ⟨p, (I.visible hne).trans items, tag.size⟩
  | reading j p hat items tag =>
    refine ⟨p, ?_, tag.size⟩
    have hst : (pathAt ps x n).rd.currentState = .rdBuff ∨
        (pathAt ps x n).rd.currentState = .rdHold := by
      have hrp := I.book.eq_rp_of_reading hu
      cases I.reader with
      | reading state => exact state
      | idle _ _ h' | clear _ _ _ h' | leave _ _ h' | arrive _ _ h' =>
        rw [hrp] at hu
        exact absurd hu (h' j)
    rw [I.visible hne, items, h.rdCnt_eq hn hst, List.drop_zero]

theorem ready_of_back {n : Nat} (hn : N ≤ n) {k : Fin buffCount}
    (hk : ((book ps x n).slot k).Back) : (pathAt ps x (n + 1)).inst1.pctBuffRdyInt k = true := by
  obtain ⟨p, hvis, hsize⟩ := h.slot_whole hn hk
  have hrdy : (pathAt ps x (n + 1)).inst1.pctBuffRdyInt k =
      (((pathAt ps x n).inst1.slotVisible k).length == (pathAt ps x n).inst1.pctBuffSize k) := by
    show (Table.ofFn _ : Table buffCount Bool) k = _
    rw [Table.ofFn_apply]
  rw [hrdy, hvis, hsize, p.length_payload64, beq_self_eq_true]

end Stopped

end wait

end TxPath

end Tx
