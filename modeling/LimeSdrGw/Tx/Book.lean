import LimeSdrGw.Tx.P2dWrFsm
/-
# The packet slots as a ring

What the slots of `packets2data` are for, without registers: packets come in at slot `wp`, leave in
the same order from slot `rp`, and every packet of the stream is in exactly one place. `Book` is
kept beside a run of the hardware; `Tx.Events` says which transition of which machine is which entry.

| entry     | transition |
| --- | --- |
| `open`    | `p2d_wr_fsm` finds a complete packet and begins with its header |
| `reject`  | `p2d_wr_fsm` clears the late packet away (`clr_fifo`) |
| `finish`  | the last word of the packet is in the slot |
| `take`    | `p2d_rd` begins to read the slot |
| `release` | `p2d_rd` has read the slot |
| `discard` | `p2d_rd` clears the late packet away (`clr_buff`) |
-/
namespace Tx

open Clocked

/-- What a slot is used for; the number is the packet's place in the stream. -/
inductive SlotUse
  | free
  | filling (j : Nat)
  | full (j : Nat)
  | reading (j : Nat)
deriving DecidableEq, Repr

namespace SlotUse

/-- The packet whose reading has not begun. -/
def waiting : SlotUse → List Nat
  | filling j | full j => [j]
  | free | reading _ => []

/-- The packet the slot holds complete. -/
def held : SlotUse → List Nat
  | full j | reading j => [j]
  | free | filling _ => []

/-- The slot the writer may be at. -/
inductive Front : SlotUse → Prop
  | free : Front free
  | filling (j : Nat) : Front (filling j)

/-- A slot behind the writer. -/
inductive Back : SlotUse → Prop
  | full (j : Nat) : Back (full j)
  | reading (j : Nat) : Back (reading j)

theorem Front.not_back {u : SlotUse} (h : u.Front) : ¬ u.Back := by
  cases h <;> exact nofun

end SlotUse

@[simp] theorem nextBuff_nextBuff (i : Fin buffCount) : nextBuff (nextBuff i) = i := by
  revert i; decide

theorem nextBuff_ne (i : Fin buffCount) : nextBuff i ≠ i := by
  revert i; decide

theorem eq_nextBuff_of_ne {i k : Fin buffCount} (h : i ≠ k) : i = nextBuff k := by
  revert i k; decide

structure Book where
  /-- Packets taken from the stream so far. -/
  next : Nat
  slot : Table buffCount SlotUse
  /-- The slot of the packet that is coming in, or will come in next. -/
  wp : Fin buffCount
  /-- The slot of the oldest packet. -/
  rp : Fin buffCount
  /-- Packets read out of their slot, or being read. -/
  kept : List Nat
  /-- Packets cleared away. -/
  lost : List Nat
  /-- Packets moved into a slot, in the order of the slots they went to. -/
  filled : List Nat
  /-- Packets whose slot has been read or cleared since. -/
  emptied : List Nat
deriving Repr, DecidableEq

namespace Book

def empty : Book := ⟨0, .const .free, 0, 0, [], [], [], []⟩

def set (b : Book) (i : Fin buffCount) (u : SlotUse) : Table buffCount SlotUse :=
  .ofFn fun k => if k = i then u else b.slot k

@[simp] theorem set_self (b : Book) (i : Fin buffCount) (u : SlotUse) : b.set i u i = u := by
  simp [set]

theorem set_ne (b : Book) {i k : Fin buffCount} (u : SlotUse) (h : k ≠ i) :
    b.set i u k = b.slot k := by
  simp [set, h]

@[simp] theorem set_nextBuff (b : Book) (i : Fin buffCount) (u : SlotUse) :
    b.set i u (nextBuff i) = b.slot (nextBuff i) := b.set_ne u (nextBuff_ne i)

@[simp] theorem set_of_nextBuff (b : Book) (i : Fin buffCount) (u : SlotUse) :
    b.set (nextBuff i) u i = b.slot i := b.set_ne u (nextBuff_ne i).symm

def openSlot (b : Book) : Book :=
  { b with next := b.next + 1, slot := b.set b.wp (.filling b.next) }

def reject (b : Book) : Book :=
  match b.slot b.wp with
  | .filling j => { b with slot := b.set b.wp .free, lost := b.lost ++ [j] }
  | _ => b

def finish (b : Book) : Book :=
  match b.slot b.wp with
  | .filling j =>
    { b with slot := b.set b.wp (.full j), wp := nextBuff b.wp, filled := b.filled ++ [j] }
  | _ => b

def take (b : Book) : Book :=
  match b.slot b.rp with
  | .full j => { b with slot := b.set b.rp (.reading j), kept := b.kept ++ [j] }
  | _ => b

def release (b : Book) : Book :=
  match b.slot b.rp with
  | .reading j =>
    { b with slot := b.set b.rp .free, rp := nextBuff b.rp, emptied := b.emptied ++ [j] }
  | _ => b

def discard (b : Book) : Book :=
  match b.slot b.rp with
  | .full j =>
    { b with
      slot := b.set b.rp .free, rp := nextBuff b.rp
      lost := b.lost ++ [j], emptied := b.emptied ++ [j] }
  | _ => b

/-- The packets in the slots whose reading has not begun, oldest first. -/
def waiting (b : Book) : List Nat := (b.slot b.rp).waiting ++ (b.slot (nextBuff b.rp)).waiting

/-- Where the pointers can stand. -/
inductive Ring (b : Book) : Prop
  | empty (front : (b.slot b.wp).Front) (other : b.slot (nextBuff b.wp) = .free) (eq : b.rp = b.wp)
  | one (front : (b.slot b.wp).Front) (back : (b.slot (nextBuff b.wp)).Back)
      (eq : b.rp = nextBuff b.wp)
  | full (back : (b.slot b.wp).Back) (j : Nat) (other : b.slot (nextBuff b.wp) = .full j)
      (eq : b.rp = b.wp)

/-- Every packet taken from the stream is in one place, and they stay in order. -/
structure Ok (b : Book) : Prop where
  ring : b.Ring
  sorted : (b.kept ++ b.waiting).Pairwise (· < ·)
  places : (b.kept ++ b.waiting ++ b.lost).Perm (List.range b.next)

namespace Ok

variable {b : Book} (h : b.Ok)
include h

theorem lt_next {j : Nat} (hj : j ∈ b.kept ++ b.waiting ++ b.lost) : j < b.next :=
  List.mem_range.1 (h.places.mem_iff.1 hj)

/-- Only the slot at `wp` is ever being filled. -/
theorem eq_wp_of_filling {i : Fin buffCount} {j : Nat} (hi : b.slot i = .filling j) : i = b.wp := by
  by_cases hne : i = b.wp
  · exact hne
  · rw [eq_nextBuff_of_ne hne] at hi
    cases h.ring with
    | empty _ other _ => simp [other] at hi
    | one _ back _ => rw [hi] at back; exact nomatch back
    | full _ k other _ => simp [other] at hi

/-- Only the slot at `rp` is ever being read. -/
theorem eq_rp_of_reading {i : Fin buffCount} {j : Nat} (hi : b.slot i = .reading j) : i = b.rp := by
  cases h.ring with
  | empty front other eq =>
    by_cases hne : i = b.wp
    · rw [hne, eq]
    · rw [eq_nextBuff_of_ne hne, other] at hi; exact nomatch hi
  | one front back eq =>
    by_cases hne : i = b.wp
    · rw [hne] at hi; rw [hi] at front; exact nomatch front
    · rw [eq_nextBuff_of_ne hne, eq]
  | full back k other eq =>
    by_cases hne : i = b.wp
    · rw [hne, eq]
    · rw [eq_nextBuff_of_ne hne, other] at hi; exact nomatch hi

end Ok

/-! ## The entries -/

section entries

variable {b : Book} (h : b.Ok)

theorem Ok.of_waiting_append {b' : Book} (h : b.Ok) (ring : b'.Ring) (kept : b'.kept = b.kept)
    (lost : b'.lost = b.lost) (next : b'.next = b.next + 1)
    (waiting : b'.waiting = b.waiting ++ [b.next]) : b'.Ok where
  ring := ring
  sorted := by
    rw [kept, waiting, ← List.append_assoc, List.pairwise_append]
    refine ⟨h.sorted, List.pairwise_singleton _ _, fun a ha c hc => ?_⟩
    rw [List.mem_singleton.1 hc]
    exact h.lt_next (List.mem_append_left _ ha)
  places := by
    rw [kept, waiting, lost, next, List.range_succ, ← List.append_assoc, List.append_assoc _ [_]]
    refine (List.perm_append_comm.append_left _).trans ?_
    rw [← List.append_assoc]
    exact h.places.append_right _

/-- An entry that moves one packet from the waiting ones to the lost ones. -/
theorem Ok.of_lost {b' : Book} (h : b.Ok) {l r : List Nat} {j : Nat} (ring : b'.Ring)
    (kept : b'.kept = b.kept) (lost : b'.lost = b.lost ++ [j]) (next : b'.next = b.next)
    (before : b.waiting = l ++ j :: r) (after : b'.waiting = l ++ r) : b'.Ok where
  ring := ring
  sorted := by
    refine h.sorted.sublist ?_
    rw [kept, before, after]
    exact List.Sublist.append_left (List.Sublist.append_left (List.sublist_cons_self _ _) _) _
  places := by
    rw [next, kept, lost, after]
    refine List.Perm.trans ?_ h.places
    rw [before]
    simp only [List.append_assoc, List.cons_append]
    refine (List.Perm.append_left _ (List.Perm.append_left _ ?_))
    rw [← List.append_assoc, ← List.singleton_append (l := r ++ b.lost)]
    exact List.perm_append_comm

theorem Ok.of_waiting_eq {b' : Book} (h : b.Ok) (ring : b'.Ring)
    (same : b'.kept ++ b'.waiting = b.kept ++ b.waiting) (lost : b'.lost = b.lost)
    (next : b'.next = b.next) : b'.Ok where
  ring := ring
  sorted := same ▸ h.sorted
  places := by rw [same, lost, next]; exact h.places

theorem empty_ok : empty.Ok where
  ring := .empty .free rfl rfl
  sorted := List.Pairwise.nil
  places := List.Perm.refl _

include h

theorem Ok.openSlot (hw : b.slot b.wp = .free) : b.openSlot.Ok := by
  refine h.of_waiting_append ?_ rfl rfl rfl ?_
  · cases h.ring with
    | empty _ other eq =>
      exact .empty (by simpa [Book.openSlot] using .filling _) (by simpa [Book.openSlot] using other) eq
    | one _ back eq =>
      exact .one (by simpa [Book.openSlot] using .filling _) (by simpa [Book.openSlot] using back) eq
    | full back _ _ _ => rw [hw] at back; exact nomatch back
  · cases h.ring with
    | empty _ other eq => simp [Book.waiting, Book.openSlot, eq, other, hw, SlotUse.waiting]
    | one _ _ eq => simp [Book.waiting, Book.openSlot, eq, hw, SlotUse.waiting]
    | full back _ _ _ => rw [hw] at back; exact nomatch back

theorem Ok.reject : b.reject.Ok := by
  unfold Book.reject
  split
  next j hj =>
    cases h.ring with
    | empty _ other eq =>
      refine h.of_lost (l := []) (r := []) (j := j) ?_ rfl rfl rfl ?_ ?_
      · exact .empty (by simpa using .free) (by simpa using other) eq
      · simp [Book.waiting, eq, other, hj, SlotUse.waiting]
      · simp [Book.waiting, eq, other, SlotUse.waiting]
    | one _ back eq =>
      refine h.of_lost (l := (b.slot (nextBuff b.wp)).waiting) (r := []) (j := j) ?_ rfl rfl rfl ?_ ?_
      · exact .one (by simpa using .free) (by simpa using back) eq
      · simp [Book.waiting, eq, hj, SlotUse.waiting]
      · simp [Book.waiting, eq, SlotUse.waiting]
    | full back _ _ _ => rw [hj] at back; exact nomatch back
  · exact h

theorem Ok.finish : b.finish.Ok := by
  unfold Book.finish
  split
  next j hj =>
    cases h.ring with
    | empty _ other eq =>
      refine h.of_waiting_eq ?_ ?_ rfl rfl
      · exact .one (by simpa [other] using .free) (by simpa using .full j) (by simpa using eq)
      · simp [Book.waiting, eq, hj, SlotUse.waiting]
    | one _ back eq =>
      refine h.of_waiting_eq ?_ ?_ rfl rfl
      · exact .full (by simpa using back) j (by simp) eq
      · simp [Book.waiting, eq, hj, SlotUse.waiting]
    | full back _ _ _ => rw [hj] at back; exact nomatch back
  · exact h

theorem Ok.take : b.take.Ok := by
  unfold Book.take
  split
  next j hj =>
    cases h.ring with
    | empty front _ eq => rw [← eq, hj] at front; exact nomatch front
    | one front _ eq =>
      refine h.of_waiting_eq ?_ ?_ rfl rfl
      · exact .one (by simpa [eq] using front) (by simpa [eq] using .reading j) eq
      · simp [Book.waiting, hj, SlotUse.waiting]
    | full _ k other eq =>
      refine h.of_waiting_eq ?_ ?_ rfl rfl
      · exact .full (by simpa [eq] using .reading j) k (by simpa [eq] using other) eq
      · simp [Book.waiting, hj, SlotUse.waiting]
  · exact h

theorem Ok.release : b.release.Ok := by
  unfold Book.release
  split
  next j hj =>
    cases h.ring with
    | empty front _ eq => rw [← eq, hj] at front; exact nomatch front
    | one front _ eq =>
      refine h.of_waiting_eq ?_ ?_ rfl rfl
      · exact .empty (by simpa [eq] using front) (by simp [eq]) (by simp [eq])
      · simp [Book.waiting, hj, SlotUse.waiting]
    | full _ k other eq =>
      refine h.of_waiting_eq ?_ ?_ rfl rfl
      · exact .one (by simpa [eq] using .free) (by simpa [eq, other] using .full k) (by simp [eq])
      · simp [Book.waiting, hj, SlotUse.waiting]
  · exact h

theorem Ok.discard : b.discard.Ok := by
  unfold Book.discard
  split
  next j hj =>
    refine h.of_lost (l := []) (r := (b.slot (nextBuff b.rp)).waiting) (j := j) ?_ rfl rfl rfl ?_ ?_
    · cases h.ring with
      | empty front _ eq => rw [← eq, hj] at front; exact nomatch front
      | one front _ eq =>
        exact .empty (by simpa [eq] using front) (by simp [eq]) (by simp [eq])
      | full _ k other eq =>
        exact .one (by simpa [eq] using .free) (by simpa [eq, other] using .full k) (by simp [eq])
    · simp [Book.waiting, hj, SlotUse.waiting]
    · simp [Book.waiting, SlotUse.waiting]
  · exact h

end entries

/-! ## The order of the slots -/

theorem val_nextBuff (i : Fin buffCount) : (nextBuff i).val = (i.val + 1) % buffCount := by
  revert i; decide

/-- Packet number `k` of those filled went to slot `k mod g_BUFF_COUNT`, the reader goes round in the
    same order, and what it has not yet handled is what the slots hold. -/
structure InOrder (b : Book) : Prop where
  held : b.filled = b.emptied ++ ((b.slot b.rp).held ++ (b.slot (nextBuff b.rp)).held)
  wp : b.wp.val = b.filled.length % buffCount
  rp : b.rp.val = b.emptied.length % buffCount

section order

variable {b : Book}

theorem length_concat_mod {l : List Nat} {i : Fin buffCount} (h : i.val = l.length % buffCount)
    (j : Nat) : (nextBuff i).val = (l ++ [j]).length % buffCount := by
  rw [val_nextBuff, h, List.length_append, List.length_singleton, Nat.mod_add_mod]

theorem InOrder.openSlot (o : b.InOrder) (hw : b.slot b.wp = .free) : b.openSlot.InOrder where
  held := by
    have same : ∀ k, (b.openSlot.slot k).held = (b.slot k).held := fun k => by
      by_cases hk : k = b.wp
      · subst hk; simp [Book.openSlot, hw, SlotUse.held]
      · simp [Book.openSlot, b.set_ne _ hk]
    show b.filled = b.emptied ++ ((b.openSlot.slot b.rp).held ++ (b.openSlot.slot (nextBuff b.rp)).held)
    rw [same, same]; exact o.held
  wp := o.wp
  rp := o.rp

theorem InOrder.reject (o : b.InOrder) : b.reject.InOrder := by
  unfold Book.reject
  split
  next j hj =>
    have same : ∀ k, (b.set b.wp .free k).held = (b.slot k).held := fun k => by
      by_cases hk : k = b.wp
      · subst hk; simp [hj, SlotUse.held]
      · rw [b.set_ne _ hk]
    exact ⟨by simp only [same]; exact o.held, o.wp, o.rp⟩
  · exact o

theorem InOrder.finish (o : b.InOrder) (h : b.Ok) : b.finish.InOrder := by
  unfold Book.finish
  split
  next j hj =>
    refine ⟨?_, length_concat_mod o.wp j, o.rp⟩
    have ho := o.held
    cases h.ring with
    | empty _ other eq =>
      rw [eq, hj, other] at ho
      simp [eq, other, ho, SlotUse.held]
    | one _ _ eq =>
      rw [eq, nextBuff_nextBuff, hj] at ho
      simp [eq, ho, SlotUse.held]
    | full back _ _ _ => rw [hj] at back; exact nomatch back
  · exact o

theorem InOrder.take (o : b.InOrder) : b.take.InOrder := by
  unfold Book.take
  split
  next j hj =>
    refine ⟨?_, o.wp, o.rp⟩
    have ho := o.held
    rw [hj] at ho
    simpa [SlotUse.held] using ho
  · exact o

theorem InOrder.release (o : b.InOrder) : b.release.InOrder := by
  unfold Book.release
  split
  next j hj =>
    refine ⟨?_, o.wp, length_concat_mod o.rp j⟩
    have ho := o.held
    rw [hj] at ho
    simpa [SlotUse.held] using ho
  · exact o

theorem InOrder.discard (o : b.InOrder) : b.discard.InOrder := by
  unfold Book.discard
  split
  next j hj =>
    refine ⟨?_, o.wp, length_concat_mod o.rp j⟩
    have ho := o.held
    rw [hj] at ho
    simpa [SlotUse.held] using ho
  · exact o

end order

end Book

end Tx
