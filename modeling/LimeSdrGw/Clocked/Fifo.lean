/-!
# The ideal FIFO

Words leave in the order they came, a write to a full FIFO and a read of an empty one do nothing,
`q` shows the word read in the clock before, and an asynchronous clear empties the FIFO in the very
clock it is asserted. One write may push several words: that is how a FIFO whose read port is
narrower than its write port behaves.
-/

namespace Clocked

structure Fifo (α : Type) where
  items : List α
  q : α
deriving Repr, DecidableEq

namespace Fifo

variable {α : Type}

/-- An empty FIFO showing `q`. -/
def empty (q : α) : Fifo α := ⟨[], q⟩

/-- What the status flags see: nothing while the clear is asserted. -/
def visible (f : Fifo α) (aclr : Bool) : List α := if aclr then [] else f.items

/-- The words a read takes from `l`. -/
def popped (rdreq : Bool) (l : List α) : List α := if rdreq then l.tail else l

/-- The words a write adds when `l` is stored. -/
def pushed (cap : Nat) (wrreq : Bool) (data l : List α) : List α :=
  if wrreq && l.length + data.length ≤ cap then data else []

/-- One clock of a FIFO of `cap` words. -/
def step (cap : Nat) (aclr wrreq : Bool) (data : List α) (rdreq : Bool) (f : Fifo α) : Fifo α :=
  if aclr then ⟨[], f.q⟩
  else
    { items := popped rdreq f.items ++ pushed cap wrreq data f.items
      q := if rdreq then f.items.head?.getD f.q else f.q }

@[simp] theorem visible_true (f : Fifo α) : f.visible true = [] := rfl
@[simp] theorem visible_false (f : Fifo α) : f.visible false = f.items := rfl

@[simp] theorem step_aclr (cap : Nat) (w r : Bool) (d : List α) (f : Fifo α) :
    f.step cap true w d r = ⟨[], f.q⟩ := rfl

@[simp] theorem step_items (cap : Nat) (w r : Bool) (d : List α) (f : Fifo α) :
    (f.step cap false w d r).items = popped r f.items ++ pushed cap w d f.items := rfl

@[simp] theorem step_q (cap : Nat) (w r : Bool) (d : List α) (f : Fifo α) :
    (f.step cap false w d r).q = if r then f.items.head?.getD f.q else f.q := rfl

@[simp] theorem popped_false (l : List α) : popped false l = l := rfl
@[simp] theorem popped_true (l : List α) : popped true l = l.tail := rfl

@[simp] theorem pushed_false (cap : Nat) (d l : List α) : pushed cap false d l = [] := rfl

/-- A write with room for it is not lost. -/
theorem pushed_true {cap : Nat} {d l : List α} (h : l.length + d.length ≤ cap) :
    pushed cap true d l = d := by
  simp [pushed, h]

/-- However it is driven, the FIFO never holds more than its capacity. -/
theorem length_step_le {cap : Nat} {c w r : Bool} {d : List α} {f : Fifo α}
    (h : f.items.length ≤ cap) : (f.step cap c w d r).items.length ≤ cap := by
  unfold step
  split
  · simp
  · have hp : (popped r f.items).length ≤ f.items.length := by
      unfold popped; split <;> simp
    simp only [List.length_append]
    unfold pushed
    split
    · rename_i hw
      simp only [Bool.and_eq_true, decide_eq_true_eq] at hw
      omega
    · simp only [List.length_nil]; omega

end Fifo

end Clocked
