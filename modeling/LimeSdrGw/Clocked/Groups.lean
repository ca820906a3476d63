/-!
# Collecting a stream into groups

Items come in one by one or several at a time; `k` of them make a group. A group that is interrupted
can be dropped.
-/

namespace Clocked

structure Groups (α : Type) where
  /-- The group that is under way. -/
  cur : List α
  /-- The groups that are complete, oldest first. -/
  done : List (List α)

namespace Groups

variable {α : Type}

def empty : Groups α := ⟨[], []⟩

/-- `a` comes in. -/
def put (k : Nat) (a : List α) (g : Groups α) : Groups α :=
  if (g.cur ++ a).length = k then ⟨[], g.done ++ [g.cur ++ a]⟩ else ⟨g.cur ++ a, g.done⟩

/-- The group that is under way will not be completed. -/
def drop (g : Groups α) : Groups α := ⟨[], g.done⟩

theorem put_done {k : Nat} {a : List α} {g : Groups α} (h : g.cur.length + a.length = k) :
    g.put k a = ⟨[], g.done ++ [g.cur ++ a]⟩ := by
  rw [put, if_pos (by rw [List.length_append, h])]

theorem put_cur {k : Nat} {a : List α} {g : Groups α} (h : g.cur.length + a.length ≠ k) :
    g.put k a = ⟨g.cur ++ a, g.done⟩ := by
  rw [put, if_neg (by rw [List.length_append]; exact h)]

/-- All items, in groups or not. -/
def all (g : Groups α) : List α := g.done.flatten ++ g.cur

theorem all_put (k : Nat) (a : List α) (g : Groups α) : (g.put k a).all = g.all ++ a := by
  unfold put all
  split
  · simp
  · simp

end Groups

section

variable {α : Type}

/-! ### Groups of one size -/

theorem length_flatten {m : Nat} {l : List (List α)} (h : ∀ b ∈ l, b.length = m) :
    l.flatten.length = m * l.length := by
  induction l with
  | nil => rfl
  | cons b l ih =>
    rw [List.flatten_cons, List.length_append, h b List.mem_cons_self,
      ih fun c hc => h c (List.mem_cons_of_mem b hc), List.length_cons, Nat.mul_succ, Nat.add_comm]

theorem flatten_take {m : Nat} {l : List (List α)} (h : ∀ b ∈ l, b.length = m) (a : Nat) :
    (l.take a).flatten = l.flatten.take (m * a) := by
  induction l generalizing a with
  | nil => simp
  | cons b l ih =>
    cases a with
    | zero => rw [Nat.mul_zero, List.take_zero, List.take_zero, List.flatten_nil]
    | succ a =>
      have hb := h b List.mem_cons_self
      rw [List.take_succ_cons, List.flatten_cons, List.flatten_cons,
        ih (fun c hc => h c (List.mem_cons_of_mem b hc)) a, Nat.mul_succ, Nat.add_comm (m * a), ← hb,
        List.take_length_add_append]

theorem flatten_drop {m : Nat} {l : List (List α)} (h : ∀ b ∈ l, b.length = m) (a : Nat) :
    (l.drop a).flatten = l.flatten.drop (m * a) := by
  have hsplit := congrArg List.flatten (List.take_append_drop a l)
  rw [List.flatten_append, flatten_take h] at hsplit
  exact List.append_cancel_left (hsplit.trans (List.take_append_drop (m * a) l.flatten).symm)

end

end Clocked
