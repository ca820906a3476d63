/-!
# Endless repetition

A list repeats a block when it is a piece of the endless repetition of it, from the block's first item
on. What is made of every item alike, item by item, repeats what is made of the block.
-/

namespace Clocked

variable {α β : Type}

def Repeats (block l : List α) : Prop := ∀ k, k < l.length → l[k]? = block[k % block.length]?

namespace Repeats

variable {block l l' : List α}

theorem of_prefix (h : Repeats block l) (hp : l' <+: l) : Repeats block l' := by
  obtain ⟨r, rfl⟩ := hp
  intro k hk
  rw [← h k (by rw [List.length_append]; omega), List.getElem?_append_left hk]

theorem map (f : α → β) (h : Repeats block l) : Repeats (block.map f) (l.map f) := by
  intro k hk
  rw [List.length_map] at hk
  rw [List.getElem?_map, List.getElem?_map, List.length_map, h k hk]

/-- An item of a list made of pieces that are all of one length. -/
theorem getElem?_flatMap {f : α → List β} {c : Nat} (hc : 0 < c) (hf : ∀ a, (f a).length = c)
    (l : List α) (k : Nat) : (l.flatMap f)[k]? = (l[k / c]?).bind fun a => (f a)[k % c]? := by
  induction l generalizing k with
  | nil => rfl
  | cons a l ih =>
    rw [List.flatMap_cons]
    by_cases hk : k < c
    · rw [List.getElem?_append_left (by rw [hf]; exact hk), Nat.div_eq_of_lt hk, Nat.mod_eq_of_lt hk]
      rfl
    · obtain ⟨j, rfl⟩ : ∃ j, k = j + c := ⟨k - c, by omega⟩
      rw [List.getElem?_append_right (by rw [hf]; omega), hf, Nat.add_sub_cancel, ih,
        Nat.add_div_right j hc, Nat.add_mod_right]
      rfl

theorem length_flatMap {f : α → List β} {c : Nat} {l : List α} (hf : ∀ a ∈ l, (f a).length = c) :
    (l.flatMap f).length = c * l.length := by
  induction l with
  | nil => rfl
  | cons a l ih =>
    rw [List.flatMap_cons, List.length_append, hf a List.mem_cons_self,
      ih fun b hb => hf b (List.mem_cons_of_mem a hb), List.length_cons, Nat.mul_succ, Nat.add_comm]

/-- A piece of such a list. -/
theorem take_drop_flatMap {f : α → List β} {c : Nat} {l : List α} (hf : ∀ a ∈ l, (f a).length = c)
    {j : Nat} (hj : j < l.length) : ((l.flatMap f).drop (c * j)).take c = f l[j] := by
  induction l generalizing j with
  | nil => exact absurd hj (Nat.not_lt_zero j)
  | cons a l ih =>
    have ha := hf a List.mem_cons_self
    rw [List.flatMap_cons]
    cases j with
    | zero => exact List.take_left' ha
    | succ j =>
      rw [Nat.mul_succ, Nat.add_comm, ← List.drop_drop, List.drop_left' ha, List.getElem_cons_succ]
      exact ih (fun b hb => hf b (List.mem_cons_of_mem a hb)) (Nat.lt_of_succ_lt_succ hj)

/-- What is made of the pieces one after the other of a list. -/
theorem flatMap_pieces {f : α → List β} {c : Nat} {l : List α} {m : List β}
    (h : ∀ j (hj : j < l.length), f l[j] = (m.drop (c * j)).take c) :
    l.flatMap f = m.take (c * l.length) := by
  induction l generalizing m with
  | nil => rw [List.length_nil, Nat.mul_zero, List.take_zero, List.flatMap_nil]
  | cons a l ih =>
    have ha : f a = m.take c := h 0 (Nat.succ_pos _)
    have hl : ∀ j (hj : j < l.length), f l[j] = ((m.drop c).drop (c * j)).take c := by
      intro j hj
      have hnext := h (j + 1) (Nat.succ_lt_succ hj)
      rwa [Nat.mul_succ, Nat.add_comm (c * j), ← List.drop_drop, List.getElem_cons_succ] at hnext
    rw [List.flatMap_cons, ha, ih hl, List.length_cons, Nat.mul_succ, Nat.add_comm (c * l.length),
      List.take_add]

theorem flatMap {f : α → List β} {c : Nat} (hc : 0 < c) (hf : ∀ a, (f a).length = c)
    (h : Repeats block l) : Repeats (block.flatMap f) (l.flatMap f) := by
  intro k hk
  rw [length_flatMap fun a _ => hf a] at hk
  have hdiv : k / c < l.length := (Nat.div_lt_iff_lt_mul hc).2 (by rw [Nat.mul_comm]; exact hk)
  rw [getElem?_flatMap hc hf, getElem?_flatMap hc hf, length_flatMap fun a _ => hf a, h _ hdiv,
    Nat.mod_mul_right_mod, Nat.mod_mul_right_div_self]

end Repeats

end Clocked
