/-!
# Cutting a stream of words into packets

The first word of every packet tells how many words the packet has. Where the packets begin follows
from the stream alone, whoever reads it and however fast.
-/

namespace Clocked

section

variable {α β : Type}

/-- The first `n` words of a stream. -/
def firstWords (ws : Nat → α) (n : Nat) : List α := (List.range n).map ws

@[simp] theorem firstWords_zero (ws : Nat → α) : firstWords ws 0 = [] := rfl

theorem firstWords_succ (ws : Nat → α) (n : Nat) :
    firstWords ws (n + 1) = firstWords ws n ++ [ws n] := by
  rw [firstWords, List.range_succ, List.map_append]
  rfl

@[simp] theorem length_firstWords (ws : Nat → α) (n : Nat) : (firstWords ws n).length = n := by
  rw [firstWords, List.length_map, List.length_range]

theorem eq_firstWords_of_prefix {ws : Nat → α} {l : List α} {n : Nat} (h : l <+: firstWords ws n) :
    l = firstWords ws l.length := by
  have hle := h.length_le
  rw [length_firstWords] at hle
  have htake := List.prefix_iff_eq_take.1 h
  rwa [firstWords, ← List.map_take, List.take_range, Nat.min_eq_left hle] at htake

/-- A piece of a stream. -/
theorem take_drop_firstWords (ws : Nat → α) {n a m : Nat} (h : a + m ≤ n) :
    ((firstWords ws n).drop a).take m = (List.range m).map fun k => ws (a + k) := by
  apply List.ext_getElem
  · rw [List.length_take, List.length_drop, length_firstWords, List.length_map, List.length_range]
    omega
  · intro k hk hk'
    rw [List.getElem_take, List.getElem_drop, List.getElem_map, List.getElem_range]
    simp [firstWords]

/-- A list that only grows at its end is the beginning of one stream. -/
theorem exists_stream {l : Nat → List α} (d : α) (h : ∀ n k, n ≤ k → l n <+: l k) :
    ∃ ws : Nat → α, ∀ n, l n = firstWords ws (l n).length := by
  classical
  have hsame : ∀ {n k j : Nat}, j < (l n).length → j < (l k).length → (l n)[j]? = (l k)[j]? := by
    intro n k j hn hk
    rcases Nat.le_total n k with hle | hle
    · obtain ⟨t, ht⟩ := h n k hle
      rw [← ht, List.getElem?_append_left hn]
    · obtain ⟨t, ht⟩ := h k n hle
      rw [← ht, List.getElem?_append_left hk]
  refine ⟨fun j => if hj : ∃ n, j < (l n).length then (l hj.choose)[j]?.getD d else d, ?_⟩
  intro n
  apply List.ext_getElem?
  intro j
  by_cases hlt : j < (l n).length
  · have hj : ∃ n, j < (l n).length := ⟨n, hlt⟩
    rw [firstWords, List.getElem?_map, List.getElem?_range hlt, Option.map_some, dif_pos hj,
      hsame hj.choose_spec hlt, List.getElem?_eq_getElem hlt]
    rfl
  · have hle := Nat.le_of_not_lt hlt
    rw [firstWords, List.getElem?_eq_none hle,
      List.getElem?_eq_none (by rw [List.length_map, List.length_range]; exact hle)]

/-- The words from `a` on, up to but not including word `b`. -/
def slice (ws : Nat → α) (a b : Nat) : List α := (List.range' a (b - a)).map ws

theorem slice_of_le (ws : Nat → α) {a b : Nat} (h : b ≤ a) : slice ws a b = [] := by
  rw [slice, Nat.sub_eq_zero_of_le h]
  rfl

theorem slice_succ (ws : Nat → α) {a b : Nat} (h : a ≤ b) :
    slice ws a (b + 1) = slice ws a b ++ [ws b] := by
  rw [slice, Nat.succ_sub h, List.range'_concat, List.map_append, Nat.one_mul,
    Nat.add_sub_cancel' h]
  rfl

theorem slice_append (ws : Nat → α) {a b c : Nat} (hab : a ≤ b) (hbc : b ≤ c) :
    slice ws a b ++ slice ws b c = slice ws a c := by
  induction hbc with
  | refl => rw [slice_of_le ws (Nat.le_refl b), List.append_nil]
  | @step c hbc ih =>
    have hbc' : b ≤ c := hbc
    rw [slice_succ ws hbc', slice_succ ws (Nat.le_trans hab hbc'), ← List.append_assoc, ih]

/-- The slice with the words before it left out. -/
theorem flatten_slice (ws : Nat → List α) (a b : Nat) :
    (slice ws a b).flatten = (slice ws 0 b).flatten.drop (slice ws 0 a).flatten.length := by
  rcases Nat.le_total a b with h | h
  · rw [← slice_append ws (Nat.zero_le a) h, List.flatten_append, List.drop_left]
  · rw [slice_of_le ws h, ← slice_append ws (Nat.zero_le b) h, List.flatten_append,
      List.drop_eq_nil_of_le (by rw [List.length_append]; exact Nat.le_add_right _ _)]
    rfl

theorem length_slice_le {ws : Nat → List α} {c : Nat} (h : ∀ k, (ws k).length ≤ c) (n : Nat) :
    (slice ws 0 n).flatten.length ≤ c * n := by
  induction n with
  | zero => exact Nat.zero_le _
  | succ n ih =>
    rw [slice_succ ws (Nat.zero_le n), List.flatten_append, List.flatten_singleton, List.length_append,
      Nat.mul_succ]
    exact Nat.add_le_add ih (h n)

/-- The first word of packet `k`, when the first word `w` of a packet stands for `len w` words. -/
def cut (len : α → Nat) (ws : Nat → α) : Nat → Nat
  | 0 => 0
  | k + 1 => cut len ws k + len (ws (cut len ws k))

/-- The first words of the packets. -/
def heads (len : α → Nat) (ws : Nat → α) (k : Nat) : α := ws (cut len ws k)

@[simp] theorem cut_zero (len : α → Nat) (ws : Nat → α) : cut len ws 0 = 0 := rfl

theorem cut_succ (len : α → Nat) (ws : Nat → α) (k : Nat) :
    cut len ws (k + 1) = cut len ws k + len (heads len ws k) := rfl

/-- What is left of the first `k` packets without the `hdr` words at the beginning of each. -/
def bodies (hdr : Nat) (len : α → Nat) (ws : Nat → α) (k : Nat) : List α :=
  (List.range k).flatMap fun j => slice ws (cut len ws j + hdr) (cut len ws (j + 1))

@[simp] theorem bodies_zero (hdr : Nat) (len : α → Nat) (ws : Nat → α) :
    bodies hdr len ws 0 = [] := rfl

theorem bodies_succ (hdr : Nat) (len : α → Nat) (ws : Nat → α) (k : Nat) :
    bodies hdr len ws (k + 1) =
      bodies hdr len ws k ++ slice ws (cut len ws k + hdr) (cut len ws (k + 1)) := by
  rw [bodies, List.range_succ, List.flatMap_append, List.flatMap_singleton]
  rfl

/-- Two readers with words of different width cut one stream at the same places exactly when they
    read the same length off every packet's first word. -/
theorem cut_scale {len : α → Nat} {ws : Nat → α} {len' : β → Nat} {ws' : Nat → β} {r : Nat} :
    (∀ k, cut len' ws' k = r * cut len ws k) ↔
      ∀ k, len' (ws' (r * cut len ws k)) = r * len (heads len ws k) := by
  constructor
  · intro h k
    have hk := h (k + 1)
    rw [cut_succ, cut_succ, h k, Nat.mul_add, heads, h k] at hk
    exact Nat.add_left_cancel hk
  · intro h k
    induction k with
    | zero => rw [cut_zero, cut_zero, Nat.mul_zero]
    | succ k ih => rw [cut_succ, cut_succ, heads, ih, h k, Nat.mul_add]

end

end Clocked
