/-!
# The margin of an almost-full flag

A request is admitted while the fill level one clock earlier was at most `limit`, and what it brings
is written `d` clocks later. The level never gets higher than `limit + d + 2`: the request itself,
one write that the flag did not see and the `d` requests still on their way.
-/

namespace Clocked

/-- The number of requests in the last `d` clocks before clock `n`. -/
def inFlight (r : Nat → Bool) : Nat → Nat → Nat
  | 0, _ => 0
  | _ + 1, 0 => 0
  | d + 1, n + 1 => (r n).toNat + inFlight r d n

section inFlight

variable {r : Nat → Bool}

theorem inFlight_le (d n : Nat) : inFlight r d n ≤ d := by
  induction d generalizing n with
  | zero => exact Nat.le_refl 0
  | succ d ih =>
    cases n with
    | zero => exact Nat.zero_le _
    | succ n =>
      have := Bool.toNat_le (r n)
      have := ih n
      rw [inFlight]
      omega

/-- The oldest request that is counted, apart from the others. -/
theorem inFlight_oldest (d n : Nat) : inFlight r (d + 1) (n + d + 1) =
    inFlight r d (n + d + 1) + (r n).toNat := by
  induction d with
  | zero => simp [inFlight]
  | succ d ih =>
    have h : inFlight r (d + 2) (n + (d + 1) + 1) =
      (r (n + d + 1)).toNat + inFlight r (d + 1) (n + d + 1) := rfl
    have h' : inFlight r (d + 1) (n + (d + 1) + 1) =
      (r (n + d + 1)).toNat + inFlight r d (n + d + 1) := rfl
    rw [h, h', ih]
    omega

/-- Counting one clock further back never gives less. -/
theorem inFlight_succ_le (d n : Nat) : inFlight r d n ≤ inFlight r (d + 1) n := by
  induction d generalizing n with
  | zero => exact Nat.zero_le _
  | succ d ih =>
    cases n with
    | zero => exact Nat.zero_le _
    | succ n => exact Nat.add_le_add_left (ih n) _

end inFlight

/-- A store whose requests `r` are gated by its own almost-full flag: `w` are its writes, `level` its
    fill level, `d` the clocks from a request to the write. -/
structure Gated (level : Nat → Nat) (r w : Nat → Bool) (d limit : Nat) : Prop where
  start : level 0 = 0
  grows : ∀ n, level (n + 1) ≤ level n + (w n).toNat
  arrives : ∀ n, w n = true → ∃ m, n = m + d ∧ r m = true
  gate : ∀ n, r n = true → ∃ m, n = m + 1 ∧ level m ≤ limit

namespace Gated

variable {level : Nat → Nat} {r w : Nat → Bool} {d limit : Nat} (h : Gated level r w d limit)
include h

/-- What is written now was among the requests on their way. -/
theorem written_le (n : Nat) :
    (w n).toNat + inFlight r d (n + 1) ≤ inFlight r (d + 1) (n + 1) := by
  cases hw : w n
  · rw [Bool.toNat_false, Nat.zero_add]
    exact inFlight_succ_le d (n + 1)
  · obtain ⟨m, rfl, hr⟩ := h.arrives n hw
    exact Nat.le_of_eq (by rw [inFlight_oldest, hr, Nat.add_comm])

/-- With everything on its way the level stays within the margin. -/
theorem level_le (n : Nat) : level n + inFlight r d n ≤ limit + d + 2 := by
  induction n with
  | zero =>
    have := inFlight_le (r := r) d 0
    rw [h.start]; omega
  | succ n ih =>
    have hl := h.grows n
    have hw := h.written_le n
    have hd := inFlight_le (r := r) d (n + 1)
    rw [show inFlight r (d + 1) (n + 1) = (r n).toNat + inFlight r d n from rfl] at hw
    cases hr : r n
    · rw [hr, Bool.toNat_false] at hw
      omega
    · -- the flag that let the request through saw the level one clock earlier
      obtain ⟨m, rfl, hm⟩ := h.gate n hr
      have := h.grows m
      have := Bool.toNat_le (w m)
      have := Bool.toNat_le (w (m + 1))
      omega

/-- When a word is written, it is itself one of those that the margin counts. -/
theorem level_lt_of_write (hd : 0 < d) {n : Nat} (hw : w n = true) : level n + 1 ≤ limit + d + 2 := by
  have hle := h.level_le n
  obtain ⟨m, hm, hr⟩ := h.arrives n hw
  obtain ⟨e, rfl⟩ : ∃ e, d = e + 1 := ⟨d - 1, by omega⟩
  obtain rfl : n = m + e + 1 := hm
  rw [inFlight_oldest, hr, Bool.toNat_true] at hle
  omega

end Gated

end Clocked
