/-!
# Synchronous machines

One state, one input in every clock. An input stream `x : Nat → ι` fixes the whole run, so a
property "for every input pattern" is a theorem about every `x`, and the clock number is at hand
when a statement compares a signal with the value another one had some clocks earlier.
-/

namespace Clocked

structure Machine (σ ι : Type) where
  init : σ
  step : σ → ι → σ

namespace Machine

variable {σ ι β : Type} (m : Machine σ ι)

/-- The state in clock `n`, after the inputs of the clocks before it. -/
def state (x : Nat → ι) : Nat → σ
  | 0 => m.init
  | n + 1 => m.step (state x n) (x n)

@[simp] theorem state_zero (x : Nat → ι) : m.state x 0 = m.init := rfl

theorem state_succ (x : Nat → ι) (n : Nat) : m.state x (n + 1) = m.step (m.state x n) (x n) := rfl

/-- An observer beside the run: `c` at the start, moved on by `f` in every clock. -/
def track {γ : Type} (f : γ → σ → ι → γ) (c : γ) (x : Nat → ι) : Nat → γ
  | 0 => c
  | n + 1 => f (track f c x n) (m.state x n) (x n)

/-- Everything `out` produces in the clocks before `n`, oldest first. -/
def log (out : σ → ι → List β) (x : Nat → ι) : Nat → List β :=
  m.track (fun l s i => l ++ out s i) [] x

@[simp] theorem log_zero (out : σ → ι → List β) (x : Nat → ι) : m.log out x 0 = [] := rfl

theorem log_succ (out : σ → ι → List β) (x : Nat → ι) (n : Nat) :
    m.log out x (n + 1) = m.log out x n ++ out (m.state x n) (x n) := rfl

/-- A log only ever grows at its end. -/
theorem log_grows (out : σ → ι → List β) (x : Nat → ι) {n k : Nat} (h : n ≤ k) :
    m.log out x n <+: m.log out x k := by
  induction k with
  | zero =>
    obtain rfl := Nat.le_zero.1 h
    exact List.prefix_rfl
  | succ k ih =>
    by_cases hk : n = k + 1
    · subst hk
      exact List.prefix_rfl
    · exact (ih (by omega)).trans (List.prefix_append _ _)

/-- The same machine, begun in the state `s`. -/
def startAt (s : σ) : Machine σ ι := ⟨s, m.step⟩

/-- From clock `t` on a run is a run of its own. -/
theorem state_add (x : Nat → ι) (t a : Nat) :
    m.state x (t + a) = (m.startAt (m.state x t)).state (fun k => x (t + k)) a := by
  induction a with
  | zero => rfl
  | succ a ih => rw [← Nat.add_assoc, state_succ, ih, state_succ]; rfl

theorem log_add (out : σ → ι → List β) (x : Nat → ι) (t a : Nat) : m.log out x (t + a) =
    m.log out x t ++ (m.startAt (m.state x t)).log out (fun k => x (t + k)) a := by
  induction a with
  | zero => rw [Nat.add_zero, log_zero, List.append_nil]
  | succ a ih => rw [← Nat.add_assoc, log_succ, ih, log_succ, state_add, List.append_assoc]

/-- A part of a machine that is a machine itself, with the input `g` makes for it. -/
theorem state_part {τ κ : Type} (part : σ → τ) (p : τ → κ → τ) (g : σ → ι → κ)
    (h : ∀ s i, part (m.step s i) = p (part s) (g s i)) (x : Nat → ι) (n : Nat) :
    part (m.state x n) =
      (Machine.mk (part m.init) p).state (fun k => g (m.state x k) (x k)) n := by
  induction n with
  | zero => rfl
  | succ n ih => rw [state_succ, h, ih, state_succ]

/-- The machine, with a check that has not failed so far. -/
def watched (p : σ → ι → Bool) : Machine (σ × Bool) ι :=
  ⟨(m.init, true), fun s i => (m.step s.1 i, s.2 && p s.1 i)⟩

theorem watched_state (p : σ → ι → Bool) (x : Nat → ι) (n : Nat) :
    ((m.watched p).state x n).1 = m.state x n ∧ (((m.watched p).state x n).2 = true →
      ∀ k, k < n → p (m.state x k) (x k) = true) := by
  induction n with
  | zero => exact ⟨rfl, fun _ k hk => absurd hk (Nat.not_lt_zero k)⟩
  | succ n ih =>
    obtain ⟨h1, h2⟩ := ih
    have hstate : (m.watched p).state x (n + 1) =
        (m.step (m.state x n) (x n), ((m.watched p).state x n).2 && p (m.state x n) (x n)) := by
      rw [← h1]
      rfl
    rw [hstate]
    refine ⟨rfl, ?_⟩
    intro h k hk
    obtain ⟨hb, hp⟩ := Bool.and_eq_true_iff.1 h
    obtain hlt | rfl : k < n ∨ k = n := by omega
    · exact h2 hb k hlt
    · exact hp

variable {m}

/-- A property of the state and of the clock that holds at the start and passes from one clock to
    the next holds in every clock. -/
theorem invariant {x : Nat → ι} {P : Nat → σ → Prop} (h0 : P 0 m.init)
    (hs : ∀ n, P n (m.state x n) → P (n + 1) (m.step (m.state x n) (x n))) (n : Nat) :
    P n (m.state x n) := by
  induction n with
  | zero => exact h0
  | succ n ih => exact hs n ih

/-- The same for a property that also speaks about an observer. -/
theorem invariant_track {γ : Type} {f : γ → σ → ι → γ} {c : γ} {x : Nat → ι} {P : γ → σ → Prop}
    (h0 : P c m.init) (hs : ∀ g s i, P g s → P (f g s i) (m.step s i)) (n : Nat) :
    P (m.track f c x n) (m.state x n) := by
  induction n with
  | zero => exact h0
  | succ n ih => exact hs _ _ _ ih

end Machine

end Clocked
