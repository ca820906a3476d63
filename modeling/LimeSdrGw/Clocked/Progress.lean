/-!
# Progress

`LeadsTo P Q`: whenever `P` holds, `Q` holds then or later. A proof goes by a variant that keeps
falling, by an input that keeps coming, or by another quantity that is known to change.
-/

namespace Clocked

/-- From every clock in which `P` holds a clock in which `Q` holds is reached. -/
def LeadsTo (P Q : Nat → Prop) : Prop := ∀ n, P n → ∃ m, n ≤ m ∧ Q m

namespace LeadsTo

variable {P Q R : Nat → Prop}

theorem of_imp (h : ∀ n, P n → Q n) : LeadsTo P Q := fun n hp => ⟨n, Nat.le_refl n, h n hp⟩

theorem trans (h : LeadsTo P Q) (h' : LeadsTo Q R) : LeadsTo P R := by
  intro n hp
  obtain ⟨m, hm, hq⟩ := h n hp
  obtain ⟨k, hk, hr⟩ := h' m hq
  exact ⟨k, Nat.le_trans hm hk, hr⟩

/-- What leads to `R` from either of two may be used for both. -/
theorem or (h : LeadsTo P R) (h' : LeadsTo Q R) : LeadsTo (fun n => P n ∨ Q n) R := by
  rintro n (hp | hq)
  · exact h n hp
  · exact h' n hq

/-- As long as `Q` is not reached, `P` comes back with a smaller variant. -/
theorem variant (μ : Nat → Nat)
    (h : ∀ n, P n → ∃ m, n ≤ m ∧ (Q m ∨ P m ∧ μ m < μ n)) : LeadsTo P Q := by
  have key : ∀ v n, μ n ≤ v → P n → ∃ m, n ≤ m ∧ Q m := by
    intro v
    induction v with
    | zero =>
      intro n hv hp
      obtain ⟨m, hm, hq | ⟨-, hlt⟩⟩ := h n hp
      · exact ⟨m, hm, hq⟩
      · omega
    | succ v ih =>
      intro n hv hp
      obtain ⟨m, hm, hq | ⟨hp', hlt⟩⟩ := h n hp
      · exact ⟨m, hm, hq⟩
      · obtain ⟨k, hk, hq⟩ := ih m (by omega) hp'
        exact ⟨k, Nat.le_trans hm hk, hq⟩
  exact fun n hp => key (μ n) n (Nat.le_refl _) hp

/-- `P` lasts at least until `Q`, or up to any later clock one looks at. -/
theorem lasts (stay : ∀ n, P n → P (n + 1) ∨ Q (n + 1)) {n : Nat} (hp : P n) (c : Nat) :
    P (n + c) ∨ ∃ m, n ≤ m ∧ m ≤ n + c ∧ Q m := by
  induction c with
  | zero => exact .inl hp
  | succ c ih =>
    rcases ih with h | ⟨m, hm, hm', hq⟩
    · rcases stay _ h with h' | h'
      · exact .inl h'
      · exact .inr ⟨n + c + 1, by omega, Nat.le_refl _, h'⟩
    · exact .inr ⟨m, hm, by omega, hq⟩

/-- `P` lasts until an input that is known to come ends it. -/
theorem ends {H : Nat → Prop} (stay : ∀ n, P n → P (n + 1) ∨ Q (n + 1))
    (go : ∀ n, P n → H n → ∃ m, n ≤ m ∧ Q m) {n k : Nat} (hp : P n) (hk : n ≤ k) (hh : H k) :
    ∃ m, n ≤ m ∧ Q m := by
  rcases lasts stay hp (k - n) with h | ⟨m, hm, -, hq⟩
  · rw [show n + (k - n) = k by omega] at h
    obtain ⟨m, hm, hq⟩ := go k h hh
    exact ⟨m, Nat.le_trans hk hm, hq⟩
  · exact ⟨m, hm, hq⟩

/-- `P` lasts until an input that keeps coming ends it. -/
theorem wait {H : Nat → Prop} (stay : ∀ n, P n → P (n + 1) ∨ Q (n + 1))
    (go : ∀ n, P n → H n → ∃ m, n ≤ m ∧ Q m) (fair : ∀ n, ∃ k, n ≤ k ∧ H k) : LeadsTo P Q := by
  intro n hp
  obtain ⟨k, hk, hh⟩ := fair n
  exact ends stay go hp hk hh

/-- `P` keeps `μ` as it is until `Q`; so if `μ` is known to change, `Q` is reached. -/
theorem of_change (μ : Nat → Nat)
    (stay : ∀ n, P n → (P (n + 1) ∧ μ (n + 1) = μ n) ∨ Q (n + 1))
    (change : ∀ n, P n → ∃ m, n ≤ m ∧ μ m ≠ μ n) : LeadsTo P Q := by
  intro n hp
  obtain ⟨m, hm, hne⟩ := change n hp
  have hstay : ∀ k, P k ∧ μ k = μ n → (P (k + 1) ∧ μ (k + 1) = μ n) ∨ Q (k + 1) :=
    fun k hk => (stay k hk.1).imp (fun h => ⟨h.1, h.2.trans hk.2⟩) id
  rcases lasts (P := fun k => P k ∧ μ k = μ n) hstay ⟨hp, rfl⟩ (m - n) with h | ⟨k, hk, -, hq⟩
  · rw [show n + (m - n) = m by omega] at h
    exact absurd h.2 hne
  · exact ⟨k, hk, hq⟩

/-- What only grows, and not above a bound, is at rest in the end. -/
theorem rest {μ : Nat → Nat} {b : Nat} (grows : ∀ n k, n ≤ k → μ n ≤ μ k) (bound : ∀ n, μ n ≤ b) :
    ∃ n, ∀ k, n ≤ k → μ k = μ n := by
  have hrest : LeadsTo (fun _ => True) fun n => ∀ k, n ≤ k → μ k = μ n := by
    refine variant (fun n => b - μ n) ?_
    intro n _
    by_cases hstay : ∀ k, n ≤ k → μ k = μ n
    · exact ⟨n, Nat.le_refl n, .inl hstay⟩
    · simp only [Classical.not_forall] at hstay
      obtain ⟨k, hk, hne⟩ := hstay
      have hlt : μ n < μ k := Nat.lt_of_le_of_ne (grows n k hk) (Ne.symm hne)
      have hb := bound k
      exact ⟨k, hk, .inr ⟨trivial, by omega⟩⟩
  obtain ⟨n, -, hn⟩ := hrest 0 trivial
  exact ⟨n, hn⟩

end LeadsTo

/-- A clock of a kind is reached for a first time. -/
theorem first_reached {p : Nat → Prop} [DecidablePred p] {n : Nat} (h : p n) :
    ∃ d, d ≤ n ∧ p d ∧ ∀ k, k < d → ¬ p k := by
  induction n using Nat.strongRecOn with
  | ind n ih =>
    by_cases hex : ∃ k, k < n ∧ p k
    · obtain ⟨k, hk, hp⟩ := hex
      obtain ⟨d, hd, found⟩ := ih k hk hp
      exact ⟨d, by omega, found⟩
    · exact ⟨n, Nat.le_refl n, h, fun k hk hp => hex ⟨k, hk, hp⟩⟩

/-- A signal that is high and later low falls in between. -/
theorem falls_between {f : Nat → Bool} {b e : Nat} (hbe : b < e) (hb : f b = true)
    (he : f e = false) : ∃ k, b ≤ k ∧ k < e ∧ f k = true ∧ f (k + 1) = false := by
  induction e with
  | zero => exact absurd hbe (Nat.not_lt_zero b)
  | succ e ih =>
    cases hf : f e with
    | true => exact ⟨e, by omega, by omega, hf, he⟩
    | false =>
      have hlt : b < e := by
        rcases Nat.lt_or_eq_of_le (Nat.le_of_lt_succ hbe) with h | rfl
        · exact h
        · exact absurd (hb.symm.trans hf) nofun
      obtain ⟨k, hk, hk', found⟩ := ih hlt hf
      exact ⟨k, hk, by omega, found⟩

end Clocked
