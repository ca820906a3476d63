/-
# Procedures over a state, with loops

A procedure changes a state and returns a value, or it is cut off where it would wait for good; the
state it has reached by then counts all the same. `Yields` is total correctness: the procedure returns,
and what it returns and leaves behind is as stated. `Keeps` is for an invariant of the state, whether
the procedure returns or not, `Ends` for what holds whenever it returns.
-/
namespace Effect

def Proc (σ α : Type) : Type := σ → Option α × σ

namespace Proc

variable {σ α β : Type}

instance : Monad (Proc σ) where
  pure a := fun s => (some a, s)
  bind c f := fun s =>
    match c s with
    | (some a, s') => f a s'
    | (none, s') => (none, s')

def modify (f : σ → σ) : Proc σ Unit := fun s => (some (), f s)

def get : Proc σ σ := fun s => (some s, s)

/-- `for (k = 0; k < n; k++) body(k)`. -/
def upTo : Nat → (Nat → Proc σ Unit) → Proc σ Unit
  | 0, _ => pure ()
  | n + 1, body => do
    upTo n body
    body n

def when (p : Prop) [Decidable p] (c : Proc σ Unit) : Proc σ Unit := if p then c else pure ()

def Yields (c : Proc σ α) (s : σ) (Q : α → σ → Prop) : Prop :=
  ∃ a s', c s = (some a, s') ∧ Q a s'

variable {c : Proc σ α} {f : α → Proc σ β} {s : σ} {Q : α → σ → Prop}

@[simp] theorem yields_pure {a : α} : Yields (pure a) s Q ↔ Q a s := by
  constructor
  · rintro ⟨a', s', h, hq⟩
    cases h
    exact hq
  · exact fun hq => ⟨a, s, rfl, hq⟩

@[simp] theorem yields_bind {R : β → σ → Prop} :
    Yields (c >>= f) s R ↔ Yields c s fun a s' => Yields (f a) s' R := by
  have e : (c >>= f) s = match c s with
      | (some a, s') => f a s'
      | (none, s') => (none, s') := rfl
  constructor
  · rintro ⟨b, s', h, hq⟩
    rw [e] at h
    split at h
    next a s₁ hc => exact ⟨a, s₁, hc, b, s', h, hq⟩
    next s₁ hc => cases h
  · rintro ⟨a, s₁, hc, b, s', hf, hq⟩
    refine ⟨b, s', ?_, hq⟩
    rw [e, hc]
    exact hf

@[simp] theorem yields_modify {g : σ → σ} {R : Unit → σ → Prop} :
    Yields (modify g) s R ↔ R () (g s) := by
  constructor
  · rintro ⟨a, s', h, hq⟩
    cases h
    exact hq
  · exact fun hq => ⟨(), g s, rfl, hq⟩

@[simp] theorem yields_get {R : σ → σ → Prop} : Yields get s R ↔ R s s := by
  constructor
  · rintro ⟨a, s', h, hq⟩
    cases h
    exact hq
  · exact fun hq => ⟨s, s, rfl, hq⟩

@[simp] theorem yields_ite {p : Prop} [Decidable p] {c d : Proc σ α} :
    Yields (if p then c else d) s Q ↔ if p then Yields c s Q else Yields d s Q := by
  split <;> rfl

@[simp] theorem yields_when {p : Prop} [Decidable p] {c : Proc σ Unit} {R : Unit → σ → Prop} :
    Yields (when p c) s R ↔ if p then Yields c s R else R () s := by
  rw [when]
  split
  · rfl
  · exact yields_pure

theorem Yields.mono {R : α → σ → Prop} (h : Yields c s Q) (hq : ∀ a s', Q a s' → R a s') :
    Yields c s R := by
  obtain ⟨a, s', hc, h⟩ := h
  exact ⟨a, s', hc, hq a s' h⟩

theorem Yields.congr {d : Proc σ α} {s' : σ} (e : c s = d s') : Yields c s Q ↔ Yields d s' Q := by
  unfold Yields
  rw [e]

theorem Yields.of_eq {a : Option α} {s' : σ} (h : Yields c s Q) (e : c s = (a, s')) :
    ∃ x, a = some x ∧ Q x s' := by
  obtain ⟨x, s₁, hc, h⟩ := h
  cases hc.symm.trans e
  exact ⟨x, rfl, h⟩

theorem bind_eq_some {b : β} {s' : σ} (h : (c >>= f) s = (some b, s')) :
    ∃ a s₁, c s = (some a, s₁) ∧ f a s₁ = (some b, s') := by
  have hy : Yields (c >>= f) s fun b' s'' => b' = b ∧ s'' = s' := ⟨b, s', h, rfl, rfl⟩
  obtain ⟨a, s₁, ha, _, _, hf, rfl, rfl⟩ := yields_bind.1 hy
  exact ⟨a, s₁, ha, hf⟩

/-- The loop rule: an invariant that counts the rounds. -/
theorem Yields.upTo {n : Nat} {body : Nat → Proc σ Unit} (I : Nat → σ → Prop) (h0 : I 0 s)
    (hb : ∀ k, k < n → ∀ s', I k s' → Yields (body k) s' fun _ => I (k + 1)) :
    Yields (upTo n body) s fun _ => I n := by
  induction n with
  | zero => exact ⟨(), s, rfl, h0⟩
  | succ n ih =>
    rw [Proc.upTo, yields_bind]
    refine (ih fun k hk => hb k (by omega)).mono fun _ s' hs => ?_
    exact hb n (by omega) s' hs

/-- A loop that appends to a log, round by round. -/
theorem Yields.upTo_append {γ : Type} {n : Nat} {body : Nat → Proc σ Unit} (log : σ → List γ)
    (f : Nat → List γ) (P : Nat → σ → Prop) (h0 : P 0 s)
    (hb : ∀ k, k < n → ∀ s', P k s' →
      Yields (body k) s' fun _ s'' => log s'' = log s' ++ f k ∧ P (k + 1) s'') :
    Yields (Proc.upTo n body) s fun _ s' => log s' = log s ++ (List.range n).flatMap f ∧ P n s' := by
  refine Yields.upTo (fun k s' => log s' = log s ++ (List.range k).flatMap f ∧ P k s')
    ⟨by simp, h0⟩ ?_
  rintro k hk s' ⟨h1, h2⟩
  refine (hb k hk s' h2).mono ?_
  rintro _ s'' ⟨h3, h4⟩
  refine ⟨?_, h4⟩
  rw [h3, h1, List.range_succ, List.flatMap_append, List.append_assoc]
  simp

/-! ## Invariants -/

def Keeps (P : σ → Prop) (c : Proc σ α) : Prop := ∀ s, P s → P (c s).2

section Keeps

variable {P : σ → Prop}

theorem Keeps.pure {a : α} : Keeps P (pure a : Proc σ α) := fun _ h => h

theorem Keeps.get : Keeps P (get : Proc σ σ) := fun _ h => h

theorem Keeps.modify {g : σ → σ} (h : ∀ s, P s → P (g s)) : Keeps P (modify g) := h

theorem Keeps.bind (hc : Keeps P c) (hf : ∀ a, Keeps P (f a)) : Keeps P (c >>= f) := by
  intro s hs
  have hc' := hc s hs
  show P (match c s with
    | (some a, s') => f a s'
    | (none, s') => (none, s')).2
  split
  next a s' e =>
    rw [e] at hc'
    exact hf a s' hc'
  next s' e =>
    rw [e] at hc'
    exact hc'

theorem Keeps.ite {p : Prop} [Decidable p] {d : Proc σ α} (hc : p → Keeps P c)
    (hd : ¬ p → Keeps P d) : Keeps P (if p then c else d) := by
  split
  next h => exact hc h
  next h => exact hd h

theorem Keeps.when {p : Prop} [Decidable p] {c : Proc σ Unit} (hc : p → Keeps P c) :
    Keeps P (when p c) := .ite hc fun _ => .pure

theorem Keeps.upTo {n : Nat} {body : Nat → Proc σ Unit} (hb : ∀ k, k < n → Keeps P (body k)) :
    Keeps P (Proc.upTo n body) := by
  induction n with
  | zero => exact .pure
  | succ n ih =>
    exact .bind (ih fun k hk => hb k (by omega)) fun _ => hb n (by omega)

end Keeps

/-! ## Whatever it starts from -/

def Ends (Q : σ → Prop) (c : Proc σ α) : Prop := ∀ s a s', c s = (some a, s') → Q s'

section Ends

variable {Q : σ → Prop}

theorem Ends.modify {g : σ → σ} (h : ∀ s, Q (g s)) : Ends Q (modify g) := by
  intro s a s' e
  cases e
  exact h s

theorem Ends.bind (hf : ∀ a, Ends Q (f a)) : Ends Q (c >>= f) := by
  intro s b s' e
  obtain ⟨a, s₁, -, hf'⟩ := bind_eq_some e
  exact hf a s₁ b s' hf'

theorem Ends.ite {p : Prop} [Decidable p] {d : Proc σ α} (hc : Ends Q c) (hd : Ends Q d) :
    Ends Q (if p then c else d) := by
  split
  · exact hc
  · exact hd

end Ends

end Proc

end Effect
