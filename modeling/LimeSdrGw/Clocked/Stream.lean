import LimeSdrGw.Clocked.Machine
/-!
# Streams of valid words

A `valid`/`data` pair of signals carries a list of words, one in every clock in which `valid` is
high. A converter (`Mealy`) keeps something of the words that came and puts out what has become
complete; one between two word widths (a *gear*) counts its phase and keeps the previous word. A row
of registers behind it only delays what it puts out. What leaves is then a function of the words
that entered, however many clocks lie between them.
-/

namespace Clocked

/-- A word with its `valid` bit. -/
def validWord {α : Type} (valid : Bool) (a : α) : List α := if valid then [a] else []

/-- The words `x` carries in the clocks before `n`. -/
def words {α : Type} (x : Nat → Bool × α) : Nat → List α
  | 0 => []
  | n + 1 => words x n ++ validWord (x n).1 (x n).2

theorem words_map {α β : Type} (f : α → β) (x : Nat → Bool × α) (n : Nat) :
    words (fun k => ((x k).1, f (x k).2)) n = (words x n).map f := by
  induction n with
  | zero => rfl
  | succ n ih =>
    rw [words, words, ih, List.map_append, validWord, validWord]
    split <;> rfl

/-- Clocks without a valid word add nothing. -/
theorem words_gap {α : Type} {x : Nat → Bool × α} {n m : Nat} (hnm : n ≤ m)
    (h : ∀ k, n ≤ k → k < m → (x k).1 = false) : words x m = words x n := by
  induction m with
  | zero =>
    obtain rfl := Nat.le_zero.1 hnm
    rfl
  | succ m ih =>
    by_cases hm : n = m + 1
    · rw [hm]
    · have hlast := h m (by omega) (by omega)
      have hrest := ih (by omega) fun k h1 h2 => h k h1 (by omega)
      rw [words, validWord, hlast, hrest]
      exact List.append_nil _

/-- The words of `l` one after the other, without a gap. -/
def gapless {α : Type} (l : List α) (rest : α) (n : Nat) : Bool × α := (l[n]?.isSome, l[n]?.getD rest)

theorem words_gapless {α : Type} (l : List α) (rest : α) (n : Nat) :
    words (gapless l rest) n = l.take n := by
  induction n with
  | zero => rfl
  | succ n ih =>
    rw [words, ih, List.take_add_one]
    congr 1
    cases h : l[n]? <;> simp [gapless, validWord, h]

namespace Machine

variable {σ ι β : Type} {m : Machine σ ι}

section delay

variable (stage : Nat → σ → List β) (d : Nat) {fresh : σ → ι → List β}

/-- What a row of registers holds is what entered it, place by place. -/
theorem stage_of_fresh (hmove : ∀ k s i, k < d → stage k (m.step s i) = stage (k + 1) s)
    (hin : ∀ s i, stage d (m.step s i) = fresh s i) (x : Nat → ι) {k : Nat} (hk : k ≤ d) (n : Nat) :
    stage (d - k) (m.state x (n + k + 1)) = fresh (m.state x n) (x n) := by
  induction k with
  | zero => rw [Nat.sub_zero, Nat.add_zero, state_succ, hin]
  | succ k ih =>
    have hlt : d - (k + 1) < d := by omega
    have hnext : d - (k + 1) + 1 = d - k := by omega
    rw [← Nat.add_assoc n k 1, state_succ, hmove _ _ _ hlt, hnext]
    exact ih (by omega)

/-- As long as nothing has come through, the row is empty at its far end. -/
theorem stage_empty (h0 : ∀ k, k ≤ d → stage k m.init = [])
    (hmove : ∀ k s i, k < d → stage k (m.step s i) = stage (k + 1) s) (x : Nat → ι) (n : Nat) :
    ∀ k, n + k ≤ d → stage k (m.state x n) = [] := by
  induction n with
  | zero =>
    intro k hk
    exact h0 k (by omega)
  | succ n ih =>
    intro k hk
    rw [state_succ, hmove k _ _ (by omega)]
    exact ih (k + 1) (by omega)

/-- Behind `d + 1` registers everything comes `d + 1` clocks later, and nothing else comes. -/
theorem log_delayed (h0 : ∀ k, k ≤ d → stage k m.init = [])
    (hmove : ∀ k s i, k < d → stage k (m.step s i) = stage (k + 1) s)
    (hin : ∀ s i, stage d (m.step s i) = fresh s i) (x : Nat → ι) (n : Nat) :
    m.log (fun s _ => stage 0 s) x (n + d + 1) = m.log fresh x n := by
  induction n with
  | zero =>
    have hempty : ∀ k, k ≤ d + 1 → m.log (fun s _ => stage 0 s) x k = [] := by
      intro k
      induction k with
      | zero => exact fun _ => rfl
      | succ k ih =>
        intro hk
        rw [log_succ, ih (by omega), stage_empty stage d h0 hmove x k 0 (by omega)]
        rfl
    rw [Nat.zero_add]
    exact hempty _ (Nat.le_refl _)
  | succ n ih =>
    have hout := stage_of_fresh stage d hmove hin x (Nat.le_refl d) n
    rw [Nat.sub_self] at hout
    have hn : n + 1 + d + 1 = (n + d + 1) + 1 := by omega
    rw [hn, log_succ, ih, hout, log_succ]

end delay

end Machine

/-- A converter with a memory `μ`: what it puts out for a word, and what it then keeps. -/
structure Mealy (μ α β : Type) where
  out : μ → α → List β
  next : μ → α → μ

namespace Mealy

variable {μ α β σ ι : Type} (t : Mealy μ α β)

/-- What comes out for the words of a list. -/
def run : μ → List α → List β
  | _, [] => []
  | c, a :: as => t.out c a ++ run (t.next c a) as

/-- What is kept after a list. -/
def after : μ → List α → μ
  | c, [] => c
  | c, a :: as => after (t.next c a) as

theorem run_append (c : μ) (as bs : List α) :
    t.run c (as ++ bs) = t.run c as ++ t.run (t.after c as) bs := by
  induction as generalizing c with
  | nil => rfl
  | cons a as ih => rw [List.cons_append, run, run, after, ih, List.append_assoc]

theorem after_append (c : μ) (as bs : List α) :
    t.after c (as ++ bs) = t.after (t.after c as) bs := by
  induction as generalizing c with
  | nil => rfl
  | cons a as ih => rw [List.cons_append, after, after, ih]

theorem run_concat (c : μ) (as : List α) (a : α) :
    t.run c (as ++ [a]) = t.run c as ++ t.out (t.after c as) a := by
  rw [run_append, run, run, List.append_nil]

/-- The part `mem` of the state moves on with every valid word of `inp`. -/
def Drives (m : Machine σ ι) (inp : ι → Bool × α) (mem : σ → μ) : Prop :=
  ∀ s i, mem (m.step s i) = if (inp i).1 then t.next (mem s) (inp i).2 else mem s

/-- The words a clock completes. -/
def fresh (inp : ι → Bool × α) (mem : σ → μ) (s : σ) (i : ι) : List β :=
  if (inp i).1 then t.out (mem s) (inp i).2 else []

variable {t} {m : Machine σ ι} {inp : ι → Bool × α} {mem : σ → μ}

theorem Drives.after_eq (h : t.Drives m inp mem) (x : Nat → ι) (n : Nat) :
    t.after (mem m.init) (words (fun k => inp (x k)) n) = mem (m.state x n) := by
  induction n with
  | zero => rfl
  | succ n ih =>
    rw [words, validWord, Machine.state_succ, h]
    split
    · rw [after_append, ih]
      rfl
    · rw [List.append_nil, ih]

/-- Gaps between the words make no difference. -/
theorem Drives.log_fresh (h : t.Drives m inp mem) (x : Nat → ι) (n : Nat) :
    m.log (t.fresh inp mem) x n = t.run (mem m.init) (words (fun k => inp (x k)) n) := by
  induction n with
  | zero => rfl
  | succ n ih =>
    rw [Machine.log_succ, words, validWord, ih, fresh]
    split
    · rw [run_concat, h.after_eq]
    · rw [List.append_nil, List.append_nil]

end Mealy

/-- `phases` words in make up a group; `out` tells what the word `a` behind `prev` completes. -/
structure Gear (α β : Type) where
  phases : Nat
  out : Nat → α → α → List β

namespace Gear

variable {α β σ ι : Type} (g : Gear α β)

def next (p : Nat) : Nat := if p + 1 < g.phases then p + 1 else 0

/-- What comes out for the words of a list, beginning in phase `p` behind the word `prev`. -/
def run : Nat → α → List α → List β
  | _, _, [] => []
  | p, prev, a :: as => g.out p prev a ++ run (g.next p) a as

/-- Phase and last word after a list. -/
def after : Nat → α → List α → Nat × α
  | p, prev, [] => (p, prev)
  | p, _, a :: as => after (g.next p) a as

/-- A gear keeps its phase and the last word. -/
def mealy : Mealy (Nat × α) α β where
  out c a := g.out c.1 c.2 a
  next c a := (g.next c.1, a)

theorem run_eq (p : Nat) (prev : α) (as : List α) : g.run p prev as = g.mealy.run (p, prev) as := by
  induction as generalizing p prev with
  | nil => rfl
  | cons a as ih =>
    rw [run, ih]
    rfl

theorem after_eq (p : Nat) (prev : α) (as : List α) :
    g.after p prev as = g.mealy.after (p, prev) as := by
  induction as generalizing p prev with
  | nil => rfl
  | cons a as ih =>
    rw [after, ih]
    rfl

theorem run_concat (p : Nat) (prev a : α) (as : List α) : g.run p prev (as ++ [a]) =
    g.run p prev as ++ g.out (g.after p prev as).1 (g.after p prev as).2 a := by
  rw [run_eq, run_eq, after_eq, Mealy.run_concat]
  rfl

theorem run_append (p : Nat) (prev : α) (as bs : List α) : g.run p prev (as ++ bs) =
    g.run p prev as ++ g.run (g.after p prev as).1 (g.after p prev as).2 bs := by
  rw [run_eq, run_eq, run_eq, after_eq, Mealy.run_append]

/-- The phase counts the words. -/
theorem after_phase {p : Nat} (h : p < g.phases) (prev : α) (as : List α) :
    (g.after p prev as).1 = (p + as.length) % g.phases := by
  induction as generalizing p prev with
  | nil => exact (Nat.mod_eq_of_lt h).symm
  | cons a as ih =>
    rw [after, next, List.length_cons]
    split
    · rename_i hp
      rw [ih hp]
      congr 1; omega
    · have hp : p + 1 = g.phases := by omega
      rw [ih (by omega), ← Nat.add_assoc, Nat.add_right_comm, hp, Nat.add_mod_left, Nat.zero_add]

/-- `m` turns with the gear: its phase and its last word move on with every valid word of `inp`. -/
structure Drives (m : Machine σ ι) (inp : ι → Bool × α) (phase : σ → Nat) (prev : σ → α) :
    Prop where
  phase_step : ∀ s i, phase (m.step s i) = if (inp i).1 then g.next (phase s) else phase s
  prev_step : ∀ s i, prev (m.step s i) = if (inp i).1 then (inp i).2 else prev s

/-- The words a clock completes. -/
def fresh (inp : ι → Bool × α) (phase : σ → Nat) (prev : σ → α) (s : σ) (i : ι) : List β :=
  if (inp i).1 then g.out (phase s) (prev s) (inp i).2 else []

variable {g} {m : Machine σ ι} {inp : ι → Bool × α} {phase : σ → Nat} {prev : σ → α}

/-- Where a machine begins does not matter. -/
theorem Drives.startAt (h : g.Drives m inp phase prev) (s : σ) :
    g.Drives (m.startAt s) inp phase prev := ⟨h.phase_step, h.prev_step⟩

theorem Drives.mealy (h : g.Drives m inp phase prev) :
    g.mealy.Drives m inp fun s => (phase s, prev s) := by
  intro s i
  simp only [h.phase_step, h.prev_step]
  split <;> rfl

/-- The phase and the last word are those of the words that came. -/
theorem Drives.after_eq (h : g.Drives m inp phase prev) (x : Nat → ι) (n : Nat) :
    g.after (phase m.init) (prev m.init) (words (fun k => inp (x k)) n) =
      (phase (m.state x n), prev (m.state x n)) := by
  rw [Gear.after_eq]
  exact h.mealy.after_eq x n

theorem Drives.phase_eq (h : g.Drives m inp phase prev) (hp : phase m.init < g.phases)
    (x : Nat → ι) (n : Nat) : phase (m.state x n) =
      (phase m.init + (words (fun k => inp (x k)) n).length) % g.phases :=
  (congrArg Prod.fst (h.after_eq x n)).symm.trans (g.after_phase hp _ _)

/-- Gaps between the words make no difference. -/
theorem Drives.log_fresh (h : g.Drives m inp phase prev) (x : Nat → ι) (n : Nat) :
    m.log (g.fresh inp phase prev) x n =
      g.run (phase m.init) (prev m.init) (words (fun k => inp (x k)) n) := by
  rw [Gear.run_eq]
  exact h.mealy.log_fresh x n

end Gear

end Clocked
