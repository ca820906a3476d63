/-!
# Chains of registers

`n` registers in a row (`Fin n → α`, place 0 next to the input), the two-register synchroniser with
its asynchronous reset, and the tables of registers that generate loops make.
-/

namespace Clocked

/-- `n` registers in a row. -/
def DelayLine (n : Nat) (α : Type) : Type := Fin n → α

namespace DelayLine

variable {n : Nat} {α : Type}

def fill (a : α) : DelayLine n α := fun _ => a

/-- One clock: `a` enters, everything moves one place on. -/
def shift (a : α) (d : DelayLine n α) : DelayLine n α := fun k =>
  if h : k.val = 0 then a else d ⟨k.val - 1, by omega⟩

@[simp] theorem fill_apply (a : α) (k : Fin n) : (fill a : DelayLine n α) k = a := rfl

theorem shift_zero (a : α) (d : DelayLine n α) (k : Fin n) (h : k.val = 0) : d.shift a k = a := by
  simp [shift, h]

theorem shift_succ (a : α) (d : DelayLine n α) (k : Nat) (h : k + 1 < n) :
    d.shift a ⟨k + 1, h⟩ = d ⟨k, by omega⟩ := by
  simp [shift]

/-- In clock `t` the first `age` places hold what `g` gave in the clocks before, newest first. -/
def Holds (g : Nat → α) (t age : Nat) (d : DelayLine n α) : Prop :=
  ∀ k (hk : k < n), k < age → k < t ∧ d ⟨k, hk⟩ = g (t - 1 - k)

namespace Holds

variable {g : Nat → α} {t age : Nat} {d : DelayLine n α}

theorem zero : Holds g t 0 d := fun _ _ h => absurd h (Nat.not_lt_zero _)

theorem mono {age' : Nat} (h : Holds g t age d) (hle : age' ≤ age) : Holds g t age' d :=
  fun k hk hlt => h k hk (Nat.lt_of_lt_of_le hlt hle)

/-- One clock on, with what `g` gives now at the input. -/
theorem shift (h : Holds g t age d) : Holds g (t + 1) (age + 1) (d.shift (g t)) := by
  intro k hk hlt
  cases k with
  | zero => exact ⟨Nat.succ_pos t, shift_zero _ _ _ rfl⟩
  | succ k =>
    obtain ⟨hkt, hd⟩ := h k (by omega) (by omega)
    refine ⟨by omega, ?_⟩
    rw [shift_succ, hd]
    congr 1; omega

end Holds

end DelayLine

/-- A two-register synchroniser (`r0` next to the input). -/
structure SyncReg where
  r0 : Bool
  r1 : Bool
deriving Repr, DecidableEq

namespace SyncReg

/-- Both registers cleared. -/
def zero : SyncReg := ⟨false, false⟩

/-- One clock; an asserted reset (`resetN = false`) holds both registers at 0. -/
def step (resetN asyncIn : Bool) (s : SyncReg) : SyncReg :=
  if resetN then ⟨asyncIn, s.r0⟩ else zero

/-- The output sees the asynchronous reset at once. -/
def syncOut (resetN : Bool) (s : SyncReg) : Bool := resetN && s.r1

end SyncReg

/-- `n` registers of one kind, one for each instance of a generate loop. -/
structure Table (n : Nat) (α : Type) where
  vec : Vector α n
deriving Repr, DecidableEq

namespace Table

variable {n : Nat} {α : Type}

def reg (t : Table n α) (k : Fin n) : α := t.vec[k]

instance : CoeFun (Table n α) (fun _ => Fin n → α) := ⟨reg⟩

def ofFn (f : Fin n → α) : Table n α := ⟨Vector.ofFn f⟩

def const (a : α) : Table n α := ofFn fun _ => a

@[simp] theorem ofFn_apply (f : Fin n → α) (k : Fin n) : ofFn f k = f k := by
  simp [reg, ofFn]

@[simp] theorem const_apply (a : α) (k : Fin n) : (const a : Table n α) k = a := by
  rw [const, ofFn_apply]

end Table

end Clocked
