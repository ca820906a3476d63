import LimeSdrGw.Spi.RegisterFile
/-
# The registers of `periphcfg`

On every rising edge outside a load of `dout_reg` the block writes the inverse of the low four bits of
register 3 into the four bits above them. All other registers hold what was written last.

| here | there |
| --- | --- |
| `periphcfgDefaults` | periphcfg.vhd:152-186 |
| `lastWritten`       | the data of the last complete frame that wrote to a register |
-/
namespace Spi

open Clocked

def periphcfgDefaults : Regs := .ofList [0xFFFF]

namespace CfgTop

/-- A complete frame that writes to `periphcfg` leaves its data word. -/
def noteWrite (m : AddressMap) (r : Regs) (f : Option (List Bool)) : Regs :=
  match f with
  | some f => if writesTo f (m.maddress .periphcfg) then r.set (registerOf f) (dataOf f) else r
  | none => r

section run

variable (m : AddressMap) (u : PowerUp) (x : Nat → Pin)

/-- What was written last before event `n`, or the reset value. -/
def lastWritten : Nat → Regs
  | 0 => periphcfgDefaults
  | n + 1 => noteWrite m (lastWritten n) (completed (busAt m u x n) (topAt m u x n) (x n))

/-- The clock rises in event `n`. -/
def Rises (n : Nat) : Prop := x n = .sclk ∧ (topAt m u x n).sclk = false

/-- The registers of `periphcfg` in event `n`. -/
def periphRegs (n : Nat) : Regs := ((topAt m u x n).block .periphcfg).mem

end run

section run

variable {m : AddressMap} {u : PowerUp} {x : Nat → Pin} {n : Nat} {a : BitVec 5}

theorem noteWrite_eq (r : Regs) (f : Option (List Bool)) : noteWrite m r f a =
    match f with
    | some f => if writesTo f (m.maddress .periphcfg) = true ∧ registerOf f = a then dataOf f else r a
    | none => r a := by
  cases f with
  | none => rfl
  | some f =>
    rw [noteWrite]
    by_cases hw : writesTo f (m.maddress .periphcfg) = true
    · simp only [hw, if_true, true_and, Regs.set]
      by_cases ha : registerOf f = a
      · rw [if_pos ha, if_pos ha.symm]
      · rw [if_neg ha, if_neg (Ne.symm ha)]
    · show (if _ then _ else r) a = if _ ∧ _ then _ else r a
      rw [if_neg hw, if_neg fun h => hw h.1]

theorem periphRegs_succ (n : Nat) : periphRegs m u x (n + 1) =
    (((topAt m u x n).step m (x n)).block .periphcfg).mem := rfl

/-- A register but number 3 is written as the frames say. -/
theorem periphRegs_step (ha : a ≠ 3) (n : Nat) : periphRegs m u x (n + 1) a =
    noteWrite m (periphRegs m u x n) (completed (busAt m u x n) (topAt m u x n) (x n)) a := by
  have tied := tied_at m u x n
  rw [noteWrite_eq, periphRegs_succ]
  by_cases hp : x n = .sclk ∧ (topAt m u x n).sclk = false
  · obtain ⟨v, hv, hmem⟩ := tied.mem_rise hp.2 .periphcfg a
    rw [hp.1]
    have hval : (((topAt m u x n).step m .sclk).block .periphcfg).mem a = v := by
      rcases hmem with ⟨-, hmem⟩ | hmem
      · exact hmem
      · rw [hmem, Block.settle, if_neg ha]
    exact hval.trans hv
  · have hc : completed (busAt m u x n) (topAt m u x n) (x n) = none := by
      rw [completed, if_neg]
      exact fun h => hp ⟨h.1, h.2.1⟩
    rw [mem_kept _ _ hp, hc]
    rfl

theorem holds_of_ne_three (hu : u.mem .periphcfg = periphcfgDefaults) (ha : a ≠ 3) (n : Nat) :
    periphRegs m u x n a = lastWritten m u x n a := by
  induction n with
  | zero =>
    show u.mem .periphcfg a = periphcfgDefaults a
    rw [hu]
  | succ n ih => rw [periphRegs_step ha, lastWritten, noteWrite_eq, noteWrite_eq, ih]

/-- Without a rising edge nothing is written. -/
theorem holds_of_no_edge (hu : u.mem .periphcfg = periphcfgDefaults)
    (h : ∀ n, ¬ Rises m u x n) (n : Nat) : periphRegs m u x n a = lastWritten m u x n a := by
  induction n with
  | zero =>
    show u.mem .periphcfg a = periphcfgDefaults a
    rw [hu]
  | succ n ih =>
    have hc : completed (busAt m u x n) (topAt m u x n) (x n) = none := by
      rw [completed, if_neg]
      exact fun hp => h n ⟨hp.1, hp.2.1⟩
    rw [periphRegs_succ, mem_kept _ _ (h n), lastWritten, hc]
    exact ih

/-- No frame is under way before the first rising edge. -/
theorem frame_nil (h : ∀ k, k < n → ¬ Rises m u x k) : (busAt m u x n).frame = [] := by
  induction n with
  | zero => rfl
  | succ n ih =>
    have hprev := ih fun k hk => h k (Nat.lt_succ_of_lt hk)
    have hlast := h n (Nat.lt_succ_self n)
    have hbus : busAt m u x (n + 1) = note m (busAt m u x n) (topAt m u x n) (x n) := rfl
    rw [hbus]
    cases hx : x n with
    | sclk =>
      have hclk : (topAt m u x n).sclk = true := by
        cases hclk : (topAt m u x n).sclk with
        | true => rfl
        | false => exact absurd ⟨hx, hclk⟩ hlast
      simp [note, hclk, hprev]
    | sen v => cases v <;> simp [note, hprev]
    | sdin v => exact hprev
    | hw v => exact hprev

/-- The first rising edge already changes register 3. -/
theorem three_of_first_edge (hu : u.mem .periphcfg = periphcfgDefaults)
    (h : ∀ k, k < n → ¬ Rises m u x k) (hn : Rises m u x n) :
    periphRegs m u x (n + 1) 3 ≠ lastWritten m u x (n + 1) 3 := by
  have tied := tied_at m u x n
  have hframe := frame_nil h
  have hnone : completed (busAt m u x n) (topAt m u x n) (x n) = none := by
    rw [completed, if_neg]
    rintro ⟨-, -, -, hlen⟩
    rw [hframe] at hlen
    cases hlen
  have hkept : ∀ k, k ≤ n → periphRegs m u x k 3 = 0 ∧ lastWritten m u x k 3 = 0 := by
    intro k hk
    induction k with
    | zero => exact ⟨congrFun hu 3, rfl⟩
    | succ k ih =>
      obtain ⟨hmem, hlast⟩ := ih (by omega)
      have hc : completed (busAt m u x k) (topAt m u x k) (x k) = none := by
        rw [completed, if_neg]
        exact fun hp => h k (by omega) ⟨hp.1, hp.2.1⟩
      rw [periphRegs_succ, mem_kept _ _ (h k (by omega)), lastWritten, hc]
      exact ⟨hmem, hlast⟩
  obtain ⟨hmem, hlast⟩ := hkept n (Nat.le_refl n)
  have hafter : lastWritten m u x (n + 1) 3 = 0 := by
    rw [lastWritten, hnone]
    exact hlast
  have hstate : ((topAt m u x n).block .periphcfg).state = 0 := by
    rw [(tied.follows .periphcfg).state, hframe]
    rfl
  have hrise : ((topAt m u x n).step m .sclk).block .periphcfg =
      ((topAt m u x n).block .periphcfg).rise .periphcfg (m.maddress .periphcfg)
        (topAt m u x n).hw (topAt m u x n).sen (topAt m u x n).sdin := by
    simp [CfgTop.step, hn.2]
  have hval : periphRegs m u x (n + 1) 3 = 0x00F0 := by
    have hold : ((topAt m u x n).block .periphcfg).mem 3#5 = 0#16 := hmem
    rw [periphRegs_succ, hn.1, hrise]
    simp [CfgBlock.rise, Mcfg.memWe, Mcfg.doutRegLen, hstate, hold, Block.settle]
  rw [hval, hafter]
  decide

end run

/-- From the reset on, whatever happens on the pins, a register holds what the last complete frame that
    wrote to it brought, or its reset value: every register but number 3, and that one as long as the
    clock does not rise. -/
theorem periphcfg_holds_iff (m : AddressMap) (u : PowerUp) (x : Nat → Pin) (a : BitVec 5)
    (hu : u.mem .periphcfg = periphcfgDefaults) :
    (∀ n, periphRegs m u x n a = lastWritten m u x n a) ↔ (a ≠ 3 ∨ ∀ n, ¬ Rises m u x n) := by
  constructor
  · intro h
    by_cases ha : a = 3
    · subst ha
      refine .inr fun n => ?_
      induction n using Nat.strongRecOn with
      | _ n ih => exact fun hn => three_of_first_edge hu ih hn (h (n + 1))
    · exact .inl ha
  · rintro (ha | hedge) n
    · exact holds_of_ne_three hu ha n
    · exact holds_of_no_edge hu hedge n

/-- The reset values, nothing selected. -/
def idlePins : PowerUp where
  sclk := false
  sen := true
  sdin := false
  hw := ⟨⟨0, 0, false⟩, ⟨false, false, false, false, 0⟩, ⟨0, 0, 0, 0, 0, 0, 0, 0, 0, 0, 0, 0, 0, 0⟩,
    ⟨0, 0⟩, ⟨0, 0, 0⟩⟩
  mem _ := periphcfgDefaults

/-- One rising edge, no frame at all: register 3 is no longer what the reset left. -/
theorem periphcfg_three_lost : ¬ ∀ (m : AddressMap) (u : PowerUp) (x : Nat → Pin) (a : BitVec 5),
    u.mem .periphcfg = periphcfgDefaults → a ≠ 2 → a ≠ 8 → a ≠ 9 →
      ∀ n, periphRegs m u x n a = lastWritten m u x n a := by
  intro h
  have hbad := h topAddresses idlePins (fun _ => .sclk) 3 rfl (by decide) (by decide) (by decide) 1
  exact absurd hbad (by decide)

/-- The frame `w` while `sen` is low, with two edges of `sclk` a bit. -/
def framePins (w : BitVec 32) (n : Nat) : Pin :=
  if n = 0 then .sen false
  else if 96 < n then .sen true
  else if n % 3 = 1 then .sdin (w.getMsbD (n / 3))
  else .sclk

/-- A frame that writes to register 6. -/
def writeSix : Nat → Pin := framePins 0x80C61234

theorem periphcfg_holds_six :
    (∀ n, periphRegs topAddresses idlePins writeSix n 6 =
      lastWritten topAddresses idlePins writeSix n 6) ∧
    lastWritten topAddresses idlePins writeSix 95 6 = 0x0000 ∧
    lastWritten topAddresses idlePins writeSix 96 6 = 0x1234 :=
  ⟨(periphcfg_holds_iff topAddresses idlePins writeSix 6 rfl).2 (.inl (by decide)),
    by decide +kernel, by decide +kernel⟩

end CfgTop

end Spi
