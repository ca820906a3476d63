import LimeSdrGw.Rx.PacketStream
/-
# The sample FIFO of the RX path

Every cycle reads what it needs in one go, from a FIFO that holds it; and as the words come at half the
rate at which they are read, no more of them gather than a cycle waits for and a few.

| here | there |
| --- | --- |
| `FormationCycle` | data2packets_fsm.vhd:72-155: from `check_pct_buff` to `idle` |
| `Low`            | data2packets_top.vhd:147-181: `smpl_buff_rdusedw_min` and the registers behind it |
-/
namespace Rx

open Clocked Tx

variable {wd : WidthSetting} {x : Nat → FormIn}

/-- A read belongs to a cycle. -/
theorem cycle_of_read {n : Nat} (h : (formerAt wd x n).core.smplBuffRdreq = true) :
    ∃ t a, n = t + a ∧ 1 ≤ a ∧ a ≤ smplRdSize wd.code ∧ Starts wd (formerAt wd x t) := by
  rcases n with _ | _ | n
  · cases h
  · cases h
  · cases located wd x n with
    | idle ts hw hidle =>
      rw [Data2PacketsTop.smplBuffRdreq, Data2PacketsFsm.smplBuffRdreq, hidle.fsm] at h
      cases h
    | busy u a ts hn hu ha hidle hst hw =>
      have hrd := smplBuffRdreq_at (y := fun k => x (u + 1 + k)) hst (Nat.le_of_lt ha)
      rw [← formerAt_add, ← hn, h] at hrd
      have hin := of_decide_eq_true hrd.symm
      exact ⟨u + 1, a, hn, hin.1, hin.2, hst⟩

/-- A word is read only where there is one. -/
theorem ne_nil_of_read {n : Nat} (h : (formerAt wd x n).core.smplBuffRdreq = true) :
    (formerAt wd x n).smplBuff.items ≠ [] := by
  obtain ⟨t, a, rfl, -, ha, hst⟩ := cycle_of_read h
  have hcyc : smplRdSize wd.code + 2 ≤ cycle wd := by cases wd <;> decide
  rw [formerAt_add] at h ⊢
  exact smplBuff_ne_nil hst (by omega) h

/-- A cycle that has begun reads. -/
theorem consumed_of_check {n : Nat}
    (h : (formerAt wd x n).core.inst0.currentState = .checkPctBuff) :
    (RxFormer.machine wd).log RxFormer.consumed x (n + 2) ≠ [] := by
  have hcyc : 1 ≤ smplRdSize wd ∧ 1 ≤ cycle wd := by cases wd <;> decide
  have hrd := smplBuffRdreq_at (y := fun k => x (n + k)) (starts_of_check h) hcyc.2
  rw [← formerAt_add, decide_eq_true ⟨Nat.le_refl 1, hcyc.1⟩] at hrd
  obtain ⟨w, l, hl⟩ := List.exists_cons_of_ne_nil (ne_nil_of_read hrd)
  rw [Machine.log_succ, RxFormer.consumed, hrd, if_pos rfl, hl]
  exact List.append_ne_nil_of_right_ne_nil _ (List.cons_ne_nil w [])

/-! ## The fill level -/

theorem smplBuff_length_step (s : RxFormer) (i : FormIn)
    (h : s.core.smplBuffRdreq = true → s.smplBuff.items ≠ []) :
    (s.step wd i).smplBuff.items.length + s.core.smplBuffRdreq.toNat ≤
      s.smplBuff.items.length + i.smplWrreq.toNat := by
  have hpush : (Fifo.pushed smplBuffWords i.smplWrreq [i.smplData] s.smplBuff.items).length ≤
      i.smplWrreq.toNat := by
    rw [Fifo.pushed]
    cases i.smplWrreq with
    | false => exact Nat.le_refl 0
    | true =>
      split
      · exact Nat.le_refl 1
      · exact Nat.zero_le 1
  have hpop : (Fifo.popped s.core.smplBuffRdreq s.smplBuff.items).length +
      s.core.smplBuffRdreq.toNat ≤ s.smplBuff.items.length := by
    cases hrd : s.core.smplBuffRdreq with
    | false => exact Nat.le_refl _
    | true =>
      have hpos := List.length_pos_iff.2 (h hrd)
      rw [Fifo.popped_true, List.length_tail, Bool.toNat_true]
      omega
  simp only [RxFormer.step, Fifo.step_items, List.length_append]
  omega

variable (wd x) in
/-- The FIFO gains no more than what is written. -/
theorem length_succ (n : Nat) : (formerAt wd x (n + 1)).smplBuff.items.length +
    (formerAt wd x n).core.smplBuffRdreq.toNat ≤
      (formerAt wd x n).smplBuff.items.length + (x n).smplWrreq.toNat :=
  smplBuff_length_step _ _ ne_nil_of_read

/-- At most one write in two clocks. -/
def HalfRate (x : Nat → FormIn) : Prop :=
  ∀ n, (x n).smplWrreq = true → (x (n + 1)).smplWrreq = false

def HalfRateFrom (x : Nat → FormIn) (m : Nat) : Prop :=
  ∀ n, m ≤ n → (x n).smplWrreq = true → (x (n + 1)).smplWrreq = false

theorem HalfRate.from_clock (hx : HalfRate x) (m : Nat) : HalfRateFrom x m := fun n _ h => hx n h

/-- The write one clock earlier, `a` clocks into a cycle. -/
def lastWrite (x : Nat → FormIn) (t : Nat) : Nat → Bool
  | 0 => false
  | a + 1 => (x (t + a)).smplWrreq

/-- In a cycle the level falls by half a word a clock. -/
theorem length_cycle {t a : Nat} (hx : HalfRateFrom x t) (h : Starts wd (formerAt wd x t))
    (ha : a ≤ cycle wd) : (formerAt wd x (t + a)).smplBuff.items.length +
      min (a - 1) (smplRdSize wd.code) ≤
        (formerAt wd x t).smplBuff.items.length + (a + (lastWrite x t a).toNat) / 2 := by
  induction a with
  | zero =>
    rw [Nat.add_zero, Nat.zero_sub, Nat.zero_min]
    exact Nat.le_add_right _ _
  | succ a ih =>
    have hprev := ih (by omega)
    have hstep := length_succ wd x (t + a)
    have hrd := smplBuffRdreq_at (y := fun k => x (t + k)) h (a := a) (by omega)
    rw [← formerAt_add] at hrd
    rw [hrd] at hstep
    have hbit : (lastWrite x t a).toNat + (x (t + a)).smplWrreq.toNat ≤ 1 := by
      cases a with
      | zero => exact Nat.le_trans (Nat.le_of_eq (Nat.zero_add _)) (Bool.toNat_le _)
      | succ a =>
        rw [lastWrite]
        cases hw : (x (t + a)).smplWrreq with
        | false => exact Nat.le_trans (Nat.le_of_eq (Nat.zero_add _)) (Bool.toNat_le _)
        | true =>
          rw [show t + (a + 1) = t + a + 1 from rfl, hx _ (Nat.le_add_right _ _) hw]
          exact Nat.le_refl 1
    rw [lastWrite, show t + (a + 1) = t + a + 1 from rfl]
    by_cases hin : 1 ≤ a ∧ a ≤ smplRdSize wd.code
    · rw [decide_eq_true hin, Bool.toNat_true] at hstep
      omega
    · rw [decide_eq_false hin, Bool.toNat_false] at hstep
      omega

/-- Between two cycles the FIFO holds what the next one waits for and a few words at most. -/
structure Low (wd : WidthSetting) (s : RxFormer) : Prop where
  level : s.smplBuff.items.length ≤ smplRdSize wd.code + 3
  reg : s.smplBuff.items.length ≤ s.core.smplBuffRdusedwReg + 1
  waits : s.core.inst0SmplBuffRdy = false → s.core.smplBuffRdusedwReg ≤ smplRdSize wd.code + 1

/-- What the registers say about the level, one and two clocks earlier. -/
theorem low_of_level {n : Nat} (h : (formerAt wd x (n + 2)).smplBuff.items.length ≤
    smplRdSize wd.code + 3) (hmin : (formerAt wd x (n + 1)).core.smplBuffRdusedwMin =
      smplRdSize wd.code) : Low wd (formerAt wd x (n + 2)) := by
  have h1 := length_succ wd x n
  have h2 : (formerAt wd x (n + 2)).smplBuff.items.length + _ ≤ _ :=
    length_succ wd x (n + 1)
  have hb1 := Bool.toNat_le (x n).smplWrreq
  have hb2 := Bool.toNat_le (x (n + 1)).smplWrreq
  have hreg2 : (formerAt wd x (n + 2)).core.smplBuffRdusedwReg =
      (formerAt wd x (n + 1)).smplBuff.items.length := rfl
  have hreg1 : (formerAt wd x (n + 1)).core.smplBuffRdusedwReg =
      (formerAt wd x n).smplBuff.items.length := rfl
  refine ⟨h, by omega, ?_⟩
  intro hrdy
  have hge := of_decide_eq_false (show decide ((formerAt wd x (n + 1)).core.smplBuffRdusedwMin <
    (formerAt wd x (n + 1)).core.smplBuffRdusedwReg) = false from hrdy)
  omega

/-- Where a clock at rest comes from: the clock before was at rest, or a cycle has ended. -/
theorem before_idle {n : Nat} (h : Idle wd (formerAt wd x (n + 3))) :
    (Idle wd (formerAt wd x (n + 2)) ∧ (formerAt wd x (n + 2)).core.inst0SmplBuffRdy = false) ∨
    ∃ u, n + 3 = u + 1 + cycle wd ∧ 2 ≤ u ∧ Idle wd (formerAt wd x u) ∧
      Starts wd (formerAt wd x (u + 1)) := by
  cases located wd x n with
  | idle ts hw hidle =>
    refine .inl ⟨hidle, ?_⟩
    have hnext : (formerAt wd x (n + 2)).core.inst0.next
      (formerAt wd x (n + 2)).core.inst0SmplBuffRdy _ = .idle := h.fsm
    rw [Data2PacketsFsm.next, hidle.fsm] at hnext
    cases hrdy : (formerAt wd x (n + 2)).core.inst0SmplBuffRdy with
    | false => rfl
    | true =>
      rw [hrdy] at hnext
      cases hnext
  | busy u a ts hn hu ha hidle hst hw =>
    refine .inr ⟨u, ?_, hu, hidle, hst⟩
    have hat := onTime (y := fun k => x (u + 1 + k)) hst ha (a + 1) (Nat.le_refl _)
    rw [← formerAt_add, show u + 1 + (a + 1) = n + 3 by omega] at hat
    apply Decidable.of_not_not
    intro hne
    obtain hle | hgt : a + 1 ≤ smplRdSize wd.code ∨ smplRdSize wd.code < a + 1 := by omega
    · cases (hat.rd (Nat.le_add_left 1 a) hle).symm.trans h.fsm
    · cases (hat.wait hgt (by omega)).symm.trans h.fsm

theorem low_at (hx : HalfRate x) (n : Nat) (h : Idle wd (formerAt wd x (n + 2))) :
    Low wd (formerAt wd x (n + 2)) := by
  induction n using Nat.strongRecOn with
  | _ n ih =>
    cases n with
    | zero =>
      have h0 : (formerAt wd x 0).smplBuff.items.length = 0 := rfl
      have h1 : (formerAt wd x 1).smplBuff.items.length + _ ≤ _ := length_succ wd x 0
      have h2 : (formerAt wd x 2).smplBuff.items.length + _ ≤ _ := length_succ wd x 1
      have hb1 := Bool.toNat_le (x 0).smplWrreq
      have hb2 := Bool.toNat_le (x 1).smplWrreq
      have hlevel : (formerAt wd x 2).smplBuff.items.length ≤ smplRdSize wd.code + 3 := by omega
      exact low_of_level hlevel rfl
    | succ n =>
      have hmin : (formerAt wd x (n + 2)).core.smplBuffRdusedwMin = smplRdSize wd.code := rfl
      refine low_of_level ?_ hmin
      rcases before_idle h with ⟨hidle, hrdy⟩ | ⟨u, hu, hu2, hidle, hst⟩
      · have hlow := ih n (Nat.lt_succ_self n) hidle
        have hstep : (formerAt wd x (n + 3)).smplBuff.items.length + _ ≤ _ :=
          length_succ wd x (n + 2)
        have hbit := Bool.toNat_le (x (n + 2)).smplWrreq
        have hreg := hlow.waits hrdy
        have hlevel := hlow.reg
        show (formerAt wd x (n + 3)).smplBuff.items.length ≤ _
        omega
      · obtain ⟨v, rfl⟩ : ∃ v, u = v + 2 := ⟨u - 2, by omega⟩
        have hcyc : 0 < cycle wd := by cases wd <;> decide
        have hlow := ih v (by omega) hidle
        have hstep := length_succ wd x (v + 2)
        have hbit := Bool.toNat_le (x (v + 2)).smplWrreq
        have hrun := length_cycle (hx.from_clock _) hst (Nat.le_refl (cycle wd))
        have hlast := Bool.toNat_le (lastWrite x (v + 2 + 1) (cycle wd))
        have hlevel := hlow.level
        rw [show n + 1 + 2 = v + 2 + 1 + cycle wd from hu]
        have hsize : smplRdSize wd.code + 2 ≤ cycle wd ∧
            (cycle wd + 1) / 2 + 1 ≤ smplRdSize wd.code := by cases wd <;> decide
        omega

/-- The level never comes near the depth of the FIFO. -/
theorem smplBuff_length_lt (hx : HalfRate x) (n : Nat) :
    (formerAt wd x n).smplBuff.items.length < smplBuffWords := by
  have hsize : smplRdSize wd.code + 2 ≤ cycle wd ∧ cycle wd ≤ smplRdSize wd.code + 10 ∧
      smplRdSize wd.code ≤ 680 := by cases wd <;> decide
  show _ < 1024
  match n with
  | 0 => exact Nat.zero_lt_succ _
  | 1 =>
    have h0 : (formerAt wd x 0).smplBuff.items.length = 0 := rfl
    have h1 : (formerAt wd x 1).smplBuff.items.length + _ ≤ _ := length_succ wd x 0
    have hbit := Bool.toNat_le (x 0).smplWrreq
    omega
  | n + 2 =>
    cases located wd x n with
    | idle ts hw hidle =>
      have hlow := (low_at hx n hidle).level
      omega
    | busy u a ts hn hu ha hidle hst hw =>
      obtain ⟨v, rfl⟩ : ∃ v, u = v + 2 := ⟨u - 2, by omega⟩
      have hlow := (low_at hx v hidle).level
      have hstep := length_succ wd x (v + 2)
      have hbit := Bool.toNat_le (x (v + 2)).smplWrreq
      have hrun := length_cycle (hx.from_clock _) hst (Nat.le_of_lt ha)
      have hlast := Bool.toNat_le (lastWrite x (v + 2 + 1) a)
      rw [hn]
      omega

/-! ### From a FIFO that may be full -/

variable (wd x) in
theorem length_le_smplBuffWords (n : Nat) : (formerAt wd x n).smplBuff.items.length ≤ smplBuffWords := by
  induction n with
  | zero => exact Nat.zero_le _
  | succ n ih => exact Fifo.length_step_le ih

/-- What a clock at rest has behind it: a clock at rest with too few words, or a cycle that took more
    than came. -/
theorem length_idle {m n : Nat} (hx : HalfRateFrom x m) (hn : m + cycle wd ≤ n)
    (hidle : Idle wd (formerAt wd x n)) : (formerAt wd x n).smplBuff.items.length ≤ 960 := by
  have hsize : 3 ≤ cycle wd ∧ cycle wd ≤ smplRdSize wd.code + 10 ∧ 144 ≤ smplRdSize wd.code ∧
      smplRdSize wd.code ≤ 680 := by cases wd <;> decide
  obtain ⟨k, rfl⟩ : ∃ k, n = k + 3 := ⟨n - 3, by omega⟩
  rcases before_idle hidle with ⟨-, hrdy⟩ | ⟨u, hu, hu2, -, hst⟩
  · -- the level was at most what a cycle waits for, two clocks earlier
    have h1 : (formerAt wd x (k + 1)).smplBuff.items.length + _ ≤ _ := length_succ wd x k
    have h2 : (formerAt wd x (k + 2)).smplBuff.items.length + _ ≤ _ := length_succ wd x (k + 1)
    have h3 : (formerAt wd x (k + 3)).smplBuff.items.length + _ ≤ _ := length_succ wd x (k + 2)
    have hb1 := Bool.toNat_le (x k).smplWrreq
    have hb2 := Bool.toNat_le (x (k + 1)).smplWrreq
    have hb3 := Bool.toNat_le (x (k + 2)).smplWrreq
    have hge := of_decide_eq_false (show decide ((formerAt wd x (k + 1)).core.smplBuffRdusedwMin <
      (formerAt wd x (k + 1)).core.smplBuffRdusedwReg) = false from hrdy)
    have hmin : (formerAt wd x (k + 1)).core.smplBuffRdusedwMin = smplRdSize wd.code := rfl
    have hreg : (formerAt wd x (k + 1)).core.smplBuffRdusedwReg =
      (formerAt wd x k).smplBuff.items.length := rfl
    omega
  · have hfrom : HalfRateFrom x (u + 1) := fun j hj h => hx j (by omega) h
    have hrun := length_cycle hfrom hst (Nat.le_refl (cycle wd))
    have hlast := Bool.toNat_le (lastWrite x (u + 1) (cycle wd))
    have hfull : (formerAt wd x (u + 1)).smplBuff.items.length ≤ 1024 := length_le_smplBuffWords wd x _
    have hcyc : smplRdSize wd.code + 2 ≤ cycle wd := by cases wd <;> decide
    rw [hu]
    omega

/-- Words at half rate leave room behind two cycles, whatever was in the FIFO before. -/
theorem length_lt_of_settled {m n : Nat} (hx : HalfRateFrom x m) (hn : m + 2 * cycle wd ≤ n) :
    (formerAt wd x n).smplBuff.items.length < smplBuffWords := by
  have hcyc : 3 ≤ cycle wd ∧ smplRdSize wd.code + 2 ≤ cycle wd ∧
      cycle wd ≤ smplRdSize wd.code + 10 := by cases wd <;> decide
  show _ < 1024
  obtain ⟨k, rfl⟩ : ∃ k, n = k + 2 := ⟨n - 2, by omega⟩
  cases located wd x k with
  | idle ts hw hidle =>
    have hlevel := length_idle hx (by omega) hidle
    omega
  | busy u a ts hk hu ha hidle hst hw =>
    have hlevel := length_idle hx (by omega) hidle
    have hstep := length_succ wd x u
    have hbit := Bool.toNat_le (x u).smplWrreq
    have hfrom : HalfRateFrom x (u + 1) := fun j hj h => hx j (by omega) h
    have hrun := length_cycle hfrom hst (Nat.le_of_lt ha)
    have hlast := Bool.toNat_le (lastWrite x (u + 1) a)
    rw [hk]
    omega

end Rx
