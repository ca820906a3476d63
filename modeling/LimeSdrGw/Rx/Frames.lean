import LimeSdrGw.Clocked.Framing
import LimeSdrGw.Rx.Delivery
/-
# Frames without a break

On the interface frame follows frame, and the frame sync says where one begins. Whatever the mode is, the
second of these frames is valid, and with the first valid frame or the one behind it the receiver
begins: from there on it takes the samples of every frame that is wanted, in order.

| here | there |
| --- | --- |
| `RxSetting.brings`         | the frames whose capture processes can fire |
| `RxSetting.collected`      | what has been captured, complete words and the one under way |
| `RxSetting.syncL`, `syncH` | the top bits of `DIQ_l`, `DIQ_h` that suit the mode |
-/
namespace Rx

open Clocked

/-! ## Samples taken -/

namespace RxiqMimoDdr

variable {w : Nat} {r : FrameRule} {e : Enabled} {fidm : Bool} {x : Nat → DiqIn w}

def frameSamples (i : DiqIn w) : List (BitVec w) := [i.dataL, i.dataH]

variable (r e fidm x) in
/-- The samples of the frames captured. -/
def taken (n : Nat) : List (BitVec w) :=
  (pairing r e fidm x n).pairs.flatMap (fun p => frameSamples (x p.1) ++ frameSamples (x p.2)) ++
    (pairing r e fidm x n).first.toList.flatMap fun a => frameSamples (x a)

variable (e fidm) in
/-- The frame is of a channel that is enabled. -/
def wanted (i : DiqIn w) : Bool := e == .both || i.fsyncL == sync fidm e.first

variable (r e fidm x) in
/-- A first frame is captured while none waits. -/
theorem taken_first {n : Nat} (hfc : (stateAt r e fidm x n).firstCap r fidm e (x n) = true)
    (hfree : (pairing r e fidm x n).first = none) :
    taken r e fidm x (n + 1) = taken r e fidm x n ++ frameSamples (x n) := by
  have hstep : pairing r e fidm x (n + 1) = ⟨some n, (pairing r e fidm x n).pairs⟩ := by
    rw [pairing, Pairing.step, if_pos hfc]
  rw [taken, taken, hstep, hfree]
  simp

theorem taken_second {n : Nat} (hsc : (stateAt r e fidm x n).secondCap r fidm e (x n) = true) :
    taken r e fidm x (n + 1) = taken r e fidm x n ++ frameSamples (x n) := by
  have hf : Follows r e fidm x n (pairing r e fidm x n) := follows n
  obtain ⟨a, ha⟩ := Option.isSome_iff_exists.1 (hf.waits ▸ hf.coupled.waits_of_secondCap hsc)
  have hfc : (stateAt r e fidm x n).firstCap r fidm e (x n) = false := by
    rw [Bool.eq_false_iff]
    intro hfc
    rw [Coupled.not_both_caps hfc] at hsc
    cases hsc
  have hstep : pairing r e fidm x (n + 1) =
      ⟨none, (pairing r e fidm x n).pairs ++ [(a, n)]⟩ := by
    rw [pairing, Pairing.step, if_neg (by rw [hfc]; decide), if_pos hsc, ha]
    rfl
  rw [taken, taken, hstep, ha]
  simp

/-- In step every frame of an enabled channel is captured, and no other. -/
theorem taken_succ {n : Nat} (hs : Steady e fidm (stateAt r e fidm x n))
    (hv : (stateAt r e fidm x n).diqValid r (x n) = true) : taken r e fidm x (n + 1) =
      taken r e fidm x n ++ if wanted e fidm (x n) then frameSamples (x n) else [] := by
  have hf : Follows r e fidm x n (pairing r e fidm x n) := follows n
  have hc := hf.coupled
  obtain ⟨c, hk⟩ : ∃ c, (stateAt r e fidm x n).kind r fidm (x n) = some c := kind_of_valid hv
  have free : (stateAt r e fidm x n).waits e = false → (pairing r e fidm x n).first = none := by
    intro hw
    rw [hf.waits] at hw
    simpa using hw
  by_cases he : e = .both
  · subst he
    have hwaits := hs.waits rfl
    rw [show wanted .both fidm (x n) = true from rfl, if_pos rfl]
    cases c with
    | a =>
      rw [(off_of_first (e := .both) hk).1] at hwaits
      refine taken_first r .both fidm x ?_ (free hwaits)
      rw [firstCap_eq, hk]
      exact Bool.or_true _
    | b =>
      rw [(off_of_other (e := .both) hk (by decide)).1] at hwaits
      exact taken_second (hc.secondCap_of_waits hwaits hk)
  · have hsync := (kind_eq_some hk).2.1
    by_cases hcf : c = e.first
    · subst hcf
      rw [wanted, hsync, beq_self_eq_true, Bool.or_true, if_pos rfl]
      rcases hc.captured_of_ne_idle hs.busy hk with hfc | ⟨-, hsc⟩
      · exact taken_first r e fidm x hfc (free (not_waits_of_firstCap hc he hfc))
      · exact taken_second hsc
    · -- of the other channel
      have hother : (x n).fsyncL ≠ sync fidm e.first := bne_iff_ne.1 (off_of_other (e := e) hk hcf).2
      have hwanted : wanted e fidm (x n) = false := by
        rw [wanted, beq_eq_false_iff_ne.2 he, beq_eq_false_iff_ne.2 hother]
        rfl
      have hsc : (stateAt r e fidm x n).secondCap r fidm e (x n) = false := by
        rw [secondCap_eq, hk, ← first_eq_second he]
        simp [hcf]
      have hidle : ((stateAt r e fidm x n).nextState r e.chEn (x n) == CapState.idle) = false :=
        beq_eq_false_iff_ne.2 (hc.next_ne_idle hv)
      have hstep : pairing r e fidm x (n + 1) = pairing r e fidm x n := by
        rw [pairing, Pairing.step, firstCap_other hk hcf, hsc, hidle]
        rfl
      rw [hwanted, if_neg Bool.false_ne_true, List.append_nil, taken, taken, hstep]

theorem Pairing.step_none (n : Nat) (idle : Bool) :
    Pairing.step ⟨none, []⟩ n false false idle = ⟨none, []⟩ := by
  cases idle <;> rfl

/-- Without a valid frame nothing is captured. -/
theorem pairing_quiet {n : Nat} (h : ∀ k < n, (stateAt r e fidm x k).diqValid r (x k) = false) :
    pairing r e fidm x n = ⟨none, []⟩ := by
  induction n with
  | zero => rfl
  | succ n ih =>
    have hk : (stateAt r e fidm x n).kind r fidm (x n) = none := by
      rw [kind, h n (Nat.lt_succ_self n), if_neg Bool.false_ne_true]
    have hfc : (stateAt r e fidm x n).firstCap r fidm e (x n) = false := by
      rw [firstCap_eq, hk]
      rfl
    have hsc : (stateAt r e fidm x n).secondCap r fidm e (x n) = false := by
      rw [secondCap_eq, hk]
      rfl
    rw [pairing, ih fun k hk => h k (Nat.lt_succ_of_lt hk), hfc, hsc, Pairing.step_none]

theorem taken_quiet {n : Nat} (h : ∀ k < n, (stateAt r e fidm x k).diqValid r (x k) = false) :
    taken r e fidm x n = [] := by
  rw [taken, pairing_quiet h]
  rfl

/-- The first valid frame is taken or not. -/
theorem taken_enter {n : Nat} (h : ∀ k < n, (stateAt r e fidm x k).diqValid r (x k) = false) :
    taken r e fidm x (n + 1) = [] ∨ taken r e fidm x (n + 1) =
      if wanted e fidm (x n) then frameSamples (x n) else [] := by
  have hquiet := pairing_quiet h
  have hf : Follows r e fidm x n (pairing r e fidm x n) := follows n
  have hwaits : (stateAt r e fidm x n).waits e = false := by
    rw [hf.waits, hquiet]
    rfl
  cases hfc : (stateAt r e fidm x n).firstCap r fidm e (x n) with
  | true =>
    right
    have hk := hfc
    rw [firstCap_eq, Bool.and_eq_true, beq_iff_eq] at hk
    have hwanted : wanted e fidm (x n) = true := by
      rw [wanted, (kind_eq_some hk.1).2.1, beq_self_eq_true, Bool.or_true]
    rw [taken_first r e fidm x hfc (by rw [hquiet]), taken_quiet h, hwanted]
    rfl
  | false =>
    left
    have hsc : (stateAt r e fidm x n).secondCap r fidm e (x n) = false := by
      rw [Bool.eq_false_iff]
      intro hsc
      rw [hf.coupled.waits_of_secondCap hsc] at hwaits
      cases hwaits
    rw [taken, pairing, hquiet, hfc, hsc, Pairing.step_none]
    rfl

end RxiqMimoDdr

namespace RxiqSisoDdr

variable {w : Nat} {fidm : Bool} {x : Nat → DiqIn w}

theorem all_succ {n : Nat} (h : (stateAt fidm x n).frame fidm (x n) = true) :
    (captured fidm x (n + 1)).all = (captured fidm x n).all ++ [(x n).dataL, (x n).dataH] := by
  rw [captured_succ, collect, if_pos h, Groups.all_put]

theorem captured_quiet {n : Nat} (h : ∀ k < n, (stateAt fidm x k).frame fidm (x k) = false) :
    captured fidm x n = .empty := by
  induction n with
  | zero => rfl
  | succ n ih =>
    rw [captured_succ, collect, if_neg (by rw [h n (Nat.lt_succ_self n)]; decide),
      ih fun k hk => h k (Nat.lt_succ_of_lt hk)]

theorem all_enter {n : Nat} (h : ∀ k < n, (stateAt fidm x k).frame fidm (x k) = false) :
    (captured fidm x (n + 1)).all = [] ∨
      (captured fidm x (n + 1)).all = [(x n).dataL, (x n).dataH] := by
  cases hf : (stateAt fidm x n).frame fidm (x n) with
  | true =>
    right
    rw [all_succ hf, captured_quiet h]
    rfl
  | false =>
    left
    rw [captured_succ, collect, if_neg (by rw [hf]; decide), captured_quiet h]
    rfl

/-- Without two frames of one sync nothing toggles. -/
theorem rest {n : Nat} (h : ∀ k < n, (stateAt fidm x k).diqValid (x k) = false) :
    (stateAt fidm x n).diqPos01CapEn = false := by
  induction n with
  | zero => rfl
  | succ n ih =>
    show (if (stateAt fidm x n).diqValid (x n) then _ else _) = _
    rw [h n (Nat.lt_succ_self n), if_neg Bool.false_ne_true]
    exact ih fun k hk => h k (Nat.lt_succ_of_lt hk)

end RxiqSisoDdr

namespace RxiqSisoSdr

variable {w : Nat} {fidm : Bool} {x : Nat → DiqIn w}

/-- Between two words the next sample begins one, so none is passed over. -/
theorem all_succ {n : Nat} (h : ∀ k < n, (stateAt fidm x k).Whole (x k))
    (hr : Ready fidm (stateAt fidm x n)) (hv : (stateAt fidm x n).sdrDiqValid (x n) = true) :
    (captured fidm x (n + 1)).all = (captured fidm x n).all ++ [(x n).dataL] := by
  have hf : Follows fidm (stateAt fidm x n) (captured fidm x n) (written fidm x n) := follows h
  have hstart : ((captured fidm x n).cur.isEmpty && (x n).fsyncL != fidm) = false := by
    cases hcur : (captured fidm x n).cur with
    | cons a l => rfl
    | nil =>
      have hstage := hf.cur
      rw [hcur] at hstage
      cases hstage with
      | none h1 h2 h3 =>
        have hsync := fsync_of_valid hv
        rw [hr h1 h2 h3, Bool.not_not] at hsync
        rw [hsync]
        exact bne_self_eq_false fidm
  rw [captured_succ, collect, hv, hstart, Bool.not_true, if_neg Bool.false_ne_true,
    if_neg Bool.false_ne_true, Groups.all_put]

theorem captured_quiet {n : Nat} (h : ∀ k < n, (stateAt fidm x k).sdrDiqValid (x k) = false) :
    captured fidm x n = .empty := by
  induction n with
  | zero => rfl
  | succ n ih =>
    rw [captured_succ, collect, h n (Nat.lt_succ_self n), ih fun k hk => h k (Nat.lt_succ_of_lt hk)]
    rfl

theorem all_enter {n : Nat} (h : ∀ k < n, (stateAt fidm x k).sdrDiqValid (x k) = false) :
    (captured fidm x (n + 1)).all = [] ∨ (captured fidm x (n + 1)).all = [(x n).dataL] := by
  rw [captured_succ, captured_quiet h, collect]
  split
  · exact .inl rfl
  · split
    · exact .inl rfl
    · exact .inr (Groups.all_put ..)

end RxiqSisoSdr

/-! ## Every mode -/

namespace RxSetting

variable (st : RxSetting) (d : Nat → DiqIn iqWidth)

/-- The samples of a frame, if its channel is enabled. -/
def brings (i : DiqIn iqWidth) : List (BitVec iqWidth) :=
  if st.mimoEn then
    (if RxiqMimoDdr.wanted st.channels st.fidm i then RxiqMimoDdr.frameSamples i else [])
  else if st.ddrEn then [i.dataL, i.dataH]
  else [i.dataL]

theorem length_brings (i : DiqIn iqWidth) : (st.brings i).length ≤ 2 := by
  unfold brings RxiqMimoDdr.frameSamples
  split
  · split
    · exact Nat.le_refl 2
    · exact Nat.zero_le 2
  · split
    · exact Nat.le_refl 2
    · exact Nat.le_succ 1

/-- The samples captured in the clocks before `n`, in their order. -/
def collected (n : Nat) : List (BitVec iqWidth) :=
  if st.mimoEn then RxiqMimoDdr.taken st.rule st.channels st.fidm d n
  else if st.ddrEn then (RxiqSisoDdr.captured st.fidm d n).all
  else (RxiqSisoSdr.captured st.fidm d n).all

/-- Clock `n` brings a valid frame. -/
def validAt (n : Nat) : Bool := st.receiver.valid (st.receiver.machine.state d n) (d n)

def SteadyAt (n : Nat) : Prop := st.inStep.Steady (st.receiver.machine.state d n)

end RxSetting

section collected

variable {st : RxSetting} {d : Nat → DiqIn iqWidth}

theorem collected_succ (hord : st.Orderly d) {n : Nat} (hs : st.SteadyAt d n)
    (hv : st.validAt d n = true) :
    st.collected d (n + 1) = st.collected d n ++ st.brings (d n) := by
  obtain ⟨pulse, ddr, mimo, fidm, channels⟩ := st
  cases mimo with
  | true =>
    cases channels with
    | chA | chB | both => exact RxiqMimoDdr.taken_succ hs hv
  | false =>
    cases ddr with
    | true => exact RxiqSisoDdr.all_succ hv
    | false =>
      cases channels with
      | chA | chB | both => exact RxiqSisoSdr.all_succ (fun k _ => hord k) hs hv

theorem collected_enter {n : Nat} (h : ∀ k < n, st.validAt d k = false) :
    st.collected d (n + 1) = [] ∨ st.collected d (n + 1) = st.brings (d n) := by
  obtain ⟨pulse, ddr, mimo, fidm, channels⟩ := st
  cases mimo with
  | true => exact RxiqMimoDdr.taken_enter h
  | false =>
    cases ddr with
    | true => exact RxiqSisoDdr.all_enter h
    | false => exact RxiqSisoSdr.all_enter h

theorem collected_quiet {n : Nat} (h : ∀ k < n, st.validAt d k = false) : st.collected d n = [] := by
  obtain ⟨pulse, ddr, mimo, fidm, channels⟩ := st
  cases mimo with
  | true => exact RxiqMimoDdr.taken_quiet h
  | false =>
    cases ddr with
    | true => exact congrArg Groups.all (RxiqSisoDdr.captured_quiet h)
    | false => exact congrArg Groups.all (RxiqSisoSdr.captured_quiet h)

theorem receiver_base (n : Nat) : st.inStep.Base (st.receiver.machine.state d n) := by
  induction n with
  | zero => exact st.inStep.base_init
  | succ n ih => exact st.inStep.base_step _ _ ih

theorem steady_succ {n : Nat} (h : st.validAt d n = true) : st.SteadyAt d (n + 1) :=
  st.inStep.enter _ _ (receiver_base n) h

/-- The receiver begins with the first valid frame or the one behind it. -/
theorem collected_eq (hord : st.Orderly d) {u : Nat} (hquiet : ∀ k < u, st.validAt d k = false)
    (hvalid : ∀ k, u ≤ k → st.validAt d k = true) : ∃ v, u ≤ v ∧ v ≤ u + 1 ∧
      ∀ n, st.collected d n = (slice d v n).flatMap st.brings := by
  obtain ⟨v, huv, hvu, hbegin⟩ : ∃ v, u ≤ v ∧ v ≤ u + 1 ∧
      st.collected d (u + 1) = (slice d v (u + 1)).flatMap st.brings := by
    rcases collected_enter hquiet with hnone | hfirst
    · refine ⟨u + 1, Nat.le_succ u, Nat.le_refl _, ?_⟩
      rw [hnone, slice_of_le d (Nat.le_refl _)]
      rfl
    · refine ⟨u, Nat.le_refl u, Nat.le_succ u, ?_⟩
      rw [hfirst, slice_succ d (Nat.le_refl u), slice_of_le d (Nat.le_refl u), List.nil_append,
        List.flatMap_singleton]
  refine ⟨v, huv, hvu, fun n => ?_⟩
  rcases Nat.le_total n u with hn | hn
  · rw [collected_quiet fun k hk => hquiet k (Nat.lt_of_lt_of_le hk hn),
      slice_of_le d (Nat.le_trans hn huv)]
    rfl
  · induction hn with
    | refl =>
      rw [collected_quiet hquiet, slice_of_le d huv]
      rfl
    | @step n hn ih =>
      obtain rfl | hlt := Nat.eq_or_lt_of_le hn
      · exact hbegin
      · obtain ⟨m, rfl⟩ : ∃ m, n = m + 1 := ⟨n - 1, by omega⟩
        rw [collected_succ hord (steady_succ (hvalid m (Nat.le_of_lt_succ hlt))) (hvalid _ hn), ih,
          slice_succ d (b := m + 1) (by omega), List.flatMap_append, List.flatMap_singleton]

end collected

/-! ## Frame sync -/

namespace RxSetting

variable (st : RxSetting)

/-- The frame sync of frame `k`, in `DIQ_l` and in `DIQ_h`. -/
def syncL (k : Nat) : Bool :=
  if !st.mimoEn && st.ddrEn then st.fidm else if k % 2 == 0 then st.fidm else !st.fidm
def syncH (k : Nat) : Bool :=
  if !st.mimoEn && st.ddrEn then !st.fidm
  else if st.mimoEn && st.trxiqpulse then true
  else st.syncL k

/-- What comes behind `i` is a valid frame. -/
def validBehind (i j : DiqIn iqWidth) : Bool :=
  if st.mimoEn then st.rule.diqValid i.fsyncH i.fsyncL j.fsyncH j.fsyncL
  else if st.ddrEn then
    (i.fsyncH == j.fsyncH) && (j.fsyncH != j.fsyncL) && (i.fsyncL == j.fsyncL) && j.fsyncL == st.fidm
  else i.fsyncL != j.fsyncL

/-- No sync before clock `t`; from there on frame follows frame, the first of them frame `p`. -/
structure Framed (d : Nat → DiqIn iqWidth) (t p : Nat) : Prop where
  idle : ∀ n < t, (d n).fsyncL = false ∧ (d n).fsyncH = false
  syncL : ∀ n, (d (t + n)).fsyncL = st.syncL (p + n)
  syncH : ∀ n, (d (t + n)).fsyncH = st.syncH (p + n)

end RxSetting

/-- What came one clock before; there is no sync in reset. -/
def before (d : Nat → DiqIn iqWidth) : Nat → DiqIn iqWidth
  | 0 => ⟨false, false, 0, 0⟩
  | n + 1 => d n

section framed

variable {st : RxSetting} {d : Nat → DiqIn iqWidth} {t p : Nat}

theorem validAt_eq (n : Nat) : st.validAt d n = st.validBehind (before d n) (d n) := by
  obtain ⟨pulse, ddr, mimo, fidm, channels⟩ := st
  cases mimo <;> cases ddr <;> cases n <;> rfl

theorem RxSetting.Framed.idle_before (h : st.Framed d t p) {n : Nat} (hn : n ≤ t) :
    (before d n).fsyncL = false ∧ (before d n).fsyncH = false := by
  cases n with
  | zero => exact ⟨rfl, rfl⟩
  | succ n => exact h.idle n hn

theorem RxSetting.Framed.quiet (h : st.Framed d t p) {n : Nat} (hn : n < t) :
    st.validAt d n = false := by
  obtain ⟨hl, hh⟩ := h.idle n hn
  obtain ⟨hl', hh'⟩ := h.idle_before (Nat.le_of_lt hn)
  rw [validAt_eq, RxSetting.validBehind, RxSetting.rule, hl, hh, hl', hh']
  cases st.mimoEn <;> cases st.ddrEn <;> cases st.trxiqpulse <;> rfl

theorem even_succ (k : Nat) : ((k + 1) % 2 == 0) = !(k % 2 == 0) := by
  rcases Nat.mod_two_eq_zero_or_one k with h | h
  · rw [h, Nat.add_mod, h]
    rfl
  · rw [h, Nat.add_mod, h]
    rfl

/-- Behind a frame the next one is valid. -/
theorem RxSetting.Framed.valid (h : st.Framed d t p) {n : Nat} (hn : t < n) :
    st.validAt d n = true := by
  obtain ⟨m, rfl⟩ : ∃ m, n = t + m + 1 := ⟨n - t - 1, by omega⟩
  have hl : (d (t + m + 1)).fsyncL = st.syncL (p + m + 1) := h.syncL (m + 1)
  have hh : (d (t + m + 1)).fsyncH = st.syncH (p + m + 1) := h.syncH (m + 1)
  rw [validAt_eq, RxSetting.validBehind, RxSetting.rule, hl, hh, before, h.syncL m, h.syncH m]
  obtain ⟨pulse, ddr, mimo, fidm, channels⟩ := st
  simp only [RxSetting.syncL, RxSetting.syncH, even_succ]
  generalize ((p + m) % 2 == 0) = even
  cases pulse <;> cases ddr <;> cases mimo <;> cases fidm <;> cases even <;> rfl

/-- Up to the first frame nothing toggles. -/
theorem RxSetting.Framed.siso_rest (h : st.Framed d t p) (fidm : Bool) (n : Nat) (hn : n ≤ t) :
    (RxiqSisoDdr.stateAt fidm d n).diqPos01CapEn = false ∧
      (RxiqSisoDdr.stateAt fidm d n).diqValid (d n) = false := by
  have hinvalid : ∀ k, k ≤ t → (RxiqSisoDdr.stateAt fidm d k).diqValid (d k) = false := by
    intro k hk
    have hregs : (RxiqSisoDdr.stateAt fidm d k).regL0 = (before d k).fsyncL ∧
        (RxiqSisoDdr.stateAt fidm d k).regH0 = (before d k).fsyncH := by
      cases k <;> exact ⟨rfl, rfl⟩
    rw [RxiqSisoDdr.diqValid, hregs.1, hregs.2, (h.idle_before hk).1, (h.idle_before hk).2]
    cases (d k).fsyncH <;> cases (d k).fsyncL <;> rfl
  exact ⟨RxiqSisoDdr.rest fun k hk => hinvalid k (Nat.le_trans (Nat.le_of_lt hk) hn), hinvalid n hn⟩

/-- Every word is completed. -/
theorem RxSetting.Framed.orderly (h : st.Framed d t p) : st.Orderly d := by
  have hvalid := @RxSetting.Framed.valid st d t p h
  have hquiet := @RxSetting.Framed.quiet st d t p h
  have hrest := h.siso_rest st.fidm
  obtain ⟨pulse, ddr, mimo, fidm, channels⟩ := st
  cases mimo with
  | true => exact trivial
  | false =>
    cases ddr with
    | true =>
      intro n
      rcases Nat.lt_or_ge t n with hn | hn
      · exact .inl (hvalid hn)
      · exact .inr (hrest n hn)
    | false =>
      intro n hthird
      rcases Nat.lt_or_ge t n with hn | hn
      · exact hvalid hn
      · -- the third sample came with a valid frame
        cases n with
        | zero => cases hthird
        | succ n =>
          have hcap := (RxiqSisoSdr.caps_of_invalid fidm (@hquiet n hn)).2.2.1
          exact absurd (hcap.symm.trans hthird) Bool.false_ne_true

/-- The receiver takes all samples from the first, the second or the third frame on. -/
theorem RxSetting.Framed.collected (h : st.Framed d t p) : ∃ v, t ≤ v ∧ v ≤ t + 2 ∧
    ∀ n, st.collected d n = (slice d v n).flatMap st.brings := by
  cases hfirst : st.validAt d t with
  | true =>
    obtain ⟨v, htv, hvt, hall⟩ := collected_eq h.orderly (u := t) (fun k hk => h.quiet hk) fun k hk => by
      obtain rfl | hlt := Nat.eq_or_lt_of_le hk
      · exact hfirst
      · exact h.valid hlt
    exact ⟨v, htv, Nat.le_succ_of_le hvt, hall⟩
  | false =>
    obtain ⟨v, htv, hvt, hall⟩ := collected_eq h.orderly (u := t + 1) (fun k hk => by
      obtain rfl | hlt := Nat.eq_or_lt_of_le (Nat.le_of_lt_succ hk)
      · exact hfirst
      · exact h.quiet hlt) fun k hk => h.valid hk
    exact ⟨v, Nat.le_of_succ_le htv, hvt, hall⟩

/-! ### What the frames say -/

/-- The frames are those of a stream: frame `k` brings the samples `B k`. -/
structure RxSetting.Shows (st : RxSetting) (d : Nat → DiqIn iqWidth) (B : Nat → List (BitVec iqWidth))
    (t p : Nat) : Prop extends st.Framed d t p where
  brings : ∀ n, st.brings (d (t + n)) = B (p + n)

/-- `k` registers on the way. -/
def delayed (k : Nat) (d : Nat → DiqIn iqWidth) (n : Nat) : DiqIn iqWidth :=
  if n < k then ⟨false, false, 0, 0⟩ else d (n - k)

variable {B : Nat → List (BitVec iqWidth)}

theorem RxSetting.Shows.delay (h : st.Shows d B t p) (k : Nat) : st.Shows (delayed k d) B (k + t) p := by
  have hlater : ∀ n, delayed k d (k + t + n) = d (t + n) := by
    intro n
    rw [delayed, if_neg (by omega), show k + t + n - k = t + n by omega]
  refine ⟨⟨fun n hn => ?_, fun n => ?_, fun n => ?_⟩, fun n => ?_⟩
  · rw [delayed]
    split
    · exact ⟨rfl, rfl⟩
    · exact h.idle (n - k) (by omega)
  · rw [hlater, h.syncL]
  · rw [hlater, h.syncH]
  · rw [hlater, h.brings]

/-- Looked at from clock `k` on. -/
theorem RxSetting.Shows.late (h : st.Shows d B t p) (k : Nat) :
    st.Shows (fun n => d (n + k)) B (t - k) (p + (k - t)) := by
  have hlater : ∀ n, t - k + n + k = t + (k - t + n) := fun n => by omega
  refine ⟨⟨fun n hn => h.idle (n + k) (by omega), fun n => ?_, fun n => ?_⟩, fun n => ?_⟩
  · rw [hlater, h.syncL, Nat.add_assoc]
  · rw [hlater, h.syncH, Nat.add_assoc]
  · rw [hlater, h.brings, Nat.add_assoc]

/-- The samples are those of the stream from one of the first three frames on. -/
theorem RxSetting.Shows.collected_eq_slice (h : st.Shows d B t p) : ∃ q, p ≤ q ∧ q ≤ p + 2 ∧
    ∀ n, st.collected d n = (slice B q (p + (n - t))).flatten := by
  obtain ⟨v, htv, hvt, hall⟩ := h.collected
  refine ⟨p + (v - t), Nat.le_add_right _ _, by omega, fun n => ?_⟩
  rw [hall]
  rcases Nat.le_total n v with hn | hn
  · rw [slice_of_le d hn, slice_of_le B (by omega)]
    rfl
  · induction hn with
    | refl =>
      rw [slice_of_le d (Nat.le_refl v), slice_of_le B (Nat.le_refl _)]
      rfl
    | @step n hn ih =>
      have hvn : v ≤ n := hn
      have hframe := h.brings (n - t)
      rw [show t + (n - t) = n by omega] at hframe
      rw [slice_succ d hvn, List.flatMap_append, List.flatMap_singleton, ih, hframe,
        show p + (n + 1 - t) = p + (n - t) + 1 by omega, slice_succ B (by omega), List.flatten_append,
        List.flatten_singleton]

end framed

/-! ## Frames and packets -/

section packets

variable {st : RxSetting} {d : Nat → DiqIn iqWidth}

/-- Less than one word is under way. -/
theorem collected_groups (hord : st.Orderly d) (n : Nat) : ∃ l, l.length ≤ 3 ∧
    st.collected d n = (st.groups d n).flatten ++ l := by
  obtain ⟨pulse, ddr, mimo, fidm, channels⟩ := st
  cases mimo with
  | true =>
    refine ⟨(RxiqMimoDdr.pairing (RxSetting.rule ⟨pulse, ddr, true, fidm, channels⟩) channels fidm d
      n).first.toList.flatMap fun a => RxiqMimoDdr.frameSamples (d a), ?_, ?_⟩
    · cases (RxiqMimoDdr.pairing _ channels fidm d n).first with
      | none => exact Nat.zero_le 3
      | some a => exact Nat.le_succ 2
    · show RxiqMimoDdr.taken _ _ _ _ _ = (List.map _ _).flatten ++ _
      rw [RxiqMimoDdr.taken, ← List.flatMap_def]
      rfl
  | false =>
    cases ddr with
    | true =>
      have hf := RxiqSisoDdr.follows (n := n) fun k _ => hord k
      refine ⟨_, ?_, rfl⟩
      rw [hf.cur]
      split
      · exact Nat.le_succ 2
      · exact Nat.zero_le 3
    | false =>
      have hf := RxiqSisoSdr.follows (n := n) fun k _ => hord k
      refine ⟨_, ?_, rfl⟩
      generalize hcur : (RxiqSisoSdr.captured fidm d n).cur = l
      have hstage := hf.cur
      rw [hcur] at hstage
      cases hstage with
      | none => exact Nat.zero_le 3
      | one => exact Nat.le_add_left 1 2
      | two => exact Nat.le_succ 2
      | three => exact Nat.le_refl 3

/-- The samples in the packets of the cycles `ts`. -/
def received (sampleWidth : BitVec 2) (y : Nat → FormIn) (ts : List Nat) : List (BitVec 16) :=
  ts.flatMap fun t => unpackWords sampleWidth ((packetAt sampleWidth y t).drop 2)

variable {wd : WidthSetting} {x : Nat → ClockIn} {B : Nat → List (BitVec iqWidth)} {t p : Nat}

/-- The packets are filled with the samples of the frames, from one of the first three frames on, and
    are at most one cycle and eight words behind. -/
theorem packets_of_frames (hwd : wd ≠ .w14) (h : st.Shows (diqAt x) B t p)
    (hld : ∀ n, (x n).ldSmplNrSync = false) : ∃ q, p ≤ q ∧ q ≤ p + 2 ∧ ∀ n, ∃ k, n ≤ k ∧ ∃ ts,
      Whole wd (clocksFormIn wd st x) k ts ∧
      4 * (smplRdSize wd.code * ts.length) ≤ (slice B q (p + (k - t))).flatten.length ∧
      (slice B q (p + (k - t))).flatten.length ≤ 4 * (smplRdSize wd.code * (ts.length + 1) + 8) ∧
      received wd (clocksFormIn wd st x) ts = ((slice B q (p + (k - t))).flatten.take
        (4 * smplRdSize wd.code * ts.length)).map (· ++ 0#4) := by
  obtain ⟨q, hpq, hqp, hall⟩ := h.collected_eq_slice
  refine ⟨q, hpq, hqp, fun n => ?_⟩
  obtain ⟨k, hk, ts, hw, hmin, hmax, hpackets⟩ := packets_of_groups wd hwd h.orderly hld n
  obtain ⟨l, hl, hcol⟩ := collected_groups h.orderly k
  have hfour : ∀ g ∈ st.groups (diqAt x) k, g.length = 4 := groups_length k
  rw [hall k] at hcol
  have hlen := congrArg List.length hcol
  rw [List.length_append, length_flatten hfour] at hlen
  refine ⟨k, hk, ts, hw, by omega, by omega, ?_⟩
  rw [received, List.map_take]
  refine Repeats.flatMap_pieces fun j hj => ?_
  have hmul : smplRdSize wd.code * (j + 1) ≤ smplRdSize wd.code * ts.length := Nat.mul_le_mul_left _ hj
  rw [Nat.mul_succ] at hmul
  have hin : 4 * (smplRdSize wd.code * j) + 4 * smplRdSize wd.code ≤
      (st.groups (diqAt x) k).flatten.length := by
    rw [length_flatten hfour]
    omega
  rw [(hpackets j hj).1, cycleGroups, flatten_take fun g hg => hfour g (List.mem_of_mem_drop hg),
    flatten_drop hfour, hcol, List.map_append, List.map_take, List.map_drop, Nat.mul_assoc,
    List.drop_append_of_le_length (by rw [List.length_map]; omega),
    List.take_append_of_le_length (by rw [List.length_drop, List.length_map]; omega)]

/-- Without a valid frame no packet is begun. -/
theorem no_packet (wd : WidthSetting) (hord : st.Orderly (diqAt x))
    (hquiet : ∀ n, st.validAt (diqAt x) n = false) (n : Nat) :
    (clocksAt wd st x n).timed.former.core.inst0.currentState ≠ .checkPctBuff := by
  rw [clocksFormer_eq]
  intro hcheck
  obtain ⟨w, -, hgiven⟩ := given_groups hord (n + 2)
  obtain ⟨l, -, hcol⟩ := collected_groups hord (n + 2)
  have hnone : (st.groups (diqAt x) (n + 2)).flatten = [] := by
    rw [collected_quiet fun j _ => hquiet j] at hcol
    exact (List.append_eq_nil_iff.1 hcol.symm).1
  have hgroups : (st.groups (diqAt x) (n + 2)).length = 0 := by
    have hlen : (st.groups (diqAt x) (n + 2)).flatten.length =
        4 * (st.groups (diqAt x) (n + 2)).length := length_flatten (groups_length (n + 2))
    rw [hnone, List.length_nil] at hlen
    omega
  rw [List.eq_nil_of_length_eq_zero hgroups, List.map_nil, List.append_eq_nil_iff] at hgiven
  have hall := given_eq wd hord (n + 2)
  rw [hgiven.1, List.map_nil, eq_comm, List.append_eq_nil_iff, List.append_eq_nil_iff] at hall
  exact consumed_of_check hcheck hall.1.1

/-- Nor is anything written. -/
theorem written_of_no_check (wd : WidthSetting) {y : Nat → FormIn}
    (h : ∀ n, (formerAt wd y n).core.inst0.currentState ≠ .checkPctBuff) (n : Nat) :
    (RxFormer.machine wd).log RxFormer.written y n = [] := by
  obtain ⟨k, hk, -, -, ts, hw⟩ := rest_soon wd y n
  have hts : ts = [] := by
    cases ts with
    | nil => rfl
    | cons t ts => exact absurd (hw.checks t List.mem_cons_self) (h t)
  have hgrow : (RxFormer.machine wd).log RxFormer.written y n <+:
      (RxFormer.machine wd).log RxFormer.written y k := Machine.log_grows _ _ _ hk
  rw [hw.written, hts, List.filter_nil, List.flatMap_nil, ite_self] at hgrow
  exact List.prefix_nil.1 hgrow

theorem smplRdSize_pos (wd : WidthSetting) : 0 < smplRdSize wd.code := by cases wd <;> decide

/-- Where the frames bring a stream of samples, the packets are filled with it, but for some samples of
    the first frames. -/
theorem received_stream (hwd : wd ≠ .w14) (h : st.Shows (diqAt x) B t p)
    (hld : ∀ n, (x n).ldSmplNrSync = false) {s : Nat → BitVec iqWidth}
    (hs : ∀ g, (slice B 0 g).flatten = firstWords s (slice B 0 g).flatten.length)
    (hgrow : ∀ m, ∃ g, m ≤ (slice B 0 g).flatten.length) :
    ∃ lost, lost ≤ (slice B 0 (p + 2)).flatten.length ∧ ∀ b, ∃ n ts, b ≤ ts.length ∧
      Whole wd (clocksFormIn wd st x) n ts ∧ received wd (clocksFormIn wd st x) ts =
        (List.range (4 * smplRdSize wd.code * ts.length)).map fun k => s (lost + k) ++ 0#4 := by
  have hmono : ∀ {a b : Nat}, a ≤ b → (slice B 0 a).flatten.length ≤ (slice B 0 b).flatten.length := by
    intro a b hab
    rw [← slice_append B (Nat.zero_le a) hab, List.flatten_append, List.length_append]
    exact Nat.le_add_right _ _
  obtain ⟨q, -, hqp, hall⟩ := packets_of_frames hwd h hld
  refine ⟨(slice B 0 q).flatten.length, hmono hqp, fun b => ?_⟩
  obtain ⟨g, hg⟩ := hgrow ((slice B 0 q).flatten.length + 4 * (smplRdSize wd.code * (b + 1) + 8))
  obtain ⟨n, hn, ts, hw, hmin, hmax, hrec⟩ := hall (t + g)
  have hfar := hmono (show g ≤ p + (n - t) by omega)
  rw [flatten_slice, List.length_drop] at hmin hmax
  have hlen : smplRdSize wd.code * (b + 1) ≤ smplRdSize wd.code * (ts.length + 1) := by omega
  refine ⟨n, ts, Nat.le_of_succ_le_succ (Nat.le_of_mul_le_mul_left hlen (smplRdSize_pos wd)), hw, ?_⟩
  have hroom : (slice B 0 q).flatten.length + 4 * smplRdSize wd.code * ts.length ≤
      (slice B 0 (p + (n - t))).flatten.length := by
    rw [Nat.mul_assoc]
    omega
  rw [hrec, flatten_slice, hs (p + (n - t)), take_drop_firstWords s hroom, List.map_map]
  rfl

end packets

end Rx
