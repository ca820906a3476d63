import LimeSdrGw.Pll.PhaseSearch
import LimeSdrGw.Clocked.Progress
import LimeSdrGw.Rx.SmplCmp
/-
# Whether a phase search comes to an end

A search goes on in `check_max_steps` as long as there is room for one more step, and every round
adds a step to `step_cnt`. With a step of 0 nothing is added: there is always room, and no position
after 2, at which alone a minimum is taken.
-/
namespace Pll

open Clocked

namespace PsFsm

section environment

variable (x : Nat → PsIn) (a : Nat)

/-- `ps_ctrl_en` rises in clock `n + 1`. -/
def shiftEdge (n : Nat) : Bool :=
  (fsmAt x (n + 1)).psCtrlEn (x (n + 1)) && !(fsmAt x n).psCtrlEn (x n)

/-- The phase-shift commands from clock `a` to clock `a + d`. -/
def commands : Nat → Nat
  | 0 => 0
  | d + 1 => commands d + (shiftEdge x (a + d)).toNat

/-- The search that starts in clock `a` has not ended before clock `a + k`. -/
def Open (k : Nat) : Prop := ∀ j, j < k → (fsmAt x (a + j)).currentState ≠ .endSrch

/-- An automatic search that starts in clock `a`; till it ends the mode is held, and where `ps_en`
    rises the step is `s`. -/
structure AutoSearch (s : BitVec 10) : Prop where
  idle : (fsmAt x a).currentState = .idle
  starts : (fsmAt x a).starts (x a) = true
  mode : ∀ k, Open x a k → (x (a + k)).psMode = true
  size : ∀ k, Open x a k → (fsmAt x (a + k)).starts (x (a + k)) = true →
    (x (a + k)).psStepSize = s

/-- What is around the FSM answers it. A PLL under reset loses its lock and finds it again, a
    command is followed by a pulse of `ps_ctrl_busy`, a comparison by `smpl_cmp_done`, which falls
    once the comparator is held in reset. -/
structure Answers : Prop where
  unlocks : ∀ n, a ≤ n → (fsmAt x n).pllResetReqReg = true →
    ∃ m, n ≤ m ∧ (x m).pllLocked = false
  locks : ∀ n, a ≤ n → (fsmAt x n).pllResetReqReg = false →
    ∃ m, n ≤ m ∧ (x m).pllLocked = true
  pulses : ∀ n, a ≤ n → shiftEdge x n = true →
    ∃ b e, n < b ∧ b < e ∧ (x b).psCtrlBusy = true ∧ (x e).psCtrlBusy = false
  dones : ∀ n, a ≤ n → (fsmAt x n).smplCmpEnReg = false → (fsmAt x (n + 1)).smplCmpEnReg = true →
    ∃ m, n < m ∧ (x m).smplCmpDone = true
  clears : ∀ n, a ≤ n → (fsmAt x n).smplCmpEnReg = false →
    ∃ m, n ≤ m ∧ (x m).smplCmpDone = false

/-- The comparator is `smpl_cmp`: it hears `smpl_cmp_en` some clocks later, and its `cmp_done` is seen
    some clocks later again. -/
structure Compared (cmpLength : BitVec 16) (y : Nat → Rx.CmpIn) (hear see : Nat) : Prop where
  start : ∀ n, (y (n + hear)).cmpStart = (fsmAt x n).smplCmpEnReg
  done : ∀ n, (x (n + see)).smplCmpDone = (Rx.SmplCmp.cmpAt cmpLength y n).cmpDone (y n)

/-- `smpl_cmp` takes `cmp_done` back as `Answers` asks. -/
theorem Compared.clears {cmpLength : BitVec 16} {y : Nat → Rx.CmpIn} {hear see : Nat}
    (h : Compared x cmpLength y hear see) {n : Nat} (hn : (fsmAt x n).smplCmpEnReg = false) :
    ∃ m, n ≤ m ∧ (x m).smplCmpDone = false := by
  refine ⟨n + hear + see, by omega, ?_⟩
  rw [h.done, Rx.SmplCmp.cmpDone, h.start, hn, Bool.false_and]

/-- The search reaches `end_srch`, with as many commands as there are steps below 1023 and the one
    that shifts back. -/
def Ends (s : BitVec 10) : Prop :=
  ∃ d, (fsmAt x (a + d)).currentState = .endSrch ∧ Open x a d ∧
    commands x a d ≤ 1022 / s.toNat + 1

end environment

section measure

/-- Whether a state in which the FSM waits for something outside is left. -/
def released (st : PsFsm) (i : PsIn) : Bool :=
  match st.currentState with
  | .rstPll => !i.pllLocked
  | .waitPllLock => i.pllLocked
  | .checkCmpStatus => !i.smplCmpDone
  | .cmpSmpls => i.smplCmpDone
  | .phShift => !i.psCtrlBusy && st.psCtrlBusyReg
  | _ => true

/-- How far a round has to go. -/
def place : PsState → Nat
  | .idle => 0
  | .endSrch => 0
  | .prepPhase => 1
  | .checkMaxSteps => 2
  | .minFound => 3
  | .maxFound => 3
  | .cmpSmpls => 4
  | .checkCmpStatus => 5
  | .waitAfterPhShift => 6
  | .phShift => 7
  | .waitPllLock => 8
  | .rstPll => 9

/-- The commands a search may still give. -/
def shiftsLeft (s : Nat) (st : PsFsm) : Nat :=
  if st.currentState = .endSrch then 0
  else if st.currentState = .prepPhase then 1
  else if st.findMax then (1022 - st.stepCnt) / s + 1
  else 0

/-- The clocks a counter of its own keeps the FSM in a state. -/
def slack (st : PsFsm) : Nat :=
  if st.currentState = .waitAfterPhShift then 255 - st.waitAfterPhShiftCnt
  else if st.currentState = .prepPhase then 15 - st.prepPhaseCnt
  else 0

def distance (s : Nat) (st : PsFsm) : Nat :=
  256 * (16 * shiftsLeft s st + place st.currentState) + slack st

/-- What is so from the start of a search to its end. -/
structure Going (s : Nat) (st : PsFsm) : Prop where
  busy : st.currentState ≠ .idle
  step : st.psStepSizeReg = s
  limit : st.currentState ≠ .rstPll → st.currentState ≠ .waitPllLock → st.stepCntMaxReg = 1023 - s
  order : st.findMin = true → st.findMax = true
  seeking : st.currentState = .minFound ∨ st.currentState = .maxFound ∨
    st.currentState = .checkMaxSteps → st.findMax = true
  turned : st.currentState = .maxFound ∨ st.currentState = .prepPhase → st.findMin = false
  begun : st.currentState = .rstPll ∨ st.currentState = .waitPllLock → st.findMin = true

variable {s : Nat} {st : PsFsm} {i : PsIn}

theorem findMin_step (h : st.currentState ≠ .idle) : (st.step i).findMin =
    if st.currentState = .minFound then false else st.findMin := if_neg h

theorem findMax_step (h : st.currentState ≠ .idle) : (st.step i).findMax =
    if st.currentState = .maxFound ∨ st.currentState = .prepPhase then false else st.findMax :=
  if_neg h

theorem Going.step_going (h : Going s st) (hlt : s < 1024)
    (hs : st.starts i = true → i.psStepSize.toNat = s) (hend : st.currentState ≠ .endSrch) :
    Going s (st.step i) := by
  obtain ⟨busy, step, limit, order, seeking, turned, begun⟩ := h
  have hmin := findMin_step (i := i) busy
  have hmax := findMax_step (i := i) busy
  have hlim : (st.step i).stepCntMaxReg = 1023 - s := by
    show sub10 1023 st.psStepSizeReg = 1023 - s
    rw [step]
    exact sub10_of_le (by omega) (by omega)
  have hstep : (st.step i).psStepSizeReg = s := by
    show (if st.starts i then i.psStepSize.toNat else st.psStepSizeReg) = s
    split
    · exact hs ‹_›
    · exact step
  have hnext : (st.step i).currentState = st.next i := rfl
  refine ⟨?_, hstep, fun _ _ => hlim, ?_, ?_, ?_, ?_⟩
  · rw [hnext, next]
    grind
  · rw [hmin, hmax]
    grind
  · rw [hnext, hmax, next]
    grind
  · rw [hnext, hmin, next]
    grind
  · rw [hnext, hmin, next]
    grind

/-- What a clock does: it goes on within a round, gives a command, or counts in a state. -/
inductive Moves (s : Nat) (st st' : PsFsm) : Prop
  | on : ¬ (st.currentState ≠ .phShift ∧ st'.currentState = .phShift) →
      place st'.currentState < place st.currentState → shiftsLeft s st' ≤ shiftsLeft s st →
      Moves s st st'
  | command : st.currentState ≠ .phShift → st'.currentState = .phShift →
      shiftsLeft s st' < shiftsLeft s st → Moves s st st'
  | count : st'.currentState = st.currentState → shiftsLeft s st' = shiftsLeft s st →
      slack st' < slack st → Moves s st st'

theorem shiftsLeft_kept {st' : PsFsm} (hmax : st'.findMax = st.findMax)
    (hc : st'.stepCnt = st.stepCnt) (h : st.currentState ≠ .endSrch ∧ st.currentState ≠ .prepPhase)
    (h' : st'.currentState ≠ .endSrch ∧ st'.currentState ≠ .prepPhase) :
    shiftsLeft s st' = shiftsLeft s st := by
  rw [shiftsLeft, shiftsLeft, if_neg h.1, if_neg h.2, if_neg h'.1, if_neg h'.2, hmax, hc]

theorem shiftsLeft_endSrch (h : st.currentState = .endSrch) : shiftsLeft s st = 0 := if_pos h

theorem shiftsLeft_prepPhase (h : st.currentState = .prepPhase) : shiftsLeft s st = 1 := by
  simp [shiftsLeft, h]

theorem shiftsLeft_pos (hmax : st.findMax = true) (h : st.currentState ≠ .endSrch) :
    1 ≤ shiftsLeft s st := by
  rw [shiftsLeft, if_neg h]
  split
  · exact Nat.le_refl 1
  · exact Nat.le_add_left 1 _

/-- One more step below the limit is one fewer to come. -/
theorem shiftsLeft_succ {st' : PsFsm} (hs : 0 < s) (hmax : st.findMax = true)
    (h : st.currentState = .checkMaxSteps) (h' : st'.currentState = .phShift)
    (hc : st'.stepCnt = st.stepCnt + s) (hlt : st.stepCnt + s ≤ 1022) :
    shiftsLeft s st' < shiftsLeft s st := by
  have e : shiftsLeft s st = (1022 - st.stepCnt) / s + 1 := by simp [shiftsLeft, h, hmax]
  have e' : shiftsLeft s st' ≤ (1022 - (st.stepCnt + s)) / s + 1 := by
    rw [shiftsLeft, hc, h', if_neg nofun, if_neg nofun]
    split
    · exact Nat.le_refl _
    · exact Nat.zero_le _
  have hdiv : (1022 - st.stepCnt) / s = (1022 - (st.stepCnt + s)) / s + 1 := by
    rw [show 1022 - st.stepCnt = 1022 - (st.stepCnt + s) + s by omega]
    exact Nat.add_div_right _ hs
  omega

/-- In the states in which it waits the FSM goes on once it is released. -/
theorem moves_released (h : Going s st) (hr : released st i = true)
    (hs : st.currentState = .rstPll ∨ st.currentState = .waitPllLock ∨
      st.currentState = .checkCmpStatus ∨ st.currentState = .cmpSmpls ∨
      st.currentState = .phShift) : Moves s st (st.step i) := by
  have hkept := @kept st i (by grind)
  have hbegun := h.begun
  have hplain (hn : place (st.step i).currentState < place st.currentState)
      (hn' : (st.step i).currentState ≠ .phShift) (hn'' : (st.step i).currentState ≠ .prepPhase) :
      Moves s st (st.step i) := by
    refine .on (fun hp => hn' hp.2) hn ?_
    by_cases hend : (st.step i).currentState = .endSrch
    · rw [shiftsLeft_endSrch hend]
      exact Nat.zero_le _
    · exact Nat.le_of_eq (shiftsLeft_kept hkept.2.1 hkept.2.2.2.2.2.2 (by grind) ⟨hend, hn''⟩)
  rcases hs with hs | hs | hs | hs | hs
  · have hn : (st.step i).currentState = .waitPllLock := by
      rw [next_eq, next, hs]
      simp [released, hs] at hr
      simp [hr]
    exact hplain (by rw [hn, hs]; decide) (by rw [hn]; decide) (by rw [hn]; decide)
  · have hn : (st.step i).currentState = .checkCmpStatus := by
      rw [next_eq, next, hs]
      simp [released, hs] at hr
      simp [hr, hbegun (.inr hs)]
    exact hplain (by rw [hn, hs]; decide) (by rw [hn]; decide) (by rw [hn]; decide)
  · have hn : (st.step i).currentState = .cmpSmpls := by
      rw [next_eq, next, hs]
      simp [released, hs] at hr
      simp [hr]
    exact hplain (by rw [hn, hs]; decide) (by rw [hn]; decide) (by rw [hn]; decide)
  · have hn : (st.step i).currentState = .minFound ∨ (st.step i).currentState = .checkMaxSteps ∨
        (st.step i).currentState = .maxFound ∨ (st.step i).currentState = .endSrch := by
      simp [released, hs] at hr
      rw [next_of_cmp hs, hr]
      grind
    rw [hs] at hplain
    rcases hn with hn | hn | hn | hn <;> rw [hn] at hplain <;> exact hplain (by decide) (by decide) (by decide)
  · have hn : (st.step i).currentState = .waitAfterPhShift := by
      rw [next_eq, next, hs]
      simp [released, hs] at hr
      simp [hr]
    exact hplain (by rw [hn, hs]; decide) (by rw [hn]; decide) (by rw [hn]; decide)

theorem moves (h : Going s st) (hpos : 0 < s) (hr : released st i = true)
    (hend : st.currentState ≠ .endSrch) : Moves s st (st.step i) := by
  have hmax := findMax_step (i := i) h.busy
  cases hs : st.currentState with
  | idle => exact absurd hs h.busy
  | rstPll => exact moves_released h hr (by simp [hs])
  | waitPllLock => exact moves_released h hr (by simp [hs])
  | checkCmpStatus => exact moves_released h hr (by simp [hs])
  | cmpSmpls => exact moves_released h hr (by simp [hs])
  | phShift => exact moves_released h hr (by simp [hs])
  | minFound =>
    have hn : (st.step i).currentState = .checkMaxSteps := by rw [next_eq, next, hs]
    rw [hs, if_neg (by simp)] at hmax
    have hc : (st.step i).stepCnt = st.stepCnt := by simp [step, hs]
    refine .on (by simp [hn]) (by rw [hn, hs]; decide) ?_
    exact Nat.le_of_eq (shiftsLeft_kept hmax hc (by simp [hs]) (by simp [hn]))
  | maxFound =>
    have hn : (st.step i).currentState = .prepPhase := by rw [next_eq, next, hs]
    refine .on (by simp [hn]) (by rw [hn, hs]; decide) ?_
    rw [shiftsLeft_prepPhase hn]
    exact shiftsLeft_pos (h.seeking (.inr (.inl hs))) (by simp [hs])
  | checkMaxSteps =>
    have hn := next_of_check (i := i) hs
    have hm := h.seeking (.inr (.inr hs))
    rw [h.limit (by simp [hs]) (by simp [hs])] at hn
    by_cases hroom : st.stepCnt < 1023 - s
    · rw [if_pos hroom] at hn
      have hc : (st.step i).stepCnt = st.stepCnt + s := by
        have e : (st.step i).stepCnt = (st.stepCnt + st.psStepSizeReg) % 1024 := by simp [step, hs]
        rw [e, h.step, Nat.mod_eq_of_lt (by omega)]
      exact .command (by simp [hs]) hn (shiftsLeft_succ hpos hm hs hn hc (by omega))
    · rw [if_neg hroom] at hn
      have hpos := shiftsLeft_pos (s := s) hm (by simp [hs])
      split at hn
      · exact .on (by simp [hn]) (by rw [hn, hs]; decide)
          (by rw [shiftsLeft_endSrch hn]; exact Nat.zero_le _)
      · exact .on (by simp [hn]) (by rw [hn, hs]; decide) (by rw [shiftsLeft_prepPhase hn]; exact hpos)
  | waitAfterPhShift =>
    have hn : (st.step i).currentState =
        if 0xFD < st.waitAfterPhShiftCnt then .checkCmpStatus else .waitAfterPhShift := by
      rw [next_eq, next, hs]
    rw [hs, if_neg (by simp)] at hmax
    have hc : (st.step i).stepCnt = st.stepCnt := by simp [step, hs]
    have hcnt : (st.step i).waitAfterPhShiftCnt = (st.waitAfterPhShiftCnt + 1) % 256 := by
      simp [step, hs]
    split at hn
    · refine .on (by simp [hn]) (by rw [hn, hs]; decide) ?_
      exact Nat.le_of_eq (shiftsLeft_kept hmax hc (by simp [hs]) (by simp [hn]))
    · refine .count (by rw [hn, hs]) (shiftsLeft_kept hmax hc (by simp [hs]) (by simp [hn])) ?_
      rw [slack, slack, if_pos hn, if_pos hs, hcnt]
      omega
  | prepPhase =>
    have hn : (st.step i).currentState = if 2 < st.prepPhaseCnt then .phShift else .prepPhase := by
      rw [next_eq, next, hs]
    rw [hs, if_pos (by simp)] at hmax
    have hcnt : (st.step i).prepPhaseCnt = (st.prepPhaseCnt + 1) % 16 := by simp [step, hs]
    split at hn
    · refine .command (by simp [hs]) hn ?_
      rw [shiftsLeft_prepPhase hs, shiftsLeft, hn, hmax]
      simp
    · refine .count (by rw [hn, hs]) (by rw [shiftsLeft_prepPhase hn, shiftsLeft_prepPhase hs]) ?_
      simp only [slack, hn, hs, hcnt]
      simp
      omega
  | endSrch => exact absurd hs hend

/-- Nothing but inputs and outputs moves until the FSM is released. -/
theorem stays (hr : released st i = false) : (st.step i).currentState = st.currentState ∧
    shiftsLeft s (st.step i) = shiftsLeft s st ∧ distance s (st.step i) = distance s st := by
  have hs : st.currentState = .rstPll ∨ st.currentState = .waitPllLock ∨
      st.currentState = .checkCmpStatus ∨ st.currentState = .cmpSmpls ∨
      st.currentState = .phShift := by
    unfold released at hr
    split at hr <;> simp_all
  have hkept := @kept st i (by grind)
  have hn : (st.step i).currentState = st.currentState := by
    rw [next_eq, next]
    unfold released at hr
    split at hr <;> simp_all
  have hl : shiftsLeft s (st.step i) = shiftsLeft s st :=
    shiftsLeft_kept hkept.2.1 hkept.2.2.2.2.2.2 (by grind) (by grind)
  have hslack : slack (st.step i) = slack st := by
    unfold slack
    grind
  refine ⟨hn, hl, ?_⟩
  rw [distance, distance, hn, hl, hslack]

/-- In `ph_shift`, the command still to come. -/
def pending (st : PsFsm) : Bool := decide (st.currentState = .phShift) && !st.psCtrlEnReg

/-- A command comes out of the room left for it. -/
theorem left_step (h : Going s st) (hpos : 0 < s) (hend : st.currentState ≠ .endSrch) :
    shiftsLeft s (st.step i) + (pending (st.step i)).toNat ≤ shiftsLeft s st := by
  have hen : (st.step i).psCtrlEnReg = decide (st.currentState = .phShift) := rfl
  have hnone (hn : ¬ (st.currentState ≠ .phShift ∧ (st.step i).currentState = .phShift)) :
      pending (st.step i) = false := by
    rw [pending, hen]
    grind
  cases hr : released st i with
  | false =>
    obtain ⟨hs, hl, -⟩ := stays (s := s) hr
    rw [hl, hnone fun hn => hn.1 (hs.symm.trans hn.2)]
    exact Nat.le_refl _
  | true =>
    cases moves h hpos hr hend with
    | on hn hp hl =>
      rw [hnone hn]
      exact hl
    | command hne hs hl =>
      have hle := Bool.toNat_le (pending (st.step i))
      omega
    | count hs hl hc =>
      rw [hl, hnone fun hn => hn.1 (hs.symm.trans hn.2)]
      exact Nat.le_refl _

theorem Moves.distance_lt {st' : PsFsm} (h : Moves s st st') : distance s st' < distance s st := by
  have hslack : ∀ st : PsFsm, slack st ≤ 255 := by
    intro st
    unfold slack
    split
    · omega
    · split <;> omega
  have hplace : ∀ c, place c ≤ 9 := by
    intro c
    cases c <;> decide
  have h1 := hslack st
  have h2 := hslack st'
  unfold distance
  cases h with
  | on _ hp hl => omega
  | command hne hs hl =>
    have h3 := hplace st'.currentState
    omega
  | count hs hl hc =>
    rw [hs, hl]
    omega

end measure

section runs

variable {x : Nat → PsIn} {a : Nat} {s : BitVec 10}

theorem Open.mono {k j : Nat} (h : Open x a k) (hj : j ≤ k) : Open x a j :=
  fun i hi => h i (Nat.lt_of_lt_of_le hi hj)

theorem AutoSearch.shiftEdge_eq (S : AutoSearch x a s) {k : Nat} (hk : Open x a (k + 1)) :
    shiftEdge x (a + k) = pending (fsmAt x (a + k)) := by
  have h0 := S.mode k (hk.mono (Nat.le_succ k))
  have h1 : (x (a + k + 1)).psMode = true := S.mode (k + 1) hk
  have hen : (fsmAt x (a + k + 1)).psCtrlEnReg =
      decide ((fsmAt x (a + k)).currentState = .phShift) := rfl
  rw [shiftEdge, psCtrlEn, psCtrlEn, if_pos h0, if_pos h1, hen]
  rfl

theorem AutoSearch.open_one (S : AutoSearch x a s) : Open x a 1 := by
  intro j hj
  obtain rfl : j = 0 := by omega
  rw [Nat.add_zero, S.idle]
  exact nofun

theorem AutoSearch.going_next (S : AutoSearch x a s) {k : Nat} (hk : Open x a (k + 1))
    (h : Going s.toNat (fsmAt x (a + k))) : Going s.toNat (fsmAt x (a + (k + 1))) := by
  refine h.step_going s.isLt (fun hst => ?_) (hk k (Nat.lt_succ_self k))
  exact congrArg BitVec.toNat (S.size k (hk.mono (Nat.le_succ k)) hst)

theorem AutoSearch.going_start (S : AutoSearch x a s) : Going s.toNat (fsmAt x (a + 1)) ∧
    (fsmAt x (a + 1)).currentState ≠ .endSrch ∧ (fsmAt x (a + 1)).currentState ≠ .phShift ∧
    (fsmAt x (a + 1)).currentState ≠ .cmpSmpls ∧ (fsmAt x (a + 1)).stepCnt = 0 := by
  have hnone : Open x a 0 := fun j hj => absurd hj (Nat.not_lt_zero j)
  have hst := S.starts
  have hmode : (x a).psMode = true := S.mode 0 hnone
  have hsize : (x a).psStepSize = s := S.size 0 hnone hst
  have hidle := S.idle
  have e : fsmAt x (a + 1) = (fsmAt x a).step (x a) := rfl
  have hn : (fsmAt x (a + 1)).currentState = .rstPll ∨
      (fsmAt x (a + 1)).currentState = .waitPllLock := next_of_start hidle hst hmode
  have hmin : (fsmAt x (a + 1)).findMin = true := by simp [e, step, hidle]
  have hmax : (fsmAt x (a + 1)).findMax = true := by simp [e, step, hidle]
  have hstep : (fsmAt x (a + 1)).psStepSizeReg = s.toNat := by simp [e, step, hst, hsize]
  have hcnt : (fsmAt x (a + 1)).stepCnt = 0 := by simp [e, step, hidle]
  refine ⟨⟨?_, hstep, ?_, fun _ => hmax, ?_, ?_, fun _ => hmin⟩, ?_, ?_, ?_, hcnt⟩
  all_goals grind

/-- Until its end a search goes on. -/
theorem AutoSearch.going_at (S : AutoSearch x a s) {k : Nat} (hk : Open x a (k + 1)) :
    Going s.toNat (fsmAt x (a + (k + 1))) := by
  induction k with
  | zero => exact S.going_start.1
  | succ k ih => exact S.going_next hk (ih (hk.mono (Nat.le_succ (k + 1))))

/-- Commands given, about to be given and still to come. -/
theorem AutoSearch.commands_le (S : AutoSearch x a s) (hpos : 0 < s.toNat) {k : Nat}
    (hk : Open x a (k + 1)) :
    commands x a (k + 1) + (pending (fsmAt x (a + (k + 1)))).toNat +
      shiftsLeft s.toNat (fsmAt x (a + (k + 1))) ≤ 1022 / s.toNat + 1 := by
  induction k with
  | zero =>
    obtain ⟨-, hend, hsh, -, hcnt⟩ := S.going_start
    have hnone : commands x a 1 = 0 := by
      rw [commands, commands, S.shiftEdge_eq hk, pending, Nat.add_zero, S.idle]
      rfl
    have hpend : pending (fsmAt x (a + 1)) = false := by simp [pending, hsh]
    have hleft : shiftsLeft s.toNat (fsmAt x (a + 1)) ≤ 1022 / s.toNat + 1 := by
      rw [shiftsLeft, if_neg hend, hcnt]
      split
      · exact Nat.le_add_left 1 _
      · split
        · exact Nat.le_refl _
        · exact Nat.zero_le _
    rw [hnone, hpend]
    simpa using hleft
  | succ k ih =>
    have hopen := hk.mono (Nat.le_succ (k + 1))
    have hbefore := ih hopen
    have hstep := left_step (i := x (a + (k + 1))) (S.going_at hopen) hpos
      (hk (k + 1) (Nat.lt_succ_self (k + 1)))
    have hc : commands x a (k + 1 + 1) =
        commands x a (k + 1) + (pending (fsmAt x (a + (k + 1)))).toNat := by
      rw [commands, S.shiftEdge_eq hk]
    have hnext : fsmAt x (a + (k + 1 + 1)) = (fsmAt x (a + (k + 1))).step (x (a + (k + 1))) := rfl
    rw [hc, hnext]
    omega

/-- A search on its way that has just come to its state, so that what it asks for there is new. -/
structure Arrived (x : Nat → PsIn) (a s k : Nat) : Prop where
  going : Going s (fsmAt x (a + k))
  running : Open x a (k + 1)
  shift : (fsmAt x (a + k)).currentState = .phShift → (fsmAt x (a + k)).psCtrlEnReg = false
  compare : (fsmAt x (a + k)).currentState = .cmpSmpls ∨
    (fsmAt x (a + k)).currentState = .checkCmpStatus → (fsmAt x (a + k)).smplCmpEnReg = false

theorem Moves.arrives {s : Nat} {st : PsFsm} {i : PsIn} (h : Moves s st (st.step i)) :
    ((st.step i).currentState = .phShift → (st.step i).psCtrlEnReg = false) ∧
    ((st.step i).currentState = .cmpSmpls ∨ (st.step i).currentState = .checkCmpStatus →
      (st.step i).smplCmpEnReg = false) := by
  have hen : (st.step i).psCtrlEnReg = decide (st.currentState = .phShift) := rfl
  have hcmp : (st.step i).smplCmpEnReg = decide (st.currentState = .cmpSmpls) := rfl
  rw [hen, hcmp, decide_eq_false_iff_not, decide_eq_false_iff_not]
  cases h with
  | on hn hp hl =>
    constructor
    · intro hs hs'
      rw [hs, hs'] at hp
      exact absurd hp (Nat.lt_irrefl 7)
    · rintro (hs | hs) hs' <;> rw [hs, hs'] at hp <;> exact absurd hp (by decide)
  | command hne hs hl => exact ⟨fun _ => hne, fun hs' => by simp [hs] at hs'⟩
  | count hs hl hc =>
    have hcounts : st.currentState = .waitAfterPhShift ∨ st.currentState = .prepPhase := by
      unfold slack at hc
      grind
    constructor
    · intro _
      rcases hcounts with h | h <;> simp [h]
    · intro _
      rcases hcounts with h | h <;> simp [h]

theorem Open.succ {k : Nat} (h : Open x a k) (hs : (fsmAt x (a + k)).currentState ≠ .endSrch) :
    Open x a (k + 1) := by
  intro j hj
  rcases Nat.lt_or_eq_of_le (Nat.le_of_lt_succ hj) with hlt | rfl
  · exact h j hlt
  · exact hs

/-- What the FSM waits for comes in clock `k`, if it still waits then. -/
theorem AutoSearch.leaves (S : AutoSearch x a s) (hpos : 0 < s.toNat) {n k : Nat}
    (A : Arrived x a s.toNat n) (hk : n ≤ k)
    (hr : (fsmAt x (a + k)).currentState = (fsmAt x (a + n)).currentState →
      released (fsmAt x (a + k)) (x (a + k)) = true) :
    ∃ m, n ≤ m ∧ ((fsmAt x (a + m)).currentState = .endSrch ∨ Arrived x a s.toNat m ∧
      distance s.toNat (fsmAt x (a + m)) < distance s.toNat (fsmAt x (a + n))) := by
  have hrun := A.running n (Nat.lt_succ_self n)
  have hleave : ∀ m, Going s.toNat (fsmAt x (a + m)) → Open x a (m + 1) →
      distance s.toNat (fsmAt x (a + m)) = distance s.toNat (fsmAt x (a + n)) →
      released (fsmAt x (a + m)) (x (a + m)) = true →
      (fsmAt x (a + (m + 1))).currentState = .endSrch ∨ Arrived x a s.toNat (m + 1) ∧
        distance s.toNat (fsmAt x (a + (m + 1))) < distance s.toNat (fsmAt x (a + n)) := by
    intro m hgoing hopen hd hrel
    have hmoves := moves hgoing hpos hrel (hopen m (Nat.lt_succ_self m))
    by_cases hend : (fsmAt x (a + (m + 1))).currentState = .endSrch
    · exact .inl hend
    · have hlt : distance s.toNat (fsmAt x (a + (m + 1))) < distance s.toNat (fsmAt x (a + m)) :=
        hmoves.distance_lt
      exact .inr ⟨⟨S.going_next hopen hgoing, hopen.succ hend, hmoves.arrives.1,
        hmoves.arrives.2⟩, Nat.lt_of_lt_of_eq hlt hd⟩
  refine LeadsTo.ends (P := fun m => Going s.toNat (fsmAt x (a + m)) ∧ Open x a (m + 1) ∧
      (fsmAt x (a + m)).currentState = (fsmAt x (a + n)).currentState ∧
      distance s.toNat (fsmAt x (a + m)) = distance s.toNat (fsmAt x (a + n)))
    (H := fun m => (fsmAt x (a + m)).currentState = (fsmAt x (a + n)).currentState →
      released (fsmAt x (a + m)) (x (a + m)) = true) ?_ ?_ ⟨A.going, A.running, rfl, rfl⟩ hk hr
  · rintro m ⟨hgoing, hopen, hs, hd⟩
    cases hrel : released (fsmAt x (a + m)) (x (a + m)) with
    | true => exact .inr (hleave m hgoing hopen hd hrel)
    | false =>
      obtain ⟨hs', -, hd'⟩ := stays (s := s.toNat) hrel
      have hstate : (fsmAt x (a + (m + 1))).currentState = (fsmAt x (a + n)).currentState :=
        hs'.trans hs
      refine .inl ⟨S.going_next hopen hgoing, hopen.succ ?_, hstate, hd'.trans hd⟩
      rw [hstate]
      exact hrun
  · rintro m ⟨hgoing, hopen, hs, hd⟩ hrel
    exact ⟨m + 1, Nat.le_succ m, hleave m hgoing hopen hd (hrel hs)⟩

/-- Wherever a search is, the answer it waits for comes. -/
theorem Answers.release (h : Answers x a) (S : AutoSearch x a s) {n : Nat}
    (A : Arrived x a s.toNat n) : ∃ k, n ≤ k ∧
      ((fsmAt x (a + k)).currentState = (fsmAt x (a + n)).currentState →
        released (fsmAt x (a + k)) (x (a + k)) = true) := by
  have hn := Nat.le_add_right a n
  have hrst : (fsmAt x (a + n + 1)).pllResetReqReg =
      decide ((fsmAt x (a + n)).currentState = .rstPll) := rfl
  have hcmp : (fsmAt x (a + n + 1)).smplCmpEnReg =
      decide ((fsmAt x (a + n)).currentState = .cmpSmpls) := rfl
  -- an answer in any clock from `a + n` on will do
  have hclock : ∀ m, a + n ≤ m → (∀ st : PsFsm,
      st.currentState = (fsmAt x (a + n)).currentState → (∀ k, m = k + 1 →
        st.psCtrlBusyReg = (x k).psCtrlBusy) → released st (x m) = true) →
      ∃ k, n ≤ k ∧ ((fsmAt x (a + k)).currentState = (fsmAt x (a + n)).currentState →
        released (fsmAt x (a + k)) (x (a + k)) = true) := by
    intro m hm hrel
    obtain ⟨k, rfl⟩ := Nat.exists_eq_add_of_le (Nat.le_trans hn hm)
    refine ⟨k, by omega, fun hs => hrel _ hs ?_⟩
    intro j hj
    rw [hj]
    rfl
  cases hs : (fsmAt x (a + n)).currentState with
  | rstPll =>
    obtain ⟨m, hm, hlost⟩ := h.unlocks (a + n + 1) (by omega) (by rw [hrst, hs]; rfl)
    rw [hs] at hclock
    exact hclock m (by omega) fun st hs' _ => by simp [released, hs', hlost]
  | waitPllLock =>
    obtain ⟨m, hm, hlock⟩ := h.locks (a + n + 1) (by omega) (by rw [hrst, hs]; rfl)
    rw [hs] at hclock
    exact hclock m (by omega) fun st hs' _ => by simp [released, hs', hlock]
  | checkCmpStatus =>
    obtain ⟨m, hm, hclear⟩ := h.clears (a + n) hn (A.compare (.inr hs))
    rw [hs] at hclock
    exact hclock m hm fun st hs' _ => by simp [released, hs', hclear]
  | cmpSmpls =>
    obtain ⟨m, hm, hdone⟩ := h.dones (a + n) hn (A.compare (.inl hs)) (by rw [hcmp, hs]; rfl)
    rw [hs] at hclock
    exact hclock m (by omega) fun st hs' _ => by simp [released, hs', hdone]
  | phShift =>
    have hedge : shiftEdge x (a + n) = true := by
      rw [S.shiftEdge_eq A.running, pending, hs, A.shift hs]
      rfl
    obtain ⟨b, e, hb, hbe, hbusy, hfree⟩ := h.pulses (a + n) hn hedge
    obtain ⟨m, hm, -, hhigh, hlow⟩ :=
      falls_between (f := fun m => (x m).psCtrlBusy) hbe hbusy hfree
    rw [hs] at hclock
    refine hclock (m + 1) (by omega) fun st hs' hreg => ?_
    simp [released, hs', hreg m rfl, hhigh, hlow]
  | idle => exact ⟨n, Nat.le_refl n, fun hs' => by simp [released, hs']⟩
  | minFound => exact ⟨n, Nat.le_refl n, fun hs' => by simp [released, hs']⟩
  | maxFound => exact ⟨n, Nat.le_refl n, fun hs' => by simp [released, hs']⟩
  | checkMaxSteps => exact ⟨n, Nat.le_refl n, fun hs' => by simp [released, hs']⟩
  | waitAfterPhShift => exact ⟨n, Nat.le_refl n, fun hs' => by simp [released, hs']⟩
  | prepPhase => exact ⟨n, Nat.le_refl n, fun hs' => by simp [released, hs']⟩
  | endSrch => exact ⟨n, Nat.le_refl n, fun hs' => by simp [released, hs']⟩

theorem AutoSearch.ends_of_pos (S : AutoSearch x a s) (h : Answers x a) (hpos : 0 < s.toNat) :
    Ends x a s := by
  obtain ⟨hgoing, hend, hsh, hcmp, -⟩ := S.going_start
  have hcheck : (fsmAt x (a + 1)).smplCmpEnReg = false := by
    have e : (fsmAt x (a + 1)).smplCmpEnReg = decide ((fsmAt x a).currentState = .cmpSmpls) := rfl
    rw [e, S.idle]
    rfl
  have harrived : Arrived x a s.toNat 1 :=
    ⟨hgoing, S.open_one.succ hend, fun hs => absurd hs hsh, fun _ => hcheck⟩
  have hreach : LeadsTo (Arrived x a s.toNat) fun n => (fsmAt x (a + n)).currentState = .endSrch :=
    .variant (fun n => distance s.toNat (fsmAt x (a + n))) fun n A => by
      obtain ⟨k, hk, hr⟩ := h.release S A
      exact S.leaves hpos A hk hr
  obtain ⟨m, -, hm⟩ := hreach 1 harrived
  obtain ⟨d, -, hd, hfirst⟩ :=
    first_reached (p := fun k => (fsmAt x (a + k)).currentState = .endSrch) hm
  obtain ⟨j, rfl⟩ : ∃ j, d = j + 1 := by
    cases d with
    | zero => exact absurd (hd.symm.trans S.idle) nofun
    | succ j => exact ⟨j, rfl⟩
  have hcount := S.commands_le hpos hfirst
  exact ⟨j + 1, hd, hfirst, by omega⟩

/-- With a step of 0 the counter stays where no minimum is taken and where there is always room. -/
theorem stuck_step {st : PsFsm} {i : PsIn} (h : Going 0 st) (hc : st.stepCnt = 0)
    (hmin : st.findMin = true)
    (hs : st.currentState ≠ .endSrch ∧ st.currentState ≠ .minFound) :
    (st.step i).stepCnt = 0 ∧ (st.step i).findMin = true ∧
      (st.step i).currentState ≠ .endSrch ∧ (st.step i).currentState ≠ .minFound := by
  have hcnt : (st.step i).stepCnt = 0 := by
    simp [step, hc, h.step]
  have hmin' : (st.step i).findMin = true := by
    rw [findMin_step h.busy, if_neg hs.2]
    exact hmin
  have hturned := h.turned
  have hlimit := h.limit
  refine ⟨hcnt, hmin', ?_⟩
  rw [next_eq, next]
  grind

theorem AutoSearch.never_ends (S : AutoSearch x a s) (hz : s.toNat = 0) (k : Nat) :
    (fsmAt x (a + k)).currentState ≠ .endSrch := by
  have key : ∀ k, Going 0 (fsmAt x (a + (k + 1))) ∧ (fsmAt x (a + (k + 1))).stepCnt = 0 ∧
      (fsmAt x (a + (k + 1))).findMin = true ∧
      (fsmAt x (a + (k + 1))).currentState ≠ .minFound ∧ Open x a (k + 1 + 1) := by
    intro k
    induction k with
    | zero =>
      obtain ⟨hgoing, hend, -, -, hcnt⟩ := S.going_start
      rw [hz] at hgoing
      have e : fsmAt x (a + 1) = (fsmAt x a).step (x a) := rfl
      have hmin : (fsmAt x (a + 1)).findMin = true := by simp [e, step, S.idle]
      have hnot : (fsmAt x (a + 1)).currentState ≠ .minFound := by
        rw [e, next_eq, next, S.idle]
        grind
      exact ⟨hgoing, hcnt, hmin, hnot, S.open_one.succ hend⟩
    | succ k ih =>
      obtain ⟨hgoing, hcnt, hmin, hnot, hopen⟩ := ih
      have hend := hopen (k + 1) (Nat.lt_succ_self (k + 1))
      obtain ⟨hcnt', hmin', hend', hnot'⟩ :=
        stuck_step (i := x (a + (k + 1))) hgoing hcnt hmin ⟨hend, hnot⟩
      rw [← hz] at hgoing
      have hnext := S.going_next hopen hgoing
      rw [hz] at hnext
      exact ⟨hnext, hcnt', hmin', hnot', hopen.succ hend'⟩
  cases k with
  | zero =>
    rw [Nat.add_zero, S.idle]
    decide
  | succ k => exact (key k).2.2.2.2 (k + 1) (Nat.lt_succ_self (k + 1))

/-- A search that is answered comes to its end exactly when its step is not 0. -/
theorem phase_search_ends_iff (S : AutoSearch x a s) (h : Answers x a) :
    Ends x a s ↔ s ≠ 0 := by
  constructor
  · rintro ⟨d, hd, -⟩ hz
    exact S.never_ends (by simp [hz]) d hd
  · intro hne
    have hpos : 0 < s.toNat := by
      apply Nat.pos_of_ne_zero
      intro hz
      exact hne (BitVec.eq_of_toNat_eq hz)
    exact S.ends_of_pos h hpos

end runs

/-- A search from clock 1 with everything around changing in every clock. -/
def answering (s : BitVec 10) (n : Nat) : PsIn where
  psEn := decide (0 < n)
  psResetAtStart := true
  psMode := true
  psCnt := 0
  psUpdwn := true
  psPhase := 0
  psStepSize := s
  pllLocked := n % 2 == 0
  psCtrlBusy := n % 2 == 0
  smplCmpDone := n % 2 == 0
  smplCmpError := n % 4 == 0

theorem answering_search (s : BitVec 10) : AutoSearch (answering s) 1 s :=
  ⟨rfl, rfl, fun _ _ => rfl, fun _ _ _ => rfl⟩

theorem answering_answers (s : BitVec 10) : Answers (answering s) 1 := by
  have heven : ∀ n, ∃ m, n < m ∧ m % 2 = 0 := fun n => ⟨2 * (n + 1), by omega, by omega⟩
  have hodd : ∀ n, ∃ m, n < m ∧ m % 2 = 1 := fun n => ⟨2 * (n + 1) + 1, by omega, by omega⟩
  constructor
  · intro n _ _
    obtain ⟨m, hm, hpar⟩ := hodd n
    exact ⟨m, Nat.le_of_lt hm, by simp [answering, hpar]⟩
  · intro n _ _
    obtain ⟨m, hm, hpar⟩ := heven n
    exact ⟨m, Nat.le_of_lt hm, by simp [answering, hpar]⟩
  · intro n _ _
    obtain ⟨b, hb, heb⟩ := heven n
    obtain ⟨e, he, hoe⟩ := hodd b
    exact ⟨b, e, hb, he, by simp [answering, heb], by simp [answering, hoe]⟩
  · intro n _ _ _
    obtain ⟨m, hm, hpar⟩ := heven n
    exact ⟨m, hm, by simp [answering, hpar]⟩
  · intro n _ _
    obtain ⟨m, hm, hpar⟩ := hodd n
    exact ⟨m, Nat.le_of_lt hm, by simp [answering, hpar]⟩

theorem phase_search_ends_one : (AutoSearch (answering 1) 1 1 ∧ Answers (answering 1) 1) ∧
    Ends (answering 1) 1 1 :=
  ⟨⟨answering_search 1, answering_answers 1⟩,
    (phase_search_ends_iff (answering_search 1) (answering_answers 1)).2 (by decide)⟩

/-- Steps of 0 are commanded for ever. -/
theorem phase_search_never_ends : AutoSearch (answering 0) 1 0 ∧ Answers (answering 0) 1 ∧
    ∀ k, (fsmAt (answering 0) (1 + k)).currentState ≠ .endSrch :=
  ⟨answering_search 0, answering_answers 0, (answering_search 0).never_ends rfl⟩

end PsFsm

end Pll
