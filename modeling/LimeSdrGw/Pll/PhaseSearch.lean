import LimeSdrGw.Pll.PsFsm
/-
# Where a phase search ends

The positions of a search are the multiples of its step below 1023. `err` tells for every accumulated
shift whether the samples differ there.
-/
namespace Pll

open Clocked

section positions

variable (s : Nat) (err : Int → Bool)

/-- The verdict at position `k`. -/
def errAt (k : Nat) : Bool := err (k * s : Nat)

/-- A position at which a search may find its minimum. -/
def Passes (k : Nat) : Prop := 2 < k * s ∧ k * s < 1023 ∧ errAt s err k = false

def FirstPass (m : Nat) : Prop := Passes s err m ∧ ∀ i, i < m → ¬ Passes s err i

/-- The first position after the minimum at which the samples differ. -/
def FirstFail (m j : Nat) : Prop :=
  m < j ∧ j * s < 1023 ∧ errAt s err j = true ∧
    ∀ i, m ≤ i → i < j → errAt s err i = false

/-- The eye closes in reach of the search, if there is one; and a search that stays at 0 does not
    take a pass there for its end. -/
def Closes : Prop :=
  (∀ m, FirstPass s err m → ∃ j, FirstFail s err m j) ∧ ¬ (s = 1023 ∧ err 0 = false)

theorem FirstPass.unique {m m' : Nat} (h : FirstPass s err m) (h' : FirstPass s err m') : m = m' := by
  rcases Nat.lt_trichotomy m m' with lt | eq | gt
  · exact absurd h.1 (h'.2 m lt)
  · exact eq
  · exact absurd h'.1 (h.2 m' gt)

theorem FirstFail.unique {m j j' : Nat} (h : FirstFail s err m j) (h' : FirstFail s err m j') :
    j = j' := by
  rcases Nat.lt_trichotomy j j' with lt | eq | gt
  · exact absurd (h'.2.2.2 j (Nat.le_of_lt h.1) lt) (by simp [h.2.2.1])
  · exact eq
  · exact absurd (h.2.2.2 j' (Nat.le_of_lt h'.1) gt) (by simp [h'.2.2.1])

end positions

def middle (lo hi : Nat) : Nat := lo + (hi - lo) / 2

namespace PsFsm

section run

variable (x : Nat → PsIn) (u : Bool)

abbrev fsmAt (n : Nat) : PsFsm := machine.state x n

/-- Steps commanded by a rising edge of `ps_ctrl_en` in clock `n + 1`, forward being direction `u`. -/
def commanded (n : Nat) : Int :=
  if (fsmAt x (n + 1)).psCtrlEn (x (n + 1)) && !(fsmAt x n).psCtrlEn (x n) then
    if (fsmAt x (n + 1)).psCtrlUpdown (x (n + 1)) = u then (fsmAt x (n + 1)).psCtrlPhase (x (n + 1))
    else - (fsmAt x (n + 1)).psCtrlPhase (x (n + 1))
  else 0

/-- The shift commanded from clock `a` to clock `a + d`. -/
def net (a : Nat) : Nat → Int
  | 0 => 0
  | d + 1 => net a d + commanded x u (a + d)

end run

/-- `smpl_cmp_error` counts in this clock. -/
def looked (st : PsFsm) (i : PsIn) : Bool :=
  st.currentState == .cmpSmpls && i.smplCmpDone || st.currentState == .endSrch

/-- An automatic search that starts in clock `a` and ends `d` clocks later, its settings held and the
    verdicts those of `err`. -/
structure Search (x : Nat → PsIn) (a d : Nat) (s : BitVec 10) (u : Bool) (err : Int → Bool) :
    Prop where
  idle : (fsmAt x a).currentState = .idle
  starts : (fsmAt x a).starts (x a) = true
  settings : ∀ k, k ≤ d + 1 →
    (x (a + k)).psMode = true ∧ (x (a + k)).psStepSize = s ∧ (x (a + k)).psUpdwn = u
  verdicts : ∀ k, k ≤ d → looked (fsmAt x (a + k)) (x (a + k)) = true →
    (x (a + k)).smplCmpError = err (net x u a k)
  ended : (fsmAt x (a + d)).currentState = .endSrch
  first : ∀ k, k < d → (fsmAt x (a + k)).currentState ≠ .endSrch
  enabled : (x (a + d)).psEn = true

def signed (u : Bool) (st : PsFsm) : Int :=
  if st.psCtrlUpdwnReg = u then st.psCtrlPhaseReg else - st.psCtrlPhaseReg

/-- Just entered `ph_shift`: the edge of `ps_ctrl_en` comes in the next clock. -/
def owed (u : Bool) (st : PsFsm) : Int :=
  if st.currentState = .phShift ∧ st.psCtrlEnReg = false then signed u st else 0

/-- Until it turns back, and while it works out the way, the FSM knows the shift commanded or just
    about to be. -/
def Tracks (u : Bool) (st : PsFsm) (shift : Int) : Prop :=
  st.currentState ≠ .idle → st.currentState ≠ .endSrch →
    st.findMax = true ∨ st.currentState = .prepPhase → (st.stepCnt : Int) = shift + owed u st

/-- What a search owes. -/
structure SearchRight (x : Nat → PsIn) (a d : Nat) (s : Nat) (u : Bool) (err : Int → Bool) :
    Prop where
  tracks : ∀ k, k ≤ d → Tracks u (fsmAt x (a + k)) (net x u a k)
  middle : (fsmAt x (a + d + 1)).psDone (x (a + d + 1)) = true →
    (fsmAt x (a + d + 1)).psStatus (x (a + d + 1)) = false →
    ∃ m, FirstPass s err m ∧
      ((∃ j, FirstFail s err m j ∧ net x u a d = middle (m * s) ((j - 1) * s)) ∨
        (∀ j, ¬ FirstFail s err m j) ∧ net x u a d = middle (m * s) stepCntMaxConstant)

section stages

variable (s : Nat) (u : Bool) (err : Int → Bool)

/-- Where a search can be, with the shift commanded or about to be. -/
inductive Stage (st : PsFsm) (total : Int) : Prop
  | seek (j : Nat) : st.findMin = true → st.findMax = true → st.psCtrlPhaseReg = s →
      st.psCtrlUpdwnReg = u → st.stepCntMax = 1023 → st.stepCnt = j * s → total = (j * s : Nat) →
      j * s < 1023 → (∀ i, i < j → ¬ Passes s err i) →
      (st.currentState = .rstPll ∨ st.currentState = .waitPllLock ∨
        st.currentState = .checkCmpStatus ∨ st.currentState = .cmpSmpls ∨
        st.currentState = .phShift ∨ st.currentState = .waitAfterPhShift ∨
        st.currentState = .checkMaxSteps ∧ ¬ Passes s err j ∨
        st.currentState = .minFound ∧ Passes s err j) → Stage st total
  | follow (m j : Nat) : st.findMin = false → st.findMax = true → st.psCtrlPhaseReg = s →
      st.psCtrlUpdwnReg = u → st.stepCntMax = 1023 → st.stepCntMin = m * s → st.stepCnt = j * s →
      total = (j * s : Nat) → j * s < 1023 → FirstPass s err m → m ≤ j →
      (∀ i, m ≤ i → i < j → errAt s err i = false) →
      (st.currentState = .checkMaxSteps ∧ errAt s err j = false ∨ m < j ∧
        (st.currentState = .checkCmpStatus ∨ st.currentState = .cmpSmpls ∨
          st.currentState = .phShift ∨ st.currentState = .waitAfterPhShift ∨
          st.currentState = .maxFound ∧ errAt s err j = true)) → Stage st total
  | turn (m j : Nat) : st.currentState = .prepPhase → st.findMin = false →
      FirstPass s err m → FirstFail s err m j → st.stepCntMin = m * s →
      st.stepCntMax = (j - 1) * s → st.stepCnt = j * s → total = (j * s : Nat) →
      st.prepPhaseCnt ≤ 3 → (1 ≤ st.prepPhaseCnt → st.stepCntDiff = (j - 1) * s - m * s) →
      (2 ≤ st.prepPhaseCnt → st.stepCntMiddle = middle (m * s) ((j - 1) * s)) →
      (3 ≤ st.prepPhaseCnt → st.stepCntReverse = j * s - middle (m * s) ((j - 1) * s)) →
      Stage st total
  | back (m j : Nat) : st.findMin = false → st.findMax = false → FirstPass s err m →
      FirstFail s err m j → total = middle (m * s) ((j - 1) * s) →
      (st.currentState = .phShift ∨ st.currentState = .waitAfterPhShift ∨
        st.currentState = .checkCmpStatus ∨ st.currentState = .cmpSmpls ∨
        st.currentState = .endSrch) → Stage st total
  | missed (j : Nat) : st.currentState = .endSrch → total = (j * s : Nat) → j * s < 1023 →
      1023 ≤ j * s + s → (∀ i, i ≤ j → ¬ Passes s err i) → Stage st total

/-- Besides, the settings are in the registers. -/
structure Held (st : PsFsm) : Prop where
  step : st.psStepSizeReg = s
  updwn : st.psUpdwnReg = u
  limit : st.currentState ≠ .rstPll → st.currentState ≠ .waitPllLock → st.stepCntMaxReg = 1023 - s
  en : st.psCtrlEnReg = true →
    st.currentState = .phShift ∨ st.currentState = .waitAfterPhShift

variable {s u err} {st : PsFsm} {i : PsIn}

theorem Held.step_held (h : Held s u st) (hs : i.psStepSize.toNat = s) (hu : i.psUpdwn = u) : Held s u (st.step i) where
  step := by
    have e : (st.step i).psStepSizeReg =
      if st.starts i then i.psStepSize.toNat else st.psStepSizeReg := rfl
    rw [e, hs, h.step, ite_self]
  updwn := by
    have e : (st.step i).psUpdwnReg = if st.starts i then i.psUpdwn else st.psUpdwnReg := rfl
    rw [e, hu, h.updwn, ite_self]
  limit _ _ := by
    have e : (st.step i).stepCntMaxReg = sub10 1023 st.psStepSizeReg := rfl
    rw [e, h.step]
    exact sub10_of_le (by omega) (by omega)
  en hen := by
    have hst : st.currentState = .phShift := of_decide_eq_true hen
    have e : (st.step i).currentState = st.next i := rfl
    rw [e, next, hst]
    dsimp only
    split
    · exact .inr rfl
    · exact .inl rfl

/-- What a clock adds to the shift commanded or about to be. -/
def entered (u : Bool) (st st' : PsFsm) : Int :=
  if st.currentState ≠ .phShift ∧ st'.currentState = .phShift then signed u st' else 0

/-- The shift commanded or about to be changes when `ph_shift` is entered. -/
theorem owed_step (u : Bool) (st : PsFsm) (i : PsIn) :
    (if (st.step i).psCtrlEnReg && !st.psCtrlEnReg then signed u (st.step i) else 0) +
        owed u (st.step i) = owed u st + entered u st (st.step i) := by
  have e : (st.step i).psCtrlEnReg = decide (st.currentState = .phShift) := rfl
  by_cases hs : st.currentState = .phShift
  · have same : signed u (st.step i) = signed u st := by
      have e1 : (st.step i).psCtrlPhaseReg = st.psCtrlPhaseReg := by simp [step, hs]
      have e2 : (st.step i).psCtrlUpdwnReg = st.psCtrlUpdwnReg := by simp [step, hs]
      rw [signed, signed, e1, e2]
    cases hr : st.psCtrlEnReg <;> simp [owed, entered, e, hs, hr, same]
  · simp [owed, entered, e, hs]

theorem entered_zero {st' : PsFsm} (h : st'.currentState ≠ .phShift) : entered u st st' = 0 := by
  simp [entered, h]

theorem entered_same {st' : PsFsm} (h : st.currentState = .phShift) : entered u st st' = 0 := by
  simp [entered, h]

theorem next_eq : (st.step i).currentState = st.next i := rfl

variable {total : Int}

/-- Between two steps of the search only the state changes. -/
theorem kept (hs : st.currentState = .rstPll ∨ st.currentState = .waitPllLock ∨
    st.currentState = .checkCmpStatus ∨ st.currentState = .cmpSmpls ∨
    st.currentState = .phShift ∨ st.currentState = .waitAfterPhShift) :
    (st.step i).findMin = st.findMin ∧ (st.step i).findMax = st.findMax ∧
      (st.step i).psCtrlPhaseReg = st.psCtrlPhaseReg ∧
      (st.step i).psCtrlUpdwnReg = st.psCtrlUpdwnReg ∧ (st.step i).stepCntMax = st.stepCntMax ∧
      (st.step i).stepCntMin = st.stepCntMin ∧ (st.step i).stepCnt = st.stepCnt := by
  rcases hs with hs | hs | hs | hs | hs | hs <;> simp [step, hs]

theorem next_of_cmp (hs : st.currentState = .cmpSmpls) : (st.step i).currentState =
    if i.smplCmpDone then
      if st.findMin then
        if i.smplCmpError = false ∧ 2 < st.stepCnt then .minFound else .checkMaxSteps
      else if st.findMax then
        if i.smplCmpError then .maxFound else .checkMaxSteps
      else .endSrch
    else .cmpSmpls := by
  rw [next_eq, next, hs]

theorem next_of_check (hs : st.currentState = .checkMaxSteps) : (st.step i).currentState =
    if st.stepCnt < st.stepCntMaxReg then .phShift else if st.findMin then .endSrch else .prepPhase := by
  rw [next_eq, next, hs]

theorem next_of_start (hs : st.currentState = .idle) (hst : st.starts i = true)
    (hmode : i.psMode = true) :
    (st.step i).currentState = .rstPll ∨ (st.step i).currentState = .waitPllLock := by
  rw [next_eq, next, hs]
  simp only [hst, hmode, and_self, if_true]
  split <;> simp

theorem next_of_checkCmp (hs : st.currentState = .checkCmpStatus) :
    (st.step i).currentState = .checkCmpStatus ∨ (st.step i).currentState = .cmpSmpls := by
  rw [next_eq, next, hs]
  dsimp only
  split <;> simp

theorem next_of_phShift (hs : st.currentState = .phShift) :
    (st.step i).currentState = .phShift ∨ (st.step i).currentState = .waitAfterPhShift := by
  rw [next_eq, next, hs]
  dsimp only
  split <;> simp

theorem next_of_wait (hs : st.currentState = .waitAfterPhShift) :
    (st.step i).currentState = .waitAfterPhShift ∨
      (st.step i).currentState = .checkCmpStatus := by
  rw [next_eq, next, hs]
  dsimp only
  split <;> simp

/-- A step that the limit leaves room for: the count and the place move on by one. -/
theorem step_of_check {j : Nat} (held : Held s u st) (hs : st.currentState = .checkMaxSteps)
    (hn : (st.step i).currentState = .phShift) (hph : st.psCtrlPhaseReg = s)
    (hud : st.psCtrlUpdwnReg = u) (hc : st.stepCnt = j * s) (ht : total = (j * s : Nat))
    (hnext : (j + 1) * s < 1023) :
    (st.step i).stepCnt = (j + 1) * s ∧ (st.step i).psCtrlPhaseReg = s ∧
      (st.step i).psCtrlUpdwnReg = u ∧
      total + entered u st (st.step i) = ((j + 1) * s : Nat) := by
  have hc' : (st.step i).stepCnt = (j + 1) * s := by
    have e : (st.step i).stepCnt = (st.stepCnt + st.psStepSizeReg) % 1024 := by simp [step, hs]
    rw [e, hc, held.step, ← Nat.succ_mul, Nat.mod_eq_of_lt (by simp; omega)]
  have hp' : (st.step i).psCtrlPhaseReg = s := by simp [step, hs, hph]
  have hu' : (st.step i).psCtrlUpdwnReg = u := by simp [step, hs, hud]
  refine ⟨hc', hp', hu', ?_⟩
  rw [ht, entered, if_pos ⟨by simp [hs], hn⟩, signed, if_pos hu', hp', Nat.succ_mul]
  omega

/-- A step towards the limit. -/
theorem Passes.of_limit {j : Nat} (lt : j * s < 1023 - s) : (j + 1) * s < 1023 := by
  rw [Nat.succ_mul]
  omega

theorem step_seek {j : Nat} (held : Held s u st) (lt : s < 1024)
    (verdict : st.currentState = .cmpSmpls → i.smplCmpDone = true → i.smplCmpError = err total)
    (hmin : st.findMin = true) (hmax : st.findMax = true) (hph : st.psCtrlPhaseReg = s)
    (hud : st.psCtrlUpdwnReg = u) (hm : st.stepCntMax = 1023) (hc : st.stepCnt = j * s)
    (ht : total = (j * s : Nat)) (hj : j * s < 1023) (hist : ∀ i, i < j → ¬ Passes s err i)
    (hs : st.currentState = .rstPll ∨ st.currentState = .waitPllLock ∨
        st.currentState = .checkCmpStatus ∨ st.currentState = .cmpSmpls ∨
        st.currentState = .phShift ∨ st.currentState = .waitAfterPhShift ∨
        st.currentState = .checkMaxSteps ∧ ¬ Passes s err j ∨
        st.currentState = .minFound ∧ Passes s err j) :
    Stage s u err (st.step i) (total + entered u st (st.step i)) := by
  -- in the states in which only the state changes
  have plain (hk : st.currentState = .rstPll ∨ st.currentState = .waitPllLock ∨
      st.currentState = .checkCmpStatus ∨ st.currentState = .cmpSmpls ∨
      st.currentState = .phShift ∨ st.currentState = .waitAfterPhShift)
      (he : entered u st (st.step i) = 0)
      (hn : (st.step i).currentState = .rstPll ∨ (st.step i).currentState = .waitPllLock ∨
        (st.step i).currentState = .checkCmpStatus ∨ (st.step i).currentState = .cmpSmpls ∨
        (st.step i).currentState = .phShift ∨ (st.step i).currentState = .waitAfterPhShift ∨
        (st.step i).currentState = .checkMaxSteps ∧ ¬ Passes s err j ∨
        (st.step i).currentState = .minFound ∧ Passes s err j) :
      Stage s u err (st.step i) (total + entered u st (st.step i)) := by
    obtain ⟨k1, k2, k3, k4, k5, -, k7⟩ := kept (i := i) hk
    rw [he, Int.add_zero]
    exact .seek j (k1.trans hmin) (k2.trans hmax) (k3.trans hph) (k4.trans hud) (k5.trans hm)
      (k7.trans hc) ht hj hist hn
  rcases hs with hs | hs | hs | hs | hs | hs | ⟨hs, np⟩ | ⟨hs, hp⟩
  · have hn : (st.step i).currentState = .rstPll ∨ (st.step i).currentState = .waitPllLock := by
      rw [next_eq, next, hs]; dsimp only; split <;> simp
    exact plain (.inl hs) (entered_zero (by rcases hn with hn | hn <;> simp [hn])) (by grind)
  · have hn : (st.step i).currentState = .waitPllLock ∨
        (st.step i).currentState = .checkCmpStatus := by
      rw [next_eq, next, hs]; simp only [hmin]; split <;> simp
    exact plain (.inr (.inl hs)) (entered_zero (by rcases hn with hn | hn <;> simp [hn])) (by grind)
  · have hn := next_of_checkCmp (i := i) hs
    exact plain (by simp [hs]) (entered_zero (by rcases hn with hn | hn <;> simp [hn])) (by grind)
  · have hn := next_of_cmp (i := i) hs
    have hv : i.smplCmpDone = true → i.smplCmpError = errAt s err j := fun hd => by
      rw [verdict hs hd, ht]
      rfl
    rw [hmin, if_pos rfl, hc] at hn
    have hn' : (st.step i).currentState = .cmpSmpls ∨
        (st.step i).currentState = .checkMaxSteps ∧ ¬ Passes s err j ∨
        (st.step i).currentState = .minFound ∧ Passes s err j := by
      unfold Passes
      grind
    exact plain (by simp [hs]) (entered_zero (by rcases hn' with hn | hn | hn <;> simp [hn]))
      (by grind)
  · have hn := next_of_phShift (i := i) hs
    exact plain (by simp [hs]) (entered_same hs) (by grind)
  · have hn := next_of_wait (i := i) hs
    exact plain (by simp [hs]) (entered_zero (by rcases hn with hn | hn <;> simp [hn])) (by grind)
  · have hn := next_of_check (i := i) hs
    have hlim := held.limit (by simp [hs]) (by simp [hs])
    rw [hmin, if_pos rfl, hc, hlim] at hn
    have hist' : ∀ i, i ≤ j → ¬ Passes s err i := by
      intro i hi
      rcases Nat.lt_or_eq_of_le hi with h | rfl
      · exact hist i h
      · exact np
    by_cases hl : j * s < 1023 - s
    · rw [if_pos hl] at hn
      have hnext := Passes.of_limit hl
      obtain ⟨hc', hp', hu', ht'⟩ := step_of_check held hs hn hph hud hc ht hnext
      refine .seek (j + 1) (by simp [step, hs, hmin]) (by simp [step, hs, hmax]) hp' hu'
        (by simp [step, hs, hm]) hc' ht' hnext (fun i hi => hist' i (by omega)) (by simp [hn])
    · rw [if_neg hl] at hn
      rw [entered_zero (by simp [hn]), Int.add_zero]
      exact .missed j hn ht hj (by omega) hist'
  · have hn : (st.step i).currentState = .checkMaxSteps := by rw [next_eq, next, hs]
    rw [entered_zero (by simp [hn]), Int.add_zero]
    refine .follow j j (by simp [step, hs]) (by simp [step, hs, hmax]) (by simp [step, hs, hph])
      (by simp [step, hs, hud]) (by simp [step, hs, hm]) (by simp [step, hs, hc])
      (by simp [step, hs, hc]) ht hj ⟨hp, hist⟩ (Nat.le_refl j) (fun i h1 h2 => by omega) ?_
    exact .inl ⟨hn, hp.2.2⟩

theorem step_follow {m j : Nat} (held : Held s u st) (lt : s < 1024)
    (verdict : st.currentState = .cmpSmpls → i.smplCmpDone = true → i.smplCmpError = err total)
    (known : (st.step i).currentState = .prepPhase →
      ((st.step i).stepCnt : Int) = total ∨ Closes s err)
    (hmin : st.findMin = false) (hmax : st.findMax = true) (hph : st.psCtrlPhaseReg = s)
    (hud : st.psCtrlUpdwnReg = u) (hm : st.stepCntMax = 1023) (hlo : st.stepCntMin = m * s)
    (hc : st.stepCnt = j * s) (ht : total = (j * s : Nat)) (hj : j * s < 1023)
    (first : FirstPass s err m) (hmj : m ≤ j)
    (hist : ∀ i, m ≤ i → i < j → errAt s err i = false)
    (hs : st.currentState = .checkMaxSteps ∧ errAt s err j = false ∨ m < j ∧
        (st.currentState = .checkCmpStatus ∨ st.currentState = .cmpSmpls ∨
          st.currentState = .phShift ∨ st.currentState = .waitAfterPhShift ∨
          st.currentState = .maxFound ∧ errAt s err j = true)) :
    Stage s u err (st.step i) (total + entered u st (st.step i)) := by
  have plain (hk : st.currentState = .rstPll ∨ st.currentState = .waitPllLock ∨
      st.currentState = .checkCmpStatus ∨ st.currentState = .cmpSmpls ∨
      st.currentState = .phShift ∨ st.currentState = .waitAfterPhShift)
      (he : entered u st (st.step i) = 0)
      (hn : (st.step i).currentState = .checkMaxSteps ∧ errAt s err j = false ∨ m < j ∧
        ((st.step i).currentState = .checkCmpStatus ∨ (st.step i).currentState = .cmpSmpls ∨
          (st.step i).currentState = .phShift ∨ (st.step i).currentState = .waitAfterPhShift ∨
          (st.step i).currentState = .maxFound ∧ errAt s err j = true)) :
      Stage s u err (st.step i) (total + entered u st (st.step i)) := by
    obtain ⟨k1, k2, k3, k4, k5, k6, k7⟩ := kept (i := i) hk
    rw [he, Int.add_zero]
    exact .follow m j (k1.trans hmin) (k2.trans hmax) (k3.trans hph) (k4.trans hud) (k5.trans hm)
      (k6.trans hlo) (k7.trans hc) ht hj first hmj hist hn
  rcases hs with ⟨hs, pass⟩ | ⟨lt', hs | hs | hs | hs | ⟨hs, fails⟩⟩
  · have hn := next_of_check (i := i) hs
    have hlim := held.limit (by simp [hs]) (by simp [hs])
    have hist' : ∀ i, m ≤ i → i < j + 1 → errAt s err i = false := by
      intro i h1 h2
      rcases Nat.lt_or_eq_of_le (Nat.le_of_lt_succ h2) with h | rfl
      · exact hist i h1 h
      · exact pass
    rw [hmin, hc, hlim, if_neg (by decide : ¬ (false = true))] at hn
    by_cases hl : j * s < 1023 - s
    · rw [if_pos hl] at hn
      have hnext := Passes.of_limit hl
      obtain ⟨hc', hp', hu', ht'⟩ := step_of_check held hs hn hph hud hc ht hnext
      refine .follow m (j + 1) (by simp [step, hs, hmin]) (by simp [step, hs, hmax]) hp' hu'
        (by simp [step, hs, hm]) (by simp [step, hs, hlo]) hc' ht' hnext first (by omega) hist'
        (.inr ⟨by omega, by simp [hn]⟩)
    · -- at the limit `step_cnt` moves on without a shift
      rw [if_neg hl] at hn
      have pos : 0 < s := by
        rcases Nat.eq_zero_or_pos s with rfl | h
        · exact absurd first.1.1 (by simp)
        · exact h
      rcases known hn with tracks | closes
      · have e : (st.step i).stepCnt = (st.stepCnt + st.psStepSizeReg) % 1024 := by simp [step, hs]
        rw [e, hc, held.step, ht] at tracks
        omega
      · obtain ⟨j', h1, h2, h3, h4⟩ := closes.1 m first
        have hjj : j + 1 ≤ j' := by
          apply Nat.lt_of_not_le
          intro hle
          exact absurd (hist' j' (by omega) (by omega)) (by simp [h3])
        have := Nat.mul_le_mul_right s hjj
        rw [Nat.succ_mul] at this
        omega
  · have hn := next_of_checkCmp (i := i) hs
    exact plain (by simp [hs]) (entered_zero (by rcases hn with hn | hn <;> simp [hn])) (by grind)
  · have hn := next_of_cmp (i := i) hs
    have hv : i.smplCmpDone = true → i.smplCmpError = errAt s err j := fun hd => by
      rw [verdict hs hd, ht]
      rfl
    rw [hmin, hmax, if_neg (by decide : ¬ (false = true)), if_pos rfl] at hn
    have hn' : (st.step i).currentState = .cmpSmpls ∨
        (st.step i).currentState = .checkMaxSteps ∧ errAt s err j = false ∨
        (st.step i).currentState = .maxFound ∧ errAt s err j = true := by
      grind
    exact plain (by simp [hs]) (entered_zero (by rcases hn' with hn | hn | hn <;> simp [hn]))
      (by grind)
  · have hn := next_of_phShift (i := i) hs
    exact plain (by simp [hs]) (entered_same hs) (by grind)
  · have hn := next_of_wait (i := i) hs
    exact plain (by simp [hs]) (entered_zero (by rcases hn with hn | hn <;> simp [hn])) (by grind)
  · have hn : (st.step i).currentState = .prepPhase := by rw [next_eq, next, hs]
    rw [entered_zero (by simp [hn]), Int.add_zero]
    have hmax' : (st.step i).stepCntMax = (j - 1) * s := by
      have e : (st.step i).stepCntMax = sub10 st.stepCnt st.psStepSizeReg := by simp [step, hs]
      have hle : s ≤ j * s := Nat.le_mul_of_pos_left s (by omega)
      rw [e, hc, held.step, sub10_of_le hle (by omega), Nat.sub_mul, Nat.one_mul]
    have hcnt : (st.step i).prepPhaseCnt = 0 := by simp [step, hs]
    exact .turn m j hn (by simp [step, hs, hmin]) first ⟨lt', hj, fails, hist⟩
      (by simp [step, hs, hlo]) hmax' (by simp [step, hs, hc]) ht (by omega) (by omega) (by omega)
      (by omega)

/-- The way back is worked out in three clocks, and taken from the fourth. -/
theorem step_turn {m j : Nat} (held : Held s u st) (hs : st.currentState = .prepPhase)
    (hmin : st.findMin = false) (first : FirstPass s err m) (fails : FirstFail s err m j)
    (hlo : st.stepCntMin = m * s) (hhi : st.stepCntMax = (j - 1) * s) (hc : st.stepCnt = j * s)
    (ht : total = (j * s : Nat)) (hcnt : st.prepPhaseCnt ≤ 3)
    (hdiff : 1 ≤ st.prepPhaseCnt → st.stepCntDiff = (j - 1) * s - m * s)
    (hmid : 2 ≤ st.prepPhaseCnt → st.stepCntMiddle = middle (m * s) ((j - 1) * s))
    (hrev : 3 ≤ st.prepPhaseCnt → st.stepCntReverse = j * s - middle (m * s) ((j - 1) * s)) :
    Stage s u err (st.step i) (total + entered u st (st.step i)) := by
  have hle : m * s ≤ (j - 1) * s := Nat.mul_le_mul_right s (by have := fails.1; omega)
  have hle' : (j - 1) * s ≤ j * s := Nat.mul_le_mul_right s (by omega)
  have hj := fails.2.1
  have mid_le : middle (m * s) ((j - 1) * s) ≤ j * s := by
    unfold middle
    omega
  have en : (st.step i).currentState = if 2 < st.prepPhaseCnt then .phShift else .prepPhase := by
    rw [next_eq, next, hs]
  have e1 : (st.step i).stepCntDiff = sub10 st.stepCntMax st.stepCntMin := rfl
  have e2 : (st.step i).stepCntMiddle = (st.stepCntDiff / 2 + st.stepCntMin) % 1024 := rfl
  have e3 : (st.step i).stepCntReverse = sub10 st.stepCnt st.stepCntMiddle := rfl
  have e4 : (st.step i).prepPhaseCnt = st.prepPhaseCnt + 1 := by
    have e : (st.step i).prepPhaseCnt = (st.prepPhaseCnt + 1) % 16 := by simp [step, hs]
    rw [e]
    omega
  by_cases last : 2 < st.prepPhaseCnt
  · rw [if_pos last] at en
    have hp : (st.step i).psCtrlPhaseReg = j * s - middle (m * s) ((j - 1) * s) := by
      simp [step, hs, hrev last]
    have hu : (st.step i).psCtrlUpdwnReg ≠ u := by
      simp [step, hs, held.updwn]
    refine .back m j (by simp [step, hs, hmin]) (by simp [step, hs]) first fails ?_ (.inl en)
    rw [ht, entered, if_pos ⟨by simp [hs], en⟩, signed, if_neg hu, hp]
    omega
  · rw [if_neg last] at en
    rw [entered_zero (by simp [en]), Int.add_zero]
    refine .turn m j en (by simp [step, hs, hmin]) first fails (by simp [step, hs, hlo])
      (by simp [step, hs, hhi]) (by simp [step, hs, hc]) ht (by omega) ?_ ?_ ?_
    · intro _
      rw [e1, hhi, hlo]
      exact sub10_of_le hle (by omega)
    · intro h2
      rw [e2, hdiff (by omega), hlo]
      unfold middle
      omega
    · intro h3
      rw [e3, hc, hmid (by omega)]
      exact sub10_of_le mid_le (by omega)

theorem step_back {m j : Nat} (hmin : st.findMin = false) (hmax : st.findMax = false)
    (first : FirstPass s err m) (fails : FirstFail s err m j)
    (ht : total = middle (m * s) ((j - 1) * s)) (hs : st.currentState = .phShift ∨
      st.currentState = .waitAfterPhShift ∨ st.currentState = .checkCmpStatus ∨
      st.currentState = .cmpSmpls) :
    Stage s u err (st.step i) (total + entered u st (st.step i)) := by
  have hs' : st.currentState = .rstPll ∨ st.currentState = .waitPllLock ∨
      st.currentState = .checkCmpStatus ∨ st.currentState = .cmpSmpls ∨
      st.currentState = .phShift ∨ st.currentState = .waitAfterPhShift := by
    grind
  obtain ⟨k1, k2, -⟩ := kept (i := i) hs'
  have hn : st.currentState = .phShift ∧ (st.step i).currentState = .phShift ∨
      (st.step i).currentState = .waitAfterPhShift ∨ (st.step i).currentState = .checkCmpStatus ∨
      (st.step i).currentState = .cmpSmpls ∨ (st.step i).currentState = .endSrch := by
    rw [next_eq, next]
    grind
  have he : entered u st (st.step i) = 0 := by
    rcases hn with hn | hn
    · exact entered_same hn.1
    · exact entered_zero (by grind)
  rw [he, Int.add_zero]
  exact .back m j (k1.trans hmin) (k2.trans hmax) first fails ht (by grind)

theorem Stage.step (h : Stage s u err st total) (held : Held s u st) (lt : s < 1024)
    (verdict : st.currentState = .cmpSmpls → i.smplCmpDone = true → i.smplCmpError = err total)
    (known : (st.step i).currentState = .prepPhase →
      ((st.step i).stepCnt : Int) = total ∨ Closes s err)
    (runs : st.currentState ≠ .endSrch) :
    Stage s u err (st.step i) (total + entered u st (st.step i)) := by
  cases h with
  | seek j h1 h2 h3 h4 h5 h6 h7 h8 h9 hs => exact step_seek held lt verdict h1 h2 h3 h4 h5 h6 h7 h8 h9 hs
  | follow m j h1 h2 h3 h4 h5 h6 h7 h8 h9 h10 h11 h12 hs =>
    exact step_follow held lt verdict known h1 h2 h3 h4 h5 h6 h7 h8 h9 h10 h11 h12 hs
  | turn m j hs h1 h2 h3 h4 h5 h6 h7 h8 h9 h10 h11 =>
    exact step_turn held hs h1 h2 h3 h4 h5 h6 h7 h8 h9 h10 h11
  | back m j h1 h2 h3 h4 h5 hs => exact step_back h1 h2 h3 h4 h5 (by grind)
  | missed j hs => exact absurd hs runs

end stages

section searches

variable {x : Nat → PsIn} {a d : Nat} {s : BitVec 10} {u : Bool} {err : Int → Bool}

theorem Search.commanded_eq (S : Search x a d s u err) {k : Nat} (hk : k ≤ d) :
    commanded x u (a + k) =
      if (fsmAt x (a + k + 1)).psCtrlEnReg && !(fsmAt x (a + k)).psCtrlEnReg then
        signed u (fsmAt x (a + k + 1)) else 0 := by
  have m1 := (S.settings k (by omega)).1
  have m2 := (S.settings (k + 1) (by omega)).1
  rw [← Nat.add_assoc] at m2
  simp [commanded, psCtrlEn, psCtrlUpdown, psCtrlPhase, m1, m2, signed]

theorem Search.begins (S : Search x a d s u err) :
    Stage s.toNat u err (fsmAt x (a + 1)) (net x u a 1 + owed u (fsmAt x (a + 1))) ∧
      Held s.toNat u (fsmAt x (a + 1)) := by
  obtain ⟨hmode, hsize, hup⟩ := S.settings 0 (by omega)
  rw [Nat.add_zero] at hmode hsize hup
  have hst := S.starts
  have hidle := S.idle
  have e : fsmAt x (a + 1) = (fsmAt x a).step (x a) := rfl
  have hn : (fsmAt x (a + 1)).currentState = .rstPll ∨
      (fsmAt x (a + 1)).currentState = .waitPllLock := next_of_start hidle hst hmode
  have hen : (fsmAt x (a + 1)).psCtrlEnReg = false := by simp [e, step, hidle]
  have hnet : net x u a 1 + owed u (fsmAt x (a + 1)) = 0 := by
    have h0 : net x u a 1 = 0 + commanded x u (a + 0) := rfl
    have ho : owed u (fsmAt x (a + 1)) = 0 := by
      rcases hn with hn | hn <;> simp [owed, hn]
    rw [h0, S.commanded_eq (Nat.zero_le d), ho]
    simp [hen]
  constructor
  · rw [hnet]
    refine .seek 0 ?_ ?_ ?_ ?_ ?_ ?_ ?_ (by omega) (fun i hi => absurd hi (Nat.not_lt_zero i)) ?_
    · simp [e, step, hidle]
    · simp [e, step, hidle]
    · simp [e, step, hidle, hsize]
    · simp [e, step, hidle, hup]
    · simp [e, step, hidle]
    · simp [e, step, hidle]
    · simp
    · rcases hn with hn | hn <;> simp [hn]
  · refine ⟨?_, ?_, ?_, ?_⟩
    · simp [e, step, hst, hsize]
    · simp [e, step, hst, hup]
    · intro h1 h2
      rcases hn with hn | hn
      · exact absurd hn h1
      · exact absurd hn h2
    · intro h
      rw [hen] at h
      cases h

theorem Search.stage_at (S : Search x a d s u err)
    (known : ∀ k, k ≤ d → Tracks u (fsmAt x (a + k)) (net x u a k) ∨ Closes s.toNat err) {k : Nat}
    (hk : k + 1 ≤ d) :
    Stage s.toNat u err (fsmAt x (a + (k + 1)))
        (net x u a (k + 1) + owed u (fsmAt x (a + (k + 1)))) ∧
      Held s.toNat u (fsmAt x (a + (k + 1))) := by
  have lt : s.toNat < 1024 := s.isLt
  induction k with
  | zero => exact S.begins
  | succ k ih =>
    obtain ⟨stage, held⟩ := ih (by omega)
    obtain ⟨-, hsize, hup⟩ := S.settings (k + 1) (by omega)
    have e : fsmAt x (a + (k + 1 + 1)) = (fsmAt x (a + (k + 1))).step (x (a + (k + 1))) := rfl
    have hnet : net x u a (k + 1 + 1) + owed u (fsmAt x (a + (k + 1 + 1))) =
        net x u a (k + 1) + owed u (fsmAt x (a + (k + 1))) +
          entered u (fsmAt x (a + (k + 1))) (fsmAt x (a + (k + 1 + 1))) := by
      have h0 : net x u a (k + 1 + 1) = net x u a (k + 1) + commanded x u (a + (k + 1)) := rfl
      rw [h0, S.commanded_eq (by omega : k + 1 ≤ d), Int.add_assoc, Int.add_assoc]
      exact congrArg _ (owed_step u _ _)
    rw [hnet, e]
    refine ⟨stage.step held lt ?_ ?_ (S.first _ (by omega)), held.step_held (by rw [hsize]) hup⟩
    · intro hs hd
      rw [S.verdicts (k + 1) (by omega) (by simp [looked, hs, hd])]
      simp [owed, hs]
    · intro hs
      rcases known (k + 1 + 1) hk with tracks | closes
      · refine .inl ?_
        rw [← e] at hs ⊢
        rw [tracks (by simp [hs]) (by simp [hs]) (.inr hs), hnet, entered_zero (by simp [hs]),
          Int.add_zero]
      · exact .inr closes

theorem Stage.tracks {s : Nat} {st : PsFsm} {shift : Int}
    (h : Stage s u err st (shift + owed u st)) : Tracks u st shift := by
  intro _ hend hs
  cases h with
  | seek j _ _ _ _ _ hc ht => rw [hc, ht]
  | follow m j _ _ _ _ _ _ hc ht => rw [hc, ht]
  | turn m j _ _ _ _ _ _ hc ht => rw [hc, ht]
  | back m j _ hmax _ _ _ hst =>
    rcases hs with hs | hs
    · exact absurd (hs.symm.trans hmax) (by decide)
    · simp [hs] at hst
  | missed j hst => exact absurd hst hend

/-- A search that ends without a minimum has been at every position. -/
theorem not_passes_of_missed {s : Nat} {j : Nat} (hlim : 1023 ≤ j * s + s)
    (hist : ∀ i, i ≤ j → ¬ Passes s err i) (m : Nat) : ¬ Passes s err m := by
  intro hm
  rcases Nat.lt_or_ge j m with lt | ge
  · have := Nat.mul_le_mul_right s (Nat.succ_le_of_lt lt)
    rw [Nat.succ_mul] at this
    have := hm.2.1
    omega
  · exact hist m ge hm

theorem Search.pos (S : Search x a d s u err) : ∃ k, d = k + 1 := by
  cases d with
  | zero => exact absurd (S.ended.symm.trans S.idle) (by decide)
  | succ k => exact ⟨k, rfl⟩

theorem Search.report (S : Search x a d s u err) :
    (fsmAt x (a + d + 1)).psDone (x (a + d + 1)) = true ∧
      (fsmAt x (a + d + 1)).psStatus (x (a + d + 1)) = err (net x u a d) := by
  have m := (S.settings (d + 1) (by omega)).1
  rw [← Nat.add_assoc] at m
  have e : fsmAt x (a + d + 1) = (fsmAt x (a + d)).step (x (a + d)) := rfl
  rw [← S.verdicts d (Nat.le_refl d) (by simp [looked, S.ended])]
  simp [psDone, psStatus, m, e, step, S.enabled, S.ended]

/-- Where a search can end: back in the middle, or at the limit with no step that passed. -/
theorem Stage.ended {s : Nat} {st : PsFsm} {total : Int} (h : Stage s u err st total)
    (hs : st.currentState = .endSrch) :
    (∃ m j, FirstPass s err m ∧ FirstFail s err m j ∧ total = middle (m * s) ((j - 1) * s)) ∨
    ∃ j, total = (j * s : Nat) ∧ j * s < 1023 ∧ 1023 ≤ j * s + s ∧ ∀ i, i ≤ j → ¬ Passes s err i := by
  cases h with
  | seek j _ _ _ _ _ _ _ _ _ hs' => simp [hs] at hs'
  | follow m j _ _ _ _ _ _ _ _ _ _ _ _ hs' => simp [hs] at hs'
  | turn m j hs' => simp [hs] at hs'
  | back m j _ _ first fails ht => exact .inl ⟨m, j, first, fails, ht⟩
  | missed j _ ht hj hlim hist => exact .inr ⟨j, ht, hj, hlim, hist⟩

/-- A search is right exactly when the eye closes in its reach. -/
theorem phase_search_iff (S : Search x a d s u err) :
    SearchRight x a d s.toNat u err ↔ Closes s.toNat err := by
  obtain ⟨k, rfl⟩ := S.pos
  have hend : owed u (fsmAt x (a + (k + 1))) = 0 := by simp [owed, S.ended]
  obtain ⟨hdone, hstatus⟩ := S.report
  have lt : s.toNat < 1024 := s.isLt
  constructor
  · intro right
    have stage := (S.stage_at (fun k hk => .inl (right.tracks k hk)) (Nat.le_refl _)).1
    rw [hend, Int.add_zero] at stage
    rcases stage.ended S.ended with ⟨m, j, first, fails, -⟩ | ⟨j, ht, hj, hlim, hist⟩
    · refine ⟨fun m' first' => ⟨j, ?_⟩, ?_⟩
      · rw [first'.unique _ _ first]
        exact fails
      · rintro ⟨hs, -⟩
        have := first.1
        rw [hs] at this
        unfold Passes at this
        omega
    · have none := not_passes_of_missed hlim hist
      refine ⟨fun m first => absurd first.1 (none m), ?_⟩
      rintro ⟨hs, pass⟩
      obtain rfl : j = 0 := by
        rw [hs] at hj
        omega
      rw [ht, Nat.zero_mul] at hstatus
      obtain ⟨m, first, -⟩ := right.middle hdone (hstatus.trans pass)
      exact none m first.1
  · intro closes
    have stage {k' : Nat} (hk : k' + 1 ≤ k + 1) := (S.stage_at (fun _ _ => .inr closes) hk).1
    constructor
    · intro k' hk'
      cases k' with
      | zero =>
        intro hidle
        exact absurd S.idle hidle
      | succ k' => exact (stage hk').tracks
    · intro _ ok
      have stage := stage (Nat.le_refl (k + 1))
      rw [hend, Int.add_zero] at stage
      rcases stage.ended S.ended with ⟨m, j, first, fails, ht⟩ | ⟨j, ht, hj, hlim, hist⟩
      · exact ⟨m, first, .inl ⟨j, fails, ht⟩⟩
      · rw [hstatus, ht] at ok
        have hle : j * s.toNat ≤ 2 := by
          have := hist j (Nat.le_refl j)
          apply Nat.le_of_not_lt
          intro h2
          exact this ⟨h2, hj, ok⟩
        obtain rfl : j = 0 := by
          rcases Nat.eq_zero_or_pos j with h | h
          · exact h
          · have := Nat.le_mul_of_pos_left s.toNat h
            omega
        rw [Nat.zero_mul] at ok hlim
        exact absurd ⟨by omega, ok⟩ closes.2

end searches

/-- A search from clock 1 in steps of 400 with everything answering at once, the verdicts by clock. -/
def promptly (wrong : Nat → Bool) (n : Nat) : PsIn where
  psEn := decide (0 < n)
  psResetAtStart := false
  psMode := true
  psCnt := 0
  psUpdwn := true
  psPhase := 0
  psStepSize := 400
  pllLocked := true
  psCtrlBusy := n % 2 == 0
  smplCmpDone := n % 2 == 0
  smplCmpError := wrong n

/-- The samples are right from 100 to 700. -/
def eye (shift : Int) : Bool := decide (shift < 100 ∨ 700 < shift)
def eyeRun : Nat → PsIn := promptly fun n => decide (n ≤ 6 ∨ 268 ≤ n ∧ n ≤ 530)

theorem eyeRun_search : Search eyeRun 1 788 400 true eye := by
  have run : (∀ k, k ≤ 788 → (eyeRun (1 + k)).smplCmpError = eye (net eyeRun true 1 k)) ∧
      (∀ k, k < 788 → (fsmAt eyeRun (1 + k)).currentState ≠ .endSrch) ∧
      (fsmAt eyeRun (1 + 788)).currentState = .endSrch := by
    decide +kernel
  exact ⟨rfl, rfl, fun _ _ => ⟨rfl, rfl, rfl⟩, fun k hk _ => run.1 k hk, run.2.2, run.2.1, rfl⟩

theorem eye_closes : Closes 400 eye := by
  refine ⟨fun m first => ⟨2, ?_⟩, by decide⟩
  obtain rfl : m = 1 := by
    rcases Nat.lt_trichotomy m 1 with lt | eq | gt
    · obtain rfl : m = 0 := by omega
      exact absurd first.1.1 (by decide)
    · exact eq
    · exact absurd ⟨by decide, by decide, by decide⟩ (first.2 1 gt)
  refine ⟨by decide, by decide, by decide, fun i h1 h2 => ?_⟩
  obtain rfl : i = 1 := by omega
  decide

theorem eyeRun_right :
    Search eyeRun 1 788 400 true eye ∧ SearchRight eyeRun 1 788 400 true eye :=
  ⟨eyeRun_search, (phase_search_iff eyeRun_search).2 eye_closes⟩

/-- The samples are right from 100 on. -/
def openEye (shift : Int) : Bool := decide (shift < 100)
def openEyeRun : Nat → PsIn := promptly fun n => decide (n ≤ 6)

/-- The search reports success at 311; the middle is 711. -/
theorem open_eye_missed :
    Search openEyeRun 1 788 400 true openEye ∧ net openEyeRun true 1 788 = 311 ∧
      ¬ SearchRight openEyeRun 1 788 400 true openEye := by
  have run : (∀ k, k ≤ 788 → (openEyeRun (1 + k)).smplCmpError = openEye (net openEyeRun true 1 k)) ∧
      (∀ k, k < 788 → (fsmAt openEyeRun (1 + k)).currentState ≠ .endSrch) ∧
      (fsmAt openEyeRun (1 + 788)).currentState = .endSrch ∧ net openEyeRun true 1 788 = 311 ∧
      (fsmAt openEyeRun (1 + 788 + 1)).psDoneReg = true ∧
      (fsmAt openEyeRun (1 + 788 + 1)).psStatusReg = false := by
    decide +kernel
  obtain ⟨verdicts, first, ended, there, done, ok⟩ := run
  refine ⟨⟨rfl, rfl, fun _ _ => ⟨rfl, rfl, rfl⟩, fun k hk _ => verdicts k hk, ended, first, rfl⟩,
    there, ?_⟩
  intro h
  obtain ⟨m, first, hm⟩ := h.middle done ok
  rw [there] at hm
  have hlt := first.1.2.1
  have hpos := first.1.1
  rcases hm with ⟨j, hj, hm⟩ | ⟨-, hm⟩
  · have hlt' := hj.2.1
    have := hj.1
    unfold middle at hm
    omega
  · simp only [middle, stepCntMaxConstant] at hm
    omega

end PsFsm

end Pll
