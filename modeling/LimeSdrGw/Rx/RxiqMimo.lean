import LimeSdrGw.Rx.RxiqSiso
/-
# Capturing two channels: `rxiq_mimo_ddr`, `rxiq_pulse_ddr`

A frame is the two samples of one clock, and the frames of the channels A and B take turns. A word of
the sample FIFO is a frame of each channel, or two frames of the only channel that is enabled. The
two receivers differ in the sync pattern of a valid frame: in one it changes with every frame, in the
other it marks the frames of channel A.

| here | there |
| --- | --- |
| `FrameRule.mimoDdr`, `.pulseDdr` | `diq_valid` and the condition of `diq_chB_1_reg_proc` (rxiq_mimo_ddr.vhd:89-90, :306; rxiq_pulse_ddr.vhd:89-90, :306) |
| `RxiqMimoDdr`, `.step`           | registers and processes of rxiq_mimo_ddr.vhd:93-356 |
| `RxiqMimoDdr.nextState`          | process `fsm` (:122-185) |
| `RxiqMimoDdr.diqChA0Reg` etc.    | `diq_pos0_chA_0_reg` and `diq_pos1_chA_0_reg`, which change together |
-/
namespace Rx

open Clocked

inductive Chan | a | b
deriving DecidableEq, Repr

/-- The sync bits of a valid frame, with those of the clock before, and the sync bits of a frame of
    channel B at the second place. -/
structure FrameRule where
  diqValid : (regH0 regL0 fsyncH fsyncL : Bool) → Bool
  chB1 : (fsyncH fsyncL fidm : Bool) → Bool
  /-- The frames take turns. -/
  toggles : ∀ rh rl h l, diqValid rh rl h l = true → l = !rl
  chB1_eq : ∀ rh rl h l fidm, diqValid rh rl h l = true → chB1 h l fidm = (l != fidm)

namespace FrameRule

def mimoDdr : FrameRule where
  diqValid rh rl h l := (rh != h) && (h == l) && (rl != l)
  chB1 h _ fidm := h == !fidm
  toggles := by decide
  chB1_eq := by decide

def pulseDdr : FrameRule where
  diqValid rh rl h l := (rh && h) && (rl != l)
  chB1 _ l fidm := l != fidm
  toggles := by decide
  chB1_eq := by decide

end FrameRule

/-- The samples of one clock. -/
structure Frame (w : Nat) where
  l : BitVec w
  h : BitVec w

/-- Two frames in a word of the sample FIFO. -/
def Frame.word {w : Nat} (f g : Frame w) : BitVec (w + w + w + w) := fifoData f.l f.h g.l g.h

def DiqIn.frame {w : Nat} (i : DiqIn w) : Frame w := ⟨i.dataL, i.dataH⟩

inductive CapState | idle | chA0Cap | chA1Cap | chB0Cap | chB1Cap
deriving DecidableEq, Repr

structure RxiqMimoDdr (w : Nat) where
  regH0 : Bool
  regL0 : Bool
  currentState : CapState
  diqChA0Reg : Frame w
  diqChA1Reg : Frame w
  diqChB0Reg : Frame w
  diqChB1Reg : Frame w
  diqChA0Cap : Bool
  diqChA1Cap : Bool
  diqChB0Cap : Bool
  diqChB1Cap : Bool
  fifoWrreqReg : Bool
  fifoWdataReg : BitVec (w + w + w + w)

namespace RxiqMimoDdr

variable {w : Nat} (r : FrameRule) (chEn : BitVec 2) (fidm : Bool)

def init : RxiqMimoDdr w where
  regH0 := false
  regL0 := false
  currentState := .idle
  diqChA0Reg := ⟨0, 0⟩
  diqChA1Reg := ⟨0, 0⟩
  diqChB0Reg := ⟨0, 0⟩
  diqChB1Reg := ⟨0, 0⟩
  diqChA0Cap := false
  diqChA1Cap := false
  diqChB0Cap := false
  diqChB1Cap := false
  fifoWrreqReg := false
  fifoWdataReg := 0

def diqValid (s : RxiqMimoDdr w) (i : DiqIn w) : Bool :=
  r.diqValid s.regH0 s.regL0 i.fsyncH i.fsyncL

def nextState (s : RxiqMimoDdr w) (i : DiqIn w) : CapState :=
  match s.currentState with
  | .idle =>
    if s.diqValid r i then (if chEn.getLsbD 0 then .chA0Cap else .chB0Cap) else .idle
  | .chA0Cap =>
    if s.diqChA0Cap then (if !chEn.getLsbD 1 then .chA1Cap else .chB0Cap) else .chA0Cap
  | .chA1Cap =>
    if s.diqValid r i then (if s.diqChA1Cap then .chA0Cap else .chA1Cap) else .idle
  | .chB0Cap =>
    if s.diqChB0Cap then (if !chEn.getLsbD 0 then .chB1Cap else .chA0Cap) else .chB0Cap
  | .chB1Cap =>
    if s.diqValid r i then (if s.diqChB1Cap then .chB0Cap else .chB1Cap) else .idle

def diqChA0CapEn (s : RxiqMimoDdr w) : Bool := s.currentState == .chA0Cap || chEn == 3
def diqChA1CapEn (s : RxiqMimoDdr w) : Bool := s.currentState == .chA1Cap
def diqChB0CapEn (s : RxiqMimoDdr w) : Bool :=
  s.currentState == .chB0Cap || (chEn == 3 && s.diqChA0Cap)
def diqChB1CapEn (s : RxiqMimoDdr w) : Bool := s.currentState == .chB1Cap

/-- The conditions of the four capture processes. -/
def capA0 (s : RxiqMimoDdr w) (i : DiqIn w) : Bool :=
  i.fsyncL == fidm && s.diqValid r i && s.diqChA0CapEn chEn
def capA1 (s : RxiqMimoDdr w) (i : DiqIn w) : Bool :=
  i.fsyncL == fidm && s.diqValid r i && s.diqChA1CapEn
def capB0 (s : RxiqMimoDdr w) (i : DiqIn w) : Bool :=
  i.fsyncL != fidm && s.diqValid r i && s.diqChB0CapEn chEn
def capB1 (s : RxiqMimoDdr w) (i : DiqIn w) : Bool :=
  r.chB1 i.fsyncH i.fsyncL fidm && s.diqValid r i && s.diqChB1CapEn

def chAData (s : RxiqMimoDdr w) : BitVec (w + w + w + w) := s.diqChA0Reg.word s.diqChA1Reg
def chBData (s : RxiqMimoDdr w) : BitVec (w + w + w + w) := s.diqChB0Reg.word s.diqChB1Reg
def chABData (s : RxiqMimoDdr w) : BitVec (w + w + w + w) := s.diqChA0Reg.word s.diqChB0Reg

def muxFifoWdata (s : RxiqMimoDdr w) : BitVec (w + w + w + w) :=
  if chEn == 3 then s.chABData else if chEn == 2 then s.chBData else s.chAData
def muxFifoWrreq (s : RxiqMimoDdr w) : Bool :=
  if chEn == 3 then s.diqChB0Cap else if chEn == 2 then s.diqChB1Cap else s.diqChA1Cap

def step (s : RxiqMimoDdr w) (i : DiqIn w) : RxiqMimoDdr w where
  regH0 := i.fsyncH
  regL0 := i.fsyncL
  currentState := s.nextState r chEn i
  diqChA0Reg := if s.capA0 r chEn fidm i then i.frame else s.diqChA0Reg
  diqChA1Reg := if s.capA1 r fidm i then i.frame else s.diqChA1Reg
  diqChB0Reg := if s.capB0 r chEn fidm i then i.frame else s.diqChB0Reg
  diqChB1Reg := if s.capB1 r fidm i then i.frame else s.diqChB1Reg
  diqChA0Cap := s.capA0 r chEn fidm i
  diqChA1Cap := s.capA1 r fidm i
  diqChB0Cap := s.capB0 r chEn fidm i
  diqChB1Cap := s.capB1 r fidm i
  fifoWrreqReg := s.muxFifoWrreq chEn
  fifoWdataReg := s.muxFifoWdata chEn

def fifoWrreq (s : RxiqMimoDdr w) (fifoWfull : Bool) : Bool := s.fifoWrreqReg && !fifoWfull

/-- The words written to a FIFO that is not full. -/
def wr (s : RxiqMimoDdr w) : List (BitVec (w + w + w + w)) :=
  if s.fifoWrreq false then [s.fifoWdataReg] else []

/-- The channel of the valid frame this clock brings. -/
def kind (s : RxiqMimoDdr w) (i : DiqIn w) : Option Chan :=
  if s.diqValid r i then some (if i.fsyncL == fidm then .a else .b) else none

end RxiqMimoDdr

def rxiqMimoDdr (w : Nat) (r : FrameRule) (chEn : BitVec 2) (fidm : Bool) :
    Machine (RxiqMimoDdr w) (DiqIn w) := ⟨.init, RxiqMimoDdr.step r chEn fidm⟩

/-- The channels that are enabled. -/
inductive Enabled | chA | chB | both
deriving DecidableEq, Repr

namespace Enabled

def chEn : Enabled → BitVec 2
  | chA => 1
  | chB => 2
  | both => 3

/-- The channel of the first and of the second frame of a word. -/
def first : Enabled → Chan
  | chA | both => .a
  | chB => .b
def second : Enabled → Chan
  | chA => .a
  | chB | both => .b

end Enabled

namespace RxiqMimoDdr

variable {w : Nat} {r : FrameRule} {e : Enabled} {fidm : Bool} {s : RxiqMimoDdr w} {i : DiqIn w}

/-! ### What a clock brings -/

/-- After a valid frame the next one can only be of the other channel. -/
theorem kind_eq_a (h : s.kind r fidm i = some .a) :
    s.diqValid r i = true ∧ i.fsyncL = fidm ∧ s.regL0 = !fidm := by
  unfold kind at h
  cases hv : s.diqValid r i with
  | false => rw [hv] at h; cases h
  | true =>
    have ht := r.toggles _ _ _ _ hv
    rw [hv, if_pos rfl] at h
    by_cases hl : i.fsyncL = fidm
    · refine ⟨rfl, hl, ?_⟩
      rw [← hl, ht, Bool.not_not]
    · rw [if_neg (by simpa using hl)] at h
      cases h

theorem kind_eq_b (h : s.kind r fidm i = some .b) :
    s.diqValid r i = true ∧ i.fsyncL = (!fidm) ∧ s.regL0 = fidm := by
  unfold kind at h
  cases hv : s.diqValid r i with
  | false => rw [hv] at h; cases h
  | true =>
    have ht := r.toggles _ _ _ _ hv
    rw [hv, if_pos rfl] at h
    by_cases hl : i.fsyncL = fidm
    · rw [if_pos (by simpa using hl)] at h
      cases h
    · have hl' : i.fsyncL = !fidm := Bool.eq_not.2 hl
      refine ⟨rfl, hl', ?_⟩
      rw [hl'] at ht
      exact (Bool.not_inj ht).symm

theorem kind_eq_none (h : s.kind r fidm i = none) : s.diqValid r i = false := by
  unfold kind at h
  cases hv : s.diqValid r i with
  | false => rfl
  | true => rw [hv] at h; cases h

/-- A capture process fires for frames of its channel while it is enabled. -/
theorem capA0_eq (chEn : BitVec 2) : s.capA0 r chEn fidm i =
    (s.kind r fidm i == some .a && s.diqChA0CapEn chEn) := by
  unfold capA0 kind
  cases s.diqValid r i <;> cases i.fsyncL == fidm <;> rfl

theorem capA1_eq : s.capA1 r fidm i = (s.kind r fidm i == some .a && s.diqChA1CapEn) := by
  unfold capA1 kind
  cases s.diqValid r i <;> cases i.fsyncL == fidm <;> rfl

theorem capB0_eq (chEn : BitVec 2) : s.capB0 r chEn fidm i =
    (s.kind r fidm i == some .b && s.diqChB0CapEn chEn) := by
  unfold capB0 kind
  rw [bne]
  cases s.diqValid r i <;> cases i.fsyncL == fidm <;> rfl

theorem capB1_eq : s.capB1 r fidm i = (s.kind r fidm i == some .b && s.diqChB1CapEn) := by
  unfold capB1
  cases hk : s.kind r fidm i with
  | none =>
    rw [kind_eq_none hk, Bool.and_false]
    rfl
  | some c =>
    cases c with
    | a =>
      obtain ⟨hv, hl, _⟩ := kind_eq_a hk
      rw [r.chB1_eq _ _ _ _ _ hv, hl]
      simp
    | b =>
      obtain ⟨hv, hl, _⟩ := kind_eq_b hk
      rw [r.chB1_eq _ _ _ _ _ hv, hl, hv]
      cases fidm <;> rfl

/-! ### The first and the second frame of a word -/

variable (r fidm) in
def firstCap (e : Enabled) (s : RxiqMimoDdr w) (i : DiqIn w) : Bool :=
  match e with
  | .chA | .both => s.capA0 r e.chEn fidm i
  | .chB => s.capB0 r e.chEn fidm i

variable (r fidm) in
def secondCap (e : Enabled) (s : RxiqMimoDdr w) (i : DiqIn w) : Bool :=
  match e with
  | .chA => s.capA1 r fidm i
  | .chB => s.capB1 r fidm i
  | .both => s.capB0 r e.chEn fidm i

def firstReg (e : Enabled) (s : RxiqMimoDdr w) : Frame w :=
  match e with
  | .chA | .both => s.diqChA0Reg
  | .chB => s.diqChB0Reg

def secondReg (e : Enabled) (s : RxiqMimoDdr w) : Frame w :=
  match e with
  | .chA => s.diqChA1Reg
  | .chB => s.diqChB1Reg
  | .both => s.diqChB0Reg

/-- The first, the second frame was captured in the clock before. -/
def firstFlag (e : Enabled) (s : RxiqMimoDdr w) : Bool :=
  match e with
  | .chA | .both => s.diqChA0Cap
  | .chB => s.diqChB0Cap

def secondFlag (e : Enabled) (s : RxiqMimoDdr w) : Bool :=
  match e with
  | .chA => s.diqChA1Cap
  | .chB => s.diqChB1Cap
  | .both => s.diqChB0Cap

variable (r fidm e s i)

theorem firstFlag_step : (s.step r e.chEn fidm i).firstFlag e = s.firstCap r fidm e i := by
  cases e <;> rfl

theorem secondFlag_step : (s.step r e.chEn fidm i).secondFlag e = s.secondCap r fidm e i := by
  cases e <;> rfl

theorem firstReg_step : (s.step r e.chEn fidm i).firstReg e =
    if s.firstCap r fidm e i then i.frame else s.firstReg e := by
  cases e <;> rfl

theorem secondReg_step : (s.step r e.chEn fidm i).secondReg e =
    if s.secondCap r fidm e i then i.frame else s.secondReg e := by
  cases e <;> rfl

theorem muxFifoWrreq_eq : s.muxFifoWrreq e.chEn = s.secondFlag e := by
  cases e <;> rfl

theorem muxFifoWdata_eq : s.muxFifoWdata e.chEn = (s.firstReg e).word (s.secondReg e) := by
  cases e <;> rfl

variable {r fidm e s i}

/-- The state in which the first, the second frame is expected. -/
def firstState (e : Enabled) : CapState :=
  match e with
  | .chA | .both => .chA0Cap
  | .chB => .chB0Cap

def secondState (e : Enabled) : CapState :=
  match e with
  | .chA => .chA1Cap
  | .chB => .chB1Cap
  | .both => .chB0Cap

theorem firstState_ne (e : Enabled) : firstState e ≠ .idle := by cases e <;> decide
theorem secondState_ne (e : Enabled) : secondState e ≠ .idle := by cases e <;> decide
theorem secondState_ne_first (e : Enabled) : secondState e ≠ firstState e := by cases e <;> decide

theorem idle_beq_second (e : Enabled) : (CapState.idle == secondState e) = false := by
  cases e <;> rfl
theorem first_beq_second (e : Enabled) : (firstState e == secondState e) = false := by
  cases e <;> rfl

theorem firstCap_eq : s.firstCap r fidm e i =
    (s.kind r fidm i == some e.first && (s.currentState == firstState e || e == .both)) := by
  cases e with
  | chA => rw [firstCap, capA0_eq]; rfl
  | chB => rw [firstCap, capB0_eq]; rfl
  | both => rw [firstCap, capA0_eq]; rfl

theorem secondCap_eq : s.secondCap r fidm e i = (s.kind r fidm i == some e.second &&
    (s.currentState == secondState e || (e == .both && s.firstFlag e))) := by
  cases e with
  | chA => rw [secondCap, capA1_eq]; exact congrArg _ (Bool.or_false _).symm
  | chB => rw [secondCap, capB1_eq]; exact congrArg _ (Bool.or_false _).symm
  | both => rw [secondCap, capB0_eq]; rfl

theorem next_idle (h : s.currentState = .idle) : s.nextState r e.chEn i =
    if s.diqValid r i then firstState e else .idle := by
  rw [nextState, h]
  cases e <;> rfl

theorem next_first (h : s.currentState = firstState e) : s.nextState r e.chEn i =
    if s.firstFlag e then secondState e else firstState e := by
  rw [nextState, h]
  cases e <;> rfl

theorem next_second (h : s.currentState = secondState e) : s.nextState r e.chEn i =
    if s.diqValid r i || e == .both then (if s.secondFlag e then firstState e else secondState e)
    else .idle := by
  rw [nextState, h]
  cases e with
  | chA => exact congrArg (if · = true then _ else _) (Bool.or_false _).symm
  | chB => exact congrArg (if · = true then _ else _) (Bool.or_false _).symm
  | both => rw [show (Enabled.both == Enabled.both) = true from rfl, Bool.or_true]; rfl

/-- The sync bit of the frames of a channel. -/
def sync (fidm : Bool) : Chan → Bool
  | .a => fidm
  | .b => !fidm

theorem kind_eq_some {c : Chan} (h : s.kind r fidm i = some c) :
    s.diqValid r i = true ∧ i.fsyncL = sync fidm c ∧ s.regL0 = !sync fidm c := by
  cases c with
  | a => exact kind_eq_a h
  | b =>
    obtain ⟨hv, hl, hr⟩ := kind_eq_b h
    exact ⟨hv, hl, by rw [hr, sync, Bool.not_not]⟩

theorem first_eq_second (h : e ≠ .both) : e.first = e.second := by
  cases e with
  | chA => rfl
  | chB => rfl
  | both => exact absurd rfl h

/-- A first frame waits for its second. -/
def waits (e : Enabled) (s : RxiqMimoDdr w) : Bool :=
  s.firstFlag e || (s.currentState == secondState e && !s.secondFlag e)

/-- The state goes with the captures of the clock before. -/
structure Coupled (e : Enabled) (fidm : Bool) (s : RxiqMimoDdr w) : Prop where
  state : s.currentState = .idle ∨ s.currentState = firstState e ∨ s.currentState = secondState e
  first : s.firstFlag e → s.regL0 = sync fidm e.first ∧ s.currentState ≠ .idle ∧
    (e ≠ .both → s.currentState = firstState e)
  second : s.secondFlag e → s.regL0 = sync fidm e.second ∧
    (e ≠ .both → s.currentState = secondState e)

namespace Coupled

theorem init (e : Enabled) (fidm : Bool) : Coupled e fidm (RxiqMimoDdr.init : RxiqMimoDdr w) := by
  refine ⟨.inl rfl, ?_, ?_⟩ <;> cases e <;> exact nofun

/-- The frame right behind a captured one is of the other channel. -/
theorem not_first (h : Coupled e fidm s) (hk : s.kind r fidm i = some e.first) :
    s.firstFlag e = false := by
  refine Bool.eq_false_iff.2 fun hf => ?_
  have h1 := (h.first hf).1
  have h2 := (kind_eq_some hk).2.2
  rw [h1] at h2
  exact absurd h2 (by cases sync fidm e.first <;> decide)

theorem not_second (h : Coupled e fidm s) (hk : s.kind r fidm i = some e.second) :
    s.secondFlag e = false := by
  refine Bool.eq_false_iff.2 fun hf => ?_
  have h1 := (h.second hf).1
  have h2 := (kind_eq_some hk).2.2
  rw [h1] at h2
  exact absurd h2 (by cases sync fidm e.second <;> decide)

theorem not_both_flags (h : Coupled e fidm s) (hf : s.firstFlag e) : s.secondFlag e = false := by
  refine Bool.eq_false_iff.2 fun hs => ?_
  by_cases he : e = .both
  · have h1 := (h.first hf).1
    have h2 := (h.second hs).1
    rw [h1, he] at h2
    exact absurd h2 (by cases fidm <;> decide)
  · have h1 := (h.first hf).2.2 he
    rw [(h.second hs).2 he] at h1
    exact secondState_ne_first e h1

theorem waits_of_secondCap (h : Coupled e fidm s) (hc : s.secondCap r fidm e i) : s.waits e := by
  rw [secondCap_eq, Bool.and_eq_true, beq_iff_eq, Bool.or_eq_true, Bool.and_eq_true] at hc
  obtain ⟨hk, hst | hf⟩ := hc
  · rw [waits, h.not_second hk, hst]
    simp
  · rw [waits, hf.2]
    rfl

/-- While a first frame waits the next second frame is captured. -/
theorem secondCap_of_waits (h : Coupled e fidm s) (hw : s.waits e)
    (hk : s.kind r fidm i = some e.second) : s.secondCap r fidm e i := by
  rw [waits, Bool.or_eq_true, Bool.and_eq_true, beq_iff_eq] at hw
  rw [secondCap_eq, hk]
  rcases hw with hf | ⟨hst, _⟩
  · by_cases he : e = .both
    · subst he
      rw [hf]
      simp
    · rw [h.not_first (by rw [hk, first_eq_second he])] at hf
      cases hf
  · simp [hst]

/-- While a first frame waits no frame of an enabled channel is missed. -/
theorem captured_of_waits (h : Coupled e fidm s) (hw : s.waits e)
    (hk : s.kind r fidm i = some e.first ∨ s.kind r fidm i = some e.second) :
    s.firstCap r fidm e i ∨ s.secondCap r fidm e i := by
  rcases hk with hk | hk
  · by_cases he : e = .both
    · exact .inl (by rw [firstCap_eq, hk]; simp [he])
    · exact .inr (h.secondCap_of_waits hw (by rw [hk, first_eq_second he]))
  · exact .inr (h.secondCap_of_waits hw hk)

theorem not_both_caps (hf : s.firstCap r fidm e i) : s.secondCap r fidm e i = false := by
  refine Bool.eq_false_iff.2 fun hs => ?_
  rw [firstCap_eq, Bool.and_eq_true, beq_iff_eq, Bool.or_eq_true] at hf
  rw [secondCap_eq, Bool.and_eq_true, beq_iff_eq, Bool.or_eq_true] at hs
  by_cases he : e = .both
  · subst he
    rw [hf.1] at hs
    exact absurd hs.1 (by decide)
  · have h1 : s.currentState = firstState e := by simpa [he] using hf.2
    have h2 : s.currentState = secondState e := by simpa [he] using hs.2
    rw [h2] at h1
    exact secondState_ne_first e h1

theorem next_ne_idle (h : Coupled e fidm s) (hv : s.diqValid r i = true) :
    s.nextState r e.chEn i ≠ .idle := by
  rcases h.state with hst | hst | hst
  · rw [next_idle hst, if_pos hv]
    exact firstState_ne e
  · rw [next_first hst]
    split
    · exact secondState_ne e
    · exact firstState_ne e
  · rw [next_second hst, hv, Bool.true_or, if_pos rfl]
    split
    · exact firstState_ne e
    · exact secondState_ne e

/-- What waits after a clock. -/
theorem waits_step (h : Coupled e fidm s) : (s.step r e.chEn fidm i).waits e =
    (s.firstCap r fidm e i ||
      (s.waits e && !s.secondCap r fidm e i && s.nextState r e.chEn i != .idle)) := by
  have hw : (s.step r e.chEn fidm i).waits e = (s.firstCap r fidm e i ||
      (s.nextState r e.chEn i == secondState e && !s.secondCap r fidm e i)) := by
    rw [waits, firstFlag_step, secondFlag_step]
    rfl
  rw [hw]
  cases s.firstCap r fidm e i with
  | true => rfl
  | false =>
    cases s.secondCap r fidm e i with
    | true => simp
    | false =>
      simp only [Bool.false_or, Bool.not_false, Bool.and_true]
      rcases h.state with hst | hst | hst
      · have hf : s.firstFlag e = false :=
          Bool.eq_false_iff.2 fun hf => (h.first hf).2.1 hst
        rw [next_idle hst, waits, hf, hst, idle_beq_second]
        split
        · exact first_beq_second e
        · exact idle_beq_second e
      · rw [next_first hst, waits, hst, first_beq_second]
        cases s.firstFlag e with
        | false => exact first_beq_second e
        | true => simp [secondState_ne]
      · rw [next_second hst, waits, hst]
        cases hv : s.diqValid r i || e == .both with
        | false => simp [idle_beq_second]
        | true =>
          cases hs : s.secondFlag e with
          | false => simp [secondState_ne]
          | true =>
            have hf : s.firstFlag e = false := Bool.eq_false_iff.2 fun hf => by
              rw [h.not_both_flags hf] at hs
              cases hs
            simp [hf, first_beq_second]

theorem step (h : Coupled e fidm s) : Coupled e fidm (s.step r e.chEn fidm i) := by
  refine ⟨?_, ?_, ?_⟩
  · show s.nextState r e.chEn i = _ ∨ s.nextState r e.chEn i = _ ∨ s.nextState r e.chEn i = _
    rcases h.state with hst | hst | hst
    · rw [next_idle hst]
      split <;> simp
    · rw [next_first hst]
      split <;> simp
    · rw [next_second hst]
      split
      · split <;> simp
      · simp
  · rw [firstFlag_step]
    intro hf
    have hf' := hf
    rw [firstCap_eq, Bool.and_eq_true, beq_iff_eq, Bool.or_eq_true] at hf'
    obtain ⟨hv, hl, _⟩ := kind_eq_some hf'.1
    refine ⟨hl, h.next_ne_idle hv, fun he => ?_⟩
    have hst : s.currentState = firstState e := by simpa [he] using hf'.2
    show s.nextState r e.chEn i = _
    rw [next_first hst, h.not_first hf'.1]
    rfl
  · rw [secondFlag_step]
    intro hs
    rw [secondCap_eq, Bool.and_eq_true, beq_iff_eq, Bool.or_eq_true] at hs
    obtain ⟨hv, hl, _⟩ := kind_eq_some hs.1
    refine ⟨hl, fun he => ?_⟩
    have hst : s.currentState = secondState e := by simpa [he] using hs.2
    show s.nextState r e.chEn i = _
    rw [next_second hst, hv, h.not_second hs.1]
    rfl

/-- Once the receiver is not idle every first frame of a channel alone, and every frame of channel A
    beside channel B, is captured. -/
theorem captured_of_ne_idle (h : Coupled e fidm s) (hi : s.currentState ≠ .idle)
    (hk : s.kind r fidm i = some e.first) :
    s.firstCap r fidm e i ∨ e ≠ .both ∧ s.secondCap r fidm e i := by
  rw [firstCap_eq, secondCap_eq, hk]
  by_cases he : e = .both
  · exact .inl (by simp [he])
  · have hk2 := first_eq_second he
    rcases h.state with hst | hst | hst
    · exact absurd hst hi
    · exact .inl (by simp [hst])
    · exact .inr ⟨he, by simp [hst, hk2]⟩

end Coupled

/-! ### A run -/

/-- The clocks of the frames captured for a word: of the one that waits, and of the complete pairs. -/
structure Pairing where
  first : Option Nat
  pairs : List (Nat × Nat)

/-- Clock `n`, with the first, the second frame captured, or the FSM back to `idle`. -/
def Pairing.step (g : Pairing) (n : Nat) (fc sc idle : Bool) : Pairing :=
  if fc then ⟨some n, g.pairs⟩
  else if sc then ⟨none, g.pairs ++ g.first.toList.map fun a => (a, n)⟩
  else if idle then ⟨none, g.pairs⟩
  else g

section

variable (r : FrameRule) (e : Enabled) (fidm : Bool) (x : Nat → DiqIn w)

abbrev stateAt (n : Nat) : RxiqMimoDdr w := (rxiqMimoDdr w r e.chEn fidm).state x n

/-- The words written in the clocks before `n`. -/
def written (n : Nat) : List (BitVec (w + w + w + w)) :=
  (rxiqMimoDdr w r e.chEn fidm).log (fun s _ => s.wr) x n

/-- The channel of the valid frame of clock `n`. -/
def kindAt (n : Nat) : Option Chan := (stateAt r e fidm x n).kind r fidm (x n)

/-- Clock `n` brings a frame of an enabled channel. -/
def Wanted (n : Nat) : Prop :=
  kindAt r e fidm x n = some e.first ∨ kindAt r e fidm x n = some e.second

/-- Two frames that belong in one word. -/
structure IsPair (p : Nat × Nat) : Prop where
  lt : p.1 < p.2
  first : kindAt r e fidm x p.1 = some e.first
  second : kindAt r e fidm x p.2 = some e.second
  between : ∀ t, p.1 < t → t < p.2 → ¬ Wanted r e fidm x t

def wordAt (p : Nat × Nat) : BitVec (w + w + w + w) := (x p.1).frame.word (x p.2).frame

def pairing : Nat → Pairing
  | 0 => ⟨none, []⟩
  | n + 1 => (pairing n).step n ((stateAt r e fidm x n).firstCap r fidm e (x n))
      ((stateAt r e fidm x n).secondCap r fidm e (x n))
      ((stateAt r e fidm x n).nextState r e.chEn (x n) == .idle)

/-- The word on its way to the output register. -/
def muxed (s : RxiqMimoDdr w) : List (BitVec (w + w + w + w)) :=
  if s.muxFifoWrreq e.chEn then [s.muxFifoWdata e.chEn] else []

structure Follows (n : Nat) (g : Pairing) : Prop where
  coupled : Coupled e fidm (stateAt r e fidm x n)
  waits : (stateAt r e fidm x n).waits e = g.first.isSome
  first : ∀ a, g.first = some a → a < n ∧ kindAt r e fidm x a = some e.first ∧
    (stateAt r e fidm x n).firstReg e = (x a).frame ∧
    (∀ t, a < t → t < n → ¬ Wanted r e fidm x t) ∧ ∀ p ∈ g.pairs, p.2 < a
  pairs : ∀ p ∈ g.pairs, IsPair r e fidm x p ∧ p.2 < n
  ordered : g.pairs.Pairwise fun p q => p.2 < q.1
  words : written r e fidm x n ++ (stateAt r e fidm x n).wr ++ muxed e (stateAt r e fidm x n) =
    g.pairs.map (wordAt x)

variable {r e fidm x}

theorem wr_succ (n : Nat) : (stateAt r e fidm x (n + 1)).wr = muxed e (stateAt r e fidm x n) := by
  show (if (_ && !false) then _ else _) = _
  rw [Bool.not_false, Bool.and_true]
  rfl

theorem muxed_succ (n : Nat) : muxed e (stateAt r e fidm x (n + 1)) =
    if (stateAt r e fidm x n).secondCap r fidm e (x n) then
      [((stateAt r e fidm x (n + 1)).firstReg e).word ((stateAt r e fidm x (n + 1)).secondReg e)]
    else [] := by
  rw [muxed, muxFifoWrreq_eq, muxFifoWdata_eq]
  show (if ((stateAt r e fidm x n).step r e.chEn fidm (x n)).secondFlag e then _ else _) = _
  rw [secondFlag_step]

theorem written_muxed {n : Nat} {l : List (BitVec (w + w + w + w))}
    (h : written r e fidm x n ++ (stateAt r e fidm x n).wr ++ muxed e (stateAt r e fidm x n) = l) :
    written r e fidm x (n + 1) ++ (stateAt r e fidm x (n + 1)).wr = l := by
  rw [wr_succ, ← h]
  rfl

section step

variable {n : Nat} {g : Pairing}

theorem Follows.pairs_succ (h : Follows r e fidm x n g) :
    ∀ p ∈ g.pairs, IsPair r e fidm x p ∧ p.2 < n + 1 := by
  intro p hp
  exact ⟨(h.pairs p hp).1, Nat.lt_succ_of_lt (h.pairs p hp).2⟩

/-- The first half of a pair is captured: nothing is written, and the capture waits. -/
theorem Follows.step_first (h : Follows r e fidm x n g)
    (hfc : (stateAt r e fidm x n).firstCap r fidm e (x n) = true) :
    Follows r e fidm x (n + 1) ⟨some n, g.pairs⟩ := by
  have hwaits : (stateAt r e fidm x (n + 1)).waits e = _ := h.coupled.waits_step (r := r) (i := x n)
  have hreg : (stateAt r e fidm x (n + 1)).firstReg e = _ := firstReg_step r e fidm _ (x n)
  have hmux : muxed e (stateAt r e fidm x (n + 1)) = _ := muxed_succ n
  have hsc := Coupled.not_both_caps hfc
  rw [hfc] at hwaits hreg
  rw [hsc, if_neg (by decide)] at hmux
  refine ⟨h.coupled.step, hwaits, ?_, h.pairs_succ, h.ordered, ?_⟩
  · rintro _ ⟨⟩
    have hk := hfc
    rw [firstCap_eq, Bool.and_eq_true, beq_iff_eq] at hk
    refine ⟨Nat.lt_succ_self n, hk.1, hreg, fun t h1 h2 => absurd h1 (by omega), ?_⟩
    exact fun p hp => (h.pairs p hp).2
  · rw [hmux, List.append_nil, written_muxed h.words]

/-- The second half is captured: the word of the pair is behind the multiplexer. -/
theorem Follows.step_second (h : Follows r e fidm x n g)
    (hfc : (stateAt r e fidm x n).firstCap r fidm e (x n) = false)
    (hsc : (stateAt r e fidm x n).secondCap r fidm e (x n) = true) {a : Nat}
    (ha : g.first = some a) : Follows r e fidm x (n + 1) ⟨none, g.pairs ++ [(a, n)]⟩ := by
  have hwaits : (stateAt r e fidm x (n + 1)).waits e = _ := h.coupled.waits_step (r := r) (i := x n)
  have hreg : (stateAt r e fidm x (n + 1)).firstReg e = _ := firstReg_step r e fidm _ (x n)
  have hreg2 : (stateAt r e fidm x (n + 1)).secondReg e = _ := secondReg_step r e fidm _ (x n)
  have hmux : muxed e (stateAt r e fidm x (n + 1)) = _ := muxed_succ n
  obtain ⟨hlt, hk1, hra, hbet, hold⟩ := h.first a ha
  have hk2 := hsc
  rw [secondCap_eq, Bool.and_eq_true, beq_iff_eq] at hk2
  rw [hfc, if_neg (by decide)] at hreg
  rw [hsc, if_pos rfl] at hreg2 hmux
  refine ⟨h.coupled.step, ?_, nofun, ?_, ?_, ?_⟩
  · rw [hwaits, hfc, hsc]
    simp
  · intro p hp
    rcases List.mem_append.1 hp with hp | hp
    · exact h.pairs_succ p hp
    · obtain rfl := List.mem_singleton.1 hp
      exact ⟨⟨hlt, hk1, hk2.1, hbet⟩, Nat.lt_succ_self n⟩
  · refine List.pairwise_append.2 ⟨h.ordered, List.pairwise_singleton _ _, ?_⟩
    intro p hp q hq
    obtain rfl := List.mem_singleton.1 hq
    exact hold p hp
  · rw [hmux, written_muxed h.words, hreg, hreg2, hra, List.map_append]
    rfl

/-- With nothing captured the pairs stay, and so does a first half unless the state machine goes back to
    `idle`. -/
theorem Follows.step_rest (h : Follows r e fidm x n g)
    (hfc : (stateAt r e fidm x n).firstCap r fidm e (x n) = false)
    (hsc : (stateAt r e fidm x n).secondCap r fidm e (x n) = false) :
    Follows r e fidm x (n + 1)
      (if (stateAt r e fidm x n).nextState r e.chEn (x n) == .idle then ⟨none, g.pairs⟩ else g) := by
  have hwaits : (stateAt r e fidm x (n + 1)).waits e = _ := h.coupled.waits_step (r := r) (i := x n)
  have hreg : (stateAt r e fidm x (n + 1)).firstReg e = _ := firstReg_step r e fidm _ (x n)
  have hmux : muxed e (stateAt r e fidm x (n + 1)) = _ := muxed_succ n
  have hwords := written_muxed h.words
  rw [hfc, if_neg (by decide)] at hreg
  rw [hsc, if_neg (by decide)] at hmux
  rw [hfc, Bool.false_or, hsc, Bool.not_false, Bool.and_true, h.waits] at hwaits
  cases hidle : (stateAt r e fidm x n).nextState r e.chEn (x n) == .idle with
  | true =>
    rw [if_pos rfl]
    refine ⟨h.coupled.step, ?_, nofun, h.pairs_succ, h.ordered, ?_⟩
    · rw [hwaits, bne, hidle]
      simp
    · rw [hmux, List.append_nil, hwords]
  | false =>
    rw [if_neg (by decide)]
    refine ⟨h.coupled.step, ?_, fun a ha => ?_, h.pairs_succ, h.ordered, ?_⟩
    · rw [hwaits, bne, hidle]
      simp
    · obtain ⟨hlt, hk1, hra, hbet, hold⟩ := h.first a ha
      refine ⟨Nat.lt_succ_of_lt hlt, hk1, by rw [hreg, hra], fun t h1 h2 => ?_, hold⟩
      by_cases ht : t = n
      · subst ht
        intro hwant
        have hw : (stateAt r e fidm x t).waits e := by rw [h.waits, ha]; rfl
        rcases h.coupled.captured_of_waits hw hwant with hf | hs
        · rw [hfc] at hf; cases hf
        · rw [hsc] at hs; cases hs
      · exact hbet t h1 (by omega)
    · rw [hmux, List.append_nil, hwords]

theorem Follows.step (h : Follows r e fidm x n g) :
    Follows r e fidm x (n + 1) (g.step n ((stateAt r e fidm x n).firstCap r fidm e (x n))
      ((stateAt r e fidm x n).secondCap r fidm e (x n))
      ((stateAt r e fidm x n).nextState r e.chEn (x n) == .idle)) := by
  cases hfc : (stateAt r e fidm x n).firstCap r fidm e (x n) with
  | true => exact h.step_first hfc
  | false =>
    cases hsc : (stateAt r e fidm x n).secondCap r fidm e (x n) with
    | true =>
      obtain ⟨a, ha⟩ := Option.isSome_iff_exists.1 (h.waits ▸ h.coupled.waits_of_secondCap hsc)
      rw [Pairing.step, if_neg (by decide), if_pos rfl, ha]
      exact h.step_second hfc hsc ha
    | false => exact h.step_rest hfc hsc

end step

theorem follows (n : Nat) : Follows r e fidm x n (pairing r e fidm x n) := by
  induction n with
  | zero =>
    refine ⟨.init e fidm, ?_, nofun, nofun, List.Pairwise.nil, ?_⟩
    · cases e <;> rfl
    · cases e <;> rfl
  | succ n ih => exact ih.step

/-! ### An uninterrupted stream -/

theorem pairs_grow {n m : Nat} (h : n ≤ m) {p : Nat × Nat} (hp : p ∈ (pairing r e fidm x n).pairs) :
    p ∈ (pairing r e fidm x m).pairs := by
  induction m with
  | zero => rwa [Nat.le_zero.1 h] at hp
  | succ m ih =>
    by_cases hm : n = m + 1
    · subst hm
      exact hp
    · have := ih (by omega)
      show p ∈ ((pairing r e fidm x m).step _ _ _ _).pairs
      unfold Pairing.step
      split
      · exact this
      · split
        · exact List.mem_append_left _ this
        · split <;> exact this

/-- A first frame captured in clock `n` waits. -/
theorem first_of_firstCap {n : Nat} (h : (stateAt r e fidm x n).firstCap r fidm e (x n)) :
    (pairing r e fidm x (n + 1)).first = some n := by
  show ((pairing r e fidm x n).step _ _ _ _).first = _
  rw [Pairing.step, if_pos h]

/-- A second frame captured in clock `n` makes a pair. -/
theorem pair_of_secondCap {n : Nat} (h : (stateAt r e fidm x n).secondCap r fidm e (x n)) :
    ∃ a, (pairing r e fidm x n).first = some a ∧ (a, n) ∈ (pairing r e fidm x (n + 1)).pairs := by
  have hf : Follows r e fidm x n _ := follows n
  obtain ⟨a, ha⟩ := Option.isSome_iff_exists.1 (hf.waits ▸ hf.coupled.waits_of_secondCap h)
  have hfc : (stateAt r e fidm x n).firstCap r fidm e (x n) = false :=
    Bool.eq_false_iff.2 fun hfc => by rw [Coupled.not_both_caps hfc] at h; cases h
  refine ⟨a, ha, ?_⟩
  show (a, n) ∈ ((pairing r e fidm x n).step _ _ _ _).pairs
  rw [Pairing.step, if_neg (by rw [hfc]; decide), if_pos h, ha]
  exact List.mem_append_right _ (List.mem_singleton.2 rfl)

theorem waits_of_first {n a : Nat} (h : (pairing r e fidm x n).first = some a) :
    (stateAt r e fidm x n).waits e := by
  rw [(follows n).waits, h]
  rfl

/-- From clock `t` on every clock brings a valid frame. -/
def Uninterrupted (r : FrameRule) (e : Enabled) (fidm : Bool) (x : Nat → DiqIn w) (t : Nat) : Prop :=
  ∀ k, t ≤ k → kindAt r e fidm x k ≠ none

theorem valid_of_kind {n : Nat} (h : kindAt r e fidm x n ≠ none) :
    (stateAt r e fidm x n).diqValid r (x n) = true := by
  cases hk : kindAt r e fidm x n with
  | none => exact absurd hk h
  | some c => exact (kind_eq_some hk).1

theorem not_idle {t k : Nat} (h : Uninterrupted r e fidm x t) (hk : t < k) :
    (stateAt r e fidm x k).currentState ≠ .idle := by
  obtain ⟨j, rfl⟩ : ∃ j, k = j + 1 := ⟨k - 1, by omega⟩
  exact (follows j).coupled.next_ne_idle (valid_of_kind (h j (by omega)))

/-- The channels take turns. -/
theorem kind_succ {n : Nat} {c : Chan} (h : kindAt r e fidm x n = some c) :
    kindAt r e fidm x (n + 1) ≠ some c := by
  intro h'
  have h1 := (kind_eq_some h).2.1
  have h2 : (x n).fsyncL = !sync fidm c := (kind_eq_some h').2.2
  rw [h1] at h2
  exact absurd h2 (by cases sync fidm c <;> decide)

/-- The frame after the next is of the same channel. -/
theorem kind_succ_succ {t n : Nat} {c : Chan} (h : Uninterrupted r e fidm x t) (hn : t ≤ n)
    (hk : kindAt r e fidm x n = some c) : kindAt r e fidm x (n + 2) = some c := by
  have h1 := kind_succ hk
  have h1' := h (n + 1) (by omega)
  have h2' := h (n + 2) (by omega)
  cases hk1 : kindAt r e fidm x (n + 1) with
  | none => exact absurd hk1 h1'
  | some d =>
    have h2 := kind_succ hk1
    rw [hk1] at h1
    cases hk2 : kindAt r e fidm x (n + 2) with
    | none => exact absurd hk2 h2'
    | some f =>
      rw [show n + 1 + 1 = n + 2 from rfl, hk2] at h2
      cases c <;> cases d <;> cases f <;> first | rfl | exact absurd rfl h1 | exact absurd rfl h2

/-- In an uninterrupted stream every frame of an enabled channel after the first pair is in a pair
    two clocks later. -/
theorem all_paired {t n : Nat} (h : Uninterrupted r e fidm x t) (hn : t + 2 ≤ n)
    (hw : Wanted r e fidm x n) :
    ∃ p ∈ (pairing r e fidm x (n + 3)).pairs, p.1 = n ∨ p.2 = n := by
  have hc : Coupled e fidm (stateAt r e fidm x n) := (follows n).coupled
  by_cases he : e = .both
  · rcases hw with hk | hk
    · -- a frame of channel A: the next one is its partner
      have hfc := (hc.captured_of_ne_idle (not_idle h (by omega)) hk).resolve_right
        fun hs => hs.1 he
      have hk1 : kindAt r e fidm x (n + 1) = some e.second := by
        have h1 := kind_succ hk
        have h1' := h (n + 1) (by omega)
        subst he
        cases hk1 : kindAt r .both fidm x (n + 1) with
        | none => exact absurd hk1 h1'
        | some d =>
          cases d with
          | a => exact absurd hk1 h1
          | b => rfl
      have hf := first_of_firstCap hfc
      obtain ⟨a, ha, hp⟩ :=
        pair_of_secondCap ((follows (n + 1)).coupled.secondCap_of_waits (waits_of_first hf) hk1)
      obtain rfl : n = a := Option.some.inj (hf.symm.trans ha)
      exact ⟨_, pairs_grow (Nat.le_succ _) hp, .inl rfl⟩
    · -- a frame of channel B: the one before is its partner
      obtain ⟨m, rfl⟩ : ∃ m, n = m + 1 := ⟨n - 1, by omega⟩
      have hm : kindAt r e fidm x m = some e.first := by
        have h0' := h m (by omega)
        subst he
        cases hk0 : kindAt r .both fidm x m with
        | none => exact absurd hk0 h0'
        | some d =>
          cases d with
          | a => rfl
          | b => exact absurd hk (kind_succ hk0)
      have hfc := ((follows m).coupled.captured_of_ne_idle (not_idle h (by omega)) hm).resolve_right
        fun hs => hs.1 he
      obtain ⟨a, _, hp⟩ :=
        pair_of_secondCap (hc.secondCap_of_waits (waits_of_first (first_of_firstCap hfc)) hk)
      exact ⟨_, pairs_grow (by omega) hp, .inr rfl⟩
  · have hk : kindAt r e fidm x n = some e.first :=
      hw.elim id fun hk => by rw [hk, first_eq_second he]
    rcases hc.captured_of_ne_idle (not_idle h (by omega)) hk with hfc | ⟨_, hsc⟩
    · -- the clock between brings the other channel, and nothing changes
      have hf := first_of_firstCap hfc
      have hc1 : Coupled e fidm (stateAt r e fidm x (n + 1)) := (follows (n + 1)).coupled
      have hno : ∀ c, c = e.first → kindAt r e fidm x (n + 1) ≠ some c :=
        fun c hce => hce ▸ kind_succ hk
      have hfc1 : (stateAt r e fidm x (n + 1)).firstCap r fidm e (x (n + 1)) = false := by
        refine Bool.eq_false_iff.2 fun hfc1 => ?_
        rw [firstCap_eq, Bool.and_eq_true, beq_iff_eq] at hfc1
        exact hno _ rfl hfc1.1
      have hsc1 : (stateAt r e fidm x (n + 1)).secondCap r fidm e (x (n + 1)) = false := by
        refine Bool.eq_false_iff.2 fun hsc1 => ?_
        rw [secondCap_eq, Bool.and_eq_true, beq_iff_eq] at hsc1
        exact hno _ (first_eq_second he).symm hsc1.1
      have hid := hc1.next_ne_idle (valid_of_kind (h (n + 1) (by omega)))
      have hf2 : (pairing r e fidm x (n + 2)).first = some n := by
        show ((pairing r e fidm x (n + 1)).step _ _ _ _).first = _
        rw [Pairing.step, hfc1, hsc1, if_neg (by decide), if_neg (by decide),
          if_neg (by simpa using hid), hf]
      have hk2 : kindAt r e fidm x (n + 2) = some e.second := by
        rw [kind_succ_succ h (by omega) hk, first_eq_second he]
      obtain ⟨a, ha, hp⟩ :=
        pair_of_secondCap ((follows (n + 2)).coupled.secondCap_of_waits (waits_of_first hf2) hk2)
      obtain rfl : n = a := Option.some.inj (hf2.symm.trans ha)
      exact ⟨_, hp, .inl rfl⟩
    · obtain ⟨a, _, hp⟩ := pair_of_secondCap hsc
      exact ⟨_, pairs_grow (by omega) hp, .inr rfl⟩

/-- `ps` are the clocks of the frames in the words written before clock `n`. -/
structure Words (r : FrameRule) (e : Enabled) (fidm : Bool) (x : Nat → DiqIn w) (n : Nat)
    (ps : List (Nat × Nat)) : Prop where
  written : written r e fidm x n = ps.map (wordAt x)
  pairs : ∀ p ∈ ps, IsPair r e fidm x p
  /-- In frame order, and no frame in two words. -/
  ordered : ps.Pairwise fun p q => p.2 < q.1
  /-- Of an uninterrupted stream nothing is left out behind the first pair of frames. -/
  complete : ∀ t, Uninterrupted r e fidm x t → ∀ k, t + 2 ≤ k → k + 5 ≤ n → Wanted r e fidm x k →
    ∃ p ∈ ps, p.1 = k ∨ p.2 = k

theorem written_eq (n : Nat) :
    written r e fidm x (n + 2) = (pairing r e fidm x n).pairs.map (wordAt x) := by
  rw [← written_muxed (follows n).words]
  rfl

theorem words (n : Nat) : ∃ ps, Words r e fidm x n ps := by
  match n with
  | 0 => exact ⟨[], rfl, nofun, .nil, fun t _ k _ hk => absurd hk (by omega)⟩
  | 1 => exact ⟨[], rfl, nofun, .nil, fun t _ k _ hk => absurd hk (by omega)⟩
  | n + 2 =>
    have hf : Follows r e fidm x n _ := follows n
    refine ⟨_, written_eq n, fun p hp => (hf.pairs p hp).1, hf.ordered, ?_⟩
    intro t h k hk hkn hw
    obtain ⟨p, hp, hpk⟩ := all_paired h hk hw
    exact ⟨p, pairs_grow (by omega) hp, hpk⟩

end

end RxiqMimoDdr

/-- Both receivers pair the frames: every word is a frame of the first channel and the first frame of
    the second behind it, in frame order, and an uninterrupted stream is paired without loss. -/
theorem mimo_pairs (w : Nat) (e : Enabled) (fidm : Bool) (x : Nat → DiqIn w) (n : Nat) :
    (∃ ps, RxiqMimoDdr.Words .mimoDdr e fidm x n ps) ∧
      ∃ ps, RxiqMimoDdr.Words .pulseDdr e fidm x n ps :=
  ⟨RxiqMimoDdr.words n, RxiqMimoDdr.words n⟩

end Rx
