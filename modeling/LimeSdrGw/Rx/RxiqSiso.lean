import LimeSdrGw.Clocked.Groups
import LimeSdrGw.Clocked.Machine
/-
# Capturing one channel: `rxiq_siso_ddr`, `rxiq_siso_sdr`

Every clock brings two samples with their frame sync bit, one from each edge of the interface clock.
Four samples make a word of the sample FIFO. In the double data rate receiver a frame is the two
samples of one clock; in the single rate receiver the samples of the falling edge alone count, with
a frame sync that changes in every clock.

| here | there |
| --- | --- |
| `DiqIn`                       | `DIQ_h`, `DIQ_l`, the frame sync in the top bit |
| `RxiqSisoDdr`, `.step`        | registers and processes of rxiq_siso_ddr.vhd:57-173 |
| `RxiqSisoSdr`, `.step`        | registers and processes of rxiq_siso_sdr.vhd:58-164 |
| `fifoData`                    | `diq_pos3_reg & diq_pos2_reg & diq_pos1_reg & diq_pos0_reg` |

The registers of `DIQ_h` and `DIQ_l` are read for their frame sync only.
-/
namespace Rx

open Clocked

structure DiqIn (w : Nat) where
  fsyncH : Bool
  fsyncL : Bool
  dataH : BitVec w
  dataL : BitVec w

section

variable {w : Nat}

/-- Four samples in a word of the sample FIFO, the first in the low bits. -/
def fifoData (p0 p1 p2 p3 : BitVec w) : BitVec (w + w + w + w) := p3 ++ p2 ++ p1 ++ p0

/-- The word of a complete group. -/
def wordOf (g : List (BitVec w)) : BitVec (w + w + w + w) :=
  fifoData (g.getD 0 0) (g.getD 1 0) (g.getD 2 0) (g.getD 3 0)

end

structure RxiqSisoDdr (w : Nat) where
  regH0 : Bool
  regL0 : Bool
  diqPos01CapEn : Bool
  diqPos0Reg : BitVec w
  diqPos1Reg : BitVec w
  diqPos2Reg : BitVec w
  diqPos3Reg : BitVec w
  fifoDataValid : Bool

namespace RxiqSisoDdr

variable {w : Nat} (fidm : Bool)

def init : RxiqSisoDdr w := ⟨false, false, false, 0, 0, 0, 0, false⟩

def diqValid (s : RxiqSisoDdr w) (i : DiqIn w) : Bool :=
  (s.regH0 == i.fsyncH) && (i.fsyncH != i.fsyncL) && (s.regL0 == i.fsyncL)

def step (s : RxiqSisoDdr w) (i : DiqIn w) : RxiqSisoDdr w where
  regH0 := i.fsyncH
  regL0 := i.fsyncL
  diqPos01CapEn := if s.diqValid i then !s.diqPos01CapEn else s.diqPos01CapEn
  diqPos0Reg :=
    if i.fsyncL == fidm && s.diqValid i && !s.diqPos01CapEn then i.dataL else s.diqPos0Reg
  diqPos1Reg :=
    if i.fsyncH == !fidm && s.diqValid i && !s.diqPos01CapEn then i.dataH else s.diqPos1Reg
  diqPos2Reg :=
    if i.fsyncL == fidm && s.diqValid i && s.diqPos01CapEn then i.dataL else s.diqPos2Reg
  diqPos3Reg :=
    if i.fsyncH == !fidm && s.diqValid i && s.diqPos01CapEn then i.dataH else s.diqPos3Reg
  fifoDataValid := s.diqPos01CapEn

def fifoWdata (s : RxiqSisoDdr w) : BitVec (w + w + w + w) :=
  fifoData s.diqPos0Reg s.diqPos1Reg s.diqPos2Reg s.diqPos3Reg

def fifoWrreq (s : RxiqSisoDdr w) (fifoWfull : Bool) : Bool := s.fifoDataValid && !fifoWfull

/-- The words written to a FIFO that is not full. -/
def wr (s : RxiqSisoDdr w) : List (BitVec (w + w + w + w)) :=
  if s.fifoWrreq false then [s.fifoWdata] else []

/-- The clock brings a valid frame: the sync bits are steady and the frame begins in `DIQ_l`. -/
def frame (s : RxiqSisoDdr w) (i : DiqIn w) : Bool := s.diqValid i && i.fsyncL == fidm

end RxiqSisoDdr

def rxiqSisoDdr (w : Nat) (fidm : Bool) : Machine (RxiqSisoDdr w) (DiqIn w) :=
  ⟨.init, RxiqSisoDdr.step fidm⟩

structure RxiqSisoSdr (w : Nat) where
  sdrReg0 : Bool
  diqPos1CapEn : Bool
  diqPos2CapEn : Bool
  diqPos3CapEn : Bool
  diqPos0Reg : BitVec w
  diqPos1Reg : BitVec w
  diqPos2Reg : BitVec w
  diqPos3Reg : BitVec w
  sdrFifoDataValid : Bool

namespace RxiqSisoSdr

variable {w : Nat} (fidm : Bool)

def init : RxiqSisoSdr w := ⟨false, false, false, false, 0, 0, 0, 0, false⟩

def sdrDiqValid (s : RxiqSisoSdr w) (i : DiqIn w) : Bool := s.sdrReg0 != i.fsyncL

def diqPos0CapEn (s : RxiqSisoSdr w) : Bool := !(s.diqPos1CapEn || s.diqPos2CapEn)

/-- The sample at position 0, 1, 2, 3 is captured. -/
def cap0 (s : RxiqSisoSdr w) (i : DiqIn w) : Bool :=
  i.fsyncL == fidm && s.sdrDiqValid i && s.diqPos0CapEn
def cap1 (s : RxiqSisoSdr w) (i : DiqIn w) : Bool :=
  i.fsyncL == !fidm && s.sdrDiqValid i && s.diqPos1CapEn
def cap2 (s : RxiqSisoSdr w) (i : DiqIn w) : Bool :=
  i.fsyncL == fidm && s.sdrDiqValid i && s.diqPos2CapEn
def cap3 (s : RxiqSisoSdr w) (i : DiqIn w) : Bool :=
  i.fsyncL == !fidm && s.sdrDiqValid i && s.diqPos3CapEn

def step (s : RxiqSisoSdr w) (i : DiqIn w) : RxiqSisoSdr w where
  sdrReg0 := i.fsyncL
  diqPos1CapEn := s.cap0 fidm i
  diqPos2CapEn := s.cap1 fidm i
  diqPos3CapEn := s.cap2 fidm i
  diqPos0Reg := if s.cap0 fidm i then i.dataL else s.diqPos0Reg
  diqPos1Reg := if s.cap1 fidm i then i.dataL else s.diqPos1Reg
  diqPos2Reg := if s.cap2 fidm i then i.dataL else s.diqPos2Reg
  diqPos3Reg := if s.cap3 fidm i then i.dataL else s.diqPos3Reg
  sdrFifoDataValid := s.diqPos3CapEn

def fifoWdata (s : RxiqSisoSdr w) : BitVec (w + w + w + w) :=
  fifoData s.diqPos0Reg s.diqPos1Reg s.diqPos2Reg s.diqPos3Reg

def fifoWrreq (s : RxiqSisoSdr w) (fifoWfull : Bool) : Bool := s.sdrFifoDataValid && !fifoWfull

/-- The words written to a FIFO that is not full. -/
def wr (s : RxiqSisoSdr w) : List (BitVec (w + w + w + w)) :=
  if s.fifoWrreq false then [s.fifoWdata] else []

end RxiqSisoSdr

def rxiqSisoSdr (w : Nat) (fidm : Bool) : Machine (RxiqSisoSdr w) (DiqIn w) :=
  ⟨.init, RxiqSisoSdr.step fidm⟩

/-! ### Double data rate -/

namespace RxiqSisoDdr

variable {w : Nat} {fidm : Bool} {s : RxiqSisoDdr w} {i : DiqIn w}

/-- The valid frames in groups of two. -/
def collect (fidm : Bool) (g : Groups (BitVec w)) (s : RxiqSisoDdr w) (i : DiqIn w) :
    Groups (BitVec w) :=
  if s.frame fidm i then g.put 4 [i.dataL, i.dataH] else g

/-- The clock brings a valid frame, or it comes between two words and toggles nothing. -/
def Whole (fidm : Bool) (s : RxiqSisoDdr w) (i : DiqIn w) : Prop :=
  s.frame fidm i ∨ s.diqPos01CapEn = false ∧ s.diqValid i = false

instance : Decidable (s.Whole fidm i) := inferInstanceAs (Decidable (_ ∨ _))

/-- The registers hold the group that is under way, and `l` with the word of this clock are the
    words of the complete groups. -/
structure Follows (s : RxiqSisoDdr w) (g : Groups (BitVec w)) (l : List (BitVec (w + w + w + w))) :
    Prop where
  cur : g.cur = if s.diqPos01CapEn then [s.diqPos0Reg, s.diqPos1Reg] else []
  words : l ++ s.wr = g.done.map wordOf

theorem frame_eq_true : s.frame fidm i = true ↔
    s.diqValid i = true ∧ i.fsyncL = fidm ∧ i.fsyncH = !fidm := by
  unfold frame diqValid
  cases s.regH0 <;> cases s.regL0 <;> cases i.fsyncH <;> cases i.fsyncL <;> cases fidm <;> decide

theorem wr_eq (h : s.fifoDataValid = false) : s.wr = [] := by
  simp [wr, fifoWrreq, h]

theorem wr_eq_word (h : s.fifoDataValid = true) : s.wr = [s.fifoWdata] := by
  simp [wr, fifoWrreq, h]

theorem Follows.step {g : Groups (BitVec w)} {l : List (BitVec (w + w + w + w))}
    (h : s.Follows g l) (hw : s.Whole fidm i) :
    (s.step fidm i).Follows (collect fidm g s i) (l ++ s.wr) := by
  have hcur := h.cur
  by_cases hf : s.frame fidm i
  · obtain ⟨hv, hl, hh⟩ := frame_eq_true.1 hf
    cases he : s.diqPos01CapEn with
    | false =>
      rw [he, if_neg (by decide)] at hcur
      rw [collect, if_pos hf, Groups.put_cur (by rw [hcur]; exact (by decide : 0 + 2 ≠ 4)),
        hcur]
      refine ⟨by simp [RxiqSisoDdr.step, hv, he, hl, hh], ?_⟩
      rw [wr_eq (s := s.step fidm i) he, List.append_nil, h.words]
    | true =>
      rw [he, if_pos rfl] at hcur
      rw [collect, if_pos hf, Groups.put_done (by rw [hcur]; rfl), hcur]
      refine ⟨by simp [RxiqSisoDdr.step, hv, he], ?_⟩
      rw [wr_eq_word (s := s.step fidm i) he, h.words, List.map_append]
      simp [fifoWdata, RxiqSisoDdr.step, hv, he, hl, hh, wordOf]
  · obtain ⟨he, hv⟩ := hw.resolve_left hf
    rw [collect, if_neg hf]
    refine ⟨by simp [RxiqSisoDdr.step, hcur, hv, he], ?_⟩
    rw [wr_eq (s := s.step fidm i) he, List.append_nil, h.words]

section

variable (fidm : Bool) (x : Nat → DiqIn w)

abbrev stateAt (n : Nat) : RxiqSisoDdr w := (rxiqSisoDdr w fidm).state x n

/-- The groups of the clocks before `n`. -/
def captured (n : Nat) : Groups (BitVec w) :=
  (rxiqSisoDdr w fidm).track (collect fidm) .empty x n

/-- The words written in the clocks before `n`. -/
def written (n : Nat) : List (BitVec (w + w + w + w)) :=
  (rxiqSisoDdr w fidm).log (fun s _ => s.wr) x n

theorem captured_succ (n : Nat) : captured fidm x (n + 1) =
    collect fidm (captured fidm x n) (stateAt fidm x n) (x n) := rfl

theorem written_succ (n : Nat) :
    written fidm x (n + 1) = written fidm x n ++ (stateAt fidm x n).wr := rfl

variable {fidm x}

theorem follows {n : Nat} (h : ∀ k, k < n → (stateAt fidm x k).Whole fidm (x k)) :
    (stateAt fidm x n).Follows (captured fidm x n) (written fidm x n) := by
  induction n with
  | zero => exact ⟨rfl, rfl⟩
  | succ n ih => exact (ih fun k hk => h k (Nat.lt_succ_of_lt hk)).step (h n (Nat.lt_succ_self n))

/-- A word too many: half a word was written, or will be two clocks later. -/
theorem whole_of_words (h : ∀ n, written fidm x (n + 1) = (captured fidm x n).done.map wordOf)
    (n : Nat) : (stateAt fidm x n).Whole fidm (x n) := by
  induction n using Nat.strongRecOn with
  | ind n ih =>
    refine Decidable.of_not_not fun hno => ?_
    have hfol := follows ih
    obtain ⟨hnf, hbad⟩ := not_or.1 hno
    have hc1 : captured fidm x (n + 1) = captured fidm x n := by
      rw [captured_succ, collect, if_neg hnf]
    have h1 := congrArg List.length (h (n + 1))
    rw [written_succ, h n, hc1, List.length_append] at h1
    cases he : (stateAt fidm x n).diqPos01CapEn with
    | true =>
      have hwr : (stateAt fidm x (n + 1)).wr.length = 1 := by rw [wr_eq_word he]; rfl
      omega
    | false =>
      have hv : (stateAt fidm x n).diqValid (x n) = true :=
        Decidable.of_not_not fun hv => hbad ⟨he, by simpa using hv⟩
      have he1 : (stateAt fidm x (n + 1)).diqPos01CapEn = true := by
        show (if (stateAt fidm x n).diqValid (x n) then _ else _) = _
        rw [if_pos hv, he]
        rfl
      have hcur : (captured fidm x (n + 1)).cur = [] := by rw [hc1, hfol.cur, he]; rfl
      have hc2 : (captured fidm x (n + 2)).done = (captured fidm x (n + 1)).done := by
        rw [captured_succ, collect]
        split
        · rw [Groups.put_cur (by rw [hcur]; exact (by decide : 0 + 2 ≠ 4))]
        · rfl
      have h2 := congrArg List.length (h (n + 2))
      have hwr : (stateAt fidm x (n + 2)).wr.length = 1 := by rw [wr_eq_word he1]; rfl
      rw [written_succ, h (n + 1), hc2, List.length_append] at h2
      omega

/-- Every word is two valid frames, in order and each frame in one word, exactly in the runs in
    which the second frame of a word comes right behind the first. -/
theorem words_iff (fidm : Bool) (x : Nat → DiqIn w) :
    (∀ n, written fidm x (n + 1) = (captured fidm x n).done.map wordOf) ↔
      ∀ n, (stateAt fidm x n).Whole fidm (x n) :=
  ⟨whole_of_words, fun h n => (follows (n := n) fun k _ => h k).words⟩

end

end RxiqSisoDdr

/-! ### Single data rate -/

namespace RxiqSisoSdr

variable {w : Nat} {fidm : Bool} {s : RxiqSisoSdr w} {i : DiqIn w}

/-- The samples of four valid clocks in a row, the first with the sync bit of a frame start. -/
def collect (fidm : Bool) (g : Groups (BitVec w)) (s : RxiqSisoSdr w) (i : DiqIn w) :
    Groups (BitVec w) :=
  if !s.sdrDiqValid i then g.drop
  else if g.cur.isEmpty && i.fsyncL != fidm then g
  else g.put 4 [i.dataL]

/-- The clock after the third sample brings the fourth. -/
def Whole (s : RxiqSisoSdr w) (i : DiqIn w) : Prop := s.diqPos3CapEn → s.sdrDiqValid i

instance : Decidable (s.Whole i) := inferInstanceAs (Decidable (_ → _))

/-- How many samples of the group are there. -/
inductive Stage (fidm : Bool) (s : RxiqSisoSdr w) : List (BitVec w) → Prop
  | none (h1 : s.diqPos1CapEn = false) (h2 : s.diqPos2CapEn = false)
      (h3 : s.diqPos3CapEn = false) : Stage fidm s []
  | one (h1 : s.diqPos1CapEn = true) (h2 : s.diqPos2CapEn = false) (h3 : s.diqPos3CapEn = false)
      (reg : s.sdrReg0 = fidm) : Stage fidm s [s.diqPos0Reg]
  | two (h1 : s.diqPos1CapEn = false) (h2 : s.diqPos2CapEn = true) (h3 : s.diqPos3CapEn = false)
      (reg : s.sdrReg0 = !fidm) : Stage fidm s [s.diqPos0Reg, s.diqPos1Reg]
  | three (h1 : s.diqPos1CapEn = false) (h2 : s.diqPos2CapEn = false)
      (h3 : s.diqPos3CapEn = true) (reg : s.sdrReg0 = fidm) :
      Stage fidm s [s.diqPos0Reg, s.diqPos1Reg, s.diqPos2Reg]

structure Follows (fidm : Bool) (s : RxiqSisoSdr w) (g : Groups (BitVec w))
    (l : List (BitVec (w + w + w + w))) : Prop where
  cur : Stage fidm s g.cur
  words : l ++ s.wr = g.done.map wordOf

theorem wr_eq (h : s.sdrFifoDataValid = false) : s.wr = [] := by
  simp [wr, fifoWrreq, h]

theorem wr_eq_word (h : s.sdrFifoDataValid = true) : s.wr = [s.fifoWdata] := by
  simp [wr, fifoWrreq, h]

variable (fidm) in
/-- Without a valid clock nothing is captured. -/
theorem caps_of_invalid (h : s.sdrDiqValid i = false) : s.cap0 fidm i = false ∧
    s.cap1 fidm i = false ∧ s.cap2 fidm i = false ∧ s.cap3 fidm i = false := by
  simp [cap0, cap1, cap2, cap3, h]

/-- A valid clock changes the sync bit. -/
theorem fsync_of_valid (h : s.sdrDiqValid i = true) : i.fsyncL = !s.sdrReg0 := by
  revert h
  unfold sdrDiqValid
  cases s.sdrReg0 <;> cases i.fsyncL <;> decide

theorem Follows.step_invalid {g : Groups (BitVec w)} {l : List (BitVec (w + w + w + w))}
    (h : Follows fidm s g l) (hw : s.Whole i) (hv : s.sdrDiqValid i = false) :
    Follows fidm (s.step fidm i) (collect fidm g s i) (l ++ s.wr) := by
  obtain ⟨c0, c1, c2, _⟩ := caps_of_invalid fidm hv
  have h3 : s.diqPos3CapEn = false :=
    Bool.eq_false_iff.2 fun h3 => by rw [hw h3] at hv; cases hv
  rw [collect, hv]
  refine ⟨.none c0 c1 c2, ?_⟩
  rw [wr_eq (s := s.step fidm i) h3, List.append_nil, h.words]
  rfl

theorem Follows.step_valid {g : Groups (BitVec w)} {l : List (BitVec (w + w + w + w))}
    (h : Follows fidm s g l) (hv : s.sdrDiqValid i = true) :
    Follows fidm (s.step fidm i) (collect fidm g s i) (l ++ s.wr) := by
  have hf := fsync_of_valid hv
  have hwords := h.words
  obtain ⟨cur, done⟩ := g
  have hcur : Stage fidm s cur := h.cur
  cases hcur with
  | none h1 h2 h3 =>
    have hwr : (s.step fidm i).wr = [] := wr_eq h3
    by_cases hl : i.fsyncL = fidm
    · have hc : collect fidm ⟨[], done⟩ s i = ⟨[i.dataL], done⟩ := by
        simp [collect, hv, hl, Groups.put]
      have c0 : s.cap0 fidm i = true := by simp [cap0, diqPos0CapEn, hl, hv, h1, h2]
      rw [hc]
      refine ⟨?_, by rw [hwr, List.append_nil, hwords]⟩
      have hp : (s.step fidm i).diqPos0Reg = i.dataL := if_pos c0
      rw [← hp]
      exact .one c0 (by simp [RxiqSisoSdr.step, cap1, h1]) (by simp [RxiqSisoSdr.step, cap2, h2]) hl
    · have hc : collect fidm ⟨[], done⟩ s i = ⟨[], done⟩ := by simp [collect, hv, hl]
      rw [hc]
      refine ⟨.none ?_ ?_ ?_, by rw [hwr, List.append_nil, hwords]⟩
      · simp [RxiqSisoSdr.step, cap0, hl]
      · simp [RxiqSisoSdr.step, cap1, h1]
      · simp [RxiqSisoSdr.step, cap2, h2]
  | one h1 h2 h3 reg =>
    have hwr : (s.step fidm i).wr = [] := wr_eq h3
    have hc : collect fidm ⟨[s.diqPos0Reg], done⟩ s i = ⟨[s.diqPos0Reg, i.dataL], done⟩ := by
      simp [collect, hv, Groups.put]
    have c0 : s.cap0 fidm i = false := by simp [cap0, diqPos0CapEn, h1]
    have c1 : s.cap1 fidm i = true := by simp [cap1, hf, reg, hv, h1]
    rw [hc]
    refine ⟨?_, by rw [hwr, List.append_nil, hwords]⟩
    have hp0 : (s.step fidm i).diqPos0Reg = s.diqPos0Reg := if_neg (by rw [c0]; decide)
    have hp1 : (s.step fidm i).diqPos1Reg = i.dataL := if_pos c1
    rw [← hp0, ← hp1]
    exact .two c0 c1 (by simp [RxiqSisoSdr.step, cap2, h2]) (by rw [← reg]; exact hf)
  | two h1 h2 h3 reg =>
    have hwr : (s.step fidm i).wr = [] := wr_eq h3
    have hc : collect fidm ⟨[s.diqPos0Reg, s.diqPos1Reg], done⟩ s i =
        ⟨[s.diqPos0Reg, s.diqPos1Reg, i.dataL], done⟩ := by
      simp [collect, hv, Groups.put]
    have c0 : s.cap0 fidm i = false := by simp [cap0, diqPos0CapEn, h2]
    have c1 : s.cap1 fidm i = false := by simp [cap1, h1]
    have c2 : s.cap2 fidm i = true := by simp [cap2, hf, reg, hv, h2]
    rw [hc]
    refine ⟨?_, by rw [hwr, List.append_nil, hwords]⟩
    have hp0 : (s.step fidm i).diqPos0Reg = s.diqPos0Reg := if_neg (by rw [c0]; decide)
    have hp1 : (s.step fidm i).diqPos1Reg = s.diqPos1Reg := if_neg (by rw [c1]; decide)
    have hp2 : (s.step fidm i).diqPos2Reg = i.dataL := if_pos c2
    rw [← hp0, ← hp1, ← hp2]
    exact .three c0 c1 c2 (by rw [show (s.step fidm i).sdrReg0 = i.fsyncL from rfl, hf, reg,
      Bool.not_not])
  | three h1 h2 h3 reg =>
    have hwr : (s.step fidm i).wr = [(s.step fidm i).fifoWdata] := wr_eq_word h3
    have hc : collect fidm ⟨[s.diqPos0Reg, s.diqPos1Reg, s.diqPos2Reg], done⟩ s i =
        ⟨[], done ++ [[s.diqPos0Reg, s.diqPos1Reg, s.diqPos2Reg, i.dataL]]⟩ := by
      simp [collect, hv, Groups.put]
    have c0 : s.cap0 fidm i = false := by simp [cap0, hf, reg]
    have c1 : s.cap1 fidm i = false := by simp [cap1, h1]
    have c2 : s.cap2 fidm i = false := by simp [cap2, h2]
    have c3 : s.cap3 fidm i = true := by simp [cap3, hf, reg, hv, h3]
    rw [hc]
    refine ⟨.none c0 c1 c2, ?_⟩
    rw [hwr, hwords, List.map_append]
    simp [fifoWdata, RxiqSisoSdr.step, c0, c1, c2, c3, wordOf]

theorem Follows.step {g : Groups (BitVec w)} {l : List (BitVec (w + w + w + w))}
    (h : Follows fidm s g l) (hw : s.Whole i) :
    Follows fidm (s.step fidm i) (collect fidm g s i) (l ++ s.wr) := by
  cases hv : s.sdrDiqValid i with
  | false => exact h.step_invalid hw hv
  | true => exact h.step_valid hv

section

variable (fidm : Bool) (x : Nat → DiqIn w)

abbrev stateAt (n : Nat) : RxiqSisoSdr w := (rxiqSisoSdr w fidm).state x n

/-- The groups of the clocks before `n`. -/
def captured (n : Nat) : Groups (BitVec w) :=
  (rxiqSisoSdr w fidm).track (collect fidm) .empty x n

/-- The words written in the clocks before `n`. -/
def written (n : Nat) : List (BitVec (w + w + w + w)) :=
  (rxiqSisoSdr w fidm).log (fun s _ => s.wr) x n

theorem captured_succ (n : Nat) : captured fidm x (n + 1) =
    collect fidm (captured fidm x n) (stateAt fidm x n) (x n) := rfl

theorem written_succ (n : Nat) :
    written fidm x (n + 1) = written fidm x n ++ (stateAt fidm x n).wr := rfl

variable {fidm x}

theorem follows {n : Nat} (h : ∀ k, k < n → (stateAt fidm x k).Whole (x k)) :
    Follows fidm (stateAt fidm x n) (captured fidm x n) (written fidm x n) := by
  induction n with
  | zero => exact ⟨.none rfl rfl rfl, rfl⟩
  | succ n ih => exact (ih fun k hk => h k (Nat.lt_succ_of_lt hk)).step (h n (Nat.lt_succ_self n))

/-- Without the fourth sample the group is dropped and the word written. -/
theorem whole_of_words (h : ∀ n, written fidm x (n + 1) = (captured fidm x n).done.map wordOf)
    (n : Nat) : (stateAt fidm x n).Whole (x n) := by
  intro h3
  refine Decidable.of_not_not fun hv => ?_
  have hdone : (captured fidm x (n + 1)).done = (captured fidm x n).done := by
    rw [captured_succ, collect, if_pos (by simpa using hv)]
    rfl
  have hlen := congrArg List.length (h (n + 1))
  have hwr : (stateAt fidm x (n + 1)).wr.length = 1 := by rw [wr_eq_word h3]; rfl
  rw [written_succ, h n, hdone, List.length_append] at hlen
  omega

/-- Every word is four samples of four valid clocks in a row, each group in one word, exactly in the
    runs in which no third sample is followed by an invalid clock. -/
theorem words_iff (fidm : Bool) (x : Nat → DiqIn w) :
    (∀ n, written fidm x (n + 1) = (captured fidm x n).done.map wordOf) ↔
      ∀ n, (stateAt fidm x n).Whole (x n) :=
  ⟨whole_of_words, fun h n => (follows (n := n) fun k _ => h k).words⟩

end

end RxiqSisoSdr

/-- When the two receivers write every group once, in order, and nothing else. -/
theorem siso_groups (w : Nat) (fidm : Bool) (x : Nat → DiqIn w) :
    ((∀ n, RxiqSisoDdr.written fidm x (n + 1) =
        (RxiqSisoDdr.captured fidm x n).done.map wordOf) ↔
      ∀ n, (RxiqSisoDdr.stateAt fidm x n).Whole fidm (x n)) ∧
    ((∀ n, RxiqSisoSdr.written fidm x (n + 1) =
        (RxiqSisoSdr.captured fidm x n).done.map wordOf) ↔
      ∀ n, (RxiqSisoSdr.stateAt fidm x n).Whole (x n)) :=
  ⟨RxiqSisoDdr.words_iff fidm x, RxiqSisoSdr.words_iff fidm x⟩

/-- One frame and then an invalid clock, three samples and then an invalid clock. -/
theorem siso_groups_gap :
    (¬ ∀ (w : Nat) (fidm : Bool) (x : Nat → DiqIn w) (n : Nat),
      RxiqSisoDdr.written fidm x (n + 1) = (RxiqSisoDdr.captured fidm x n).done.map wordOf) ∧
    ¬ ∀ (w : Nat) (fidm : Bool) (x : Nat → DiqIn w) (n : Nat),
      RxiqSisoSdr.written fidm x (n + 1) = (RxiqSisoSdr.captured fidm x n).done.map wordOf := by
  constructor
  · intro h
    have := h 12 false (fun n => ⟨decide (n ≠ 2), false, 1, 2⟩) 3
    exact absurd this (by decide)
  · intro h
    have := h 12 true (fun n => ⟨false, n != 1, 1, 2⟩) 4
    exact absurd this (by decide)

end Rx
