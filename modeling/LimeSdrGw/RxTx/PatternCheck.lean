import LimeSdrGw.Rx.SmplCmp
import LimeSdrGw.RxTx.TestSignals
/-
# The test pattern and its comparator

For a phase search the transmitter sends a fixed pattern, and `smpl_cmp` looks whether it comes back. The
pattern is on the interface five clocks after it has been switched on, whatever was there before, in
frames of both channels by turns; so the comparison sees a frame of channel A in time.

| here | there |
| --- | --- |
| `diqBus`     | `diq_h`, `diq_l` of the comparator, the frame bit on top |
| `PatternOn`  | `test_ptrn_en`, `test_ptrn_I`, `test_ptrn_Q`, `test_ptrn_fidm` held (txiqmux.vhd:76-96) |
| `loopCmp`    | `diq_h`, `diq_l` of `inst3_smpl_cmp` (diq2fifo.vhd:181-182), `cmp_start`, `fidm` (:170-172) |
-/
namespace RxTx

open Clocked Tx Rx

/-- A sample with its frame bit on top. -/
def diqBus (d : Diq 12) : BitVec 13 := BitVec.ofBool d.fsync ++ d.data

theorem iqSel_diqBus (d : Diq 12) : iqSel (diqBus d) = d.fsync := by
  rw [iqSel, diqBus, BitVec.getLsbD_append, if_neg (Nat.lt_irrefl 12)]
  cases d.fsync <;> rfl

theorem iqSmpl_diqBus (d : Diq 12) : iqSmpl (diqBus d) = d.data := BitVec.setWidth_append_eq_right

/-- From clock `t` on the pattern is switched on. -/
structure PatternOn (x : Nat → TxiqmuxIn) (t : Nat) (i q : BitVec 16) (fidm : Bool) : Prop where
  ptrn : ∀ n, t ≤ n → (x n).testPtrnEn = true
  data : ∀ n, t ≤ n → (x n).testDataEn = false
  fidm : ∀ n, t ≤ n → (x n).testPtrnFidm = fidm
  i : ∀ n, t ≤ n → (x n).testPtrnI = i
  q : ∀ n, t ≤ n → (x n).testPtrnQ = q

section pattern

variable {x : Nat → TxiqmuxIn} {t : Nat} {i q : BitVec 16} {fidm : Bool}

open Txiqmux

/-- The frame bit of the pattern. -/
theorem fsyncInt_at (x : Nat → TxiqmuxIn) (n : Nat) :
    (muxAt x n).tstPtrnInst0.fsyncInt = (n % 2 == 0) := by
  induction n with
  | zero => rfl
  | succ n ih =>
    show (!(muxAt x n).tstPtrnInst0.fsyncInt) = _
    rw [ih, even_succ]

/-- Three clocks on, the generator has its settings. -/
theorem PatternOn.generator (h : PatternOn x t i q fidm) {n : Nat} (hn : t + 3 ≤ n) :
    (muxAt x n).tstPtrnInst0.diqH = ⟨if fidm then n % 2 == 0 else n % 2 != 0, i.setWidth 12⟩ ∧
      (muxAt x n).tstPtrnInst0.diqL = ⟨if fidm then n % 2 == 0 else n % 2 != 0, q.setWidth 12⟩ := by
  obtain ⟨k, rfl⟩ : ∃ k, n = k + 3 := ⟨n - 3, by omega⟩
  have hi : (muxAt x (k + 3)).tstPtrnInst0.ptrnISync.signalD2 = i := h.i k (by omega)
  have hq : (muxAt x (k + 3)).tstPtrnInst0.ptrnQSync.signalD2 = q := h.q k (by omega)
  have hf : (muxAt x (k + 3)).tstPtrnInst0.fidmSync.syncOut true = fidm := h.fidm (k + 1) (by omega)
  rw [TxiqTstPtrn.diqH, TxiqTstPtrn.diqL, TxiqTstPtrn.fsyncExt, hi, hq, hf, fsyncInt_at]
  exact ⟨rfl, rfl⟩

/-- What the pattern puts on the interface. -/
def patternDiq (i q : BitVec 16) (fidm : Bool) (n : Nat) : DiqPair :=
  ⟨⟨if fidm then n % 2 == 0 else n % 2 != 0, i.setWidth 12⟩,
    ⟨if fidm then n % 2 == 0 else n % 2 != 0, q.setWidth 12⟩⟩

theorem PatternOn.out (h : PatternOn x t i q fidm) {n : Nat} (hn : t + 5 ≤ n) :
    Txiqmux.out x n = patternDiq i q fidm n := by
  obtain ⟨k, rfl⟩ : ∃ k, n = k + 2 := ⟨n - 2, by omega⟩
  have hen : (muxAt x k).testPtrnEnSync.syncOut true = true := by
    obtain ⟨j, rfl⟩ : ∃ j, k = j + 2 := ⟨k - 2, by omega⟩
    exact h.ptrn j (by omega)
  obtain ⟨hh, hl⟩ := h.generator (n := k) (by omega)
  have hmux1 : (muxAt x (k + 1)).mux1DiqHReg = (muxAt x k).tstPtrnInst0.diqH ∧
      (muxAt x (k + 1)).mux1DiqLReg = (muxAt x k).tstPtrnInst0.diqL := by
    constructor <;> exact if_neg (by rw [hen]; decide)
  have hdata := h.data (k + 1) (by omega)
  have hmux2 : (muxAt x (k + 2)).mux2DiqHReg = (muxAt x (k + 1)).mux1DiqHReg ∧
      (muxAt x (k + 2)).mux2DiqLReg = (muxAt x (k + 1)).mux1DiqLReg := by
    constructor <;> exact if_pos hdata
  rw [Txiqmux.out, hmux2.1, hmux2.2, hmux1.1, hmux1.2, hh, hl, patternDiq, Nat.add_mod_right]

end pattern

/-! ## The comparison -/

structure CmpCtrl where
  cmpStart : Bool
  fidm : Bool

/-- The inputs of the comparator, with the interface looped back. -/
def loopCmp (early late : Nat) (x : Nat → TxiqmuxIn) (y : Nat → CmpCtrl) (n : Nat) : CmpIn where
  cmpStart := (y n).cmpStart
  fidm := (y n).fidm
  diqH := diqBus (wire early late (Txiqmux.out x) n).h
  diqL := diqBus (wire early late (Txiqmux.out x) n).l

section comparison

variable {x : Nat → TxiqmuxIn} {y : Nat → CmpCtrl} {t early late : Nat} {i q : BitVec 16} {fidm : Bool}

variable (early late y) in
/-- I is received in `DIQ_l` and Q in `DIQ_h`, and the frames take turns. -/
theorem PatternOn.received (h : PatternOn x t i q fidm) {n : Nat} (hn : early + (t + 5) ≤ n + late)
    (he : early ≤ n) : iqSmpl (loopCmp early late x y n).diqL = i.setWidth 12 ∧
      iqSmpl (loopCmp early late x y n).diqH = q.setWidth 12 ∧
      iqSel (loopCmp early late x y n).diqH = iqSel (loopCmp early late x y n).diqL ∧
      iqSel (loopCmp early late x y (n + 1)).diqH = !iqSel (loopCmp early late x y n).diqH ∧
      iqSel (loopCmp early late x y (n + 1)).diqL = !iqSel (loopCmp early late x y n).diqL := by
  have hwire : ∀ k, n ≤ k → wire early late (Txiqmux.out x) k =
      ⟨(patternDiq i q fidm (k - early + late)).l, (patternDiq i q fidm (k - early + late)).h⟩ := by
    intro k hk
    rw [wire, if_neg (by omega), h.out (by omega)]
  have hnext : n + 1 - early + late = n - early + late + 1 := by omega
  have hturn : ∀ k : Nat, (if fidm then (k + 1) % 2 == 0 else (k + 1) % 2 != 0) =
      !(if fidm then k % 2 == 0 else k % 2 != 0) := by
    intro k
    rw [bne, bne, even_succ]
    cases fidm <;> rfl
  simp only [loopCmp, hwire n (Nat.le_refl n), hwire (n + 1) (Nat.le_succ n), iqSel_diqBus,
    iqSmpl_diqBus, patternDiq, hnext, hturn, and_self]

variable (L : BitVec 16)

/-- A comparison begun when the pattern is back finds it right exactly if it is the pattern that is
    looked for, and in bounded time. -/
theorem pattern_verdict (hL : L ≠ 0) (h : PatternOn x t i q fidm) {a : Nat}
    (hr : SmplCmp.Rises (loopCmp early late x y) a) (hfidm : ∀ n, (y (a + n)).fidm = (y a).fidm)
    (he : early ≤ a) (ha : early + (t + 5) ≤ a + late) :
    ∃ d, d ≤ L.toNat + 9 ∧ SmplCmp.DoneAfter L (loopCmp early late x y) a d ∧
      ((SmplCmp.cmpAt L (loopCmp early late x y) (a + d)).cmpError (loopCmp early late x y (a + d)) =
        false ↔ i.setWidth 12 = cmpAI ∧ q.setWidth 12 = cmpAQ) := by
  have hrec := fun k => h.received y early late (n := a + k) (by omega) (by omega)
  -- every sample is a right or a wrong frame of one of the channels
  have hdiffers : ∀ k, (loopCmp early late x y (a + k)).differs =
      !(decide (i.setWidth 12 = cmpAI) && decide (q.setWidth 12 = cmpAQ)) := by
    intro k
    obtain ⟨hi, hq, hsame, -, -⟩ := hrec k
    rw [CmpIn.differs, CmpIn.frameA, CmpIn.frameB, hi, hq, hsame]
    show (_ || (_ && (i.setWidth 12 != cmpAI || q.setWidth 12 != cmpAQ)) ||
      (_ && (i.setWidth 12 != cmpAI || q.setWidth 12 != cmpAQ))) = _
    generalize iqSel (loopCmp early late x y (a + k)).diqL = s
    generalize (loopCmp early late x y (a + k)).fidm = f
    by_cases hI : i.setWidth 12 = cmpAI <;> by_cases hQ : q.setWidth 12 = cmpAQ <;>
      cases s <;> cases f <;> simp [hI, hQ]
  obtain ⟨d, hd, hdone, hnot⟩ := SmplCmp.done_in_time (z := fun k => loopCmp early late x y (a + k))
    hr.high hL
  refine ⟨d, hd, (hr.doneAfter_iff d).2 ⟨hdone, hnot⟩, ?_⟩
  rw [hr.error_iff]
  by_cases hright : i.setWidth 12 = cmpAI ∧ q.setWidth 12 = cmpAQ
  · have hclean : ∀ k, k < d → (loopCmp early late x y (a + k)).differs = false := fun k _ => by
      rw [hdiffers, hright.1, hright.2]
      rfl
    -- channel A comes in the first or in the second clock
    have hA : ∃ p, p < 4 ∧ (loopCmp early late x y (a + p)).frameA = true := by
      obtain ⟨-, -, hsame, hh, hl⟩ := hrec 0
      by_cases hf : iqSel (loopCmp early late x y a).diqL = (y a).fidm
      · refine ⟨0, by decide, ?_⟩
        have hsame' : iqSel (loopCmp early late x y a).diqH = (y a).fidm := hsame.trans hf
        show (iqSel (loopCmp early late x y a).diqH == (y a).fidm &&
          iqSel (loopCmp early late x y a).diqL == (y a).fidm) = true
        rw [hsame', hf, beq_self_eq_true]
        rfl
      · refine ⟨1, by decide, ?_⟩
        have hother : (!iqSel (loopCmp early late x y a).diqL) = (y a).fidm := by
          revert hf
          generalize iqSel (loopCmp early late x y a).diqL = s
          generalize (y a).fidm = f
          cases s <;> cases f <;> simp
        have hl' : iqSel (loopCmp early late x y (a + 1)).diqL = (y (a + 1)).fidm :=
          hl.trans (hother.trans (hfidm 1).symm)
        have hh' : iqSel (loopCmp early late x y (a + 1)).diqH = (y (a + 1)).fidm :=
          hh.trans ((congrArg (!·) hsame).trans (hother.trans (hfidm 1).symm))
        show (iqSel (loopCmp early late x y (a + 1)).diqH == (y (a + 1)).fidm &&
          iqSel (loopCmp early late x y (a + 1)).diqL == (y (a + 1)).fidm) = true
        rw [hl', hh', beq_self_eq_true]
        rfl
    obtain ⟨p, hp, hframe⟩ := hA
    rw [SmplCmp.clean_of_frameA (p := p) hr.high hdone hnot hp hframe hclean]
    exact ⟨fun _ => hright, fun _ => rfl⟩
  · have hwrong : (loopCmp early late x y (a + 3)).differs = true := by
      rw [hdiffers, Bool.not_eq_true', Bool.and_eq_false_iff, decide_eq_false_iff_not,
        decide_eq_false_iff_not, ← not_and_or]
      exact hright
    rw [SmplCmp.error_of_differs (k := 3) hr.high hL hdone hnot (Nat.le_refl 3) (by omega) hwrong]
    exact ⟨nofun, fun h => absurd h hright⟩

/-- The pattern of the source, which the comparator looks for. -/
def sourcePattern : TxiqmuxIn :=
  ⟨true, false, 0xAAAA, 0x5555, false, false, ⟨false, 0⟩, ⟨false, 0⟩, ⟨false, 0⟩, ⟨false, 0⟩⟩

/-- The comparison begins in clock 6. -/
theorem pattern_verdict_source : ∃ d, d ≤ 264 ∧
    SmplCmp.DoneAfter 255 (loopCmp 0 0 (fun _ => sourcePattern) fun n => ⟨decide (6 ≤ n), false⟩) 6 d ∧
    (SmplCmp.cmpAt 255 (loopCmp 0 0 (fun _ => sourcePattern) fun n => ⟨decide (6 ≤ n), false⟩)
      (6 + d)).cmpError (loopCmp 0 0 (fun _ => sourcePattern) (fun n => ⟨decide (6 ≤ n), false⟩) (6 + d)) =
        false := by
  have hon : PatternOn (fun _ => sourcePattern) 0 0xAAAA 0x5555 false :=
    ⟨fun _ _ => rfl, fun _ _ => rfl, fun _ _ => rfl, fun _ _ => rfl, fun _ _ => rfl⟩
  have hrises : SmplCmp.Rises
      (loopCmp 0 0 (fun _ => sourcePattern) fun n => ⟨decide (6 ≤ n), false⟩) 6 :=
    ⟨fun n hn => decide_eq_false (by omega), fun k => decide_eq_true (by omega)⟩
  obtain ⟨d, hd, hdone, hverdict⟩ := pattern_verdict 255 (by decide) hon hrises (fun _ => rfl)
    (by decide) (by decide)
  exact ⟨d, hd, hdone, hverdict.2 (by decide)⟩

end comparison

end RxTx
