import LimeSdrGw.Tx.Integrity
/-
# TX timestamp discipline

The comparators see the timestamp of the packet they are asked about, and the sample number of a
fixed number of clocks before: three for `check_smpl_nr` of `p2d_wr_fsm`, four for `idle` of
`p2d_rd`, whose multiplexer is one more register. `Stamps` says which places of which comparator
pipeline already hold such results while a packet passes through.
-/
namespace Tx

open Clocked P2dWrFsm

namespace TxPath

section age

/-- What the comparator of a packet with timestamp `ts` gives for the sample number of clock `t`. -/
def compared (x : Nat → TxIn) (ts : Word64) (t : Nat) : Bool × Bool := lpmCompare ts (x t).sampleNr

/-- Places of the writer's comparator pipeline that hold results for the packet in hand. -/
def wrAge (w : P2dWrFsm) : Nat :=
  match w.currentState with
  | .rdHdr => 0
  | .waitCmprPipe => w.pipeCnt - 2
  | _ => 3

/-- Places of the reader's pipeline of the current slot that hold results for the packet in hand;
    the header reaches the reader one clock later. -/
def rdAge (w : P2dWrFsm) : Nat :=
  match w.currentState with
  | .rdHdr => 0
  | .waitCmprPipe => w.pipeCnt - 3
  | .checkSmplNr | .clrFifo => 2
  | _ => 3

/-- The same for a slot, by its use. -/
def slotAge (w : P2dWrFsm) : SlotUse → Nat
  | .free => 0
  | .filling _ => rdAge w
  | .full _ | .reading _ => 3

end age

/-- The packet in a slot. -/
def Holds (j : Nat) (u : SlotUse) : Prop := u = .filling j ∨ u = .full j ∨ u = .reading j

structure Stamps (ps : List Packet) (x : Nat → TxIn) (n : Nat) (b : Book) (s : TxPath) : Prop where
  writer : ∀ j p, b.slot b.wp = .filling j → ps[j]? = some p →
    DelayLine.Holds (compared x p.timestamp) n (wrAge s.wr) s.wr.lpmPipe
  slots : ∀ k j p, Holds j (b.slot k) → ps[j]? = some p →
    DelayLine.Holds (compared x p.timestamp) n (slotAge s.wr (b.slot k)) (s.rd.lpmPipe k)
  reader : s.rd.currentState = .idle → s.rd.crntBuffRdy = true →
    ∀ j p, b.slot b.rp = .full j → ps[j]? = some p → 4 ≤ n ∧
      s.rd.crntBuffPctSynchDis = p.syncDis ∧
      (s.rd.crntBuffPctSmplNrEqual, s.rd.crntBuffPctSmplNrLess) = compared x p.timestamp (n - 4) ∧
      s.inst1.pctBuffRdyInt s.rd.crntBuffCnt = true

namespace Stamps

variable {ps : List Packet} {x : Nat → TxIn} {n : Nat} {b : Book} {e : List Word64} {s : TxPath}

/-- Both ages are of this form: places beyond the first `d` of `wait_cmpr_pipe`, and `c` of them in
    `check_smpl_nr`. -/
def ageAt (d c : Nat) (w : P2dWrFsm) : Nat :=
  match w.currentState with
  | .rdHdr => 0
  | .waitCmprPipe => w.pipeCnt - d
  | .checkSmplNr | .clrFifo => c
  | _ => 3

theorem wrAge_eq (w : P2dWrFsm) : wrAge w = ageAt 2 3 w := by
  unfold wrAge ageAt
  cases w.currentState <;> rfl

theorem rdAge_eq (w : P2dWrFsm) : rdAge w = ageAt 3 2 w := by
  unfold rdAge ageAt
  cases w.currentState <;> rfl

/-- With a packet in hand the results grow by one place a clock, from the first that counts. -/
theorem ageAt_step {d c : Nat} (hdc : d + c ≤ 5) (h2 : 2 ≤ c) (h3 : c ≤ 3) {p : Packet} {q : Word128}
    {w : P2dWrFsm} (h : w.Carry p q) {e r : Bool} {sn : Word64} {q' : Word128}
    {f : Fin buffCount → Bool} (hr : w.currentState ≠ .clrFifo) :
    ageAt d c (w.step e sn q' r f) = 0 ∨
      (w.currentState ≠ .rdHdr ∧ (w.currentState = .waitCmprPipe → d ≤ w.pipeCnt)) ∧
        ageAt d c (w.step e sn q' r f) ≤ ageAt d c w + 1 := by
  have hst : (w.step e sn q' r f).currentState = w.nextState e r := rfl
  have hpc : (w.step e sn q' r f).pipeCnt =
      if w.currentState = .waitCmprPipe then (w.pipeCnt + 1) % 16 else 0 := rfl
  unfold ageAt
  rw [hst, hpc]
  cases h.phase with
  | rdHdr hs => simp [nextState, hs]
  | waitCmprPipe hs _ hle =>
    by_cases hd : d ≤ w.pipeCnt
    · refine .inr ⟨⟨by simp [hs], fun _ => hd⟩, ?_⟩
      by_cases h4 : w.pipeCnt > 3
      · simp [nextState, hs, h4]; omega
      · simp [nextState, hs, h4]; omega
    · have h4 : ¬ w.pipeCnt > 3 := by omega
      simp [nextState, hs, h4]; omega
  | check hs =>
    refine .inr ⟨by rcases hs with hs | hs | hs <;> simp [hs], ?_⟩
    rcases hs with hs | hs | hs
    · simp only [nextState, hs]; repeat' split
      all_goals simp_all
    · exact absurd hs hr
    · simp [nextState, hs]
  | rdPct hs =>
    refine .inr ⟨by simp [hs], ?_⟩
    by_cases hl : w.rdCnt < dec16 w.rdCntMax <;> simp [nextState, hs, hl]
  | waitWrEnd hs =>
    refine .inr ⟨by simp [hs], ?_⟩
    cases hv : w.inPctDataValid <;> simp [nextState, hs, hv]

/-- The writer's results count once the timestamp is in the register. -/
theorem wrAge_step {p : Packet} {q : Word128} {w : P2dWrFsm} (h : w.Carry p q) {d r : Bool}
    {sn : Word64} {q' : Word128} {f : Fin buffCount → Bool} (hr : w.currentState ≠ .clrFifo) :
    wrAge (w.step d sn q' r f) = 0 ∨
      0 < w.pctDataWrreqCnt ∧ wrAge (w.step d sn q' r f) ≤ wrAge w + 1 := by
  rw [wrAge_eq, wrAge_eq]
  have hd : 2 + 3 ≤ 5 := by decide
  rcases ageAt_step hd (by decide) (by decide) h hr with h0 | ⟨⟨hne, hwait⟩, hle⟩
  · exact .inl h0
  · exact .inr ⟨h.cnt_pos hwait hne, hle⟩

theorem rdAge_step {p : Packet} {q : Word128} {w : P2dWrFsm} (h : w.Carry p q) {d r : Bool}
    {sn : Word64} {q' : Word128} {f : Fin buffCount → Bool} (hr : w.currentState ≠ .clrFifo) :
    rdAge (w.step d sn q' r f) = 0 ∨
      w.Tagged ∧ rdAge (w.step d sn q' r f) ≤ rdAge w + 1 := by
  rw [rdAge_eq, rdAge_eq]
  exact ageAt_step (by decide) (by decide) (by decide) h hr

theorem age_opens {s : TxPath} {i : TxIn} (ho : s.opens = true) :
    wrAge (s.step i).wr = 0 ∧ rdAge (s.step i).wr = 0 := by
  simp only [opens, Bool.and_eq_true, beq_iff_eq] at ho
  have hst : (s.step i).wr.currentState = .rdHdr := by
    simp [TxPath.step, Packets2data.step, P2dWrFsm.step, nextState, ho.1, ho.2]
  simp [wrAge, rdAge, hst]

theorem writer_step (S : Stamps ps x n b s) (I : Inv ps b e s) (j : Nat) (p : Packet)
    (hk : (note b s (x n)).slot (note b s (x n)).wp = .filling j) (hat : ps[j]? = some p) :
    DelayLine.Holds (compared x p.timestamp) (n + 1) (wrAge (s.step (x n)).wr)
      (s.step (x n)).wr.lpmPipe := by
  have hpipe : (s.step (x n)).wr.lpmPipe =
      s.wr.lpmPipe.shift (lpmCompare s.wr.pctHdr1Reg (x n).sampleNr) := rfl
  rcases of_note_filling I.book I.fits hk with ho | ⟨hold, hr, hf⟩
  · rw [(age_opens ho).1]; exact .zero
  · rw [note_wp I.fits, hf, if_neg (by decide)] at hold
    have H := S.writer j p hold hat
    cases I.writer with
    | away _ _ _ _ _ _ notFilling => exact absurd hold (notFilling j)
    | carry j' p' at' slot carry =>
      obtain rfl := SlotUse.filling.inj (slot.symm.trans hold)
      obtain rfl := Option.some.inj (at'.symm.trans hat)
      have grows : wrAge (s.step (x n)).wr = 0 ∨
          0 < s.wr.pctDataWrreqCnt ∧ wrAge (s.step (x n)).wr ≤ wrAge s.wr + 1 :=
        wrAge_step carry (by simpa [rejects] using hr)
      rcases grows with hz | ⟨hpos, hle⟩
      · rw [hz]; exact .zero
      · rw [hpipe, (carry.regs hpos).2.2]
        exact (H.shift (g := compared x p'.timestamp)).mono hle

theorem slots_step (S : Stamps ps x n b s) (I : Inv ps b e s) (k : Fin buffCount) (j : Nat)
    (p : Packet) (hk : Holds j ((note b s (x n)).slot k)) (hat : ps[j]? = some p) :
    DelayLine.Holds (compared x p.timestamp) (n + 1)
      (slotAge (s.step (x n)).wr ((note b s (x n)).slot k)) ((s.step (x n)).rd.lpmPipe k) := by
  have hpipe : (s.step (x n)).rd.lpmPipe k =
      (s.rd.lpmPipe k).shift (lpmCompare (s.rd.pctHdr1Array k) (x n).sampleNr) := by
    simp [TxPath.step, Packets2data.step, P2dRd.step]
  have f := I.fits (i := x n)
  -- with the header in the table of the slot, one more place holds a result
  have grow : Holds j (b.slot k) → TaggedAs p s k →
      slotAge (s.step (x n)).wr ((note b s (x n)).slot k) ≤ slotAge s.wr (b.slot k) + 1 →
      DelayLine.Holds (compared x p.timestamp) (n + 1)
        (slotAge (s.step (x n)).wr ((note b s (x n)).slot k)) ((s.step (x n)).rd.lpmPipe k) := by
    intro hold tag hle
    rw [hpipe, tag.hdr1]
    exact ((S.slots k j p hold hat).shift (g := compared x p.timestamp)).mono hle
  have hs := I.slots k
  generalize hu : b.slot k = u at hs
  cases hs with
  | free =>
    rw [note_slot_free f hu] at hk ⊢
    split at hk
    next ho => rw [if_pos ho, slotAge, (age_opens ho.1).2]; exact .zero
    · simp [Holds] at hk
  | filling l p' hat' items tag =>
    have hkw := I.book.eq_wp_of_filling hu
    have hn := note_slot_filling I.book f hu
    cases I.writer with
    | away _ _ _ _ _ _ notFilling => exact absurd (hkw ▸ hu) (notFilling l)
    | carry l' p'' at'' slot carry =>
      rw [← hkw, hu] at slot
      obtain rfl := SlotUse.filling.inj slot
      obtain rfl := Option.some.inj (at''.symm.trans hat')
      have hj : s.rejects = false ∧ j = l := by
        cases hr : s.rejects
        · rw [hn, hr] at hk
          cases hf : s.finishes <;> simp [hf, Holds] at hk <;> exact ⟨rfl, hk.symm⟩
        · rw [hn, hr] at hk; simp [Holds] at hk
      obtain ⟨hr, rfl⟩ := hj
      obtain rfl := Option.some.inj (hat.symm.trans hat')
      have hclr : s.wr.currentState ≠ .clrFifo := by simpa [rejects] using hr
      have hold : Holds j (b.slot k) := .inl hu
      by_cases hf : s.finishes = true
      · rw [hr, hf] at hn
        simp only [finishes, Bool.and_eq_true, beq_iff_eq] at hf
        refine grow hold (tag (by simp [P2dWrFsm.Tagged, hf.1])) ?_
        rw [hn, hu]; simp [slotAge, rdAge, hf.1]
      · rw [hr, if_neg (by decide), if_neg hf] at hn
        have grows : rdAge (s.step (x n)).wr = 0 ∨
            s.wr.Tagged ∧ rdAge (s.step (x n)).wr ≤ rdAge s.wr + 1 := rdAge_step carry hclr
        rcases grows with hz | ⟨ht, hle⟩
        · rw [hn, slotAge, hz]; exact .zero
        · refine grow hold (tag ht) ?_
          rw [hn, hu]; exact hle
  | full l p' hat' items tag =>
    have hn := note_slot_full f hu
    have hj : j = l := by
      rw [hn] at hk
      split at hk <;> (try split at hk) <;> (try split at hk) <;> simp [Holds] at hk <;> exact hk.symm
    subst hj
    obtain rfl := Option.some.inj (hat.symm.trans hat')
    refine grow (.inr (.inl hu)) tag ?_
    rw [hn, hu]
    split <;> (try split) <;> (try split) <;> simp [slotAge]
  | reading l p' hat' items tag =>
    have hn := note_slot_reading I.book f hu
    have hj : j = l := by
      rw [hn] at hk
      split at hk <;> simp [Holds] at hk
      exact hk.symm
    subst hj
    obtain rfl := Option.some.inj (hat.symm.trans hat')
    refine grow (.inr (.inr hu)) tag ?_
    rw [hn, hu]
    split <;> simp [slotAge]

/-- The reader's registers, when the ready flag has reached them. -/
theorem reader_step (S : Stamps ps x n b s) (I : Inv ps b e s)
    (hs : (s.step (x n)).rd.currentState = .idle) (hr : (s.step (x n)).rd.crntBuffRdy = true)
    (j : Nat) (p : Packet) (hk : (note b s (x n)).slot (note b s (x n)).rp = .full j)
    (hat : ps[j]? = some p) : 4 ≤ n + 1 ∧
      (s.step (x n)).rd.crntBuffPctSynchDis = p.syncDis ∧
      ((s.step (x n)).rd.crntBuffPctSmplNrEqual, (s.step (x n)).rd.crntBuffPctSmplNrLess) =
        compared x p.timestamp (n + 1 - 4) ∧
      (s.step (x n)).inst1.pctBuffRdyInt (s.step (x n)).rd.crntBuffCnt = true := by
  have hprev := P2dRd.of_nextState_idle hs
  have hrdy : s.inst1.pctBuffRdyInt s.rd.crntBuffCnt = true := hr
  have hclr : s.rd.currentState ≠ .clrBuff := by rcases hprev with h | h <;> simp [h]
  have hrel : s.releases (x n) = false := Inv.releases_false (by rcases hprev with h | h <;> simp [h])
  have hrp : b.rp = s.rd.crntBuffCnt ∧ ∀ j, b.slot b.rp ≠ .reading j := by
    cases I.reader with
    | idle _ rp slot | arrive _ rp slot => exact ⟨rp, slot⟩
    | reading state => rcases hprev with h | h <;> simp [h] at state
    | clear state | leave state => rcases hprev with h | h <;> simp [h] at state
  have htd : s.takes (x n) = false ∧ s.discards (x n) = false := by
    have hns : s.rd.nextState (x n).pctSyncDis (x n).smplBuffAlmostFull = .idle := hs
    simp [takes, discards, hns]
  obtain ⟨l, p', hl, hat', -⟩ := I.full_of_rdy (i := x n) hrdy hclr hrp.1 hrp.2
  have hrp' : (note b s (x n)).rp = b.rp := by rw [note_rp I.fits, htd.2, hrel]; rfl
  rw [hrp', I.note_full_of_idle hl htd.1 htd.2] at hk
  obtain rfl := SlotUse.full.inj hk
  obtain rfl := Option.some.inj (hat.symm.trans hat')
  have H := S.slots b.rp l p (.inr (.inl hl)) hat
  rw [hl, slotAge] at H
  obtain ⟨h2, hd⟩ := H 2 (by decide) (by decide)
  have tag := I.tag_of_full hl hat
  have hcrnt : (s.step (x n)).rd.crntBuffCnt = s.rd.crntBuffCnt := by
    have : s.rd.currentState ≠ .switchNextBuff := by rcases hprev with h | h <;> simp [h]
    simp [TxPath.step, Packets2data.step, P2dRd.step, this]
  refine ⟨by omega, ?_, ?_, ?_⟩
  · show Word64.syncDisBit (s.rd.pctHdr0Array s.rd.crntBuffCnt) = p.syncDis
    rw [← hrp.1, tag.hdr0]; rfl
  · show ((s.rd.lpmPipe s.rd.crntBuffCnt 2).1, (s.rd.lpmPipe s.rd.crntBuffCnt 2).2) = _
    rw [← hrp.1, show n + 1 - 4 = n - 1 - 2 by omega]
    exact hd
  · have hsl := I.slots b.rp
    rw [hl] at hsl
    cases hsl with
    | full _ p' hat' items =>
      obtain rfl := Option.some.inj (hat.symm.trans hat')
      rw [hcrnt, ← hrp.1]
      simp [TxPath.step, Packets2data.step, I.visible (k := b.rp) (by simp [hl]), items, tag.size]

end Stamps

theorem stamps (ps : List Packet) (x : Nat → TxIn) (n : Nat) :
    Stamps ps x n (book ps x n) (pathAt ps x n) := by
  induction n with
  | zero =>
    exact ⟨nofun, fun k j p h => by simp [book, Machine.track, Book.empty, Holds] at h, nofun⟩
  | succ n S =>
    have I := inv ps x n
    exact ⟨S.writer_step I, S.slots_step I, S.reader_step I⟩

/-! ## The decisions -/

section decisions

variable (ps : List Packet) (x : Nat → TxIn) (n : Nat)

/-- Packet `j` of the stream, `p`, is the one in slot `k`, used as `u` says. -/
def InSlot (ps : List Packet) (x : Nat → TxIn) (n : Nat) (k : Fin buffCount) (u : Nat → SlotUse)
    (j : Nat) (p : Packet) : Prop :=
  (book ps x n).slot k = u j ∧ ps[j]? = some p

/-- In `idle` the ready flag is the one the current slot had one clock before. -/
theorem rdy_idle (hn : 0 < n) (hs : (pathAt ps x n).rd.currentState = .idle)
    (hr : (pathAt ps x n).rd.crntBuffRdy = true) :
    (pathAt ps x (n - 1)).inst1.pctBuffRdyInt (pathAt ps x n).rd.crntBuffCnt = true := by
  obtain ⟨m, rfl⟩ : ∃ m, n = m + 1 := ⟨n - 1, by omega⟩
  have hne : (pathAt ps x m).rd.currentState ≠ .switchNextBuff := by
    rcases P2dRd.of_nextState_idle hs with h | h <;> rw [h] <;> decide
  have hcnt : (pathAt ps x (m + 1)).rd.crntBuffCnt = (pathAt ps x m).rd.crntBuffCnt := if_neg hne
  rw [hcnt]
  exact hr

/-- In `check_smpl_nr` the ready flag says whether the current slot was empty one clock before. -/
theorem rdy_check (hn : 0 < n) (hs : (pathAt ps x n).wr.currentState = .checkSmplNr) :
    (pathAt ps x n).wr.currentBuffRdy =
      (pathAt ps x (n - 1)).inst1.wrempty (pathAt ps x n).wr.currentBuffCnt := by
  obtain ⟨m, rfl⟩ : ∃ m, n = m + 1 := ⟨n - 1, by omega⟩
  have hne : (pathAt ps x m).wr.currentState ≠ .checkNextBuf := by
    rcases P2dWrFsm.of_nextState_checkSmplNr hs with h | h <;> rw [h] <;> decide
  have hcnt : (pathAt ps x (m + 1)).wr.currentBuffCnt = (pathAt ps x m).wr.currentBuffCnt :=
    if_neg hne
  rw [hcnt]
  rfl

/-- The complete packet in slot `k` is `p`, the `j`-th of the stream. -/
structure Complete (ps : List Packet) (x : Nat → TxIn) (n : Nat) (k : Fin buffCount) (j : Nat)
    (p : Packet) : Prop where
  inSlot : InSlot ps x n k .full j p
  items : ((pathAt ps x n).inst1.instx k).items = p.payload64
  tag : TaggedAs p (pathAt ps x n) k

/-- The packet `p2d_wr_fsm` has in hand for slot `k` is `p`, the `j`-th of the stream; nothing but
    its header has been read. -/
structure InHand (ps : List Packet) (x : Nat → TxIn) (n : Nat) (k : Fin buffCount) (j : Nat)
    (p : Packet) : Prop where
  inSlot : InSlot ps x n k .filling j p
  items : ((pathAt ps x n).inst1.instx k).items = []
  word : (pathAt ps x n).inst0.inst1.q = p.hdr
  hdr0 : (pathAt ps x n).wr.pctHdr0Reg = p.hdr.hdr0
  hdr1 : (pathAt ps x n).wr.pctHdr1Reg = p.hdr.hdr1

/-- In `idle` the ready flag, the synchronisation bit and the comparator outputs are those of the
    complete packet in the current slot. -/
theorem idle_registers (hs : (pathAt ps x n).rd.currentState = .idle)
    (hr : (pathAt ps x n).rd.crntBuffRdy = true) :
    ∃ j p, Complete ps x n (pathAt ps x n).rd.crntBuffCnt j p ∧ 4 ≤ n ∧
      (pathAt ps x (n - 1)).inst1.pctBuffRdyInt (pathAt ps x n).rd.crntBuffCnt = true ∧
      (pathAt ps x n).rd.crntBuffPctSynchDis = p.syncDis ∧
      (pathAt ps x n).rd.crntBuffPctSmplNrEqual = (p.timestamp == (x (n - 4)).sampleNr) ∧
      (pathAt ps x n).rd.crntBuffPctSmplNrLess = decide (p.timestamp < (x (n - 4)).sampleNr) := by
  have I := inv ps x n
  obtain ⟨rp, -, rdy⟩ := I.reader.of_idle hs
  obtain ⟨j, p, hj, hat, -⟩ := rdy hr
  obtain ⟨h4, hd, hc, -⟩ := (stamps ps x n).reader hs hr j p hj hat
  have hc' := Prod.mk.inj hc
  rw [rp] at hj
  have hsl := I.slots (pathAt ps x n).rd.crntBuffCnt
  rw [hj] at hsl
  cases hsl with
  | full _ p' hat' items tag =>
    obtain rfl := Option.some.inj (hat.symm.trans hat')
    exact ⟨j, p, ⟨⟨hj, hat⟩, items, tag⟩, h4, rdy_idle ps x n (by omega) hs hr, hd, hc'.1, hc'.2⟩

/-- In `check_smpl_nr` the ready flag is that of the current slot, and the synchronisation bit and
    the comparator output are those of the packet whose header has just been read. -/
theorem check_registers (hs : (pathAt ps x n).wr.currentState = .checkSmplNr) :
    ∃ j p, InHand ps x n (pathAt ps x n).wr.currentBuffCnt j p ∧ 3 ≤ n ∧
      (pathAt ps x n).wr.currentBuffRdy =
        (pathAt ps x (n - 1)).inst1.wrempty (pathAt ps x n).wr.currentBuffCnt ∧
      (pathAt ps x n).wr.crntPctSyncDis = p.syncDis ∧
      (pathAt ps x n).wr.pctSmplNrLess = decide (p.timestamp < (x (n - 3)).sampleNr) := by
  have I := inv ps x n
  cases I.writer with
  | away state => rw [hs] at state; exact nomatch state
  | carry j p hat slot carry cur =>
    have H := (stamps ps x n).writer j p slot hat
    have hage : wrAge (pathAt ps x n).wr = 3 := by simp [wrAge, hs]
    rw [hage] at H
    obtain ⟨h2, hd⟩ := H 2 (by decide) (by decide)
    obtain ⟨-, hdr0, hdr1⟩ := carry.regs (carry.cnt_pos (by simp [hs]) (by simp [hs]))
    obtain ⟨htaken, hstored⟩ := carry.of_check hs
    have hword : some p.hdr = some (pathAt ps x n).inst0.inst1.q := by
      have := carry.data (by omega)
      rwa [htaken] at this
    rw [← cur] at slot
    have hsl := I.slots (pathAt ps x n).wr.currentBuffCnt
    rw [slot] at hsl
    cases hsl with
    | filling _ _ _ items =>
      rw [hstored] at items
      refine ⟨j, p, ⟨⟨slot, hat⟩, items, (Option.some.inj hword).symm, hdr0, hdr1⟩, h2,
        rdy_check ps x n (by omega) hs, ?_, ?_⟩
      · rw [P2dWrFsm.crntPctSyncDis, hdr0]
        rfl
      · rw [show n - 3 = n - 1 - 2 by omega]
        exact congrArg Prod.snd hd

/-- `clr_buff` takes a synchronised packet that is late only. -/
theorem clrBuff_own (ht : (pathAt ps x (n + 1)).rd.currentState = .clrBuff) :
    ∃ j p, Complete ps x n (pathAt ps x n).rd.crntBuffCnt j p ∧
      (x n).pctSyncDis = false ∧ p.syncDis = false ∧ p.timestamp < (x (n - 4)).sampleNr := by
  have hnext : (pathAt ps x (n + 1)).rd.currentState =
      (pathAt ps x n).rd.nextState (x n).pctSyncDis (x n).smplBuffAlmostFull := rfl
  rw [hnext] at ht
  obtain ⟨hs, hr, hsd, hrd, hl⟩ := P2dRd.of_nextState_clrBuff ht
  obtain ⟨j, p, hk, -, -, hd, -, hless⟩ := idle_registers ps x n hs hr
  exact ⟨j, p, hk, hsd, hd.symm.trans hrd, by rw [hless] at hl; exact of_decide_eq_true hl⟩

/-- `clr_fifo` takes a synchronised packet that is late only. -/
theorem clrFifo_own (ht : (pathAt ps x (n + 1)).wr.currentState = .clrFifo) :
    ∃ j p, InHand ps x n (pathAt ps x n).wr.currentBuffCnt j p ∧
      (x n).pctSyncDis = false ∧ p.syncDis = false ∧ p.timestamp < (x (n - 3)).sampleNr := by
  have hnext : (pathAt ps x (n + 1)).wr.currentState =
      (pathAt ps x n).wr.nextState (x n).pctSyncDis (pathAt ps x n).inst0.pctRdyReg := rfl
  rw [hnext] at ht
  obtain ⟨hs, hl, hrd, hsd⟩ := P2dWrFsm.of_nextState_clrFifo ht
  obtain ⟨j, p, hk, -, -, hd, hless⟩ := check_registers ps x n hs
  exact ⟨j, p, hk, hsd, hd.symm.trans hrd, by rw [hless] at hl; exact of_decide_eq_true hl⟩

/-- The sample number stays or steps by one from clock to clock. -/
def Steady (x : Nat → TxIn) : Prop := ∀ t,
  (x (t + 1)).sampleNr.toNat = (x t).sampleNr.toNat ∨
  (x (t + 1)).sampleNr.toNat = (x t).sampleNr.toNat + 1

theorem Steady.le (h : Steady x) {t u : Nat} (htu : t ≤ u) :
    (x t).sampleNr.toNat ≤ (x u).sampleNr.toNat := by
  induction u with
  | zero =>
    obtain rfl := Nat.le_zero.1 htu
    exact Nat.le_refl _
  | succ u ih =>
    by_cases hu : t = u + 1
    · subst hu
      exact Nat.le_refl _
    · have := ih (by omega)
      rcases h u with e | e <;> omega

variable {ps x n} {j : Nat} {p : Packet}

/-- A packet that is not late stays ready while `idle` waits for its time, and is not late then. -/
theorem waits (hx : Steady x) (hs : (pathAt ps x n).rd.currentState = .idle)
    (hr : (pathAt ps x n).rd.crntBuffRdy = true)
    (hk : InSlot ps x n (pathAt ps x n).rd.crntBuffCnt .full j p)
    (hlt : (x n).sampleNr < p.timestamp) {m : Nat} (hm : n ≤ m)
    (hidle : ∀ t, n ≤ t → t ≤ m → (pathAt ps x t).rd.currentState = .idle) :
    (pathAt ps x m).rd.crntBuffRdy = true ∧
    InSlot ps x m (pathAt ps x m).rd.crntBuffCnt .full j p ∧
    (x (m - 4)).sampleNr.toNat ≤ p.timestamp.toNat := by
  induction m with
  | zero =>
    obtain rfl : n = 0 := by omega
    exact ⟨hr, hk, Nat.le_of_lt (BitVec.lt_def.1 hlt)⟩
  | succ m ih =>
    by_cases hn : n = m + 1
    · subst hn
      refine ⟨hr, hk, ?_⟩
      have := hx.le (t := m + 1 - 4) (u := m + 1) (by omega)
      have := BitVec.lt_def.1 hlt
      omega
    · obtain ⟨hr', hk', hle⟩ := ih (by omega) fun t h h' => hidle t h (by omega)
      have hs' := hidle m (by omega) (by omega)
      have hnext := hidle (m + 1) (by omega) (Nat.le_refl _)
      have I := inv ps x m
      have htd : (pathAt ps x m).takes (x m) = false ∧ (pathAt ps x m).discards (x m) = false := by
        have hns : (pathAt ps x m).rd.nextState (x m).pctSyncDis (x m).smplBuffAlmostFull = .idle := hnext
        simp [takes, discards, hns]
      have hcrnt : (pathAt ps x (m + 1)).rd.crntBuffCnt = (pathAt ps x m).rd.crntBuffCnt := by
        have : (pathAt ps x m).rd.currentState ≠ .switchNextBuff := by rw [hs']; decide
        exact if_neg this
      have hrp := (I.reader.of_idle hs').1
      obtain ⟨h4, -, hc, hint⟩ := (stamps ps x m).reader hs' hr' j p (by rw [hrp]; exact hk'.1) hk'.2
      refine ⟨hint, ⟨?_, hk'.2⟩, ?_⟩
      · rw [hcrnt]; exact I.note_full_of_idle (i := x m) hk'.1 htd.1 htd.2
      · -- it has not been its time yet, or the reader would have left `idle`
        have hne : p.timestamp ≠ (x (m - 4)).sampleNr := by
          intro he
          have hns : (pathAt ps x m).rd.nextState (x m).pctSyncDis (x m).smplBuffAlmostFull = .idle := hnext
          have heq : (pathAt ps x m).rd.crntBuffPctSmplNrEqual = true := by
            rw [(Prod.mk.inj hc).1]; simpa using he
          rw [P2dRd.nextState, hs', hr', heq] at hns
          simp only [if_true] at hns
          split at hns <;> cases hns
        have hne' : p.timestamp.toNat ≠ (x (m - 4)).sampleNr.toNat := fun h =>
          hne (BitVec.eq_of_toNat_eq h)
        have hst := hx (m - 4)
        rw [show m - 4 + 1 = m + 1 - 4 by omega] at hst
        rcases hst with e | e <;> omega

/-- From `idle` such a packet goes on waiting or is read. -/
theorem waits_next (hx : Steady x) (hs : (pathAt ps x n).rd.currentState = .idle)
    (hr : (pathAt ps x n).rd.crntBuffRdy = true)
    (hk : InSlot ps x n (pathAt ps x n).rd.crntBuffCnt .full j p)
    (hlt : (x n).sampleNr < p.timestamp) {m : Nat} (hm : n ≤ m)
    (hidle : ∀ t, n ≤ t → t ≤ m → (pathAt ps x t).rd.currentState = .idle) :
    ((pathAt ps x (m + 1)).rd.currentState = .rdBuff ∨
      (pathAt ps x (m + 1)).rd.currentState = .idle) ∧
    ((x (m - 4)).sampleNr = p.timestamp → (pathAt ps x (m + 1)).rd.currentState = .rdBuff) := by
  obtain ⟨hr', hk', hle⟩ := waits hx hs hr hk hlt hm hidle
  have hs' := hidle m hm (Nat.le_refl _)
  have I := inv ps x m
  have hrp := (I.reader.of_idle hs').1
  obtain ⟨-, -, hc, -⟩ := (stamps ps x m).reader hs' hr' j p (by rw [hrp]; exact hk'.1) hk'.2
  obtain ⟨heq, hless⟩ := Prod.mk.inj hc
  have hnl : (pathAt ps x m).rd.crntBuffPctSmplNrLess = false := by
    rw [hless, decide_eq_false_iff_not, BitVec.lt_def]; omega
  have hst : (pathAt ps x (m + 1)).rd.currentState =
      (pathAt ps x m).rd.nextState (x m).pctSyncDis (x m).smplBuffAlmostFull := rfl
  rw [hst, P2dRd.nextState, hs', hr', hnl]
  simp only [if_true, Bool.false_eq_true, if_false]
  constructor
  · repeat' split
    all_goals simp
  · intro he
    have : (pathAt ps x m).rd.crntBuffPctSmplNrEqual = true := by rw [heq, he]; simp
    rw [this]; simp

/-- Waiting ends with the packet being read, at the latest four clocks after its time. -/
theorem waits_until (hx : Steady x) (hs : (pathAt ps x n).rd.currentState = .idle)
    (hr : (pathAt ps x n).rd.crntBuffRdy = true)
    (hk : InSlot ps x n (pathAt ps x n).rd.crntBuffCnt .full j p)
    (hlt : (x n).sampleNr < p.timestamp) (c : Nat) :
    (∀ t, n ≤ t → t ≤ n + c → (pathAt ps x t).rd.currentState = .idle) ∨
    ∃ t, n ≤ t ∧ t < n + c ∧ (∀ u, n ≤ u → u ≤ t → (pathAt ps x u).rd.currentState = .idle) ∧
      (pathAt ps x (t + 1)).rd.currentState = .rdBuff := by
  induction c with
  | zero =>
    left; intro t h h'
    obtain rfl : t = n := by omega
    exact hs
  | succ c ih =>
    rcases ih with hall | ⟨t, h1, h2, h3⟩
    · rcases (waits_next hx hs hr hk hlt (Nat.le_add_right n c) hall).1 with h | h
      · exact .inr ⟨n + c, by omega, by omega, hall, h⟩
      · left; intro t h1 h2
        by_cases ht : t ≤ n + c
        · exact hall t h1 ht
        · rw [show t = n + c + 1 by omega]; exact h
    · exact .inr ⟨t, h1, by omega, h3⟩

end decisions

/-- TX timestamp discipline, in every clock of every run: `idle` and `check_smpl_nr` see the ready
    flag of the current slot, and the synchronisation bit and comparator outputs of the packet they
    decide about, which is the one the slot holds or is to hold; a packet is begun to be read only
    when it is not synchronised or its timestamp equalled the sample number four clocks before; it is
    dropped only when it is synchronised and its timestamp was less than the sample number three
    (`clr_fifo`) or four (`clr_buff`) clocks before; and while the sample number stays or steps by
    one, a packet found ready before its time is not dropped but read, at the latest four clocks after
    its time. -/
theorem tx_timestamp_discipline (ps : List Packet) (x : Nat → TxIn) (n : Nat) :
    ((pathAt ps x n).rd.currentState = .idle → (pathAt ps x n).rd.crntBuffRdy = true →
      ∃ j p, Complete ps x n (pathAt ps x n).rd.crntBuffCnt j p ∧ 4 ≤ n ∧
        (pathAt ps x (n - 1)).inst1.pctBuffRdyInt (pathAt ps x n).rd.crntBuffCnt = true ∧
        (pathAt ps x n).rd.crntBuffPctSynchDis = p.syncDis ∧
        (pathAt ps x n).rd.crntBuffPctSmplNrEqual = (p.timestamp == (x (n - 4)).sampleNr) ∧
        (pathAt ps x n).rd.crntBuffPctSmplNrLess = decide (p.timestamp < (x (n - 4)).sampleNr)) ∧
    ((pathAt ps x n).wr.currentState = .checkSmplNr →
      ∃ j p, InHand ps x n (pathAt ps x n).wr.currentBuffCnt j p ∧ 3 ≤ n ∧
        (pathAt ps x n).wr.currentBuffRdy =
          (pathAt ps x (n - 1)).inst1.wrempty (pathAt ps x n).wr.currentBuffCnt ∧
        (pathAt ps x n).wr.crntPctSyncDis = p.syncDis ∧
        (pathAt ps x n).wr.pctSmplNrLess = decide (p.timestamp < (x (n - 3)).sampleNr)) ∧
    ((pathAt ps x n).rd.currentState = .idle → (pathAt ps x (n + 1)).rd.currentState = .rdBuff →
      ∃ j p, Complete ps x n (pathAt ps x n).rd.crntBuffCnt j p ∧
        ((x n).pctSyncDis = false → p.syncDis = false → p.timestamp = (x (n - 4)).sampleNr)) ∧
    ((pathAt ps x (n + 1)).rd.currentState = .clrBuff →
      ∃ j p, Complete ps x n (pathAt ps x n).rd.crntBuffCnt j p ∧
        (x n).pctSyncDis = false ∧ p.syncDis = false ∧ p.timestamp < (x (n - 4)).sampleNr) ∧
    ((pathAt ps x (n + 1)).wr.currentState = .clrFifo →
      ∃ j p, InHand ps x n (pathAt ps x n).wr.currentBuffCnt j p ∧
        (x n).pctSyncDis = false ∧ p.syncDis = false ∧ p.timestamp < (x (n - 3)).sampleNr) ∧
    (∀ j p, Steady x → (pathAt ps x n).rd.currentState = .idle → (pathAt ps x n).rd.crntBuffRdy = true →
      InSlot ps x n (pathAt ps x n).rd.crntBuffCnt .full j p → (x n).sampleNr < p.timestamp →
      (∀ m, n ≤ m → (∀ t, n ≤ t → t ≤ m → (pathAt ps x t).rd.currentState = .idle) →
        (pathAt ps x (m + 1)).rd.currentState = .rdBuff ∨
        (pathAt ps x (m + 1)).rd.currentState = .idle) ∧
      (∀ m, (x m).sampleNr = p.timestamp → ∃ t, n ≤ t ∧ t ≤ m + 4 ∧
        (∀ u, n ≤ u → u ≤ t → (pathAt ps x u).rd.currentState = .idle) ∧
        (pathAt ps x (t + 1)).rd.currentState = .rdBuff)) := by
  have hnext : (pathAt ps x (n + 1)).rd.currentState =
      (pathAt ps x n).rd.nextState (x n).pctSyncDis (x n).smplBuffAlmostFull := rfl
  refine ⟨idle_registers ps x n, check_registers ps x n, fun hs ht => ?_, clrBuff_own ps x n,
    clrFifo_own ps x n,
    fun j p hx hs hr hk hlt => ⟨fun m hm hidle => (waits_next hx hs hr hk hlt hm hidle).1,
      fun m hm => ?_⟩⟩
  · rw [hnext] at ht
    have htk : (pathAt ps x n).takes (x n) = true := by simp [takes, hs, ht]
    obtain ⟨j, p, hk, -, -, hd, heq, -⟩ := idle_registers ps x n hs (Inv.idle_of_takes (.inl htk)).2
    refine ⟨j, p, hk, fun hsd hpd => ?_⟩
    rw [P2dRd.nextState, hs, hd, heq, hsd, hpd] at ht
    simp only [Bool.or_self, Bool.false_eq_true, if_false, beq_iff_eq] at ht
    repeat' split at ht
    all_goals first | assumption | cases ht
  · -- the sample number reaches the timestamp after clock `n`
    have hnm : n ≤ m := by
      by_cases h : n ≤ m
      · exact h
      · have := hx.le (t := m) (u := n) (by omega)
        have := BitVec.lt_def.1 hlt
        rw [hm] at *; omega
    rcases waits_until hx hs hr hk hlt (m + 4 - n) with hall | ⟨t, h1, h2, h3⟩
    · have hall' : ∀ t, n ≤ t → t ≤ m + 4 → (pathAt ps x t).rd.currentState = .idle :=
        fun t h h' => hall t h (by omega)
      exact ⟨m + 4, by omega, Nat.le_refl _, hall',
        (waits_next hx hs hr hk hlt (by omega) hall').2 (by simpa using hm)⟩
    · exact ⟨t, h1, by omega, h3⟩

end TxPath

end Tx
