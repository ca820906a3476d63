import LimeSdrGw.Wfm.Ddr2Arb
import LimeSdrGw.Wfm.Load
/-
# What the memory controller is given

The commands a FIFO gives out determine the requests the controller should have taken. An automaton
reads the pairs off the popped commands, and the controller's unfinished write is the open half of one.
-/
namespace Wfm

open Clocked

/-- The writes a list of commands stands for. -/
def requests : List Cmd → List WrReq
  | [] => []
  | [a] => [⟨a.addr, if a.brst then lclBurstLength else 1, [a.data]⟩]
  | a :: b :: l =>
    if a.brst then ⟨a.addr, lclBurstLength, [a.data, b.data]⟩ :: requests l
    else ⟨a.addr, 1, [a.data]⟩ :: requests (b :: l)

def RdCmd.request (c : RdCmd) : RdReq := ⟨c.addr, if c.brst then lclBurstLength else 1⟩

section pairing

/-- The first word of a pair waits for the second one. -/
def pairStep (o : Option Cmd) (c : Cmd) : Option (Option Cmd) :=
  match o with
  | none => some (if c.brst then some c else none)
  | some a => if c.brst ∧ c.addr = incAddr a.addr then some none else none

/-- Where a list of commands stands, if its pairs are in order. -/
def pairing (l : List Cmd) : Option (Option Cmd) := l.foldlM pairStep none

theorem pairing_snoc (l : List Cmd) (c : Cmd) :
    pairing (l ++ [c]) = (pairing l).bind fun o => pairStep o c := by
  simp [pairing, List.foldlM_append]

theorem pairing_append {l m : List Cmd} {o : Option Cmd} (h : pairing (l ++ m) = some o) :
    ∃ o', pairing l = some o' := by
  cases hl : pairing l with
  | some o' => exact ⟨o', rfl⟩
  | none =>
    unfold pairing at h hl
    rw [List.foldlM_append, hl] at h
    exact nomatch h

theorem Paired.pairing {l : List Cmd} (h : Paired l) : pairing l = some none := by
  induction h with
  | nil => rfl
  | single _ hb ih => simp [pairing_snoc, ih, pairStep, hb]
  | pair _ ha hb hadr ih =>
    rw [List.append_cons, pairing_snoc, pairing_snoc, ih]
    simp [pairStep, ha, hb, hadr]

theorem requests_append {l : List Cmd} (m : List Cmd) (h : pairing l = some none) :
    requests (l ++ m) = requests l ++ requests m := by
  fun_induction requests l with
  | case1 => rfl
  | case2 a =>
    cases ha : a.brst
    · cases m <;> simp [requests, ha]
    · simp [pairing, pairStep, ha] at h
  | case3 a b l ha ih =>
    have hl : pairing l = some none := by
      simp only [pairing, List.foldlM_cons, pairStep, ha] at h ⊢
      by_cases hb : b.brst = true ∧ b.addr = incAddr a.addr
      · simpa [hb] using h
      · simp [hb] at h
    simp [requests, ha, ih hl]
  | case4 a b l ha ih =>
    have hl : pairing (b :: l) = some none := by
      simpa [pairing, pairStep, ha] using h
    have := ih hl
    simp only [List.cons_append] at this ⊢
    simp [requests, ha, this]

/-- An open pair is the last command. -/
theorem pairing_open {l : List Cmd} {a : Cmd} (h : pairing l = some (some a)) :
    ∃ l', l = l' ++ [a] ∧ pairing l' = some none ∧ a.brst = true := by
  rcases List.eq_nil_or_concat l with rfl | ⟨l', c, rfl⟩
  · simp [pairing] at h
  · rw [List.concat_eq_append, pairing_snoc] at h
    cases ho : pairing l' with
    | none => simp [ho] at h
    | some o =>
      cases o with
      | none =>
        cases hc : c.brst <;> simp [ho, pairStep, hc] at h
        subst h
        exact ⟨l', by simp, ho, hc⟩
      | some a' => simp [ho, pairStep] at h

end pairing

/-- The controller has taken just what the popped commands stand for. -/
def Tied (c : Ctl) (popped : List Cmd) : Prop :=
  ∃ o, pairing popped = some o ∧
    c.under = o.map (fun a => ⟨a.addr, lclBurstLength, [a.data]⟩) ∧
    c.writes ++ c.under.toList = requests popped

/-- The next command's word, at the command's own address unless it is the second of its pair. -/
theorem Tied.takeWord {c : Ctl} {popped : List Cmd} {h : Cmd} (t : Tied c popped)
    (own : c.under = none → c.addr = h.addr ∧ c.size = if h.brst then lclBurstLength else 1)
    (whole : ∃ o, pairing (popped ++ [h]) = some o) :
    Tied (c.takeWord h.data) (popped ++ [h]) ∧
      ((c.takeWord h.data).under = none ↔ (c.under = none → h.brst = false)) := by
  obtain ⟨o, hp, hu, hw⟩ := t
  obtain ⟨o', hp'⟩ := whole
  have hstep : pairStep o h = some o' := by
    simpa [pairing_snoc, hp] using hp'
  cases o with
  | none =>
    have hu : c.under = none := hu
    obtain ⟨ha, hs⟩ := own hu
    rw [hu] at hw
    cases hb : h.brst
    · obtain rfl : o' = none := by simpa [pairStep, hb] using hstep.symm
      have ht : c.takeWord h.data = { c with under := none, writes := c.writes ++ [⟨h.addr, 1, [h.data]⟩] } := by
        simp [Ctl.takeWord, hu, ha, hs, hb]
      refine ⟨⟨none, hp', by rw [ht]; rfl, ?_⟩, by simp [ht, hu]⟩
      rw [ht, requests_append _ hp, ← hw]
      simp [requests, hb]
    · obtain rfl : o' = some h := by simpa [pairStep, hb] using hstep.symm
      have ht : c.takeWord h.data = { c with under := some ⟨h.addr, lclBurstLength, [h.data]⟩ } := by
        simp [Ctl.takeWord, hu, ha, hs, hb]
      refine ⟨⟨some h, hp', by rw [ht]; rfl, ?_⟩, by simp [ht, hu]⟩
      rw [ht, requests_append _ hp, ← hw]
      simp [requests, hb]
  | some a =>
    have hu : c.under = some ⟨a.addr, lclBurstLength, [a.data]⟩ := hu
    obtain ⟨l, rfl, hl, ha⟩ := pairing_open hp
    have hb : h.brst = true ∧ o' = none := by
      simp only [pairStep] at hstep
      split at hstep
      next hc => exact ⟨hc.1, (Option.some.inj hstep).symm⟩
      next => exact nomatch hstep
    obtain ⟨hb, rfl⟩ := hb
    have ht : c.takeWord h.data =
        { c with under := none, writes := c.writes ++ [⟨a.addr, lclBurstLength, [a.data, h.data]⟩] } := by
      simp [Ctl.takeWord, hu]
    have hw' : c.writes = requests l := by
      rw [hu, requests_append _ hl] at hw
      simpa [requests, ha] using hw
    refine ⟨⟨none, hp', by rw [ht]; rfl, ?_⟩, by simp [ht, hu, hb]⟩
    rw [ht, List.append_assoc l, requests_append _ hl, hw']
    simp [requests, ha]

namespace CmdPort

section run

variable (x : Nat → ArbIn)

abbrev portAt (n : Nat) : CmdPort := machine.state x n

/-- The commands that have come into the FIFOs, and those popped from them, before clock `n`. -/
def pushed (n : Nat) : List Cmd := machine.log (fun _ i => i.wcmdPush) x n
def rpushed (n : Nat) : List RdCmd := machine.log (fun _ i => i.rcmdPush) x n
def pop (s : CmdPort) (i : ArbIn) : List Cmd := if s.wcmdRdreq i then s.wcmdfifo.head?.toList else []
def rpop (s : CmdPort) (i : ArbIn) : List RdCmd :=
  if s.rcmdRdreq i then s.rcmdfifo.head?.toList else []
def popped (n : Nat) : List Cmd := machine.log pop x n
def rpopped (n : Nat) : List RdCmd := machine.log rpop x n

/-- The controller before clock `n`. -/
def ctlAt (n : Nat) : Ctl := machine.track Ctl.serve .init x n

end run

/-- A write comes into the empty FIFO and finds the FSM asking for it with the address of an earlier
    one. -/
def arrivesLate (c : Ctl) (s : CmdPort) (i : ArbIn) : Bool :=
  s.wcmdfifo.isEmpty && !i.wcmdPush.isEmpty && c.under.isNone &&
    match s.arb.currentState with
    | .burstWr => i.wcmdStale.brst || !i.localReady
    | .holdWr => !i.localReady
    | .wr => !(i.localReady && s.arb.wrCnt == lclBurstLength - 1)
    | _ => false

/-- The second word of a pair is taken with `wr_cnt` at 0, so that the FSM stays for a third. -/
def overruns (c : Ctl) (s : CmdPort) (i : ArbIn) : Bool :=
  s.arb.currentState == .wr && i.localReady && s.arb.wrCnt == 0 && c.under.isSome &&
    !s.wcmdfifo.isEmpty && !(s.wcmdfifo.tail ++ i.wcmdPush).isEmpty

/-- `wr` is left with a pair half written: its second word has not come yet, or its first one is
    taken with `wr_cnt` at 1. -/
def leavesEarly (c : Ctl) (s : CmdPort) (i : ArbIn) : Bool :=
  s.arb.currentState == .wr && i.localReady && s.arb.wrCnt == lclBurstLength - 1 &&
    c.under.isSome == s.wcmdfifo.isEmpty

/-- A read comes into the empty FIFO while the FSM waits for `local_ready`. -/
def readArrivesLate (s : CmdPort) (i : ArbIn) : Bool :=
  s.rcmdfifo.isEmpty && !i.rcmdPush.isEmpty && !i.localReady &&
    (s.arb.currentState == .burstRd || s.arb.currentState == .rdHold)

def misses (c : Ctl) (s : CmdPort) (i : ArbIn) : Bool :=
  arrivesLate c s i || overruns c s i || leavesEarly c s i || readArrivesLate s i

structure ArbInv (c : Ctl) (s : CmdPort) (popped : List Cmd) (rpopped : List RdCmd) : Prop where
  latch : s.arb.addrReg = c.addr
  cnt : s.arb.wrCnt ≤ 1
  whole : s.arb.currentState ≠ .wr → c.under = none
  own : s.arb.currentState = .holdWr ∨ s.arb.currentState = .wr → c.under = none →
    ∀ h l, s.wcmdfifo = h :: l →
      c.addr = h.addr ∧ c.size = (if h.brst then lclBurstLength else 1) ∧
        h.brst = decide (s.arb.currentState = .wr)
  ownRd : s.arb.currentState = .rdHold → ∀ h l, s.rcmdfifo = h :: l → h.request = ⟨c.addr, c.size⟩
  tied : Tied c popped
  reads : c.reads = rpopped.map RdCmd.request

section step

variable {c : Ctl} {s : CmdPort} {i : ArbIn} {popped : List Cmd} {rpopped : List RdCmd}

/-- A request in `burst_wr` names its command; in `hold_wr` and `wr` it has been named before. -/
theorem ArbInv.given_own (h : ArbInv c s popped rpopped) {w : Cmd} {l : List Cmd}
    (hw : s.wcmdfifo = w :: l) (hs : s.arb.currentState = .burstWr ∨ s.arb.currentState = .holdWr ∨
      s.arb.currentState = .wr) (hu : c.under = none) :
    (c.given s i).addr = w.addr ∧
      (c.given s i).size = if w.brst then lclBurstLength else 1 := by
  rcases hs with hs | hs
  · simp [Ctl.given, localBurstbegin, localAddr, localSize, Ddr2Arb.burstbegin, Ddr2Arb.addr,
      Ddr2Arb.size, hs, wcmd, RdSide.of, hw]
  · have := h.own hs hu w l hw
    have hb : s.localBurstbegin i = false := by
      rcases hs with hs | hs <;> simp [localBurstbegin, Ddr2Arb.burstbegin, hs]
    simp [Ctl.given, hb, this.1, this.2.1]

def Writing (s : CmdPort) : Prop :=
  s.arb.currentState = .burstWr ∨ s.arb.currentState = .holdWr ∨ s.arb.currentState = .wr

def Reading (s : CmdPort) : Prop :=
  s.arb.currentState = .burstRd ∨ s.arb.currentState = .rdHold

/-- What is popped in a clock is what the controller takes in it. -/
inductive Served (c : Ctl) (s : CmdPort) (i : ArbIn) : Prop
  | write (w : Cmd) (l : List Cmd) : s.wcmdfifo = w :: l → Writing s → i.localReady = true →
      c.serve s i = (c.given s i).takeWord w.data → pop s i = [w] → rpop s i = [] →
      (s.step i).wcmdfifo = l ++ i.wcmdPush → (s.step i).rcmdfifo = s.rcmdfifo ++ i.rcmdPush →
      Served c s i
  | read (r : RdCmd) (l : List RdCmd) : s.rcmdfifo = r :: l → Reading s → i.localReady = true →
      c.serve s i = (c.given s i).takeRead → pop s i = [] → rpop s i = [r] →
      (s.step i).wcmdfifo = s.wcmdfifo ++ i.wcmdPush → (s.step i).rcmdfifo = l ++ i.rcmdPush →
      Served c s i
  | nothing : (i.localReady = true → Writing s → s.wcmdfifo = []) →
      (i.localReady = true → Reading s → s.rcmdfifo = []) →
      c.serve s i = c.given s i → pop s i = [] → rpop s i = [] →
      (s.step i).wcmdfifo = s.wcmdfifo ++ i.wcmdPush →
      (s.step i).rcmdfifo = s.rcmdfifo ++ i.rcmdPush → Served c s i

theorem served (c : Ctl) (s : CmdPort) (i : ArbIn) : Served c s i := by
  have hw : s.wcmdRdreq i = (i.localReady && s.localWriteReq i) := by
    simp [wcmdRdreq, Ddr2Arb.wcmdFifoRdreq, localWriteReq]
  have hr : s.rcmdRdreq i = (i.localReady && s.localReadReq i) := by
    simp only [rcmdRdreq, Ddr2Arb.rcmdFifoRdreq, localReadReq, Ddr2Arb.localReadReq]
    cases i.localReady <;> simp
  have hw' : s.localWriteReq i = true ↔ Writing s ∧ s.wcmdfifo ≠ [] := by
    simp [localWriteReq, Ddr2Arb.writeReq, Writing, wcmd, RdSide.of]
    grind
  have hr' : s.localReadReq i = true ↔ Reading s ∧ s.rcmdfifo ≠ [] := by
    simp [localReadReq, Ddr2Arb.localReadReq, Reading, rcmd, RdSide.of]
  have apart : Writing s → ¬ Reading s := by
    unfold Writing Reading
    grind
  have hf : (s.step i).wcmdfifo =
      (if s.wcmdRdreq i then s.wcmdfifo.tail else s.wcmdfifo) ++ i.wcmdPush := rfl
  have hf' : (s.step i).rcmdfifo =
      (if s.rcmdRdreq i then s.rcmdfifo.tail else s.rcmdfifo) ++ i.rcmdPush := rfl
  by_cases tw : i.localReady = true ∧ s.localWriteReq i = true
  · obtain ⟨hwr, hne⟩ := hw'.1 tw.2
    obtain ⟨w, l, hl⟩ := List.exists_cons_of_ne_nil hne
    have nr : s.localReadReq i = false := by
      cases h : s.localReadReq i
      · rfl
      · exact absurd (hr'.1 h).1 (apart hwr)
    refine .write w l hl hwr tw.1 ?_ ?_ ?_ ?_ ?_
    · simp [Ctl.serve, tw.1, tw.2, localWdata, wcmd, RdSide.of, hl]
    · simp [pop, hw, tw.1, tw.2, hl]
    · simp [rpop, hr, nr]
    · simp [hf, hw, tw.1, tw.2, hl]
    · simp [hf', hr, nr]
  · have nw : s.wcmdRdreq i = false := by
      rw [hw]
      simpa using tw
    have nw' : (i.localReady && s.localWriteReq i) = false := by rw [← hw, nw]
    by_cases tr : i.localReady = true ∧ s.localReadReq i = true
    · obtain ⟨hrd, hne⟩ := hr'.1 tr.2
      obtain ⟨r, l, hl⟩ := List.exists_cons_of_ne_nil hne
      have off : s.localWriteReq i = false := by simpa [tr.1] using nw'
      refine .read r l hl hrd tr.1 ?_ ?_ ?_ ?_ ?_
      · simp [Ctl.serve, tr.1, tr.2, off]
      · simp [pop, nw]
      · simp [rpop, hr, tr.1, tr.2, hl]
      · simp [hf, nw]
      · simp [hf', hr, tr.1, tr.2, hl]
    · have nr : s.rcmdRdreq i = false := by
        rw [hr]
        simpa using tr
      have nr' : (i.localReady && s.localReadReq i) = false := by rw [← hr, nr]
      refine .nothing ?_ ?_ ?_ ?_ ?_ ?_ ?_
      · intro hrdy hwr
        cases hl : s.wcmdfifo with
        | nil => rfl
        | cons w l => exact absurd ⟨hrdy, hw'.2 ⟨hwr, by simp [hl]⟩⟩ tw
      · intro hrdy hrd
        cases hl : s.rcmdfifo with
        | nil => rfl
        | cons r l => exact absurd ⟨hrdy, hr'.2 ⟨hrd, by simp [hl]⟩⟩ tr
      · simp only [Ctl.serve, nw', nr', Bool.false_eq_true, ↓reduceIte]
      · simp [pop, nw]
      · simp [rpop, nr]
      · simp [hf, nw]
      · simp [hf', nr]

theorem Ctl.given_kept (c : Ctl) (s : CmdPort) (i : ArbIn) :
    (c.given s i).under = c.under ∧ (c.given s i).writes = c.writes ∧
      (c.given s i).reads = c.reads := by
  unfold Ctl.given
  split <;> exact ⟨rfl, rfl, rfl⟩

theorem Ctl.takeWord_kept (c : Ctl) (d : Option Word32) :
    (c.takeWord d).addr = c.addr ∧ (c.takeWord d).reads = c.reads := by
  unfold Ctl.takeWord
  dsimp only
  split <;> split <;> exact ⟨rfl, rfl⟩

/-- The address register keeps what was given with `local_burstbegin`. -/
theorem ArbInv.latch_step (h : ArbInv c s popped rpopped) :
    (s.step i).arb.addrReg = (c.serve s i).addr := by
  have hg : (s.step i).arb.addrReg = (c.given s i).addr := by
    have e : (s.step i).arb.addrReg = s.localAddr i := rfl
    rw [e]
    unfold Ctl.given
    split
    next => rfl
    next hb =>
      have hb : s.arb.burstbegin (s.wcmd i) (s.rcmd i) = false := by simpa [localBurstbegin] using hb
      simp [localAddr, Ddr2Arb.addr, hb, h.latch]
  rw [hg]
  cases served c s i with
  | write w l hl hs hrdy hc => rw [hc, (Ctl.takeWord_kept _ _).1]
  | read r l hl hs hrdy hc => rw [hc]; rfl
  | nothing hw hr hc => rw [hc]

theorem ArbInv.tied_step (h : ArbInv c s popped rpopped)
    (whole : ∃ o, pairing (popped ++ pop s i) = some o) :
    Tied (c.serve s i) (popped ++ pop s i) := by
  have given : Tied (c.given s i) popped := by
    obtain ⟨hu, hw, -⟩ := Ctl.given_kept c s i
    simpa [Tied, hu, hw] using h.tied
  cases served c s i with
  | write w l hl hs hrdy hc hp =>
    rw [hp] at whole ⊢
    rw [hc]
    refine (given.takeWord (fun hu => ?_) whole).1
    rw [(Ctl.given_kept c s i).1] at hu
    exact h.given_own hl hs hu
  | read r l hl hs hrdy hc hp =>
    rw [hp, hc, List.append_nil]
    exact given
  | nothing hw hr hc hp => simpa [hp, hc] using given

theorem ArbInv.reads_step (h : ArbInv c s popped rpopped) :
    (c.serve s i).reads = (rpopped ++ rpop s i).map RdCmd.request := by
  have hg : (c.given s i).reads = rpopped.map RdCmd.request := by
    rw [(Ctl.given_kept c s i).2.2, h.reads]
  cases served c s i with
  | write w l hl hs hrdy hc hp hq =>
    simp [hc, (Ctl.takeWord_kept _ _).2, hq, hg]
  | nothing hw hr hc hp hq => simp [hc, hq, hg]
  | read r l hl hs hrdy hc hp hq =>
    have own : (⟨(c.given s i).addr, (c.given s i).size⟩ : RdReq) = r.request := by
      rcases hs with hs | hs
      · simp [Ctl.given, localBurstbegin, localAddr, localSize, Ddr2Arb.burstbegin, Ddr2Arb.addr,
          Ddr2Arb.size, hs, rcmd, RdSide.of, hl, RdCmd.request]
      · have hb : s.localBurstbegin i = false := by
          simp [localBurstbegin, Ddr2Arb.burstbegin, hs]
        simp [Ctl.given, hb, h.ownRd hs r l hl]
    simp [hc, hq, Ctl.takeRead, hg, own]

theorem ArbInv.under_step (h : ArbInv c s popped rpopped)
    (whole : ∃ o, pairing (popped ++ pop s i) = some o) {w : Cmd} {l : List Cmd}
    (hl : s.wcmdfifo = w :: l) (hs : Writing s) (hrdy : i.localReady = true) :
    (c.serve s i).under = none ↔ (c.under = none → w.brst = false) := by
  have given : Tied (c.given s i) popped := by
    obtain ⟨hu, hw, -⟩ := Ctl.given_kept c s i
    simpa [Tied, hu, hw] using h.tied
  cases served c s i with
  | write w' l' hl' hs' hrdy' hc hp =>
    obtain ⟨rfl, rfl⟩ := List.cons.inj (hl.symm.trans hl')
    rw [hp] at whole
    have := (given.takeWord (fun hu => h.given_own hl hs ((Ctl.given_kept c s i).1 ▸ hu)) whole).2
    rw [(Ctl.given_kept c s i).1] at this
    rw [hc, this]
  | read r l' hl' hs' =>
    unfold Writing at hs
    unfold Reading at hs'
    grind
  | nothing hw => exact absurd (hw hrdy hs) (by simp [hl])

theorem next_eq (s : CmdPort) (i : ArbIn) : (s.step i).arb.currentState =
    s.arb.next (s.wcmd i) (s.rcmd i) i.localReady i.outbufWrusedw := rfl

theorem ArbInv.whole_step (h : ArbInv c s popped rpopped)
    (whole : ∃ o, pairing (popped ++ pop s i) = some o) (early : leavesEarly c s i = false)
    (hn : (s.step i).arb.currentState ≠ .wr) : (c.serve s i).under = none := by
  rw [next_eq] at hn
  cases served c s i with
  | write w l hl hs hrdy =>
    rw [h.under_step whole hl hs hrdy]
    intro hnone
    have hq : (s.wcmd i).q = w := by simp [wcmd, RdSide.of, hl]
    rcases hs with hs | hs | hs
    · cases hb : w.brst
      · rfl
      · simp [Ddr2Arb.next, hs, hq, hb] at hn
    · exact (h.own (.inl hs) hnone w l hl).2.2.trans (by simp [hs])
    · simp [Ddr2Arb.next, hs, hrdy] at hn
      simp [leavesEarly, hs, hrdy, hl, hnone, hn.1] at early
  | read r l hl hs hrdy hc =>
    rw [hc]
    refine (Ctl.given_kept c s i).1.trans (h.whole ?_)
    rcases hs with hs | hs <;> simp [hs]
  | nothing hw hr hc =>
    rw [hc, (Ctl.given_kept c s i).1]
    by_cases hs : s.arb.currentState = .wr
    · simp [Ddr2Arb.next, hs] at hn
      have hl := hw hn.1 (.inr (.inr hs))
      simpa [leavesEarly, hs, hn.1, hn.2.1, hl] using early
    · exact h.whole hs

/-- The address of a command has been given, and its words may not all have been taken. -/
def Awaits (s : CmdPort) : Prop := s.arb.currentState = .holdWr ∨ s.arb.currentState = .wr

/-- Behind a word that has begun nothing there is only a second word of a burst, and the next command
    is not given yet. -/
theorem ArbInv.behind_word (h : ArbInv c s popped rpopped)
    (whole : ∃ o, pairing (popped ++ pop s i) = some o) {w : Cmd} {l : List Cmd}
    (hl : s.wcmdfifo = w :: l) (hs : Writing s) (hrdy : i.localReady = true)
    (hu : (c.serve s i).under = none) (hn : Awaits (s.step i)) :
    s.arb.currentState = .wr ∧ s.arb.wrCnt = 0 ∧ c.under ≠ none := by
  rw [h.under_step whole hl hs hrdy] at hu
  unfold Awaits at hn
  rw [next_eq] at hn
  rcases hs with hs | hs | hs
  · have hb := hu (h.whole (by simp [hs]))
    simp [Ddr2Arb.next, hs, hrdy, hb, wcmd, RdSide.of, hl] at hn
  · simp only [Ddr2Arb.next, hs, hrdy, if_true] at hn
    split at hn <;> simp at hn
  · refine ⟨hs, ?_, fun hnone => ?_⟩
    · have hcnt := h.cnt
      have h1 : s.arb.wrCnt ≠ 1 := by
        intro h1
        simp only [Ddr2Arb.next, hs, hrdy, h1] at hn
        grind
      omega
    · have hb := (h.own (.inr hs) hnone w l hl).2.2
      simp [hs, hu hnone] at hb

theorem not_awaits_of_read (hs : Reading s) (hrdy : i.localReady = true) : ¬ Awaits (s.step i) := by
  intro hn
  unfold Awaits at hn
  rw [next_eq] at hn
  rcases hs with hs | hs
  · simp only [Ddr2Arb.next, hs, hrdy] at hn
    grind
  · simp only [Ddr2Arb.next, hs, hrdy] at hn
    grind

theorem writing_of_awaits (hn : Awaits (s.step i)) : Writing s := by
  unfold Awaits at hn
  rw [next_eq] at hn
  unfold Writing
  revert hn
  cases hs : s.arb.currentState <;> simp [Ddr2Arb.next, hs] <;> grind

/-- A command does not reach an empty FIFO while its address is asked for. -/
theorem not_awaits_of_empty (late : arrivesLate c s i = false) (hu : c.under = none)
    (hs : Writing s) (hl : s.wcmdfifo = []) {w : Cmd} {l : List Cmd} (push : i.wcmdPush = w :: l) :
    ¬ Awaits (s.step i) := by
  intro hn
  unfold Awaits at hn
  rw [next_eq] at hn
  simp only [arrivesLate, hl, push, hu, List.isEmpty_nil, List.isEmpty_cons, Bool.not_false,
    Option.isNone_none, Bool.and_self, Bool.true_and] at late
  rcases hs with hs | hs | hs
  · simp [hs] at late
    simp [Ddr2Arb.next, hs, wcmd, RdSide.of, hl, late] at hn
  · simp [hs] at late
    simp [Ddr2Arb.next, hs, wcmd, RdSide.of, hl, late] at hn
  · simp [hs] at late
    simp [Ddr2Arb.next, hs, wcmd, RdSide.of, hl, late] at hn

/-- A command that waits for the controller goes on waiting in the state of its kind. -/
theorem ArbInv.own_waits (h : ArbInv c s popped rpopped) (hs : Writing s) (hu : c.under = none)
    (hrdy : i.localReady = false) {w : Cmd} {l : List Cmd} (hl : s.wcmdfifo = w :: l) :
    w.brst = decide ((s.step i).arb.currentState = .wr) := by
  have hq : (s.wcmd i).q = w := by simp [wcmd, RdSide.of, hl]
  rw [next_eq]
  rcases hs with hs | hs | hs
  · cases hb : w.brst <;> simp [Ddr2Arb.next, hs, hrdy, hq, hb]
  · simpa [Ddr2Arb.next, hs, hrdy] using (h.own (.inl hs) hu w l hl).2.2
  · simpa [Ddr2Arb.next, hs, hrdy] using (h.own (.inr hs) hu w l hl).2.2

theorem ArbInv.own_step (h : ArbInv c s popped rpopped)
    (whole : ∃ o, pairing (popped ++ pop s i) = some o) (late : arrivesLate c s i = false)
    (runsOver : overruns c s i = false) (hn : Awaits (s.step i))
    (hu : (c.serve s i).under = none) {w : Cmd} {l : List Cmd}
    (hl : (s.step i).wcmdfifo = w :: l) :
    (c.serve s i).addr = w.addr ∧
      (c.serve s i).size = (if w.brst then lclBurstLength else 1) ∧
      w.brst = decide ((s.step i).arb.currentState = .wr) := by
  cases served c s i with
  | write w0 l0 hl0 hs hrdy hc hp hq hf =>
    obtain ⟨hwr, hcnt, hone⟩ := h.behind_word whole hl0 hs hrdy hu hn
    have hsome : c.under.isSome = true := Option.isSome_iff_ne_none.2 hone
    rw [hf] at hl
    simp [overruns, hwr, hrdy, hcnt, hsome, hl0, hl] at runsOver
  | read r l0 hl0 hs hrdy => exact absurd hn (not_awaits_of_read hs hrdy)
  | nothing hw hr hc hp hq hf =>
    have hs := writing_of_awaits hn
    rw [hc] at hu ⊢
    rw [(Ctl.given_kept c s i).1] at hu
    cases hl0 : s.wcmdfifo with
    | nil =>
      have push : i.wcmdPush = w :: l := by simpa [hf, hl0] using hl
      exact absurd hn (not_awaits_of_empty late hu hs hl0 push)
    | cons w0 l0 =>
      have hrdy : i.localReady = false := by
        cases hrdy : i.localReady
        · rfl
        · exact absurd (hw hrdy hs) (by simp [hl0])
      obtain rfl : w0 = w := by
        rw [hf, hl0] at hl
        exact (List.cons.inj hl).1
      obtain ⟨ha, hsz⟩ := h.given_own (i := i) hl0 hs hu
      exact ⟨ha, hsz, h.own_waits hs hu hrdy hl0⟩

theorem ArbInv.ownRd_step (h : ArbInv c s popped rpopped) (late : readArrivesLate s i = false)
    (hn : (s.step i).arb.currentState = .rdHold) {r : RdCmd} {l : List RdCmd}
    (hl : (s.step i).rcmdfifo = r :: l) :
    r.request = ⟨(c.serve s i).addr, (c.serve s i).size⟩ := by
  have hs : Reading s ∧ i.localReady = false := by
    rw [next_eq] at hn
    unfold Reading
    revert hn
    cases hs : s.arb.currentState <;> simp [Ddr2Arb.next, hs] <;> grind
  obtain ⟨hs, hrdy⟩ := hs
  cases served c s i with
  | write w0 l0 hl0 hs' hrdy' => simp [hrdy] at hrdy'
  | read r0 l0 hl0 hs' hrdy' => simp [hrdy] at hrdy'
  | nothing hw hr hc hp hq hf hf' =>
    rw [hc]
    rw [hf'] at hl
    cases hl0 : s.rcmdfifo with
    | nil =>
      have push : i.rcmdPush = r :: l := by simpa [hl0] using hl
      rcases hs with hs | hs <;> simp [readArrivesLate, hl0, push, hrdy, hs] at late
    | cons r0 l0 =>
      obtain rfl : r0 = r := by
        rw [hl0] at hl
        exact (List.cons.inj hl).1
      rcases hs with hs | hs
      · simp [Ctl.given, localBurstbegin, localAddr, localSize, Ddr2Arb.burstbegin, Ddr2Arb.addr,
          Ddr2Arb.size, hs, rcmd, RdSide.of, hl0, RdCmd.request]
      · have hb : s.localBurstbegin i = false := by
          simp [localBurstbegin, Ddr2Arb.burstbegin, hs]
        simp [Ctl.given, hb, h.ownRd hs r0 l0 hl0]

theorem ArbInv.step (h : ArbInv c s popped rpopped)
    (whole : ∃ o, pairing (popped ++ pop s i) = some o) (fine : misses c s i = false) :
    ArbInv (c.serve s i) (s.step i) (popped ++ pop s i) (rpopped ++ rpop s i) := by
  simp only [misses, Bool.or_eq_false_iff] at fine
  obtain ⟨⟨⟨late, runsOver⟩, early⟩, rlate⟩ := fine
  constructor
  · exact h.latch_step
  · have e : (s.step i).arb.wrCnt = if i.localReady && s.localWriteReq i then
        if s.arb.wrCnt < 1 then s.arb.wrCnt + 1 else 0
      else if s.arb.currentState = .idle then 0 else s.arb.wrCnt := rfl
    have := h.cnt
    rw [e]
    grind
  · exact fun hn => h.whole_step whole early hn
  · exact fun hn hu w l hl => h.own_step whole late runsOver hn hu hl
  · exact fun hn r l hl => h.ownRd_step rlate hn hl
  · exact h.tied_step whole
  · exact h.reads_step

theorem pop_append (s : CmdPort) (i : ArbIn) :
    pop s i ++ (s.step i).wcmdfifo = s.wcmdfifo ++ i.wcmdPush ∧
      rpop s i ++ (s.step i).rcmdfifo = s.rcmdfifo ++ i.rcmdPush := by
  cases served .init s i with
  | write w l hl hs hrdy hc hp hq hf hf' => simp [hp, hq, hf, hf', hl]
  | read r l hl hs hrdy hc hp hq hf hf' => simp [hp, hq, hf, hf', hl]
  | nothing hw hr hc hp hq hf hf' => simp [hp, hq, hf, hf']

end step

section run

variable (x : Nat → ArbIn)

theorem popped_append (n : Nat) : popped x n ++ (portAt x n).wcmdfifo = pushed x n := by
  induction n with
  | zero => rfl
  | succ n ih =>
    have hp : popped x (n + 1) = popped x n ++ pop (portAt x n) (x n) := rfl
    have hq : pushed x (n + 1) = pushed x n ++ (x n).wcmdPush := rfl
    have hs : (portAt x (n + 1)) = (portAt x n).step (x n) := rfl
    rw [hp, hq, hs, List.append_assoc, (pop_append _ _).1, ← List.append_assoc, ih]

theorem rpopped_append (n : Nat) : rpopped x n ++ (portAt x n).rcmdfifo = rpushed x n := by
  induction n with
  | zero => rfl
  | succ n ih =>
    have hp : rpopped x (n + 1) = rpopped x n ++ rpop (portAt x n) (x n) := rfl
    have hq : rpushed x (n + 1) = rpushed x n ++ (x n).rcmdPush := rfl
    have hs : (portAt x (n + 1)) = (portAt x n).step (x n) := rfl
    rw [hp, hq, hs, List.append_assoc, (pop_append _ _).2, ← List.append_assoc, ih]

/-- What the arbiter owes the controller and the FIFOs in clock `n`. -/
structure ArbFaithful (n : Nat) : Prop where
  /-- A command is popped just when its request is taken, and then there is one. -/
  popsWrite : (portAt x n).wcmdRdreq (x n) =
    ((x n).localReady && (portAt x n).localWriteReq (x n))
  popsRead : (portAt x n).rcmdRdreq (x n) = ((x n).localReady && (portAt x n).localReadReq (x n))
  someWrite : (portAt x n).wcmdRdreq (x n) = true → (portAt x n).wcmdfifo ≠ []
  someRead : (portAt x n).rcmdRdreq (x n) = true → (portAt x n).rcmdfifo ≠ []
  /-- Every command is popped once, in FIFO order, or waits. -/
  onceWrite : popped x n ++ (portAt x n).wcmdfifo = pushed x n
  onceRead : rpopped x n ++ (portAt x n).rcmdfifo = rpushed x n
  /-- The controller has taken the requests the popped commands stand for, each with its address. -/
  writes : (ctlAt x n).writes ++ (ctlAt x n).under.toList = requests (popped x n)
  reads : (ctlAt x n).reads = (rpopped x n).map RdCmd.request

theorem arbInv_at (n : Nat) (pairs : ∃ l, Paired (pushed x n ++ l))
    (fine : ∀ k, k < n → misses (ctlAt x k) (portAt x k) (x k) = false) :
    ArbInv (ctlAt x n) (portAt x n) (popped x n) (rpopped x n) := by
  induction n with
  | zero =>
    refine ⟨rfl, Nat.zero_le _, fun _ => rfl, fun h => ?_, nofun, ⟨none, rfl, rfl, rfl⟩, rfl⟩
    rcases h with h | h <;> exact nomatch h
  | succ n ih =>
    obtain ⟨l, hl⟩ := pairs
    have whole : ∃ o, pairing (popped x (n + 1)) = some o := by
      have := hl.pairing
      rw [← popped_append, List.append_assoc] at this
      exact pairing_append this
    have before : ∃ l, Paired (pushed x n ++ l) := by
      refine ⟨(x n).wcmdPush ++ l, ?_⟩
      rw [← List.append_assoc]
      exact hl
    exact (ih before fun k hk => fine k (by omega)).step whole (fine n (by omega))

/-- With pairs pushed whole and no step that misses, the arbiter is faithful. -/
theorem arbitration_faithful (n : Nat) (pairs : ∃ l, Paired (pushed x n ++ l))
    (fine : ∀ k, k < n → misses (ctlAt x k) (portAt x k) (x k) = false) : ArbFaithful x n := by
  have inv := arbInv_at x n pairs fine
  obtain ⟨o, -, -, hw⟩ := inv.tied
  have popsW : (portAt x n).wcmdRdreq (x n) =
      ((x n).localReady && (portAt x n).localWriteReq (x n)) := by
    simp [wcmdRdreq, Ddr2Arb.wcmdFifoRdreq, localWriteReq]
  have popsR : (portAt x n).rcmdRdreq (x n) =
      ((x n).localReady && (portAt x n).localReadReq (x n)) := by
    simp only [rcmdRdreq, Ddr2Arb.rcmdFifoRdreq, localReadReq, Ddr2Arb.localReadReq]
    cases (x n).localReady <;> simp
  refine ⟨popsW, popsR, ?_, ?_, popped_append x n, rpopped_append x n, hw, inv.reads⟩
  · intro h he
    simp [popsW, localWriteReq, Ddr2Arb.writeReq, wcmd, RdSide.of, he] at h
  · intro h he
    simp [popsR, localReadReq, Ddr2Arb.localReadReq, rcmd, RdSide.of, he] at h

end run

/-- A pair and a read are there at the start, and the controller is always ready. -/
def pairThenRead (n : Nat) : ArbIn where
  localReady := true
  outbufWrusedw := 0
  wcmdPush := if n = 0 then [⟨4, true, some 1#32⟩, ⟨5, true, some 2#32⟩] else []
  rcmdPush := if n = 0 then [⟨7, true⟩] else []
  wcmdStale := ⟨0, false, none⟩
  rcmdStale := ⟨0, false⟩

theorem pair_then_read_faithful :
    (∃ l, Paired (pushed pairThenRead 9 ++ l)) ∧
      (∀ k, k < 9 → misses (ctlAt pairThenRead k) (portAt pairThenRead k) (pairThenRead k) = false) ∧
      ArbFaithful pairThenRead 9 := by
  have pairs : ∃ l, Paired (pushed pairThenRead 9 ++ l) := ⟨[], .pair .nil rfl rfl rfl⟩
  have fine : ∀ k, k < 9 →
      misses (ctlAt pairThenRead k) (portAt pairThenRead k) (pairThenRead k) = false := by
    decide +kernel
  exact ⟨pairs, fine, arbitration_faithful pairThenRead 9 pairs fine⟩

/-- The second read of a playback comes while the FSM waits in `rd_hold` for `local_ready`. -/
def readInHold (n : Nat) : ArbIn where
  localReady := decide (n ≠ 3 ∧ n ≠ 4)
  outbufWrusedw := 0
  wcmdPush := []
  rcmdPush := if n = 0 then [⟨0, true⟩] else if n = 4 then [⟨2, true⟩] else []
  wcmdStale := ⟨0, false, none⟩
  rcmdStale := ⟨0, true⟩

/-- It is requested without `local_burstbegin`, and read at the address of the first. -/
theorem read_in_hold_misplaced :
    (∃ l, Paired (pushed readInHold 6 ++ l)) ∧ ¬ ArbFaithful readInHold 6 := by
  refine ⟨⟨[], .nil⟩, fun h => ?_⟩
  exact absurd h.reads (by decide +kernel)

end CmdPort

end Wfm
