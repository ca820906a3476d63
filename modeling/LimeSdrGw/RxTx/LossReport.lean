import LimeSdrGw.Clocked.Registers
import LimeSdrGw.Rx.Timestamp
/-
# The report of lost TX packets

`pct_loss_flg` is raised on `tx_clk` when a TX packet is dropped, goes through a synchroniser into bit 3
of the RX packet headers on `rx_clk`, and is cleared by the rising edge of `pct_hdr_cap`, which goes back
through another synchroniser. Setting, capture and clear are not coordinated: `pct_hdr_cap` rises with
every header, one of a packet that is not written among them, and what it clears is the flag as it is
three edges of `tx_clk` later.

| here | there |
| --- | --- |
| `LossFlag`, `.step`   | tx_path_top.vhd:247-267 with `sync_reg7` (:152-153) |
| `pctHdr0`             | rx_path_top.vhd:250-254 |
| `LossPath`, `.step`   | rxtx_top.vhd:188-203, `sync_reg1` of rx_path_top.vhd, `RxPackets` |
| `LossIn.txEdges`      | the edges of `tx_clk` since the last one of `rx_clk`, any number of them |
| `LossIn.together`     | an edge of `tx_clk` together with that of `rx_clk` |

Both clock domains are out of reset. `in_pct_clr_flag` is whatever `packets2data` makes it.
-/
namespace RxTx

open Clocked Tx Rx

structure LossFlag where
  pctLossFlgClrSync : SyncReg
  pctLossFlgClrSyncReg : Bool
  inPctClrFlagReg : Bool
  pctLossFlgInt : Bool
deriving Repr, DecidableEq

namespace LossFlag

def init : LossFlag := ⟨.zero, false, true, false⟩

variable (s : LossFlag)

/-- A packet has been dropped. -/
def drops (inPctClrFlag : Bool) : Bool := inPctClrFlag && !s.inPctClrFlagReg

/-- The edge of `pct_hdr_cap` has arrived. -/
def clears : Bool := s.pctLossFlgClrSync.r1 && !s.pctLossFlgClrSyncReg

/-- One edge of `tx_clk`. -/
def step (pctHdrCap inPctClrFlag : Bool) : LossFlag where
  pctLossFlgClrSync := s.pctLossFlgClrSync.step true pctHdrCap
  pctLossFlgClrSyncReg := s.pctLossFlgClrSync.r1
  inPctClrFlagReg := inPctClrFlag
  pctLossFlgInt :=
    if s.drops inPctClrFlag then true else if s.clears then false else s.pctLossFlgInt

def run (pctHdrCap : Bool) : LossFlag → List Bool → LossFlag
  | s, [] => s
  | s, e :: es => run pctHdrCap (s.step pctHdrCap e) es

/-- One of the edges drops a packet. -/
def dropsIn (pctHdrCap : Bool) : LossFlag → List Bool → Bool
  | _, [] => false
  | s, e :: es => s.drops e || dropsIn pctHdrCap (s.step pctHdrCap e) es

end LossFlag

/-- "packet reserved bits". -/
def pctHdr0 (txPctLoss : Bool) (pctFifoWusedw : Nat) : Word64 :=
  0x060504030201#48 ++ 0#12 ++ BitVec.ofBool txPctLoss ++ (BitVec.ofNat 11 pctFifoWusedw).extractLsb' 8 3

structure LossIn where
  txEdges : List Bool
  together : Option Bool
  pctHdr1 : Word64
  smplWrreq : Bool
  smplData : Word64
  drained : Nat
deriving Repr, DecidableEq

structure LossPath where
  tx : LossFlag
  txPctLossSync : SyncReg
  rx : RxPackets
deriving Repr, DecidableEq

namespace LossPath

def init : LossPath := ⟨.init, .zero, .init⟩

variable (s : LossPath)

def pctHdrCap : Bool := s.rx.former.core.pctHdrCap

def rxIn (i : LossIn) : RxIn where
  pctHdr0 := pctHdr0 s.txPctLossSync.r1 s.rx.pctBuff.length
  pctHdr1 := i.pctHdr1
  smplWrreq := i.smplWrreq
  smplData := i.smplData
  drained := i.drained

/-- The flag when the edge of `rx_clk` comes. -/
def txBefore (i : LossIn) : LossFlag := s.tx.run s.pctHdrCap i.txEdges

/-- One edge of `rx_clk`, and those of `tx_clk` before it. -/
def step (sampleWidth : BitVec 2) (s : LossPath) (i : LossIn) : LossPath where
  tx :=
    match i.together with
    | none => s.txBefore i
    | some e => (s.txBefore i).step s.pctHdrCap e
  txPctLossSync := s.txPctLossSync.step true (s.txBefore i).pctLossFlgInt
  rx := s.rx.step sampleWidth (s.rxIn i)

def machine (sampleWidth : BitVec 2) : Machine LossPath LossIn := ⟨init, step sampleWidth⟩

end LossPath

/-! ## What is promised -/

section run

variable (sampleWidth : BitVec 2) (x : Nat → LossIn)

/-- The system in clock `n` of `rx_clk`. -/
abbrev lossAt (n : Nat) : LossPath := (LossPath.machine sampleWidth).state x n

/-- What the RX path gets in clock `n`. -/
def rxInAt (n : Nat) : RxIn := (lossAt sampleWidth x n).rxIn (x n)

/-- The first clock of `rx_clk` behind the last drop. -/
def lastDrop : Nat → Option Nat
  | 0 => none
  | n + 1 =>
    if (x n).together.any ((lossAt sampleWidth x n).txBefore (x n)).drops then some (n + 1)
    else if (lossAt sampleWidth x n).tx.dropsIn (lossAt sampleWidth x n).pctHdrCap (x n).txEdges then
      some n
    else lastDrop n

/-- The header captured in clock `c` reports a loss, and its packet is written to the host. -/
def Shows (c : Nat) : Prop :=
  ∃ t, t + hdrAge sampleWidth = c ∧
    Formed sampleWidth (formInAt sampleWidth (rxInAt sampleWidth x)) t ∧
    isWritten sampleWidth (formInAt sampleWidth (rxInAt sampleWidth x)) t = true ∧
    ∃ hdr, (packetAt sampleWidth (formInAt sampleWidth (rxInAt sampleWidth x)) t).head? = some hdr ∧
      hdr.getLsbD 3 = true

/-- A header captured since clock `d`, if there is such a clock, shows a loss. -/
def ShownSince (n : Nat) (d : Option Nat) : Prop :=
  ∀ k, d = some k → ∃ c, k ≤ c ∧ c < n ∧ Shows sampleWidth x c

/-- In clock `n`, behind the edges `es` of `tx_clk`: the last drop is still to be reported, or a packet
    written to the host reports it. -/
def Reported (n : Nat) (es : List Bool) : Prop :=
  ((lossAt sampleWidth x n).tx.run (lossAt sampleWidth x n).pctHdrCap es).pctLossFlgInt = false →
    ShownSince sampleWidth x n
      (if (lossAt sampleWidth x n).tx.dropsIn (lossAt sampleWidth x n).pctHdrCap es then some n
        else lastDrop sampleWidth x n)

end run

/-! ## The condition -/

namespace LossPath

variable (s : LossPath)

/-- A header is being captured. -/
def takesHeader : Bool := s.rx.former.core.inst2.regLd s.rx.former.core.inst1DataOutValid

/-- `pct_state` is "01". -/
def capturing : Bool := s.rx.former.core.inst2.pctState s.rx.former.core.inst1DataOutValid == 1

/-- The edge for a header that has been captured is on its way to the flag, and does not arrive with the
    next edge of `tx_clk`. -/
def underWay (t : LossFlag) : Bool :=
  (s.capturing && !s.pctHdrCap) || (s.pctHdrCap && !t.pctLossFlgClrSync.r0) ||
    (t.pctLossFlgClrSync.r0 && !t.pctLossFlgClrSync.r1)

/-- No packet is dropped while a clear is on its way. -/
def undisturbed : LossFlag → List Bool → Bool
  | _, [] => true
  | t, e :: es => !(t.drops e && s.underWay t) && undisturbed (t.step s.pctHdrCap e) es

/-- While a clear is on its way no packet is dropped; a header captured while the flag is up shows it and
    is of a packet that is written. -/
structure Clean (i : LossIn) : Prop where
  edges : s.undisturbed s.tx i.txEdges = true
  together : ∀ e ∈ i.together, (s.txBefore i).drops e = true →
    s.underWay (s.txBefore i) = false ∧ s.takesHeader = false
  header : s.takesHeader = true → (s.txBefore i).pctLossFlgInt = true →
    s.txPctLossSync.r1 = true ∧ s.rx.former.core.inst0.pctBuffWrDisSig = true

instance (i : LossIn) : Decidable (s.Clean i) :=
  decidable_of_iff (s.undisturbed s.tx i.txEdges = true ∧
      (∀ e ∈ i.together, (s.txBefore i).drops e = true →
        s.underWay (s.txBefore i) = false ∧ s.takesHeader = false) ∧
      (s.takesHeader = true → (s.txBefore i).pctLossFlgInt = true →
        s.txPctLossSync.r1 = true ∧ s.rx.former.core.inst0.pctBuffWrDisSig = true))
    ⟨fun ⟨h1, h2, h3⟩ => ⟨h1, h2, h3⟩, fun h => ⟨h.edges, h.together, h.header⟩⟩

end LossPath

/-! ## A clear on its way -/

section flight

variable {s : LossPath} {t : LossFlag} {i : LossIn} {wd : WidthSetting}

namespace LossPath

variable (s) in
/-- A clear is on its way to the flag. -/
def inFlight (t : LossFlag) : Bool := s.underWay t || t.clears

theorem inFlight_of_underWay (h : s.underWay t = true) : s.inFlight t = true := by
  rw [inFlight, h, Bool.true_or]

/-- What arrives with an edge is no longer on its way behind it. -/
theorem inFlight_step (e : Bool) : s.inFlight (t.step s.pctHdrCap e) = s.underWay t := by
  simp only [inFlight, underWay, LossFlag.clears, LossFlag.step, SyncReg.step, if_true]
  cases s.capturing <;> cases s.pctHdrCap <;> cases t.pctLossFlgClrSync.r0 <;>
    cases t.pctLossFlgClrSync.r1 <;> rfl

/-- `pct_state` gets "01" with a header only. -/
theorem capturing_step (h : (s.step wd i).capturing = true) : s.takesHeader = true ∨ s.capturing = true := by
  simp only [capturing, takesHeader, Data2Packets.pctState, Data2Packets.regLd, beq_iff_eq] at h ⊢
  have hnext : (s.step wd i).rx.former.core.inst2.currentState =
      s.rx.former.core.inst2.next s.rx.former.core.inst1DataOutValid := rfl
  rw [hnext, Data2Packets.next] at h
  cases hst : s.rx.former.core.inst2.currentState with
  | idle | s1 => cases hv : s.rx.former.core.inst1DataOutValid <;> simp_all
  | s0 => exact .inr rfl
  | s2 =>
    rw [hst] at h
    by_cases hend : s.rx.former.core.inst2.pctEndCnt = 0
    · simp [hend] at h
    · simp [hend] at h
  | s3 => simp [hst] at h

theorem pctHdrCap_step : (s.step wd i).pctHdrCap = s.capturing := rfl

/-- With an edge of `rx_clk` a clear gets on its way with a header only. -/
theorem inFlight_rx (h : (s.step wd i).inFlight t = true) :
    s.takesHeader = true ∨ s.inFlight t = true := by
  simp only [inFlight, underWay, pctHdrCap_step, Bool.or_eq_true, Bool.and_eq_true,
    Bool.not_eq_true'] at h ⊢
  rcases h with ((⟨h1, h2⟩ | ⟨h1, h2⟩) | h) | h
  · rcases capturing_step h1 with h3 | h3
    · exact .inl h3
    · exact absurd (h3.symm.trans h2) nofun
  · cases hc : s.pctHdrCap with
    | false => exact .inr (.inl (.inl (.inl ⟨h1, rfl⟩)))
    | true => exact .inr (.inl (.inl (.inr ⟨rfl, h2⟩)))
  · exact .inr (.inl (.inr h))
  · exact .inr (.inr h)

/-- The same with an edge of `tx_clk` at the same time. -/
theorem inFlight_both {e : Bool} (h : (s.step wd i).inFlight (t.step s.pctHdrCap e) = true) :
    s.takesHeader = true ∨ s.underWay t = true := by
  rcases inFlight_rx h with h | h
  · exact .inl h
  · rw [inFlight_step] at h
    exact .inr h

end LossPath

/-- No clear can come, and the flag is up, unless `P` holds. -/
def Accounted (s : LossPath) (t : LossFlag) (P : Prop) : Prop :=
  t.pctLossFlgInt = false ∨ s.inFlight t = true → P

variable {P : Prop} {e : Bool}

/-- An edge of `tx_clk` without a drop. -/
theorem Accounted.quiet (h : Accounted s t P) (he : t.drops e = false)
    (hf : (t.step s.pctHdrCap e).pctLossFlgInt = false ∨ s.underWay t = true) : P := by
  rcases hf with hf | hf
  · simp only [LossFlag.step, he, if_neg Bool.false_ne_true] at hf
    split at hf
    next hc => exact h (.inr (by rw [LossPath.inFlight, hc, Bool.or_true]))
    next => exact h (.inl hf)
  · exact h (.inr (LossPath.inFlight_of_underWay hf))

theorem step_of_drops (cap : Bool) (he : t.drops e = true) :
    (t.step cap e).pctLossFlgInt = true := by
  rw [LossFlag.step, he]
  rfl

end flight

/-! ## The run -/

section reported

variable {wd : WidthSetting} {x : Nat → LossIn}

theorem lossRx_eq {sampleWidth : BitVec 2} (n : Nat) :
    (lossAt sampleWidth x n).rx = packetsAt sampleWidth (rxInAt sampleWidth x) n :=
  Machine.state_part (LossPath.machine sampleWidth) LossPath.rx (RxPackets.step sampleWidth)
    LossPath.rxIn (fun _ _ => rfl) x n

theorem ShownSince.mono {n : Nat} {d : Option Nat} (h : ShownSince wd x n d) :
    ShownSince wd x (n + 1) d := by
  intro k hk
  obtain ⟨c, h1, h2, hc⟩ := h k hk
  exact ⟨c, h1, Nat.lt_succ_of_lt h2, hc⟩

@[simp] theorem pctHdr0_loss (b : Bool) (u : Nat) : (pctHdr0 b u).getLsbD 3 = b := by
  rw [pctHdr0, BitVec.getLsbD_append, if_neg (by decide), BitVec.getLsbD_append, if_pos (by decide)]
  cases b <;> rfl

/-- A header that shows the flag, of a packet that is written. -/
theorem shows_of_header {n : Nat} (ht : (lossAt wd x n).takesHeader = true)
    (hsync : (lossAt wd x n).txPctLossSync.r1 = true)
    (hdis : (lossAt wd x n).rx.former.core.inst0.pctBuffWrDisSig = true) : Shows wd x n := by
  rw [LossPath.takesHeader, lossRx_eq, former_eq] at ht
  rw [lossRx_eq, former_eq] at hdis
  obtain ⟨t, rfl, hst, hw, hwd⟩ := starts_of_regLd ht
  refine ⟨t, rfl, formed_of_starts hst hwd, hw.trans hdis, _, rfl, ?_⟩
  show (pctHdr0 (lossAt wd x (t + hdrAge wd)).txPctLossSync.r1 _).getLsbD 3 = true
  rw [pctHdr0_loss, hsync]

/-- The edges of `tx_clk` between two of `rx_clk`. -/
theorem accounted_edges {n : Nat} {es : List Bool} {t : LossFlag} {d : Option Nat}
    (h : Accounted (lossAt wd x n) t (ShownSince wd x n d))
    (he : (lossAt wd x n).undisturbed t es = true) :
    Accounted (lossAt wd x n) (t.run (lossAt wd x n).pctHdrCap es)
      (ShownSince wd x n (if t.dropsIn (lossAt wd x n).pctHdrCap es then some n else d)) := by
  induction es generalizing t d with
  | nil => exact h
  | cons e es ih =>
    rw [LossPath.undisturbed, Bool.and_eq_true, Bool.not_eq_true'] at he
    rw [LossFlag.run, LossFlag.dropsIn]
    cases hd : t.drops e with
    | false =>
      rw [Bool.false_or]
      refine ih (fun hf => h.quiet hd ?_) he.2
      rwa [LossPath.inFlight_step] at hf
    | true =>
      rw [hd, Bool.true_and] at he
      have hnext : Accounted (lossAt wd x n) (t.step (lossAt wd x n).pctHdrCap e)
          (ShownSince wd x n (some n)) := by
        intro hf
        rw [LossPath.inFlight_step, he.1, step_of_drops _ hd] at hf
        exact hf.elim nofun nofun
      have := ih hnext he.2
      rwa [ite_self] at this

/-- A drop is not behind the clock. -/
theorem lastDrop_le {n k : Nat} (h : lastDrop wd x n = some k) : k ≤ n := by
  induction n with
  | zero => exact nomatch h
  | succ n ih =>
    rw [lastDrop] at h
    split at h
    next => exact Nat.le_of_eq (Option.some.inj h).symm
    next =>
      split at h
      next => exact Nat.le_of_lt_succ (by rw [← Option.some.inj h]; omega)
      next => exact Nat.le_succ_of_le (ih h)

/-- Every clear that is on its way is accounted for by a packet that shows the last drop. -/
theorem accounted_at {n : Nat} (h : ∀ k, k < n → (lossAt wd x k).Clean (x k)) :
    Accounted (lossAt wd x n) (lossAt wd x n).tx (ShownSince wd x n (lastDrop wd x n)) := by
  induction n with
  | zero =>
    intro _ k hk
    cases hk
  | succ n ih =>
    have hclean := h n (Nat.lt_succ_self n)
    have hbefore := accounted_edges (ih fun k hk => h k (Nat.lt_succ_of_lt hk)) hclean.edges
    have hd : ∀ k, (if (lossAt wd x n).tx.dropsIn (lossAt wd x n).pctHdrCap (x n).txEdges then
        some n else lastDrop wd x n) = some k → k ≤ n := by
      intro k hk
      split at hk
      next => exact Nat.le_of_eq (Option.some.inj hk).symm
      next => exact lastDrop_le hk
    -- a header captured now shows the flag, unless it is down
    have hheader (ht : (lossAt wd x n).takesHeader = true) : ShownSince wd x (n + 1)
        (if (lossAt wd x n).tx.dropsIn (lossAt wd x n).pctHdrCap (x n).txEdges then
          some n else lastDrop wd x n) := by
      cases hf : ((lossAt wd x n).txBefore (x n)).pctLossFlgInt with
      | false => exact (hbefore (.inl hf)).mono
      | true =>
        obtain ⟨hsync, hdis⟩ := hclean.header ht hf
        exact fun k hk => ⟨n, hd k hk, Nat.lt_succ_self n, shows_of_header ht hsync hdis⟩
    rw [lastDrop]
    cases hto : (x n).together with
    | none =>
      have htx : (lossAt wd x (n + 1)).tx = (lossAt wd x n).txBefore (x n) := by
        show (LossPath.step wd (lossAt wd x n) (x n)).tx = _
        rw [LossPath.step, hto]
      rw [htx]
      rintro (hf | hf)
      · exact (hbefore (.inl hf)).mono
      · rcases LossPath.inFlight_rx hf with ht | hf
        · exact hheader ht
        · exact (hbefore (.inr hf)).mono
    | some e =>
      have htx : (lossAt wd x (n + 1)).tx =
          ((lossAt wd x n).txBefore (x n)).step (lossAt wd x n).pctHdrCap e := by
        show (LossPath.step wd (lossAt wd x n) (x n)).tx = _
        rw [LossPath.step, hto]
      rw [htx]
      dsimp only [Option.any]
      by_cases hdrop : ((lossAt wd x n).txBefore (x n)).drops e = true
      · obtain ⟨hu, ht⟩ := hclean.together e hto hdrop
        rintro (hf | hf)
        · rw [step_of_drops _ hdrop] at hf
          cases hf
        · rcases LossPath.inFlight_both hf with h1 | h1
          · cases ht.symm.trans h1
          · cases hu.symm.trans h1
      · have hquiet := Bool.eq_false_iff.2 hdrop
        rw [if_neg hdrop]
        rintro (hf | hf)
        · exact (hbefore.quiet hquiet (.inl hf)).mono
        · rcases LossPath.inFlight_both hf with ht | hu
          · exact hheader ht
          · exact (hbefore.quiet hquiet (.inr hu)).mono

end reported

/-- TX loss reporting, at the widths the ports name: as long as no packet is dropped while a clear is
    on its way, and every header captured while the flag is up shows it and is of a packet that is
    written, the last drop is still to be reported or has been shown to the host. -/
theorem losses_reported (sampleWidth : BitVec 2) (hsw : sampleWidth ≠ 3) (x : Nat → LossIn) (n : Nat)
    (es : List Bool) (h : ∀ k, k < n → (lossAt sampleWidth x k).Clean (x k))
    (he : (lossAt sampleWidth x n).undisturbed (lossAt sampleWidth x n).tx es = true) :
    Reported sampleWidth x n es := by
  obtain ⟨wd, rfl⟩ := WidthSetting.exists_code hsw
  exact fun hf => accounted_edges (accounted_at h) he (.inl hf)

/-!
The flag is lost when it is raised just before a header is captured: the header does not show it yet,
and the clear that the header sets off finds it up. With 16-bit samples and a sample word in every second
clock the first header is captured in clock 1027.
-/

/-- A sample word in every second clock of `rx_clk`, an edge of `tx_clk` in each; one packet is
    dropped. -/
def oneDrop (clock n : Nat) : LossIn := ⟨[n == clock], none, 0, n % 2 == 0, 0, 0⟩

/-- The system with the fill level in place of the sample FIFO. -/
structure LossLevel where
  tx : LossFlag
  txPctLossSync : SyncReg
  core : Data2PacketsTop
  level : Nat
  pctBuff : List Word64

namespace LossLevel

def expand (s : LossLevel) : LossPath :=
  ⟨s.tx, s.txPctLossSync, ⟨⟨s.core, ⟨List.replicate s.level 0, 0⟩⟩, s.pctBuff⟩⟩

def step (s : LossLevel) (i : LossIn) : LossLevel where
  tx := (s.expand.step 0 i).tx
  txPctLossSync := (s.expand.step 0 i).txPctLossSync
  core := s.core.step 0
    ⟨pctHdr0 s.txPctLossSync.r1 s.pctBuff.length, i.pctHdr1, s.pctBuff.length, s.level, 0⟩
  level := nextLevel s.core.smplBuffRdreq i.smplWrreq s.level
  pctBuff := (s.expand.step 0 i).rx.pctBuff

def machine : Machine LossLevel LossIn := ⟨⟨.init, .zero, .init, 0, []⟩, step⟩

theorem expand_step (s : LossLevel) (clock n : Nat) :
    s.expand.step 0 (oneDrop clock n) = (s.step (oneDrop clock n)).expand := by
  have hformer := former_step_zeros 0 s.core s.level
    (pctHdr0 s.txPctLossSync.r1 s.pctBuff.length) 0 (n % 2 == 0) s.pctBuff.length
  have hrx : (s.expand.step 0 (oneDrop clock n)).rx.former =
      RxFormer.step 0 ⟨s.core, ⟨List.replicate s.level 0, 0⟩⟩
        ⟨pctHdr0 s.txPctLossSync.r1 s.pctBuff.length, 0, n % 2 == 0, 0, s.pctBuff.length⟩ := rfl
  show LossPath.mk _ _ (RxPackets.mk (s.expand.step 0 (oneDrop clock n)).rx.former _) = _
  rw [hrx, hformer]
  rfl

theorem expand_state (clock n : Nat) :
    lossAt 0 (oneDrop clock) n = (machine.state (oneDrop clock) n).expand := by
  induction n with
  | zero => rfl
  | succ n ih =>
    exact (congrArg (LossPath.step 0 · (oneDrop clock n)) ih).trans (expand_step _ clock n)

end LossLevel

theorem former_oneDrop (clock n : Nat) :
    formerAt 0 (formInAt 0 (rxInAt 0 (oneDrop clock))) n =
      (LossLevel.machine.state (oneDrop clock) n).expand.rx.former := by
  rw [← former_eq, ← lossRx_eq, LossLevel.expand_state]

theorem flag_oneDrop (clock n : Nat) : ((lossAt 0 (oneDrop clock) n).tx.run
    (lossAt 0 (oneDrop clock) n).pctHdrCap []).pctLossFlgInt =
      (LossLevel.machine.state (oneDrop clock) n).tx.pctLossFlgInt := by
  rw [LossLevel.expand_state]
  rfl

theorem lastDrop_oneDrop {clock n : Nat} (h0 : 0 < clock) (h : clock < n) :
    lastDrop 0 (oneDrop clock) n = some clock := by
  induction n with
  | zero => exact absurd h (Nat.not_lt_zero _)
  | succ n ih =>
    have hdrop : (lossAt 0 (oneDrop clock) n).tx.dropsIn
        (lossAt 0 (oneDrop clock) n).pctHdrCap (oneDrop clock n).txEdges =
        ((n == clock && !(lossAt 0 (oneDrop clock) n).tx.inPctClrFlagReg) || false) := rfl
    rw [lastDrop, if_neg (by exact nofun), hdrop, Bool.or_false]
    obtain hlt | rfl : clock < n ∨ n = clock := by omega
    · rw [beq_false_of_ne (by omega), Bool.false_and, if_neg Bool.false_ne_true, ih hlt]
    · obtain ⟨m, rfl⟩ : ∃ m, n = m + 1 := ⟨n - 1, by omega⟩
      have hreg : (lossAt 0 (oneDrop (m + 1)) (m + 1)).tx.inPctClrFlagReg = (m == m + 1) := rfl
      rw [hreg, beq_self_eq_true, beq_false_of_ne (by omega)]
      rfl

/-- A drop one clock before the first header is captured: five clocks later the flag is down again, and
    no header has shown it. -/
theorem late_drop_not_reported : ¬ ∀ (sampleWidth : BitVec 2) (x : Nat → LossIn) (n : Nat)
    (es : List Bool), (∀ k, (x k).smplWrreq = true → (x (k + 1)).smplWrreq = false) →
    Reported sampleWidth x n es := by
  intro h
  have hdown : (LossLevel.machine.state (oneDrop 1027) 1032).tx.pctLossFlgInt = false := by
    decide +kernel
  have hsync : (LossLevel.machine.state (oneDrop 1027) 1027).txPctLossSync.r1 = false := by
    decide +kernel
  have hread : ∀ t, t < 1029 → 1024 < t → (LossLevel.machine.state (oneDrop 1027)
      t).core.inst0.currentState ≠ .checkPctBuff := by
    intro t hlt hgt
    obtain rfl | rfl | rfl | rfl : t = 1025 ∨ t = 1026 ∨ t = 1027 ∨ t = 1028 := by omega
    all_goals decide +kernel
  have hflag := (flag_oneDrop 1027 1032).trans hdown
  obtain ⟨c, hc, hc', t, rfl, hform, -, hdr, hhdr, hbit⟩ := h 0 (oneDrop 1027) 1032 []
    halfRate_alternates hflag 1027 (lastDrop_oneDrop (by decide) (by decide))
  have hage : hdrAge 0 = 3 := rfl
  obtain rfl | hlt : t = 1024 ∨ 1024 < t := by omega
  · have hval : hdr = pctHdr0 (lossAt 0 (oneDrop 1027) 1027).txPctLossSync.r1 _ :=
      (Option.some.inj hhdr).symm
    rw [hval, pctHdr0_loss, LossLevel.expand_state] at hbit
    cases hsync.symm.trans hbit
  · have hfsm := hform.1
    rw [former_oneDrop] at hfsm
    exact hread t (by omega) hlt hfsm

/-- A drop long before the first header is shown by it. -/
theorem early_drop_reported : Reported 0 (oneDrop 100) 1032 [] ∧
    ((lossAt 0 (oneDrop 100) 1032).tx.run (lossAt 0 (oneDrop 100) 1032).pctHdrCap
      []).pctLossFlgInt = false := by
  have hclean : ((LossLevel.machine.watched fun s i => decide (s.expand.Clean i)).state
      (oneDrop 100) 1032).2 = true := by decide +kernel
  have hdown : (LossLevel.machine.state (oneDrop 100) 1032).tx.pctLossFlgInt = false := by
    decide +kernel
  refine ⟨losses_reported 0 (by decide) (oneDrop 100) 1032 [] ?_ rfl,
    (flag_oneDrop 100 1032).trans hdown⟩
  intro k hk
  rw [LossLevel.expand_state]
  exact of_decide_eq_true ((LossLevel.machine.watched_state _ _ 1032).2 hclean k hk)

end RxTx
