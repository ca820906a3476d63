import LimeSdrGw.Wfm.WcmdFsm
/-
# `wfm_rcmd_fsm`: read commands of a waveform playback

Bursts of two words from address 0 up, and a single read behind them where the length is odd. The end of
a pass is found by comparing the address of a burst with the last even address less two, a subtraction
that wraps when the length is 1.

| here | there |
| --- | --- |
| `RcmdFsm`, `.step` | wfm_rcmd_fsm.vhd:47-116 |
| `.next`            | wfm_rcmd_fsm.vhd:176-253 |
| `.rcmdWr`, `.rcmdBrstEn` | wfm_rcmd_fsm.vhd:122-156 |
| `.addresses`       | the words a command reads, DDR2_arb.vhd |

A new load resets the FSM, so a run has one load. `wcmd_last_addr_latch` has no reset.
-/
namespace Wfm

open Clocked

abbrev Addr : Type := BitVec addrSize

inductive RcmdState
  | idle
  | checkRdy
  | burstRd
  | lastBurst
  | rd
  | rdStop
deriving Repr, DecidableEq

structure RcmdFsm where
  currentState : RcmdState
  rdAddr : Addr
  wfmLoadReg0 : Bool
  wfmLoadReg1 : Bool
  wfmLoadReg2 : Bool
  wfmPlayStopReg0 : Bool
  wfmPlayStopReg1 : Bool
  wfmPlayStopReg2 : Bool
  wcmdLastAddrReg0 : Addr
  wcmdLastAddrReg1 : Addr
  wcmdLastAddrLatch : Addr
deriving Repr, DecidableEq

structure RcmdIn where
  rcmdRdy : Bool
  wcmdLastAddr : Addr
  wfmLoad : Bool
  wfmPlayStop : Bool
deriving Repr, DecidableEq

namespace RcmdFsm

/-- Behind a reset, with whatever the latch holds. -/
def init (latch : Addr) : RcmdFsm where
  currentState := .idle
  rdAddr := 0
  wfmLoadReg0 := false
  wfmLoadReg1 := false
  wfmLoadReg2 := false
  wfmPlayStopReg0 := false
  wfmPlayStopReg1 := false
  wfmPlayStopReg2 := false
  wcmdLastAddrReg0 := 0
  wcmdLastAddrReg1 := 0
  wcmdLastAddrLatch := latch

variable (s : RcmdFsm)

/-- `wfm_load_reg(2 downto 1)="10"`. -/
def loadFalls : Bool := s.wfmLoadReg2 && !s.wfmLoadReg1

/-- `wfm_load_reg(2 downto 1)="01"`. -/
def loadRises : Bool := !s.wfmLoadReg2 && s.wfmLoadReg1

def wcmdLastAddrEven : Addr := s.wcmdLastAddrLatch.extractLsb' 1 24 ++ 0#1

def rcmdWr (rcmdRdy : Bool) : Bool :=
  decide (s.currentState = .burstRd ∨ s.currentState = .rd) && rcmdRdy

def rcmdBrstEn : Bool := decide (s.currentState = .burstRd)

def next (rcmdRdy : Bool) : RcmdState :=
  match s.currentState with
  | .idle => if s.loadFalls then .checkRdy else .idle
  | .checkRdy => if rcmdRdy && s.wfmPlayStopReg2 then .burstRd else .checkRdy
  | .burstRd =>
    if rcmdRdy then
      if s.wcmdLastAddrEven - 2 ≤ s.rdAddr then
        if s.wcmdLastAddrLatch.getLsbD 0 then .rd else .lastBurst
      else if s.wfmPlayStopReg2 then .burstRd else .rdStop
    else .burstRd
  | .lastBurst => if rcmdRdy then if s.wfmPlayStopReg2 then .burstRd else .checkRdy else .lastBurst
  | .rd => if rcmdRdy then if s.wfmPlayStopReg2 then .burstRd else .checkRdy else .rd
  | .rdStop =>
    if s.loadRises then .idle else if s.wfmPlayStopReg2 then .burstRd else .rdStop

def step (i : RcmdIn) : RcmdFsm where
  currentState := s.next i.rcmdRdy
  rdAddr :=
    if s.rcmdWr i.rcmdRdy then
      if s.currentState = .burstRd then s.rdAddr + 2
      else if s.currentState = .rd then 0
      else s.rdAddr
    else if s.currentState = .lastBurst then 0
    else s.rdAddr
  wfmLoadReg0 := i.wfmLoad
  wfmLoadReg1 := s.wfmLoadReg0
  wfmLoadReg2 := s.wfmLoadReg1
  wfmPlayStopReg0 := i.wfmPlayStop
  wfmPlayStopReg1 := s.wfmPlayStopReg0
  wfmPlayStopReg2 := s.wfmPlayStopReg1
  wcmdLastAddrReg0 := i.wcmdLastAddr
  wcmdLastAddrReg1 := s.wcmdLastAddrReg0
  wcmdLastAddrLatch := if s.loadFalls then s.wcmdLastAddrReg1 else s.wcmdLastAddrLatch

/-- The addresses a clock's command reads. -/
def addresses (i : RcmdIn) : List Addr :=
  if s.rcmdWr i.rcmdRdy then
    if s.rcmdBrstEn then [s.rdAddr, s.rdAddr + 1] else [s.rdAddr]
  else []

def machine (latch : Addr) : Machine RcmdFsm RcmdIn := ⟨init latch, step⟩

end RcmdFsm

section run

variable (u : Addr) (x : Nat → RcmdIn)

abbrev rcmdAt (n : Nat) : RcmdFsm := (RcmdFsm.machine u).state x n

/-- The addresses read before clock `n`. -/
def readsBefore (n : Nat) : List Addr := (RcmdFsm.machine u).log RcmdFsm.addresses x n

/-- The run's one load ends with the length `len` in the latch. -/
def LoadsOnce (len : Addr) : Prop :=
  ∃ t, (rcmdAt u x t).loadFalls = true ∧ (rcmdAt u x t).wcmdLastAddrReg1 = len ∧
    ∀ k, (rcmdAt u x k).loadFalls = true → k = t

end run

/-- The first `k` of the endless repetition of `0` to `n - 1`. -/
def passes (n k : Nat) : List Nat := (List.range k).map (· % n)

theorem passes_add (n k m : Nat) :
    passes n (k + m) = passes n k ++ (List.range m).map (fun j => (k + j) % n) := by
  simp only [passes, List.range_add, List.map_append, List.map_map]
  rfl

/-- Behind the last word of a pass the next one begins at address 0. -/
theorem mod_add_of_end {n k m : Nat} (h : k % n + m = n) : (k + m) % n = 0 := by
  rw [← Nat.mod_add_mod, h, Nat.mod_self]

theorem mod_add_of_lt {n k m : Nat} (h : k % n + m < n) : (k + m) % n = k % n + m := by
  rw [← Nat.mod_add_mod, Nat.mod_eq_of_lt h]

theorem toNat_addr_lt (a : Addr) : a.toNat < 33554432 := a.isLt

theorem toNat_addr_add {a b : Addr} (h : a.toNat + b.toNat < 33554432) :
    (a + b).toNat = a.toNat + b.toNat := by
  rw [BitVec.toNat_add]
  exact Nat.mod_eq_of_lt h

/-! ## One clock -/

namespace RcmdFsm

variable {s : RcmdFsm} {i : RcmdIn} {k : Nat}

theorem toNat_even (s : RcmdFsm) :
    s.wcmdLastAddrEven.toNat = 2 * (s.wcmdLastAddrLatch.toNat / 2) := by
  have hlt := toNat_addr_lt s.wcmdLastAddrLatch
  have hhalf : s.wcmdLastAddrLatch.toNat / 2 < 2 ^ 24 := by omega
  rw [wcmdLastAddrEven, BitVec.toNat_append, BitVec.extractLsb'_toNat, BitVec.toNat_ofNat,
    Nat.zero_mod, Nat.or_zero, Nat.shiftLeft_eq, Nat.shiftRight_eq_div_pow, Nat.pow_one,
    Nat.mod_eq_of_lt hhalf, Nat.mul_comm]

/-- A burst is the last one of a pass where two words or three are left, if the length is at least 2. -/
theorem last_iff (h : 2 ≤ s.wcmdLastAddrLatch.toNat) :
    s.wcmdLastAddrEven - 2 ≤ s.rdAddr ↔
      2 * (s.wcmdLastAddrLatch.toNat / 2) ≤ s.rdAddr.toNat + 2 := by
  have heven := s.toNat_even
  have htwo : (2 : Addr).toNat = 2 := rfl
  have hle : (2 : Addr) ≤ s.wcmdLastAddrEven := by
    rw [BitVec.le_def]
    omega
  rw [BitVec.le_def, BitVec.toNat_sub_of_le hle]
  omega

theorem odd_iff (s : RcmdFsm) :
    s.wcmdLastAddrLatch.getLsbD 0 = true ↔ s.wcmdLastAddrLatch.toNat % 2 = 1 := by
  rw [BitVec.getLsbD, Nat.testBit_zero, decide_eq_true_eq]

theorem addresses_stall (h : s.rcmdWr i.rcmdRdy = false) : s.addresses i = [] := by
  rw [addresses, h]
  rfl

theorem addresses_burst (hst : s.currentState = .burstRd) (hrdy : i.rcmdRdy = true) :
    s.addresses i = [s.rdAddr, s.rdAddr + 1] := by
  simp [addresses, rcmdWr, rcmdBrstEn, hst, hrdy]

theorem addresses_rd (hst : s.currentState = .rd) (hrdy : i.rcmdRdy = true) :
    s.addresses i = [s.rdAddr] := by
  simp [addresses, rcmdWr, rcmdBrstEn, hst, hrdy]

theorem latch_step (i : RcmdIn) (hfalls : s.loadFalls = false) :
    (s.step i).wcmdLastAddrLatch = s.wcmdLastAddrLatch :=
  if_neg (by rw [hfalls]; exact Bool.false_ne_true)

/-- Where the FSM stands when `k` words of a waveform of the latched length have been read. -/
inductive Stands (k : Nat) (s : RcmdFsm) : Prop
  | check : s.currentState = .checkRdy → s.rdAddr.toNat = 0 →
      k % s.wcmdLastAddrLatch.toNat = 0 → Stands k s
  | burst : s.currentState = .burstRd ∨ s.currentState = .rdStop → s.rdAddr.toNat % 2 = 0 →
      s.rdAddr.toNat + 2 ≤ s.wcmdLastAddrLatch.toNat →
      k % s.wcmdLastAddrLatch.toNat = s.rdAddr.toNat → Stands k s
  | last : s.currentState = .lastBurst → k % s.wcmdLastAddrLatch.toNat = 0 → Stands k s
  | single : s.currentState = .rd → s.rdAddr.toNat + 1 = s.wcmdLastAddrLatch.toNat →
      k % s.wcmdLastAddrLatch.toNat = s.rdAddr.toNat → Stands k s
  | stopped : s.currentState = .idle → Stands k s

/-- The words a command reads are the next ones of the pass. -/
theorem Stands.addresses_eq (h : Stands k s) (i : RcmdIn) : (s.addresses i).map BitVec.toNat =
    (List.range (s.addresses i).length).map (fun j => (k + j) % s.wcmdLastAddrLatch.toNat) := by
  cases h with
  | check hst | last hst | stopped hst =>
    rw [addresses_stall (by simp [rcmdWr, hst])]
    rfl
  | burst hst heven hlen hk =>
    cases hwr : s.rcmdWr i.rcmdRdy with
    | false =>
      rw [addresses_stall hwr]
      rfl
    | true =>
      obtain ⟨hst, hrdy⟩ : s.currentState = .burstRd ∧ i.rcmdRdy = true := by
        rcases hst with hst | hst
        · exact ⟨hst, (Bool.and_eq_true_iff.1 hwr).2⟩
        · simp [rcmdWr, hst] at hwr
      have hlt := toNat_addr_lt s.wcmdLastAddrLatch
      have hone : (1 : Addr).toNat = 1 := rfl
      have hsucc : (s.rdAddr + 1).toNat = s.rdAddr.toNat + 1 := toNat_addr_add (by omega)
      have hnext : (k + 1) % s.wcmdLastAddrLatch.toNat = s.rdAddr.toNat + 1 := by
        rw [mod_add_of_lt (by omega), hk]
      rw [addresses_burst hst hrdy]
      show [s.rdAddr.toNat, (s.rdAddr + 1).toNat] = [(k + 0) % _, (k + 1) % _]
      rw [hsucc, hnext, show (k + 0) % s.wcmdLastAddrLatch.toNat = _ from hk]
  | single hst hlen hk =>
    cases hwr : s.rcmdWr i.rcmdRdy with
    | false =>
      rw [addresses_stall hwr]
      rfl
    | true =>
      rw [addresses_rd hst (Bool.and_eq_true_iff.1 hwr).2]
      exact congrArg ([·]) hk.symm

/-- At the end of a pass the FSM goes on at address 0, or waits there. -/
theorem Stands.restart {t : RcmdFsm} (hlen : 2 ≤ t.wcmdLastAddrLatch.toNat) (haddr : t.rdAddr = 0)
    (hk : k % t.wcmdLastAddrLatch.toNat = 0)
    (hst : t.currentState = .burstRd ∨ t.currentState = .checkRdy) : Stands k t := by
  have hzero : t.rdAddr.toNat = 0 := by
    rw [haddr]
    rfl
  rcases hst with hst | hst
  · exact .burst (.inl hst) (by omega) (by omega) (by omega)
  · exact .check hst hzero hk

/-- A burst has been taken: another one follows, or the single read of an odd length, or the pass is
    over. -/
theorem Stands.after_burst (hlen : 2 ≤ s.wcmdLastAddrLatch.toNat) (hfalls : s.loadFalls = false)
    (hst : s.currentState = .burstRd) (hrdy : i.rcmdRdy = true) (heven : s.rdAddr.toNat % 2 = 0)
    (hend : s.rdAddr.toNat + 2 ≤ s.wcmdLastAddrLatch.toNat)
    (hk : k % s.wcmdLastAddrLatch.toNat = s.rdAddr.toNat) : Stands (k + 2) (s.step i) := by
  have hlatch := latch_step i hfalls
  have hnext : (s.step i).currentState = s.next i.rcmdRdy := rfl
  have hlt := toNat_addr_lt s.wcmdLastAddrLatch
  have htwo : (2 : Addr).toNat = 2 := rfl
  have haddr : (s.step i).rdAddr.toNat = s.rdAddr.toNat + 2 := by
    have hadd : (s.step i).rdAddr = s.rdAddr + 2 := by
      simp [RcmdFsm.step, rcmdWr, hst, hrdy]
    rw [hadd]
    exact toNat_addr_add (by omega)
  rw [next, hst, hrdy] at hnext
  by_cases hlast : s.wcmdLastAddrEven - 2 ≤ s.rdAddr
  · have hleft := (last_iff hlen).1 hlast
    have hnext' : (s.step i).currentState =
        if s.wcmdLastAddrLatch.getLsbD 0 then .rd else .lastBurst := by
      rw [hnext, if_pos rfl, if_pos hlast]
    by_cases hodd : s.wcmdLastAddrLatch.getLsbD 0 = true
    · have hone := s.odd_iff.1 hodd
      refine .single (hnext'.trans (if_pos hodd)) ?_ ?_ <;> rw [haddr, hlatch]
      · omega
      · exact (mod_add_of_lt (m := 2) (by omega)).trans (by rw [hk])
    · have hnone : ¬ s.wcmdLastAddrLatch.toNat % 2 = 1 := fun h => hodd (s.odd_iff.2 h)
      refine .last (hnext'.trans (if_neg hodd)) ?_
      rw [hlatch]
      exact mod_add_of_end (m := 2) (by omega)
  · have hleft : ¬ 2 * (s.wcmdLastAddrLatch.toNat / 2) ≤ s.rdAddr.toNat + 2 :=
      fun h => hlast ((last_iff hlen).2 h)
    refine .burst ?_ ?_ ?_ ?_
    · rw [hnext, if_pos rfl, if_neg hlast]
      cases s.wfmPlayStopReg2
      · exact .inr rfl
      · exact .inl rfl
    · omega
    · rw [haddr, hlatch]
      omega
    · rw [haddr, hlatch]
      exact (mod_add_of_lt (m := 2) (by omega)).trans (by rw [hk])

theorem Stands.step (h : Stands k s) (hlen : 2 ≤ s.wcmdLastAddrLatch.toNat)
    (hfalls : s.loadFalls = false) (i : RcmdIn) :
    Stands (k + (s.addresses i).length) (s.step i) := by
  have hlatch := latch_step i hfalls
  have hnext : (s.step i).currentState = s.next i.rcmdRdy := rfl
  cases h with
  | check hst hz hk =>
    have haddr : (s.step i).rdAddr = 0 := by
      have hkeep : (s.step i).rdAddr = s.rdAddr := by simp [RcmdFsm.step, rcmdWr, hst]
      rw [hkeep]
      exact BitVec.eq_of_toNat_eq hz
    rw [addresses_stall (by simp [rcmdWr, hst])]
    refine .restart (by rw [hlatch]; exact hlen) haddr (by rw [hlatch]; exact hk) ?_
    rw [hnext, next, hst]
    show (if _ then _ else _) = _ ∨ (if _ then _ else _) = _
    split
    · exact .inl rfl
    · exact .inr rfl
  | stopped hst =>
    refine .stopped ?_
    rw [hnext, next, hst, hfalls]
    rfl
  | last hst hk =>
    have haddr : (s.step i).rdAddr = 0 := by simp [RcmdFsm.step, rcmdWr, hst]
    rw [addresses_stall (by simp [rcmdWr, hst])]
    cases hrdy : i.rcmdRdy with
    | false => exact .last (by rw [hnext, next, hst, hrdy]; rfl) (by rw [hlatch]; exact hk)
    | true =>
      refine .restart (by rw [hlatch]; exact hlen) haddr (by rw [hlatch]; exact hk) ?_
      rw [hnext, next, hst, hrdy]
      cases s.wfmPlayStopReg2
      · exact .inr rfl
      · exact .inl rfl
  | single hst hend hk =>
    cases hrdy : i.rcmdRdy with
    | false =>
      have hwr : s.rcmdWr i.rcmdRdy = false := by simp [rcmdWr, hrdy]
      have haddr : (s.step i).rdAddr = s.rdAddr := by simp [RcmdFsm.step, hwr, hst]
      rw [addresses_stall hwr]
      refine .single (by rw [hnext, next, hst, hrdy]; rfl) ?_ ?_ <;> rw [haddr, hlatch]
      · exact hend
      · exact hk
    | true =>
      have haddr : (s.step i).rdAddr = 0 := by simp [RcmdFsm.step, rcmdWr, hst, hrdy]
      rw [addresses_rd hst hrdy]
      refine .restart (by rw [hlatch]; exact hlen) haddr ?_ ?_
      · rw [hlatch]
        exact mod_add_of_end (by rw [hk]; exact hend)
      · rw [hnext, next, hst, hrdy]
        cases s.wfmPlayStopReg2
        · exact .inr rfl
        · exact .inl rfl
  | burst hst heven hend hk =>
    rcases hst with hst | hst
    · cases hrdy : i.rcmdRdy with
      | false =>
        have hwr : s.rcmdWr i.rcmdRdy = false := by simp [rcmdWr, hrdy]
        have haddr : (s.step i).rdAddr = s.rdAddr := by simp [RcmdFsm.step, hwr, hst]
        rw [addresses_stall hwr]
        refine .burst (.inl (by rw [hnext, next, hst, hrdy]; rfl)) ?_ ?_ ?_ <;> rw [haddr]
        · exact heven
        · rw [hlatch]
          exact hend
        · rw [hlatch]
          exact hk
      | true =>
        rw [addresses_burst hst hrdy]
        exact .after_burst hlen hfalls hst hrdy heven hend hk
    · have hwr : s.rcmdWr i.rcmdRdy = false := by simp [rcmdWr, hst]
      have haddr : (s.step i).rdAddr = s.rdAddr := by simp [RcmdFsm.step, hwr, hst]
      rw [addresses_stall hwr]
      rw [next, hst] at hnext
      cases hrise : s.loadRises with
      | true => exact .stopped (by rw [hnext, hrise]; rfl)
      | false =>
        refine .burst ?_ ?_ ?_ ?_
        · rw [hnext, hrise]
          cases s.wfmPlayStopReg2
          · exact .inr rfl
          · exact .inl rfl
        all_goals rw [haddr]
        · exact heven
        · rw [hlatch]
          exact hend
        · rw [hlatch]
          exact hk

end RcmdFsm

/-! ## Whole runs -/

section run

variable {u : Addr} {x : Nat → RcmdIn} {len : Addr} {n : Nat}

theorem readsBefore_succ (n : Nat) :
    readsBefore u x (n + 1) = readsBefore u x n ++ (rcmdAt u x n).addresses (x n) := rfl

/-- Until a load ends nothing is read. -/
theorem idle_before (h : ∀ k, k < n → (rcmdAt u x k).loadFalls = false) :
    (rcmdAt u x n).currentState = .idle ∧ (rcmdAt u x n).rdAddr = 0 ∧ readsBefore u x n = [] := by
  induction n with
  | zero => exact ⟨rfl, rfl, rfl⟩
  | succ n ih =>
    obtain ⟨hst, haddr, hreads⟩ := ih fun k hk => h k (Nat.lt_succ_of_lt hk)
    have hfalls := h n (Nat.lt_succ_self n)
    have hnext : (rcmdAt u x (n + 1)).currentState = (rcmdAt u x n).next (x n).rcmdRdy := rfl
    refine ⟨?_, ?_, ?_⟩
    · rw [hnext, RcmdFsm.next, hst, hfalls]
      rfl
    · show ((rcmdAt u x n).step (x n)).rdAddr = 0
      simp [RcmdFsm.step, RcmdFsm.rcmdWr, hst, haddr]
    · rw [readsBefore_succ, hreads, RcmdFsm.addresses_stall (by simp [RcmdFsm.rcmdWr, hst])]
      rfl

/-- Behind the load the latch keeps the length, and the reads are those of the passes. -/
structure Plays (len : Addr) (reads : List Addr) (s : RcmdFsm) : Prop where
  latch : s.wcmdLastAddrLatch = len
  stands : s.Stands reads.length
  reads : reads.map BitVec.toNat = passes len.toNat reads.length

theorem Plays.step {reads : List Addr} {s : RcmdFsm} (h : Plays len reads s) (hlen : 2 ≤ len.toNat)
    (hfalls : s.loadFalls = false) (i : RcmdIn) : Plays len (reads ++ s.addresses i) (s.step i) where
  latch := by rw [RcmdFsm.latch_step i hfalls, h.latch]
  stands := by
    rw [List.length_append]
    exact h.stands.step (by rw [h.latch]; exact hlen) hfalls i
  reads := by
    rw [List.map_append, List.length_append, passes_add, h.reads, h.stands.addresses_eq i, h.latch]

/-- From the clock after the load on. -/
theorem plays {t : Nat} (hlen : 2 ≤ len.toNat) (hfall : (rcmdAt u x t).loadFalls = true)
    (hlast : (rcmdAt u x t).wcmdLastAddrReg1 = len)
    (honce : ∀ k, (rcmdAt u x k).loadFalls = true → k = t) (m : Nat) :
    Plays len (readsBefore u x (t + 1 + m)) (rcmdAt u x (t + 1 + m)) := by
  have hquiet : ∀ k, k ≠ t → (rcmdAt u x k).loadFalls = false :=
    fun k hk => Bool.eq_false_iff.2 fun h => hk (honce k h)
  induction m with
  | zero =>
    obtain ⟨hst, haddr, hreads⟩ := idle_before (n := t) fun k hk => hquiet k (Nat.ne_of_lt hk)
    have hnone : readsBefore u x (t + 1) = [] := by
      rw [readsBefore_succ, hreads, RcmdFsm.addresses_stall (by simp [RcmdFsm.rcmdWr, hst])]
      rfl
    have hlatch : (rcmdAt u x (t + 1)).wcmdLastAddrLatch = len := (if_pos hfall).trans hlast
    have hnext : (rcmdAt u x (t + 1)).currentState = (rcmdAt u x t).next (x t).rcmdRdy := rfl
    rw [Nat.add_zero, hnone]
    refine ⟨hlatch, .check ?_ ?_ (Nat.zero_mod _), rfl⟩
    · rw [hnext, RcmdFsm.next, hst, hfall]
      rfl
    · show ((rcmdAt u x t).step (x t)).rdAddr.toNat = 0
      simp [RcmdFsm.step, RcmdFsm.rcmdWr, hst, haddr]
  | succ m ih => exact ih.step hlen (hquiet _ (by omega)) _

/-- The reads of a waveform of two words or more are those of the passes. -/
theorem reads_eq_passes (hlen : 2 ≤ len.toNat) (h : LoadsOnce u x len) (n : Nat) :
    (readsBefore u x n).map BitVec.toNat = passes len.toNat (readsBefore u x n).length := by
  obtain ⟨t, hfall, hlast, honce⟩ := h
  by_cases hn : n ≤ t
  · have hquiet : ∀ k, k < n → (rcmdAt u x k).loadFalls = false := by
      intro k hk
      refine Bool.eq_false_iff.2 fun hf => ?_
      have := honce k hf
      omega
    rw [(idle_before hquiet).2.2]
    rfl
  · obtain ⟨m, rfl⟩ : ∃ m, n = t + 1 + m := ⟨n - (t + 1), by omega⟩
    exact (plays hlen hfall hlast honce m).reads

/-- A load of one clock, then room for commands and the play bit in every clock. -/
def playIn (len : Addr) (n : Nat) : RcmdIn := ⟨true, len, n == 0, true⟩

theorem playIn_loadFalls (len : Addr) (k : Nat) :
    (rcmdAt u (playIn len) k).loadFalls = true ↔ k = 3 := by
  match k with
  | 0 | 1 | 2 => exact ⟨nofun, nofun⟩
  | k + 3 =>
    have hfalls : (rcmdAt u (playIn len) (k + 3)).loadFalls = (k == 0 && !(k + 1 == 0)) := rfl
    rw [hfalls]
    simp

theorem playIn_loadsOnce (u len : Addr) : LoadsOnce u (playIn len) len :=
  ⟨3, (playIn_loadFalls len 3).2 rfl, rfl, fun k hk => (playIn_loadFalls len k).1 hk⟩

end run

/-- With one word the end of the pass is not found: the first burst already reads past it. -/
theorem playback_one_word : ¬ ∀ (len u : Addr) (x : Nat → RcmdIn), 1 ≤ len.toNat →
    LoadsOnce u x len → ∀ n,
      (readsBefore u x n).map BitVec.toNat = passes len.toNat (readsBefore u x n).length := by
  intro h
  have hbad := h 1 0 (playIn 1) (by decide) (playIn_loadsOnce 0 1) 6
  exact absurd hbad (by decide)

/-- The addresses read, at every room for commands, every pattern of play and stop and whatever the
    latch held before, are those of the passes from 0 to the length, exactly if the length is not 1. -/
theorem playback_passes_iff (len : Addr) (hlen : 1 ≤ len.toNat) :
    (∀ (u : Addr) (x : Nat → RcmdIn), LoadsOnce u x len → ∀ n,
      (readsBefore u x n).map BitVec.toNat = passes len.toNat (readsBefore u x n).length) ↔
    2 ≤ len.toNat := by
  constructor
  · intro h
    refine Decidable.byContradiction fun hlt => ?_
    have hone : len = 1 := BitVec.eq_of_toNat_eq (show len.toNat = 1 by omega)
    have hbad := h 0 (playIn len) (playIn_loadsOnce 0 len) 6
    rw [hone] at hbad
    exact absurd hbad (by decide)
  · intro h u x hload n
    exact reads_eq_passes h hload n

/-- Five words: two bursts and a single read. -/
theorem playback_passes_five : (∀ (u : Addr) (x : Nat → RcmdIn), LoadsOnce u x 5 → ∀ n,
      (readsBefore u x n).map BitVec.toNat = passes 5 (readsBefore u x n).length) ↔ 2 ≤ 5 :=
  playback_passes_iff 5 (by decide)

end Wfm
