import LimeSdrGw.Wfm.WcmdFsm
/-
# `rd_tx_fifo`: the words of a waveform on the sample bus

The state, the read strobe and the frame-sync bit look at `fifo_empty`, the data multiplexer does not.
While the FIFO has words all is well: slots A and B take turns, a slot of an enabled channel carries the
word it pops. As soon as it runs empty the frame-sync bit stands still, and a slot of an enabled channel
shows what an empty FIFO shows.

| here | there |
| --- | --- |
| `RdTxFifo`, `.step`, `.next` | rd_tx_fifo.vhd:41-48, 150-189 |
| `.iqSel`                     | rd_tx_fifo.vhd:56-66 |
| `.diq`, `diqWord`            | rd_tx_fifo.vhd:71-121 |
| `.fifoRead`                  | rd_tx_fifo.vhd:127-145 |
| `Serialiser`                 | with the show-ahead FIFO of `decompress`, wfm_player_top.vhd:473-520 |
-/
namespace Wfm

open Clocked

inductive SmplState
  | idle
  | txA
  | txB
deriving Repr, DecidableEq

/-- The mode settings. -/
structure TxSetting where
  frStart : Bool
  chEn : BitVec 2
  mimoEn : Bool
deriving Repr, DecidableEq

/-- The settings `rxtx_top` gives, but for the channels. -/
def playerSetting (chEn : BitVec 2) : TxSetting := ⟨false, chEn, true⟩

structure RdTxFifo where
  currentSmplState : SmplState
  fifoDataReg : Word32
deriving Repr, DecidableEq

/-- `sampl_width` bits of each half. -/
def lowHalf (d : Word32) : BitVec 12 := d.extractLsb' 0 12
def highHalf (d : Word32) : BitVec 12 := d.extractLsb' 16 12

/-- `"000" & iq_sel & d`. -/
def diqWord (iqSel : Bool) (d : BitVec 12) : BitVec 16 := 0#3 ++ BitVec.ofBool iqSel ++ d

namespace RdTxFifo

def init : RdTxFifo := ⟨.idle, 0⟩

variable (st : TxSetting) (s : RdTxFifo) (fifoEmpty : Bool) (fifoData : Word32)

def iqSelSig : Bool := decide (s.currentSmplState = .txA) && !fifoEmpty

def iqSel : Bool := if st.frStart then s.iqSelSig fifoEmpty else !s.iqSelSig fifoEmpty

/-- The samples in `diq_l` and `diq_h`. -/
def data : BitVec 12 × BitVec 12 :=
  match s.currentSmplState with
  | .idle => (0, 0)
  | .txA =>
    if st.chEn.getLsbD 0 && st.mimoEn then (lowHalf fifoData, highHalf fifoData)
    else if !st.chEn.getLsbD 0 && st.mimoEn then (0, 0)
    else (lowHalf fifoData, lowHalf fifoData)
  | .txB =>
    if st.chEn.getLsbD 1 && st.mimoEn then (lowHalf fifoData, highHalf fifoData)
    else if !st.chEn.getLsbD 1 && st.mimoEn then (0, 0)
    else (highHalf s.fifoDataReg, highHalf s.fifoDataReg)

/-- `diq_l` and `diq_h`. -/
def diq : BitVec 16 × BitVec 16 :=
  if s.currentSmplState = .idle then (0, 0)
  else (diqWord (s.iqSel st fifoEmpty) (s.data st fifoData).1,
    diqWord (s.iqSel st fifoEmpty) (s.data st fifoData).2)

def fifoRead : Bool :=
  match s.currentSmplState with
  | .idle => false
  | .txA => !fifoEmpty && (st.chEn.getLsbD 0 || !st.mimoEn)
  | .txB => !fifoEmpty && (st.chEn.getLsbD 1 && st.mimoEn)

def next : SmplState :=
  match s.currentSmplState with
  | .idle => if fifoEmpty then .idle else .txA
  | .txA => if fifoEmpty then .txA else .txB
  | .txB => if fifoEmpty then .txB else .txA

def step : RdTxFifo where
  currentSmplState := s.next fifoEmpty
  fifoDataReg := fifoData

end RdTxFifo

/-- What comes into the FIFO in a clock, and what it shows while it is empty. -/
structure SerialIn where
  arrival : List Word32
  stale : Word32
deriving Repr, DecidableEq

structure Serialiser where
  core : RdTxFifo
  fifo : List Word32
deriving Repr, DecidableEq

namespace Serialiser

variable (st : TxSetting) (s : Serialiser) (i : SerialIn)

def init : Serialiser := ⟨.init, []⟩

def fifoEmpty : Bool := s.fifo.isEmpty
def fifoData : Word32 := s.fifo.headD i.stale

def pops : Bool := s.core.fifoRead st s.fifoEmpty

def diq : BitVec 16 × BitVec 16 := s.core.diq st s.fifoEmpty (s.fifoData i)

def step : Serialiser where
  core := s.core.step s.fifoEmpty (s.fifoData i)
  fifo := (if s.pops st then s.fifo.tail else s.fifo) ++ i.arrival

def machine : Machine Serialiser SerialIn := ⟨init, step st⟩

end Serialiser

/-! ## What the bus carries -/

/-- The frame-sync bit and the sample of one half of the bus. -/
def syncBit (d : BitVec 16) : Bool := d.getLsbD 12
def sampleOf (d : BitVec 16) : BitVec 12 := d.extractLsb' 0 12

section run

variable (chEn : BitVec 2) (x : Nat → SerialIn)

abbrev serialAt (n : Nat) : Serialiser := (Serialiser.machine (playerSetting chEn)).state x n

/-- The bus in clock `n`. -/
def diqAt (n : Nat) : BitVec 16 × BitVec 16 := (serialAt chEn x n).diq (playerSetting chEn) (x n)

def popsAt (n : Nat) : Bool := (serialAt chEn x n).pops (playerSetting chEn)

/-- The words popped before clock `n`, each with the frame-sync bit of its clock. -/
def popped (n : Nat) : List (Bool × Word32) :=
  (Serialiser.machine (playerSetting chEn)).log (fun s i =>
    validWord (s.pops (playerSetting chEn))
      (syncBit (s.diq (playerSetting chEn) i).1, s.fifoData i)) x n

/-- The words that have come before clock `n`. -/
def arrived (n : Nat) : List Word32 :=
  (Serialiser.machine (playerSetting chEn)).log (fun _ i => i.arrival) x n

/-- What the bus owes the words of the FIFO in clock `n`. -/
structure Framed (n : Nat) : Prop where
  /-- Both halves carry one frame-sync bit. -/
  halves : syncBit (diqAt chEn x n).1 = syncBit (diqAt chEn x n).2
  /-- Outside `idle` it alternates. -/
  alternates : (serialAt chEn x n).core.currentSmplState ≠ .idle →
    syncBit (diqAt chEn x (n + 1)).1 = !syncBit (diqAt chEn x n).1
  /-- A word popped is on the bus, in the slot of an enabled channel: A with 0, B with 1. -/
  carries : popsAt chEn x n = true → ∃ w r, (serialAt chEn x n).fifo = w :: r ∧
    sampleOf (diqAt chEn x n).1 = lowHalf w ∧ sampleOf (diqAt chEn x n).2 = highHalf w ∧
    chEn.getLsbD (syncBit (diqAt chEn x n).1).toNat = true
  /-- Without a pop there is no sample. -/
  silent : popsAt chEn x n = false →
    sampleOf (diqAt chEn x n).1 = 0 ∧ sampleOf (diqAt chEn x n).2 = 0
  /-- Words are popped in the order they came, none left out. -/
  inOrder : (popped chEn x n).map Prod.snd ++ (serialAt chEn x n).fifo = arrived chEn x n
  /-- With both channels the words alternate A, B. -/
  both : chEn = 3 → ∀ k, k < (popped chEn x n).length →
    ((popped chEn x n)[k]?).map Prod.fst = some (decide (k % 2 = 1))

end run

theorem syncBit_diqWord (b : Bool) (d : BitVec 12) : syncBit (diqWord b d) = b := by
  rw [syncBit, diqWord, BitVec.getLsbD_append, if_neg (by decide), BitVec.getLsbD_append,
    if_pos (by decide)]
  cases b <;> rfl

theorem sampleOf_diqWord (b : Bool) (d : BitVec 12) : sampleOf (diqWord b d) = d := by
  ext i hi
  rw [sampleOf, BitVec.getElem_extractLsb', Nat.zero_add, diqWord, BitVec.getLsbD_append, if_pos hi,
    BitVec.getLsbD_eq_getElem hi]

/-! ## One clock -/

namespace RdTxFifo

variable {chEn : BitVec 2} {s : RdTxFifo} {e : Bool} {d : Word32}

/-- What a slot brings: the sample or none. -/
theorem diq_of_slot (h : s.currentSmplState ≠ .idle) :
    s.diq (playerSetting chEn) e d =
      (diqWord (!s.iqSelSig e) (s.data (playerSetting chEn) d).1,
        diqWord (!s.iqSelSig e) (s.data (playerSetting chEn) d).2) := by
  rw [diq, if_neg h]
  rfl

theorem diq_idle (h : s.currentSmplState = .idle) : s.diq (playerSetting chEn) e d = (0, 0) := by
  rw [diq, if_pos h]

/-- The frame-sync bit is 0 in a slot A that has a word, 1 in all others. -/
theorem sync_of_slot (h : s.currentSmplState ≠ .idle) :
    syncBit (s.diq (playerSetting chEn) e d).1 = !(decide (s.currentSmplState = .txA) && !e) := by
  rw [diq_of_slot h, syncBit_diqWord]
  rfl

/-- A pop: slot and channel, and the sample in it. -/
theorem read_cases (h : s.fifoRead (playerSetting chEn) e = true) : e = false ∧
    s.data (playerSetting chEn) d = (lowHalf d, highHalf d) ∧
    (s.currentSmplState = .txA ∧ chEn.getLsbD 0 = true ∨
      s.currentSmplState = .txB ∧ chEn.getLsbD 1 = true) := by
  cases hst : s.currentSmplState with
  | idle =>
    rw [fifoRead, hst] at h
    exact nomatch h
  | txA =>
    have hch : e = false ∧ chEn.getLsbD 0 = true := by
      simpa [fifoRead, hst, playerSetting] using h
    refine ⟨hch.1, ?_, .inl ⟨rfl, hch.2⟩⟩
    rw [data, hst]
    exact if_pos (by rw [playerSetting, hch.2]; rfl)
  | txB =>
    have hch : e = false ∧ chEn.getLsbD 1 = true := by
      simpa [fifoRead, hst, playerSetting] using h
    refine ⟨hch.1, ?_, .inr ⟨rfl, hch.2⟩⟩
    rw [data, hst]
    exact if_pos (by rw [playerSetting, hch.2]; rfl)

/-- A slot that has a word and does not pop it is one of a disabled channel. -/
theorem data_of_kept (h : s.fifoRead (playerSetting chEn) false = false) :
    s.data (playerSetting chEn) d = (0, 0) := by
  cases hst : s.currentSmplState with
  | idle => rw [data, hst]
  | txA =>
    have hch : chEn.getLsbD 0 = false := by simpa [fifoRead, hst, playerSetting] using h
    rw [data, hst, playerSetting, hch]
    rfl
  | txB =>
    have hch : chEn.getLsbD 1 = false := by simpa [fifoRead, hst, playerSetting] using h
    rw [data, hst, playerSetting, hch]
    rfl

/-- With both channels a slot stays as long as nothing is popped. -/
theorem next_of_kept (h : s.fifoRead (playerSetting 3) e = false) :
    s.next e = .txB ↔ s.currentSmplState = .txB := by
  obtain ⟨st, d⟩ := s
  cases st with
  | idle => cases e <;> exact ⟨nofun, nofun⟩
  | txA =>
    cases e with
    | true => exact ⟨nofun, nofun⟩
    | false => exact absurd (show true = false from h) nofun
  | txB =>
    cases e with
    | true => exact ⟨fun _ => rfl, fun _ => rfl⟩
    | false => exact absurd (show true = false from h) nofun

end RdTxFifo

section run

variable {chEn : BitVec 2} {x : Nat → SerialIn} {n : Nat}

theorem state_succ (n : Nat) : (serialAt chEn x (n + 1)).core.currentSmplState =
    (serialAt chEn x n).core.next (serialAt chEn x n).fifoEmpty := rfl

theorem halves_at (n : Nat) : syncBit (diqAt chEn x n).1 = syncBit (diqAt chEn x n).2 := by
  rw [diqAt, Serialiser.diq]
  by_cases h : (serialAt chEn x n).core.currentSmplState = .idle
  · rw [RdTxFifo.diq_idle h]
  · rw [RdTxFifo.diq_of_slot h, syncBit_diqWord, syncBit_diqWord]

theorem pop_facts (h : popsAt chEn x n = true) : ∃ w r, (serialAt chEn x n).fifo = w :: r ∧
    (serialAt chEn x n).fifoData (x n) = w ∧
    sampleOf (diqAt chEn x n).1 = lowHalf w ∧ sampleOf (diqAt chEn x n).2 = highHalf w ∧
    ((serialAt chEn x n).core.currentSmplState = .txA ∧ chEn.getLsbD 0 = true ∧
        syncBit (diqAt chEn x n).1 = false ∨
      (serialAt chEn x n).core.currentSmplState = .txB ∧ chEn.getLsbD 1 = true ∧
        syncBit (diqAt chEn x n).1 = true) := by
  obtain ⟨hempty, hdata, hslot⟩ := RdTxFifo.read_cases (d := (serialAt chEn x n).fifoData (x n)) h
  have hne : (serialAt chEn x n).fifo ≠ [] := List.isEmpty_eq_false_iff.1 hempty
  obtain ⟨w, r, hfifo⟩ := List.exists_cons_of_ne_nil hne
  have hw : (serialAt chEn x n).fifoData (x n) = w := by
    rw [Serialiser.fifoData, hfifo]
    rfl
  have hbusy : (serialAt chEn x n).core.currentSmplState ≠ .idle := by
    rcases hslot with ⟨hst, -⟩ | ⟨hst, -⟩ <;> rw [hst] <;> exact nofun
  have hsync : syncBit (diqAt chEn x n).1 = !(decide ((serialAt chEn x n).core.currentSmplState =
      .txA) && !(serialAt chEn x n).fifoEmpty) := RdTxFifo.sync_of_slot hbusy
  refine ⟨w, r, hfifo, hw, ?_, ?_, ?_⟩
  · rw [diqAt, Serialiser.diq, RdTxFifo.diq_of_slot hbusy, sampleOf_diqWord, hdata, hw]
  · rw [diqAt, Serialiser.diq, RdTxFifo.diq_of_slot hbusy, sampleOf_diqWord, hdata, hw]
  · rcases hslot with ⟨hst, hch⟩ | ⟨hst, hch⟩
    · refine .inl ⟨hst, hch, ?_⟩
      rw [hsync, hempty, hst]
      rfl
    · refine .inr ⟨hst, hch, ?_⟩
      rw [hsync, hempty, hst]
      rfl

theorem carries_at (h : popsAt chEn x n = true) : ∃ w r, (serialAt chEn x n).fifo = w :: r ∧
    sampleOf (diqAt chEn x n).1 = lowHalf w ∧ sampleOf (diqAt chEn x n).2 = highHalf w ∧
    chEn.getLsbD (syncBit (diqAt chEn x n).1).toNat = true := by
  obtain ⟨w, r, hfifo, -, hlow, hhigh, hslot⟩ := pop_facts h
  refine ⟨w, r, hfifo, hlow, hhigh, ?_⟩
  rcases hslot with ⟨-, hch, hsync⟩ | ⟨-, hch, hsync⟩
  · rw [hsync]
    exact hch
  · rw [hsync]
    exact hch

theorem popped_succ (n : Nat) : popped chEn x (n + 1) = popped chEn x n ++
    validWord (popsAt chEn x n)
      (syncBit (diqAt chEn x n).1, (serialAt chEn x n).fifoData (x n)) := rfl

theorem fifo_succ (n : Nat) : (serialAt chEn x (n + 1)).fifo =
    (if popsAt chEn x n then (serialAt chEn x n).fifo.tail else (serialAt chEn x n).fifo) ++
      (x n).arrival := rfl

theorem inOrder_at (n : Nat) :
    (popped chEn x n).map Prod.snd ++ (serialAt chEn x n).fifo = arrived chEn x n := by
  induction n with
  | zero => rfl
  | succ n ih =>
    have harr : arrived chEn x (n + 1) = arrived chEn x n ++ (x n).arrival := rfl
    rw [popped_succ, fifo_succ, harr, ← ih]
    cases hpop : popsAt chEn x n with
    | false => simp [validWord]
    | true =>
      obtain ⟨w, r, hfifo, hw, -⟩ := pop_facts hpop
      simp [validWord, hw, hfifo]

/-- With both channels every word has its slot: A before words of even number, B before odd ones. -/
theorem both_at (hch : chEn = 3) (n : Nat) :
    ((serialAt chEn x n).core.currentSmplState = .txB ↔ (popped chEn x n).length % 2 = 1) ∧
    ∀ k, k < (popped chEn x n).length →
      ((popped chEn x n)[k]?).map Prod.fst = some (decide (k % 2 = 1)) := by
  induction n with
  | zero =>
    refine ⟨⟨fun h => ?_, fun h => ?_⟩, fun k hk => absurd hk (Nat.not_lt_zero k)⟩
    · cases h
    · cases h
  | succ n ih =>
    obtain ⟨hparity, hslots⟩ := ih
    have hstate : (serialAt chEn x (n + 1)).core.currentSmplState =
        (serialAt chEn x n).core.next (serialAt chEn x n).fifoEmpty := state_succ n
    rw [popped_succ]
    cases hpop : popsAt chEn x n with
    | true =>
      obtain ⟨w, r, hfifo, hw, -, -, hslot⟩ := pop_facts hpop
      have hempty : (serialAt chEn x n).fifoEmpty = false := by
        rw [Serialiser.fifoEmpty, hfifo]
        rfl
      have hlast : syncBit (diqAt chEn x n).1 = decide ((popped chEn x n).length % 2 = 1) := by
        rcases hslot with ⟨hst, -, hsync⟩ | ⟨hst, -, hsync⟩
        · rw [hst] at hparity
          rw [hsync, decide_eq_false fun h => by cases hparity.2 h]
        · rw [hsync, decide_eq_true (hparity.1 hst)]
      refine ⟨?_, ?_⟩
      · rw [validWord, if_pos rfl, List.length_append, List.length_singleton, hstate, hempty]
        rcases hslot with ⟨hst, -, -⟩ | ⟨hst, -, -⟩
        · rw [hst] at hparity
          have hlen : ¬ (popped chEn x n).length % 2 = 1 := fun h => by cases hparity.2 h
          refine ⟨fun _ => by omega, fun _ => ?_⟩
          rw [RdTxFifo.next, hst]
          rfl
        · have hlen := hparity.1 hst
          refine ⟨fun h => ?_, fun h => absurd h (by omega)⟩
          rw [RdTxFifo.next, hst] at h
          cases h
      · intro k hk
        rw [validWord, if_pos rfl] at hk ⊢
        rw [List.length_append, List.length_singleton] at hk
        by_cases hlt : k < (popped chEn x n).length
        · rw [List.getElem?_append_left hlt]
          exact hslots k hlt
        · obtain rfl : k = (popped chEn x n).length := by omega
          rw [List.getElem?_append_right (Nat.le_refl _), Nat.sub_self]
          exact congrArg some hlast
    | false =>
      rw [validWord, if_neg Bool.false_ne_true, List.append_nil]
      refine ⟨?_, hslots⟩
      subst hch
      rw [hstate, RdTxFifo.next_of_kept hpop]
      exact hparity

/-- The FIFO does not run empty once slots have begun. -/
def Fed (chEn : BitVec 2) (x : Nat → SerialIn) : Prop :=
  ∀ n, (serialAt chEn x n).core.currentSmplState ≠ .idle → (serialAt chEn x n).fifo ≠ []

theorem busy_succ (h : (serialAt chEn x n).core.currentSmplState ≠ .idle) :
    (serialAt chEn x (n + 1)).core.currentSmplState ≠ .idle := by
  rw [state_succ, RdTxFifo.next]
  cases hst : (serialAt chEn x n).core.currentSmplState with
  | idle => exact absurd hst h
  | txA => cases (serialAt chEn x n).fifoEmpty <;> exact nofun
  | txB => cases (serialAt chEn x n).fifoEmpty <;> exact nofun

theorem sync_at (h : (serialAt chEn x n).core.currentSmplState ≠ .idle) :
    syncBit (diqAt chEn x n).1 =
      !(decide ((serialAt chEn x n).core.currentSmplState = .txA) && !(serialAt chEn x n).fifoEmpty) :=
  RdTxFifo.sync_of_slot h

theorem framed_of_fed (h : Fed chEn x) (n : Nat) : Framed chEn x n where
  halves := halves_at n
  alternates hbusy := by
    have hfed : ∀ k, (serialAt chEn x k).core.currentSmplState ≠ .idle →
        (serialAt chEn x k).fifoEmpty = false := fun k hk => List.isEmpty_eq_false_iff.2 (h k hk)
    have hnext := busy_succ hbusy
    rw [sync_at hbusy, sync_at hnext, hfed n hbusy, hfed (n + 1) hnext, state_succ, hfed n hbusy,
      RdTxFifo.next]
    cases hst : (serialAt chEn x n).core.currentSmplState with
    | idle => exact absurd hst hbusy
    | txA => rfl
    | txB => rfl
  carries := carries_at
  silent hpop := by
    by_cases hbusy : (serialAt chEn x n).core.currentSmplState = .idle
    · rw [diqAt, Serialiser.diq, RdTxFifo.diq_idle hbusy]
      exact ⟨rfl, rfl⟩
    · have hempty : (serialAt chEn x n).fifoEmpty = false :=
        List.isEmpty_eq_false_iff.2 (h n hbusy)
      have hread : (serialAt chEn x n).core.fifoRead (playerSetting chEn)
        (serialAt chEn x n).fifoEmpty = false := hpop
      rw [hempty] at hread
      rw [diqAt, Serialiser.diq, RdTxFifo.diq_of_slot hbusy, sampleOf_diqWord, sampleOf_diqWord,
        RdTxFifo.data_of_kept hread]
      exact ⟨rfl, rfl⟩
  inOrder := inOrder_at n
  both hch := (both_at hch n).2

/-- An empty FIFO makes the frame-sync bit stand still. -/
theorem fed_of_alternates (h : ∀ n, (serialAt chEn x n).core.currentSmplState ≠ .idle →
    syncBit (diqAt chEn x (n + 1)).1 = !syncBit (diqAt chEn x n).1) : Fed chEn x := by
  intro n hbusy hnil
  have hempty : (serialAt chEn x n).fifoEmpty = true := by
    rw [Serialiser.fifoEmpty, hnil]
    rfl
  have hsync : syncBit (diqAt chEn x n).1 = true := by
    rw [sync_at hbusy, hempty]
    cases decide ((serialAt chEn x n).core.currentSmplState = .txA) <;> rfl
  cases hst : (serialAt chEn x n).core.currentSmplState with
  | idle => exact absurd hst hbusy
  | txB =>
    -- the slot stays, and so does its bit
    have hnext : (serialAt chEn x (n + 1)).core.currentSmplState = .txB := by
      rw [state_succ, RdTxFifo.next, hst, hempty]
      rfl
    have hsync' : syncBit (diqAt chEn x (n + 1)).1 = true := by
      rw [sync_at (by rw [hnext]; exact nofun), hnext]
      rfl
    have halt := h n hbusy
    rw [hsync, hsync'] at halt
    exact nomatch halt
  | txA =>
    -- the clock before was a slot B or an empty slot A
    cases n with
    | zero => exact nomatch hst
    | succ k =>
      rw [state_succ, RdTxFifo.next] at hst
      cases hprev : (serialAt chEn x k).core.currentSmplState with
      | idle =>
        rw [hprev] at hst
        cases hfull : (serialAt chEn x k).fifoEmpty with
        | true =>
          rw [hfull] at hst
          exact nomatch hst
        | false =>
          have hnopop : popsAt chEn x k = false := by
            show (serialAt chEn x k).core.fifoRead _ _ = false
            rw [RdTxFifo.fifoRead, hprev]
          rw [fifo_succ, hnopop, if_neg Bool.false_ne_true, List.append_eq_nil_iff] at hnil
          rw [Serialiser.fifoEmpty, hnil.1] at hfull
          exact nomatch hfull
      | txA =>
        have hbusy' : (serialAt chEn x k).core.currentSmplState ≠ .idle := by
          rw [hprev]
          exact nofun
        have hfull : (serialAt chEn x k).fifoEmpty = true := by
          rw [hprev] at hst
          cases hf : (serialAt chEn x k).fifoEmpty with
          | true => rfl
          | false =>
            rw [hf] at hst
            exact nomatch hst
        have halt := h k hbusy'
        rw [hsync, sync_at hbusy', hfull, hprev] at halt
        exact nomatch halt
      | txB =>
        have hbusy' : (serialAt chEn x k).core.currentSmplState ≠ .idle := by
          rw [hprev]
          exact nofun
        have halt := h k hbusy'
        rw [hsync, sync_at hbusy', hprev] at halt
        exact nomatch halt

end run

/-- The channel framing holds in every clock exactly if the FIFO never runs empty once slots have
    begun, for every setting of the channels and whatever an empty FIFO shows. -/
theorem serialiser_framed_iff (chEn : BitVec 2) (x : Nat → SerialIn) :
    (∀ n, Framed chEn x n) ↔
      ∀ n, (serialAt chEn x n).core.currentSmplState ≠ .idle → (serialAt chEn x n).fifo ≠ [] :=
  ⟨fun h => fed_of_alternates fun n => (h n).alternates, fun h => framed_of_fed h⟩

/-- Two words, and then none. -/
def twoWords (n : Nat) : SerialIn := ⟨if n = 0 then [0x00010002, 0x00030004] else [], 0x00030004⟩

/-- An underrun: the frame-sync bit stands still, and the last word is seen again. -/
theorem serialiser_underrun : ¬ Framed 3 twoWords 3 ∧
    syncBit (diqAt 3 twoWords 3).1 = true ∧ syncBit (diqAt 3 twoWords 4).1 = true ∧
    popsAt 3 twoWords 4 = false ∧ sampleOf (diqAt 3 twoWords 4).1 = 4 := by
  refine ⟨fun h => ?_, by decide, by decide, by decide, by decide⟩
  exact absurd (h.alternates (by decide)) (by decide)

end Wfm
