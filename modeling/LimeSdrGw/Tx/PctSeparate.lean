import LimeSdrGw.Clocked.Framing
import LimeSdrGw.Clocked.Machine
import LimeSdrGw.Tx.OnePctFifo
/-
# One packet at a time

`pct_separate_fsm` at an input FIFO that holds an endless stream of words. The number of words of a
packet is in its first word, which the FSM sees one clock after it asked for it and can use one
clock later still (pct_separate_fsm.vhd:178-196); in these two clocks it goes on reading. A packet
of one or two words is over by then, and only an empty FIFO keeps the FSM off the next one.

| here | there |
| --- | --- |
| `Separator.infifoData`, `.popped` | `infifo_data`, the `q` of a FIFO without show-ahead, and the reads so far |
| `written`, `headers`              | `pct_data` with `pct_wrreq`, `pct_header` with `pct_header_valid` |
| `begun`                           | steps `idle` to `rd_pct` |
-/
namespace Tx

open Clocked

/-- Words of a packet, its header included. -/
def packetWords (hdr : Word128) : Nat := if hdr.sizeField = 0 then 256 else hdr.sizeField / 16 + 1

theorem rdCntMaxOf_eq (hdr : Word128) : PctSeparateFsm.rdCntMaxOf hdr = packetWords hdr := rfl

structure SepIn where
  infifoRdempty : Bool
  pctWrempty : Bool

structure Separator where
  fsm : PctSeparateFsm
  popped : Nat
  infifoData : Word128

namespace Separator

def init : Separator := ⟨.init, 0, 0⟩

def step (ws : Nat → Word128) (s : Separator) (i : SepIn) : Separator where
  fsm := s.fsm.step s.infifoData i.infifoRdempty i.pctWrempty
  popped := if s.fsm.infifoRdreq i.infifoRdempty then s.popped + 1 else s.popped
  infifoData := if s.fsm.infifoRdreq i.infifoRdempty then ws s.popped else s.infifoData

/-- A packet cycle begins. -/
def begins (s : Separator) (i : SepIn) : Bool :=
  s.fsm.currentState == .idle && s.fsm.nextState i.infifoRdempty i.pctWrempty == .rdPct

/-- The word written in this clock. -/
def wr (s : Separator) : List Word128 := if s.fsm.pctWrreqReg then [s.infifoData] else []

/-- The header announced in this clock. -/
def hdr (s : Separator) : List Word128 := if s.fsm.headerValidReg then [s.fsm.header] else []

end Separator

def separator (ws : Nat → Word128) : Machine Separator SepIn := ⟨.init, Separator.step ws⟩

section

variable (ws : Nat → Word128) (x : Nat → SepIn)

def begun : Nat → Nat := (separator ws).track (fun k s i => if s.begins i then k + 1 else k) 0 x

def written : Nat → List Word128 := (separator ws).log (fun s _ => s.wr) x

def headers : Nat → List Word128 := (separator ws).log (fun s _ => s.hdr) x

/-- The first word of packet `k`. -/
abbrev pctStart : Nat → Nat := cut packetWords ws

/-- Number of words of packet `k`. -/
abbrev pctLen (k : Nat) : Nat := packetWords (heads packetWords ws k)

theorem begun_succ (n : Nat) : begun ws x (n + 1) =
    if ((separator ws).state x n).begins (x n) then begun ws x n + 1 else begun ws x n := rfl

theorem written_succ (n : Nat) :
    written ws x (n + 1) = written ws x n ++ ((separator ws).state x n).wr := rfl

theorem headers_succ (n : Nat) :
    headers ws x (n + 1) = headers ws x n ++ ((separator ws).state x n).hdr := rfl

end

theorem packetWords_pos (w : Word128) : 0 < packetWords w := by
  unfold packetWords
  split
  · decide
  · show 0 < _ + 1
    omega

theorem packetWords_le (w : Word128) : packetWords w ≤ 4096 := by
  unfold packetWords
  have := w.sizeField_lt
  split
  · decide
  · show _ + 1 ≤ 4096
    omega

namespace Separator

/-! ### One clock -/

variable {ws : Nat → Word128} {s : Separator} {i : SepIn} {j k : Nat}

/-- Inside packet `j`: what has been asked for, what has come back and whether the length is known. -/
structure Inside (ws : Nat → Word128) (s : Separator) (j : Nat) : Prop where
  popped : s.popped = pctStart ws j + s.fsm.rdCnt
  back : s.fsm.rdCnt = s.fsm.wrCnt + s.fsm.infifoDataValid.toNat
  le : s.fsm.rdCnt ≤ pctLen ws j
  unknown : s.fsm.wrCnt = 0 → s.fsm.rdCntMax = 65535
  known : 0 < s.fsm.wrCnt → s.fsm.rdCntMax = pctLen ws j

/-- Where the FSM is, with `k` packet cycles begun. -/
inductive Phase (ws : Nat → Word128) (s : Separator) : Nat → Prop
  | idle (k : Nat) (state : s.fsm.currentState = .idle) (popped : s.popped = pctStart ws k)
      (quiet : s.fsm.infifoDataValid = false) (noHdr : s.fsm.headerValidReg = false) : Phase ws s k
  | rdPct (j : Nat) (state : s.fsm.currentState = .rdPct) (inside : Inside ws s j) :
      Phase ws s (j + 1)
  | rdDone (j : Nat) (state : s.fsm.currentState = .rdDone) (inside : Inside ws s j)
      (all : s.fsm.rdCnt = pctLen ws j) (got : 0 < s.fsm.wrCnt) : Phase ws s (j + 1)

/-- The word read in the clock before is the one on `infifo_data`, and it is being written. -/
structure Shown (ws : Nat → Word128) (s : Separator) : Prop where
  wrreq : s.fsm.pctWrreqReg = s.fsm.infifoDataValid
  data : s.fsm.infifoDataValid → 0 < s.popped ∧ s.infifoData = ws (s.popped - 1)

theorem Shown.step (s : Separator) (i : SepIn) : Shown ws (s.step ws i) := by
  refine ⟨rfl, fun h => ?_⟩
  have hr : s.fsm.infifoRdreq i.infifoRdempty = true := h
  simp [Separator.step, hr]

theorem headerHere_of_quiet (h : s.fsm.infifoDataValid = false) : s.fsm.headerHere = false := by
  simp [PctSeparateFsm.headerHere, h]

theorem headerHere_of_pos (h : 0 < s.fsm.wrCnt) : s.fsm.headerHere = false := by
  simp [PctSeparateFsm.headerHere, Nat.ne_of_gt h]

/-- The word that comes back is the one on the way, the packet's first word if it is the first. -/
theorem Inside.head (h : Inside ws s j) (hs : Shown ws s) (hh : s.fsm.headerHere) :
    s.infifoData = heads packetWords ws j := by
  simp only [PctSeparateFsm.headerHere, Bool.and_eq_true, beq_iff_eq] at hh
  have hp := h.popped
  have hb := h.back
  rw [hh.1, hh.2] at hb
  have : s.popped - 1 = pctStart ws j := by simp at hb; omega
  rw [(hs.data hh.2).2, this]
  rfl

theorem Inside.rdCnt_step (h : Inside ws s j) (hni : s.fsm.currentState ≠ .idle) :
    (s.step ws i).fsm.rdCnt = s.fsm.rdCnt + (s.fsm.infifoRdreq i.infifoRdempty).toNat := by
  have hlen : pctLen ws j ≤ 4096 := packetWords_le _
  have hle := h.le
  show (if s.fsm.currentState = .idle then 0
    else if s.fsm.infifoRdreq i.infifoRdempty then inc16 s.fsm.rdCnt else s.fsm.rdCnt) = _
  rw [if_neg hni]
  cases s.fsm.infifoRdreq i.infifoRdempty with
  | false => rfl
  | true => exact inc16_of_lt (by omega)

theorem Inside.wrCnt_step (h : Inside ws s j) (hni : s.fsm.currentState ≠ .idle) :
    (s.step ws i).fsm.wrCnt = s.fsm.wrCnt + s.fsm.infifoDataValid.toNat := by
  have hlen : pctLen ws j ≤ 4096 := packetWords_le _
  have hle := h.le
  have hback := h.back
  show (if s.fsm.currentState = .idle then 0
    else if s.fsm.infifoDataValid then inc16 s.fsm.wrCnt else s.fsm.wrCnt) = _
  rw [if_neg hni]
  cases s.fsm.infifoDataValid with
  | false => rfl
  | true => exact inc16_of_lt (by omega)

/-- A read asked for in packet `j` is one of a word of packet `j`. -/
theorem Inside.step (h : Inside ws s j) (hs : Shown ws s) (hni : s.fsm.currentState ≠ .idle)
    (hroom : s.fsm.infifoRdreq i.infifoRdempty → s.fsm.rdCnt < pctLen ws j) :
    Inside ws (s.step ws i) j := by
  have hle := h.le
  have hrd := h.rdCnt_step (i := i) hni
  have hwr := h.wrCnt_step (i := i) hni
  have hmax : (s.step ws i).fsm.rdCntMax =
      if s.fsm.headerHere then pctLen ws j else s.fsm.rdCntMax := by
    show (if s.fsm.currentState = .idle then 65535 else if s.fsm.headerHere then
      PctSeparateFsm.rdCntMaxOf s.infifoData else s.fsm.rdCntMax) = _
    rw [if_neg hni, rdCntMaxOf_eq]
    by_cases hh : s.fsm.headerHere
    · rw [if_pos hh, if_pos hh, h.head hs hh]
    · rw [if_neg hh, if_neg hh]
  refine ⟨?_, ?_, ?_, ?_, ?_⟩
  · rw [hrd, ← Nat.add_assoc, ← h.popped]
    show (if s.fsm.infifoRdreq i.infifoRdempty then _ else _) = _
    cases s.fsm.infifoRdreq i.infifoRdempty <;> rfl
  · rw [hrd, hwr, ← h.back]
    rfl
  · rw [hrd]
    cases hr : s.fsm.infifoRdreq i.infifoRdempty with
    | false => exact hle
    | true => exact hroom hr
  · intro h0
    rw [hwr] at h0
    have hd : s.fsm.infifoDataValid = false := by
      cases hv : s.fsm.infifoDataValid with
      | false => rfl
      | true => rw [hv] at h0; simp at h0
    rw [hmax, if_neg (by simp [PctSeparateFsm.headerHere, hd])]
    exact h.unknown (by omega)
  · intro hpos
    rw [hmax]
    by_cases hh : s.fsm.headerHere
    · rw [if_pos hh]
    · rw [if_neg hh]
      refine h.known (Nat.pos_of_ne_zero fun h0 => ?_)
      have hd : s.fsm.infifoDataValid = false := by
        simpa [PctSeparateFsm.headerHere, h0] using hh
      rw [hwr, h0, hd] at hpos
      exact absurd hpos (by decide)

/-- No word waits for the FSM once it has read the whole packet and has not noticed yet. -/
def Held (ws : Nat → Word128) (s : Separator) (i : SepIn) (k : Nat) : Prop :=
  s.fsm.currentState = .rdPct → s.popped = pctStart ws k → i.infifoRdempty = true

theorem begins_of_idle (h : s.fsm.currentState = .idle) :
    s.begins i = (!i.infifoRdempty && i.pctWrempty) := by
  unfold begins PctSeparateFsm.nextState
  rw [h]
  cases !i.infifoRdempty && i.pctWrempty <;> rfl

variable (ws i) in
theorem state_of_idle (h : s.fsm.currentState = .idle) :
    (s.step ws i).fsm.currentState = if s.begins i then .rdPct else .idle := by
  rw [begins_of_idle h]
  simp only [Separator.step, PctSeparateFsm.step, PctSeparateFsm.nextState, h]

theorem not_idle_of_rdPct (h : s.fsm.currentState = .rdPct) :
    s.fsm.nextState i.infifoRdempty i.pctWrempty ≠ .idle := by
  intro hn
  simp only [PctSeparateFsm.nextState, h] at hn
  split at hn
  · cases hn
  · split at hn <;> cases hn

theorem not_begins (h : s.fsm.currentState ≠ .idle) : s.begins i = false := by
  simp [begins, h]

/-- Leaving `rd_pct` means that the length is known and every word has been read. -/
theorem Inside.leaves (h : Inside ws s j) (hst : s.fsm.currentState = .rdPct)
    (hn : s.fsm.nextState i.infifoRdempty i.pctWrempty = .rdDone) :
    0 < s.fsm.wrCnt ∧
      (s.fsm.rdCnt = pctLen ws j ∨ s.fsm.rdCnt + 1 = pctLen ws j ∧ i.infifoRdempty = false) := by
  have hlen : 0 < pctLen ws j := packetWords_pos _
  have hlen' : pctLen ws j ≤ 4096 := packetWords_le _
  have hv := Bool.toNat_le s.fsm.infifoDataValid
  have hback := h.back
  have hle := h.le
  simp only [PctSeparateFsm.nextState, hst] at hn
  by_cases h0 : s.fsm.wrCnt = 0
  · rw [h.unknown h0, if_pos (by show _ < 65534; omega)] at hn
    cases hn
  · rw [h.known (Nat.pos_of_ne_zero h0), dec16_of_pos hlen (by omega)] at hn
    refine ⟨Nat.pos_of_ne_zero h0, ?_⟩
    split at hn
    · cases hn
    · split at hn
      · cases hn
      · rename_i hlt heq
        by_cases hw : s.fsm.rdCnt = pctLen ws j
        · exact .inl hw
        · refine .inr ⟨by omega, ?_⟩
          rw [Bool.eq_false_iff]
          exact fun hemp => heq ⟨by omega, hemp⟩

theorem Phase.step (h : Phase ws s k) (hs : Shown ws s) (hh : s.Held ws i k) :
    Phase ws (s.step ws i) (if s.begins i then k + 1 else k) := by
  cases h with
  | idle _ hst hp hq hv =>
    have hr : s.fsm.infifoRdreq i.infifoRdempty = false := by simp [PctSeparateFsm.infifoRdreq, hst]
    have hpop : (s.step ws i).popped = pctStart ws k := by simp [Separator.step, hr, hp]
    cases hb : s.begins i with
    | false =>
      refine .idle _ ?_ hpop hr (by simp [Separator.step, PctSeparateFsm.step, headerHere_of_quiet hq])
      rw [state_of_idle ws i hst, hb]
      rfl
    | true =>
      refine .rdPct _ ?_ ⟨?_, ?_, ?_, ?_, ?_⟩
      · rw [state_of_idle ws i hst, hb]
        rfl
      · rw [hpop]
        simp [Separator.step, PctSeparateFsm.step, hst]
      · simp [Separator.step, PctSeparateFsm.step, hst, hr]
      · simp [Separator.step, PctSeparateFsm.step, hst]
      · simp [Separator.step, PctSeparateFsm.step, hst]
      · simp [Separator.step, PctSeparateFsm.step, hst]
  | rdPct j hst hin =>
    have hni : s.fsm.currentState ≠ .idle := by simp [hst]
    have hroom : s.fsm.infifoRdreq i.infifoRdempty → s.fsm.rdCnt < pctLen ws j := by
      intro hr
      refine Nat.lt_of_le_of_ne hin.le fun hall => ?_
      have := hh hst (by rw [hin.popped, hall]; rfl)
      simp [PctSeparateFsm.infifoRdreq, this] at hr
    have hin' := hin.step hs hni hroom
    rw [not_begins hni]
    cases hn : s.fsm.nextState i.infifoRdempty i.pctWrempty with
    | idle => exact absurd hn (not_idle_of_rdPct hst)
    | rdPct => exact .rdPct _ hn hin'
    | rdDone =>
      obtain ⟨hgot, hcnt⟩ := hin.leaves hst hn
      refine .rdDone _ hn hin' ?_ ?_
      · rw [hin.rdCnt_step hni]
        rcases hcnt with hall | ⟨hall, hemp⟩
        · have hr : s.fsm.infifoRdreq i.infifoRdempty = false :=
            Bool.eq_false_iff.2 fun hr => absurd (hroom hr) (by omega)
          rw [hr, hall]
          rfl
        · rw [← hall, PctSeparateFsm.infifoRdreq, hst, hemp]
          rfl
      · rw [hin.wrCnt_step hni]
        omega
  | rdDone j hst hin hall hgot =>
    have hni : s.fsm.currentState ≠ .idle := by simp [hst]
    have hr : s.fsm.infifoRdreq i.infifoRdempty = false := by simp [PctSeparateFsm.infifoRdreq, hst]
    have hin' := hin.step (i := i) hs hni (by simp [hr])
    rw [not_begins hni]
    by_cases hw : i.pctWrempty
    · refine .idle _ ?_ ?_ hr ?_
      · simp [Separator.step, PctSeparateFsm.step, PctSeparateFsm.nextState, hst, hw]
      · rw [hin'.popped]
        simp only [Separator.step, PctSeparateFsm.step, if_neg hni, hr, hall]
        rfl
      · exact headerHere_of_pos hgot
    · refine .rdDone _ ?_ hin' ?_ ?_
      · simp [Separator.step, PctSeparateFsm.step, PctSeparateFsm.nextState, hst, hw]
      · rw [hin.rdCnt_step hni, hr, hall]
        rfl
      · rw [hin.wrCnt_step hni]
        omega

/-- Packet headers announced, this clock's included. -/
def announced (s : Separator) (k : Nat) : Nat :=
  if s.fsm.currentState = .rdPct ∧ s.fsm.wrCnt = 0 then k - 1 else k

theorem wr_step (s : Separator) (i : SepIn) : (s.step ws i).wr =
    if s.fsm.infifoRdreq i.infifoRdempty then [ws s.popped] else [] := by
  cases hr : s.fsm.infifoRdreq i.infifoRdempty <;>
    simp [wr, Separator.step, PctSeparateFsm.step, hr]

theorem hdr_step (s : Separator) (i : SepIn) : (s.step ws i).hdr =
    if s.fsm.headerHere then [s.infifoData] else [] := by
  cases hh : s.fsm.headerHere <;> simp [hdr, Separator.step, PctSeparateFsm.step, hh]

/-- A word read is written in the next clock. -/
theorem wr_read {l : List Word128} (h : l = firstWords ws s.popped) :
    l ++ (s.step ws i).wr = firstWords ws (s.step ws i).popped := by
  rw [wr_step, h]
  cases hr : s.fsm.infifoRdreq i.infifoRdempty with
  | false => simp [Separator.step, hr]
  | true => simp [Separator.step, hr, firstWords_succ]

/-- The header of the packet is announced once, two clocks after its word was read. -/
theorem Phase.hdr_step (h : Phase ws s k) (hs : Shown ws s) :
    firstWords (heads packetWords ws) (s.announced k) ++ (s.step ws i).hdr =
      firstWords (heads packetWords ws)
        ((s.step ws i).announced (if s.begins i then k + 1 else k)) := by
  rw [Separator.hdr_step]
  cases h with
  | idle _ hst hp hq hv =>
    rw [headerHere_of_quiet hq]
    cases hb : s.begins i with
    | false =>
      have hst' := state_of_idle ws i hst
      rw [hb] at hst'
      simp [announced, hst, hst']
    | true =>
      have hst' := state_of_idle ws i hst
      rw [hb] at hst'
      have hwr' : (s.step ws i).fsm.wrCnt = 0 := by
        simp [Separator.step, PctSeparateFsm.step, hst]
      simp [announced, hst, hst', hwr']
  | rdPct j hst hin =>
    have hni : s.fsm.currentState ≠ .idle := by simp [hst]
    rw [not_begins hni]
    have hwr := hin.wrCnt_step (i := i) hni
    by_cases hh : s.fsm.headerHere
    · have hw := hh
      simp only [PctSeparateFsm.headerHere, Bool.and_eq_true, beq_iff_eq] at hw
      have hwr' : (s.step ws i).fsm.wrCnt = 1 := by rw [hwr, hw.1, hw.2]; rfl
      rw [if_pos hh, hin.head hs hh]
      simp [announced, hst, hw.1, hwr', firstWords_succ]
    · rw [if_neg hh, List.append_nil]
      by_cases h0 : s.fsm.wrCnt = 0
      · have hd : s.fsm.infifoDataValid = false := by
          simpa [PctSeparateFsm.headerHere, h0] using hh
        have hwr' : (s.step ws i).fsm.wrCnt = 0 := by rw [hwr, h0, hd]; rfl
        have hst' : (s.step ws i).fsm.currentState = .rdPct := by
          show s.fsm.nextState i.infifoRdempty i.pctWrempty = _
          cases hn : s.fsm.nextState i.infifoRdempty i.pctWrempty with
          | rdPct => rfl
          | rdDone => exact absurd (hin.leaves hst hn).1 (by omega)
          | idle => exact absurd hn (not_idle_of_rdPct hst)
        simp [announced, hst, h0, hst', hwr']
      · have hwr' : (s.step ws i).fsm.wrCnt ≠ 0 := by omega
        simp [announced, h0, hwr']
  | rdDone j hst hin hall hgot =>
    have hni : s.fsm.currentState ≠ .idle := by simp [hst]
    rw [not_begins hni, headerHere_of_pos hgot]
    have hwr' : (s.step ws i).fsm.wrCnt ≠ 0 := by rw [hin.wrCnt_step hni]; omega
    simp [announced, hst, hwr']

/-! ### A run -/

section

variable (ws : Nat → Word128) (x : Nat → SepIn)

theorem shown (n : Nat) : Shown ws ((separator ws).state x n) := by
  cases n with
  | zero => exact ⟨rfl, nofun⟩
  | succ n => exact .step _ _

theorem written_eq (n : Nat) : written ws x n ++ ((separator ws).state x n).wr =
    firstWords ws ((separator ws).state x n).popped := by
  induction n with
  | zero => rfl
  | succ n ih =>
    rw [written_succ]
    exact wr_read ih

variable {ws x}

theorem phase (h : ∀ n, ((separator ws).state x n).Held ws (x n) (begun ws x n)) (n : Nat) :
    Phase ws ((separator ws).state x n) (begun ws x n) := by
  induction n with
  | zero => exact .idle 0 rfl rfl rfl rfl
  | succ n ih => exact ih.step (shown ws x n) (h n)

theorem headers_eq (h : ∀ n, ((separator ws).state x n).Held ws (x n) (begun ws x n)) (n : Nat) :
    headers ws x n ++ ((separator ws).state x n).hdr =
      firstWords (heads packetWords ws)
        (((separator ws).state x n).announced (begun ws x n)) := by
  induction n with
  | zero => rfl
  | succ n ih =>
    rw [headers_succ, ih]
    exact (phase h n).hdr_step (shown ws x n)

end

end Separator

/-- Clock `n` of a reader that takes one packet at a time. -/
structure OneAtATime (ws : Nat → Word128) (x : Nat → SepIn) (n : Nat) : Prop where
  /-- Only words of packets whose cycle has begun are read. -/
  within : ((separator ws).state x n).popped ≤ pctStart ws (begun ws x n)
  /-- Outside `rd_pct` all their words have been read. -/
  whole : ((separator ws).state x n).fsm.currentState ≠ .rdPct →
    ((separator ws).state x n).popped = pctStart ws (begun ws x n)
  /-- Every word read has been written once and in order, or is being written. -/
  written : written ws x n ++ ((separator ws).state x n).wr =
    firstWords ws ((separator ws).state x n).popped
  /-- Every header but that of the packet being read has been announced once, or is. -/
  headers : ∃ a, headers ws x n ++ ((separator ws).state x n).hdr =
      firstWords (heads packetWords ws) a ∧ a ≤ begun ws x n ∧
      (a ≠ begun ws x n → ((separator ws).state x n).fsm.currentState = .rdPct)
  /-- A cycle begins with everything written, every header announced and the packet FIFO empty. -/
  begins : begun ws x (n + 1) ≠ begun ws x n → (x n).pctWrempty = true ∧
    Tx.written ws x n = firstWords ws (pctStart ws (begun ws x n)) ∧
    Tx.headers ws x n = firstWords (heads packetWords ws) (begun ws x n)

namespace Separator

variable {ws : Nat → Word128} {x : Nat → SepIn}

theorem oneAtATime (h : ∀ n, ((separator ws).state x n).Held ws (x n) (begun ws x n)) (n : Nat) :
    OneAtATime ws x n := by
  have hph := phase h n
  have hhd := headers_eq h n
  have hwr := written_eq ws x n
  refine ⟨?_, ?_, hwr, ⟨_, hhd, ?_, ?_⟩, ?_⟩
  · generalize begun ws x n = k at hph
    cases hph with
    | idle _ hst hp hq hv => exact Nat.le_of_eq hp
    | rdPct j hst hin => rw [hin.popped]; exact Nat.add_le_add_left hin.le _
    | rdDone j hst hin hall hgot => rw [hin.popped, hall]; exact Nat.le_refl _
  · intro hni
    generalize begun ws x n = k at hph
    cases hph with
    | idle _ hst hp hq hv => exact hp
    | rdPct j hst hin => exact absurd hst hni
    | rdDone j hst hin hall hgot => rw [hin.popped, hall]; rfl
  · unfold announced
    split
    · exact Nat.sub_le _ _
    · exact Nat.le_refl _
  · unfold announced
    split
    · exact fun _ => (‹_ ∧ _›).1
    · exact fun hne => absurd rfl hne
  · intro hb
    have hbeg : ((separator ws).state x n).begins (x n) = true := by
      rw [begun_succ] at hb
      split at hb
      · assumption
      · exact absurd rfl hb
    have hst : ((separator ws).state x n).fsm.currentState = .idle := by
      refine Decidable.of_not_not fun hni => ?_
      rw [not_begins hni] at hbeg
      cases hbeg
    rw [begins_of_idle hst, Bool.and_eq_true] at hbeg
    have hann : ((separator ws).state x n).announced (begun ws x n) = begun ws x n := by
      simp [announced, hst]
    rw [hann] at hhd
    generalize begun ws x n = k at hph hhd
    cases hph with
    | idle _ _ hp hq hv =>
      rw [wr, (shown ws x n).wrreq, hq, if_neg (by decide), List.append_nil, hp] at hwr
      rw [hdr, hv, if_neg (by decide), List.append_nil] at hhd
      exact ⟨hbeg.2, hwr, hhd⟩
    | rdPct j hst' hin => rw [hst] at hst'; cases hst'
    | rdDone j hst' hin hall hgot => rw [hst] at hst'; cases hst'

/-- A word read once the packet is over belongs to the next packet. -/
theorem held_of_within (h : ∀ n, ((separator ws).state x n).popped ≤ pctStart ws (begun ws x n))
    (n : Nat) : ((separator ws).state x n).Held ws (x n) (begun ws x n) := by
  intro hst hp
  refine Decidable.of_not_not fun hemp => ?_
  have hn := h (n + 1)
  have hni : ((separator ws).state x n).fsm.currentState ≠ .idle := by simp [hst]
  have hr : ((separator ws).state x n).fsm.infifoRdreq (x n).infifoRdempty = true := by
    simpa [PctSeparateFsm.infifoRdreq, hst] using hemp
  have hpop : ((separator ws).state x (n + 1)).popped = ((separator ws).state x n).popped + 1 :=
    if_pos hr
  rw [begun_succ, not_begins hni, hpop, hp] at hn
  exact absurd hn (by simp)

/-! ### Packets of three words and more -/

/-- The length of a packet of three words is known before its last word is read. -/
theorem Inside.stays (h : Inside ws s j) (hlong : 3 ≤ pctLen ws j)
    (hst : s.fsm.currentState = .rdPct) (hlt : s.fsm.rdCnt < pctLen ws j)
    (hn : s.fsm.nextState i.infifoRdempty i.pctWrempty = .rdPct) :
    (s.step ws i).fsm.rdCnt < pctLen ws j := by
  have hlen : pctLen ws j ≤ 4096 := packetWords_le _
  have hv := Bool.toNat_le s.fsm.infifoDataValid
  have hr := Bool.toNat_le (s.fsm.infifoRdreq i.infifoRdempty)
  have hback := h.back
  rw [h.rdCnt_step (by simp [hst])]
  by_cases h0 : s.fsm.wrCnt = 0
  · omega
  · simp only [PctSeparateFsm.nextState, hst] at hn
    rw [h.known (Nat.pos_of_ne_zero h0), dec16_of_pos (by omega) (by omega)] at hn
    split at hn
    · omega
    · split at hn
      · rename_i hlast
        have hno : s.fsm.infifoRdreq i.infifoRdempty = false := by
          simp [PctSeparateFsm.infifoRdreq, hlast.2]
        rw [hno]
        exact hlt
      · cases hn

theorem Phase.held (h : Phase ws s k)
    (hlt : s.fsm.currentState = .rdPct → ∀ j, k = j + 1 → s.fsm.rdCnt < pctLen ws j) :
    s.Held ws i k := by
  intro hst hp
  cases h with
  | idle _ hst' _ _ _ => rw [hst] at hst'; cases hst'
  | rdPct j _ hin =>
    rw [hin.popped] at hp
    have hall : s.fsm.rdCnt = pctLen ws j := Nat.add_left_cancel hp
    exact absurd (hlt hst j rfl) (by omega)
  | rdDone j hst' _ _ _ => rw [hst] at hst'; cases hst'

theorem phase_of_long (hlong : ∀ k, 3 ≤ pctLen ws k) (n : Nat) :
    Phase ws ((separator ws).state x n) (begun ws x n) ∧
      (((separator ws).state x n).fsm.currentState = .rdPct → ∀ j, begun ws x n = j + 1 →
        ((separator ws).state x n).fsm.rdCnt < pctLen ws j) := by
  induction n with
  | zero => exact ⟨.idle 0 rfl rfl rfl rfl, nofun⟩
  | succ n ih =>
    obtain ⟨hph, hlt⟩ := ih
    refine ⟨hph.step (shown ws x n) (hph.held hlt), fun hst' => ?_⟩
    rw [begun_succ]
    generalize begun ws x n = k at hph hlt
    cases hph with
    | idle _ hst hp hq hv =>
      intro j _
      show (if _ = SepState.idle then 0 else _) < _
      rw [if_pos hst]
      have := hlong j
      omega
    | rdPct i hst hin =>
      intro j hj
      rw [not_begins (by simp [hst])] at hj
      obtain rfl : i = j := Nat.succ.inj hj
      exact hin.stays (hlong i) hst (hlt hst i rfl) hst'
    | rdDone i hst hin hall hgot =>
      have : ((separator ws).state x n).fsm.nextState (x n).infifoRdempty (x n).pctWrempty =
        .rdPct := hst'
      simp only [PctSeparateFsm.nextState, hst] at this
      split at this <;> cases this

/-- Packets of three words and more are separated, whatever the FIFOs do. -/
theorem held_of_long (hlong : ∀ k, 3 ≤ pctLen ws k) (n : Nat) :
    ((separator ws).state x n).Held ws (x n) (begun ws x n) :=
  (phase_of_long hlong n).1.held (phase_of_long hlong n).2

theorem long_of_size {w : Word128} (h : w.sizeField = 0 ∨ 32 ≤ w.sizeField) :
    3 ≤ packetWords w := by
  unfold packetWords
  split
  · decide
  · show 3 ≤ _ + 1
    omega

end Separator

/-- `pct_separate_fsm` takes one packet at a time exactly in the runs in which the input FIFO has
    no word ready in the clocks that pass between the last read of a short packet and `rd_done`. -/
theorem one_packet_at_a_time (ws : Nat → Word128) (x : Nat → SepIn) :
    (∀ n, OneAtATime ws x n) ↔
      ∀ n, ((separator ws).state x n).Held ws (x n) (begun ws x n) :=
  ⟨fun h => Separator.held_of_within fun n => (h n).within, fun h => Separator.oneAtATime h⟩

/-- A packet without payload words in a full FIFO: three words are read for one. -/
theorem one_packet_at_a_time_short :
    ¬ ∀ (ws : Nat → Word128) (x : Nat → SepIn) (n : Nat), OneAtATime ws x n := by
  intro h
  have h4 := (h (fun _ => 0x100) (fun _ => ⟨false, true⟩) 4).within
  exact absurd h4 (by decide)

end Tx
