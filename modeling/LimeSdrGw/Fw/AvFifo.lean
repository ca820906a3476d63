import LimeSdrGw.Clocked.Machine
import LimeSdrGw.Clocked.Fifo
/-
# The command FIFO and the main loop of `lms_ctr_app`

The main loop asks once whether the input FIFO is empty and, when it is not, reads 64 bytes. The
unit of time is one access to the registers of `avfifo`; between two of them any number of bytes may
come from the host.

| here | there |
| --- | --- |
| `iord1`, `iord2Empty` | reading address 01 and bit 0 of address 10 (avfifo.vhd:72-118) |
| `MainLoop.access`     | the status test and `getFifoData(glEp0Buffer_Rx, 64)` (main.c:92-100, 375-379) |
| `MainLoop.processed`  | the packet that the command switch (main.c:381 on) gets to see |

The command switch and the response leave the input FIFO alone and take no step of their own.
-/
namespace Fw

open Clocked

/-- Bytes of a command packet. -/
abbrev pktSize : Nat := 64

/-- A read of the data register pops the FIFO unless it is empty, and shows `q`. -/
def iord1 (f : Fifo UInt8) : UInt8 × Fifo UInt8 :=
  match f.items with
  | b :: rest => (b, ⟨rest, b⟩)
  | [] => (f.q, f)

/-- Bit 0 of the status register. -/
def iord2Empty (f : Fifo UInt8) : Bool := f.items.isEmpty

/-- The next register access of the main loop. -/
inductive Place
  | status
  /-- `IORD(AV_FIFO_INT_0_BASE, 1)` in the loop of `getFifoData`. -/
  | data (cnt : Nat)
deriving DecidableEq, Repr

structure MainLoop where
  place : Place
  /-- As far as it has been filled for this packet. -/
  glEp0BufferRx : List UInt8
  inFifo : Fifo UInt8
  /-- Bytes that have come from the host. -/
  sent : Nat
deriving DecidableEq, Repr

namespace MainLoop

def init : MainLoop := ⟨.status, [], .empty 0, 0⟩

/-- `k` more bytes come from the host. -/
def arrive (host : Nat → UInt8) (s : MainLoop) (k : Nat) : MainLoop :=
  { s with
    inFifo := { s.inFifo with items := s.inFifo.items ++ (List.range' s.sent k).map host }
    sent := s.sent + k }

/-- One access to the FIFO registers. -/
def access (s : MainLoop) : MainLoop :=
  match s.place with
  | .status => if iord2Empty s.inFifo then s else { s with place := .data 0, glEp0BufferRx := [] }
  | .data cnt =>
    { s with
      place := if cnt + 1 < pktSize then .data (cnt + 1) else .status
      glEp0BufferRx := s.glEp0BufferRx ++ [(iord1 s.inFifo).1]
      inFifo := (iord1 s.inFifo).2 }

/-- The packet complete with this access, if any. -/
def complete (s : MainLoop) : List (List UInt8) :=
  match s.place with
  | .status => []
  | .data cnt => if cnt + 1 < pktSize then [] else [s.glEp0BufferRx ++ [(iord1 s.inFifo).1]]

def step (host : Nat → UInt8) (s : MainLoop) (k : Nat) : MainLoop := (s.arrive host k).access

def processed (host : Nat → UInt8) (s : MainLoop) (k : Nat) : List (List UInt8) :=
  (s.arrive host k).complete

/-- The host sends the bytes `host 0`, `host 1`, …; the input is the number that comes before each
    access. -/
def machine (host : Nat → UInt8) : Machine MainLoop Nat := ⟨init, step host⟩

end MainLoop

open MainLoop

section run

variable (host : Nat → UInt8) (x : Nat → Nat) (n : Nat)

abbrev mainAt : MainLoop := (machine host).state x n

/-- The packets handed to the command switch before access `n`. -/
def packets : List (List UInt8) := (machine host).log (processed host) x n

/-- Host bytes `64 k .. 64 k + 63`. -/
def chunk (k : Nat) : List UInt8 := (List.range' (pktSize * k) pktSize).map host

/-- Every packet processed so far is the one the host sent. -/
def Framed : Prop := ∀ k p, (packets host x n)[k]? = some p → p = chunk host k

/-- Access `n` is no read of the data register while the FIFO is empty. -/
def Supplied : Prop :=
  ∀ cnt, (mainAt host x n).place = .data cnt → ((mainAt host x n).arrive host (x n)).inFifo.items ≠ []

end run

/-! ## While the FIFO keeps up -/

/-- Where the main loop is in the packet. -/
def Place.cnt : Place → Nat
  | .status => 0
  | .data cnt => cnt

/-- The FIFO holds the host's bytes from number `popped` on. -/
structure Holds (host : Nat → UInt8) (s : MainLoop) (popped : Nat) : Prop where
  items : s.inFifo.items = (List.range' popped (s.sent - popped)).map host
  le : popped ≤ s.sent
  q : 0 < popped → s.inFifo.q = host (popped - 1)

/-- The loop stands at a packet boundary of the host's stream, or within the packet that began
    there. -/
structure Aligned (host : Nat → UInt8) (s : MainLoop) (ps : List (List UInt8)) : Prop where
  holds : Holds host s (pktSize * ps.length + s.place.cnt)
  packets : ps = (List.range ps.length).map (chunk host)
  lt : s.place.cnt < pktSize
  buf : ∀ cnt, s.place = .data cnt →
    s.glEp0BufferRx = (List.range' (pktSize * ps.length) cnt).map host
  first : s.place = .data 0 → s.inFifo.items ≠ []

section aligned

variable {host : Nat → UInt8} {s : MainLoop} {ps : List (List UInt8)} {k popped : Nat}

theorem Holds.arrive (h : Holds host s popped) : Holds host (s.arrive host k) popped where
  items := by
    have hs : s.sent + k - popped = (s.sent - popped) + k := by have := h.le; omega
    have hp : s.sent = popped + (s.sent - popped) := by have := h.le; omega
    show s.inFifo.items ++ (List.range' s.sent k).map host = _
    rw [h.items, ← List.map_append]
    show _ = (List.range' popped (s.sent + k - popped)).map host
    rw [hs, ← List.range'_append_1, ← hp]
  le := Nat.le_trans h.le (Nat.le_add_right _ _)
  q := h.q

/-- A read of the non-empty FIFO takes the next byte of the host. -/
theorem Holds.iord1 (h : Holds host s popped) (hne : s.inFifo.items ≠ []) :
    iord1 s.inFifo =
      (host popped, ⟨(List.range' (popped + 1) (s.sent - (popped + 1))).map host, host popped⟩) ∧
    popped < s.sent := by
  have hlt : popped < s.sent := by
    apply Nat.lt_of_le_of_ne h.le
    intro he
    apply hne
    rw [h.items, he, Nat.sub_self]
    rfl
  refine ⟨?_, hlt⟩
  have hi : s.inFifo.items =
      host popped :: (List.range' (popped + 1) (s.sent - (popped + 1))).map host := by
    rw [h.items, show s.sent - popped = (s.sent - (popped + 1)) + 1 by omega, List.range'_succ]
    rfl
  unfold Fw.iord1
  rw [hi]

/-- A read of the empty FIFO shows the byte before once more. -/
theorem Holds.iord1_empty (h : Holds host s popped) (hp : 0 < popped) (he : s.inFifo.items = []) :
    (Fw.iord1 s.inFifo).1 = host (popped - 1) := by
  unfold Fw.iord1
  rw [he]
  exact h.q hp

theorem Aligned.arrive (h : Aligned host s ps) : Aligned host (s.arrive host k) ps where
  holds := h.holds.arrive
  packets := h.packets
  lt := h.lt
  buf := h.buf
  first hp := by
    intro he
    exact h.first hp (List.append_eq_nil_iff.1 he).1

/-- One access that does not read an empty FIFO. -/
theorem Aligned.access (h : Aligned host s ps)
    (supplied : ∀ cnt, s.place = .data cnt → s.inFifo.items ≠ []) :
    Aligned host s.access (ps ++ s.complete) := by
  have hh := h.holds
  have hlt := h.lt
  cases hp : s.place with
  | status =>
    rw [hp] at hh hlt
    unfold MainLoop.access MainLoop.complete
    rw [hp]
    dsimp only
    rw [List.append_nil]
    split
    · exact h
    next he =>
      refine ⟨⟨hh.items, hh.le, hh.q⟩, h.packets, hlt, ?_, ?_⟩
      · intro cnt hc
        obtain rfl := Place.data.inj hc
        rfl
      · intro _ hnil
        apply he
        rw [iord2Empty]
        exact List.isEmpty_iff.2 hnil
  | data cnt =>
    rw [hp] at hh hlt
    obtain ⟨hr, hs⟩ := hh.iord1 (supplied cnt hp)
    have hbuf := h.buf cnt hp
    have hbuf' : s.glEp0BufferRx ++ [host (pktSize * ps.length + cnt)] =
        (List.range' (pktSize * ps.length) (cnt + 1)).map host := by
      rw [hbuf, List.range'_concat, List.map_append]
      simp
    unfold MainLoop.access MainLoop.complete
    rw [hp]
    dsimp only
    rw [hr]
    dsimp only [Place.cnt] at hs hlt ⊢
    by_cases hc : cnt + 1 < pktSize
    · simp only [hc, if_true, List.append_nil]
      refine ⟨⟨rfl, hs, fun _ => rfl⟩, h.packets, hc, ?_, nofun⟩
      intro c hcc
      obtain rfl := Place.data.inj hcc
      exact hbuf'
    · -- the last byte: the packet is handed on and the next one begins where it ended
      have hc' : cnt + 1 = pktSize := by omega
      simp only [hc, if_false]
      have hlen : pktSize * ps.length + (cnt + 1) =
          pktSize * (ps ++ [s.glEp0BufferRx ++ [host (pktSize * ps.length + cnt)]]).length := by
        rw [List.length_append, List.length_singleton, hc', Nat.mul_add, Nat.mul_one]
      refine ⟨⟨?_, ?_, ?_⟩, ?_, Nat.zero_lt_succ _, nofun, nofun⟩
      · rw [← hlen]; rfl
      · rw [← hlen]; exact hs
      · intro _
        rw [← hlen]; rfl
      · rw [List.length_append, List.length_singleton, List.range_succ, List.map_append,
          ← h.packets, List.map_singleton, hbuf', hc']
        rfl

end aligned

section run

variable {host : Nat → UInt8} {x : Nat → Nat} {n : Nat}

theorem aligned (h : ∀ m, m < n → Supplied host x m) :
    Aligned host (mainAt host x n) (packets host x n) := by
  induction n with
  | zero =>
    refine ⟨⟨rfl, Nat.le_refl 0, nofun⟩, rfl, Nat.zero_lt_succ _, nofun, nofun⟩
  | succ n ih =>
    have ha := (ih fun m hm => h m (Nat.lt_succ_of_lt hm)).arrive (k := x n)
    exact ha.access (h n (Nat.lt_succ_self n))

/-- As long as the FIFO keeps up, every packet is the host's. -/
theorem framed_of_supplied (h : ∀ m, m < n → Supplied host x m) : Framed host x n := by
  intro k p hk
  have ha := (aligned h).packets
  have hlt : k < (packets host x n).length := (List.getElem?_eq_some_iff.1 hk).1
  rw [ha, List.getElem?_map, List.getElem?_range hlt] at hk
  exact (Option.some.inj hk).symm

/-! ## When it does not -/

/-- A packet once begun is handed on 64 reads later, and contains what has been read. -/
theorem completes {cnt : Nat} (hp : (mainAt host x n).place = .data cnt) (hlt : cnt < pktSize) :
    ∃ p m, packets host x m = packets host x n ++ [p] ∧
      (mainAt host x n).glEp0BufferRx ++
        [(iord1 ((mainAt host x n).arrive host (x n)).inFifo).1] <+: p := by
  generalize hd : pktSize - 1 - cnt = d
  induction d generalizing n cnt with
  | zero =>
    have hc : ¬ cnt + 1 < pktSize := by omega
    refine ⟨_, n + 1, ?_, List.prefix_rfl⟩
    show packets host x n ++ ((mainAt host x n).arrive host (x n)).complete = _
    unfold MainLoop.complete MainLoop.arrive
    rw [hp]
    simp only [hc, if_false]
  | succ d ih =>
    have hc : cnt + 1 < pktSize := by omega
    have hnone : ((mainAt host x n).arrive host (x n)).complete = [] := by
      unfold MainLoop.complete MainLoop.arrive
      rw [hp]
      simp only [hc, if_true]
    have hacc : (mainAt host x (n + 1)).place = .data (cnt + 1) ∧
        (mainAt host x (n + 1)).glEp0BufferRx = (mainAt host x n).glEp0BufferRx ++
          [(iord1 ((mainAt host x n).arrive host (x n)).inFifo).1] := by
      show ((mainAt host x n).arrive host (x n)).access.place = _ ∧
        ((mainAt host x n).arrive host (x n)).access.glEp0BufferRx = _
      unfold MainLoop.access
      rw [show ((mainAt host x n).arrive host (x n)).place = .data cnt from hp]
      dsimp only
      rw [if_pos hc]
      exact ⟨rfl, rfl⟩
    obtain ⟨p, m, hm, hpre⟩ := ih hacc.1 hc (by omega)
    refine ⟨p, m, ?_, ?_⟩
    · have hlog : packets host x (n + 1) = packets host x n := by
        show packets host x n ++ ((mainAt host x n).arrive host (x n)).complete = _
        rw [hnone, List.append_nil]
      rw [hm, hlog]
    · rw [hacc.2] at hpre
      exact (List.prefix_append _ _).trans hpre

/-- What the loop does depends on how many bytes there are, not on which. -/
theorem control (host host' : Nat → UInt8) (x : Nat → Nat) (n : Nat) :
    (mainAt host x n).place = (mainAt host' x n).place ∧
    (mainAt host x n).inFifo.items.length = (mainAt host' x n).inFifo.items.length ∧
    (mainAt host x n).sent = (mainAt host' x n).sent ∧
    (packets host x n).length = (packets host' x n).length := by
  induction n with
  | zero => exact ⟨rfl, rfl, rfl, rfl⟩
  | succ n ih =>
    obtain ⟨hp, hi, hs, hk⟩ := ih
    have hlen : ((mainAt host x n).arrive host (x n)).inFifo.items.length =
        ((mainAt host' x n).arrive host' (x n)).inFifo.items.length := by
      simp [MainLoop.arrive, hi]
    have hempty : ((mainAt host x n).arrive host (x n)).inFifo.items.isEmpty =
        ((mainAt host' x n).arrive host' (x n)).inFifo.items.isEmpty := by
      rw [Bool.eq_iff_iff, List.isEmpty_iff_length_eq_zero, List.isEmpty_iff_length_eq_zero, hlen]
    have hread : ∀ f f' : Fifo UInt8, f.items.length = f'.items.length →
        (iord1 f).2.items.length = (iord1 f').2.items.length := by
      intro f f' hf
      unfold iord1
      cases hl : f.items <;> cases hl' : f'.items <;> simp_all
    have hpa : ((mainAt host x n).arrive host (x n)).place =
      ((mainAt host' x n).arrive host' (x n)).place := hp
    have hsa : ((mainAt host x n).arrive host (x n)).sent =
        ((mainAt host' x n).arrive host' (x n)).sent := by
      show _ + x n = _ + x n
      rw [hs]
    have hlog : ∀ h : Nat → UInt8, packets h x (n + 1) =
      packets h x n ++ ((mainAt h x n).arrive h (x n)).complete := fun _ => rfl
    have hst : ∀ h : Nat → UInt8, mainAt h x (n + 1) = ((mainAt h x n).arrive h (x n)).access :=
      fun _ => rfl
    rw [hlog, hlog, hst, hst]
    generalize (mainAt host x n).arrive host (x n) = s at *
    generalize (mainAt host' x n).arrive host' (x n) = s' at *
    unfold MainLoop.access MainLoop.complete iord2Empty
    rw [← hpa, hempty]
    cases s.place with
    | status =>
      cases s'.inFifo.items.isEmpty
      · exact ⟨rfl, hlen, hsa, by simp [hk]⟩
      · exact ⟨hpa, hlen, hsa, by simp [hk]⟩
    | data cnt =>
      refine ⟨rfl, hread _ _ hlen, hsa, ?_⟩
      dsimp only
      split <;> simp [hk]

/-- A read of the empty FIFO makes the packet show one byte of the host in the place of the next. -/
theorem repeats_of_starved (h : ∀ m, m < n → Supplied host x m) {cnt : Nat}
    (hp : (mainAt host x n).place = .data cnt)
    (he : ((mainAt host x n).arrive host (x n)).inFifo.items = [])
    (framed : ∀ m, Framed host x m) :
    0 < cnt ∧ host (pktSize * (packets host x n).length + cnt) =
      host (pktSize * (packets host x n).length + cnt - 1) := by
  have ha := aligned h
  have haa := ha.arrive (k := x n)
  have hlt : cnt < pktSize := by
    have h := ha.lt
    rwa [hp] at h
  have hbuf := ha.buf cnt hp
  have hpos : 0 < cnt := by
    apply Nat.pos_of_ne_zero
    rintro rfl
    exact haa.first hp he
  have hh := haa.holds
  have hpl : ((mainAt host x n).arrive host (x n)).place.cnt = cnt := congrArg Place.cnt hp
  rw [hpl] at hh
  have hq := hh.iord1_empty (by omega) he
  obtain ⟨p, m, hm, hpre⟩ := completes hp hlt
  rw [hq] at hpre
  have hget : (packets host x m)[(packets host x n).length]? = some p := by
    rw [hm, List.getElem?_append_right (Nat.le_refl _), Nat.sub_self]
    rfl
  have hpc := framed m _ p hget
  refine ⟨hpos, ?_⟩
  -- byte `cnt` of the packet, as the host sent it and as it was read
  have hsent : p[cnt]? = some (host (pktSize * (packets host x n).length + cnt)) := by
    rw [hpc, chunk, List.getElem?_map, List.getElem?_range' hlt]
    simp
  have hread : p[cnt]? = some (host (pktSize * (packets host x n).length + cnt - 1)) := by
    obtain ⟨t, rfl⟩ := hpre
    have hl : (mainAt host x n).glEp0BufferRx.length = cnt := by
      rw [hbuf, List.length_map, List.length_range']
    rw [List.append_assoc, List.getElem?_append_right (by omega), hl, Nat.sub_self]
    rfl
  exact Option.some.inj (hsent.symm.trans hread)

end run

/-- Command framing: whatever the bytes are, every packet is the host's exactly when no read of the
    data register finds the FIFO empty. -/
theorem command_framing_iff (x : Nat → Nat) :
    (∀ host n, Framed host x n) ↔ ∀ host n, Supplied host x n := by
  constructor
  · intro framed
    have key : ∀ n host, Supplied host x n := by
      intro n
      induction n using Nat.strongRecOn with
      | ind n ih =>
        intro host cnt hp he
        -- bytes that tell the place in question from the one before it
        let host' : Nat → UInt8 := fun i => if i = pktSize * (packets host x n).length + cnt then 1 else 0
        obtain ⟨hpl, hlen, hsent, hpk⟩ := control host host' x n
        have he' : ((mainAt host' x n).arrive host' (x n)).inFifo.items = [] := by
          apply List.length_eq_zero_iff.1
          have hz := congrArg List.length he
          simp only [MainLoop.arrive, List.length_append, List.length_map, List.length_range',
            List.length_nil] at hz ⊢
          omega
        obtain ⟨hpos, hrep⟩ := repeats_of_starved (fun m hm => ih m hm host') (hpl ▸ hp) he'
          (framed host')
        rw [← hpk] at hrep
        have hne : pktSize * (packets host x n).length + cnt - 1 ≠
          pktSize * (packets host x n).length + cnt := by omega
        simp only [host', hne, if_true, if_false] at hrep
        exact absurd hrep (by decide)
    exact fun host n => key n host
  · intro supplied host n
    exact framed_of_supplied fun m _ => supplied host m

/-- The first byte of a packet arrives, the other 63 after its 64 reads. -/
def lateBytes (n : Nat) : Nat := if n = 0 then 1 else if n = 65 then 63 else 0

/-- The first byte is taken for all 64 of them. -/
theorem late_bytes_repeat :
    packets (fun i => UInt8.ofNat (i + 7)) lateBytes 65 = [List.replicate 64 7] ∧
    ¬ Framed (fun i => UInt8.ofNat (i + 7)) lateBytes 65 := by
  have hp : packets (fun i => UInt8.ofNat (i + 7)) lateBytes 65 = [List.replicate 64 7] := by
    decide +kernel
  refine ⟨hp, fun h => ?_⟩
  have h0 := h 0 (List.replicate 64 7) (by rw [hp]; rfl)
  exact absurd h0 (by decide)

end Fw
