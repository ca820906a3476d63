import LimeSdrGw.Nios.SpiTransfer
import Mathlib.Algebra.GroupWithZero.Nat
/-
# The stages of a command

| stage | driver | master |
| --- | --- | --- |
| `slaveSel`, `control`, `discard` | before the loop | at rest, selected from `discard` on |
| `ready`, `tx`                    | one byte may go | at rest |
| `primed`, `shifting`             | polls           | has the byte |
| `stale`, `received`, `rx`        | polls, then reads | has the answer |
| `tmt`, `release`                 | behind the loop | at rest |

The last index of `Stage` counts the accesses and clocks that are still needed: it falls with every
access, and with every clock of a byte.
-/
namespace Nios

open Clocked

namespace Driver

/-- Bytes not yet handed to the master. -/
def left (d : Driver) : Nat := d.writeData.length + d.writeZeros

def toCome (d : Driver) : Nat := (d.todo.map fun c => 500 * c.bytes.length + 20).sum

/-- `sent` has gone out, `got` has come back for it, `flying` is with the master. -/
structure Exchanged (d : Driver) (sent flying : List (BitVec 8)) (got : List Bool) : Prop where
  bytes : d.cmd.bytes = sent ++ flying ++ (d.writeData ++ List.replicate d.writeZeros 0)
  length : got.length = 8 * sent.length
  ignore : d.readIgnore = d.cmd.writeData.length - sent.length
  data : d.readData = packBytes (got.drop (8 * d.cmd.writeData.length))

end Driver

inductive Stage (d : Driver) (s : SpiMaster) : List WireEvent → Nat → Prop
  | idle (hpc : d.pc = .idle) (h2 : d.second = false) (core : s.Rest) (sso : s.ssoReg = false) :
      Stage d s [] d.toCome
  | slaveSel (hpc : d.pc = .slaveSel) (ex : d.Exchanged [] [] []) (hc : d.credits = 1)
      (hl : 0 < d.left) (core : s.Rest) (sso : s.ssoReg = false) :
      Stage d s [] (d.toCome + 500 * d.left + 14 - d.second.toNat)
  | control (hpc : d.pc = .control) (ex : d.Exchanged [] [] []) (hc : d.credits = 1)
      (hl : 0 < d.left) (core : s.Rest) (sso : s.ssoReg = false)
      (holding : s.spiSlaveSelectHoldingReg = 1 <<< d.cmd.slave.val) :
      Stage d s [] (d.toCome + 500 * d.left + 12 - d.second.toNat)
  | discard (hpc : d.pc = .discard) (ex : d.Exchanged [] [] []) (hc : d.credits = 1)
      (hl : 0 < d.left) (core : s.Rest) (sel : Selected s d.cmd) :
      Stage d s [.ss d.cmd.select] (d.toCome + 500 * d.left + 10 - d.second.toNat)
  | ready {sent : List (BitVec 8)} {got : List Bool} (hpc : d.pc = .poll)
      (ex : d.Exchanged sent [] got) (hc : d.credits = 1) (hl : 0 < d.left) (core : s.Rest)
      (sel : Selected s d.cmd)
      (latch : d.second = true → s.dataToCpu &&& 0x40 ≠ 0 ∧ s.dataToCpu &&& 0x80 = 0) :
      Stage d s (.ss d.cmd.select :: rises sent got)
        (d.toCome + 500 * d.left + 8 - d.second.toNat)
  | tx {sent : List (BitVec 8)} {got : List Bool} {b : BitVec 8} (hpc : d.pc = .tx b false)
      (ex : d.Exchanged sent [b] got) (hc : d.credits = 0) (core : s.Rest)
      (sel : Selected s d.cmd) :
      Stage d s (.ss d.cmd.select :: rises sent got)
        (d.toCome + 500 * d.left + 490 - d.second.toNat)
  | primed {sent : List (BitVec 8)} {got : List Bool} {b : BitVec 8} (hpc : d.pc = .poll)
      (ex : d.Exchanged sent [b] got) (hc : d.credits = 0) (core : s.Primed b)
      (sel : Selected s d.cmd) (latch : d.second = true → s.dataToCpu &&& 0x80 = 0) :
      Stage d s (.ss d.cmd.select :: rises sent got) (d.toCome + 500 * d.left + 480)
  | shifting {sent : List (BitVec 8)} {got m : List Bool} {b : BitVec 8} (hpc : d.pc = .poll)
      (ex : d.Exchanged sent [b] got) (hc : d.credits = 0) (core : s.Shifting b m)
      (sel : Selected s d.cmd) (latch : d.second = true → s.dataToCpu &&& 0x80 = 0) :
      Stage d s (.ss d.cmd.select :: rises (sent ++ [b]) (got ++ m))
        (d.toCome + 500 * d.left + 14 + (450 - (25 * s.state + s.slowcount)))
  | stale {sent : List (BitVec 8)} {got m : List Bool} {b : BitVec 8} (hpc : d.pc = .poll)
      (ex : d.Exchanged sent [b] got) (hc : d.credits = 0) (core : s.Received m)
      (sel : Selected s d.cmd) (h2 : d.second = true) (latch : s.dataToCpu &&& 0x80 = 0) :
      Stage d s (.ss d.cmd.select :: rises (sent ++ [b]) (got ++ m))
        (d.toCome + 500 * d.left + 13)
  | received {sent : List (BitVec 8)} {got m : List Bool} {b : BitVec 8} (hpc : d.pc = .poll)
      (ex : d.Exchanged sent [b] got) (hc : d.credits = 0) (core : s.Received m)
      (sel : Selected s d.cmd) (latch : d.second = true → s.dataToCpu &&& 0x80 ≠ 0) :
      Stage d s (.ss d.cmd.select :: rises (sent ++ [b]) (got ++ m))
        (d.toCome + 500 * d.left + 12 - d.second.toNat)
  | rx {sent : List (BitVec 8)} {got m : List Bool} {b : BitVec 8} (hpc : d.pc = .rx)
      (ex : d.Exchanged sent [b] got) (hc : d.credits = 0) (core : s.Received m)
      (sel : Selected s d.cmd) (latch : d.second = true → s.dataToCpu.setWidth 8 = word 8 m) :
      Stage d s (.ss d.cmd.select :: rises (sent ++ [b]) (got ++ m))
        (d.toCome + 500 * d.left + 10 - d.second.toNat)
  | tmt {sent : List (BitVec 8)} {got : List Bool} (hpc : d.pc = .tmt) (ex : d.Exchanged sent [] got)
      (hl : d.left = 0) (core : s.Rest) (sel : Selected s d.cmd)
      (latch : d.second = true → s.dataToCpu &&& 0x20 ≠ 0) :
      Stage d s (.ss d.cmd.select :: rises sent got) (d.toCome + 6 - d.second.toNat)
  | release {sent : List (BitVec 8)} {got : List Bool} (hpc : d.pc = .release)
      (ex : d.Exchanged sent [] got) (hl : d.left = 0) (core : s.Rest) (sel : Selected s d.cmd) :
      Stage d s (.ss d.cmd.select :: rises sent got) (d.toCome + 4 - d.second.toNat)

/-- What a clock may lead to: on with the command, or to its end. -/
def Onward (d : Driver) (log : List WireEvent) (r : Nat) (d' : Driver) (s' : SpiMaster)
    (w : List WireEvent) : Prop :=
  (∃ r', Stage d' s' (log ++ w) r' ∧ r' ≤ r ∧ d'.done = d.done) ∨
    ∃ miso r', Stage d' s' [] r' ∧ r' ≤ r ∧ miso.length = 8 * d.cmd.bytes.length ∧
      log ++ w = d.cmd.transcript miso ∧ d'.done = d.done ++ [(d.cmd, d.cmd.reply miso)]

/-- On, with nothing to be seen. -/
theorem Onward.silent {d d' : Driver} {s' : SpiMaster} {log w : List WireEvent} {r r' : Nat}
    (h : Stage d' s' log r') (hr : r' ≤ r) (hd : d'.done = d.done) (hw : w = []) :
    Onward d log r d' s' w := by
  subst hw
  exact .inl ⟨r', by rw [List.append_nil]; exact h, hr, hd⟩

theorem Onward.mono {d d' : Driver} {s' : SpiMaster} {log w : List WireEvent} {r r' : Nat}
    (h : Onward d log r d' s' w) (hr : r ≤ r') : Onward d log r' d' s' w := by
  rcases h with ⟨q, st, hq, hd⟩ | ⟨m, q, st, hq, rest⟩
  · exact .inl ⟨q, st, Nat.le_trans hq hr, hd⟩
  · exact .inr ⟨m, q, st, Nat.le_trans hq hr, rest⟩

section hold

variable {d : Driver} {s : SpiMaster} {go miso : Bool}

theorem Strobes.none_pending (h : Strobes d.pending s) (h2 : d.second = false) :
    s.wrStrobe = false ∧ s.dataWrStrobe = false ∧ s.dataRdStrobe = false := by
  have hp : d.pending = none := by rw [Driver.pending, h2]; rfl
  rw [hp] at h
  exact ⟨h.wr, h.dataWr, h.dataRd⟩

theorem Strobes.reading {a : BitVec 3} (h : Strobes d.pending s) (h2 : d.second = true)
    (ha : d.pc.access d.cmd.slave = some (.read a)) :
    s.wrStrobe = false ∧ s.dataWrStrobe = false ∧ s.dataRdStrobe = (a == Access.rxdata) := by
  have hp : d.pending = some (.read a) := by
    rw [Driver.pending, h2]
    exact ha
  rw [hp] at h
  exact ⟨h.wr, h.dataWr, h.dataRd⟩

theorem Strobes.writing {a : BitVec 3} {v : BitVec 16} (h : Strobes d.pending s)
    (h2 : d.second = true) (ha : d.pc.access d.cmd.slave = some (.write a v)) :
    s.wrStrobe = true ∧ s.dataWrStrobe = (a == Access.txdata) := by
  have hp : d.pending = some (.write a v) := by
    rw [Driver.pending, h2]
    exact ha
  rw [hp] at h
  exact ⟨h.wr, h.dataWr⟩

theorem Strobes.polling (h : Strobes d.pending s) (hpc : d.pc = .poll) :
    s.wrStrobe = false ∧ s.dataWrStrobe = false := by
  cases h2 : d.second with
  | false => exact ⟨(h.none_pending h2).1, (h.none_pending h2).2.1⟩
  | true =>
    have hread := h.reading h2 (a := Access.status) (by rw [hpc]; rfl)
    exact ⟨hread.1, hread.2.1⟩

/-- What the first clock of a read leaves for the processor. -/
theorem latched {a : BitVec 3} (h2 : d.second = false)
    (ha : d.pc.access d.cmd.slave = some (.read a)) :
    (s.step (d.access true) miso).dataToCpu = s.p1DataToCpu a := by
  rw [Driver.access_hold h2, if_pos rfl, ha]
  rfl

theorem status_trdy : s.p1DataToCpu Access.status &&& 0x40 = 0 ↔ s.trdy = false :=
  trdy_of_status

theorem status_rrdy : s.p1DataToCpu Access.status &&& 0x80 = 0 ↔ s.rrdy = false :=
  rrdy_of_status

theorem status_tmt : s.p1DataToCpu Access.status &&& 0x20 = 0 ↔ s.tmt = false :=
  tmt_of_status

theorem Driver.Exchanged.hold {sent flying : List (BitVec 8)} {got : List Bool} {b : Bool}
    (ex : d.Exchanged sent flying got) : ({ d with second := b } : Driver).Exchanged sent flying got :=
  ⟨ex.bytes, ex.length, ex.ignore, ex.data⟩

/-- With no credit left and no answer there the driver polls again. -/
theorem Driver.step_poll_waits {data : BitVec 16} (hpc : d.pc = .poll) (hc : d.credits = 0)
    (latch : d.second = true → data &&& 0x80 = 0) :
    d.step go data = { d with second := !d.second && go } := by
  cases h2 : d.second with
  | false =>
    rw [Driver.step_hold h2 (by rw [hpc]; exact Pc.noConfusion)]
    rfl
  | true =>
    have hrr : (data &&& 0x80 != 0) = false := by
      rw [latch h2]
      rfl
    have hnext : d.next data = d := by
      rw [Driver.next, hpc]
      simp only [hrr, Driver.poll, hc]
      simp
    rw [Driver.step_next h2, hnext]
    rfl

theorem latch_waits (hpc : d.pc = .poll) (hrr : s.rrdy = false)
    (h : (!d.second && go) = true) :
    (s.step (d.access go) miso).dataToCpu &&& 0x80 = 0 := by
  obtain ⟨hnot, rfl⟩ := Bool.and_eq_true_iff.1 h
  have h2 : d.second = false := by simpa using hnot
  rw [latched h2 (by rw [hpc]; rfl), status_rrdy]
  exact hrr

end hold

/-! ## What a clock shows -/

section silent

variable {s : SpiMaster} {c : SpiCommand} {acc : Option Access} {miso : Bool}

theorem Selected.wire_eq {r : Option (Bool × Bool)} (h : Selected s c) (hn : Neutral s acc)
    (hr : s.risesOn acc miso = r) : s.wire acc miso = r.toList.map fun p => .rise p.1 p.2 :=
  wire_of_same ((h.step hn).ssN.trans h.ssN.symm) hr

theorem wire_of_released (h : s.Rest) (hw : s.dataWrStrobe = false) (hn : Neutral s acc)
    (hs : s.ssoReg = false) : s.wire acc miso = [] := by
  have hs' : (s.step acc miso).ssoReg = false := hn.sso.trans hs
  rw [wire_of_same ((ssN_of_rest (h.step hw) hs').trans (ssN_of_rest h hs).symm) h.quiet]
  rfl

end silent

/-! ## What an access does -/

section next

variable {d : Driver} {s : SpiMaster} {miso : Bool} {sent : List (BitVec 8)} {got m : List Bool}
  {b : BitVec 8} {data : BitVec 16}

/-- The loop takes the next byte that is to go out, of the data or a zero. -/
theorem Driver.next_ready (hpc : d.pc = .poll) (ex : d.Exchanged sent [] got) (hc : d.credits = 1)
    (hl : 0 < d.left) (ht : data &&& 0x40 ≠ 0) (hr : data &&& 0x80 = 0) :
    ∃ b, (d.next data).pc = .tx b false ∧ (d.next data).Exchanged sent [b] got ∧
      (d.next data).credits = 0 ∧ (d.next data).left + 1 = d.left ∧
      (d.next data).cmd = d.cmd ∧ (d.next data).todo = d.todo ∧ (d.next data).done = d.done := by
  have ht' : (data &&& 0x40 != 0) = true := bne_iff_ne.2 ht
  have hr' : (data &&& 0x80 != 0) = false := by
    rw [hr]
    rfl
  have hnext : d.next data = d.poll true false := by rw [Driver.next, hpc, ← ht', ← hr']
  rw [hnext, Driver.poll, hc]
  simp only [Bool.not_true, Bool.false_or, Bool.not_false, Bool.and_true, Bool.true_and]
  rw [if_neg (by decide), if_pos (by decide)]
  have hbytes := ex.bytes
  cases hw : d.writeData with
  | cons b bs =>
    rw [hw] at hbytes
    refine ⟨b, rfl, ⟨?_, ex.length, ex.ignore, ex.data⟩, rfl, ?_, rfl, rfl, rfl⟩
    · rw [hbytes]
      simp
    · simp only [Driver.left, hw, List.length_cons]
      omega
  | nil =>
    have hz : 0 < d.writeZeros := by simpa [Driver.left, hw] using hl
    rw [hw] at hbytes
    dsimp only
    rw [if_pos hz]
    refine ⟨0, rfl, ⟨?_, ex.length, ex.ignore, ex.data⟩, rfl, ?_, rfl, rfl, rfl⟩
    · obtain ⟨z, hz'⟩ := Nat.exists_eq_add_of_lt hz
      have hz' : d.writeZeros = z + 1 := by omega
      rw [hbytes, hz']
      simp [List.replicate_succ]
    · simp only [Driver.left, hw, List.length_nil]
      omega

/-- The answer is dropped as long as the command writes, and stored from then on. -/
theorem Driver.store_exchanged (ex : d.Exchanged sent [b] got) (hm : m.length = 8) :
    (d.store (word 8 m)).Exchanged (sent ++ [b]) [] (got ++ m) := by
  have hlen : (got ++ m).length = 8 * (sent ++ [b]).length := by
    rw [List.length_append, ex.length, hm, List.length_append, List.length_singleton, Nat.mul_add]
  have hsent : (sent ++ [b]).length = sent.length + 1 := by simp
  have hig := ex.ignore
  have hgot := ex.length
  rw [Driver.store]
  split
  · refine ⟨?_, hlen, ?_, ?_⟩
    · rw [ex.bytes]
      simp
    · show d.readIgnore - 1 = d.cmd.writeData.length - _
      rw [hsent]
      omega
    · show d.readData = packBytes ((got ++ m).drop (8 * d.cmd.writeData.length))
      rw [ex.data, List.drop_of_length_le (by omega), List.drop_of_length_le (by omega)]
  · have hle : 8 * d.cmd.writeData.length ≤ got.length := by omega
    refine ⟨?_, hlen, ?_, ?_⟩
    · rw [ex.bytes]
      simp
    · show d.readIgnore = d.cmd.writeData.length - _
      rw [hsent]
      omega
    · show d.readData ++ _ = packBytes ((got ++ m).drop (8 * d.cmd.writeData.length))
      have hdrop : (got.drop (8 * d.cmd.writeData.length)).length =
          8 * (sent.length - d.cmd.writeData.length) := by
        rw [List.length_drop]
        omega
      rw [List.drop_append_of_le_length hle, packBytes_append hdrop hm, ← ex.data]

/-- All has come back when all has gone out. -/
theorem Driver.Exchanged.all (ex : d.Exchanged sent [] got) :
    (d.readIgnore = 0 ∧ d.readData.length = d.cmd.readLength) ↔ d.left = 0 := by
  have hbytes := congrArg List.length ex.bytes
  simp only [SpiCommand.bytes, List.length_append, List.length_replicate, List.length_nil] at hbytes
  have hig := ex.ignore
  have hlen := ex.length
  have hdata : d.readData.length = sent.length - d.cmd.writeData.length := by
    rw [ex.data, length_packBytes, List.length_drop]
    omega
  rw [Driver.left, hdata]
  omega

end next

/-! ## Step lemmas -/

section step

variable {d : Driver} {s : SpiMaster} {log : List WireEvent} {r : Nat} {go miso : Bool}

/-- Before the next command. -/
theorem Stage.begins (hpc : d.pc = .idle) (h2 : d.second = false) (core : s.Rest)
    (sso : s.ssoReg = false) (hs : Strobes d.pending s) (hne : ∀ c ∈ d.todo, c.bytes ≠ []) :
    Onward d [] (d.toCome - go.toNat) (d.step go s.dataToCpu) (s.step (d.access go) miso)
      (s.wire (d.access go) miso) := by
  obtain ⟨hwr, hdw, hdr⟩ := hs.none_pending h2
  have hn : Neutral s (d.access go) := .inl hwr
  have hw : s.wire (d.access go) miso = [] := wire_of_released core hdw hn sso
  cases hgo : go with
  | false =>
    have hstep : d.step false s.dataToCpu = d := by rw [Driver.step, h2]; rfl
    rw [hgo] at hw
    rw [hstep]
    exact .silent (.idle hpc h2 (core.step hdw) (Neutral.sso (.inl hwr) |>.trans sso))
      (Nat.le_refl _) rfl hw
  | true =>
    rw [hgo] at hw
    have hsso : (s.step (d.access true) miso).ssoReg = false := (Neutral.sso (.inl hwr)).trans sso
    cases htodo : d.todo with
    | nil =>
      have hstep : d.step true s.dataToCpu = d := by
        rw [Driver.step, h2, hpc, htodo]
        rfl
      rw [hstep]
      have hzero : d.toCome = 0 := by rw [Driver.toCome, htodo]; rfl
      exact .silent (.idle hpc h2 (core.step hdw) hsso) (by omega) rfl hw
    | cons c cs =>
      have hstep : d.step true s.dataToCpu = d.begin c cs := by
        rw [Driver.step, h2, hpc, htodo]
        rfl
      rw [hstep]
      have hlen : c.bytes.length = c.writeData.length + c.readLength := by simp [SpiCommand.bytes]
      have hpos : 0 < c.bytes.length := by
        apply List.length_pos_iff.2
        apply hne
        rw [htodo]
        exact List.mem_cons_self
      refine .silent (.slaveSel rfl ⟨rfl, rfl, rfl, ?_⟩ rfl ?_ (core.step hdw) hsso) ?_ rfl hw
      · rw [List.drop_nil]
        rfl
      · show 0 < c.writeData.length + c.readLength
        omega
      · have hbegin : (d.begin c cs).toCome + 500 * (d.begin c cs).left + 20 = d.toCome := by
          simp only [Driver.toCome, htodo, List.map_cons, List.sum_cons, hlen, Driver.left,
            Driver.begin]
          omega
        have hsec : (d.begin c cs).second.toNat = 0 := by
          show d.second.toNat = 0
          rw [h2]
          rfl
        rw [hsec, Bool.toNat_true]
        omega

/-- The byte goes over to the shift register. -/
theorem Stage.starts {sent : List (BitVec 8)} {got : List Bool} {b : BitVec 8} (hpc : d.pc = .poll)
    (ex : d.Exchanged sent [b] got) (hc : d.credits = 0) (core : s.Primed b) (sel : Selected s d.cmd)
    (latch : d.second = true → s.dataToCpu &&& 0x80 = 0) (hs : Strobes d.pending s) :
    Onward d (.ss d.cmd.select :: rises sent got) (d.toCome + 500 * d.left + 480 - 1)
      (d.step go s.dataToCpu) (s.step (d.access go) miso) (s.wire (d.access go) miso) := by
  obtain ⟨hwr, hdw⟩ := hs.polling hpc
  have hn : Neutral s (d.access go) := .inl hwr
  have hlog : rises sent got = rises (sent ++ [b]) (got ++ []) := by
    rw [List.append_nil, rises_append_sent [b] (Nat.le_of_eq ex.length)]
  rw [Driver.step_poll_waits hpc hc latch, hlog]
  refine .silent (.shifting hpc ex.hold hc (core.step hdw) (sel.step hn)
    (latch_waits hpc core.rrdy)) ?_ rfl (sel.wire_eq hn core.quiet)
  show d.toCome + 500 * d.left + _ + _ ≤ _
  omega

/-- The clocks of a byte, whatever the processor does. -/
theorem Stage.shifts {sent : List (BitVec 8)} {got m : List Bool} {b : BitVec 8} (hpc : d.pc = .poll)
    (ex : d.Exchanged sent [b] got) (hc : d.credits = 0) (core : s.Shifting b m)
    (sel : Selected s d.cmd) (latch : d.second = true → s.dataToCpu &&& 0x80 = 0)
    (hs : Strobes d.pending s) :
    Onward d (.ss d.cmd.select :: rises (sent ++ [b]) (got ++ m))
      (d.toCome + 500 * d.left + 14 + (450 - (25 * s.state + s.slowcount)) - 1)
      (d.step go s.dataToCpu) (s.step (d.access go) miso) (s.wire (d.access go) miso) := by
  obtain ⟨hwr, hdw⟩ := hs.polling hpc
  have hn : Neutral s (d.access go) := .inl hwr
  have hslow := core.slowcount
  have hstate := core.state
  have hlatch : (!d.second && go) = true → (s.step (d.access go) miso).dataToCpu &&& 0x80 = 0 :=
    latch_waits hpc core.rrdy
  have hcount := fun ht => core.step_count (d.access go) miso ht hdw
  rw [Driver.step_poll_waits hpc hc latch]
  rcases core.step (d.access go) miso hdw with
    ⟨core', hq⟩ | ⟨core', hq⟩ | ⟨core', hq⟩
  · refine .silent (.shifting hpc ex.hold hc core' (sel.step hn) hlatch) ?_ rfl (sel.wire_eq hn hq)
    have := hcount core'.transmitting
    show d.toCome + 500 * d.left + _ + _ ≤ _
    omega
  · have hshort : m.length < 8 := by
      have hrises := core'.rises
      have hstate' := core'.state
      rw [List.length_append, List.length_singleton] at hrises
      omega
    have hlog : .ss d.cmd.select :: rises (sent ++ [b]) (got ++ m) ++ s.wire (d.access go) miso =
        .ss d.cmd.select :: rises (sent ++ [b]) (got ++ (m ++ [miso])) := by
      rw [sel.wire_eq hn hq, rises_concat miso ex.length hshort]
      rfl
    refine .inl ⟨_, by rw [hlog]; exact .shifting hpc ex.hold hc core' (sel.step hn) hlatch, ?_, rfl⟩
    have := hcount core'.transmitting
    show d.toCome + 500 * d.left + _ + _ ≤ _
    omega
  · cases hsec : !d.second && go with
    | false =>
      refine .silent (.received hpc ex.hold hc core' (sel.step hn) ?_) ?_ rfl (sel.wire_eq hn hq)
      · exact fun h => Bool.noConfusion h
      · show d.toCome + 500 * d.left + 12 - _ ≤ _
        omega
    | true =>
      refine .silent (.stale hpc ex.hold hc core' (sel.step hn) rfl (hlatch hsec)) ?_ rfl
        (sel.wire_eq hn hq)
      show d.toCome + 500 * d.left + 13 ≤ _
      omega

/-- The answer came while the processor was polling: this poll does not see it yet. -/
theorem Stage.misses {sent : List (BitVec 8)} {got m : List Bool} {b : BitVec 8} (hpc : d.pc = .poll)
    (ex : d.Exchanged sent [b] got) (hc : d.credits = 0) (core : s.Received m)
    (sel : Selected s d.cmd) (h2 : d.second = true) (latch : s.dataToCpu &&& 0x80 = 0)
    (hs : Strobes d.pending s) :
    Onward d (.ss d.cmd.select :: rises (sent ++ [b]) (got ++ m)) (d.toCome + 500 * d.left + 13 - 1)
      (d.step go s.dataToCpu) (s.step (d.access go) miso) (s.wire (d.access go) miso) := by
  obtain ⟨hwr, hdw, hdr⟩ := hs.reading h2 (a := Access.status) (by rw [hpc]; rfl)
  have hn : Neutral s (d.access go) := .inl hwr
  rw [Driver.step_poll_waits hpc hc fun _ => latch]
  refine .silent (.received hpc ex.hold hc (core.step hdw hdr hn.clears) (sel.step hn) ?_) ?_ rfl
    (sel.wire_eq hn core.quiet)
  · rw [h2]
    exact fun h => absurd h (by simp)
  · show d.toCome + 500 * d.left + 12 - _ ≤ _
    omega

/-- The answer is there, and the processor has yet to look. -/
theorem Stage.looks {sent : List (BitVec 8)} {got m : List Bool} {b : BitVec 8} (hpc : d.pc = .poll)
    (ex : d.Exchanged sent [b] got) (hc : d.credits = 0) (core : s.Received m)
    (sel : Selected s d.cmd) (h2 : d.second = false) (hs : Strobes d.pending s) :
    Onward d (.ss d.cmd.select :: rises (sent ++ [b]) (got ++ m))
      (d.toCome + 500 * d.left + 12 - go.toNat) (d.step go s.dataToCpu) (s.step (d.access go) miso)
      (s.wire (d.access go) miso) := by
  obtain ⟨hwr, hdw, hdr⟩ := hs.none_pending h2
  have hn : Neutral s (d.access go) := .inl hwr
  rw [Driver.step_hold h2 (by rw [hpc]; exact Pc.noConfusion)]
  refine .silent (.received hpc ex.hold hc (core.step hdw hdr hn.clears) (sel.step hn) ?_)
    (Nat.le_refl _) rfl (sel.wire_eq hn core.quiet)
  rintro rfl
  rw [latched h2 (by rw [hpc]; rfl), Ne, status_rrdy, core.rrdy]
  exact Bool.noConfusion

theorem Stage.picks (hpc : d.pc = .slaveSel) (ex : d.Exchanged [] [] []) (hc : d.credits = 1)
    (hl : 0 < d.left) (core : s.Rest) (sso : s.ssoReg = false) (h2 : d.second = true)
    (hs : Strobes d.pending s) :
    Onward d [] (d.toCome + 500 * d.left + 14 - 1 - 1) (d.step go s.dataToCpu)
      (s.step (d.access go) miso) (s.wire (d.access go) miso) := by
  have hacc : d.pc.access d.cmd.slave = some (.write Access.slaveSel (1 <<< d.cmd.slave.val)) := by
    rw [hpc]
    rfl
  obtain ⟨hwr, hdw⟩ := hs.writing h2 hacc
  rw [Driver.access_second h2, hacc]
  have hnext : d.next s.dataToCpu = { d with pc := .control } := by rw [Driver.next, hpc]
  have hsso : (s.step (some (.write Access.slaveSel (1 <<< d.cmd.slave.val))) miso).ssoReg = false := by
    simp [SpiMaster.step, Access.addr, Access.slaveSel, Access.control, sso]
  rw [Driver.step_next h2, hnext]
  refine .silent (.control rfl ⟨ex.bytes, ex.length, ex.ignore, ex.data⟩ hc hl (core.step hdw) hsso ?_)
    ?_ rfl ?_
  · simp [SpiMaster.step, Access.addr, Access.dataFromCpu, hwr]
  · exact Nat.le_refl _
  · rw [wire_of_same ((ssN_of_rest (core.step hdw) hsso).trans (ssN_of_rest core sso).symm) core.quiet]
    rfl

/-- The slave is selected. -/
theorem Stage.selects (hpc : d.pc = .control) (ex : d.Exchanged [] [] []) (hc : d.credits = 1)
    (hl : 0 < d.left) (core : s.Rest) (sso : s.ssoReg = false)
    (holding : s.spiSlaveSelectHoldingReg = 1 <<< d.cmd.slave.val) (h2 : d.second = true)
    (hs : Strobes d.pending s) :
    Onward d [] (d.toCome + 500 * d.left + 12 - 1 - 1) (d.step go s.dataToCpu)
      (s.step (d.access go) miso) (s.wire (d.access go) miso) := by
  have hacc : d.pc.access d.cmd.slave = some (.write Access.control 0x400) := by
    rw [hpc]
    rfl
  obtain ⟨hwr, hdw⟩ := hs.writing h2 hacc
  have hwr : s.wrStrobe = true := hwr
  rw [Driver.access_second h2, hacc]
  have hnext : d.next s.dataToCpu = { d with pc := .discard } := by rw [Driver.next, hpc]
  have sel : Selected (s.step (some (.write Access.control 0x400)) miso) d.cmd := by
    constructor
    · simp [SpiMaster.step, Access.addr, Access.dataFromCpu, hwr]
    · simp [SpiMaster.step, Access.addr, Access.dataFromCpu, hwr, sso, holding]
    · simp [SpiMaster.step, Access.addr, Access.slaveSel, Access.control, holding]
  have hss : s.wire (some (.write Access.control 0x400)) miso = [.ss d.cmd.select] := by
    have hne : ¬ (s.step (some (.write Access.control 0x400)) miso).ssN = s.ssN := by
      rw [sel.ssN, ssN_of_rest core sso]
      exact select_ne d.cmd
    rw [SpiMaster.wire, if_neg hne, core.quiet, sel.ssN]
    rfl
  rw [Driver.step_next h2, hnext, hss]
  refine .inl ⟨_, .discard rfl ⟨ex.bytes, ex.length, ex.ignore, ex.data⟩ hc hl (core.step hdw) sel, ?_, rfl⟩
  exact Nat.le_refl _

/-- What may be left in the receiver is thrown away. -/
theorem Stage.discards (hpc : d.pc = .discard) (ex : d.Exchanged [] [] []) (hc : d.credits = 1)
    (hl : 0 < d.left) (core : s.Rest) (sel : Selected s d.cmd) (h2 : d.second = true)
    (hs : Strobes d.pending s) :
    Onward d [.ss d.cmd.select] (d.toCome + 500 * d.left + 10 - 1 - 1) (d.step go s.dataToCpu)
      (s.step (d.access go) miso) (s.wire (d.access go) miso) := by
  obtain ⟨hwr, hdw, -⟩ := hs.reading h2 (a := Access.rxdata) (by rw [hpc]; rfl)
  have hn : Neutral s (d.access go) := .inl hwr
  have hnext : d.next s.dataToCpu = { d with pc := .poll } := by rw [Driver.next, hpc]
  have ready : Stage { d with pc := .poll, second := false } (s.step (d.access go) miso)
      (.ss d.cmd.select :: rises [] []) (d.toCome + 500 * d.left + 8 - 0) :=
    .ready rfl ⟨ex.bytes, ex.length, ex.ignore, ex.data⟩ hc hl (core.step hdw) (sel.step hn)
      fun h => absurd h Bool.false_ne_true
  rw [Driver.step_next h2, hnext]
  exact .silent ready (Nat.le_refl _) rfl (sel.wire_eq hn core.quiet)

/-- The poll finds room, and the next byte is chosen. -/
theorem Stage.takes {sent : List (BitVec 8)} {got : List Bool} (hpc : d.pc = .poll)
    (ex : d.Exchanged sent [] got) (hc : d.credits = 1) (hl : 0 < d.left) (core : s.Rest)
    (sel : Selected s d.cmd) (h2 : d.second = true)
    (latch : s.dataToCpu &&& 0x40 ≠ 0 ∧ s.dataToCpu &&& 0x80 = 0) (hs : Strobes d.pending s) :
    Onward d (.ss d.cmd.select :: rises sent got) (d.toCome + 500 * d.left + 8 - 1 - 1)
      (d.step go s.dataToCpu) (s.step (d.access go) miso) (s.wire (d.access go) miso) := by
  obtain ⟨hwr, hdw⟩ := hs.polling hpc
  have hn : Neutral s (d.access go) := .inl hwr
  obtain ⟨b, hpc', ex', hc', hleft, hcmd, htodo, hdone⟩ :=
    Driver.next_ready hpc ex hc hl latch.1 latch.2
  rw [Driver.step_next h2, ← hcmd]
  refine .silent (.tx hpc' ex'.hold hc' (core.step hdw) ?_) ?_ hdone (sel.wire_eq hn core.quiet)
  · show Selected _ (d.next s.dataToCpu).cmd
    rw [hcmd]
    exact sel.step hn
  · have hcome : (d.next s.dataToCpu).toCome = d.toCome := by rw [Driver.toCome, htodo]; rfl
    show (d.next s.dataToCpu).toCome + 500 * (d.next s.dataToCpu).left + 490 - 0 ≤ _
    omega

/-- The byte is written to the master. -/
theorem Stage.hands {sent : List (BitVec 8)} {got : List Bool} {b : BitVec 8}
    (hpc : d.pc = .tx b false) (ex : d.Exchanged sent [b] got) (hc : d.credits = 0) (core : s.Rest)
    (sel : Selected s d.cmd) (h2 : d.second = true) (hs : Strobes d.pending s) :
    Onward d (.ss d.cmd.select :: rises sent got) (d.toCome + 500 * d.left + 490 - 1 - 1)
      (d.step go s.dataToCpu) (s.step (d.access go) miso) (s.wire (d.access go) miso) := by
  have hacc : d.pc.access d.cmd.slave = some (.write Access.txdata (b.setWidth 16)) := by
    rw [hpc]
    rfl
  obtain ⟨-, hdw⟩ := hs.writing h2 hacc
  rw [Driver.access_second h2, hacc]
  have hn : Neutral s (some (.write Access.txdata (b.setWidth 16))) := .inr rfl
  have hnext : d.next s.dataToCpu = { d with pc := .poll } := by
    rw [Driver.next, hpc]
    rfl
  have core' : (s.step (some (.write Access.txdata (b.setWidth 16))) miso).Primed
      ((b.setWidth 16).setWidth 8) := core.load hdw
  rw [BitVec.setWidth_setWidth_of_le _ (by decide), BitVec.setWidth_eq] at core'
  rw [Driver.step_next h2, hnext]
  refine .silent (.primed rfl ⟨ex.bytes, ex.length, ex.ignore, ex.data⟩ hc core' (sel.step hn)
    fun h => absurd h Bool.false_ne_true) ?_ rfl (sel.wire_eq hn core.quiet)
  show d.toCome + 500 * d.left + 480 ≤ _
  omega

/-- The poll finds the answer. -/
theorem Stage.finds {sent : List (BitVec 8)} {got m : List Bool} {b : BitVec 8} (hpc : d.pc = .poll)
    (ex : d.Exchanged sent [b] got) (hc : d.credits = 0) (core : s.Received m)
    (sel : Selected s d.cmd) (h2 : d.second = true) (latch : s.dataToCpu &&& 0x80 ≠ 0)
    (hs : Strobes d.pending s) :
    Onward d (.ss d.cmd.select :: rises (sent ++ [b]) (got ++ m))
      (d.toCome + 500 * d.left + 12 - 1 - 1) (d.step go s.dataToCpu) (s.step (d.access go) miso)
      (s.wire (d.access go) miso) := by
  obtain ⟨hwr, hdw, hdr⟩ := hs.reading h2 (a := Access.status) (by rw [hpc]; rfl)
  have hn : Neutral s (d.access go) := .inl hwr
  have hrr : (s.dataToCpu &&& 0x80 != 0) = true := bne_iff_ne.2 latch
  have hnext : d.next s.dataToCpu = { d with pc := .rx } := by
    rw [Driver.next, hpc]
    simp only [hrr, Driver.poll, hc]
    simp [Driver.afterTx, hc]
  rw [Driver.step_next h2, hnext]
  exact .silent (.rx rfl ⟨ex.bytes, ex.length, ex.ignore, ex.data⟩ hc (core.step hdw hdr hn.clears)
    (sel.step hn) fun h => absurd h Bool.false_ne_true) (Nat.le_refl _) rfl
    (sel.wire_eq hn core.quiet)

/-- The answer is taken; the loop goes on, or all has come back. -/
theorem Stage.stores {sent : List (BitVec 8)} {got m : List Bool} {b : BitVec 8} (hpc : d.pc = .rx)
    (ex : d.Exchanged sent [b] got) (hc : d.credits = 0) (core : s.Received m)
    (sel : Selected s d.cmd) (h2 : d.second = true) (latch : s.dataToCpu.setWidth 8 = word 8 m)
    (hs : Strobes d.pending s) :
    Onward d (.ss d.cmd.select :: rises (sent ++ [b]) (got ++ m))
      (d.toCome + 500 * d.left + 10 - 1 - 1) (d.step go s.dataToCpu) (s.step (d.access go) miso)
      (s.wire (d.access go) miso) := by
  obtain ⟨hwr, hdw, hdr⟩ := hs.reading h2 (a := Access.rxdata) (by rw [hpc]; rfl)
  have hn : Neutral s (d.access go) := .inl hwr
  have core' : (s.step (d.access go) miso).Rest := core.take hdw (by rw [hdr]; rfl)
  have ex' := Driver.store_exchanged ex core.length
  have hcmd : (d.store (word 8 m)).cmd = d.cmd := by
    rw [Driver.store]
    split <;> rfl
  have hcred : (d.store (word 8 m)).credits = 1 := by
    rw [Driver.store]
    split <;> simp [hc]
  have hleft : (d.store (word 8 m)).left = d.left := by
    rw [Driver.store]
    split <;> rfl
  have hcome : (d.store (word 8 m)).toCome = d.toCome := by
    rw [Driver.store]
    split <;> rfl
  have hdone : (d.store (word 8 m)).done = d.done := by
    rw [Driver.store]
    split <;> rfl
  have hall := ex'.all
  have sel' : Selected (s.step (d.access go) miso) (d.store (word 8 m)).cmd := by
    rw [hcmd]
    exact sel.step hn
  have hnext : d.next s.dataToCpu = d.rx (word 8 m) := by rw [Driver.next, hpc, latch]
  rw [Driver.step_next h2, hnext, Driver.rx, ← hcmd]
  dsimp only
  by_cases h0 : (d.store (word 8 m)).left = 0
  · rw [if_pos (hall.2 h0)]
    refine .silent (.tmt rfl ⟨ex'.bytes, ex'.length, ex'.ignore, ex'.data⟩ h0 core' sel'
      fun h => absurd h Bool.false_ne_true) ?_ hdone (sel.wire_eq hn core.quiet)
    show (d.store (word 8 m)).toCome + 6 - 0 ≤ _
    omega
  · rw [if_neg (fun h => h0 (hall.1 h))]
    refine .silent (.ready rfl ⟨ex'.bytes, ex'.length, ex'.ignore, ex'.data⟩ hcred
      (Nat.pos_of_ne_zero h0) core' sel' fun h => absurd h Bool.false_ne_true) ?_ hdone
      (sel.wire_eq hn core.quiet)
    show (d.store (word 8 m)).toCome + 500 * (d.store (word 8 m)).left + 8 - 0 ≤ _
    omega

/-- The transmitter is empty. -/
theorem Stage.drains {sent : List (BitVec 8)} {got : List Bool} (hpc : d.pc = .tmt)
    (ex : d.Exchanged sent [] got) (hl : d.left = 0) (core : s.Rest) (sel : Selected s d.cmd)
    (h2 : d.second = true) (latch : s.dataToCpu &&& 0x20 ≠ 0) (hs : Strobes d.pending s) :
    Onward d (.ss d.cmd.select :: rises sent got) (d.toCome + 6 - 1 - 1) (d.step go s.dataToCpu)
      (s.step (d.access go) miso) (s.wire (d.access go) miso) := by
  obtain ⟨hwr, hdw, -⟩ := hs.reading h2 (a := Access.status) (by rw [hpc]; rfl)
  have hn : Neutral s (d.access go) := .inl hwr
  have hnext : d.next s.dataToCpu = { d with pc := .release } := by
    rw [Driver.next, hpc]
    exact if_neg latch
  rw [Driver.step_next h2, hnext]
  exact .silent (.release rfl ⟨ex.bytes, ex.length, ex.ignore, ex.data⟩ hl (core.step hdw)
    (sel.step hn)) (Nat.le_refl _) rfl (sel.wire_eq hn core.quiet)

/-- The slave is let go, and the command is on the wires as a whole. -/
theorem Stage.releases {sent : List (BitVec 8)} {got : List Bool} (hpc : d.pc = .release)
    (ex : d.Exchanged sent [] got) (hl : d.left = 0) (core : s.Rest) (sel : Selected s d.cmd)
    (h2 : d.second = true) (hs : Strobes d.pending s) :
    Onward d (.ss d.cmd.select :: rises sent got) (d.toCome + 4 - 1 - 1) (d.step go s.dataToCpu)
      (s.step (d.access go) miso) (s.wire (d.access go) miso) := by
  have hacc : d.pc.access d.cmd.slave = some (.write Access.control 0) := by
    rw [hpc]
    rfl
  obtain ⟨hwr, hdw⟩ := hs.writing h2 hacc
  have hwr : s.wrStrobe = true := hwr
  rw [Driver.access_second h2, hacc]
  have hnext : d.next s.dataToCpu =
      { d with pc := .idle, done := d.done ++ [(d.cmd, d.readData)] } := by rw [Driver.next, hpc]
  have hsso : (s.step (some (.write Access.control 0)) miso).ssoReg = false := by
    simp [SpiMaster.step, Access.addr, Access.dataFromCpu, hwr]
  have hss : s.wire (some (.write Access.control 0)) miso = [.ss (BitVec.allOnes 5)] := by
    have hrest := ssN_of_rest (core.step hdw) hsso
    have hne : ¬ (s.step (some (.write Access.control 0)) miso).ssN = s.ssN := by
      rw [hrest, sel.ssN]
      exact (select_ne d.cmd).symm
    rw [SpiMaster.wire, if_neg hne, core.quiet, hrest]
    rfl
  have hbytes : d.cmd.bytes = sent := by
    have hw : d.writeData = [] := List.eq_nil_of_length_eq_zero (by rw [Driver.left] at hl; omega)
    have hz : d.writeZeros = 0 := by
      rw [Driver.left] at hl
      omega
    rw [ex.bytes, hw, hz]
    simp
  rw [Driver.step_next h2, hnext, hss]
  refine .inr ⟨got, _, .idle rfl rfl (core.step hdw) hsso, ?_, ?_, ?_, ?_⟩
  · show d.toCome ≤ _
    omega
  · rw [ex.length, hbytes]
  · rw [SpiCommand.transcript, SpiCommand.mosi, hbytes]
    rfl
  · rw [SpiCommand.reply, ← ex.data]

/-- The first clock of an access, or a clock in which the processor is elsewhere. -/
theorem Stage.step_first (st : Stage d s log r) (hs : Strobes d.pending s) (h2 : d.second = false)
    (hne : ∀ c ∈ d.todo, c.bytes ≠ []) :
    Onward d log (r - go.toNat) (d.step go s.dataToCpu) (s.step (d.access go) miso)
      (s.wire (d.access go) miso) := by
  obtain ⟨hwr, hdw, hdr⟩ := hs.none_pending h2
  have hn : Neutral s (d.access go) := .inl hwr
  have hlt : go.toNat ≤ 1 := Bool.toNat_le go
  have hstep : d.pc ≠ .idle → d.step go s.dataToCpu = { d with second := go } := Driver.step_hold h2
  cases st with
  | idle hpc h2 core sso => exact begins hpc h2 core sso hs hne
  | slaveSel hpc ex hc hl core sso =>
    rw [hstep (by rw [hpc]; exact Pc.noConfusion)]
    refine .silent (.slaveSel hpc ex.hold hc hl (core.step hdw) (hn.sso.trans sso)) ?_ rfl
      (wire_of_released core hdw hn sso)
    rw [h2]
    exact Nat.le_refl _
  | control hpc ex hc hl core sso holding =>
    rw [hstep (by rw [hpc]; exact Pc.noConfusion)]
    refine .silent (.control hpc ex.hold hc hl (core.step hdw) (hn.sso.trans sso)
      (hn.holding.trans holding)) ?_ rfl (wire_of_released core hdw hn sso)
    rw [h2]
    exact Nat.le_refl _
  | discard hpc ex hc hl core sel =>
    rw [hstep (by rw [hpc]; exact Pc.noConfusion)]
    refine .silent (.discard hpc ex.hold hc hl (core.step hdw) (sel.step hn)) ?_ rfl
      (sel.wire_eq hn core.quiet)
    rw [h2]
    exact Nat.le_refl _
  | ready hpc ex hc hl core sel latch =>
    rw [hstep (by rw [hpc]; exact Pc.noConfusion)]
    refine .silent (.ready hpc ex.hold hc hl (core.step hdw) (sel.step hn) ?_) ?_ rfl
      (sel.wire_eq hn core.quiet)
    · rintro rfl
      rw [latched h2 (by rw [hpc]; rfl), Ne, status_trdy, status_rrdy]
      exact ⟨by simp [SpiMaster.trdy, core.transmitting], core.rrdy⟩
    · rw [h2]
      exact Nat.le_refl _
  | tx hpc ex hc core sel =>
    rw [hstep (by rw [hpc]; exact Pc.noConfusion)]
    refine .silent (.tx hpc ex.hold hc (core.step hdw) (sel.step hn)) ?_ rfl
      (sel.wire_eq hn core.quiet)
    rw [h2]
    exact Nat.le_refl _
  | primed hpc ex hc core sel latch => exact (starts hpc ex hc core sel latch hs).mono (by omega)
  | shifting hpc ex hc core sel latch => exact (shifts hpc ex hc core sel latch hs).mono (by omega)
  | stale hpc ex hc core sel hsec => exact absurd (h2.symm.trans hsec) Bool.false_ne_true
  | received hpc ex hc core sel latch =>
    rw [h2]
    exact looks hpc ex hc core sel h2 hs
  | rx hpc ex hc core sel latch =>
    rw [hstep (by rw [hpc]; exact Pc.noConfusion)]
    refine .silent (.rx hpc ex.hold hc (core.step hdw hdr hn.clears) (sel.step hn) ?_) ?_ rfl
      (sel.wire_eq hn core.quiet)
    · rintro rfl
      rw [latched h2 (by rw [hpc]; rfl), ← core.rxHolding]
      simp [SpiMaster.p1DataToCpu, Access.rxdata, Access.status, Access.control, Access.slaveSel,
        Access.endOfPacketValue]
    · rw [h2]
      exact Nat.le_refl _
  | tmt hpc ex hl core sel latch =>
    rw [hstep (by rw [hpc]; exact Pc.noConfusion)]
    refine .silent (.tmt hpc ex.hold hl (core.step hdw) (sel.step hn) ?_) ?_ rfl
      (sel.wire_eq hn core.quiet)
    · rintro rfl
      rw [latched h2 (by rw [hpc]; rfl), Ne, status_tmt]
      simp [SpiMaster.tmt, core.transmitting, core.primed]
    · rw [h2]
      exact Nat.le_refl _
  | release hpc ex hl core sel =>
    rw [hstep (by rw [hpc]; exact Pc.noConfusion)]
    refine .silent (.release hpc ex.hold hl (core.step hdw) (sel.step hn)) ?_ rfl
      (sel.wire_eq hn core.quiet)
    rw [h2]
    exact Nat.le_refl _

/-- The second clock of an access. -/
theorem Stage.step_second (st : Stage d s log r) (hs : Strobes d.pending s) (h2 : d.second = true) :
    Onward d log (r - 1) (d.step go s.dataToCpu) (s.step (d.access go) miso)
      (s.wire (d.access go) miso) := by
  cases st with
  | idle hpc hsec => exact absurd (hsec.symm.trans h2) Bool.false_ne_true
  | slaveSel hpc ex hc hl core sso =>
    rw [h2]
    exact picks hpc ex hc hl core sso h2 hs
  | control hpc ex hc hl core sso holding =>
    rw [h2]
    exact selects hpc ex hc hl core sso holding h2 hs
  | discard hpc ex hc hl core sel =>
    rw [h2]
    exact discards hpc ex hc hl core sel h2 hs
  | ready hpc ex hc hl core sel latch =>
    rw [h2]
    exact takes hpc ex hc hl core sel h2 (latch h2) hs
  | tx hpc ex hc core sel =>
    rw [h2]
    exact hands hpc ex hc core sel h2 hs
  | primed hpc ex hc core sel latch => exact starts hpc ex hc core sel latch hs
  | shifting hpc ex hc core sel latch => exact shifts hpc ex hc core sel latch hs
  | stale hpc ex hc core sel hsec latch => exact misses hpc ex hc core sel hsec latch hs
  | received hpc ex hc core sel latch =>
    rw [h2]
    exact finds hpc ex hc core sel h2 (latch h2) hs
  | rx hpc ex hc core sel latch =>
    rw [h2]
    exact stores hpc ex hc core sel h2 (latch h2) hs
  | tmt hpc ex hl core sel latch =>
    rw [h2]
    exact drains hpc ex hl core sel h2 (latch h2) hs
  | release hpc ex hl core sel =>
    rw [h2]
    exact releases hpc ex hl core sel h2 hs

variable (go miso) in
/-- One clock. -/
theorem Stage.step (st : Stage d s log r) (hs : Strobes d.pending s)
    (hne : ∀ c ∈ d.todo, c.bytes ≠ []) :
    Onward d log (r - go.toNat) (d.step go s.dataToCpu) (s.step (d.access go) miso)
      (s.wire (d.access go) miso) := by
  cases h2 : d.second with
  | false => exact st.step_first hs h2 hne
  | true => exact (st.step_second hs h2).mono (Nat.sub_le_sub_left (Bool.toNat_le go) r)

end step

end Nios
