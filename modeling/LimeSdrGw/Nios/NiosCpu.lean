import LimeSdrGw.Nios.RegisterSlave
import LimeSdrGw.Nios.SpiRun
/-
# `nios_cpu`: the processor and the configuration logic

The SPI master of the processor drives the configuration logic with line 1 of its select lines; what comes
back is `sdout` or the pin of the transceiver.

| here | there |
| --- | --- |
| `NiosCpu`         | `lms_ctr_inst0` and `cfg_top_inst1` (nios_cpu.vhd:129-199) |
| `NiosCpu.miso`    | nios_cpu.vhd:208 |
| `pins`            | how the outputs of one reach the inputs of the other, in one clock of the processor |
-/
namespace Nios

open Clocked Spi

structure NiosCpu where
  host : SpiHost
  top : CfgTop

structure NiosCpuIn where
  go : Bool
  spi0Miso : Bool
  hw : Hw

section cpu

variable (m : AddressMap)

/-- The select line comes before the clock, the data behind it. -/
def pins (s s' : SpiMaster) (hw : Hw) : List Pin :=
  [.hw hw, .sen (s'.ssN.getLsbD 1)] ++ (if s.sclkReg = s'.sclkReg then [] else [.sclk]) ++
    [.sdin s'.mosi]

namespace NiosCpu

variable (s : NiosCpu) (i : NiosCpuIn)

def miso : Bool := s.top.sdout m || i.spi0Miso

def hostIn : SpiHostIn := ⟨i.go, s.miso m i⟩

def step : NiosCpu where
  host := s.host.step (s.hostIn m i)
  top := (pins s.host.core (s.host.step (s.hostIn m i)).core i.hw).foldl (CfgTop.step m) s.top

def wire : List WireEvent := s.host.wire (s.hostIn m i)

end NiosCpu

def niosCpu (cmds : List SpiCommand) (hw : Hw) (mem : Block → Regs) : Machine NiosCpu NiosCpuIn :=
  ⟨⟨⟨.reset cmds, .reset⟩, CfgTop.start false true false hw mem⟩, NiosCpu.step m⟩

end cpu

/-! ## The configuration logic refines the slave -/

section refined

variable {m : AddressMap}

structure Refined (m : AddressMap) (bus : Bus) (top : CfgTop) (r : RegisterSlave) : Prop where
  tied : CfgTop.Tied (m := m) bus top
  selected : r.selected = !top.sen
  bits : r.bits = bus.frame
  regs : ∀ b a, own b a = true → (top.block b).mem a = r.regs b a
  shown : 16 ≤ bus.frame.length → bus.frame.length < 32 →
    ¬ (bus.frame.length = 16 ∧ top.sclk = true) → ∀ b, own b (registerOf bus.frame) = true →
      ∀ hw, bus.shown b = b.readMux hw (r.regs b) (registerOf bus.frame)

variable {bus : Bus} {top : CfgTop} {r : RegisterSlave}

/-- A rising edge changes a register by the last bit of a frame only. -/
theorem mem_of_own (h : CfgTop.Tied (m := m) bus top) (hclk : top.sclk = false) {b : Block}
    {a : BitVec 5} (ha : own b a = true) :
    (CfgTop.completed bus top .sclk = none →
      ((top.step m .sclk).block b).mem a = (top.block b).mem a) ∧
    ∀ {f}, CfgTop.completed bus top .sclk = some f → ((top.step m .sclk).block b).mem a =
      if writesTo f (m.maddress b) = true ∧ registerOf f = a then dataOf f
      else (top.block b).mem a := by
  obtain ⟨v, hv, hmem⟩ := h.mem_rise hclk b a
  have hmem : ((top.step m .sclk).block b).mem a = v := by
    rcases hmem with ⟨-, hmem⟩ | hmem
    · exact hmem
    · rw [hmem, settle_of_own ha]
  constructor
  · intro hc
    rw [hc] at hv
    exact hmem.trans hv
  · intro f hc
    rw [hc] at hv
    exact hmem.trans hv

theorem Refined.hw (h : Refined m bus top r) (v : Hw) : Refined m bus (top.step m (.hw v)) r :=
  ⟨h.tied.step (.hw v), h.selected, h.bits, h.regs, h.shown⟩

theorem Refined.sdin (h : Refined m bus top r) (v : Bool) : Refined m bus (top.step m (.sdin v)) r :=
  ⟨h.tied.step (.sdin v), h.selected, h.bits, h.regs, h.shown⟩

theorem Refined.sen (h : Refined m bus top r) (v : Bool) :
    Refined m (CfgTop.note m bus top (.sen v)) (top.step m (.sen v)) (r.select v) := by
  cases v with
  | false => exact ⟨h.tied.step (.sen false), rfl, h.bits, h.regs, h.shown⟩
  | true =>
    refine ⟨h.tied.step (.sen true), rfl, rfl, ?_, ?_⟩
    · intro b a ha
      rw [CfgTop.mem_kept _ _ (fun hc => Pin.noConfusion hc.1)]
      exact h.regs b a ha
    · exact fun hle => absurd hle (Nat.not_succ_le_zero 15)

theorem Refined.fall (h : Refined m bus top r) (hclk : top.sclk = true) :
    Refined m (CfgTop.note m bus top .sclk) (top.step m .sclk) r := by
  have hkept (b : Block) : ((top.step m .sclk).block b).mem = (top.block b).mem :=
    CfgTop.mem_kept _ _ (fun hc => Bool.false_ne_true (hc.2.symm.trans hclk)) b
  have hframe : (CfgTop.note m bus top .sclk).frame = bus.frame := by
    rw [CfgTop.note, if_pos hclk]
    split <;> rfl
  refine ⟨h.tied.step .sclk, h.selected, h.bits.trans hframe.symm, ?_, ?_⟩
  · intro b a ha
    rw [hkept]
    exact h.regs b a ha
  · rw [hframe]
    intro hle hlt _ b hb hw
    by_cases h16 : bus.frame.length = 16
    · have e : (CfgTop.note m bus top .sclk).shown b =
          b.readMux top.hw (top.block b).mem (registerOf bus.frame) := by
        rw [CfgTop.note, if_pos hclk, if_pos h16]
      rw [e]
      exact readMux_congr hb (h.regs b _ hb) _ _
    · have e : (CfgTop.note m bus top .sclk).shown b = bus.shown b := by
        rw [CfgTop.note, if_pos hclk, if_neg h16]
      rw [e]
      exact h.shown hle hlt (fun hc => h16 hc.1) b hb hw

theorem Refined.rise (h : Refined m bus top r) (hclk : top.sclk = false) {mosi : Bool}
    (hd : top.sdin = mosi) (q : Bool) :
    Refined m (CfgTop.note m bus top .sclk) (top.step m .sclk) (r.event m (.rise mosi q)) := by
  subst hd
  have htied := h.tied.step .sclk
  have hsclk : (top.step m .sclk).sclk = true := by simp [CfgTop.step, hclk]
  have hmem {b : Block} {a : BitVec 5} (ha : own b a = true) := mem_of_own h.tied hclk ha
  cases hsen : top.sen with
  | true =>
    have hnote : CfgTop.note m bus top .sclk = bus := by simp [CfgTop.note, hclk, hsen]
    have hsel : r.selected = false := by rw [h.selected, hsen]; rfl
    have hevent : r.event m (.rise top.sdin q) = r := by
      rw [RegisterSlave.event, if_neg (by rw [hsel]; exact Bool.false_ne_true)]
    have hnone : CfgTop.completed bus top .sclk = none := by simp [CfgTop.completed, hsen]
    have hframe := h.tied.deselected hsen
    rw [hnote] at htied
    rw [hevent, hnote]
    refine ⟨htied, h.selected, h.bits, ?_, ?_⟩
    · intro b a ha
      rw [(hmem ha).1 hnone]
      exact h.regs b a ha
    · rw [hframe]
      exact fun hle => absurd hle (by decide)
  | false =>
    have hframe : (CfgTop.note m bus top .sclk).frame =
        CfgTop.Bus.open bus.frame bus.frame ++ [top.sdin] := by simp [CfgTop.note, hclk, hsen]
    have hshown : (CfgTop.note m bus top .sclk).shown = bus.shown := by
      simp [CfgTop.note, hclk, hsen]
    have hsel : r.selected = true := by rw [h.selected, hsen]; rfl
    have hevent : r.event m (.rise top.sdin q) =
        { r with
          bits := CfgTop.Bus.open bus.frame bus.frame ++ [top.sdin]
          regs := if (CfgTop.Bus.open bus.frame bus.frame ++ [top.sdin]).length = 32 then
            writeFrame m r.regs (CfgTop.Bus.open bus.frame bus.frame ++ [top.sdin]) else r.regs } := by
      rw [RegisterSlave.event, if_pos hsel, h.bits]
    rw [hevent]
    have hle := h.tied.frame_le
    refine ⟨htied, h.selected, hframe.symm, ?_, ?_⟩
    · intro b a ha
      by_cases h31 : bus.frame.length = 31
      · have hopen : CfgTop.Bus.open bus.frame bus.frame = bus.frame := if_neg (by omega)
        have hc : CfgTop.completed bus top .sclk = some (bus.frame ++ [top.sdin]) := by
          simp [CfgTop.completed, hclk, hsen, h31]
        have hlen : (bus.frame ++ [top.sdin]).length = 32 := by
          rw [List.length_append, h31, List.length_singleton]
        rw [(hmem ha).2 hc, hopen, if_pos hlen]
        show (if _ then _ else _) = writeFrame m r.regs _ b a
        rw [writeFrame, h.regs b a ha]
        by_cases hw : writesTo (bus.frame ++ [top.sdin]) (m.maddress b) = true
        · rw [if_pos hw, Regs.set]
          by_cases hr : registerOf (bus.frame ++ [top.sdin]) = a
          · rw [if_pos ⟨hw, hr⟩, if_pos hr.symm]
          · rw [if_neg (fun hc => hr hc.2), if_neg (fun hc => hr hc.symm)]
        · rw [if_neg (fun hc => hw hc.1), if_neg hw]
      · have hc : CfgTop.completed bus top .sclk = none := by simp [CfgTop.completed, h31]
        have hlen : ¬ (CfgTop.Bus.open bus.frame bus.frame ++ [top.sdin]).length = 32 := by
          rw [List.length_append, List.length_singleton, CfgTop.Bus.open]
          split
          · decide
          · omega
        rw [(hmem ha).1 hc, if_neg hlen]
        exact h.regs b a ha
    · rw [hframe, hshown, hsclk]
      intro h16 hlt hne b hb hw
      by_cases h32 : bus.frame.length = 32
      · have hopen : CfgTop.Bus.open bus.frame bus.frame = [] := if_pos h32
        rw [hopen] at h16
        exact absurd h16 (by simp)
      · have hopen : CfgTop.Bus.open bus.frame bus.frame = bus.frame := if_neg h32
        rw [hopen, List.length_append, List.length_singleton] at h16 hlt hne
        have hlen : ¬ (bus.frame ++ [top.sdin]).length = 32 := by
          rw [List.length_append, List.length_singleton]
          omega
        have hpast : bus.frame.length + 1 ≠ 16 := fun hc => hne ⟨hc, rfl⟩
        have hold : 16 ≤ bus.frame.length := by omega
        have hreg : registerOf (bus.frame ++ [top.sdin]) = registerOf bus.frame := by
          rw [registerOf, registerOf, inst_append hold]
        rw [hopen, hreg] at hb ⊢
        rw [if_neg hlen]
        exact h.shown hold (by omega) (fun hc => Bool.false_ne_true (hclk.symm.trans hc.2)) b hb hw

/-- What `sdout` shows is what the slave answers. -/
theorem Refined.answers (h : Refined m bus top r) (hclk : top.sclk = false) {q : Bool}
    (hq : r.selected = true → 16 ≤ r.bits.length → q = top.sdout m) (mosi : Bool) :
    r.Answers m (.rise mosi q) := by
  intro hsel h16 hlt b hr hb hw
  rw [hq hsel h16]
  rw [h.bits] at h16 hlt hr hb ⊢
  rw [h.tied.sdout hclk b hr h16 hlt, h.shown h16 hlt _ b hb hw]
  rw [hclk]
  exact fun hc => Bool.false_ne_true hc.2

end refined

/-! ## One clock -/

section clock

variable {m : AddressMap} {s : NiosCpu} {r : RegisterSlave} {i : NiosCpuIn}

/-- The pins have the levels of the master's outputs. -/
structure Wired (s : NiosCpu) : Prop where
  sclk : s.top.sclk = s.host.core.sclkReg
  sen : s.top.sen = s.host.core.ssN.getLsbD 1
  sdin : s.top.sdin = s.host.core.mosi

/-- The pins after the select line has moved. -/
def selectPins (m : AddressMap) (top : CfgTop) (hw : Hw) (sen : Bool) : CfgTop :=
  (top.step m (.hw hw)).step m (.sen sen)

def edgePins (m : AddressMap) (top : CfgTop) (a b : Bool) : CfgTop :=
  if a = b then top else top.step m .sclk

theorem step_top : (s.step m i).top = (edgePins m
    (selectPins m s.top i.hw ((s.step m i).host.core.ssN.getLsbD 1)) s.host.core.sclkReg
      (s.step m i).host.core.sclkReg).step m (.sdin (s.step m i).host.core.mosi) := by
  show (pins s.host.core (s.step m i).host.core i.hw).foldl (CfgTop.step m) s.top = _
  rw [pins, edgePins]
  split <;> rfl

theorem Wired.step (h : Wired s) : Wired (s.step m i) := by
  have hsclk (top : CfgTop) (a b : Bool) (ht : top.sclk = a) : (edgePins m top a b).sclk = b := by
    rw [edgePins]
    split
    next hab => exact ht.trans hab
    next hab =>
      show (!top.sclk) = b
      rw [ht]
      cases a <;> cases b <;> simp_all
  have hsen (top : CfgTop) (a b : Bool) : (edgePins m top a b).sen = top.sen := by
    rw [edgePins]
    split <;> rfl
  refine ⟨?_, ?_, ?_⟩
  · rw [step_top]
    exact hsclk _ _ _ h.sclk
  · rw [step_top]
    exact hsen _ _ _
  · rw [step_top]
    rfl

/-- With the slave selected the select line moves nothing. -/
theorem sdout_selectPins {top : CfgTop} (h : top.sen = false) (hw : Hw) :
    (selectPins m top hw false).sdout m = top.sdout m := by
  simp [selectPins, CfgTop.sdout, CfgTop.blockSdout, CfgTop.step, CfgTop.setSen, h]

/-- A clock of the processor is a step of the slave for what it shows on the wires. -/
theorem Refined.clock {bus : Bus} (h : Refined m bus s.top r) (hw : Wired s)
    (hpin : s.top.sen = false → i.spi0Miso = false) :
    r.Answered m (s.wire m i) ∧ ∃ bus', Refined m bus' (s.step m i).top (r.run m (s.wire m i)) := by
  have hwire : s.wire m i =
      (if (s.step m i).host.core.ssN = s.host.core.ssN then [] else
        [.ss (s.step m i).host.core.ssN]) ++
      if !s.host.core.sclkReg && (s.step m i).host.core.sclkReg then
        [.rise s.host.core.mosi (s.miso m i)] else [] := rfl
  have hselect : r.run m (if (s.step m i).host.core.ssN = s.host.core.ssN then [] else
      [.ss (s.step m i).host.core.ssN]) = r.select ((s.step m i).host.core.ssN.getLsbD 1) := by
    split
    next hsame =>
      have hsel : r.selected = !(s.step m i).host.core.ssN.getLsbD 1 := by
        rw [hsame, ← hw.sen]
        exact h.selected
      refine (RegisterSlave.select_same hsel fun hv => ?_).symm
      rw [hsame, ← hw.sen] at hv
      rw [h.bits]
      exact h.tied.deselected hv
    next => rfl
  have hsen := (h.hw i.hw).sen ((s.step m i).host.core.ssN.getLsbD 1)
  rw [hwire, RegisterSlave.answered_append, RegisterSlave.run_append, hselect, step_top]
  have hss : r.Answered m (if (s.step m i).host.core.ssN = s.host.core.ssN then [] else
      [.ss (s.step m i).host.core.ssN]) := by
    split <;> simp [RegisterSlave.Answered, RegisterSlave.Answers]
  cases ha : s.host.core.sclkReg with
  | true =>
    refine ⟨⟨hss, trivial⟩, ?_⟩
    cases hb : (s.step m i).host.core.sclkReg with
    | true => exact ⟨_, hsen.sdin _⟩
    | false =>
      exact ⟨_, (hsen.fall (hw.sclk.trans ha)).sdin _⟩
  | false =>
    cases hb : (s.step m i).host.core.sclkReg with
    | false => exact ⟨⟨hss, trivial⟩, _, hsen.sdin _⟩
    | true =>
      have hclk := hw.sclk.trans ha
      have hrise := hsen.rise hclk hw.sdin (s.miso m i)
      refine ⟨⟨hss, hsen.answers hclk ?_ _, trivial⟩, _, hrise.sdin _⟩
      intro hsel h16
      have hlow : (s.step m i).host.core.ssN.getLsbD 1 = false := by
        cases hv : (s.step m i).host.core.ssN.getLsbD 1 with
        | false => rfl
        | true =>
          rw [hv] at hsel
          exact absurd hsel Bool.false_ne_true
      have hold : s.top.sen = false := by
        cases hv : s.top.sen with
        | false => rfl
        | true =>
          rw [hlow] at h16
          have hbits : r.bits = [] := h.bits.trans (h.tied.deselected hv)
          have hlen : 16 ≤ r.bits.length := h16
          rw [hbits] at hlen
          exact absurd hlen (Nat.not_succ_le_zero 15)
      rw [hlow]
      show (s.top.sdout m || i.spi0Miso) = (selectPins m s.top i.hw false).sdout m
      rw [hpin hold, Bool.or_false, sdout_selectPins hold]

end clock

end Nios
