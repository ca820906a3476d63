import LimeSdrGw.Spi.CfgTop
/-
# The configuration blocks as a register file

A bus master sees frames of 32 bits and, bit by bit, what comes back. `Bus` keeps just that beside a
run; the blocks' shift registers and state machines are tied to it edge by edge.
-/
namespace Spi

open Clocked

/-! ## Frames -/

section frame

variable (f : List Bool)

def inst : BitVec 16 := word 16 (f.take 16)
def moduleOf : BitVec 10 := (inst f).extractLsb' 5 10
def registerOf : BitVec 5 := (inst f).extractLsb' 0 5
def dataOf : BitVec 16 := word 16 (f.drop 16)

def writesTo (a : BitVec 10) : Bool := moduleOf f == a && (inst f).getLsbD 15
def readsFrom (a : BitVec 10) : Bool := moduleOf f == a && !(inst f).getLsbD 15

end frame

/-- The instruction is complete after sixteen bits. -/
theorem inst_append {f l : List Bool} (h : 16 ≤ f.length) : inst (f ++ l) = inst f := by
  rw [inst, inst, List.take_append_of_le_length h]

theorem writesTo_append {f l : List Bool} (h : 16 ≤ f.length) (a : BitVec 10) :
    writesTo (f ++ l) a = writesTo f a := by
  simp only [writesTo, moduleOf, inst_append h]

theorem readsFrom_append {f l : List Bool} (h : 16 ≤ f.length) (a : BitVec 10) :
    readsFrom (f ++ l) a = readsFrom f a := by
  simp only [readsFrom, moduleOf, inst_append h]

/-- The bits of the frame under way, what `sdout` was at their rising edges, and what the read
    multiplexers had at the last load edge, the falling edge after sixteen bits. -/
structure Bus where
  frame : List Bool
  miso : List Bool
  shown : Block → BitVec 16

namespace CfgTop

section run

variable (m : AddressMap)

/-- The frame under way, a complete one being over. -/
def Bus.open (l bits : List Bool) : List Bool := if l.length = 32 then [] else bits

def note (b : Bus) (s : CfgTop) : Pin → Bus
  | .sclk =>
    if s.sclk then
      if b.frame.length = 16 then
        { b with shown := fun k => k.readMux s.hw (s.block k).mem (registerOf b.frame) }
      else b
    else if s.sen then b
    else
      { b with
        frame := Bus.open b.frame b.frame ++ [s.sdin]
        miso := Bus.open b.frame b.miso ++ [s.sdout m] }
  | .sen true => { b with frame := [], miso := [] }
  | .sen false | .sdin _ | .hw _ => b

/-- The frame a rising edge completes. -/
def completed (b : Bus) (s : CfgTop) (p : Pin) : Option (List Bool) :=
  if p = .sclk ∧ s.sclk = false ∧ s.sen = false ∧ b.frame.length = 31 then some (b.frame ++ [s.sdin])
  else none

end run

end CfgTop

/-! ## One block -/

/-- How often `dout_reg` has turned since the load edge. -/
def turns (sclk : Bool) (len : Nat) : Nat := min 15 (len - 16 - if sclk then 1 else 0)

/-- A block and the bus. -/
structure Follows (c : CfgBlock) (a : BitVec 10) (shown : BitVec 16) (sclk : Bool) (f miso : List Bool) :
    Prop where
  state : c.state = f.length
  inst : ∃ r, c.instReg = (f.take 16).foldl shiftIn r
  din : writesTo f a = true → 16 ≤ f.length → ∃ r, c.dinReg = (f.drop 16).foldl shiftIn r
  dout : readsFrom f a = true → 16 ≤ f.length → ¬ (f.length = 16 ∧ sclk = true) →
    c.doutReg = shown.rotateLeft (turns sclk f.length)
  miso : readsFrom f a = true → 16 ≤ f.length →
    miso.drop 16 = (msbBits shown).take (f.length - 16)

namespace Follows

variable {c : CfgBlock} {b : Block} {a : BitVec 10} {shown : BitVec 16} {sclk sen sdin : Bool}
  {f miso : List Bool} {hw : Hw}

theorem instReg (h : Follows c a shown sclk f miso) (hf : 16 ≤ f.length) : c.instReg = Spi.inst f := by
  obtain ⟨r, hr⟩ := h.inst
  rw [hr]
  apply foldl_shiftIn_eq_word
  rw [List.length_take]
  omega

theorem writeCycle (h : Follows c a shown sclk f miso) (hf : 16 ≤ f.length) :
    Mcfg.writeCycle (c.fsmIn a sen) = writesTo f a := by
  simp [Mcfg.writeCycle, Mcfg.forUs, CfgBlock.fsmIn, writesTo, moduleOf, h.instReg hf]

theorem readCycle (h : Follows c a shown sclk f miso) (hf : 16 ≤ f.length) :
    Mcfg.readCycle (c.fsmIn a sen) = readsFrom f a := by
  simp [Mcfg.readCycle, Mcfg.forUs, CfgBlock.fsmIn, readsFrom, moduleOf, h.instReg hf]

theorem oe (h : Follows c a shown sclk f miso) (hle : f.length ≤ 32) :
    c.oe a sen = (decide (16 ≤ f.length) && readsFrom f a) := by
  rw [CfgBlock.oe, Mcfg.oe, h.state]
  by_cases hf : 16 ≤ f.length
  · rw [h.readCycle hf, decide_eq_true hf, decide_eq_true ⟨hf, hle⟩]
  · simp [hf]

/-- At the top of the register stands the bit to be read next. -/
theorem sdout (h : Follows c a shown false f miso) {k : Nat} (hk : f.length = 16 + k) (hlt : k < 16)
    (hr : readsFrom f a = true) : c.sdout a sen = shown.getMsbD k := by
  have hdout := h.dout hr (by omega) (by simp)
  have ht : turns false f.length = k := by
    simp only [turns, hk, Bool.false_eq_true, if_false]
    omega
  have htop : c.doutReg.getLsbD 15 = shown.getMsbD k := by
    rw [hdout, ht, ← getMsbD_zero_rotateLeft shown hlt]
    simp [BitVec.getMsbD]
  rw [CfgBlock.sdout, htop, h.oe (by omega), hr, decide_eq_true (by omega : 16 ≤ f.length)]
  simp

/-- A rising edge within a frame. -/
theorem rise_within (h : Follows c a shown false f miso) (hlt : f.length < 32)
    (hm : miso.length = f.length) {q : Bool}
    (hq : readsFrom f a = true → 16 ≤ f.length → q = shown.getMsbD (f.length - 16)) :
    Follows (c.rise b a hw false sdin) a shown true (f ++ [sdin]) (miso ++ [q]) := by
  have hlen : (f ++ [sdin]).length = f.length + 1 := by simp
  constructor
  · have e : (c.rise b a hw false sdin).state = Mcfg.next c.state := rfl
    rw [e, h.state, Mcfg.next, if_pos hlt, hlen]
  · have e : (c.rise b a hw false sdin).instReg =
        if Mcfg.instRegEn c.state (c.fsmIn a false) then shiftIn c.instReg sdin else c.instReg := rfl
    obtain ⟨r, hr⟩ := h.inst
    have hen : Mcfg.instRegEn c.state (c.fsmIn a false) = decide (f.length < 16) := by
      rw [Mcfg.instRegEn, h.state]
      split
      · have : f.length = 0 := by omega
        simp [this, CfgBlock.fsmIn]
      · rfl
    refine ⟨r, ?_⟩
    rw [e, hen]
    by_cases h16 : f.length < 16
    · rw [List.take_of_length_le (by omega)] at hr
      rw [if_pos (decide_eq_true h16), List.take_of_length_le (by omega), hr, List.foldl_append]
      rfl
    · rw [if_neg (by simpa using h16), List.take_append_of_le_length (by omega), hr]
  · intro hw' _
    have e : (c.rise b a hw false sdin).dinReg =
        if Mcfg.dinRegEn c.state (c.fsmIn a false) then shiftIn c.dinReg sdin else c.dinReg := rfl
    by_cases h16 : 16 ≤ f.length
    · rw [writesTo_append h16] at hw'
      obtain ⟨r, hr⟩ := h.din hw' h16
      have hen : Mcfg.dinRegEn c.state (c.fsmIn a false) = true := by
        rw [Mcfg.dinRegEn, h.state, h.writeCycle h16, hw', decide_eq_true ⟨h16, by omega⟩]
        rfl
      refine ⟨r, ?_⟩
      rw [e, if_pos hen, hr, List.drop_append_of_le_length h16, List.foldl_append]
      rfl
    · -- the instruction has just been completed
      refine ⟨(c.rise b a hw false sdin).dinReg, ?_⟩
      rw [List.drop_eq_nil_of_le (by omega)]
      rfl
  · intro hr' hle hne
    have h16 : 16 ≤ f.length := by
      rw [hlen] at hle hne
      simp only [and_true] at hne
      omega
    rw [readsFrom_append h16] at hr'
    have e : (c.rise b a hw false sdin).doutReg = c.doutReg := rfl
    have ht : turns true (f.length + 1) = turns false f.length := by
      simp only [turns, Bool.false_eq_true, if_false, if_true]
      omega
    rw [e, h.dout hr' h16 (by simp), hlen, ht]
  · intro hr' hle
    by_cases h16 : 16 ≤ f.length
    · rw [readsFrom_append h16] at hr'
      rw [List.drop_append_of_le_length (by omega), h.miso hr' h16, hq hr' h16, hlen,
        ← msbBits_take_succ shown (by omega), Nat.sub_add_comm h16]
    · rw [List.drop_eq_nil_of_le (by rw [List.length_append, hm, List.length_singleton]; omega), hlen]
      rw [hlen] at hle
      have : f.length + 1 - 16 = 0 := by omega
      rw [this]
      rfl

/-- The rising edge after a complete frame is the first of the next one. -/
theorem rise_wraps (h : Follows c a shown false f miso) (hlen : f.length = 32) {q : Bool} :
    Follows (c.rise b a hw false sdin) a shown true [sdin] [q] where
  state := by
    have e : (c.rise b a hw false sdin).state = Mcfg.next c.state := rfl
    rw [e, h.state, hlen]
    rfl
  inst := by
    have e : (c.rise b a hw false sdin).instReg =
        if Mcfg.instRegEn c.state (c.fsmIn a false) then shiftIn c.instReg sdin else c.instReg := rfl
    refine ⟨c.instReg, ?_⟩
    rw [e, h.state, hlen]
    rfl
  din _ hle := absurd hle (by simp)
  dout _ hle := absurd hle (by simp)
  miso _ hle := absurd hle (by simp)

theorem fall (h : Follows c a shown true f miso) (hle : f.length ≤ 32) :
    Follows (c.fall b a hw sen) a
      (if f.length = 16 then b.readMux hw c.mem (registerOf f) else shown) false f miso where
  state := h.state
  inst := h.inst
  din := h.din
  dout := by
    intro hr h16 _
    have e : (c.fall b a hw sen).doutReg =
        if Mcfg.doutRegSen c.state (c.fsmIn a sen) then c.doutReg.rotateLeft 1
        else if Mcfg.doutRegLen c.state (c.fsmIn a sen) then
          b.readMux hw c.mem (c.instReg.extractLsb' 0 5)
        else c.doutReg := rfl
    rw [e, Mcfg.doutRegSen, Mcfg.doutRegLen, h.readCycle h16, hr, h.state]
    by_cases heq : f.length = 16
    · have ht : turns false f.length = 0 := by simp [turns, heq]
      rw [ht, if_pos heq]
      simp [heq, h.instReg h16, registerOf, rotateLeft_zero]
    · have hdout := h.dout hr h16 (by simp [heq])
      rw [if_neg heq, hdout]
      by_cases h32 : f.length = 32
      · simp [h32, turns]
      · have hin : decide (17 ≤ f.length ∧ f.length ≤ 31) = true := by
          apply decide_eq_true
          omega
        rw [hin, Bool.and_true, if_pos rfl]
        have ht : turns true f.length = f.length - 17 := by
          simp only [turns, if_true]
          omega
        have ht' : turns false f.length = f.length - 17 + 1 := by
          simp only [turns, Bool.false_eq_true, if_false]
          omega
        rw [ht, ht', rotateLeft_rotateLeft_one]
        omega
  miso := by
    intro hr h16
    split
    next heq =>
      have := h.miso hr h16
      rw [heq] at this ⊢
      simpa using this
    next => exact h.miso hr h16

/-- With the state machine reset nothing is under way. -/
theorem deselected (hs : c.state = 0) : Follows c a shown sclk [] [] where
  state := hs
  inst := ⟨c.instReg, rfl⟩
  din _ hle := absurd hle (by simp)
  dout _ hle := absurd hle (by simp)
  miso _ hle := absurd hle (by simp)

end Follows

/-! ## All four -/

namespace CfgTop

section tied

variable {m : AddressMap}

structure Tied (bus : Bus) (s : CfgTop) : Prop where
  follows : ∀ b, Follows (s.block b) (m.maddress b) (bus.shown b) s.sclk bus.frame bus.miso
  frame_le : bus.frame.length ≤ 32
  miso_length : bus.miso.length = bus.frame.length
  deselected : s.sen = true → bus.frame = []

variable {bus : Bus} {s : CfgTop}

/-- A block drives `sdout` only in frames that read from it. -/
theorem Tied.oe (h : Tied (m := m) bus s) (b : Block) :
    s.oe m b = (decide (16 ≤ bus.frame.length) && readsFrom bus.frame (m.maddress b)) :=
  (h.follows b).oe h.frame_le

theorem Tied.oe_unique (h : Tied (m := m) bus s) {b b' : Block} (hb : s.oe m b = true)
    (hb' : s.oe m b' = true) : b = b' := by
  rw [h.oe] at hb hb'
  simp only [readsFrom, Bool.and_eq_true, beq_iff_eq] at hb hb'
  exact m.distinct b b' (hb.2.1.symm.trans hb'.2.1)

/-- In a frame that reads from a block, the bus shows that block's bit. -/
theorem Tied.sdout (h : Tied (m := m) bus s) (hclk : s.sclk = false) (b : Block)
    (hr : readsFrom bus.frame (m.maddress b) = true) (h16 : 16 ≤ bus.frame.length)
    (hlt : bus.frame.length < 32) : s.sdout m = (bus.shown b).getMsbD (bus.frame.length - 16) := by
  have own : s.blockSdout m b = (bus.shown b).getMsbD (bus.frame.length - 16) := by
    have f := h.follows b
    rw [hclk] at f
    exact f.sdout (by omega) (by omega) hr
  have drives : s.oe m b = true := by rw [h.oe, hr, decide_eq_true h16]; rfl
  have silent (b' : Block) (hne : b' ≠ b) : s.blockSdout m b' = false := by
    have off : s.oe m b' = false := by
      cases hoe : s.oe m b'
      · rfl
      · exact absurd (h.oe_unique hoe drives) hne
    have e : s.blockSdout m b' = ((s.block b').doutReg.getLsbD 15 && s.oe m b') := rfl
    rw [e, off, Bool.and_false]
  rw [← own]
  cases b <;> simp [CfgTop.sdout, silent]

theorem Tied.rise (h : Tied (m := m) bus s) (hclk : s.sclk = false) (hsen : s.sen = false) :
    Tied (m := m) (note m bus s .sclk) (s.step m .sclk) := by
  have e : note m bus s .sclk =
      { bus with
        frame := Bus.open bus.frame bus.frame ++ [s.sdin]
        miso := Bus.open bus.frame bus.miso ++ [s.sdout m] } := by
    simp [note, hclk, hsen]
  have es (b : Block) : (s.step m .sclk).block b =
      (s.block b).rise b (m.maddress b) s.hw false s.sdin := by
    simp [CfgTop.step, hclk, hsen]
  have ec : (s.step m .sclk).sclk = true := by simp [CfgTop.step, hclk]
  have follows (b : Block) : Follows (s.block b) (m.maddress b) (bus.shown b) false bus.frame bus.miso := by
    rw [← hclk]
    exact h.follows b
  rw [e]
  by_cases h32 : bus.frame.length = 32
  · have ef (l : List Bool) : Bus.open bus.frame l = [] := if_pos h32
    refine ⟨fun b => ?_, ?_, ?_, ?_⟩
    · rw [ef, ef, es, ec]
      exact (follows b).rise_wraps h32
    · simp [ef]
    · simp [ef]
    · intro hs
      exact absurd (hsen.symm.trans hs) (by decide)
  · have ef (l : List Bool) : Bus.open bus.frame l = l := if_neg h32
    have hle := h.frame_le
    refine ⟨fun b => ?_, ?_, ?_, ?_⟩
    · rw [ef, ef, es, ec]
      apply (follows b).rise_within (by omega) h.miso_length
      intro hr h16
      exact h.sdout hclk b hr h16 (by omega)
    · rw [ef, List.length_append, List.length_singleton]
      omega
    · simp [ef, h.miso_length]
    · intro hs
      exact absurd (hsen.symm.trans hs) (by decide)

theorem Tied.step (h : Tied (m := m) bus s) (p : Pin) : Tied (m := m) (note m bus s p) (s.step m p) := by
  cases p with
  | sclk =>
    cases hclk : s.sclk
    · cases hsen : s.sen
      · exact h.rise hclk hsen
      · have hf := h.deselected hsen
        have hm : bus.miso = [] := by
          apply List.eq_nil_of_length_eq_zero
          rw [h.miso_length, hf]
          rfl
        have e : note m bus s .sclk = bus := by simp [note, hclk, hsen]
        rw [e]
        refine ⟨fun b => ?_, h.frame_le, h.miso_length, h.deselected⟩
        rw [hf, hm]
        apply Follows.deselected
        simp [CfgTop.step, hclk, hsen, CfgBlock.rise]
    · have e : note m bus s .sclk =
          { bus with shown := fun b => if bus.frame.length = 16 then
              b.readMux s.hw (s.block b).mem (registerOf bus.frame) else bus.shown b } := by
        by_cases h16 : bus.frame.length = 16 <;> simp [note, hclk, h16]
      rw [e]
      refine ⟨fun b => ?_, h.frame_le, h.miso_length, h.deselected⟩
      have ec : (s.step m .sclk).sclk = false := by simp [CfgTop.step, hclk]
      have es : (s.step m .sclk).block b = (s.block b).fall b (m.maddress b) s.hw s.sen := by
        simp [CfgTop.step, hclk]
      have f := h.follows b
      rw [hclk] at f
      rw [ec, es]
      exact f.fall h.frame_le
  | sen v =>
    cases v
    · exact ⟨h.follows, h.frame_le, h.miso_length, nofun⟩
    · refine ⟨fun b => ?_, by simp [note], rfl, fun _ => rfl⟩
      exact Follows.deselected rfl
  | sdin v => exact ⟨h.follows, h.frame_le, h.miso_length, h.deselected⟩
  | hw v => exact ⟨h.follows, h.frame_le, h.miso_length, h.deselected⟩

/-- The rising edges: only the last of a frame that writes to the block changes a register, apart
    from what the block reloads. -/
theorem Tied.mem_rise (h : Tied (m := m) bus s) (hclk : s.sclk = false) (b : Block) (a : BitVec 5) :
    ∃ v, (v = match completed bus s .sclk with
        | some f => if writesTo f (m.maddress b) = true ∧ registerOf f = a then dataOf f
          else (s.block b).mem a
        | none => (s.block b).mem a) ∧
      (completed bus s .sclk = none ∧ ((s.step m .sclk).block b).mem a = v ∨
        ((s.step m .sclk).block b).mem a = b.settle s.hw a ((s.block b).mem a) v) := by
  refine ⟨_, rfl, ?_⟩
  have f := h.follows b
  have es : (s.step m .sclk).block b =
      (s.block b).rise b (m.maddress b) s.hw s.sen s.sdin := by
    simp [CfgTop.step, hclk]
  have ev : (if Mcfg.memWe (s.block b).state ((s.block b).fsmIn (m.maddress b) s.sen) ∧
        a = (s.block b).instReg.extractLsb' 0 5 then shiftIn (s.block b).dinReg s.sdin
      else (s.block b).mem a) =
      match completed bus s .sclk with
        | some f => if writesTo f (m.maddress b) = true ∧ registerOf f = a then dataOf f
          else (s.block b).mem a
        | none => (s.block b).mem a := by
    by_cases h31 : bus.frame.length = 31
    · have h16 : 16 ≤ bus.frame.length := by omega
      have hsen : s.sen = false := by
        cases hsen : s.sen
        · rfl
        · rw [h.deselected hsen] at h31
          exact nomatch h31
      have hc : completed bus s .sclk = some (bus.frame ++ [s.sdin]) := by
        simp [completed, hclk, hsen, h31]
      rw [hc]
      have hreg : registerOf (bus.frame ++ [s.sdin]) = (s.block b).instReg.extractLsb' 0 5 := by
        rw [registerOf, inst_append h16, f.instReg h16]
      have hwe : Mcfg.memWe (s.block b).state ((s.block b).fsmIn (m.maddress b) s.sen) =
          writesTo bus.frame (m.maddress b) := by
        rw [Mcfg.memWe, f.state, f.writeCycle h16, decide_eq_true h31, Bool.true_and]
      dsimp only
      rw [hwe, writesTo_append h16, hreg]
      by_cases hw : writesTo bus.frame (m.maddress b) = true ∧
          a = (s.block b).instReg.extractLsb' 0 5
      · rw [if_pos hw, if_pos ⟨hw.1, hw.2.symm⟩]
        obtain ⟨r, hr⟩ := f.din hw.1 h16
        rw [hr, dataOf, List.drop_append_of_le_length h16]
        have := foldl_shiftIn_eq_word (w := 16) (l := bus.frame.drop 16 ++ [s.sdin])
          (by rw [List.length_append, List.length_drop, List.length_singleton]; omega) r
        rw [List.foldl_append] at this
        exact this
      · rw [if_neg hw, if_neg fun h' => hw ⟨h'.1, h'.2.symm⟩]
    · have hc : completed bus s .sclk = none := by simp [completed, h31]
      have hwe : Mcfg.memWe (s.block b).state ((s.block b).fsmIn (m.maddress b) s.sen) = false := by
        rw [Mcfg.memWe, f.state, decide_eq_false h31, Bool.false_and]
      simp [hc, hwe]
  rw [es, ← ev]
  have em : ((s.block b).rise b (m.maddress b) s.hw s.sen s.sdin).mem a =
      if Mcfg.doutRegLen (s.block b).state ((s.block b).fsmIn (m.maddress b) s.sen) then
        (if Mcfg.memWe (s.block b).state ((s.block b).fsmIn (m.maddress b) s.sen) ∧
          a = (s.block b).instReg.extractLsb' 0 5 then shiftIn (s.block b).dinReg s.sdin
        else (s.block b).mem a)
      else b.settle s.hw a ((s.block b).mem a)
        (if Mcfg.memWe (s.block b).state ((s.block b).fsmIn (m.maddress b) s.sen) ∧
          a = (s.block b).instReg.extractLsb' 0 5 then shiftIn (s.block b).dinReg s.sdin
        else (s.block b).mem a) := rfl
  rw [em]
  split
  next hlen =>
    -- the load edge is in the middle of a frame
    have h16 : bus.frame.length = 16 := by
      rw [← f.state]
      simp only [Mcfg.doutRegLen, Bool.and_eq_true, decide_eq_true_eq] at hlen
      exact hlen.1
    exact .inl ⟨by simp [completed, h16], rfl⟩
  next => exact .inr rfl

/-- Without a rising edge of `sclk` no register changes. -/
theorem mem_kept (s : CfgTop) (p : Pin) (h : ¬ (p = .sclk ∧ s.sclk = false)) (b : Block) :
    ((s.step m p).block b).mem = (s.block b).mem := by
  cases p with
  | sclk =>
    cases hclk : s.sclk
    · exact absurd ⟨rfl, hclk⟩ h
    · simp [CfgTop.step, hclk, CfgBlock.fall]
  | sen v => cases v <;> rfl
  | sdin v => rfl
  | hw v => rfl

end tied

/-- Levels of the pins and contents of the registers at the start. -/
structure PowerUp where
  sclk : Bool
  sen : Bool
  sdin : Bool
  hw : Hw
  mem : Block → Regs

section run

variable (m : AddressMap) (u : PowerUp)

def machine : Machine CfgTop Pin := ⟨start u.sclk u.sen u.sdin u.hw u.mem, step m⟩

variable (x : Nat → Pin)

abbrev topAt (n : Nat) : CfgTop := (machine m u).state x n

def busAt (n : Nat) : Bus := (machine m u).track (note m) ⟨[], [], fun _ => 0⟩ x n

theorem tied_at (n : Nat) : Tied (m := m) (busAt m u x n) (topAt m u x n) := by
  apply (machine m u).invariant_track (P := fun bus s => Tied (m := m) bus s)
  · exact ⟨fun b => Follows.deselected rfl, by simp, rfl, fun _ => rfl⟩
  · exact fun _ _ p h => h.step p

end run

/-- The registers a block reloads from the hardware. -/
def statusOf (b : Block) (a : BitVec 5) : Bool :=
  decide (b = .pllcfg) && (a == 1 || a == 2)

/-- What the registers and the bus owe in the `n`-th event. -/
structure RegisterFile (m : AddressMap) (u : PowerUp) (x : Nat → Pin) (n : Nat) : Prop where
  /-- A register changes by the last bit of a frame that writes to it, and by nothing else. -/
  writes : ∀ b, b ≠ .periphcfg → ∀ a, statusOf b a = false →
    ((topAt m u x (n + 1)).block b).mem a =
      match completed (busAt m u x n) (topAt m u x n) (x n) with
      | some f => if writesTo f (m.maddress b) = true ∧ registerOf f = a then dataOf f
        else ((topAt m u x n).block b).mem a
      | none => ((topAt m u x n).block b).mem a
  /-- A status register keeps its value or takes the one of the hardware. -/
  status : ∀ b, b ≠ .periphcfg → ∀ a, statusOf b a = true →
    ((topAt m u x (n + 1)).block b).mem a = ((topAt m u x n).block b).mem a ∨
      ∀ old v, ((topAt m u x (n + 1)).block b).mem a = b.settle (topAt m u x n).hw a old v
  /-- A complete frame that reads from a block has brought what its multiplexer had, bit by bit. -/
  reads : ∀ f, completed (busAt m u x n) (topAt m u x n) (x n) = some f → ∀ b,
    readsFrom f (m.maddress b) = true →
      (busAt m u x (n + 1)).miso.drop 16 = msbBits ((busAt m u x (n + 1)).shown b)
  /-- No two blocks drive `sdout`. -/
  alone : ∀ b b', (topAt m u x n).oe m b = true → (topAt m u x n).oe m b' = true → b = b'

theorem settle_of_not_status {b : Block} (hb : b ≠ .periphcfg) {a : BitVec 5}
    (hs : statusOf b a = false) (hw : Hw) (old v : BitVec 16) : b.settle hw a old v = v := by
  cases b with
  | periphcfg => exact absurd rfl hb
  | pllcfg =>
    simp only [statusOf, decide_true, Bool.true_and, Bool.or_eq_false_iff, beq_eq_false_iff_ne] at hs
    simp only [Block.settle]
    rw [if_neg hs.1, if_neg hs.2]
  | fpgacfg => rfl
  | tstcfg => rfl

theorem settle_of_status {b : Block} {a : BitVec 5} (hs : statusOf b a = true) (hw : Hw)
    (old v old' v' : BitVec 16) : b.settle hw a old v = b.settle hw a old' v' := by
  cases b with
  | pllcfg =>
    simp only [statusOf, decide_true, Bool.true_and, Bool.or_eq_true, beq_iff_eq] at hs
    rcases hs with rfl | rfl <;> rfl
  | _ => simp [statusOf] at hs

/-- The configuration blocks refine a register file, whatever happens on the pins. -/
theorem cfg_refines_register_file (m : AddressMap) (u : PowerUp) (x : Nat → Pin) (n : Nat) :
    RegisterFile m u x n := by
  have tied := tied_at m u x n
  have es : topAt m u x (n + 1) = (topAt m u x n).step m (x n) := rfl
  constructor
  · intro b hb a ha
    by_cases hp : x n = .sclk ∧ (topAt m u x n).sclk = false
    · obtain ⟨v, hv, hmem⟩ := tied.mem_rise hp.2 b a
      rw [es, hp.1, ← hv]
      rcases hmem with ⟨-, hmem⟩ | hmem
      · exact hmem
      · rw [hmem, settle_of_not_status hb ha]
    · have hc : completed (busAt m u x n) (topAt m u x n) (x n) = none := by
        rw [completed, if_neg]
        exact fun h => hp ⟨h.1, h.2.1⟩
      rw [es, mem_kept _ _ hp, hc]
  · intro b hb a ha
    by_cases hp : x n = .sclk ∧ (topAt m u x n).sclk = false
    · obtain ⟨v, hv, hmem⟩ := tied.mem_rise hp.2 b a
      rw [es, hp.1]
      rcases hmem with ⟨hc, hmem⟩ | hmem
      · rw [hc] at hv
        exact .inl (hmem.trans hv)
      · refine .inr fun old v' => ?_
        rw [hmem]
        exact settle_of_status ha _ _ _ _ _
    · exact .inl (by rw [es, mem_kept _ _ hp])
  · intro f hf b hr
    have hc : f.length = 32 ∧ (busAt m u x (n + 1)).frame = f := by
      unfold completed at hf
      split at hf
      next h =>
        obtain ⟨hp, hclk, hsen, h31⟩ := h
        obtain rfl := Option.some.inj hf
        have eb : busAt m u x (n + 1) = note m (busAt m u x n) (topAt m u x n) (x n) := rfl
        constructor
        · rw [List.length_append, h31]
          rfl
        · simp [eb, hp, note, hclk, hsen, Bus.open, h31]
      next => exact nomatch hf
    have after := tied_at m u x (n + 1)
    have hm := (after.follows b).miso (by rw [hc.2]; exact hr) (by rw [hc.2]; omega)
    rw [hm, hc.2, hc.1]
    exact msbBits_take_all _
  · intro b b' hb hb'
    exact tied.oe_unique hb hb'

end CfgTop

end Spi
