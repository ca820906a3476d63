import LimeSdrGw.Nios.NiosCpu
/-
# Commands to the configuration registers

A command to slave 1 is taken apart into frames of four bytes; between two commands the registers hold
what the frames so far have written, and a read has returned what its register held when it was made.
-/
namespace Nios

open Clocked Spi

/-- Whole frames; what is left over is dropped when the slave is let go. -/
def framesOf : List (BitVec 8) → List (List Bool)
  | b0 :: b1 :: b2 :: b3 :: l => [b0, b1, b2, b3].flatMap msbBits :: framesOf l
  | _ => []

/-- What a command leaves in the registers. -/
def SpiCommand.effect (m : AddressMap) (regs : Block → Regs) (c : SpiCommand) : Block → Regs :=
  if c.slave = spiNrFpga then (framesOf c.bytes).foldl (writeFrame m) regs else regs

/-- A register by its address, both bytes to be read. -/
def readCommand (x y : BitVec 8) : SpiCommand := ⟨spiNrFpga, [x, y], 2⟩

/-- The instruction of a command that begins with `x` and `y`. -/
def instBits (x y : BitVec 8) : List Bool := msbBits x ++ msbBits y

/-- Each read of an own register has returned it as the commands before left it. -/
def Consistent (m : AddressMap) (regs : Block → Regs) (done : List (SpiCommand × List (BitVec 8))) :
    Prop :=
  ∀ pre x y reply post, done = pre ++ (readCommand x y, reply) :: post →
    ∀ b, readsFrom (instBits x y) (m.maddress b) = true → own b (registerOf (instBits x y)) = true →
      ∀ hw, reply = packBytes (msbBits (b.readMux hw
        ((pre.map Prod.fst).foldl (SpiCommand.effect m) regs b) (registerOf (instBits x y))))

namespace RegisterSlave

variable {m : AddressMap} {regs : Block → Regs} {bits l q : List Bool}

theorem run_rise (a b : Bool) (l q : List Bool) (r : RegisterSlave) :
    r.run m (List.zipWith .rise (a :: l) (b :: q)) =
      (r.event m (.rise a b)).run m (List.zipWith .rise l q) := rfl

theorem event_rise (a b : Bool) (hl : bits.length < 31) :
    event m ⟨true, bits, regs⟩ (.rise a b) = ⟨true, bits ++ [a], regs⟩ := by
  have hopen : CfgTop.Bus.open bits bits = bits := if_neg (by omega)
  have hlen : ¬ (bits ++ [a]).length = 32 := by
    rw [List.length_append, List.length_singleton]
    omega
  rw [event, if_pos rfl]
  show (⟨true, CfgTop.Bus.open bits bits ++ [a],
    if (CfgTop.Bus.open bits bits ++ [a]).length = 32 then _ else regs⟩ : RegisterSlave) = _
  rw [hopen, if_neg hlen]

/-- Bits that do not complete the frame. -/
theorem run_within (hq : q.length = l.length) (hl : bits.length + l.length < 32) :
    run m ⟨true, bits, regs⟩ (List.zipWith .rise l q) = ⟨true, bits ++ l, regs⟩ := by
  induction l generalizing bits q with
  | nil => rw [List.append_nil]; rfl
  | cons a l ih =>
    rw [List.length_cons] at hl
    cases q with
    | nil => exact absurd hq (Nat.succ_ne_zero _).symm
    | cons b q =>
      rw [run_rise, event_rise a b (by omega), ih (Nat.succ.inj hq), List.append_assoc]
      · rfl
      · rw [List.length_append, List.length_singleton]
        omega

/-- The bit that completes it. -/
theorem event_last (a b : Bool) (hl : bits.length = 31) :
    event m ⟨true, bits, regs⟩ (.rise a b) =
      ⟨true, bits ++ [a], writeFrame m regs (bits ++ [a])⟩ := by
  have hopen : CfgTop.Bus.open bits bits = bits := if_neg (by omega)
  have hlen : (bits ++ [a]).length = 32 := by rw [List.length_append, hl, List.length_singleton]
  rw [event, if_pos rfl]
  show (⟨true, CfgTop.Bus.open bits bits ++ [a],
    if (CfgTop.Bus.open bits bits ++ [a]).length = 32 then _ else regs⟩ : RegisterSlave) = _
  rw [hopen, if_pos hlen]

/-- The first bit behind a complete frame begins the next one. -/
theorem event_opens (a b : Bool) (hl : bits.length = 32) :
    event m ⟨true, bits, regs⟩ (.rise a b) = ⟨true, [a], regs⟩ := by
  have hopen : CfgTop.Bus.open bits bits = [] := if_pos hl
  rw [event, if_pos rfl]
  show (⟨true, CfgTop.Bus.open bits bits ++ [a],
    if (CfgTop.Bus.open bits bits ++ [a]).length = 32 then _ else regs⟩ : RegisterSlave) = _
  rw [hopen]
  rfl

/-- Nothing is under way. -/
def Fresh (bits : List Bool) : Prop := bits = [] ∨ bits.length = 32

theorem event_first (a b : Bool) (hf : Fresh bits) :
    event m ⟨true, bits, regs⟩ (.rise a b) = ⟨true, [a], regs⟩ := by
  rcases hf with rfl | hl
  · exact event_rise a b (by decide)
  · exact event_opens a b hl

theorem run_frame (hf : Fresh bits) (hl : l.length = 32) (hq : q.length = 32) :
    run m ⟨true, bits, regs⟩ (List.zipWith .rise l q) = ⟨true, l, writeFrame m regs l⟩ := by
  cases l with
  | nil => exact absurd hl (by decide)
  | cons a l =>
    cases q with
    | nil => exact absurd hq (by decide)
    | cons b q =>
      have hl' : l.length = 31 := Nat.succ.inj hl
      have hq' : q.length = 31 := Nat.succ.inj hq
      obtain ⟨l', c, rfl⟩ : ∃ l' c, l = l' ++ [c] := ⟨_, _, (List.dropLast_concat_getLast
        (List.ne_nil_of_length_eq_add_one hl')).symm⟩
      obtain ⟨q', d, rfl⟩ : ∃ q' d, q = q' ++ [d] := ⟨_, _, (List.dropLast_concat_getLast
        (List.ne_nil_of_length_eq_add_one hq')).symm⟩
      rw [List.length_append, List.length_singleton] at hl' hq'
      rw [run_rise, event_first a b hf, List.zipWith_append (by omega), run_append,
        run_within (by omega) (by rw [List.length_singleton]; omega)]
      show event m ⟨true, a :: l', regs⟩ (.rise c d) = _
      rw [event_last c d (by rw [List.length_cons]; omega)]
      rfl

/-- Another slave is selected, or none. -/
theorem run_deselected : run m ⟨false, bits, regs⟩ (List.zipWith .rise l q) = ⟨false, bits, regs⟩ := by
  induction l generalizing q with
  | nil => rfl
  | cons a l ih =>
    cases q with
    | nil => rfl
    | cons b q => exact ih

/-- Less than a frame. -/
theorem run_tail (hf : Fresh bits) (hl : l.length < 32) (hq : q.length = l.length) :
    ∃ bits', run m ⟨true, bits, regs⟩ (List.zipWith .rise l q) = ⟨true, bits', regs⟩ := by
  cases l with
  | nil => exact ⟨bits, rfl⟩
  | cons a l =>
    cases q with
    | nil => exact absurd hq (Nat.succ_ne_zero _).symm
    | cons b q =>
      refine ⟨[a] ++ l, ?_⟩
      rw [run_rise, event_first a b hf, run_within (Nat.succ.inj hq)]
      rw [List.length_cons] at hl
      rw [List.length_singleton]
      omega

theorem run_frames (bytes : List (BitVec 8)) (hf : Fresh bits) (hq : q.length = 8 * bytes.length) :
    ∃ bits', run m ⟨true, bits, regs⟩ (List.zipWith .rise (bytes.flatMap msbBits) q) =
      ⟨true, bits', (framesOf bytes).foldl (writeFrame m) regs⟩ := by
  induction bytes using framesOf.induct generalizing bits q regs with
  | case1 b0 b1 b2 b3 l ih =>
    have hsplit : (b0 :: b1 :: b2 :: b3 :: l).flatMap msbBits =
        [b0, b1, b2, b3].flatMap msbBits ++ l.flatMap msbBits := by
      rw [← List.flatMap_append]
      rfl
    have hframe : ([b0, b1, b2, b3].flatMap msbBits).length = 32 := length_flatMap_msbBits _
    have hlen : q.length = 8 * l.length + 32 := by
      rw [hq]
      simp only [List.length_cons]
      omega
    have htake : (q.take 32).length = 32 := by
      rw [List.length_take]
      omega
    rw [hsplit, ← List.take_append_drop 32 q, List.zipWith_append (hframe.trans htake.symm), run_append,
      run_frame hf hframe htake]
    exact ih (.inr hframe) (by rw [List.length_drop]; omega)
  | case2 l hshort =>
    have hlt : l.length < 4 := by
      rcases l with _ | ⟨b0, _ | ⟨b1, _ | ⟨b2, _ | ⟨b3, l⟩⟩⟩⟩
      · exact Nat.zero_lt_succ 3
      · exact (by decide : 1 < 4)
      · exact (by decide : 2 < 4)
      · exact (by decide : 3 < 4)
      · exact absurd rfl (hshort b0 b1 b2 b3 l)
    have hnone : framesOf l = [] := by
      rw [framesOf]
      exact hshort
    have hbits := length_flatMap_msbBits l
    obtain ⟨bits', hrun⟩ : ∃ bits', run m ⟨true, bits, regs⟩ (List.zipWith .rise (l.flatMap msbBits) q) =
      ⟨true, bits', regs⟩ := run_tail hf (by omega) (hq.trans hbits.symm)
    exact ⟨bits', by rw [hrun, hnone]; rfl⟩

/-- Between two commands. -/
def between (regs : Block → Regs) : RegisterSlave := ⟨false, [], regs⟩

theorem select_bit (k : Fin 5) : (~~~(1#5 <<< k.val)).getLsbD 1 = !decide (k = spiNrFpga) := by
  revert k
  decide

theorem run_transcript (c : SpiCommand) {miso : List Bool} (hlen : miso.length = 8 * c.bytes.length) :
    run m (between regs) (c.transcript miso) = between (c.effect m regs) := by
  have hbit : c.select.getLsbD 1 = !decide (c.slave = spiNrFpga) := select_bit c.slave
  rw [SpiCommand.transcript, run_append]
  show event m (run m (event m (between regs) (.ss c.select)) _) (.ss (BitVec.allOnes 5)) = _
  rw [event, event, hbit, SpiCommand.effect, SpiCommand.mosi]
  by_cases h1 : c.slave = spiNrFpga
  · rw [decide_eq_true h1, if_pos h1]
    obtain ⟨bits', hrun⟩ : ∃ bits', run m ⟨true, [], regs⟩ (List.zipWith .rise (c.bytes.flatMap msbBits)
      miso) = ⟨true, bits', (framesOf c.bytes).foldl (writeFrame m) regs⟩ :=
      run_frames c.bytes (.inl rfl) hlen
    show (run m ⟨true, [], regs⟩ _).select _ = _
    rw [hrun]
    rfl
  · rw [decide_eq_false h1, if_neg h1]
    show (run m ⟨false, [], regs⟩ _).select _ = _
    rw [run_deselected]
    rfl

/-- Some state of the hardware. -/
def anyHw : Hw where
  toFpgacfg := ⟨0, 0, false⟩
  toPllcfg := ⟨false, false, false, false, 0⟩
  toTstcfg := ⟨0, 0, 0, 0, 0, 0, 0, 0, 0, 0, 0, 0, 0, 0⟩
  toTstcfgFromRxtx := ⟨0, 0⟩
  toPeriphcfg := ⟨0, 0, 0⟩

/-- What comes back of a register. -/
theorem answered_bits {b : Block} {v : BitVec 16} (hq : q.length = l.length) (h16 : 16 ≤ bits.length)
    (hl : bits.length + l.length ≤ 32) (hr : readsFrom bits (m.maddress b) = true)
    (ho : own b (registerOf bits) = true)
    (hv : ∀ hw, b.readMux hw (regs b) (registerOf bits) = v)
    (ha : Answered m ⟨true, bits, regs⟩ (List.zipWith .rise l q)) :
    q = ((msbBits v).drop (bits.length - 16)).take l.length := by
  induction l generalizing bits q with
  | nil => rw [List.length_nil, List.take_zero]; exact List.eq_nil_of_length_eq_zero hq
  | cons a l ih =>
    cases q with
    | nil => exact absurd hq (Nat.succ_ne_zero _).symm
    | cons c q =>
      obtain ⟨hc, ha⟩ := ha
      rw [List.length_cons] at hl
      have hbit : c = v.getMsbD (bits.length - 16) := by
        rw [hc rfl h16 (by show bits.length < 32; omega) b hr ho anyHw, hv]
      have hk : bits.length - 16 < (msbBits v).length := by
        simp only [msbBits, List.length_map, List.length_range]
        omega
      rw [List.drop_eq_getElem_cons hk, List.length_cons, List.take_succ_cons]
      congr 1
      · rw [hbit]
        simp [msbBits]
      · by_cases h31 : bits.length < 31
        · rw [event_rise a c h31] at ha
          have hlen : (bits ++ [a]).length = bits.length + 1 := by simp
          have hreg : registerOf (bits ++ [a]) = registerOf bits := by
            rw [registerOf, registerOf, inst_append h16]
          have hrest := ih (Nat.succ.inj hq) (by omega) (by omega)
            (by rw [readsFrom_append h16]; exact hr) (by rw [hreg]; exact ho)
            (by rw [hreg]; exact hv) ha
          rw [hrest, hlen, Nat.sub_add_comm h16]
        · have hl0 : l = [] := List.eq_nil_of_length_eq_zero (by omega)
          subst hl0
          exact List.eq_nil_of_length_eq_zero (Nat.succ.inj hq)

/-- The answer to a read. -/
theorem reply_of_answered {x y : BitVec 8} {miso : List Bool} (hlen : miso.length = 32) {b : Block}
    (hr : readsFrom (instBits x y) (m.maddress b) = true)
    (ho : own b (registerOf (instBits x y)) = true)
    (ha : Answered m (between regs) ((readCommand x y).transcript miso)) (hw : Hw) :
    (readCommand x y).reply miso =
      packBytes (msbBits (b.readMux hw (regs b) (registerOf (instBits x y)))) := by
  have hmosi : (readCommand x y).mosi = instBits x y ++ [(0 : BitVec 8), 0].flatMap msbBits := by
    simp [SpiCommand.mosi, SpiCommand.bytes, readCommand, instBits, List.replicate]
  have h16 : (instBits x y).length = 16 := by simp [instBits, msbBits]
  have hzero : ([(0 : BitVec 8), 0].flatMap msbBits).length = 16 := length_flatMap_msbBits _
  have htake : (miso.take 16).length = 16 := by
    rw [List.length_take]
    omega
  have hdrop : (miso.drop 16).length = 16 := by
    rw [List.length_drop]
    omega
  -- the select line, the instruction, then the bits of the register
  rw [SpiCommand.transcript, hmosi, ← List.take_append_drop 16 miso,
    List.zipWith_append (h16.trans htake.symm), ← List.cons_append, List.append_assoc,
    answered_append] at ha
  have hsel : run m (between regs) (.ss (readCommand x y).select ::
      List.zipWith .rise (instBits x y) (miso.take 16)) = ⟨true, instBits x y, regs⟩ := by
    have hbit : (readCommand x y).select.getLsbD 1 = false := select_bit spiNrFpga
    show run m ((between regs).select ((readCommand x y).select.getLsbD 1)) _ = _
    rw [hbit]
    show run m ⟨true, [], regs⟩ _ = _
    rw [run_within (htake.trans h16.symm) (by rw [h16]; decide)]
    rfl
  obtain ⟨ha, -⟩ := answered_append.1 ha.2
  rw [hsel] at ha
  have hbits := answered_bits (hdrop.trans hzero.symm) (Nat.le_of_eq h16.symm)
    (Nat.le_of_eq (by rw [h16, hzero])) hr ho (fun hw' => readMux_congr ho rfl hw' hw) ha
  rw [h16, hzero, Nat.sub_self, List.drop_zero, msbBits_take_all] at hbits
  rw [SpiCommand.reply]
  exact congrArg packBytes hbits

/-- Commands one after the other. -/
theorem run_served {done : List (SpiCommand × List (BitVec 8))} {log : List WireEvent}
    (h : Served done log) (regs : Block → Regs) :
    run m (between regs) log = between ((done.map Prod.fst).foldl (SpiCommand.effect m) regs) := by
  induction h with
  | nil => rfl
  | snoc h c miso hlen ih =>
    rw [run_append, ih, run_transcript c hlen, List.map_append, List.foldl_append]
    rfl

theorem consistent_of_answered {done : List (SpiCommand × List (BitVec 8))} {log : List WireEvent}
    (h : Served done log) (ha : Answered m (between regs) log) : Consistent m regs done := by
  induction h with
  | nil =>
    intro pre x y reply post hnil
    exact absurd hnil (by simp)
  | @snoc d l h c miso hlen ih =>
    obtain ⟨ha, hlast⟩ := answered_append.1 ha
    intro pre x y reply post hd
    rcases List.eq_nil_or_concat post with rfl | ⟨post', e, rfl⟩
    · -- the last command
      obtain ⟨rfl, hlastEq⟩ := List.append_inj' hd rfl
      obtain ⟨rfl, rfl⟩ := Prod.mk.inj (List.singleton_inj.1 hlastEq)
      intro b hr ho hw
      rw [run_served h regs] at hlast
      exact reply_of_answered hlen hr ho hlast hw
    · have hinit : d = pre ++ (readCommand x y, reply) :: post' := by
        rw [List.concat_eq_append, ← List.cons_append, ← List.append_assoc] at hd
        exact (List.append_inj' hd rfl).1
      exact ih ha pre x y reply post' hinit

end RegisterSlave

/-! ## Runs of the whole -/

section run

variable {m : AddressMap} {cmds : List SpiCommand} {hw0 : Hw} {mem : Block → Regs}
  {x : Nat → NiosCpuIn} {n : Nat}

/-- What the processor gets from the wires. -/
def hostIns (m : AddressMap) (cmds : List SpiCommand) (hw0 : Hw) (mem : Block → Regs)
    (x : Nat → NiosCpuIn) (n : Nat) : SpiHostIn :=
  ((niosCpu m cmds hw0 mem).state x n).hostIn m (x n)

theorem host_at (n : Nat) : ((niosCpu m cmds hw0 mem).state x n).host =
    (spiHost cmds).state (hostIns m cmds hw0 mem x) n :=
  (niosCpu m cmds hw0 mem).state_part NiosCpu.host SpiHost.step (NiosCpu.hostIn m)
    (fun _ _ => rfl) x n

theorem wire_log (n : Nat) : (niosCpu m cmds hw0 mem).log (NiosCpu.wire m) x n =
    (spiHost cmds).log SpiHost.wire (hostIns m cmds hw0 mem x) n := by
  induction n with
  | zero => rfl
  | succ n ih =>
    rw [Machine.log_succ, Machine.log_succ, ih, NiosCpu.wire, host_at]
    rfl

/-- Nobody else answers the master while the configuration logic is selected. -/
def QuietPin (m : AddressMap) (cmds : List SpiCommand) (hw0 : Hw) (mem : Block → Regs)
    (x : Nat → NiosCpuIn) : Prop :=
  ∀ n, ((niosCpu m cmds hw0 mem).state x n).host.core.ssN.getLsbD 1 = false → (x n).spi0Miso = false

theorem wired_at (n : Nat) : Wired ((niosCpu m cmds hw0 mem).state x n) := by
  induction n with
  | zero =>
    have hsen : true = SpiMaster.reset.ssN.getLsbD 1 := by decide
    have hsdin : false = SpiMaster.reset.mosi := by decide
    exact ⟨rfl, hsen, hsdin⟩
  | succ n ih => exact ih.step

theorem refined_at (hpin : QuietPin m cmds hw0 mem x) (n : Nat) :
    (RegisterSlave.between mem).Answered m ((niosCpu m cmds hw0 mem).log (NiosCpu.wire m) x n) ∧
      ∃ bus, Refined m bus ((niosCpu m cmds hw0 mem).state x n).top
        ((RegisterSlave.between mem).run m ((niosCpu m cmds hw0 mem).log (NiosCpu.wire m) x n)) := by
  induction n with
  | zero =>
    refine ⟨trivial, ⟨[], [], fun _ => 0⟩, ?_, rfl, rfl, fun _ _ _ => rfl, ?_⟩
    · exact ⟨fun b => Follows.deselected rfl, by simp, rfl, fun _ => rfl⟩
    · exact fun hle => absurd hle (Nat.not_succ_le_zero 15)
  | succ n ih =>
    obtain ⟨ha, bus, h⟩ := ih
    have hw : Wired ((niosCpu m cmds hw0 mem).state x n) := wired_at n
    rw [Machine.log_succ, RegisterSlave.answered_append, RegisterSlave.run_append]
    obtain ⟨ha', hr'⟩ := h.clock hw fun hs => hpin n (hw.sen.symm.trans hs)
    exact ⟨⟨ha, ha'⟩, hr'⟩

/-- Between two commands the registers hold what the commands done have written, and each read has
    returned its register as the commands before left it, whatever the pace of the processor. -/
theorem registers_between (hne : ∀ c ∈ cmds, c.bytes ≠ []) (hpin : QuietPin m cmds hw0 mem x)
    (hidle : ((niosCpu m cmds hw0 mem).state x n).host.cpu.pc = .idle) :
    let s := (niosCpu m cmds hw0 mem).state x n
    s.host.cpu.done.map Prod.fst ++ s.host.cpu.todo = cmds ∧
      (∀ b a, own b a = true → (s.top.block b).mem a =
        (s.host.cpu.done.map Prod.fst).foldl (SpiCommand.effect m) mem b a) ∧
      Consistent m mem s.host.cpu.done := by
  intro s
  obtain ⟨ha, bus, h⟩ := refined_at hpin n
  have hhost : s.host = (spiHost cmds).state (hostIns m cmds hw0 mem x) n := host_at n
  have hidle' : ((spiHost cmds).state (hostIns m cmds hw0 mem x) n).cpu.pc = .idle := by
    rw [← hhost]
    exact hidle
  obtain ⟨hserved, hall⟩ := served_between hne hidle'
  rw [← wire_log, ← hhost] at hserved
  rw [← hhost] at hall
  refine ⟨hall, ?_, RegisterSlave.consistent_of_answered hserved ha⟩
  rw [RegisterSlave.run_served hserved] at h
  exact fun b a hb => h.regs b a hb

/-- A processor that keeps coming by gets all commands to the registers. -/
theorem registers_at_end (hne : ∀ c ∈ cmds, c.bytes ≠ []) (hpin : QuietPin m cmds hw0 mem x)
    (fair : ∀ n, ∃ k, n ≤ k ∧ (x k).go = true) :
    ∃ n, ∀ k, n ≤ k → ∀ b a, own b a = true →
      ((((niosCpu m cmds hw0 mem).state x k).top.block b).mem a =
        cmds.foldl (SpiCommand.effect m) mem b a) := by
  obtain ⟨n, hn⟩ := served_all (x := hostIns m cmds hw0 mem x) hne fair
  refine ⟨n, ?_⟩
  intro k hk b a hb
  obtain ⟨hidle, hdone, -⟩ := hn k hk
  rw [← host_at] at hidle hdone
  rw [(registers_between hne hpin hidle).2.1 b a hb, hdone]

/-- Software sees a register file: whenever the driver is between two commands the registers hold what the
    frames so far have written and each read has returned its register as it was then; a processor that
    keeps coming by gets all commands there. -/
theorem registers_follow_commands (hne : ∀ c ∈ cmds, c.bytes ≠ [])
    (hpin : QuietPin m cmds hw0 mem x) :
    (∀ n, ((niosCpu m cmds hw0 mem).state x n).host.cpu.pc = .idle →
      (∀ b a, own b a = true → (((niosCpu m cmds hw0 mem).state x n).top.block b).mem a =
        (((niosCpu m cmds hw0 mem).state x n).host.cpu.done.map Prod.fst).foldl
          (SpiCommand.effect m) mem b a) ∧
      Consistent m mem ((niosCpu m cmds hw0 mem).state x n).host.cpu.done) ∧
    ((∀ n, ∃ k, n ≤ k ∧ (x k).go = true) → ∃ n, ∀ k, n ≤ k → ∀ b a, own b a = true →
      (((niosCpu m cmds hw0 mem).state x k).top.block b).mem a =
        cmds.foldl (SpiCommand.effect m) mem b a) :=
  ⟨fun _ hidle => (registers_between hne hpin hidle).2, registers_at_end hne hpin⟩

/-- Register 7 of `fpgacfg` is written and read back. -/
def writeThenRead : List SpiCommand :=
  [⟨spiNrFpga, [0x80, 0x07, 0x12, 0x34], 0⟩, readCommand 0x00 0x07]

/-- The transceiver is silent, and the processor comes by in every clock. -/
def silent (_ : Nat) : NiosCpuIn := ⟨true, false, RegisterSlave.anyHw⟩

def pairAt (n : Nat) : NiosCpu :=
  (niosCpu topAddresses writeThenRead RegisterSlave.anyHw fun _ => fpgacfgDefaults).state silent n

theorem writeThenRead_ne : ∀ c ∈ writeThenRead, c.bytes ≠ [] := by
  decide

theorem quietPin_silent :
    QuietPin topAddresses writeThenRead RegisterSlave.anyHw (fun _ => fpgacfgDefaults) silent :=
  fun _ _ => rfl

/-- Both commands get through, and the read brings what the write has left. -/
theorem pair_done : ∃ n reply, (pairAt n).host.cpu.pc = .idle ∧ (pairAt n).host.cpu.done =
    [(⟨spiNrFpga, [0x80, 0x07, 0x12, 0x34], 0⟩, reply), (readCommand 0x00 0x07, [0x12, 0x34])] := by
  obtain ⟨n, hn⟩ := served_all (x := hostIns topAddresses writeThenRead RegisterSlave.anyHw
    (fun _ => fpgacfgDefaults) silent) writeThenRead_ne fun n => ⟨n, Nat.le_refl n, rfl⟩
  obtain ⟨hidle, hdone, -⟩ := hn n (Nat.le_refl n)
  rw [← host_at] at hidle hdone
  obtain ⟨-, -, hcons⟩ := registers_between writeThenRead_ne quietPin_silent hidle
  obtain ⟨⟨c₁, r₁⟩, rest, hd, h₁, hrest⟩ := List.map_eq_cons_iff.1 hdone
  obtain ⟨⟨c₂, r₂⟩, rfl, h₂⟩ := List.map_eq_singleton_iff.1 hrest
  obtain rfl : c₁ = ⟨spiNrFpga, [0x80, 0x07, 0x12, 0x34], 0⟩ := h₁
  obtain rfl : c₂ = readCommand 0x00 0x07 := h₂
  have hreply : r₂ = [0x12, 0x34] := by
    rw [hcons [(_, r₁)] 0x00 0x07 r₂ [] hd .fpgacfg (by decide) (by decide) RegisterSlave.anyHw]
    simp only [List.map_cons, List.map_nil]
    decide
  exact ⟨n, r₁, hidle, hreply ▸ hd⟩

/-- Register 7 of `fpgacfg` holds what has been written, and it has been read back. -/
theorem registers_follow_commands_pair : ∃ n reply,
    ((pairAt n).top.block .fpgacfg).mem 7 = 0x1234 ∧ (pairAt n).host.cpu.done =
      [(⟨spiNrFpga, [0x80, 0x07, 0x12, 0x34], 0⟩, reply), (readCommand 0x00 0x07, [0x12, 0x34])] := by
  obtain ⟨n, reply, hidle, hdone⟩ := pair_done
  obtain ⟨hmem, -⟩ := (registers_follow_commands writeThenRead_ne quietPin_silent).1 n hidle
  refine ⟨n, reply, ?_, hdone⟩
  have hmem7 := hmem .fpgacfg 7 (by decide)
  rw [show (niosCpu _ _ _ _).state _ _ = pairAt n from rfl, hdone] at hmem7
  exact hmem7

end run

end Nios
