import LimeSdrGw.Fw.Completion
import LimeSdrGw.Nios.FpgaRegisters
/-
# Packets to the configuration registers

`CMD_BRDSPI16_WR` and `CMD_BRDSPI16_RD` from the packet down to the registers: the firmware turns blocks
into SPI commands (main.c:485-535), the driver and the master put them on the wires, the configuration
logic takes them from there. An `Exchange` is a packet that has been answered, with what went over
`SPI_LMS` for it.
-/
namespace Nios

open Clocked Spi Effect Proc

/-- The register a packet means, without the write bit. -/
def registerAddress (x y : UInt8) : BitVec 15 := (x.toBitVec ++ y.toBitVec).setWidth 15

def writeRegister (m : AddressMap) (regs : Block → Regs) (a : BitVec 15) (v : BitVec 16) :
    Block → Regs := fun b =>
  if a.extractLsb' 5 10 = m.maddress b then (regs b).set (a.extractLsb' 0 5) v else regs b

/-- The SPI commands behind the operations of the firmware, with their answers; `k` counts those the
    firmware has seen. Waiting for the MCU of the transceiver reads its status any number of times. -/
inductive Traffic (b : Fw.Board) :
    Nat → List (Fw.Op × Bool) → List (SpiCommand × List (BitVec 8)) → Prop
  | nil {k : Nat} : Traffic b k [] []
  | fpga {k : Nat} {w : List UInt8} {ok : Bool} {ops : List (Fw.Op × Bool)}
      {t : List (SpiCommand × List (BitVec 8))} (reply : List (BitVec 8)) (h : Traffic b k ops t) :
      Traffic b k ((.spi .fpga w, ok) :: ops) ((⟨spiNrFpga, w.map UInt8.toBitVec, 0⟩, reply) :: t)
  | lms {k : Nat} {w : List UInt8} {ok : Bool} {ops : List (Fw.Op × Bool)}
      {t : List (SpiCommand × List (BitVec 8))} (reply : List (BitVec 8)) (h : Traffic b k ops t) :
      Traffic b k ((.spi .lms7002m w, ok) :: ops) ((⟨spiNrLms7002m, w.map UInt8.toBitVec, 0⟩, reply) :: t)
  | fpgaRead {k : Nat} {w : List UInt8} {ok : Bool} {ops : List (Fw.Op × Bool)}
      {t : List (SpiCommand × List (BitVec 8))} (h : Traffic b (k + 1) ops t) :
      Traffic b k ((.spiRead .fpga w, ok) :: ops) ((⟨spiNrFpga, w.map UInt8.toBitVec, 2⟩,
        [(b.spiBytes k).1.toBitVec, (b.spiBytes k).2.toBitVec]) :: t)
  | lmsRead {k : Nat} {w : List UInt8} {ok : Bool} {ops : List (Fw.Op × Bool)}
      {t : List (SpiCommand × List (BitVec 8))} (h : Traffic b (k + 1) ops t) :
      Traffic b k ((.spiRead .lms7002m w, ok) :: ops) ((⟨spiNrLms7002m, w.map UInt8.toBitVec, 2⟩,
        [(b.spiBytes k).1.toBitVec, (b.spiBytes k).2.toBitVec]) :: t)
  | poll {k : Nat} {bit : UInt8} {ok : Bool} {ops : List (Fw.Op × Bool)}
      {t : List (SpiCommand × List (BitVec 8))} (replies : List (List (BitVec 8)))
      (h : Traffic b k ops t) :
      Traffic b k ((.mcuWait bit, ok) :: ops) (replies.map (⟨spiNrLms7002m, [0x00, 0x03], 2⟩, ·) ++ t)
  | elsewhere {k : Nat} {o : Fw.Op} {ok : Bool} {ops : List (Fw.Op × Bool)}
      {t : List (SpiCommand × List (BitVec 8))}
      (ho : ∀ dev w, (o = .spi dev w ∨ o = .spiRead dev w) → dev = .dac ∨ dev = .adf4002)
      (hw : ∀ bit, o ≠ .mcuWait bit) (h : Traffic b k ops t) : Traffic b k ((o, ok) :: ops) t

/-- A packet from its arrival to its answer. -/
structure Exchange where
  b : Fw.Board
  fuel : Nat
  p : Fw.Packet
  before : Fw.Machine
  after : Fw.Machine
  traffic : List (SpiCommand × List (BitVec 8))
  handled : Fw.handle b fuel p before = (some (), after)
  carried : Traffic b 0 after.ops traffic

namespace Exchange

/-- What the packet leaves in the registers. -/
def effect (m : AddressMap) (regs : Block → Regs) (e : Exchange) : Block → Regs :=
  (e.traffic.map Prod.fst).foldl (SpiCommand.effect m) regs

/-- `CMD_BRDSPI16_WR` of up to fourteen registers. -/
def Writes (e : Exchange) : Prop := Fw.Command.ofCode e.p.command = some .brdspi16Wr ∧ e.p.dataBlocks.toNat ≤ 14

def Reads (e : Exchange) : Prop := Fw.Command.ofCode e.p.command = some .brdspi16Rd ∧ e.p.dataBlocks.toNat ≤ 14

end Exchange

/-! ## Frames of the firmware -/

theorem inst_msbBits (x y : BitVec 8) (l : List Bool) : inst (msbBits x ++ msbBits y ++ l) = x ++ y := by
  have hlen : (msbBits x ++ msbBits y).length = 16 := by simp [msbBits]
  rw [inst, List.take_left' hlen, ← msbBits_append, word_msbBits]

theorem dataOf_msbBits (x y : BitVec 8) {l : List Bool} (hl : l.length = 16) :
    dataOf (l ++ (msbBits x ++ msbBits y)) = x ++ y := by
  rw [dataOf, List.drop_left' hl, ← msbBits_append, word_msbBits]

theorem halves (v : BitVec 16) : v.extractLsb' 8 8 ++ v.extractLsb' 0 8 = v := by
  apply BitVec.eq_of_getLsbD_eq
  intro i hi
  simp only [BitVec.getLsbD_append, BitVec.getLsbD_extractLsb']
  by_cases h8 : i < 8
  · simp [h8]
  · have h : i - 8 < 8 := by omega
    simp [h8, h, Nat.add_sub_cancel' (Nat.not_lt.1 h8)]

theorem packBytes_msbBits (v : BitVec 16) :
    packBytes (msbBits v) = [v.extractLsb' 8 8, v.extractLsb' 0 8] := by
  have hlen (x : BitVec 8) : (msbBits x).length = 8 := by simp [msbBits]
  have hone : packBytes (msbBits (v.extractLsb' 8 8)) = [v.extractLsb' 8 8] := by
    have h := packBytes_append (l := []) (k := 0) rfl (hlen (v.extractLsb' 8 8))
    rwa [List.nil_append, word_msbBits] at h
  calc packBytes (msbBits v)
      = packBytes (msbBits (v.extractLsb' 8 8) ++ msbBits (v.extractLsb' 0 8)) := by
        rw [← msbBits_append, halves]
    _ = _ := by
        rw [packBytes_append (k := 1) (hlen _) (hlen _), hone, word_msbBits]
        rfl

section frames

variable {m : AddressMap} {regs : Block → Regs} {x y v w : UInt8}

/-- The write bit is no part of the address. -/
theorem extract_write (k n : Nat) (h : k + n ≤ 15) :
    ((x ||| 0x80).toBitVec ++ y.toBitVec).extractLsb' k n = (registerAddress x y).extractLsb' k n := by
  have key : ∀ j : Fin 7, (0x80#8).getLsbD j = false := by decide
  apply BitVec.eq_of_getLsbD_eq
  intro i hi
  have hlt : k + i < 15 := by omega
  simp only [BitVec.getLsbD_extractLsb', registerAddress, BitVec.getLsbD_setWidth, BitVec.getLsbD_append,
    hi, hlt, decide_true, Bool.true_and, UInt8.toBitVec_or, BitVec.getLsbD_or]
  by_cases h8 : k + i < 8
  · simp [h8]
  · have hbit := key ⟨k + i - 8, by omega⟩
    simp [h8, hbit]

theorem extract_read (k n : Nat) (h : k + n ≤ 15) :
    ((x &&& ~~~0x80).toBitVec ++ y.toBitVec).extractLsb' k n =
      (registerAddress x y).extractLsb' k n := by
  have key : ∀ j : Fin 7, (0x7f#8).getLsbD j = true := by decide
  apply BitVec.eq_of_getLsbD_eq
  intro i hi
  have hlt : k + i < 15 := by omega
  simp only [BitVec.getLsbD_extractLsb', registerAddress, BitVec.getLsbD_setWidth, BitVec.getLsbD_append,
    hi, hlt, decide_true, Bool.true_and, UInt8.toBitVec_and, UInt8.toBitVec_not, BitVec.getLsbD_and]
  by_cases h8 : k + i < 8
  · simp [h8]
  · have hbit := key ⟨k + i - 8, by omega⟩
    simp [h8, hbit]

theorem topBit_write : ((x ||| 0x80).toBitVec ++ y.toBitVec).getLsbD 15 = true := by
  have hbit : (0x80#8).getLsbD 7 = true := by decide
  rw [BitVec.getLsbD_append, if_neg (by decide), UInt8.toBitVec_or, BitVec.getLsbD_or]
  exact Bool.or_eq_true_iff.2 (.inr hbit)

theorem topBit_read : ((x &&& ~~~0x80).toBitVec ++ y.toBitVec).getLsbD 15 = false := by
  have hbit : (~~~0x80#8).getLsbD 7 = false := by decide
  rw [BitVec.getLsbD_append, if_neg (by decide), UInt8.toBitVec_and, BitVec.getLsbD_and]
  exact Bool.and_eq_false_iff.2 (.inr hbit)

theorem effect_write : SpiCommand.effect m regs
      ⟨spiNrFpga, [x ||| 0x80, y, v, w].map UInt8.toBitVec, 0⟩ =
    writeRegister m regs (registerAddress x y) (v.toBitVec ++ w.toBitVec) := by
  have hframes : framesOf (⟨spiNrFpga, [x ||| 0x80, y, v, w].map UInt8.toBitVec, 0⟩ : SpiCommand).bytes =
      [msbBits (x ||| 0x80).toBitVec ++ msbBits y.toBitVec ++
        (msbBits v.toBitVec ++ msbBits w.toBitVec)] := by
    simp [SpiCommand.bytes, framesOf]
  have hlen : (msbBits (x ||| 0x80).toBitVec ++ msbBits y.toBitVec).length = 16 := by simp [msbBits]
  rw [SpiCommand.effect, if_pos rfl, hframes]
  funext b
  show writeFrame m regs _ b = _
  rw [writeFrame, writesTo, moduleOf, registerOf, inst_msbBits, dataOf_msbBits _ _ hlen, topBit_write,
    extract_write 5 10 (by decide), extract_write 0 5 (by decide), Bool.and_true, writeRegister]
  simp only [beq_iff_eq]

theorem effect_read :
    SpiCommand.effect m regs ⟨spiNrFpga, [x &&& ~~~0x80, y].map UInt8.toBitVec, 2⟩ = regs := by
  have hframes : framesOf (⟨spiNrFpga, [x &&& ~~~0x80, y].map UInt8.toBitVec, 2⟩ : SpiCommand).bytes =
      [msbBits (x &&& ~~~0x80).toBitVec ++ msbBits y.toBitVec ++ (msbBits 0#8 ++ msbBits 0#8)] := by
    simp [SpiCommand.bytes, framesOf, List.replicate]
  rw [SpiCommand.effect, if_pos rfl, hframes]
  funext b
  show writeFrame m regs _ b = _
  rw [writeFrame, writesTo, moduleOf, inst_msbBits, topBit_read, Bool.and_false]
  rfl

end frames

/-! ## Traffic of the two packets -/

section traffic

variable {m : AddressMap} {b : Fw.Board} {d : Nat → UInt8} {t : List (SpiCommand × List (BitVec 8))}

/-- Block `k` of a packet that writes. -/
def writeBlock (m : AddressMap) (d : Nat → UInt8) (regs : Block → Regs) (k : Nat) : Block → Regs :=
  writeRegister m regs (registerAddress (d (k * 4)) (d (k * 4 + 1)))
    ((d (k * 4 + 2)).toBitVec ++ (d (k * 4 + 3)).toBitVec)

theorem traffic_write {ks : List Nat} {j : Nat}
    (h : Traffic b j ((ks.flatMap (Fw.registerWrite d .fpga)).map (·, true)) t) (regs : Block → Regs) :
    (t.map Prod.fst).foldl (SpiCommand.effect m) regs = ks.foldl (writeBlock m d) regs := by
  induction ks generalizing t regs with
  | nil =>
    cases h with
    | nil => rfl
  | cons k ks ih =>
    cases h with
    | fpga reply h =>
      rw [List.map_cons, List.foldl_cons, List.foldl_cons, ← ih h, effect_write]
      rfl
    | elsewhere ho =>
      rcases ho .fpga _ (.inl rfl) with h | h <;> cases h

/-- What the packet reads, in its order. -/
def readBlock (b : Fw.Board) (d : Nat → UInt8) (k : Nat) : SpiCommand × List (BitVec 8) :=
  (readCommand (d (k * 2) &&& ~~~0x80).toBitVec (d (k * 2 + 1)).toBitVec,
    [(b.spiBytes k).1.toBitVec, (b.spiBytes k).2.toBitVec])

theorem traffic_read {n j : Nat}
    (h : Traffic b j (((List.range' j n).flatMap (Fw.registerRead d .fpga)).map (·, true)) t) :
    t = (List.range' j n).map (readBlock b d) := by
  induction n generalizing t j with
  | zero =>
    cases h with
    | nil => rfl
  | succ n ih =>
    cases h with
    | fpgaRead h =>
      rw [ih h]
      rfl
    | elsewhere ho =>
      rcases ho .fpga _ (.inr rfl) with h | h <;> cases h

theorem effect_reads (ks : List Nat) (regs : Block → Regs) :
    ((ks.map (readBlock b d)).map Prod.fst).foldl (SpiCommand.effect m) regs = regs := by
  induction ks with
  | nil => rfl
  | cons k ks ih =>
    rw [List.map_cons, List.map_cons, List.foldl_cons]
    have hk : SpiCommand.effect m regs (readBlock b d k).1 = regs := effect_read
    rw [hk]
    exact ih

end traffic

section firmware

variable {b : Fw.Board} {p : Fw.Packet} {m : Fw.Machine}

/-- The answer carries what the reads have brought. -/
theorem spiRdBlocks_tx (hn : p.dataBlocks.toNat ≤ 14) (h0 : m.nextSpiBytes = 0) (dev : Fw.SpiDev) :
    Yields (Fw.spiRdBlocks b p dev) m fun _ m' => ∀ k < p.dataBlocks.toNat,
      m'.tx[2 + k * 4]? = some (b.spiBytes k).1 ∧ m'.tx[3 + k * 4]? = some (b.spiBytes k).2 := by
  have hmany : ¬ Fw.checkManyBlocks p 4 = true := by
    simp only [Fw.checkManyBlocks, Fw.dataFieldSize, decide_eq_true_eq]
    omega
  rw [Fw.spiRdBlocks, Fw.unlessManyBlocks, if_neg hmany, yields_bind]
  refine (Yields.upTo (fun k m' => m'.nextSpiBytes = k ∧ ∀ j < k,
    m'.tx[2 + j * 4]? = some (b.spiBytes j).1 ∧ m'.tx[3 + j * 4]? = some (b.spiBytes j).2)
    ⟨h0, fun j hj => absurd hj (Nat.not_lt_zero j)⟩ ?_).mono ?_
  · rintro k hk m' ⟨hnext, hold⟩
    simp only [yields_bind, Fw.yields_rxSet, Fw.yields_rxBytes, Fw.yields_spiRead, Fw.yields_txSet,
      Fw.Machine.access, Fw.Machine.perform, hnext]
    refine ⟨trivial, ?_⟩
    intro j hj
    have hlen : 3 + k * 4 < 56 := by omega
    have hset (v w : UInt8) (i : Nat) :
        ((m'.tx.setIfInBounds (2 + k * 4) v).setIfInBounds (3 + k * 4) w)[i]? =
          if i = 3 + k * 4 then some w else if i = 2 + k * 4 then some v else m'.tx[i]? := by
      simp only [Vector.getElem?_setIfInBounds, Fw.dataFieldSize]
      grind
    rw [hset, hset]
    by_cases hjk : j = k
    · subst hjk
      rw [if_neg (by omega), if_pos rfl, if_pos rfl]
      exact ⟨rfl, rfl⟩
    · rw [if_neg (by omega), if_neg (by omega), if_neg (by omega), if_neg (by omega)]
      exact hold j (by omega)
  · rintro _ m' ⟨-, h⟩
    rw [Fw.yields_setStatus]
    exact h

theorem ops_of_writes (e : Exchange) (h : e.Writes) : e.after.ops =
    ((List.range e.p.dataBlocks.toNat).flatMap
      (Fw.registerWrite (e.p.byte e.b) .fpga)).map (·, true) := by
  have hmany : ¬ Fw.checkManyBlocks e.p 4 = true := by
    have := h.2
    simp only [Fw.checkManyBlocks, Fw.dataFieldSize, decide_eq_true_eq]
    omega
  have hops : Yields (Fw.spiWrBlocks e.b e.p .fpga) (e.before.receive e.p) _ :=
    Fw.spiWrBlocks_ops hmany
  obtain ⟨-, -, hc⟩ := hops.of_eq (by rw [← e.handled, Fw.handle, Fw.dispatch, h.1]; rfl)
  exact hc

theorem after_of_reads (e : Exchange) (h : e.Reads) : e.after.ops =
      ((List.range e.p.dataBlocks.toNat).flatMap
        (Fw.registerRead (e.p.byte e.b) .fpga)).map (·, true) ∧
    ∀ k < e.p.dataBlocks.toNat, e.after.tx[2 + k * 4]? = some (e.b.spiBytes k).1 ∧
      e.after.tx[3 + k * 4]? = some (e.b.spiBytes k).2 := by
  have hmany : ¬ Fw.checkManyBlocks e.p 4 = true := by
    have := h.2
    simp only [Fw.checkManyBlocks, Fw.dataFieldSize, decide_eq_true_eq]
    omega
  have hrun : Fw.spiRdBlocks e.b e.p .fpga (e.before.receive e.p) = (some (), e.after) := by
    rw [← e.handled, Fw.handle, Fw.dispatch, h.1]
    rfl
  have hops : Yields (Fw.spiRdBlocks e.b e.p .fpga) (e.before.receive e.p) _ :=
    Fw.spiRdBlocks_ops hmany
  have htx := spiRdBlocks_tx (b := e.b) (m := e.before.receive e.p) h.2 rfl .fpga
  obtain ⟨-, -, hc⟩ := hops.of_eq hrun
  obtain ⟨-, -, ht⟩ := htx.of_eq hrun
  exact ⟨hc, ht⟩

end firmware

/-! ## From the packets to the registers -/

section packets

variable {m : AddressMap} {mem : Block → Regs}

/-- What the packets so far have left in the registers. -/
def regsAfter (m : AddressMap) (mem : Block → Regs) (es : List Exchange) : Block → Regs :=
  es.foldl (Exchange.effect m) mem

theorem regsAfter_eq (es : List Exchange) (mem : Block → Regs) :
    ((es.flatMap Exchange.traffic).map Prod.fst).foldl (SpiCommand.effect m) mem =
      regsAfter m mem es := by
  induction es generalizing mem with
  | nil => rfl
  | cons e es ih =>
    rw [List.flatMap_cons, List.map_append, List.foldl_append, ih]
    rfl

/-- What a packet owes: registers are written block by block, and the answer to a read shows them. -/
structure Exchange.Served (m : AddressMap) (regs : Block → Regs) (e : Exchange) : Prop where
  writes : e.Writes → e.effect m regs =
    (List.range e.p.dataBlocks.toNat).foldl (writeBlock m (e.p.byte e.b)) regs
  kept : e.Reads → e.effect m regs = regs
  reads : e.Reads → ∀ k < e.p.dataBlocks.toNat, ∀ a,
    a = registerAddress (e.p.byte e.b (k * 2)) (e.p.byte e.b (k * 2 + 1)) →
      ∀ b, m.maddress b = a.extractLsb' 5 10 → own b (a.extractLsb' 0 5) = true → ∀ hw,
        ∃ hi lo, e.after.tx[2 + k * 4]? = some hi ∧ e.after.tx[3 + k * 4]? = some lo ∧
          hi.toBitVec ++ lo.toBitVec = b.readMux hw (regs b) (a.extractLsb' 0 5)

theorem append_of_packBytes {v : BitVec 16} {x y : BitVec 8} (h : [x, y] = packBytes (msbBits v)) :
    x ++ y = v := by
  rw [packBytes_msbBits] at h
  obtain ⟨rfl, hy⟩ := List.cons.inj h
  obtain ⟨rfl, -⟩ := List.cons.inj hy
  exact halves v

/-- Packets that have gone over the wires, in the order of their commands. -/
theorem served_of_consistent {done : List (SpiCommand × List (BitVec 8))} (hc : Consistent m mem done)
    {pre post : List Exchange} {e : Exchange}
    (hdone : done = (pre ++ e :: post).flatMap Exchange.traffic) :
    e.Served m (regsAfter m mem pre) := by
  refine ⟨?_, ?_, ?_⟩
  · intro he
    have ht := e.carried
    rw [ops_of_writes e he] at ht
    exact traffic_write ht _
  · intro he
    have ht := e.carried
    rw [(after_of_reads e he).1, List.range_eq_range'] at ht
    rw [Exchange.effect, traffic_read ht, effect_reads]
  · intro he k hk a ha b hb ho hw
    obtain ⟨hops, htx⟩ := after_of_reads e he
    have ht := e.carried
    rw [hops, List.range_eq_range'] at ht
    have htraffic := traffic_read ht
    obtain ⟨x, hx⟩ : ∃ x, x = e.p.byte e.b (k * 2) := ⟨_, rfl⟩
    obtain ⟨y, hy⟩ : ∃ y, y = e.p.byte e.b (k * 2 + 1) := ⟨_, rfl⟩
    rw [← hx, ← hy] at ha
    subst ha
    have hinst : inst (instBits (x &&& ~~~0x80).toBitVec y.toBitVec) =
        (x &&& ~~~0x80).toBitVec ++ y.toBitVec := by
      have h := inst_msbBits (x &&& ~~~0x80).toBitVec y.toBitVec []
      rwa [List.append_nil] at h
    have hreg : registerOf (instBits (x &&& ~~~0x80).toBitVec y.toBitVec) =
        (registerAddress x y).extractLsb' 0 5 := by
      rw [registerOf, hinst, extract_read 0 5 (by decide)]
    have hread : readsFrom (instBits (x &&& ~~~0x80).toBitVec y.toBitVec) (m.maddress b) = true := by
      rw [readsFrom, moduleOf, hinst, topBit_read, extract_read 5 10 (by decide), hb]
      simp
    -- the reads before this one leave the registers as they are
    have hsplit : List.range' 0 e.p.dataBlocks.toNat =
        List.range' 0 k ++ k :: List.range' (k + 1) (e.p.dataBlocks.toNat - k - 1) := by
      obtain ⟨n, hn⟩ : ∃ n, e.p.dataBlocks.toNat = k + (n + 1) := ⟨e.p.dataBlocks.toNat - k - 1, by omega⟩
      rw [hn, ← List.range'_append_1, Nat.zero_add, List.range'_succ]
      congr 3
      omega
    have hdone' : done = (pre.flatMap Exchange.traffic ++
        (List.range' 0 k).map (readBlock e.b (e.p.byte e.b))) ++
        readBlock e.b (e.p.byte e.b) k ::
          ((List.range' (k + 1) (e.p.dataBlocks.toNat - k - 1)).map (readBlock e.b (e.p.byte e.b)) ++
            post.flatMap Exchange.traffic) := by
      rw [hdone, List.flatMap_append, List.flatMap_cons, htraffic, hsplit]
      simp
    have hcons := hc _ _ _ _ _ hdone' b (by rw [← hx, ← hy]; exact hread)
      (by rw [← hx, ← hy, hreg]; exact ho) hw
    rw [← hx, ← hy, hreg, List.map_append, List.foldl_append, effect_reads, regsAfter_eq] at hcons
    exact ⟨_, _, (htx k hk).1, (htx k hk).2, append_of_packBytes hcons⟩

/-- From the packets of the host to the registers of the configuration logic: whenever the driver is
    between two commands, every packet that has gone out so far has written and read the registers block
    by block, and the registers hold what the packets have left in them. -/
theorem packets_reach_registers {cmds : List SpiCommand} {hw0 : Hw} {x : Nat → NiosCpuIn} {n : Nat}
    (hne : ∀ c ∈ cmds, c.bytes ≠ []) (hpin : QuietPin m cmds hw0 mem x)
    (hidle : ((niosCpu m cmds hw0 mem).state x n).host.cpu.pc = .idle) (es : List Exchange)
    (hes : ((niosCpu m cmds hw0 mem).state x n).host.cpu.done = es.flatMap Exchange.traffic) :
    (∀ pre e post, es = pre ++ e :: post → e.Served m (regsAfter m mem pre)) ∧
      ∀ b a, own b a = true →
        (((niosCpu m cmds hw0 mem).state x n).top.block b).mem a = regsAfter m mem es b a := by
  obtain ⟨-, hmem, hcons⟩ := registers_between hne hpin hidle
  constructor
  · intro pre e post h
    rw [h] at hes
    exact served_of_consistent hcons hes
  · intro b a hb
    rw [hmem b a hb, hes, regsAfter_eq]

/-- A packet writes register 7 of `fpgacfg` and the next one reads it. -/
theorem packets_reach_registers_pair : ∃ (n : Nat) (e₁ e₂ : Exchange), e₁.Writes ∧ e₂.Reads ∧
    e₁.Served topAddresses (fun _ => fpgacfgDefaults) ∧
    e₂.Served topAddresses (regsAfter topAddresses (fun _ => fpgacfgDefaults) [e₁]) ∧
    ((pairAt n).top.block .fpgacfg).mem 7 =
      regsAfter topAddresses (fun _ => fpgacfgDefaults) [e₁, e₂] .fpgacfg 7 := by
  obtain ⟨n, r₁, hidle, hdone⟩ := pair_done
  -- the firmware hands on what the wires have brought
  let b : Fw.Board := { Fw.Board.quiet with spiBytes := fun _ => (0x12, 0x34) }
  let p₁ : Fw.Packet := ⟨⟨0x55, 1, 0⟩, .ofFn fun i => [0x00, 0x07, 0x12, 0x34].getD i.val 0⟩
  let p₂ : Fw.Packet := ⟨⟨0x56, 1, 0⟩, .ofFn fun i => [0x00, 0x07].getD i.val 0⟩
  have hops₁ : Yields (Fw.spiWrBlocks b p₁ .fpga) ((Fw.Machine.boot 0).receive p₁) _ :=
    Fw.spiWrBlocks_ops (by decide)
  obtain ⟨_, m₁, hrun₁, hcarried₁⟩ := hops₁
  have htraffic₁ : Traffic b 0 m₁.ops [(⟨spiNrFpga, [0x80, 0x07, 0x12, 0x34], 0⟩, r₁)] := by
    have hlist : m₁.ops = [(.spi .fpga [0x80, 0x07, 0x12, 0x34], true)] := by
      rw [hcarried₁]
      decide
    rw [hlist]
    exact .fpga r₁ .nil
  let e₁ : Exchange := ⟨b, 0, p₁, Fw.Machine.boot 0, m₁, _, hrun₁, htraffic₁⟩
  have hops₂ : Yields (Fw.spiRdBlocks b p₂ .fpga) (m₁.receive p₂) _ :=
    Fw.spiRdBlocks_ops (by decide)
  obtain ⟨_, m₂, hrun₂, hcarried₂⟩ := hops₂
  have htraffic₂ : Traffic b 0 m₂.ops [(readCommand 0x00 0x07, [0x12, 0x34])] := by
    have hlist : m₂.ops = [(.spiRead .fpga [0x00, 0x07], true)] := by
      rw [hcarried₂]
      show ((List.range 1).flatMap (Fw.registerRead (p₂.byte b) .fpga)).map (·, true) = _
      decide
    rw [hlist]
    exact .fpgaRead .nil
  let e₂ : Exchange := ⟨b, 0, p₂, m₁, m₂, _, hrun₂, htraffic₂⟩
  have h := packets_reach_registers writeThenRead_ne quietPin_silent hidle [e₁, e₂] hdone
  have hblocks : (1 : UInt8).toNat ≤ 14 := by decide
  exact ⟨n, e₁, e₂, ⟨rfl, hblocks⟩, ⟨rfl, hblocks⟩, h.1 [] e₁ [e₂] rfl, h.1 [e₁] e₂ [] rfl,
    h.2 .fpgacfg 7 (by decide)⟩

end packets

end Nios
