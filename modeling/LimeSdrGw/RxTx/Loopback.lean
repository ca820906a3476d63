import LimeSdrGw.RxTx.TestSignals
import LimeSdrGw.Tx.Delivery
/-
# From the transmitter to the receivers

Both directions of the interface have one frame format, and `rxtx_top` gives both ends the same settings.
With the transceiver sending back what it gets, the host gets back in its RX packets the samples it has
sent in TX packets, in their order and with zeros between them where the transmitter had none.

| here | there |
| --- | --- |
| `txMode`   | the mode settings of `tx_path_top_inst1` and `rx_path_top_inst5` (rxtx_top.vhd:209-216, :363-370) |
| `LoopIn`   | the inputs of `tx_path_top`, `txiqmux`, `diq2fifo` and `rx_path_top` that are not looped back |
| `loopMux`  | `inst1_DIQ_h`, `inst1_DIQ_l` on the inputs of `txiqmux_inst3` |
-/
namespace RxTx

open Clocked Tx Rx

/-! ## One frame format -/

/-- The mode settings of the transmitter. -/
def txMode (st : RxSetting) : TxMode :=
  ⟨st.trxiqpulse, st.ddrEn, st.mimoEn, st.channels.chEn, st.fidm⟩

/-- TRXIQ pulse is for two channels, and its frame sync for `fidm = 0`. -/
def Matches (st : RxSetting) : Prop := st.trxiqpulse = true → st.mimoEn = true ∧ st.fidm = false

/-- Frame `j` of a slot, as the receivers see it. -/
def emitted (st : RxSetting) (q : Option (BitVec (4 * 12))) (j : Nat) : DiqIn iqWidth :=
  DiqPair.crossed ⟨(txMode st).emitH q j, (txMode st).emitL q j⟩

/-- The samples of a slot. -/
def slotSamples (q : Option (BitVec (4 * 12))) : List (BitVec 12) := diqSmpls (q.getD 0)

section format

variable {st : RxSetting}

theorem emitted_syncL (h : Matches st) (q : Option (BitVec (4 * 12))) (j : Nat) :
    (emitted st q j).fsyncL = st.syncL j := by
  have hsync : (emitted st q j).fsyncL = (txMode st).intFsyncH j := by cases q <;> rfl
  rw [hsync, TxMode.intFsyncH, TxMode.muxFsyncH, RxSetting.syncL, txMode]
  obtain ⟨pulse, ddr, mimo, fidm, channels⟩ := st
  simp only
  generalize (j % 2 == 0) = even
  cases pulse with
  | true =>
    obtain ⟨rfl, rfl⟩ := h rfl
    cases even <;> rfl
  | false => cases ddr <;> cases mimo <;> cases fidm <;> cases even <;> rfl

theorem emitted_syncH (h : Matches st) (q : Option (BitVec (4 * 12))) (j : Nat) :
    (emitted st q j).fsyncH = st.syncH j := by
  have hsync : (emitted st q j).fsyncH = (txMode st).intFsyncL j := by cases q <;> rfl
  rw [hsync, TxMode.intFsyncL, TxMode.muxFsyncL, RxSetting.syncH, RxSetting.syncL, txMode]
  obtain ⟨pulse, ddr, mimo, fidm, channels⟩ := st
  simp only
  generalize (j % 2 == 0) = even
  cases pulse with
  | true =>
    obtain ⟨rfl, rfl⟩ := h rfl
    cases even <;> rfl
  | false => cases ddr <;> cases mimo <;> cases fidm <;> cases even <;> rfl

/-- The frames of a slot bring its samples. -/
theorem slot_brings (h : Matches st) (q : Option (BitVec (4 * 12))) :
    (List.range (txMode st).period).flatMap (fun j => st.brings (emitted st q j)) = slotSamples q := by
  obtain ⟨pulse, ddr, mimo, fidm, channels⟩ := st
  cases pulse with
  | true =>
    obtain ⟨rfl, rfl⟩ := h rfl
    cases ddr <;> cases channels <;> cases q <;> rfl
  | false =>
    cases ddr <;> cases mimo <;> cases fidm <;> cases channels <;> cases q <;> rfl

/-- A slot is an even number of frames. -/
theorem sync_slot (m : TxMode) (k j : Nat) :
    st.syncL (k * m.period + j) = st.syncL j ∧ st.syncH (k * m.period + j) = st.syncH j := by
  have hpar : (k * m.period + j) % 2 = j % 2 := by
    rcases m.period_cases with ⟨hp, -⟩ | ⟨hp, -⟩ <;> rw [hp] <;> omega
  unfold RxSetting.syncH RxSetting.syncL
  rw [hpar]
  exact ⟨rfl, rfl⟩

variable (st) in
/-- The samples that frame `g` brings. -/
def frameBrings (slots : Nat → Option (BitVec (4 * 12))) (g : Nat) : List (BitVec iqWidth) :=
  st.brings (emitted st (slots (g / (txMode st).period)) (g % (txMode st).period))

variable {slots : Nat → Option (BitVec (4 * 12))}

theorem slice_add {α : Type} (f : Nat → α) (a b : Nat) :
    slice f 0 (a + b) = slice f 0 a ++ (List.range b).map fun j => f (a + j) := by
  induction b with
  | zero => simp
  | succ b ih =>
    rw [← Nat.add_assoc, slice_succ f (Nat.zero_le _), ih, List.range_succ, List.map_append,
      List.append_assoc]
    rfl

/-- The samples of the first `k` slots. -/
def slotStream (slots : Nat → Option (BitVec (4 * 12))) (k : Nat) : List (BitVec 12) :=
  (List.range k).flatMap fun i => slotSamples (slots i)

/-- The frames of the first `k` slots bring the samples of these slots. -/
theorem frames_of_slots (h : Matches st) (k : Nat) :
    (slice (frameBrings st slots) 0 (k * (txMode st).period)).flatten = slotStream slots k := by
  induction k with
  | zero =>
    rw [Nat.zero_mul]
    rfl
  | succ k ih =>
    have hframe : ∀ j ∈ List.range (txMode st).period,
        frameBrings st slots (k * (txMode st).period + j) = st.brings (emitted st (slots k) j) := by
      intro j hj
      have hlt := List.mem_range.1 hj
      rw [frameBrings, Nat.add_comm, Nat.add_mul_mod_self_right, Nat.mod_eq_of_lt hlt,
        Nat.add_mul_div_right _ _ (Nat.zero_lt_of_lt hlt), Nat.div_eq_of_lt hlt, Nat.zero_add]
    rw [Nat.succ_mul, slice_add, List.flatten_append, ih, slotStream, slotStream, List.range_succ,
      List.flatMap_append, List.flatMap_singleton, List.map_congr_left hframe, ← List.flatMap_def,
      slot_brings h]

/-- Sample `k` of the slots. -/
def slotSample (slots : Nat → Option (BitVec (4 * 12))) (k : Nat) : BitVec 12 :=
  diqSmpl ((slots (k / 4)).getD 0) (k % 4)

theorem slotStream_eq (k : Nat) : slotStream slots k = firstWords (slotSample slots) (4 * k) := by
  induction k with
  | zero => rfl
  | succ k ih =>
    have hsample : ∀ j, j < 4 → slotSample slots (4 * k + j) = diqSmpl ((slots k).getD 0) j := by
      intro j hj
      have hdiv : (4 * k + j) / 4 = k := by omega
      have hmod : (4 * k + j) % 4 = j := by omega
      rw [slotSample, hdiv, hmod]
    rw [slotStream, List.range_succ, List.flatMap_append, List.flatMap_singleton, Nat.mul_succ]
    rw [slotStream] at ih
    rw [ih, firstWords_succ, firstWords_succ, firstWords_succ, firstWords_succ, hsample 1 (by decide),
      hsample 2 (by decide), hsample 3 (by decide), ← Nat.add_zero (4 * k), hsample 0 (by decide)]
    simp only [List.append_assoc]
    rfl

theorem slots_le_frames (h : Matches st) {k g : Nat} (hk : k * (txMode st).period ≤ g) :
    slotStream slots k <+: (slice (frameBrings st slots) 0 g).flatten := by
  rw [← frames_of_slots h, ← slice_append _ (Nat.zero_le _) hk, List.flatten_append]
  exact List.prefix_append _ _

theorem frames_le_slots (h : Matches st) {k g : Nat} (hg : g ≤ k * (txMode st).period) :
    (slice (frameBrings st slots) 0 g).flatten <+: slotStream slots k := by
  rw [← frames_of_slots h, ← slice_append _ (Nat.zero_le _) hg, List.flatten_append]
  exact List.prefix_append _ _

/-- The packets are filled with the samples of the slots. -/
theorem slots_received (h : Matches st) {wd : WidthSetting} (hwd : wd ≠ .w14) {x : Nat → ClockIn}
    {t p : Nat} (hshows : st.Shows (diqAt x) (frameBrings st slots) t p)
    (hld : ∀ n, (x n).ldSmplNrSync = false) : ∃ lost, lost ≤ 2 * (p + 2) ∧ ∀ b, ∃ n ts,
      b ≤ ts.length ∧ Whole wd (clocksFormIn wd st x) n ts ∧ received wd (clocksFormIn wd st x) ts =
        (List.range (4 * smplRdSize wd.code * ts.length)).map fun k =>
          slotSample slots (lost + k) ++ 0#4 := by
  have hstream : ∀ g, (slice (frameBrings st slots) 0 g).flatten =
      firstWords (slotSample slots) (slice (frameBrings st slots) 0 g).flatten.length := by
    intro g
    have hle : (slice (frameBrings st slots) 0 g).flatten <+: slotStream slots g :=
      frames_le_slots h (Nat.le_mul_of_pos_right g (Nat.succ_pos _))
    rw [slotStream_eq] at hle
    exact eq_firstWords_of_prefix hle
  have hgrow : ∀ m, ∃ g, m ≤ (slice (frameBrings st slots) 0 g).flatten.length := by
    intro m
    have hle : slotStream slots m <+:
        (slice (frameBrings st slots) 0 (m * (txMode st).period)).flatten :=
      slots_le_frames h (Nat.le_refl _)
    have hlen := hle.length_le
    rw [slotStream_eq, length_firstWords] at hlen
    exact ⟨_, Nat.le_trans (Nat.le_mul_of_pos_left m (by decide)) hlen⟩
  obtain ⟨lost, hlost, hall⟩ := received_stream hwd hshows hld hstream hgrow
  exact ⟨lost, Nat.le_trans hlost (length_slice_le (fun _ => st.length_brings _) _), hall⟩

end format

/-! ## The transmitter's frames -/

section pins

variable {st : RxSetting} {ps : List Packet} {wd : BitVec 2} {c : TxSettings}
  {x : Nat → BurstPathIn} {ws : Nat → Word64}

variable (ps wd c x) in
/-- `inst1_DIQ_h`, `inst1_DIQ_l`. -/
def txDiq (n : Nat) : DiqPair :=
  ⟨(BurstPath.sendAt ps false wd c x n).inst2.txiq.diqH.reg0,
    (BurstPath.sendAt ps false wd c x n).inst2.txiq.diqL.reg0⟩

theorem txDiq_first {n : Nat} (hn : n < 3) : txDiq ps wd c x n = .none := by
  match n, hn with
  | 0, _ | 1, _ | 2, _ => rfl

theorem txDiq_shows (h : Matches st) (hc : c.mode = txMode st)
    (hws : ∀ n, BurstPath.read ps false wd c x n =
      firstWords ws (BurstPath.read ps false wd c x n).length) :
    st.Shows (fun n => (txDiq ps wd c x n).crossed)
      (frameBrings st (BurstPath.slotContent ps wd c x ws)) 3 0 := by
  have hslot : ∀ n, (txDiq ps wd c x (3 + n)).crossed =
      emitted st (BurstPath.slotContent ps wd c x ws (n / (txMode st).period))
        (n % (txMode st).period) := by
    intro n
    have hpos : 0 < (txMode st).period := Nat.succ_pos _
    have hlt : n % (txMode st).period < c.mode.period := by
      rw [hc]
      exact Nat.mod_lt n hpos
    have hshown := BurstPath.slot_shown hws (n / (txMode st).period) hlt
    rw [hc, Nat.add_assoc, Nat.mul_comm, Nat.div_add_mod] at hshown
    rw [txDiq, hshown.1, hshown.2]
    rfl
  have hsync : ∀ n, st.syncL (n % (txMode st).period) = st.syncL n ∧
      st.syncH (n % (txMode st).period) = st.syncH n := by
    intro n
    have hslotted : ∀ k j, st.syncL (k * (txMode st).period + j) = st.syncL j ∧
        st.syncH (k * (txMode st).period + j) = st.syncH j := sync_slot (txMode st)
    have hs := hslotted (n / (txMode st).period) (n % (txMode st).period)
    rw [Nat.mul_comm, Nat.div_add_mod] at hs
    exact ⟨hs.1.symm, hs.2.symm⟩
  refine ⟨⟨fun n hn => ?_, fun n => ?_, fun n => ?_⟩, fun n => ?_⟩
  · rw [txDiq_first hn]
    exact ⟨rfl, rfl⟩
  · rw [hslot, emitted_syncL h, (hsync n).1, Nat.zero_add]
  · rw [hslot, emitted_syncH h, (hsync n).2, Nat.zero_add]
  · rw [hslot, Nat.zero_add]
    rfl

/-- There is nothing yet for the first slot. -/
theorem slotContent_first
    (hws : ∀ n, BurstPath.read ps false wd c x n =
      firstWords ws (BurstPath.read ps false wd c x n).length) :
    BurstPath.slotContent ps wd c x ws 0 = none := by
  rw [BurstPath.slotContent, Serialiser.content, BurstPath.serialiser_eq hws, Nat.zero_mul]
  rfl

end pins

/-! ## All the way round -/

/-- What comes from elsewhere. -/
structure LoopIn where
  tx : BurstPathIn
  mux : TxiqmuxIn
  rxPtrnEn : Bool
  rx : ClockIn

section loop

variable (ps : List Packet) (wd : BitVec 2) (c : TxSettings) (st : RxSetting) (early late : Nat)
  (i : Nat → LoopIn)

def loopMux (n : Nat) : TxiqmuxIn :=
  { (i n).mux with
    txDiqH := (txDiq ps wd c (fun k => (i k).tx) n).h
    txDiqL := (txDiq ps wd c (fun k => (i k).tx) n).l }

def loopFront (n : Nat) : DiqFrontIn :=
  ⟨(i n).rxPtrnEn, wire early late (Txiqmux.out (loopMux ps wd c i)) n⟩

def loopRx (n : Nat) : ClockIn :=
  { (i n).rx with diq := frontDiq st.fidm (loopFront ps wd c early late i) n }

variable {ps wd c st i} {ws : Nat → Word64}

/-- The receivers see the slots, five registers later. -/
theorem loop_shows (h : Matches st) (hc : c.mode = txMode st)
    (hws : ∀ n, BurstPath.read ps false wd c (fun k => (i k).tx) n =
      firstWords ws (BurstPath.read ps false wd c (fun k => (i k).tx) n).length)
    (hoff : ∀ n, Txiqmux.Off (i n).mux) (hptrn : ∀ n, (i n).rxPtrnEn = false) :
    ∃ t, st.Shows (diqAt (loopRx ps wd c st early late i))
      (frameBrings st (BurstPath.slotContent ps wd c (fun k => (i k).tx) ws)) t (late - 6) := by
  have hmux : st.Shows (fun n => (Txiqmux.out (loopMux ps wd c i) n).crossed)
      (frameBrings st (BurstPath.slotContent ps wd c (fun k => (i k).tx) ws)) 6 0 := by
    rw [funext (out_crossed (x := loopMux ps wd c i) hoff)]
    exact (txDiq_shows h hc hws).delay 3
  have hwire := (hmux.late late).delay early
  rw [← funext (wire_diqIn early late _), Nat.zero_add] at hwire
  have hfront : diqAt (loopRx ps wd c st early late i) = delayed 1 fun n =>
      (wire early late (Txiqmux.out (loopMux ps wd c i)) n).diqIn :=
    funext (frontDiq_off hptrn)
  rw [hfront]
  exact ⟨_, hwire.delay 1⟩

/-- What the host sends comes back into the packets formed: with both ends set alike, 12-bit samples
    in packets of whole groups or 16-bit samples, no synchronisation, no load of the sample counter,
    words from the host again and again, the test signals off and the transceiver looping back, slot
    follows slot without a gap, the slots that are not empty are the samples of the host's packets,
    and the RX packets formed are filled with the samples of the slots, zeros for the empty ones, in
    order and without a gap. Only of the first slots some may be lost: where the receivers do not
    begin later than the transmitter's registers, not more than the empty first one. Where the packet
    FIFO is never more than half full all the packets are written. -/
theorem samples_come_back (ps : List Packet) (sampleWidth : BitVec 2)
    (hsw : sampleWidth = 0 ∨ sampleWidth = 2) (c : TxSettings) (st : RxSetting) (h : Matches st)
    (hc : c.mode = txMode st) (early late : Nat) (i : Nat → LoopIn)
    (hsync : ∀ n, ∀ p ∈ ps, (i n).tx.pctSyncDis = true ∨ p.syncDis = true)
    (hsupply : ∀ n, ∃ k, n ≤ k ∧ (i k).tx.gap = false)
    (hwhole : sampleWidth = 2 → TxPath.WholeGroups ps)
    (hoff : ∀ n, Txiqmux.Off (i n).mux) (hptrn : ∀ n, (i n).rxPtrnEn = false)
    (hld : ∀ n, (i n).rx.ldSmplNrSync = false) :
    ∃ slots : Nat → Option (BitVec (4 * 12)), slots 0 = none ∧
      (∃ m, ∀ k, m ≤ k → ((List.range k).filterMap slots).flatMap diqSmpls =
        (ps.flatMap (samplesOf sampleWidth)).map upperBits) ∧
      ∃ lost, lost ≤ 2 * (late - 6 + 2) ∧ ∀ b, ∃ n ts, b ≤ ts.length ∧
        Whole sampleWidth (clocksFormIn sampleWidth st (loopRx ps sampleWidth c st early late i)) n ts ∧
        ((∀ k, (i k).rx.pctBuffWrusedw < 512) → (RxFormer.machine sampleWidth).log RxFormer.written
          (clocksFormIn sampleWidth st (loopRx ps sampleWidth c st early late i)) n = ts.flatMap
            (packetAt sampleWidth (clocksFormIn sampleWidth st
              (loopRx ps sampleWidth c st early late i)))) ∧
        received sampleWidth
            (clocksFormIn sampleWidth st (loopRx ps sampleWidth c st early late i)) ts =
          (List.range (4 * smplRdSize sampleWidth * ts.length)).map fun k =>
            slotSample slots (lost + k) ++ 0#4 := by
  obtain ⟨wd, hwd, rfl⟩ := WidthSetting.exists_packed hsw
  have hone : wd.code ≠ 1 := by
    rcases hsw with h0 | h2
    · rw [h0]
      decide
    · rw [h2]
      decide
  have hgroups : BitUnpack64.mux0Sel wd.code = true → TxPath.WholeGroups ps := by
    rcases hsw with h0 | h2
    · rw [h0]
      exact fun hsel => absurd hsel (by decide)
    · exact fun _ => hwhole h2
  obtain ⟨ws, hws⟩ := BurstPath.exists_words ps false wd.code c fun k => (i k).tx
  obtain ⟨t, hshows⟩ := loop_shows early late h hc hws hoff hptrn
  obtain ⟨lost, hlost, hall⟩ := slots_received h hwd hshows hld
  refine ⟨_, slotContent_first hws, BurstPath.slots_sent hws hsync hsupply hone hgroups, lost, hlost,
    fun b => ?_⟩
  obtain ⟨n, ts, hlen, hw, hrec⟩ := hall b
  exact ⟨n, ts, hlen, hw, hw.all_written, hrec⟩

/-- Nothing else going on. -/
def onlyLoop : LoopIn where
  tx := ⟨false, true, 0, false⟩
  mux := ⟨false, false, 0, 0, false, false, ⟨false, 0⟩, ⟨false, 0⟩, ⟨false, 0⟩, ⟨false, 0⟩⟩
  rxPtrnEn := false
  rx := ⟨⟨false, false, 0, 0⟩, 0, 0, false, false, 0⟩

/-- Two channels, the transmitter begins 10 clocks late. -/
theorem samples_come_back_counting : ∃ slots : Nat → Option (BitVec (4 * 12)), slots 0 = none ∧
    (∃ m, ∀ k, m ≤ k → ((List.range k).filterMap slots).flatMap diqSmpls =
      [1, 2, 3, 4, 5, 6, 7, 8, 9, 10, 11, 12, 13, 14, 15, 16]) ∧
    ∃ lost, lost ≤ 4 ∧ ∃ n ts, 3 ≤ ts.length ∧
      Whole 0 (clocksFormIn 0 ⟨false, true, true, false, .both⟩
        (loopRx [BurstPath.countingPacket] 0 ⟨⟨false, true, true, 3, false⟩, 0, 0, 0⟩
          ⟨false, true, true, false, .both⟩ 10 0 fun _ => onlyLoop)) n ts := by
  obtain ⟨slots, hnone, ⟨m, hsent⟩, lost, hlost, hall⟩ := samples_come_back [BurstPath.countingPacket]
    0 (.inl rfl) ⟨⟨false, true, true, 3, false⟩, 0, 0, 0⟩ ⟨false, true, true, false, .both⟩ nofun rfl
    10 0 (fun _ => onlyLoop) (fun _ _ _ => .inl rfl) (fun n => ⟨n, Nat.le_refl n, rfl⟩) nofun
    (fun _ => ⟨rfl, rfl, rfl⟩) (fun _ => rfl) fun _ => rfl
  obtain ⟨n, ts, hlen, hw, -⟩ := hall 3
  refine ⟨slots, hnone, ⟨m, fun k hk => (hsent k hk).trans ?_⟩, lost, hlost, n, ts, hlen, hw⟩
  decide

end loop

end RxTx
