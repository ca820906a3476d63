import LimeSdrGw.Clocked.Repeats
import LimeSdrGw.Rx.SampleClocks
/-
# From the samples to the packets

The whole of `rx_path_top`: what the receiver captures goes through two registers and the sample FIFO to
the packet former. Nothing on this way loses a word or changes their order, so the payload of packet `j`,
unpacked, is a slice of the captured samples that follows from `j` alone, and the timestamp says which.

| here | there |
| --- | --- |
| `Receiver.given`      | `fifo_wrreq`, `fifo_wdata` of the receiver that is chosen |
| `RxSetting.Orderly`   | no word of a single-channel receiver is broken off |
| `RxSetting.Captured`  | the samples on DIQ that belong together, in fours; `groups` are those captured |
| `RxClocks.onTheWay`   | rxiq.vhd:112-121: the words in the two registers |
| `unpackWords`        | bit_unpack_64.vhd:97-169: `data_out` in the clocks with `data_out_valid` |
-/
namespace Rx

open Clocked Tx

namespace Receiver

variable (rc : Receiver) (d : Nat → DiqIn iqWidth)

/-- The receiver alone; it does not look at the FIFO. -/
def machine : Machine rc.State (DiqIn iqWidth) := ⟨rc.init, rc.step⟩

def gives (s : rc.State) : List IqWord := if rc.wrreq s then [rc.wdata s] else []

/-- The words given away in the clocks before `n`. -/
def given (n : Nat) : List IqWord := rc.machine.log (fun s _ => rc.gives s) d n

end Receiver

namespace RxSetting

variable (st : RxSetting) (d : Nat → DiqIn iqWidth)

def rule : FrameRule := if st.trxiqpulse then .pulseDdr else .mimoDdr

/-- With two channels any stream will do. -/
def Orderly : Prop :=
  if st.mimoEn then True
  else if st.ddrEn then ∀ n, (RxiqSisoDdr.stateAt st.fidm d n).Whole st.fidm (d n)
  else ∀ n, (RxiqSisoSdr.stateAt st.fidm d n).Whole (d n)

/-- The samples of two frames. -/
def pairSamples (p : Nat × Nat) : List (BitVec iqWidth) :=
  [(d p.1).dataL, (d p.1).dataH, (d p.2).dataL, (d p.2).dataH]

/-- The complete groups, in the order of their words. -/
def groups (n : Nat) : List (List (BitVec iqWidth)) :=
  if st.mimoEn then
    (RxiqMimoDdr.pairing st.rule st.channels st.fidm d n).pairs.map (pairSamples d)
  else if st.ddrEn then (RxiqSisoDdr.captured st.fidm d n).done
  else (RxiqSisoSdr.captured st.fidm d n).done

end RxSetting

/-! ## The receivers -/

section receivers

variable {w : Nat} {fidm : Bool}

theorem put_length {g : Groups (BitVec w)} (h : ∀ b ∈ g.done, b.length = 4) (a : List (BitVec w)) :
    ∀ b ∈ (g.put 4 a).done, b.length = 4 := by
  intro b hb
  rw [Groups.put] at hb
  split at hb
  next hlen =>
    rcases List.mem_append.1 hb with hb | hb
    · exact h b hb
    · rw [List.mem_singleton.1 hb]
      exact hlen
  next => exact h b hb

variable {x : Nat → DiqIn w}

/-- A group is four samples. -/
theorem RxiqSisoDdr.captured_length (n : Nat) :
    ∀ b ∈ (captured fidm x n).done, b.length = 4 := by
  induction n with
  | zero => exact fun b hb => absurd hb List.not_mem_nil
  | succ n ih =>
    rw [captured_succ, collect]
    split
    · exact put_length ih _
    · exact ih

theorem RxiqSisoSdr.captured_length (n : Nat) :
    ∀ b ∈ (captured fidm x n).done, b.length = 4 := by
  induction n with
  | zero => exact fun b hb => absurd hb List.not_mem_nil
  | succ n ih =>
    rw [captured_succ, collect]
    split
    · exact ih
    · split
      · exact ih
      · exact put_length ih _

theorem length_if_le {α : Type} (c : Bool) (a : α) : (if c then [a] else []).length ≤ 1 := by
  cases c with
  | false => exact Nat.zero_le 1
  | true => exact Nat.le_refl 1

theorem RxiqMimoDdr.under_way_length (e : Enabled) (s : RxiqMimoDdr w) :
    (s.wr ++ muxed e s).length ≤ 2 := by
  rw [List.length_append, wr, muxed]
  exact Nat.add_le_add (length_if_le _ _) (length_if_le _ _)

end receivers

section receivers

variable {st : RxSetting} {d : Nat → DiqIn iqWidth}

theorem groups_length (n : Nat) : ∀ g ∈ st.groups d n, g.length = 4 := by
  obtain ⟨pulse, ddr, mimo, fidm, channels⟩ := st
  cases mimo with
  | true =>
    intro g hg
    obtain ⟨p, -, rfl⟩ := List.mem_map.1 hg
    rfl
  | false =>
    cases ddr with
    | true => exact RxiqSisoDdr.captured_length n
    | false => exact RxiqSisoSdr.captured_length n

/-- What a receiver gives away are the words of the groups, but for two at most that it still has. -/
theorem given_groups (h : st.Orderly d) (n : Nat) : ∃ w, w.length ≤ 2 ∧
    st.receiver.given d n ++ w = (st.groups d n).map wordOf := by
  obtain ⟨pulse, ddr, mimo, fidm, channels⟩ := st
  cases mimo with
  | true =>
    let r := RxSetting.rule ⟨pulse, ddr, true, fidm, channels⟩
    let s := RxiqMimoDdr.stateAt r channels fidm d n
    have hf : RxiqMimoDdr.Follows r channels fidm d n _ := RxiqMimoDdr.follows n
    refine ⟨s.wr ++ RxiqMimoDdr.muxed channels s, RxiqMimoDdr.under_way_length channels s, ?_⟩
    show _ = (List.map _ _).map wordOf
    rw [← List.append_assoc, List.map_map]
    exact hf.words
  | false =>
    cases ddr with
    | true =>
      have hf := RxiqSisoDdr.follows (n := n) fun k _ => h k
      exact ⟨_, Nat.le_succ_of_le (length_if_le _ _), hf.words⟩
    | false =>
      have hf := RxiqSisoSdr.follows (n := n) fun k _ => h k
      exact ⟨_, Nat.le_succ_of_le (length_if_le _ _), hf.words⟩

/-- No two words in clocks in a row. -/
theorem wrreq_apart (h : st.Orderly d) (n : Nat)
    (hwr : st.receiver.wrreq (st.receiver.machine.state d n) = true) :
    st.receiver.wrreq (st.receiver.machine.state d (n + 1)) = false := by
  obtain ⟨pulse, ddr, mimo, fidm, channels⟩ := st
  cases mimo with
  | true =>
    cases n with
    | zero => cases hwr
    | succ n =>
      have hf : RxiqMimoDdr.Follows (RxSetting.rule ⟨pulse, ddr, true, fidm, channels⟩) channels fidm d n _ :=
        RxiqMimoDdr.follows n
      exact RxiqMimoDdr.wrreq_apart hf.coupled (d n) (d (n + 1)) hwr
  | false =>
    cases ddr with
    | true =>
      cases n with
      | zero => cases hwr
      | succ n =>
        rcases h n with hframe | ⟨hoff, -⟩
        · exact RxiqSisoDdr.wrreq_apart hframe (d (n + 1)) hwr
        · -- the first half of a word is not there
          have hen : (RxiqSisoDdr.stateAt fidm d n).diqPos01CapEn = true :=
            (Bool.and_eq_true_iff.1 hwr).1
          exact absurd (hoff.symm.trans hen) (by decide)
    | false =>
      cases n with
      | zero => cases hwr
      | succ n =>
        have hone : RxiqSisoSdr.OneHot fidm (RxiqSisoSdr.stateAt fidm d n) := by
          cases n with
          | zero => exact (inStepSisoSdr fidm).base_init
          | succ n => exact RxiqSisoSdr.oneHot_step _ _
        exact RxiqSisoSdr.wrreq_apart hone (d n) (d (n + 1)) hwr

end receivers

/-! ## On the way to the packet former -/

section run

variable {wd : WidthSetting} {st : RxSetting} {x : Nat → ClockIn}

/-- What the receivers see. -/
def diqAt (x : Nat → ClockIn) (n : Nat) : DiqIn iqWidth := (x n).diq

/-- The receiver in place is the receiver alone. -/
theorem inst_eq (n : Nat) :
    (clocksAt wd st x n).rxiq.inst = st.receiver.machine.state (diqAt x) n :=
  Machine.state_part (RxClocks.machine wd st) (fun s => s.rxiq.inst) st.receiver.step
    (fun _ i => i.diq) (fun _ _ => rfl) x n

variable (wd) in
theorem halfRate_of_orderly (h : st.Orderly (diqAt x)) : HalfRate (clocksFormIn wd st x) := by
  intro n hn
  refine Bool.eq_false_iff.2 fun hn' => ?_
  match n with
  | 0 => cases hn
  | 1 => cases hn
  | n + 2 =>
    have h1 := wrreq_of_write hn
    have h2 := wrreq_of_write (n := n + 1) hn'
    rw [inst_eq] at h1 h2
    exact absurd (h2.symm.trans (wrreq_apart h n h1)) (by decide)

theorem level_lt_of_orderly (h : st.Orderly (diqAt x)) (n : Nat) :
    (clocksAt wd st x n).level < smplBuffWords := by
  rw [RxClocks.level, clocksFormer_eq]
  exact smplBuff_length_lt (halfRate_of_orderly wd h) n

/-- The words in the two registers behind the receiver, the older one first. -/
def RxClocks.onTheWay (s : RxClocks st) : List IqWord :=
  (if s.rxiq.fifoWrreqReg then [s.rxiq.fifoWdataReg] else []) ++
    if s.rxiq.fifoWrreqReg0 then [s.rxiq.fifoWdataReg0] else []

theorem head_tail (rd : Bool) (l : List Word64) :
    (if rd then l.head?.toList else []) ++ Fifo.popped rd l = l := by
  cases rd with
  | false => rfl
  | true =>
    cases l with
    | nil => rfl
    | cons a l => rfl

variable (wd) in
/-- In a clock with room in the FIFO the words move on, and what the receiver gives away joins them. -/
theorem RxClocks.moves (s : RxClocks st) (i : ClockIn) (hroom : s.level < smplBuffWords) (j : FormIn) :
    s.timed.former.consumed j ++ (s.step wd i).timed.former.smplBuff.items ++
        (s.step wd i).onTheWay.map smplBuffRddata =
      s.timed.former.smplBuff.items ++ s.onTheWay.map smplBuffRddata ++
        (st.receiver.gives s.rxiq.inst).map smplBuffRddata := by
  have hfull : s.inst1Wrfull = false := decide_eq_false (Nat.not_le.2 hroom)
  have hpush : Fifo.pushed smplBuffWords (s.timedIn i).smplWrreq [smplBuffRddata s.rxiq.fifoWdataReg]
      s.timed.former.smplBuff.items =
        (if s.rxiq.fifoWrreqReg then [s.rxiq.fifoWdataReg] else []).map smplBuffRddata := by
    have hwr : (s.timedIn i).smplWrreq = s.rxiq.fifoWrreqReg := by
      show (s.rxiq.fifoWrreqReg && !s.inst1Wrfull) = _
      rw [hfull, Bool.not_false, Bool.and_true]
    rw [hwr]
    cases s.rxiq.fifoWrreqReg with
    | false => rfl
    | true => exact Fifo.pushed_true hroom
  have hitems : (s.step wd i).timed.former.smplBuff.items =
      Fifo.popped s.timed.former.core.smplBuffRdreq s.timed.former.smplBuff.items ++
        (if s.rxiq.fifoWrreqReg then [s.rxiq.fifoWdataReg] else []).map smplBuffRddata := by
    rw [← hpush]
    rfl
  have hway : (s.step wd i).onTheWay =
      (if s.rxiq.fifoWrreqReg0 then [s.rxiq.fifoWdataReg0] else []) ++
        st.receiver.gives s.rxiq.inst := by
    show (if s.rxiq.fifoWrreqReg0 && !s.inst1Wrfull then _ else _) ++
      (if st.receiver.wrreq s.rxiq.inst && !s.inst1Wrfull then _ else _) = _
    rw [hfull, Bool.not_false, Bool.and_true, Bool.and_true]
    rfl
  rw [hitems, hway, onTheWay, RxFormer.consumed, ← List.append_assoc, head_tail]
  simp only [List.map_append, List.append_assoc]

variable (wd) in
/-- Nothing is lost, nothing is overtaken. -/
theorem given_eq (h : st.Orderly (diqAt x)) (n : Nat) :
    (st.receiver.given (diqAt x) n).map smplBuffRddata =
      (RxFormer.machine wd).log RxFormer.consumed (clocksFormIn wd st x) n ++
        (clocksAt wd st x n).timed.former.smplBuff.items ++
          (clocksAt wd st x n).onTheWay.map smplBuffRddata := by
  induction n with
  | zero => rfl
  | succ n ih =>
    have hmoves := RxClocks.moves wd (clocksAt wd st x n) (x n) (level_lt_of_orderly h n)
      (clocksFormIn wd st x n)
    have hgiven : st.receiver.given (diqAt x) (n + 1) = st.receiver.given (diqAt x) n ++
        st.receiver.gives (clocksAt wd st x n).rxiq.inst := by
      rw [inst_eq]
      rfl
    have hform : (RxFormer.machine wd).state (clocksFormIn wd st x) n =
        (clocksAt wd st x n).timed.former := (clocksFormer_eq n).symm
    have hstep : clocksAt wd st x (n + 1) = (clocksAt wd st x n).step wd (x n) := rfl
    rw [hgiven, List.map_append, ih, Machine.log_succ, hform, hstep]
    simp only [List.append_assoc] at hmoves ⊢
    rw [hmoves]

end run

/-! ## Out of the packets again -/

/-- Payload words as `bit_unpack_64` unpacks them: with neither bit of `sample_width` set they are of
    16-bit samples, with the upper one of 12-bit samples; with "01" nothing comes out. -/
def unpackWords (sampleWidth : BitVec 2) (l : List Word64) : List (BitVec 16) :=
  if BitUnpack64.mux0Sel sampleWidth then (unpackGear.run 0 0 l).flatMap (fields 8)
  else if BitUnpack64.mux1Sel sampleWidth then []
  else (pairGear.run 0 0 l).flatMap (fields 8)

/-- It undoes the packing. -/
theorem unpackWords_packing {wd : WidthSetting} (hwd : wd ≠ .w14) {l : List Word64}
    (hl : l.length = smplRdSize wd) (h12 : ∀ w ∈ l, TwelveBit w) :
    unpackWords wd (packing wd l) = l.flatMap (fields 4) := by
  cases wd with
  | w12 =>
    have hlen : (l.map inst0Data48In).length = 4 * 170 := by
      rw [List.length_map, hl]
      rfl
    calc (unpackGear.run 0 0 (packGear.run 0 0 (l.map inst0Data48In))).flatMap (fields 8)
        = (l.map inst0Data48In).flatMap fields12 := Rx.unpack_pack 170 0 0 _ hlen
      _ = l.flatMap (fields 4) := by
          rw [List.flatMap_map, List.flatMap_def, List.flatMap_def]
          congr 1
          apply List.map_congr_left
          intro w hw
          exact fields12_inst0Data48In (h12 w hw)
  | w14 => exact absurd rfl hwd
  | w16 =>
    have hlen : l.length = 2 * 255 := hl
    exact pair_run 255 0 l hlen

/-- Samples go into the upper twelve bits. -/
theorem twelveBit_smplBuffRddata (q : IqWord) : TwelveBit (smplBuffRddata q) := by
  intro k hk
  rw [smplBuffRddata]
  match k, hk with
  | 0, _ | 1, _ | 2, _ | 3, _ =>
    simp (disch := decide) only [BitVec.extractLsb'_append_eq_of_add_le,
      BitVec.extractLsb'_append_eq_of_le]
    rfl

theorem extract_low {n : Nat} (x : BitVec n) (a : BitVec 12) :
    (x ++ a ++ 0#4).extractLsb' 0 16 = a ++ 0#4 := by
  apply BitVec.eq_of_getLsbD_eq
  intro i hi
  simp only [BitVec.getLsbD_extractLsb', BitVec.getLsbD_append, hi, Nat.zero_add, decide_true,
    Bool.true_and]
  by_cases h4 : i < 4
  · simp [h4]
  · have h12 : i - 4 < 12 := by omega
    simp [h4, h12]

theorem smplBuffRddata_word (a b c d : BitVec iqWidth) :
    smplBuffRddata (wordOf [a, b, c, d]) = d ++ 0#4 ++ c ++ 0#4 ++ b ++ 0#4 ++ a ++ 0#4 := by
  have hword : wordOf [a, b, c, d] = d ++ c ++ b ++ a := rfl
  have h0 : (d ++ c ++ b ++ a).extractLsb' 0 12 = a := BitVec.extractLsb'_append_eq_right ..
  have h1 : (d ++ c ++ b ++ a).extractLsb' 12 12 = b := by
    rw [BitVec.extractLsb'_append_eq_of_le (by decide)]
    exact BitVec.extractLsb'_append_eq_right ..
  have h2 : (d ++ c ++ b ++ a).extractLsb' 24 12 = c := by
    rw [BitVec.extractLsb'_append_eq_of_le (by decide), BitVec.extractLsb'_append_eq_of_le (by decide)]
    exact BitVec.extractLsb'_append_eq_right ..
  have h3 : (d ++ c ++ b ++ a).extractLsb' 36 12 = d := by
    rw [BitVec.extractLsb'_append_eq_of_le (by decide), BitVec.extractLsb'_append_eq_of_le (by decide),
      BitVec.extractLsb'_append_eq_left]
  rw [hword, smplBuffRddata, h0, h1, h2, h3]

theorem fields_group {g : List (BitVec iqWidth)} (h : g.length = 4) :
    fields 4 (smplBuffRddata (wordOf g)) = g.map (· ++ 0#4) := by
  match g, h with
  | [a, b, c, d], _ =>
    rw [smplBuffRddata_word]
    simp only [fields, List.range, List.range.loop, List.map]
    simp (disch := decide) only [BitVec.extractLsb'_append_eq_of_le]
    simp only [iqWidth, Nat.reduceMul, Nat.reduceSub, extract_low, Nat.reduceAdd,
      BitVec.extractLsb'_eq_self]

/-! ## The whole way -/

section run

variable {wd : WidthSetting} {st : RxSetting} {x : Nat → ClockIn}

variable (wd x) in
/-- Never more than one cycle away from rest. -/
theorem rest_soon (y : Nat → FormIn) (n : Nat) :
    ∃ k, n ≤ k ∧ 2 ≤ k ∧ Idle wd (formerAt wd y k) ∧ ∃ ts, Ran wd y k ts := by
  cases located wd y n with
  | idle ts h hidle => exact ⟨n + 2, by omega, by omega, hidle, ts, h⟩
  | busy u a ts hn hu ha hidle hst h =>
    have hend := hst.ends (y := fun k => y (u + 1 + k))
    rw [← formerAt_add] at hend
    exact ⟨u + 1 + cycle wd, by omega, by omega, hend, _, h.cycle hst⟩

theorem onTheWay_length (s : RxClocks st) : s.onTheWay.length ≤ 2 := by
  rw [RxClocks.onTheWay, List.length_append]
  exact Nat.add_le_add (length_if_le _ _) (length_if_le _ _)

/-- The samples of the words that cycle `j` reads. -/
def cycleGroups (sampleWidth : BitVec 2) (gs : List (List (BitVec iqWidth))) (j : Nat) :
    List (List (BitVec iqWidth)) := (gs.drop (smplRdSize sampleWidth * j)).take (smplRdSize sampleWidth)

theorem samplesAt_eq {n : Nat} {ts : List Nat} {gs : List (List (BitVec iqWidth))} {l : List Word64}
    (h : Ran wd (clocksFormIn wd st x) n ts)
    (hgs : (gs.map wordOf).map smplBuffRddata =
      (RxFormer.machine wd).log RxFormer.consumed (clocksFormIn wd st x) n ++ l)
    {j : Nat} (hj : j < ts.length) : samplesAt wd (clocksFormIn wd st x) ts[j] =
      ((cycleGroups wd gs j).map wordOf).map smplBuffRddata := by
  have hlen : ∀ t ∈ ts, (samplesAt wd (clocksFormIn wd st x) t).length = smplRdSize wd.code :=
    fun t ht => samplesAt_length (h.starts t ht)
  have hall := h.samples_length
  have hmul : smplRdSize wd.code * (j + 1) ≤ smplRdSize wd.code * ts.length := Nat.mul_le_mul_left _ hj
  rw [Nat.mul_succ] at hmul
  have hpiece := Repeats.take_drop_flatMap hlen hj
  rw [cycleGroups, List.map_take, List.map_take, List.map_drop, List.map_drop, hgs, h.consumed,
    List.drop_append_of_le_length (by omega),
    List.take_append_of_le_length (by rw [List.length_drop]; omega), hpiece]

/-- The second header word counts samples; `sinceClear` goes by the same input. -/
def headerAt (sampleWidth : BitVec 2) (st : RxSetting) (x : Nat → ClockIn) (t : Nat) : Nat :=
  readBefore sampleWidth st.ch (fun k => (clocksAt sampleWidth st x k).timedIn (x k))
    (sinceClear (fun k => (clocksAt sampleWidth st x k).timedIn (x k)) (t + 1))

theorem samplesPerWord_eq (st : RxSetting) : st.ch.samplesPerWord = st.perWord := by
  have hmode : ∀ m (e : Enabled), ChSetting.samplesPerWord ⟨m, e.chEn⟩ =
      if m = true ∧ e = .both then 1 else 2 := by
    intro m e
    cases m <;> cases e <;> decide
  exact hmode st.mimoEn st.channels

theorem unpack_groups (hwd : wd ≠ .w14) {gs : List (List (BitVec iqWidth))}
    (hl : ((gs.map wordOf).map smplBuffRddata).length = smplRdSize wd.code)
    (hfour : ∀ g ∈ gs, g.length = 4) :
    unpackWords wd (packing wd ((gs.map wordOf).map smplBuffRddata)) = gs.flatten.map (· ++ 0#4) := by
  have htwelve : ∀ v ∈ (gs.map wordOf).map smplBuffRddata, TwelveBit v := by
    intro v hv
    obtain ⟨q, -, rfl⟩ := List.mem_map.1 hv
    exact twelveBit_smplBuffRddata q
  rw [unpackWords_packing hwd hl htwelve, List.map_map, List.flatMap_map, List.map_flatten,
    List.flatMap_def]
  congr 1
  apply List.map_congr_left
  intro g hg
  exact fields_group (hfour g hg)

theorem header_eq (hwd : wd ≠ .w14) (hld : ∀ n, (x n).ldSmplNrSync = false) {n : Nat} {ts : List Nat}
    (h : Cycles wd (clocksFormIn wd st x) n ts) {j : Nat} (hj : j < ts.length)
    (hclr : ∀ c, c ≤ ts[j] → ts[j] + hdrAge wd ≤ c + 7 → (x c).clrSmplNrSync = false) :
    (clocksFormIn wd st x (ts[j] + hdrAge wd)).pctHdr1 =
      .ofNat 64 (st.perWord * (smplRdSize wd.code * j - headerAt wd st x ts[j])) := by
  have hst := h.starts (List.getElem_mem hj)
  rw [← clocksFormer_eq, timed_eq] at hst
  have hcount : readBefore wd st.ch (fun k => (clocksAt wd st x k).timedIn (x k)) (ts[j] + 1) =
      smplRdSize wd.code * j := readBefore_getElem h hj
  rw [headerAt, ← hcount, ← samplesPerWord_eq]
  exact timestamp_at hld hwd hst hclr

variable (wd) in
/-- The packets of the whole cycles, by the groups the receiver has captured. -/
theorem packets_of_groups (hwd : wd ≠ .w14) (hord : st.Orderly (diqAt x))
    (hld : ∀ n, (x n).ldSmplNrSync = false) (n : Nat) : ∃ k, n ≤ k ∧ ∃ ts,
      Whole wd (clocksFormIn wd st x) k ts ∧
      smplRdSize wd.code * ts.length ≤ (st.groups (diqAt x) k).length ∧
      (st.groups (diqAt x) k).length ≤ smplRdSize wd.code * (ts.length + 1) + 7 ∧
      ∀ j (hj : j < ts.length),
        unpackWords wd ((packetAt wd (clocksFormIn wd st x) ts[j]).drop 2) =
          (cycleGroups wd (st.groups (diqAt x) k) j).flatten.map (· ++ 0#4) ∧
        ((∀ c, c ≤ ts[j] → ts[j] + hdrAge wd ≤ c + 7 → (x c).clrSmplNrSync = false) →
          (packetAt wd (clocksFormIn wd st x) ts[j])[1]? = some (.ofNat 64 (st.perWord *
            (smplRdSize wd.code * j - headerAt wd st x ts[j])))) := by
  obtain ⟨k, hk, hk2, hidle, ts, hw⟩ := rest_soon wd (clocksFormIn wd st x) n
  obtain ⟨w, hwlen, hgiven⟩ := given_groups hord k
  have hall := given_eq wd hord k
  have hgs : ((st.groups (diqAt x) k).map wordOf).map smplBuffRddata =
      (RxFormer.machine wd).log RxFormer.consumed (clocksFormIn wd st x) k ++
        ((clocksAt wd st x k).timed.former.smplBuff.items ++
          (clocksAt wd st x k).onTheWay.map smplBuffRddata ++ w.map smplBuffRddata) := by
    rw [← hgiven, List.map_append, hall]
    simp only [List.append_assoc]
  have hlow : (clocksAt wd st x k).timed.former.smplBuff.items.length ≤ smplRdSize wd.code + 3 := by
    obtain ⟨m, rfl⟩ : ∃ m, k = m + 2 := ⟨k - 2, by omega⟩
    rw [clocksFormer_eq]
    exact (low_at (halfRate_of_orderly wd hord) m hidle).level
  have hcount := congrArg List.length hgs
  have hway := onTheWay_length (clocksAt wd st x k)
  have hlen := hw.samples_length
  simp only [List.length_map, List.length_append, hw.consumed, hlen] at hcount
  refine ⟨k, hk, ts, hw.whole hwd, by omega, by rw [Nat.mul_succ]; omega, ?_⟩
  intro j hj
  have hst := hw.starts ts[j] (List.getElem_mem hj)
  refine ⟨?_, fun hclr => congrArg some (header_eq hwd hld hw.toCycles hj hclr)⟩
  have hsize : (samplesAt wd (clocksFormIn wd st x) ts[j]).length = smplRdSize wd.code :=
    samplesAt_length hst
  have hfour : ∀ g ∈ cycleGroups wd (st.groups (diqAt x) k) j, g.length = 4 :=
    fun g hg => groups_length k g (List.mem_of_mem_drop (List.mem_of_mem_take hg))
  rw [packetAt, List.drop_succ_cons, List.drop_succ_cons, List.drop_zero]
  rw [samplesAt_eq hw hgs hj] at hsize ⊢
  exact unpack_groups hwd hsize hfour

end run

end Rx
