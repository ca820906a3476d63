import LimeSdrGw.Clocked.Repeats
import LimeSdrGw.Wfm.Decoding
import LimeSdrGw.Wfm.RcmdFsm
/-
# A waveform played back

`wfm_rcmd_fsm` asks for the words of the waveform, pass after pass, the memory delivers them in order
and in its own time, and `decompress` makes samples of them. Nothing marks the end of a pass in the
words. With 12 bits a group is three words: where the length is not a multiple of three the group that
a pass leaves incomplete takes in the first words of the next pass.

| here | there |
| --- | --- |
| `Playback`, `.step`  | wfm_player_top.vhd:361-494, `rcmd_clk` and `wclk` being one clock, `DDR2_ctrl_phy_clk` |
| `asked`              | reads the memory controller has taken and not delivered |
| `decoder`            | `reset_n` of `decompress`, `not wfm_load` |
-/
namespace Wfm

open Clocked

structure PlaybackIn where
  rcmdRdy : Bool
  wcmdLastAddr : Addr
  wfmLoad : Bool
  wfmPlayStop : Bool
  sampleWidth : BitVec 2
  /-- The memory delivers a word, if one has been asked for. -/
  deliver : Bool
deriving Repr, DecidableEq

def PlaybackIn.rcmdIn (i : PlaybackIn) : RcmdIn := ⟨i.rcmdRdy, i.wcmdLastAddr, i.wfmLoad, i.wfmPlayStop⟩

structure Playback where
  rcmd : RcmdFsm
  asked : List Addr
  dcmpr : Decompress
deriving Repr, DecidableEq

namespace Playback

def init (latch : Addr) : Playback := ⟨.init latch, [], .init⟩

variable (mem : Addr → Word32) (s : Playback) (i : PlaybackIn)

def localRdataValid : Bool := i.deliver && !s.asked.isEmpty
def localRdata : Word32 := mem (s.asked.headD 0)

def decoder (d : Decompress) : Decompress := if i.wfmLoad then .init else d

def step : Playback where
  rcmd := s.rcmd.step i.rcmdIn
  asked := (if s.localRdataValid i then s.asked.tail else s.asked) ++ s.rcmd.addresses i.rcmdIn
  dcmpr := decoder i
    ((decoder i s.dcmpr).step i.sampleWidth (s.localRdataValid i) (s.localRdata mem))

/-- The samples a clock's write brings. -/
def delivered : List (BitVec 16) :=
  (validWord ((decoder i s.dcmpr).decFifoWr (s.localRdataValid i))
    ((decoder i s.dcmpr).fifoD (s.localRdataValid i) (s.localRdata mem))).flatMap FifoD.samples

def machine (latch : Addr) : Machine Playback PlaybackIn := ⟨init latch, step mem⟩

end Playback

section run

variable (mem : Addr → Word32) (u : Addr) (x : Nat → PlaybackIn)

abbrev playbackAt (n : Nat) : Playback := (Playback.machine mem u).state x n

/-- All samples before clock `n`. -/
def samplesBefore (n : Nat) : List (BitVec 16) :=
  (Playback.machine mem u).log (Playback.delivered mem) x n

end run

/-- The load of the run, up to clock `b`, leaves the length `len`, to be decoded with the width `w`. -/
structure OneLoad (x : Nat → PlaybackIn) (b : Nat) (len : Addr) (w : BitVec 2) : Prop where
  load : ∃ a, a ≤ b ∧ ∀ n, (x n).wfmLoad = decide (a ≤ n ∧ n ≤ b)
  len : (x (b + 1)).wcmdLastAddr = len
  width : (x (b + 1)).sampleWidth = w

/-- The words of a waveform of `n` words. -/
def stored (mem : Addr → Word32) (n : Nat) : List Word32 :=
  (List.range n).map fun k => mem (BitVec.ofNat addrSize k)

/-- The whole 12-bit fields of a list of words, eight in three. -/
def fields12 : List Word32 → List (BitVec 16)
  | a :: b :: c :: l => (List.range 8).map (field12 a b c) ++ fields12 l
  | [a, b] => (List.range 5).map (field12 a b 0)
  | [a] => (List.range 2).map (field12 a 0 0)
  | [] => []

/-- The upper 12 bits of the halves of a word. -/
def halves (a : Word32) : List (BitVec 16) := [sample a 4, sample a 20]

/-- One pass of a waveform, from the first bit of its first word. -/
def sampleBlock (w : BitVec 2) (l : List Word32) : List (BitVec 16) :=
  if w = 0b10 then fields12 l else l.flatMap halves

/-! ## Groups of a repeated waveform -/

theorem getElem?_decode12 (l : List Word32) (g : Nat) : (decode12 l)[g]? =
    (l[3 * g]?).bind fun a => (l[3 * g + 1]?).bind fun b => (l[3 * g + 2]?).map (unpack12 a b) := by
  fun_induction decode12 l generalizing g with
  | case1 a b c l ih =>
    cases g with
    | zero => rfl
    | succ g =>
      rw [List.getElem?_cons_succ, ih]
      rfl
  | case2 l hl =>
    rcases l with _ | ⟨a, _ | ⟨b, _ | ⟨c, l⟩⟩⟩
    · rfl
    · cases g <;> rfl
    · cases g <;> rfl
    · exact absurd rfl (hl a b c l)

/-- Whole groups repeat with the words. -/
theorem repeats_decode12 {block l : List Word32} (h : Repeats block l)
    (hlen : block.length % 3 = 0) : Repeats (decode12 block) (decode12 l) := by
  intro g hg
  rw [length_decode12] at hg
  have hmod : ∀ j, j < 3 →
      (3 * g + j) % block.length = 3 * (g % (decode12 block).length) + j := by
    intro j hj
    rw [length_decode12]
    generalize hm : block.length / 3 = m
    have hblock : block.length = 3 * m := by omega
    rcases Nat.eq_zero_or_pos m with hzero | hpos
    · rw [hblock, hzero, Nat.mul_zero, Nat.mod_zero, Nat.mod_zero]
    · have hlt := Nat.mod_lt g hpos
      have hg' := Nat.div_add_mod g m
      have hsplit : 3 * g + j = 3 * m * (g / m) + (3 * (g % m) + j) := by
        rw [Nat.mul_assoc]
        omega
      rw [hblock, hsplit, Nat.mul_add_mod, Nat.mod_eq_of_lt (by omega)]
  have h0 := h (3 * g) (by omega)
  have h1 := h (3 * g + 1) (by omega)
  have h2 := h (3 * g + 2) (by omega)
  rw [hmod 1 (by decide)] at h1
  rw [hmod 2 (by decide)] at h2
  rw [show 3 * g = 3 * g + 0 from rfl, hmod 0 (by decide)] at h0
  rw [getElem?_decode12, getElem?_decode12, h1, h2]
  exact congrArg (Option.bind · _) h0

theorem fields12_of_groups {l : List Word32} (h : l.length % 3 = 0) :
    fields12 l = (decode12 l).flatMap FifoD.samples := by
  fun_induction decode12 l with
  | case1 a b c l ih =>
    have hl : l.length % 3 = 0 := by
      simp only [List.length_cons] at h
      omega
    rw [fields12, List.flatMap_cons, ih hl]
    rfl
  | case2 l hl =>
    have hlt := length_lt_three hl
    obtain rfl : l = [] := List.eq_nil_of_length_eq_zero (by omega)
    rfl

/-- With 16 bits every word is decoded by itself. -/
theorem decode16_samples (l : List Word32) : (decode16 l).flatMap FifoD.samples =
    (l.take (4 * (l.length / 4))).flatMap halves := by
  fun_induction decode16 l with
  | case1 a b c d l ih =>
    have hlen : 4 * ((a :: b :: c :: d :: l).length / 4) = 4 * (l.length / 4) + 4 := by
      simp only [List.length_cons]
      omega
    rw [List.flatMap_cons, ih, hlen, unpack16_eq]
    rfl
  | case2 l hl =>
    rw [Nat.div_eq_of_lt (length_lt_four hl)]
    rfl

/-- What is made of the groups of a repeated waveform repeats one pass of it, if a pass ends with a
    group or no sample lies across two words. -/
theorem repeats_groups {block l : List Word32} (h : Repeats block l) {w : BitVec 2}
    (hw : w = 0b10 → block.length % 3 = 0) :
    Repeats (sampleBlock w block) ((groups w l).flatMap FifoD.samples) := by
  rw [sampleBlock, groups]
  by_cases h12 : w = 0b10
  · rw [if_pos h12, if_pos h12, fields12_of_groups (hw h12)]
    exact (repeats_decode12 h (hw h12)).flatMap (c := 8) (by decide) fun _ => rfl
  · rw [if_neg h12, if_neg h12, decode16_samples]
    exact (h.of_prefix (List.take_prefix _ _)).flatMap (c := 2) (by decide) fun _ => rfl

/-! ## The run -/

section run

variable {mem : Addr → Word32} {u : Addr} {x : Nat → PlaybackIn} {b : Nat} {len : Addr}
  {w : BitVec 2}

/-- The address generator in place is the address generator with these inputs. -/
theorem rcmd_eq (n : Nat) :
    (playbackAt mem u x n).rcmd = rcmdAt u (fun k => (x k).rcmdIn) n :=
  Machine.state_part (Playback.machine mem u) Playback.rcmd RcmdFsm.step
    (fun _ i => i.rcmdIn) (fun _ _ => rfl) x n

theorem loadFalls_eq {y : Nat → RcmdIn} (k : Nat) : (rcmdAt u y (k + 3)).loadFalls =
    ((y k).wfmLoad && !(y (k + 1)).wfmLoad) := rfl

/-- The end of the load is seen three clocks later. -/
theorem OneLoad.loadFalls_iff (h : OneLoad x b len w) (n : Nat) :
    (rcmdAt u (fun k => (x k).rcmdIn) n).loadFalls = true ↔ n = b + 3 := by
  match n with
  | 0 | 1 | 2 => exact ⟨nofun, fun h => absurd h (by omega)⟩
  | k + 3 =>
    obtain ⟨a, hab, hload⟩ := h.load
    rw [loadFalls_eq]
    show ((x k).wfmLoad && !(x (k + 1)).wfmLoad) = true ↔ _
    rw [hload, hload]
    simp only [Bool.and_eq_true, Bool.not_eq_true', decide_eq_true_eq, decide_eq_false_iff_not]
    omega

theorem OneLoad.loadsOnce (h : OneLoad x b len w) : LoadsOnce u (fun k => (x k).rcmdIn) len :=
  ⟨b + 3, (h.loadFalls_iff _).2 rfl, h.len, fun k hk => (h.loadFalls_iff k).1 hk⟩

variable (mem u) in
/-- Nothing is asked for before the end of the load is seen. -/
theorem OneLoad.quiet (h : OneLoad x b len w) {n : Nat} (hn : n ≤ b + 3) :
    readsBefore u (fun k => (x k).rcmdIn) n = [] ∧ (playbackAt mem u x n).asked = [] ∧
      samplesBefore mem u x n = [] := by
  have hidle : ∀ n, n ≤ b + 3 → (rcmdAt u (fun k => (x k).rcmdIn) n).currentState = .idle ∧
      readsBefore u (fun k => (x k).rcmdIn) n = [] := by
    intro n hn
    have hbefore := idle_before (u := u) (x := fun k => (x k).rcmdIn) (n := n) fun k hk =>
      Bool.eq_false_iff.2 fun hf => by
        have := (h.loadFalls_iff k).1 hf
        omega
    exact ⟨hbefore.1, hbefore.2.2⟩
  refine ⟨(hidle n hn).2, ?_⟩
  induction n with
  | zero => exact ⟨rfl, rfl⟩
  | succ n ih =>
    obtain ⟨hasked, hsamples⟩ := ih (by omega)
    have hst := (hidle n (by omega)).1
    have hvalid : (playbackAt mem u x n).localRdataValid (x n) = false := by
      rw [Playback.localRdataValid, hasked]
      exact Bool.and_false _
    have hnone : (playbackAt mem u x n).rcmd.addresses (x n).rcmdIn = [] := by
      rw [rcmd_eq]
      exact RcmdFsm.addresses_stall (by simp [RcmdFsm.rcmdWr, hst])
    refine ⟨?_, ?_⟩
    · show (if (playbackAt mem u x n).localRdataValid (x n) then _ else _) ++ _ = _
      rw [hvalid, hnone, hasked]
      rfl
    · rw [samplesBefore, Machine.log_succ, ← samplesBefore, hsamples]
      show [] ++ Playback.delivered mem (playbackAt mem u x n) (x n) = []
      rw [Playback.delivered, hvalid, Decompress.decFifoWr, Bool.and_false]
      rfl

open Player

/-- What has been decoded is what has been asked for and delivered. -/
structure Feeds (mem : Addr → Word32) (u : Addr) (x : Nat → PlaybackIn) (w : BitVec 2) (n : Nat)
    (done : List Addr) (l : List FifoD) : Prop where
  reads : readsBefore u (fun k => (x k).rcmdIn) n = done ++ (playbackAt mem u x n).asked
  reading : Reading (playbackAt mem u x n).dcmpr ⟨none, done.map mem, l⟩
  format : (playbackAt mem u x n).dcmpr.state.format = some (taken w)
  samples : samplesBefore mem u x n = l.flatMap FifoD.samples

theorem Feeds.step {n : Nat} {done : List Addr} {l : List FifoD} (h : Feeds mem u x w n done l)
    (hload : (x n).wfmLoad = false) : ∃ done' l', Feeds mem u x w (n + 1) done' l' := by
  have hbusy : (playbackAt mem u x n).dcmpr.state ≠ .idle := by
    intro hidle
    have hformat := h.format
    rw [hidle] at hformat
    exact nomatch hformat
  have hdec : ∀ d, Playback.decoder (x n) d = d := fun d => by rw [Playback.decoder, hload]; rfl
  have hdcmpr : (playbackAt mem u x (n + 1)).dcmpr = (playbackAt mem u x n).dcmpr.step
      (x n).sampleWidth ((playbackAt mem u x n).localRdataValid (x n))
      ((playbackAt mem u x n).localRdata mem) := by
    show Playback.decoder (x n) ((Playback.decoder (x n) (playbackAt mem u x n).dcmpr).step _ _ _) = _
    rw [hdec, hdec]
  have hasked : (playbackAt mem u x (n + 1)).asked =
      (if (playbackAt mem u x n).localRdataValid (x n) then (playbackAt mem u x n).asked.tail
        else (playbackAt mem u x n).asked) ++
      (rcmdAt u (fun k => (x k).rcmdIn) n).addresses (x n).rcmdIn := by
    rw [← rcmd_eq]
    rfl
  have hsamples : samplesBefore mem u x (n + 1) = samplesBefore mem u x n ++
      (validWord ((playbackAt mem u x n).dcmpr.decFifoWr
        ((playbackAt mem u x n).localRdataValid (x n)))
        ((playbackAt mem u x n).dcmpr.fifoD ((playbackAt mem u x n).localRdataValid (x n))
          ((playbackAt mem u x n).localRdata mem))).flatMap FifoD.samples := by
    rw [samplesBefore, Machine.log_succ, ← samplesBefore]
    show _ ++ Playback.delivered mem (playbackAt mem u x n) (x n) = _
    rw [Playback.delivered, hdec]
  have htick := h.reading.tick hbusy (x n).sampleWidth
    ((playbackAt mem u x n).localRdataValid (x n)) ((playbackAt mem u x n).localRdata mem)
  have hformat := (h.reading.format_kept hbusy (x n).sampleWidth
    ((playbackAt mem u x n).localRdataValid (x n))
    ((playbackAt mem u x n).localRdata mem)).trans h.format
  rw [← hdcmpr] at htick hformat
  have hreads := readsBefore_succ (u := u) (x := fun k => (x k).rcmdIn) n
  rw [h.reads] at hreads
  refine ⟨done ++ validWord ((playbackAt mem u x n).localRdataValid (x n))
      ((playbackAt mem u x n).asked.headD 0),
    l ++ validWord
      ((playbackAt mem u x n).dcmpr.decFifoWr ((playbackAt mem u x n).localRdataValid (x n)))
      ((playbackAt mem u x n).dcmpr.fifoD ((playbackAt mem u x n).localRdataValid (x n))
        ((playbackAt mem u x n).localRdata mem)), ?_, ?_, hformat, ?_⟩
  · rw [hreads, hasked]
    cases hvalid : (playbackAt mem u x n).localRdataValid (x n) with
    | false => simp [validWord]
    | true =>
      rw [Playback.localRdataValid, Bool.and_eq_true, Bool.not_eq_true', List.isEmpty_eq_false_iff]
        at hvalid
      obtain ⟨a, r, hr⟩ := List.exists_cons_of_ne_nil hvalid.2
      simp [validWord, hr]
  · rw [List.map_append]
    have hword : (validWord ((playbackAt mem u x n).localRdataValid (x n))
        ((playbackAt mem u x n).asked.headD 0)).map mem =
        validWord ((playbackAt mem u x n).localRdataValid (x n))
          ((playbackAt mem u x n).localRdata mem) := by
      rw [validWord, validWord]
      split <;> rfl
    rw [hword]
    exact htick
  · rw [hsamples, h.samples, List.flatMap_append]

variable (mem u) in
/-- From the clock on in which the decoder has chosen its format. -/
theorem OneLoad.feeds (h : OneLoad x b len w) (m : Nat) :
    ∃ done l, Feeds mem u x w (b + 2 + m) done l := by
  obtain ⟨a, hab, hload⟩ := h.load
  have hoff : ∀ n, b < n → (x n).wfmLoad = false := by
    intro n hn
    rw [hload]
    exact decide_eq_false (by omega)
  induction m with
  | zero =>
    obtain ⟨hreads, hasked, hsamples⟩ := h.quiet mem u (n := b + 2) (by omega)
    have hreset : (playbackAt mem u x (b + 1)).dcmpr = .init := by
      show Playback.decoder (x b) _ = _
      rw [Playback.decoder, hload, decide_eq_true ⟨hab, Nat.le_refl b⟩]
      rfl
    have hdcmpr : (playbackAt mem u x (b + 2)).dcmpr = Decompress.init.step w
        ((playbackAt mem u x (b + 1)).localRdataValid (x (b + 1)))
        ((playbackAt mem u x (b + 1)).localRdata mem) := by
      show Playback.decoder (x (b + 1))
        ((Playback.decoder (x (b + 1)) (playbackAt mem u x (b + 1)).dcmpr).step
          (x (b + 1)).sampleWidth _ _) = _
      rw [Playback.decoder, Playback.decoder, hoff (b + 1) (by omega), hreset, h.width]
      rfl
    refine ⟨[], [], ?_, ?_, ?_, hsamples⟩
    · rw [Nat.add_zero, hreads, hasked]
      rfl
    · rw [Nat.add_zero, hdcmpr]
      by_cases hw : w = 0b10
      · exact .dec12_0 (if_pos hw) rfl rfl
      · exact .dec16_0 (if_neg hw) rfl rfl
    · rw [Nat.add_zero, hdcmpr]
      exact format_begin rfl w _ _
  | succ m ih =>
    obtain ⟨done, l, hm⟩ := ih
    exact hm.step (hoff _ (by omega))

/-- The words delivered are those of the waveform, pass after pass. -/
theorem delivered_repeats (hlen : 2 ≤ len.toNat) (h : OneLoad x b len w) {n : Nat} {done : List Addr}
    {r : List Addr} (hreads : readsBefore u (fun k => (x k).rcmdIn) n = done ++ r) :
    Repeats (stored mem len.toNat) (done.map mem) := by
  have hpass := reads_eq_passes hlen h.loadsOnce (u := u) n
  have hrep : Repeats (List.range len.toNat)
      ((readsBefore u (fun k => (x k).rcmdIn) n).map BitVec.toNat) := by
    intro k hk
    have hlt := Nat.mod_lt k (show 0 < len.toNat by omega)
    rw [List.length_map] at hk
    rw [hpass, passes, List.getElem?_map, List.getElem?_range hk, List.length_range,
      List.getElem?_range hlt]
    rfl
  have hmem := hrep.map fun k => mem (BitVec.ofNat addrSize k)
  rw [List.map_map] at hmem
  have hround : (fun k => mem (BitVec.ofNat addrSize k)) ∘ BitVec.toNat = mem := by
    funext a
    show mem (BitVec.ofNat addrSize a.toNat) = mem a
    rw [BitVec.ofNat_toNat, BitVec.setWidth_eq]
  rw [hround, hreads, List.map_append] at hmem
  exact hmem.of_prefix (List.prefix_append _ _)

end run

/-- The samples delivered repeat one block, the decoding of the stored words from the first bit on, with
    16 bits for every length and with 12 bits for every length in whole groups; whatever the room for
    commands, the play bit and the memory do. -/
theorem playback_periodic (mem : Addr → Word32) (u : Addr) (x : Nat → PlaybackIn) (b : Nat)
    (len : Addr) (w : BitVec 2) (h : OneLoad x b len w) (hlen : 2 ≤ len.toNat)
    (hw : w = 0b10 → len.toNat % 3 = 0) (n : Nat) :
    Repeats (sampleBlock w (stored mem len.toNat)) (samplesBefore mem u x n) := by
  by_cases hn : n ≤ b + 3
  · rw [(h.quiet mem u hn).2.2]
    intro k hk
    exact absurd hk (Nat.not_lt_zero k)
  · obtain ⟨m, rfl⟩ : ∃ m, n = b + 2 + m := ⟨n - (b + 2), by omega⟩
    obtain ⟨done, l, hfeed⟩ := h.feeds mem u m
    have hl : l = groups w (done.map mem) := by
      have hformat := hfeed.format
      rw [groups]
      by_cases h12 : w = 0b10
      · rw [taken, if_pos h12] at hformat
        rw [if_pos h12]
        exact hfeed.reading.decoded12 hformat
      · rw [taken, if_neg h12] at hformat
        rw [if_neg h12]
        exact hfeed.reading.decoded16 hformat
    rw [hfeed.samples, hl]
    refine repeats_groups (delivered_repeats hlen h hfeed.reads) fun h12 => ?_
    rw [stored, List.length_map, List.length_range]
    exact hw h12

/-- A load of one clock; the memory delivers at once. -/
def playbackIn (len : Addr) (w : BitVec 2) (n : Nat) : PlaybackIn :=
  ⟨true, len, n == 0, true, w, true⟩

theorem playbackIn_oneLoad (len : Addr) (w : BitVec 2) : OneLoad (playbackIn len w) 0 len w where
  load := ⟨0, Nat.le_refl 0, fun n => by cases n <;> simp [playbackIn]⟩
  len := rfl
  width := rfl

/-- Two words of 12-bit samples: the bits left over from the first pass become part of the sixth sample. -/
theorem playback_leftover : ¬ ∀ (mem : Addr → Word32) (u : Addr) (x : Nat → PlaybackIn) (b : Nat)
    (len : Addr) (w : BitVec 2), OneLoad x b len w → 2 ≤ len.toNat → ∀ n,
      Repeats (sampleBlock w (stored mem len.toNat)) (samplesBefore mem u x n) := by
  intro h
  have hbad := h (fun a => if a = 0 then 0xffffffff else 0) 0 (playbackIn 2 0b10) 0 2 0b10
    (playbackIn_oneLoad 2 0b10) (by decide) 9 5 (by decide)
  exact absurd hbad (by decide)

/-- Three words are one group. -/
theorem playback_periodic_three : Repeats (sampleBlock 0b10 (stored (·.setWidth 32) 3))
    (samplesBefore (·.setWidth 32) 0 (playbackIn 3 0b10) 64) :=
  playback_periodic _ 0 (playbackIn 3 0b10) 0 3 0b10 (playbackIn_oneLoad 3 0b10) (by decide)
    (fun _ => rfl) 64

end Wfm
