import LimeSdrGw.Wfm.Decompress
/-
# The format a waveform is decoded in

Register 14 holds the sample width; `wfm_smpl_width` is wired to the low bits of register 13, the
upper of which is `wfm_play`. The decompressor takes the width when it leaves `Idle`, in the first
clock after `wfm_load`, and keeps to it until the next load.
-/
namespace Wfm

open Clocked Spi

inductive Format
  | bits12
  | bits14
  | bits16
deriving Repr, DecidableEq

/-- `"00"-16bit, "01"-14bit, "10"-12bit` (decompress.vhd:29). -/
def configured (width : BitVec 2) : Option Format :=
  if width = 0b00 then some .bits16
  else if width = 0b01 then some .bits14
  else if width = 0b10 then some .bits12
  else none

/-- What the host has configured, `wfm_smpl_width` by the comment at register 14 (fpgacfg.vhd:202). -/
def hostWidth (mem : Regs) : BitVec 2 := (mem 14).extractLsb' 0 2

def DecState.format : DecState → Option Format
  | .idle => none
  | .dec12_0 | .dec12_1 | .dec12_2 | .dec12_3 => some .bits12
  | .dec14_0 | .dec14_1 | .dec14_2 | .dec14_3 | .dec14_4 | .dec14_5 | .dec14_6 => some .bits14
  | .dec16_0 | .dec16_1 | .dec16_2 | .dec16_3 => some .bits16

/-- The format the decompressor takes for what it is shown. -/
def taken (width : BitVec 2) : Format := if width = 0b10 then .bits12 else .bits16

section decode

/-- Sample `k` of three words, the first one lowest. -/
def field12 (a b c : Word32) (k : Nat) : BitVec 16 := 0#4 ++ (c ++ b ++ a).extractLsb' (12 * k) 12

def unpack12 (a b c : Word32) : FifoD where
  d0 := field12 a b c 0
  d1 := field12 a b c 1
  d2 := field12 a b c 2
  d3 := field12 a b c 3
  d4 := field12 a b c 4
  d5 := field12 a b c 5
  d6 := field12 a b c 6
  d7 := field12 a b c 7

/-- Sample `k` of four words, its upper twelve bits. -/
def field16 (a b c d : Word32) (k : Nat) : BitVec 16 :=
  0#4 ++ (d ++ c ++ b ++ a).extractLsb' (16 * k + 4) 12

def unpack16 (a b c d : Word32) : FifoD where
  d0 := field16 a b c d 0
  d1 := field16 a b c d 1
  d2 := field16 a b c d 2
  d3 := field16 a b c d 3
  d4 := field16 a b c d 4
  d5 := field16 a b c d 5
  d6 := field16 a b c d 6
  d7 := field16 a b c d 7

def decode12 : List Word32 → List FifoD
  | a :: b :: c :: l => unpack12 a b c :: decode12 l
  | _ => []

def decode16 : List Word32 → List FifoD
  | a :: b :: c :: d :: l => unpack16 a b c d :: decode16 l
  | _ => []

/-- Where no group can be taken, less than one is left. -/
theorem length_lt_three {l : List Word32} (h : ∀ a b c r, l = a :: b :: c :: r → False) :
    l.length < 3 := by
  rcases l with _ | ⟨a, _ | ⟨b, _ | ⟨c, l⟩⟩⟩
  · simp
  · simp
  · simp
  · exact absurd rfl (h a b c l)

theorem length_lt_four {l : List Word32} (h : ∀ a b c d r, l = a :: b :: c :: d :: r → False) :
    l.length < 4 := by
  rcases l with _ | ⟨a, _ | ⟨b, _ | ⟨c, _ | ⟨d, l⟩⟩⟩⟩
  · simp
  · simp
  · simp
  · simp
  · exact absurd rfl (h a b c d l)

theorem decode12_append {r : List Word32} (l : List Word32) (h : r.length % 3 = 0) :
    decode12 (r ++ l) = decode12 r ++ decode12 l := by
  fun_induction decode12 r with
  | case1 a b c r ih =>
    have hr : r.length % 3 = 0 := by
      simp only [List.length_cons] at h
      omega
    simp [decode12, ih hr]
  | case2 r hr =>
    have hlt := length_lt_three hr
    obtain rfl : r = [] := List.eq_nil_of_length_eq_zero (by omega)
    rfl

theorem decode16_append {r : List Word32} (l : List Word32) (h : r.length % 4 = 0) :
    decode16 (r ++ l) = decode16 r ++ decode16 l := by
  fun_induction decode16 r with
  | case1 a b c d r ih =>
    have hr : r.length % 4 = 0 := by
      simp only [List.length_cons] at h
      omega
    simp [decode16, ih hr]
  | case2 r hr =>
    have hlt := length_lt_four hr
    obtain rfl : r = [] := List.eq_nil_of_length_eq_zero (by omega)
    rfl

/-- The registers of `decompress` after two words and the third one make up the eight samples. -/
theorem unpack12_eq (a b c : Word32) : unpack12 a b c =
    ⟨sample a 0, sample a 12, 0#4 ++ b.extractLsb' 0 4 ++ a.extractLsb' 24 8, sample b 4, sample b 16,
      0#4 ++ c.extractLsb' 0 8 ++ b.extractLsb' 28 4, sample c 8, sample c 20⟩ := by
  simp only [unpack12, field12, sample, FifoD.mk.injEq]
  refine ⟨?_, ?_, ?_, ?_, ?_, ?_, ?_, ?_⟩ <;>
  · ext i hi
    simp only [BitVec.getElem_append, BitVec.getElem_extractLsb', BitVec.getLsbD_append]
    grind

theorem unpack16_eq (a b c d : Word32) : unpack16 a b c d =
    ⟨sample a 4, sample a 20, sample b 4, sample b 20, sample c 4, sample c 20, sample d 4,
      sample d 20⟩ := by
  simp only [unpack16, field16, sample, FifoD.mk.injEq]
  refine ⟨?_, ?_, ?_, ?_, ?_, ?_, ?_, ?_⟩ <;>
  · ext i hi
    simp only [BitVec.getElem_append, BitVec.getElem_extractLsb', BitVec.getLsbD_append]
    grind

end decode

/-- One pass, from the clock the decompressor leaves `Idle`: the width configured then, the words
    from the memory and what has been made of them. -/
structure Pass where
  width : Option (BitVec 2)
  received : List Word32
  written : List FifoD

namespace Player

section run

def noPass : Pass := ⟨none, [], []⟩

def note (p : Pass) (s : Player) (e : PlayerEvent) : Pass :=
  if wfmLoad (s.step e).mem then noPass
  else
    match e with
    | .hostWrite _ _ => p
    | .tick valid data =>
      if s.dcmpr.state = .idle then ⟨some (hostWidth s.mem), [], []⟩
      else ⟨p.width, p.received ++ validWord valid data,
        p.written ++ validWord (s.dcmpr.decFifoWr valid) (s.dcmpr.fifoD valid data)⟩

variable (x : Nat → PlayerEvent)

abbrev playerAt (n : Nat) : Player := machine.state x n

def passAt (n : Nat) : Pass := machine.track note noPass x n

end run

/-- The decompressor is about to take its format. -/
def begins (s : Player) (e : PlayerEvent) : Prop :=
  s.dcmpr.state = .idle ∧ wfmLoad s.mem = false ∧ ∃ valid data, e = .tick valid data

/-- What stands where the width is wired to agrees with the width the host has configured. -/
def Agree (mem : Regs) : Prop := ∀ f, configured (hostWidth mem) = some f → taken (wfmSmplWidth mem) = f

/-- Where the decompressor stands in its group of words. -/
inductive Reading (d : Decompress) (p : Pass) : Prop
  | idle : d.state = .idle → p = noPass → Reading d p
  | dec12_0 : d.state = .dec12_0 → p.received.length % 3 = 0 → p.written = decode12 p.received →
      Reading d p
  | dec12_1 (r : List Word32) (a : Word32) : d.state = .dec12_1 → p.received = r ++ [a] →
      r.length % 3 = 0 → p.written = decode12 r → d.dataInReg = a →
      (d.reg.d0, d.reg.d1) = (sample a 0, sample a 12) → Reading d p
  | dec12_2 (r : List Word32) (a b : Word32) : d.state = .dec12_2 → p.received = r ++ [a, b] →
      r.length % 3 = 0 → p.written = decode12 r → d.dataInReg = b →
      (d.reg.d0, d.reg.d1, d.reg.d2, d.reg.d3, d.reg.d4) = (sample a 0, sample a 12,
        0#4 ++ b.extractLsb' 0 4 ++ a.extractLsb' 24 8, sample b 4, sample b 16) → Reading d p
  | dec16_0 : d.state = .dec16_0 → p.received.length % 4 = 0 → p.written = decode16 p.received →
      Reading d p
  | dec16_1 (r : List Word32) (a : Word32) : d.state = .dec16_1 → p.received = r ++ [a] →
      r.length % 4 = 0 → p.written = decode16 r →
      (d.reg.d0, d.reg.d1) = (sample a 4, sample a 20) → Reading d p
  | dec16_2 (r : List Word32) (a b : Word32) : d.state = .dec16_2 → p.received = r ++ [a, b] →
      r.length % 4 = 0 → p.written = decode16 r →
      (d.reg.d0, d.reg.d1, d.reg.d2, d.reg.d3) =
        (sample a 4, sample a 20, sample b 4, sample b 20) → Reading d p
  | dec16_3 (r : List Word32) (a b c : Word32) : d.state = .dec16_3 → p.received = r ++ [a, b, c] →
      r.length % 4 = 0 → p.written = decode16 r →
      (d.reg.d0, d.reg.d1, d.reg.d2, d.reg.d3, d.reg.d4, d.reg.d5) =
        (sample a 4, sample a 20, sample b 4, sample b 20, sample c 4, sample c 20) → Reading d p

/-- A clock outside `Idle` and outside a load. -/
theorem Reading.tick {d : Decompress} {p : Pass} (h : Reading d p) (hs : d.state ≠ .idle)
    (width : BitVec 2) (valid : Bool) (data : Word32) :
    Reading (d.step width valid data) ⟨p.width, p.received ++ validWord valid data,
      p.written ++ validWord (d.decFifoWr valid) (d.fifoD valid data)⟩ := by
  cases h with
  | idle h => exact absurd h hs
  | dec12_0 h hr hw =>
    cases valid
    · refine .dec12_0 (by simp [Decompress.step, Decompress.next, h]) (by simpa [validWord]) ?_
      simp [validWord, Decompress.decFifoWr, hw]
    · refine .dec12_1 p.received data (by simp [Decompress.step, Decompress.next, h]) rfl hr ?_ rfl ?_
      · simp [validWord, Decompress.decFifoWr, h, hw]
      · simp [Decompress.step, Decompress.fifoD, h]
  | dec12_1 r a h hr hlen hw hreg hd =>
    cases valid
    · refine .dec12_1 r a (by simp [Decompress.step, Decompress.next, h]) (by simp [validWord, hr])
        hlen (by simp [validWord, Decompress.decFifoWr, hw]) (by simp [Decompress.step, hreg]) ?_
      simpa [Decompress.step, Decompress.fifoD, h] using hd
    · refine .dec12_2 r a data (by simp [Decompress.step, Decompress.next, h])
        (by simp [validWord, hr]) hlen (by simp [validWord, Decompress.decFifoWr, h, hw]) rfl ?_
      simpa [Decompress.step, Decompress.fifoD, h, hreg] using hd
  | dec12_2 r a b h hr hlen hw hreg hd =>
    cases valid
    · refine .dec12_2 r a b (by simp [Decompress.step, Decompress.next, h]) (by simp [validWord, hr])
        hlen (by simp [validWord, Decompress.decFifoWr, hw]) (by simp [Decompress.step, hreg]) ?_
      simpa [Decompress.step, Decompress.fifoD, h] using hd
    · have hword : d.fifoD true data = unpack12 a b data := by
        simp only [Prod.mk.injEq] at hd
        simp [Decompress.fifoD, h, unpack12_eq, hreg, hd]
      refine .dec12_0 (by simp [Decompress.step, Decompress.next, h]) ?_ ?_
      · simp [validWord, hr]
        omega
      · simp [validWord, Decompress.decFifoWr, h, hr, hw, decode12_append _ hlen, hword, decode12]
  | dec16_0 h hr hw =>
    cases valid
    · refine .dec16_0 (by simp [Decompress.step, Decompress.next, h]) (by simpa [validWord]) ?_
      simp [validWord, Decompress.decFifoWr, hw]
    · refine .dec16_1 p.received data (by simp [Decompress.step, Decompress.next, h]) rfl hr ?_ ?_
      · simp [validWord, Decompress.decFifoWr, h, hw]
      · simp [Decompress.step, Decompress.fifoD, h]
  | dec16_1 r a h hr hlen hw hd =>
    cases valid
    · refine .dec16_1 r a (by simp [Decompress.step, Decompress.next, h]) (by simp [validWord, hr])
        hlen (by simp [validWord, Decompress.decFifoWr, hw]) ?_
      simpa [Decompress.step, Decompress.fifoD, h] using hd
    · refine .dec16_2 r a data (by simp [Decompress.step, Decompress.next, h])
        (by simp [validWord, hr]) hlen (by simp [validWord, Decompress.decFifoWr, h, hw]) ?_
      simpa [Decompress.step, Decompress.fifoD, h] using hd
  | dec16_2 r a b h hr hlen hw hd =>
    cases valid
    · refine .dec16_2 r a b (by simp [Decompress.step, Decompress.next, h]) (by simp [validWord, hr])
        hlen (by simp [validWord, Decompress.decFifoWr, hw]) ?_
      simpa [Decompress.step, Decompress.fifoD, h] using hd
    · refine .dec16_3 r a b data (by simp [Decompress.step, Decompress.next, h])
        (by simp [validWord, hr]) hlen (by simp [validWord, Decompress.decFifoWr, h, hw]) ?_
      simpa [Decompress.step, Decompress.fifoD, h] using hd
  | dec16_3 r a b c h hr hlen hw hd =>
    cases valid
    · refine .dec16_3 r a b c (by simp [Decompress.step, Decompress.next, h])
        (by simp [validWord, hr]) hlen (by simp [validWord, Decompress.decFifoWr, hw]) ?_
      simpa [Decompress.step, Decompress.fifoD, h] using hd
    · have hword : d.fifoD true data = unpack16 a b c data := by
        simp only [Prod.mk.injEq] at hd
        simp [Decompress.fifoD, h, unpack16_eq, hd]
      refine .dec16_0 (by simp [Decompress.step, Decompress.next, h]) ?_ ?_
      · simp [validWord, hr]
        omega
      · simp [validWord, Decompress.decFifoWr, h, hr, hw, decode16_append _ hlen, hword, decode16]

theorem Reading.format_kept {d : Decompress} {p : Pass} (h : Reading d p) (hs : d.state ≠ .idle)
    (width : BitVec 2) (valid : Bool) (data : Word32) :
    (d.step width valid data).state.format = d.state.format := by
  cases h with
  | idle h => exact absurd h hs
  | _ => cases valid <;> simp [Decompress.step, Decompress.next, DecState.format, *]

theorem format_begin {d : Decompress} (hs : d.state = .idle) (width : BitVec 2) (valid : Bool)
    (data : Word32) : (d.step width valid data).state.format = some (taken width) := by
  simp only [Decompress.step, Decompress.next, hs, taken]
  split <;> rfl

structure PlayerInv (p : Pass) (s : Player) : Prop where
  reading : Reading s.dcmpr p
  load : wfmLoad s.mem = true → s.dcmpr = .init

theorem PlayerInv.step {p : Pass} {s : Player} (h : PlayerInv p s) (e : PlayerEvent) :
    PlayerInv (note p s e) (s.step e) := by
  cases hload : wfmLoad (s.step e).mem
  · refine ⟨?_, by simp [hload]⟩
    unfold note
    simp only [hload, Bool.false_eq_true, if_false]
    cases e with
    | hostWrite a d =>
      have hload : wfmLoad (s.mem.set a d) = false := hload
      simpa [Player.step, held, hload] using h.reading
    | tick valid data =>
      have hload : wfmLoad s.mem = false := hload
      simp only [Player.step, held, hload, Bool.false_eq_true, if_false]
      split
      next hs =>
        by_cases hw : wfmSmplWidth s.mem = 2#2
        · exact .dec12_0 (by simp [Decompress.step, Decompress.next, hs, hw]) rfl rfl
        · exact .dec16_0 (by simp [Decompress.step, Decompress.next, hs, hw]) rfl rfl
      next hs => exact h.reading.tick hs _ valid data
  · have hd : (s.step e).dcmpr = .init := by
      cases e with
      | hostWrite a d => exact if_pos hload
      | tick valid data => exact if_pos hload
    refine ⟨?_, fun _ => hd⟩
    rw [hd]
    exact .idle rfl (if_pos hload)

/-- The format of a pass is the one configured when it began. -/
def Chosen (p : Pass) (s : Player) : Prop :=
  ∀ w, p.width = some w → ∀ f, configured w = some f → s.dcmpr.state.format = some f

theorem Chosen.step {p : Pass} {s : Player} {e : PlayerEvent} (h : Chosen p s) (inv : PlayerInv p s)
    (agree : begins s e → Agree s.mem) : Chosen (note p s e) (s.step e) := by
  intro w hw f hf
  cases hload : wfmLoad (s.step e).mem
  · unfold note at hw
    simp only [hload, Bool.false_eq_true, if_false] at hw
    cases e with
    | hostWrite a d =>
      have hload : wfmLoad (s.mem.set a d) = false := hload
      simpa [Player.step, held, hload] using h w hw f hf
    | tick valid data =>
      have hload : wfmLoad s.mem = false := hload
      simp only [Player.step, held, hload, Bool.false_eq_true, if_false]
      dsimp only at hw
      by_cases hs : s.dcmpr.state = .idle
      · rw [if_pos hs] at hw
        obtain rfl := Option.some.inj hw
        rw [format_begin hs, agree ⟨hs, hload, valid, data, rfl⟩ f hf]
      · rw [if_neg hs] at hw
        rw [inv.reading.format_kept hs]
        exact h w hw f hf
  · simp [note, hload, noPass] at hw

/-- What the format of the waveform owes the host in the `n`-th event. -/
structure FormatRight (x : Nat → PlayerEvent) (n : Nat) : Prop where
  /-- A pass is decoded with the width configured when it began. -/
  format : ∀ w, (passAt x n).width = some w → ∀ f, configured w = some f →
    (playerAt x n).dcmpr.state.format = some f
  /-- What is written is the decoding, in that format, of what the memory delivered. -/
  decoded12 : (playerAt x n).dcmpr.state.format = some .bits12 →
    (passAt x n).written = decode12 (passAt x n).received
  decoded16 : (playerAt x n).dcmpr.state.format = some .bits16 →
    (passAt x n).written = decode16 (passAt x n).received
  /-- Control bits do not touch the decoder, except for the reset by a load. -/
  control : ∀ d, x n = .hostWrite 13 d → d.getLsbD 2 = false →
    (playerAt x (n + 1)).dcmpr = (playerAt x n).dcmpr
  /-- The width field does not touch loading and playing. -/
  widthField : ∀ d, x n = .hostWrite 14 d →
    wfmLoad (playerAt x (n + 1)).mem = wfmLoad (playerAt x n).mem ∧
      wfmPlay (playerAt x (n + 1)).mem = wfmPlay (playerAt x n).mem ∧
      (playerAt x (n + 1)).dcmpr = (playerAt x n).dcmpr

theorem inv_at (x : Nat → PlayerEvent) (n : Nat) : PlayerInv (passAt x n) (playerAt x n) :=
  machine.invariant_track (P := PlayerInv) ⟨.idle rfl rfl, fun _ => rfl⟩ (fun _ _ e h => h.step e) n

theorem Reading.decoded12 {d : Decompress} {p : Pass} (h : Reading d p)
    (hf : d.state.format = some .bits12) : p.written = decode12 p.received := by
  cases h with
  | dec12_0 _ _ hw => exact hw
  | dec12_1 r a _ hr hlen hw => simp [hr, hw, decode12_append _ hlen, decode12]
  | dec12_2 r a b _ hr hlen hw => simp [hr, hw, decode12_append _ hlen, decode12]
  | _ => simp [DecState.format, *] at hf

theorem Reading.decoded16 {d : Decompress} {p : Pass} (h : Reading d p)
    (hf : d.state.format = some .bits16) : p.written = decode16 p.received := by
  cases h with
  | dec16_0 _ _ hw => exact hw
  | dec16_1 r a _ hr hlen hw => simp [hr, hw, decode16_append _ hlen, decode16]
  | dec16_2 r a b _ hr hlen hw => simp [hr, hw, decode16_append _ hlen, decode16]
  | dec16_3 r a b c _ hr hlen hw => simp [hr, hw, decode16_append _ hlen, decode16]
  | _ => simp [DecState.format, *] at hf

/-- The formats are right in every event exactly when the wired bits agree with the configured width
    whenever the decompressor begins. -/
theorem sample_format_iff (x : Nat → PlayerEvent) :
    (∀ n, FormatRight x n) ↔ ∀ n, begins (playerAt x n) (x n) → Agree (playerAt x n).mem := by
  constructor
  · rintro h n ⟨hs, hload, valid, data, he⟩ f hf
    have hstep : playerAt x (n + 1) = (playerAt x n).step (x n) := rfl
    have hpass : (passAt x (n + 1)).width = some (hostWidth (playerAt x n).mem) := by
      have e : passAt x (n + 1) = note (passAt x n) (playerAt x n) (x n) := rfl
      simp [e, he, note, Player.step, hload, hs]
    have hformat := (h (n + 1)).format _ hpass f hf
    rw [hstep, he] at hformat
    simp only [Player.step, held, hload, Bool.false_eq_true, if_false, format_begin hs] at hformat
    exact Option.some.inj hformat
  · intro agree n
    have chosen : Chosen (passAt x n) (playerAt x n) := by
      induction n with
      | zero =>
        intro w hw
        cases hw
      | succ n ih => exact ih.step (inv_at x n) (agree n)
    have inv := inv_at x n
    have hstep : playerAt x (n + 1) = (playerAt x n).step (x n) := rfl
    refine ⟨chosen, inv.reading.decoded12, inv.reading.decoded16, ?_, ?_⟩
    · intro d he hd
      have hload : wfmLoad ((playerAt x n).mem.set 13 d) = false := by
        rw [wfmLoad, Regs.set_same, hd]
      rw [hstep, he]
      exact if_neg (by simp only [hload, Bool.false_eq_true, not_false_eq_true])
    · intro d he
      have h13 : (playerAt x n).mem.set 14 d 13 = (playerAt x n).mem 13 :=
        Regs.set_other _ d (by decide)
      have hload : wfmLoad ((playerAt x n).mem.set 14 d) = wfmLoad (playerAt x n).mem := by
        rw [wfmLoad, wfmLoad, h13]
      rw [hstep, he]
      refine ⟨hload, ?_, ?_⟩
      · exact congrArg (fun r : BitVec 16 => r.getLsbD 1) h13
      · simp only [Player.step, held, hload]
        split
        next hl => exact (inv.load hl).symm
        next => rfl

/-- The host leaves the default width, 12 bits, loads a waveform and ends the load. -/
def loadOnly : Nat → PlayerEvent
  | 0 => .hostWrite 13 0x0004
  | 1 => .hostWrite 13 0x0000
  | _ => .tick false 0

/-- It is decoded as 16 bits. -/
theorem default_width_not_taken :
    (passAt loadOnly 3).width = some 0b10 ∧ configured 0b10 = some .bits12 ∧
      (playerAt loadOnly 3).dcmpr.state.format = some .bits16 ∧ ¬ FormatRight loadOnly 3 := by
  refine ⟨by decide, by decide, by decide, ?_⟩
  intro h
  exact absurd (h.format 0b10 (by decide) .bits12 (by decide)) (by decide)

end Player

end Wfm
