import LimeSdrGw.Fw.Completion
/-
# Firmware for the MCU of the transceiver

`CMD_LMS_MCU_FW_WR` writes 32 bytes a packet, in portions with numbers of a byte. Three loops on
`MCU_retries` wait for the MCU. Two of them give up after 30 polls; the bound of the one behind the bytes
is 500, which a `uint8_t` does not get to, so it goes on until the MCU is ready (`upload_finishes_iff`).

A portion is taken when its number is one above `last_portion`, or 0. `last_portion` is 0 before anything
has been written, and a portion 0 that boots the MCU leaves it as it is (`goto BOOTING`): what then comes
with the number behind it is taken, though the portions before it are not there
(`portions_contiguous_iff`).

| here | there |
| --- | --- |
| `McuPacket.InOrder` | main.c:1006-1013 |
| `McuPacket.Boots`   | `case BOOT_MCU`, which ends in `goto BOOTING` (main.c:1048-1061) |
| `Finishes`          | the `break` at the end of the `case` is reached |
| `Answer`            | `LMS_Ctrl_Packet_Tx->Header.Status`, and what the devices got for the packet |
-/
namespace Fw

open Effect Proc

/-- A packet with the command `CMD_LMS_MCU_FW_WR`. -/
structure McuPacket extends Packet where
  isMcu : Command.ofCode command = some .lmsMcuFwWr

namespace McuPacket

variable (p : McuPacket)

def progMode : UInt8 := p.dataField.get 0
def portion : UInt8 := p.dataField.get 1

/-- The first portion, or the one behind the last. -/
def InOrder (lastPortion : Nat) : Prop := p.portion = 0 ∨ lastPortion = p.portion.toNat - 1

def Boots : Prop := p.portion = 0 ∧ p.progMode = 3

instance (lastPortion : Nat) : Decidable (p.InOrder lastPortion) :=
  inferInstanceAs (Decidable (_ ∨ _))

instance : Decidable p.Boots := inferInstanceAs (Decidable (_ ∧ _))

end McuPacket

section

variable {b : Board} {p : McuPacket} {m m' : Machine} {fuel : Nat}

/-- A portion of zeros. -/
def McuPacket.of (progMode portion : UInt8) : McuPacket where
  command := 0x2C
  dataBlocks := 1
  periphId := 0
  dataField := ((Vector.replicate dataFieldSize 0).setIfInBounds 0 progMode).setIfInBounds 1 portion
  isMcu := rfl

/-- The MCU never gets ready. -/
def Board.dead : Board := { Board.quiet with mcuStatus := fun _ => 0 }

/-! ## The three ways through the handler -/

theorem handle_mcu : handle b fuel p.toPacket m =
    (if p.portion ≠ 0 then
      if m.lastPortion ≠ p.portion.toNat - 1 then setStatus .wrongOrder
      else mcuWriteFifo b fuel p.portion
    else mcuFirstPortion b fuel p.portion : Ctr Unit) ((m.receive p.toPacket).access (.rx 1)) := by
  rw [handle, dispatch, p.isMcu]
  exact cmdLmsMcuFwWr_eq

theorem handle_wrongOrder (h : ¬ p.InOrder m.lastPortion) : handle b fuel p.toPacket m =
    (some (), { (m.receive p.toPacket).access (.rx 1) with status := .wrongOrder }) := by
  obtain ⟨h0, hlast⟩ := not_or.1 h
  rw [handle_mcu, if_pos h0, if_pos hlast]
  rfl

/-- What the first portion does before its mode is looked at. -/
def Machine.mcuReset (m : Machine) (p : McuPacket) : Machine :=
  (((m.receive p.toPacket).access (.rx 1)).perform (.spi .lms7002m [0x80, 0x02, 0x00, 0x00])
    true).access (.rx 0)

theorem handle_first (h : p.portion = 0) : handle b fuel p.toPacket m =
    (if p.progMode = 1 then do
      mcuControl 0x01
      mcuWriteFifo b fuel p.portion
    else if p.progMode = 2 then do
      mcuControl 0x02
      mcuWriteFifo b fuel p.portion
    else if p.progMode = 3 then do
      mcuControl 0x03
      let _ ← spiRead b .lms7002m [0x00, 0x03]
      answer
    else mcuWriteFifo b fuel p.portion : Ctr Unit) (m.mcuReset p) := by
  rw [handle_mcu, if_neg (not_not_intro h)]
  exact mcuFirstPortion_eq

/-- A boot packet is answered at once, and `last_portion` stays. -/
theorem handle_boots (b : Board) (fuel : Nat) (m : Machine) (h : p.Boots) :
    Yields (handle b fuel p.toPacket) m fun _ m' =>
      m'.status = .completed ∧ m'.lastPortion = m.lastPortion := by
  have h1 : p.progMode ≠ 1 := by rw [h.2]; decide
  have h2 : p.progMode ≠ 2 := by rw [h.2]; decide
  rw [Yields.congr (handle_first h.1), if_neg h1, if_neg h2, if_pos h.2]
  simp only [mcuControl, answer, yields_bind, yields_spiWrite, yields_spiRead, yields_modify]
  exact ⟨if_neg (not_not_intro rfl), rfl⟩

/-- Every other portion in order is written. -/
theorem handle_written (ho : p.InOrder m.lastPortion) (hb : ¬ p.Boots) :
    ∃ m₁ : Machine, m₁.nextMcuStatus = 0 ∧ m₁.cmdErrors = 0 ∧
      ∀ fuel, handle b fuel p.toPacket m = mcuWriteFifo b fuel p.portion m₁ := by
  by_cases h0 : p.portion = 0
  · have h3 : p.progMode ≠ 3 := fun h => hb ⟨h0, h⟩
    by_cases h1 : p.progMode = 1
    · refine ⟨(m.mcuReset p).perform (.spi .lms7002m [0x80, 0x02, 0x00, 0x01]) true, rfl, rfl, ?_⟩
      intro fuel
      rw [handle_first h0, if_pos h1]
      rfl
    by_cases h2 : p.progMode = 2
    · refine ⟨(m.mcuReset p).perform (.spi .lms7002m [0x80, 0x02, 0x00, 0x02]) true, rfl, rfl, ?_⟩
      intro fuel
      rw [handle_first h0, if_neg h1, if_pos h2]
      rfl
    refine ⟨m.mcuReset p, rfl, rfl, fun fuel => ?_⟩
    rw [handle_first h0, if_neg h1, if_neg h2, if_neg h3]
  · have hlast : m.lastPortion = p.portion.toNat - 1 := ho.resolve_left h0
    refine ⟨(m.receive p.toPacket).access (.rx 1), rfl, rfl, fun fuel => ?_⟩
    rw [handle_mcu, if_pos h0, if_neg (not_not_intro hlast)]

/-! ## Whether the handler finishes -/

/-- The handler comes to its end, with some bound on the rounds of each of its loops. -/
def Finishes (b : Board) (p : McuPacket) (m : Machine) : Prop :=
  ∃ fuel m', handle b fuel p.toPacket m = (some (), m')

/-- The MCU is ready in a poll behind the 30 of the first loop, or in two of them. -/
def Board.GetsReady (b : Board) : Prop :=
  ∃ k, b.mcuStatus k &&& 0x01 ≠ 0 ∧ (30 ≤ k ∨ ∃ j < k, b.mcuStatus j &&& 0x01 ≠ 0)

/-- A bit that is ever seen is seen for the first time. -/
theorem Board.SeenAt.of_seen {bit : UInt8} {pos k : Nat} (hk : pos ≤ k)
    (h : b.mcuStatus k &&& bit ≠ 0) : ∃ k', b.SeenAt bit pos k' := by
  obtain ⟨d, rfl⟩ := Nat.le.dest hk
  induction d generalizing pos with
  | zero => exact ⟨pos, Nat.le_refl pos, h, fun j hj hlt => absurd hj (Nat.not_le.2 hlt)⟩
  | succ d ih =>
    by_cases h0 : b.mcuStatus pos &&& bit = 0
    · have hnext : pos + (d + 1) = pos + 1 + d := by omega
      rw [hnext] at h
      obtain ⟨k', hk'⟩ := ih (Nat.le_add_right _ _) h
      exact ⟨k', hk'.before h0⟩
    · exact ⟨pos, Nat.le_refl pos, h0, fun j hj hlt => absurd hj (Nat.not_le.2 hlt)⟩

/-- A loop that has ended ends the same way when more rounds are allowed. -/
theorem waitLoop_mono {bit r r' : UInt8} {limit fuel' pos pos' : Nat} {status : Nat → UInt8}
    (h : waitLoop bit limit status fuel r pos = (some r', pos')) (hf : fuel ≤ fuel') :
    waitLoop bit limit status fuel' r pos = (some r', pos') := by
  induction fuel generalizing r pos fuel' with
  | zero => cases h
  | succ fuel ih =>
    obtain ⟨fuel', rfl⟩ := Nat.exists_eq_add_of_le' (Nat.le_trans (Nat.le_add_left 1 fuel) hf)
    rw [waitLoop] at h ⊢
    split
    next hlt =>
      rw [if_pos hlt] at h
      split
      next hs => rwa [if_pos hs] at h
      next hs =>
        rw [if_neg hs] at h
        exact ih h (Nat.le_of_add_le_add_right hf)
    next hlt => rwa [if_neg hlt] at h

section waits

variable {portion r₁ r₂ r₃ : UInt8} {p₁ p₂ p₃ : Nat}

/-- The loop behind the bytes only ends with a poll in which the MCU is ready. -/
theorem McuWaits.getsReady (hw : McuWaits b fuel portion r₁ r₂ r₃ p₁ p₂ p₃) : b.GetsReady := by
  obtain ⟨k, hk, -⟩ := waitLoop_endless (by decide) hw.written
  refine ⟨k, hk.2.1, ?_⟩
  rcases waitLoop_some (by decide) (by decide) hw.empty with ⟨i, -, hi, rfl, -⟩ | ⟨-, rfl, -⟩
  · exact .inr ⟨i, hk.1, hi.2.1⟩
  · exact .inl (by simpa using hk.1)

/-- The loops end when there is such a poll behind those of the first. -/
theorem Board.GetsReady.waits (h : b.GetsReady) (portion : UInt8) :
    ∃ fuel r₁ r₂ r₃ p₁ p₂ p₃, McuWaits b fuel portion r₁ r₂ r₃ p₁ p₂ p₃ := by
  have h0 : (0 : UInt8).toNat = 0 := rfl
  obtain ⟨k, hk, hbehind⟩ := h
  obtain ⟨r₁, p₁, h1⟩ : ∃ r p, waitLoop 0x01 30 b.mcuStatus 31 0 0 = (some r, p) :=
    waitLoop_returns (by decide) (by decide) (by decide)
  have hpos : p₁ ≤ k := by
    rcases waitLoop_some (by decide) (by decide) h1 with ⟨i, hi, hs, rfl, -⟩ | ⟨hno, hp, -⟩
    · -- the first loop ends with poll `i`, before every other ready one
      have hle : ∀ j, b.mcuStatus j &&& 0x01 ≠ 0 → i ≤ j := by
        intro j hj
        exact Nat.le_of_not_lt fun hlt => hj (hs.2.2 j (Nat.zero_le j) hlt)
      rcases hbehind with h30 | ⟨j, hjk, hj⟩
      · omega
      · have := hle j hj
        omega
    · rcases hbehind with h30 | ⟨j, hjk, hj⟩
      · omega
      · have hj30 : ¬ j < 30 := fun hlt => hj (hno j (Nat.zero_le j) (by omega))
        omega
  obtain ⟨k', hk'⟩ := Board.SeenAt.of_seen hpos hk
  obtain ⟨r₂, h2⟩ : ∃ r, waitLoop 0x01 500 b.mcuStatus (k' + 1) 0 p₁ = (some r, k' + 1) :=
    waitLoop_endless_returns (by decide) hk' (by omega)
  obtain ⟨r₃, p₃, h3⟩ : ∃ r p, waitLoop 0x40 30 b.mcuStatus 31 0 (k' + 1) = (some r, p) :=
    waitLoop_returns (by decide) (by decide) (by decide)
  exact ⟨31 + k', r₁, r₂, r₃, p₁, k' + 1, p₃, waitLoop_mono h1 (by omega), waitLoop_mono h2 (by omega),
    fun _ => waitLoop_mono h3 (by omega)⟩

end waits

theorem finishes_written (ho : p.InOrder m.lastPortion) (hb : ¬ p.Boots) :
    Finishes b p m ↔ b.GetsReady := by
  obtain ⟨m₁, hn, he, hrun⟩ := handle_written (b := b) ho hb
  constructor
  · rintro ⟨fuel, m', h⟩
    rw [hrun] at h
    obtain ⟨_, _, _, _, _, _, hw⟩ := mcuWriteFifo_returns hn h
    exact hw.getsReady
  · intro h
    obtain ⟨fuel, _, _, _, _, _, _, hw⟩ := h.waits p.portion
    obtain ⟨_, m', h', -⟩ := mcuWriteFifo_ops hw hn he
    exact ⟨fuel, m', by rw [hrun, h']⟩

/-- The handler finishes exactly when the packet is out of order, when it boots the MCU, and when the
    MCU gets ready behind the bytes. -/
theorem upload_finishes_iff (b : Board) (p : McuPacket) (m : Machine) :
    Finishes b p m ↔ ¬ p.InOrder m.lastPortion ∨ p.Boots ∨ b.GetsReady := by
  by_cases ho : p.InOrder m.lastPortion
  · by_cases hb : p.Boots
    · obtain ⟨_, m', h, -⟩ := handle_boots b 0 m hb
      exact iff_of_true ⟨0, m', h⟩ (.inr (.inl hb))
    · rw [finishes_written ho hb]
      simp [ho, hb]
  · exact iff_of_true ⟨0, _, handle_wrongOrder ho⟩ (.inl ho)

/-- An SRAM upload begins with an MCU that never gets ready. -/
theorem upload_hangs : ¬ ∀ b p m, Finishes b p m := by
  intro h
  have hready : Board.dead.GetsReady :=
    (finishes_written (.inl rfl) (by decide)).1 (h .dead (.of 2 0) (.boot 134))
  obtain ⟨k, hk, -⟩ := hready
  exact hk (show (0 : UInt8) &&& 0x01 = 0 by decide)

/-! ## What a packet leaves behind -/

/-- A write of `MCU_FIFO_WR_REG`. -/
def Op.SendsByte (o : Op) : Prop := ∃ d, o = .spi .lms7002m [0x80, 0x04, 0x00, d]

theorem mcuWriteFifo_leaves {portion : UInt8} (h : mcuWriteFifo b fuel portion m = (some (), m')) :
    m'.lastPortion = portion.toNat ∧ (m'.status = .completed ∨ m'.status = .error) := by
  rw [mcuWriteFifo] at h
  obtain ⟨_, _, -, h⟩ := bind_eq_some h
  obtain ⟨_, _, -, h⟩ := bind_eq_some h
  obtain ⟨_, _, -, h⟩ := bind_eq_some h
  obtain ⟨_, m₁, -, h⟩ := bind_eq_some h
  cases h
  refine ⟨rfl, ?_⟩
  show (if m₁.cmdErrors ≠ 0 then CmdStatus.error else .completed) = .completed ∨
    (if m₁.cmdErrors ≠ 0 then CmdStatus.error else .completed) = .error
  split
  · exact .inr rfl
  · exact .inl rfl

/-- Behind a portion that was written; only the last one can fail. -/
structure Written (p : McuPacket) (m' : Machine) : Prop where
  lastPortion : m'.lastPortion = p.portion.toNat
  status : m'.status = .completed ∨ p.portion = 255 ∧ m'.status = .error
  sends : ∃ o ∈ m'.asked, o.SendsByte

theorem written_of_handle (ho : p.InOrder m.lastPortion) (hb : ¬ p.Boots)
    (h : handle b fuel p.toPacket m = (some (), m')) : Written p m' := by
  obtain ⟨m₁, hn, he, hrun⟩ := handle_written (b := b) ho hb
  rw [hrun] at h
  obtain ⟨hlast, hs⟩ := mcuWriteFifo_leaves h
  obtain ⟨_, _, _, _, _, _, hw⟩ := mcuWriteFifo_returns hn h
  obtain ⟨_, -, hops, hiff⟩ := (mcuWriteFifo_ops hw hn he).of_eq h
  refine ⟨hlast, ?_, ?_⟩
  · rcases hs with hs | hs
    · exact .inl hs
    · refine .inr ⟨?_, hs⟩
      refine Decidable.byContradiction fun h255 => ?_
      have hc := hiff.2 fun h => absurd h h255
      rw [hs] at hc
      cases hc
  · refine ⟨.spi .lms7002m [0x80, 0x04, 0x00, m₁.rxAt b 2], ?_, _, rfl⟩
    have hbyte : (.spi .lms7002m [0x80, 0x04, 0x00, m₁.rxAt b 2]) ∈ mcuBytes (m₁.rxAt b) :=
      List.mem_map.2 ⟨0, by decide, rfl⟩
    rw [Machine.asked, hops]
    simp [hbyte]

end

/-! ## Sequences of packets -/

/-- A packet that has been answered. -/
structure Answer where
  packet : McuPacket
  /-- `last_portion` before the packet. -/
  last : Nat
  status : CmdStatus
  /-- What the devices were asked for. -/
  asked : List Op

/-- The answer to `p`, from the states before and behind it. -/
def Answer.of (p : McuPacket) (m m' : Machine) : Answer := ⟨p, m.lastPortion, m'.status, m'.asked⟩

/-- The packets answered since the start, and the state behind the last of them. -/
inductive Uploads : List Answer → Machine → Prop
  | start {m : Machine} (h : m.lastPortion = 0) : Uploads [] m
  | answer {l : List Answer} {m m' : Machine} {b : Board} {p : McuPacket} {fuel : Nat}
    (hl : Uploads l m) (h : handle b fuel p.toPacket m = (some (), m')) :
    Uploads (l ++ [.of p m m']) m'

def CmdStatus.isError : CmdStatus → Bool
  | .completed => false
  | .busy => false
  | _ => true

/-- Answered with an error, and no byte has gone to the MCU. -/
def Answer.Rejected (a : Answer) : Prop := a.status.isError = true ∧ ∀ o ∈ a.asked, ¬ o.SendsByte

def Answer.accept (taken : List Nat) (a : Answer) : List Nat :=
  if a.status = .completed then
    if a.packet.portion = 0 then [0] else taken ++ [a.packet.portion.toNat]
  else taken

/-- The numbers of the portions answered with `completed` since the latest portion 0. -/
def accepted (l : List Answer) : List Nat := l.foldl Answer.accept []

/-- `a` leaves the accepted numbers without a gap, and it is rejected when it is not the next. -/
def Continues (l : List Answer) (a : Answer) : Prop :=
  accepted (l ++ [a]) = List.range (accepted (l ++ [a])).length ∧
    (a.packet.portion ≠ 0 → a.packet.portion.toNat ≠ (accepted l).length → a.Rejected)

/-- No portion 0 has come yet, or the latest one booted the MCU when `last_portion` was not 0. -/
def astray (l : List Answer) : Bool :=
  l.foldl (fun w a =>
    if a.packet.portion = 0 then decide (a.packet.progMode = 3 ∧ a.last ≠ 0) else w) true

/-- The packet is not the one behind `last_portion` when that says nothing about the upload. -/
def InTurn (l : List Answer) (a : Answer) : Prop :=
  astray l = true → a.packet.portion.toNat ≠ a.last + 1

/-- Of every answer and those before it. -/
def Throughout (Q : List Answer → Answer → Prop) (l : List Answer) : Prop :=
  ∀ l₁ a, l₁ ++ [a] <+: l → Q l₁ a

theorem throughout_nil {Q : List Answer → Answer → Prop} : Throughout Q [] := by
  intro l₁ a h
  exact absurd (List.prefix_nil.1 h) (List.append_ne_nil_of_right_ne_nil l₁ (List.cons_ne_nil a []))

theorem throughout_concat {Q : List Answer → Answer → Prop} {l : List Answer} {a : Answer} :
    Throughout Q (l ++ [a]) ↔ Throughout Q l ∧ Q l a := by
  constructor
  · intro h
    exact ⟨fun l₁ x hx => h l₁ x (hx.trans (List.prefix_append l [a])), h l a List.prefix_rfl⟩
  · rintro ⟨hl, ha⟩ l₁ x hx
    rcases List.prefix_concat_iff.1 hx with he | hx
    · obtain ⟨rfl, hxa⟩ := List.append_inj' he rfl
      rw [List.singleton_inj.1 hxa]
      exact ha
    · exact hl l₁ x hx

section

variable {l : List Answer} {a : Answer} {b : Board} {p : McuPacket} {m m' : Machine} {fuel : Nat}

theorem accepted_concat : accepted (l ++ [a]) = a.accept (accepted l) := by
  rw [accepted, List.foldl_append]
  rfl

theorem astray_concat : astray (l ++ [a]) =
    if a.packet.portion = 0 then decide (a.packet.progMode = 3 ∧ a.last ≠ 0) else astray l := by
  rw [astray, List.foldl_append]
  rfl

/-- The accepted numbers have no gap, and `last_portion` is the last of them, unless it has led astray
    or nothing more is in order. -/
structure InStep (l : List Answer) (m : Machine) : Prop where
  range : accepted l = List.range (accepted l).length
  here : astray l = false → (accepted l).length = m.lastPortion + 1 ∨ m.lastPortion = 255
  away : astray l = true → (accepted l).length ≠ m.lastPortion + 1

theorem accepted_of_failed (h : a.status ≠ .completed) : accepted (l ++ [a]) = accepted l := by
  rw [accepted_concat, Answer.accept, if_neg h]

theorem accepted_of_first (hs : a.status = .completed) (h0 : a.packet.portion = 0) :
    accepted (l ++ [a]) = [0] := by
  rw [accepted_concat, Answer.accept, if_pos hs, if_pos h0]

theorem accepted_of_next (hs : a.status = .completed) (h0 : a.packet.portion ≠ 0) :
    accepted (l ++ [a]) = accepted l ++ [a.packet.portion.toNat] := by
  rw [accepted_concat, Answer.accept, if_pos hs, if_neg h0]

theorem astray_of_first (h0 : a.packet.portion = 0) :
    astray (l ++ [a]) = decide (a.packet.progMode = 3 ∧ a.last ≠ 0) := by
  rw [astray_concat, if_pos h0]

theorem astray_of_next (h0 : a.packet.portion ≠ 0) : astray (l ++ [a]) = astray l := by
  rw [astray_concat, if_neg h0]

/-- A packet out of order changes nothing. -/
theorem InStep.wrongOrder (hi : InStep l m) (h0 : a.packet.portion ≠ 0) (hs : a.status = .wrongOrder)
    (hask : a.asked = []) (hm : m'.lastPortion = m.lastPortion) :
    InStep (l ++ [a]) m' ∧ Continues l a := by
  have hfail : a.status ≠ .completed := by rw [hs]; decide
  have hrej : a.Rejected := ⟨by rw [hs]; rfl, by rw [hask]; exact nofun⟩
  rw [Continues, accepted_of_failed hfail]
  refine ⟨⟨?_, ?_, ?_⟩, hi.range, fun _ _ => hrej⟩
  · rw [accepted_of_failed hfail]
    exact hi.range
  · rw [accepted_of_failed hfail, astray_of_next h0, hm]
    exact hi.here
  · rw [accepted_of_failed hfail, astray_of_next h0, hm]
    exact hi.away

/-- The first portion, whether it is written or boots the MCU. -/
theorem InStep.first (h0 : a.packet.portion = 0) (hs : a.status = .completed)
    (hm : m'.lastPortion = if a.packet.progMode = 3 then a.last else 0) :
    InStep (l ++ [a]) m' ∧ Continues l a := by
  have hacc := accepted_of_first (l := l) hs h0
  rw [Continues, hacc]
  refine ⟨⟨by rw [hacc]; rfl, ?_, ?_⟩, rfl, fun hne => absurd h0 hne⟩
  · rw [astray_of_first h0, hacc, hm, decide_eq_false_iff_not]
    intro hnot
    by_cases h3 : a.packet.progMode = 3
    · have hlast : a.last = 0 := Decidable.byContradiction fun hl => hnot ⟨h3, hl⟩
      rw [if_pos h3, hlast]
      exact .inl rfl
    · rw [if_neg h3]
      exact .inl rfl
  · rw [astray_of_first h0, hacc, hm, decide_eq_true_iff]
    rintro ⟨h3, hl⟩
    rw [if_pos h3, List.length_singleton]
    omega

/-- A portion behind the last one: it is the next, since `last_portion` has not led astray. -/
theorem InStep.next (hi : InStep l m) (h0 : a.packet.portion ≠ 0)
    (hin : m.lastPortion = a.packet.portion.toNat - 1) (hst : astray l = false)
    (hs : a.status = .completed ∨ a.packet.portion = 255 ∧ a.status = .error)
    (hm : m'.lastPortion = a.packet.portion.toNat) :
    InStep (l ++ [a]) m' ∧ Continues l a := by
  have hpos : a.packet.portion.toNat ≠ 0 := fun h => h0 (UInt8.toNat_inj.1 h)
  have hlt := a.packet.portion.toNat_lt
  have hlen : (accepted l).length = a.packet.portion.toNat := by
    rcases hi.here hst with h | h <;> omega
  have hnot : astray (l ++ [a]) = true → False := by
    rw [astray_of_next h0, hst]
    exact Bool.noConfusion
  rcases hs with hs | ⟨h255, hs⟩
  · have hacc := accepted_of_next (l := l) hs h0
    have hrange : accepted l ++ [a.packet.portion.toNat] =
        List.range (accepted l ++ [a.packet.portion.toNat]).length := by
      rw [List.length_append, List.length_singleton, List.range_succ, ← hi.range, hlen]
    rw [Continues, hacc]
    refine ⟨⟨by rw [hacc]; exact hrange, fun _ => .inl ?_, fun h => (hnot h).elim⟩, hrange,
      fun _ hne => absurd hlen.symm hne⟩
    rw [hacc, hm, List.length_append, hlen]
    rfl
  · have hfail : a.status ≠ .completed := by rw [hs]; decide
    have hacc := accepted_of_failed (l := l) hfail
    rw [Continues, hacc]
    refine ⟨⟨by rw [hacc]; exact hi.range, fun _ => .inr ?_, fun h => (hnot h).elim⟩, hi.range,
      fun _ hne => absurd hlen.symm hne⟩
    rw [hm, h255]
    rfl

/-- One packet: it continues the upload exactly when it is in turn, and then the numbers stay in
    step. -/
theorem InStep.answer (hi : InStep l m) (h : handle b fuel p.toPacket m = (some (), m')) :
    (Continues l (.of p m m') ↔ InTurn l (.of p m m')) ∧
    (InTurn l (.of p m m') → InStep (l ++ [.of p m m']) m') := by
  have hzero : p.portion = 0 → InTurn l (.of p m m') := by
    intro h0 _
    show p.portion.toNat ≠ m.lastPortion + 1
    rw [h0]
    exact (Nat.succ_ne_zero _).symm
  by_cases ho : p.InOrder m.lastPortion
  · by_cases hb : p.Boots
    · obtain ⟨_, -, hs, hm⟩ := (handle_boots b fuel m hb).of_eq h
      have hfirst := InStep.first (l := l) (a := .of p m m') hb.1 hs (hm.trans (if_pos hb.2).symm)
      exact ⟨iff_of_true hfirst.2 (hzero hb.1), fun _ => hfirst.1⟩
    have hw := written_of_handle ho hb h
    by_cases h0 : p.portion = 0
    · have h3 : p.progMode ≠ 3 := fun h3 => hb ⟨h0, h3⟩
      have hs : m'.status = .completed := by
        refine hw.status.resolve_right fun h255 => ?_
        rw [h0] at h255
        exact absurd h255.1 (by decide)
      have hm : m'.lastPortion = 0 := by rw [hw.lastPortion, h0]; rfl
      have hfirst := InStep.first (l := l) (a := .of p m m') h0 hs (hm.trans (if_neg h3).symm)
      exact ⟨iff_of_true hfirst.2 (hzero h0), fun _ => hfirst.1⟩
    · have hin : m.lastPortion = p.portion.toNat - 1 := ho.resolve_left h0
      have hpos : p.portion.toNat ≠ 0 := fun h => h0 (UInt8.toNat_inj.1 h)
      cases hst : astray l with
      | false =>
        have hnext := hi.next (a := .of p m m') h0 hin hst hw.status hw.lastPortion
        have hturn : InTurn l (.of p m m') := by
          intro h
          rw [hst] at h
          cases h
        exact ⟨iff_of_true hnext.2 hturn, fun _ => hnext.1⟩
      | true =>
        -- the portion behind `last_portion` is written, and is not the next one
        have hout : ¬ InTurn l (.of p m m') := by
          intro ht
          exact ht hst (by show p.portion.toNat = m.lastPortion + 1; omega)
        refine ⟨iff_of_false (fun hc => ?_) hout, fun ht => absurd ht hout⟩
        have hne := hi.away hst
        obtain ⟨o, hmem, hsend⟩ := hw.sends
        have hrej := hc.2 h0 (by show p.portion.toNat ≠ _; omega)
        exact hrej.2 o hmem hsend
  · rw [handle_wrongOrder ho] at h
    cases h
    obtain ⟨h0, hlast⟩ := not_or.1 ho
    have hpos : p.portion.toNat ≠ 0 := fun h => h0 (UInt8.toNat_inj.1 h)
    have hsame : InStep (l ++ [⟨p, m.lastPortion, .wrongOrder, []⟩])
        { (m.receive p.toPacket).access (.rx 1) with status := .wrongOrder } ∧
        Continues l ⟨p, m.lastPortion, .wrongOrder, []⟩ := hi.wrongOrder h0 rfl rfl rfl
    refine ⟨iff_of_true hsame.2 fun _ => ?_, fun _ => hsame.1⟩
    show p.portion.toNat ≠ m.lastPortion + 1
    omega

theorem inStep_start (h : m.lastPortion = 0) : InStep [] m where
  range := rfl
  here h := nomatch h
  away _ := by rw [h]; exact Nat.zero_ne_one

theorem uploads_inStep (h : Uploads l m) : (Throughout Continues l ↔ Throughout InTurn l) ∧
    (Throughout InTurn l → InStep l m) := by
  induction h with
  | start h => exact ⟨iff_of_true throughout_nil throughout_nil, fun _ => inStep_start h⟩
  | answer hl h ih =>
    obtain ⟨hiff, hin⟩ := ih
    rw [throughout_concat, throughout_concat, hiff]
    constructor
    · constructor
      · rintro ⟨hturn, hc⟩
        exact ⟨hturn, ((hin hturn).answer h).1.1 hc⟩
      · rintro ⟨hturn, ht⟩
        exact ⟨hturn, ((hin hturn).answer h).1.2 ht⟩
    · rintro ⟨hturn, ht⟩
      exact ((hin hturn).answer h).2 ht

/-- In every sequence of packets the accepted portions have the numbers 0, 1, 2, … and all others are
    rejected, exactly when no packet has the number behind `last_portion` while that has led astray. -/
theorem portions_contiguous_iff {l : List Answer} {m : Machine} (h : Uploads l m) :
    Throughout Continues l ↔ Throughout InTurn l := (uploads_inStep h).1

end

theorem Uploads.next {l : List Answer} {m : Machine} (b : Board) (fuel : Nat) (p : McuPacket)
    (hl : Uploads l m) (h : (handle b fuel p.toPacket m).1 = some ()) :
    Uploads (l ++ [.of p m (handle b fuel p.toPacket m).2]) (handle b fuel p.toPacket m).2 :=
  hl.answer (Prod.ext h rfl)

/-- The first two portions of an SRAM upload. -/
theorem two_portions_contiguous : ∃ l m, Uploads l m ∧ l.length = 2 ∧
    (Throughout Continues l ↔ Throughout InTurn l) := by
  have h0 : Uploads [] (.boot 134) := .start rfl
  have h1 := h0.next .quiet 1 (.of 2 0) (by decide +kernel)
  have h2 := h1.next .quiet 1 (.of 2 1) (by decide +kernel)
  exact ⟨_, _, h2, rfl, portions_contiguous_iff h2⟩

/-- Two portions, a boot, and portion 2 is taken right behind the portion 0 that booted. -/
theorem boot_leads_astray : ¬ ∀ l m, Uploads l m → Throughout Continues l := by
  intro h
  have h0 : Uploads [] (.boot 134) := .start rfl
  have h1 := h0.next .quiet 1 (.of 2 0) (by decide +kernel)
  have h2 := h1.next .quiet 1 (.of 2 1) (by decide +kernel)
  have h3 := h2.next .quiet 1 (.of 3 0) (by decide +kernel)
  have h4 := h3.next .quiet 1 (.of 2 2) (by decide +kernel)
  have hrange := ((throughout_concat.1 (h _ _ h4)).2).1
  exact absurd hrange (by decide +kernel)

end Fw
