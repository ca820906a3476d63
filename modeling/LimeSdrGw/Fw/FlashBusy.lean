import LimeSdrGw.Fw.Board
import LimeSdrGw.Fw.GwProgram
/-
# The flash while it is busy

The flash is busy for some time after each erase and each page program; meanwhile it answers the
status command only. A write enable sets a latch, without which no erase or program is accepted and
which the next one clears. `FlashSpiTransfer` sends write enables until the flash reports that it is
ready and the latch set; `FlashSpiEraseSector` sends one, without looking, and polls afterwards.

| here | there |
| --- | --- |
| `FlashCmd`                  | the commands of sodera_pcie_brd_v1r0.h:72-76 that the two routines send |
| `Flash`                     | the flash |
| `FlashBus.cyFxSpiWaitForStatus` | `CyFxSpiWaitForStatus` (spi_flash_lib.c:134-180) |
| `FlashBus.flashSpiTransfer` | one page of `FlashSpiTransfer` with `isRead = CyFalse` (:31-131) |
| `FlashBus.pollErase`, `FlashBus.flashSpiEraseSector` | `FlashSpiEraseSector` (:184-234) |
| `GwState.pageCalls`, `GwState.calls` | the calls of main.c:781-786, for a full page and for all packets |
-/
namespace Fw

/-- `FLASH_CMD_PAGE_WRITEEN`, `FLASH_CMD_PAGE_READST`, and `FLASH_CMD_SECTOR_ERASE` or
    `FLASH_CMD_PAGE_WRITE` with what follows. -/
inductive FlashCmd
  | writeEnable
  | readStatus
  | op (o : FlashOp)

/-- Write in progress, the write enable latch, and what has been carried out. -/
structure Flash where
  busy : Bool
  latch : Bool
  carried : List FlashOp
  unlatched : busy = true → latch = false

namespace Flash

/-- The operation under way has ended. -/
def settle (f : Flash) : Flash := { f with busy := false, unlatched := nofun }

def receive (f : Flash) : FlashCmd → Flash
  | .readStatus => f
  | .writeEnable =>
    if h : f.busy then f
    else { f with latch := true, unlatched := fun hb => absurd hb h }
  | .op o =>
    if f.busy || !f.latch then f
    else { busy := true, latch := false, carried := f.carried ++ [o], unlatched := fun _ => rfl }

/-- The status register: bit 0 is the busy flag, bit 1 the latch. -/
def status (f : Flash) : UInt8 :=
  reverseBitOrder ((if f.busy then 1 else 0) ||| (if f.latch then 2 else 0))

theorem status_busy (f : Flash) : (f.status &&& 0x80 ≠ 0) ↔ f.busy = true := by
  rw [status]
  generalize f.busy = b
  generalize f.latch = l
  revert b l
  decide

theorem status_latch (f : Flash) : (f.status &&& 0x40 = 0) ↔ f.latch = false := by
  rw [status]
  generalize f.busy = b
  generalize f.latch = l
  revert b l
  decide

variable {f : Flash} {o : FlashOp}

theorem receive_writeEnable_idle (h : f.busy = false) :
    (f.receive .writeEnable).busy = false ∧ (f.receive .writeEnable).latch = true ∧
      (f.receive .writeEnable).carried = f.carried := by
  rw [receive, dif_neg (by rw [h]; exact Bool.false_ne_true)]
  exact ⟨h, rfl, rfl⟩

theorem receive_writeEnable_busy (h : f.busy = true) : f.receive .writeEnable = f := by
  rw [receive, dif_pos h]

theorem receive_writeEnable_carried : (f.receive .writeEnable).carried = f.carried := by
  rw [receive]
  split <;> rfl

theorem receive_op_ready (hb : f.busy = false) (hl : f.latch = true) :
    (f.receive (.op o)).busy = true ∧ (f.receive (.op o)).carried = f.carried ++ [o] := by
  rw [receive, hb, hl]
  exact ⟨rfl, rfl⟩

theorem receive_op_unlatched (hl : f.latch = false) : f.receive (.op o) = f := by
  rw [receive, hl, Bool.not_false, Bool.or_true, if_pos rfl]

end Flash

/-- The flash behind the SPI core: how many commands it has been sent, and with each erase and
    program the busy flag and the latch it has met. -/
structure FlashBus where
  flash : Flash
  sent : Nat
  met : List (FlashOp × Bool × Bool)

namespace FlashBus

section run

-- before which commands an operation under way has ended
variable (ends : Nat → Bool)

/-- The flash as the next command meets it. -/
def seen (b : FlashBus) : Flash := if ends b.sent then b.flash.settle else b.flash

def send (c : FlashCmd) (b : FlashBus) : FlashBus where
  flash := (b.seen ends).receive c
  sent := b.sent + 1
  met :=
    match c with
    | .op o => b.met ++ [(o, (b.seen ends).busy, (b.seen ends).latch)]
    | .writeEnable | .readStatus => b.met

/-- `left` is `STATUS_RETRIES - retries`. -/
def cyFxSpiWaitForStatus : Nat → FlashBus → UInt8 × FlashBus
  | 0, b => (1, (b.send ends .writeEnable).send ends .readStatus)
  | left + 1, b =>
    let b' := b.send ends .writeEnable
    let rdBuf := (b'.seen ends).status
    if rdBuf &&& 0x80 ≠ 0 ∨ rdBuf &&& 0x40 = 0 then
      cyFxSpiWaitForStatus left (b'.send ends .readStatus)
    else (0, b'.send ends .readStatus)

def flashSpiTransfer (pageAddress : Nat) (buffer : Vector UInt8 flashPageSize) (b : FlashBus) :
    UInt8 × FlashBus :=
  let wait := b.cyFxSpiWaitForStatus ends statusRetries
  if wait.1 ≠ 0 then wait
  else (0, wait.2.send ends (.op (.program (.of (pageAddress * flashPageSize)) buffer)))

/-- The loop behind the erase; `left` is `STATUS_RETRIES_ERASE - retries`. -/
def pollErase : Nat → FlashBus → UInt8 × FlashBus
  | 0, b => (1, b.send ends .readStatus)
  | left + 1, b =>
    if (b.seen ends).status &&& 0x80 ≠ 0 then pollErase left (b.send ends .readStatus)
    else (0, b.send ends .readStatus)

def flashSpiEraseSector (sector : Nat) (b : FlashBus) : UInt8 × FlashBus :=
  ((b.send ends .writeEnable).send ends
    (.op (.erase (.of (sector % 256 * flashSectorSize))))).pollErase ends statusRetriesErase

end run

/-! ## What the routines do to the flash -/

section routines

variable {ends : Nat → Bool} {b : FlashBus} {c : FlashCmd} {o : FlashOp}

@[simp] theorem send_sent : (b.send ends c).sent = b.sent + 1 := rfl
@[simp] theorem send_flash : (b.send ends c).flash = (b.seen ends).receive c := rfl
@[simp] theorem send_writeEnable_met : (b.send ends .writeEnable).met = b.met := rfl
@[simp] theorem send_op_met : (b.send ends (.op o)).met =
    b.met ++ [(o, (b.seen ends).busy, (b.seen ends).latch)] := rfl

@[simp] theorem seen_latch : (b.seen ends).latch = b.flash.latch := by
  rw [seen]
  split <;> rfl

@[simp] theorem seen_carried : (b.seen ends).carried = b.flash.carried := by
  rw [seen]
  split <;> rfl

theorem seen_busy : (b.seen ends).busy = (b.flash.busy && !ends b.sent) := by
  rw [seen]
  cases ends b.sent
  · exact (Bool.and_true _).symm
  · exact (Bool.and_false _).symm

/-- An idle flash stays idle until it is sent something. -/
theorem seen_busy_of_idle (h : b.flash.busy = false) : (b.seen ends).busy = false := by
  rw [seen_busy, h, Bool.false_and]

/-- The flash is given no erase or program, and carries none out. -/
structure Quiet (b b' : FlashBus) : Prop where
  met : b'.met = b.met
  carried : b'.flash.carried = b.flash.carried

theorem Quiet.trans {b b' b'' : FlashBus} (h : Quiet b b') (h' : Quiet b' b'') : Quiet b b'' :=
  ⟨h'.met.trans h.met, h'.carried.trans h.carried⟩

theorem quiet_readStatus : Quiet b (b.send ends .readStatus) := ⟨rfl, seen_carried⟩

theorem quiet_writeEnable : Quiet b (b.send ends .writeEnable) :=
  ⟨rfl, Flash.receive_writeEnable_carried.trans seen_carried⟩

theorem quiet_wait (left : Nat) : Quiet b (b.cyFxSpiWaitForStatus ends left).2 := by
  induction left generalizing b with
  | zero => exact quiet_writeEnable.trans quiet_readStatus
  | succ left ih =>
    rw [cyFxSpiWaitForStatus]
    split
    · exact (quiet_writeEnable.trans quiet_readStatus).trans ih
    · exact quiet_writeEnable.trans quiet_readStatus

theorem quiet_pollErase (left : Nat) : Quiet b (b.pollErase ends left).2 := by
  induction left generalizing b with
  | zero => exact quiet_readStatus
  | succ left ih =>
    rw [pollErase]
    split
    · exact quiet_readStatus.trans ih
    · exact quiet_readStatus

/-- `CyFxSpiWaitForStatus` gives 0 only when the flash is ready and the latch set. -/
theorem wait_ready (left : Nat) (h : (b.cyFxSpiWaitForStatus ends left).1 = 0) :
    (b.cyFxSpiWaitForStatus ends left).2.flash.busy = false ∧
      (b.cyFxSpiWaitForStatus ends left).2.flash.latch = true := by
  induction left generalizing b with
  | zero =>
    have h1 : (1 : UInt8) = 0 := h
    exact absurd h1 (by decide)
  | succ left ih =>
    rw [cyFxSpiWaitForStatus] at h ⊢
    split at h
    next hc =>
      rw [if_pos hc]
      exact ih h
    next hc =>
      rw [if_neg hc]
      rw [Flash.status_busy, Flash.status_latch, not_or, Bool.not_eq_true, Bool.not_eq_false] at hc
      exact hc

/-- The loop behind the erase ends well if and only if the flash gets ready in time. -/
theorem pollErase_eq_zero (left : Nat) : (b.pollErase ends left).1 = 0 ↔
    0 < left ∧ (b.flash.busy = true → ∃ k < left, ends (b.sent + k) = true) := by
  induction left generalizing b with
  | zero => simp [pollErase]
  | succ left ih =>
    have hbusy : (b.seen ends).status &&& 0x80 ≠ 0 ↔
        b.flash.busy = true ∧ ends b.sent = false := by
      rw [Flash.status_busy, seen_busy, Bool.and_eq_true, Bool.not_eq_true']
    rw [pollErase]
    split
    next h =>
      obtain ⟨hb, he⟩ := hbusy.1 h
      have hb' : (b.send ends .readStatus).flash.busy = true := (Flash.status_busy _).1 h
      rw [ih, hb, hb', send_sent]
      constructor
      · rintro ⟨-, hk⟩
        refine ⟨Nat.succ_pos left, fun _ => ?_⟩
        obtain ⟨k, hk, hek⟩ := hk rfl
        exact ⟨k + 1, by omega, by rwa [show b.sent + (k + 1) = b.sent + 1 + k by omega]⟩
      · rintro ⟨-, hk⟩
        obtain ⟨k, hk, hek⟩ := hk rfl
        cases k with
        | zero => exact absurd hek (by rw [Nat.add_zero, he]; exact Bool.false_ne_true)
        | succ k =>
          refine ⟨by omega, fun _ => ⟨k, by omega, ?_⟩⟩
          rwa [show b.sent + 1 + k = b.sent + (k + 1) by omega]
    next h =>
      refine ⟨fun _ => ⟨Nat.succ_pos left, fun hb => ⟨0, Nat.succ_pos left, ?_⟩⟩, fun _ => rfl⟩
      rw [Nat.add_zero]
      exact (Bool.not_eq_false _).mp fun he => h (hbusy.2 ⟨hb, he⟩)

theorem pollErase_ready (left : Nat) (h : (b.pollErase ends left).1 = 0) :
    (b.pollErase ends left).2.flash.busy = false := by
  induction left generalizing b with
  | zero =>
    have h1 : (1 : UInt8) = 0 := h
    exact absurd h1 (by decide)
  | succ left ih =>
    rw [pollErase] at h ⊢
    split at h
    next hc =>
      rw [if_pos hc]
      exact ih h
    next hc =>
      rw [if_neg hc]
      rw [Flash.status_busy, Bool.not_eq_true] at hc
      exact hc

end routines

end FlashBus

/-! ## Calls -/

/-- One call, the operation it is to see done and the flash before and after it. -/
structure FlashCall where
  op : FlashOp
  ret : UInt8
  before : FlashBus
  after : FlashBus

namespace FlashCall

/-- The operation was sent once, to a flash that was idle with the latch set, and it was carried out.
    Of an erase no more is under way. -/
structure Done (c : FlashCall) : Prop where
  met : c.after.met = c.before.met ++ [(c.op, false, true)]
  carried : c.after.flash.carried = c.before.flash.carried ++ [c.op]
  complete : ∀ l, c.op = .erase l → c.after.flash.busy = false

section calls

variable (ends : Nat → Bool)

def erase (sector : Nat) (b : FlashBus) : FlashCall where
  op := .erase (.of (sector % 256 * flashSectorSize))
  ret := (b.flashSpiEraseSector ends sector).1
  before := b
  after := (b.flashSpiEraseSector ends sector).2

def program (pageAddress : Nat) (buffer : Vector UInt8 flashPageSize) (b : FlashBus) : FlashCall where
  op := .program (.of (pageAddress * flashPageSize)) buffer
  ret := (b.flashSpiTransfer ends pageAddress buffer).1
  before := b
  after := (b.flashSpiTransfer ends pageAddress buffer).2

/-- When it comes the flash is idle, or it stays busy until the retries are used up. -/
def Free (b : FlashBus) : Prop :=
  (b.seen ends).busy = false ∨ ∀ k ≤ statusRetriesErase, ends (b.sent + 1 + k) = false

variable {ends} {b : FlashBus}

open FlashBus Flash

/-- A page write that returns 0 is done. -/
theorem program_done (pageAddress : Nat) (buffer : Vector UInt8 flashPageSize)
    (h : (program ends pageAddress buffer b).ret = 0) : (program ends pageAddress buffer b).Done := by
  by_cases hw : (b.cyFxSpiWaitForStatus ends statusRetries).1 = 0
  · have hq : FlashBus.Quiet b (b.cyFxSpiWaitForStatus ends statusRetries).2 := quiet_wait statusRetries
    obtain ⟨hb, hl⟩ := wait_ready statusRetries hw
    have hb' : ((b.cyFxSpiWaitForStatus ends statusRetries).2.seen ends).busy = false :=
      seen_busy_of_idle hb
    have hafter : (b.flashSpiTransfer ends pageAddress buffer).2 =
        (b.cyFxSpiWaitForStatus ends statusRetries).2.send ends
          (.op (.program (.of (pageAddress * flashPageSize)) buffer)) := by
      rw [FlashBus.flashSpiTransfer, if_neg (fun hn => hn hw)]
    refine ⟨?_, ?_, nofun⟩
    · show (b.flashSpiTransfer ends pageAddress buffer).2.met = _
      rw [hafter, send_op_met, hq.met, hb', seen_latch, hl]
      rfl
    · show (b.flashSpiTransfer ends pageAddress buffer).2.flash.carried = _
      rw [hafter, send_flash, (receive_op_ready hb' (seen_latch.trans hl)).2, seen_carried, hq.carried]
      rfl
  · have hret : (b.flashSpiTransfer ends pageAddress buffer).1 =
        (b.cyFxSpiWaitForStatus ends statusRetries).1 := by
      rw [FlashBus.flashSpiTransfer, if_pos hw]
    exact absurd (hret.symm.trans h) hw

/-- An erase that returns 0 is done if and only if the flash was idle when the call began; one that
    returns 1 has found it busy for longer than the retries last, or been cut short by them. -/
theorem erase_done (sector : Nat) : ((erase ends sector b).ret = 0 → (erase ends sector b).Done) ↔
    Free ends b := by
  have hq : FlashBus.Quiet ((b.send ends .writeEnable).send ends (.op (erase ends sector b).op))
      (erase ends sector b).after := quiet_pollErase statusRetriesErase
  have hpos : 0 < statusRetriesErase := by decide
  cases hb : (b.seen ends).busy
  · -- idle: the latch is set, and the erase accepted
    obtain ⟨hb1, hl1, hc1⟩ := receive_writeEnable_idle hb
    have hb2 : ((b.send ends .writeEnable).seen ends).busy = false := seen_busy_of_idle hb1
    have hl2 : ((b.send ends .writeEnable).seen ends).latch = true := seen_latch.trans hl1
    refine iff_of_true (fun hret => ⟨?_, ?_, fun _ _ => pollErase_ready _ hret⟩) (.inl hb)
    · refine hq.met.trans ?_
      rw [send_op_met, send_writeEnable_met, hb2, hl2]
      rfl
    · refine hq.carried.trans ?_
      rw [send_flash, (receive_op_ready hb2 hl2).2, seen_carried, send_flash, hc1, seen_carried]
      rfl
  · -- busy: the write enable is ignored, and so is the erase, whether the flash gets ready or not
    have hl : (b.seen ends).latch = false := (b.seen ends).unlatched hb
    have hsend : (b.send ends .writeEnable).flash = b.seen ends := receive_writeEnable_busy hb
    have hl1 : ((b.send ends .writeEnable).seen ends).latch = false := by
      rw [seen_latch, hsend, hl]
    have hbusy : ((b.send ends .writeEnable).send ends (.op (erase ends sector b).op)).flash.busy =
        !ends (b.sent + 1) := by
      rw [send_flash, receive_op_unlatched hl1, seen_busy, hsend, hb, Bool.true_and, send_sent]
    have hnot : ¬ (erase ends sector b).Done := by
      intro hd
      have hm := hq.met.symm.trans hd.met
      rw [send_op_met, send_writeEnable_met, hl1] at hm
      have := List.append_cancel_left hm
      simp at this
    have hret : (erase ends sector b).ret = 0 ↔
        ∃ k ≤ statusRetriesErase, ends (b.sent + 1 + k) = true := by
      have hpoll : (erase ends sector b).ret = 0 ↔ 0 < statusRetriesErase ∧
          (((b.send ends .writeEnable).send ends (.op (erase ends sector b).op)).flash.busy = true →
            ∃ k < statusRetriesErase, ends (b.sent + 1 + 1 + k) = true) :=
        pollErase_eq_zero statusRetriesErase
      rw [hpoll, hbusy]
      constructor
      · rintro ⟨-, h⟩
        cases he : ends (b.sent + 1)
        · obtain ⟨k, hk, hek⟩ := h (by rw [he]; rfl)
          refine ⟨k + 1, hk, ?_⟩
          rwa [show b.sent + 1 + (k + 1) = b.sent + 1 + 1 + k by omega]
        · exact ⟨0, Nat.zero_le _, he⟩
      · rintro ⟨k, hk, hek⟩
        refine ⟨hpos, fun he => ?_⟩
        cases k with
        | zero =>
          rw [Nat.add_zero] at hek
          rw [hek] at he
          exact absurd he (by decide)
        | succ k =>
          refine ⟨k, hk, ?_⟩
          rwa [show b.sent + 1 + 1 + k = b.sent + 1 + (k + 1) by omega]
    constructor
    · intro h
      refine .inr fun k hk => Bool.eq_false_iff.2 fun he => ?_
      exact hnot (h (hret.2 ⟨k, hk, he⟩))
    · rintro (h | h) h0
      · rw [hb] at h
        cases h
      · obtain ⟨k, hk, he⟩ := hret.1 h0
        rw [h k hk] at he
        cases he

end calls

end FlashCall

/-! ## The calls of the handler -/

namespace GwState

open FlashCall

section handler

variable (ends : Nat → Bool)

/-- What a full page is written with. -/
def pageCalls (s : GwState) (b : FlashBus) : List FlashCall :=
  if s.flashPageDataCnt ≥ flashPageSize then
    if s.flashPage % pagesPerSector = 0 then
      let er := erase ends (flashLayoutFpgaBitstream + s.flashPage / pagesPerSector) b
      [er, program ends (flashLayoutFpgaBitstream * pagesPerSector + s.flashPage) s.flashPageData
        er.after]
    else
      [program ends (flashLayoutFpgaBitstream * pagesPerSector + s.flashPage) s.flashPageData b]
  else []

def packetCalls (s : GwState) (b : FlashBus) (p : GwPacket) : List FlashCall :=
  if p.progMode = 1 then ((s.beginning p).fillPage p).pageCalls ends b else []

/-- What the status loops have reported. -/
def results : List FlashCall → FlashStatus
  | [er, wr] => ⟨er.ret, wr.ret⟩
  | [wr] => ⟨0, wr.ret⟩
  | _ => .success

def busAfter (b : FlashBus) (cs : List FlashCall) : FlashBus :=
  (cs.getLast?.map FlashCall.after).getD b

/-- The calls for a sequence of packets. -/
def calls (s : GwState) (b : FlashBus) : List GwPacket → List FlashCall
  | [] => []
  | p :: ps =>
    s.packetCalls ends b p ++
      (s.gwWr p (results (s.packetCalls ends b p))).1.calls
        (busAfter b (s.packetCalls ends b p)) ps

variable {ends} {s : GwState} {b : FlashBus} {p : GwPacket} {ps : List GwPacket} {c : FlashCall}

theorem of_mem_packetCalls (h : c ∈ s.packetCalls ends b p) :
    (∃ sector b', c = erase ends sector b') ∨ ∃ page buffer b', c = program ends page buffer b' := by
  rw [packetCalls, pageCalls] at h
  split at h
  · split at h
    · split at h
      · rcases List.mem_cons.1 h with rfl | h
        · exact .inl ⟨_, _, rfl⟩
        · exact .inr ⟨_, _, _, List.mem_singleton.1 h⟩
      · exact .inr ⟨_, _, _, List.mem_singleton.1 h⟩
    · cases h
  · cases h

theorem erase_met (sector : Nat) :
    (erase ends sector b).after.met.map Prod.fst = b.met.map Prod.fst ++ [(erase ends sector b).op] := by
  have hq : FlashBus.Quiet ((b.send ends .writeEnable).send ends (.op (erase ends sector b).op))
      (erase ends sector b).after := FlashBus.quiet_pollErase statusRetriesErase
  rw [hq.met, FlashBus.send_op_met, FlashBus.send_writeEnable_met, List.map_append]
  rfl

theorem program_met (page : Nat) (buffer : Vector UInt8 flashPageSize) :
    (program ends page buffer b).after.met.map Prod.fst = b.met.map Prod.fst ++
      (flashSpiTransfer page buffer (program ends page buffer b).ret).2 := by
  have hq : FlashBus.Quiet b (b.cyFxSpiWaitForStatus ends statusRetries).2 :=
    FlashBus.quiet_wait statusRetries
  by_cases hw : (b.cyFxSpiWaitForStatus ends statusRetries).1 = 0
  · have hcall : b.flashSpiTransfer ends page buffer =
        (0, (b.cyFxSpiWaitForStatus ends statusRetries).2.send ends
          (.op (.program (.of (page * flashPageSize)) buffer))) := by
      rw [FlashBus.flashSpiTransfer, if_neg (fun hn => hn hw)]
    rw [program, hcall, flashSpiTransfer, if_pos rfl, FlashBus.send_op_met, hq.met, List.map_append]
    rfl
  · have hcall : b.flashSpiTransfer ends page buffer =
        b.cyFxSpiWaitForStatus ends statusRetries := by
      rw [FlashBus.flashSpiTransfer, if_pos hw]
    rw [program, hcall, flashSpiTransfer, if_neg hw, hq.met, List.append_nil]

/-- The calls send the flash the operations that `gwWr` says, given what they report. -/
theorem met_gwWr : (busAfter b (s.packetCalls ends b p)).met.map Prod.fst =
    b.met.map Prod.fst ++ (s.gwWr p (results (s.packetCalls ends b p))).2.1 := by
  have hquiet : ∀ st, p.progMode ≠ 1 → (s.gwWr p st).2.1 = [] := by
    intro st hm
    rw [gwWr]
    split
    next h => exact absurd h hm
    · rfl
    · rfl
    · rfl
  by_cases hm : p.progMode = 1
  · have hops : ∀ st, (s.gwWr p st).2.1 = (((s.beginning p).fillPage p).writePage st).2 := by
      intro st
      rw [gwWr, hm]
      simp only
      split
      next h => rw [h]
      next h => rw [h]
    have hwrite : ∀ (f : GwState) st, (f.writePage st).2 =
        if f.flashPageDataCnt ≥ flashPageSize then
          (if f.flashPage % pagesPerSector = 0 then
            (flashSpiEraseSector (flashLayoutFpgaBitstream + f.flashPage / pagesPerSector) st.erase).2
          else []) ++ (flashSpiTransfer
            (flashLayoutFpgaBitstream * pagesPerSector + f.flashPage) f.flashPageData st.wait).2
        else [] := by
      intro f st
      rw [writePage]
      split
      · simp only
        split <;> split <;> rfl
      · rfl
    rw [hops, hwrite, packetCalls, if_pos hm]
    generalize (s.beginning p).fillPage p = f
    rw [pageCalls]
    split
    · split
      · exact (program_met _ _).trans (by rw [erase_met, List.append_assoc]; rfl)
      · exact program_met _ _
    · exact (List.append_nil _).symm
  · rw [hquiet _ hm, packetCalls, if_neg hm, List.append_nil]
    rfl

theorem of_mem_calls (h : c ∈ s.calls ends b ps) :
    (∃ sector b', c = erase ends sector b') ∨ ∃ page buffer b', c = program ends page buffer b' := by
  induction ps generalizing s b with
  | nil => cases h
  | cons p ps ih =>
    rcases List.mem_append.1 h with h | h
    · exact of_mem_packetCalls h
    · exact ih h

end handler

end GwState

def FlashCall.Erases (c : FlashCall) : Prop := ∃ l, c.op = .erase l

/-- In every run of the handler the calls that return 0 are done, whatever the times the flash takes,
    if and only if no erase finds the flash busy (or only such that use up all retries). -/
theorem gw_calls_done (ends : Nat → Bool) (s : GwState) (b : FlashBus) (ps : List GwPacket) :
    (∀ c ∈ s.calls ends b ps, c.ret = 0 → c.Done) ↔
      ∀ c ∈ s.calls ends b ps, c.Erases → FlashCall.Free ends c.before := by
  constructor
  · intro h c hc he
    rcases GwState.of_mem_calls hc with ⟨sector, b', rfl⟩ | ⟨page, buffer, b', rfl⟩
    · exact (FlashCall.erase_done sector).1 (h _ hc)
    · obtain ⟨l, hl⟩ := he
      cases hl
  · intro h c hc
    rcases GwState.of_mem_calls hc with ⟨sector, b', rfl⟩ | ⟨page, buffer, b', rfl⟩
    · exact (FlashCall.erase_done sector).2 (h _ hc ⟨_, rfl⟩)
    · exact FlashCall.program_done page buffer

/-- The flash at power-up. -/
def FlashBus.powerUp : FlashBus := ⟨⟨false, false, [], nofun⟩, 0, []⟩

/-- Two bitstreams of one byte each, one behind the other. -/
def twice : List GwPacket :=
  [countingPacket 0 1 0, countingPacket 1 0 0, countingPacket 0 1 0, countingPacket 1 0 0]

/-- The erase of the first takes until its first poll, and the page program until the first poll of
    the second erase: that one is ignored, and returns 0. -/
theorem gw_calls_done_twice :
    ¬ ∀ c ∈ GwState.startUp.calls (fun n => n == 2 || n == 8) .powerUp twice, c.ret = 0 → c.Done := by
  intro h
  have hlen : ∀ c ∈ GwState.startUp.calls (fun n => n == 2 || n == 8) .powerUp twice, c.ret = 0 →
      c.after.flash.carried.length = c.before.flash.carried.length + 1 := by
    intro c hc hr
    rw [(h c hc hr).carried, List.length_append]
    rfl
  revert hlen
  decide +kernel

end Fw
