import LimeSdrGw.Fw.AvFifo
import LimeSdrGw.Fw.Commands
/-
# The responses of `lms_ctr_app`

Behind the command switch the main loop writes the 64 bytes of the response, one access each, and looks
at nothing: `avfifo` leaves out what comes while the FIFO to the host is full, and shows in bit 1 of its
status register that it is. As in AvFifo.lean the unit of time is one access to the registers of
`avfifo`; between two of them any number of bytes may come from the host, and the host may take any
number out of the other FIFO.

| here | there |
| --- | --- |
| `iowr0`                   | writing address 00 (avfifo.vhd:74-76) |
| `outFifoSize`             | `g_FPGA2HOST_C0_0_SIZE` (lms7_trx_top.vhd:36), the words of `inst7_F2H_C0_FIFO` (pcie_top.vhd:685-700) |
| `Packet.ofBytes`, `Machine.glEp0BufferTx` | `glEp0Buffer_Rx`, `glEp0Buffer_Tx` as `tLMS_Ctrl_Packet` (LMS64C_protocol.h:134-148) |
| `CtrlLoop.access`         | the main loop (main.c:375-1254) |
-/
namespace Fw

open Clocked

/-- The values of `STATUS_…_CMD`. -/
def CmdStatus.code : CmdStatus → UInt8
  | .completed => 1
  | .unknown => 2
  | .busy => 3
  | .blocksError => 4
  | .error => 5
  | .wrongOrder => 6
  | .invalidPeriphId => 8

def Packet.ofBytes (p : List UInt8) : Packet where
  command := p.getD 0 0
  dataBlocks := p.getD 2 0
  periphId := p.getD 3 0
  dataField := Vector.ofFn fun i => p.getD (8 + i) 0

def Machine.glEp0BufferTx (m : Machine) : List UInt8 :=
  [m.header.command, m.status.code, m.header.dataBlocks, m.header.periphId, 0, 0, 0, 0] ++ m.tx.toList

theorem Machine.length_glEp0BufferTx (m : Machine) : m.glEp0BufferTx.length = pktSize := by
  rw [glEp0BufferTx, List.length_append, Vector.length_toList]
  rfl

/-- Bytes that the FIFO to the host has room for. -/
abbrev outFifoSize : Nat := 1024

/-- A write of the data register is left out when the FIFO is full. -/
def iowr0 (f : List UInt8) (writedata : UInt8) : List UInt8 :=
  if f.length < outFifoSize then f ++ [writedata] else f

/-- What happens before an access, and what the devices answer should it complete a command. -/
structure CtrlIn where
  /-- Bytes that come from the host. -/
  arrive : Nat
  /-- Bytes that the host takes. -/
  drain : Nat
  board : Board
  fuel : Nat

structure CtrlLoop where
  main : MainLoop
  machine : Machine
  /-- What of `glEp0Buffer_Tx` is still to be written. -/
  reply : List UInt8
  /-- A handler waits for good. -/
  hung : Bool
  outFifo : List UInt8
  /-- Bytes that the host has taken. -/
  received : List UInt8

namespace CtrlLoop

def init (m : Machine) : CtrlLoop := ⟨.init, m, [], false, [], []⟩

/-- What happens between two accesses. -/
def meet (host : Nat → UInt8) (s : CtrlLoop) (i : CtrlIn) : CtrlLoop :=
  { s with
    main := s.main.arrive host i.arrive
    outFifo := s.outFifo.drop i.drain
    received := s.received ++ s.outFifo.take i.drain }

/-- The command complete with this access, and what its handler comes to. -/
def completed (s : CtrlLoop) (i : CtrlIn) : Option (List UInt8 × Option Unit × Machine) :=
  if s.reply = [] ∧ s.hung = false then
    s.main.complete.head?.map fun p => (p, handle i.board i.fuel (.ofBytes p) s.machine)
  else none

/-- One access to the FIFO registers. -/
def access (s : CtrlLoop) (i : CtrlIn) : CtrlLoop :=
  match s.reply with
  | b :: rest => { s with reply := rest, outFifo := iowr0 s.outFifo b }
  | [] =>
    if s.hung then s
    else
      match s.completed i with
      | none => { s with main := s.main.access }
      | some (_, some (), m) =>
        { s with main := s.main.access, machine := m, reply := m.glEp0BufferTx }
      | some (_, none, m) => { s with main := s.main.access, machine := m, hung := true }

/-- The command processed with this access and the response to it. -/
def processed (s : CtrlLoop) (i : CtrlIn) : List (List UInt8 × List UInt8) :=
  match s.completed i with
  | some (p, some (), m) => [(p, m.glEp0BufferTx)]
  | some (_, none, _) | none => []

end CtrlLoop

open CtrlLoop

section run

variable (host : Nat → UInt8) (m : Machine) (x : Nat → CtrlIn) (n : Nat)

def ctrlMachine : Clocked.Machine CtrlLoop CtrlIn := ⟨.init m, fun s i => (s.meet host i).access i⟩

abbrev ctrlAt : CtrlLoop := (ctrlMachine host m).state x n

/-- The commands processed before access `n` and the responses to them. -/
def commands : List (List UInt8 × List UInt8) :=
  (ctrlMachine host m).log (fun s i => (s.meet host i).processed i) x n

/-- Writes of the data register before access `n`. -/
def bytesWritten : Nat :=
  (ctrlMachine host m).track (fun k s _ => if s.reply = [] then k else k + 1) 0 x n

/-- What the host has taken, what it will find and what is still to be written are the responses, of
    64 bytes each. -/
structure Delivered : Prop where
  bytes : (ctrlAt host m x n).received ++ (ctrlAt host m x n).outFifo ++ (ctrlAt host m x n).reply =
    (commands host m x n).flatMap Prod.snd
  sizes : ∀ c ∈ commands host m x n, c.2.length = pktSize

/-- When access `n` writes a byte of a response, less than 1024 bytes have been written that the host
    has not taken. -/
def Room : Prop :=
  (ctrlAt host m x n).reply ≠ [] →
    bytesWritten host m x n < ((ctrlAt host m x n).meet host (x n)).received.length + outFifoSize

end run

section step

variable {host : Nat → UInt8} {s : CtrlLoop} {i : CtrlIn}

/-- The bytes written or to be written, those that were left out apart. -/
def CtrlLoop.bytes (s : CtrlLoop) : List UInt8 := s.received ++ s.outFifo ++ s.reply

theorem bytes_meet : (s.meet host i).bytes = s.bytes := by
  rw [bytes, bytes, meet, List.append_assoc s.received, List.take_append_drop]

/-- Outside a response an access adds the response it makes, if any. -/
theorem bytes_access_nil (h : s.reply = []) :
    (s.access i).bytes = s.bytes ++ (s.processed i).flatMap Prod.snd := by
  rw [access, h]
  dsimp only
  by_cases hh : s.hung = true
  · have hc : s.completed i = none := by
      rw [completed, if_neg]
      rintro ⟨-, hf⟩
      rw [hh] at hf
      cases hf
    rw [if_pos hh, processed, hc]
    exact (List.append_nil _).symm
  · rw [if_neg hh, processed]
    split
    next hc =>
      rw [hc]
      simp only [bytes, h, List.append_nil, List.flatMap_nil]
    next p m' hc =>
      rw [hc]
      simp only [bytes, h, List.append_nil, List.flatMap_cons, List.flatMap_nil]
    next p m' hc =>
      rw [hc]
      simp only [bytes, h, List.append_nil, List.flatMap_nil]

theorem reply_access_nil (h : s.reply = []) :
    (s.access i).reply.length = ((s.processed i).flatMap Prod.snd).length := by
  have hb := congrArg List.length (bytes_access_nil (i := i) h)
  have hkept : (s.access i).received = s.received ∧ (s.access i).outFifo = s.outFifo := by
    rw [access, h]
    dsimp only
    split
    · exact ⟨rfl, rfl⟩
    · split <;> exact ⟨rfl, rfl⟩
  simp only [bytes, h, hkept, List.length_append, List.length_nil] at hb
  omega

/-- Within one it moves a byte into the FIFO. -/
theorem bytes_access_cons {b : UInt8} {rest : List UInt8} (h : s.reply = b :: rest) :
    (s.access i).bytes = s.received ++ iowr0 s.outFifo b ++ rest ∧ s.processed i = [] := by
  have hc : s.completed i = none := by
    rw [completed, if_neg]
    rintro ⟨hn, -⟩
    rw [h] at hn
    cases hn
  refine ⟨?_, ?_⟩
  · rw [access, h]
    rfl
  · rw [processed, hc]

end step

section run

variable {host : Nat → UInt8} {m : Machine} {x : Nat → CtrlIn} {n : Nat}

theorem commands_succ : commands host m x (n + 1) =
    commands host m x n ++ ((ctrlAt host m x n).meet host (x n)).processed (x n) := rfl

/-- Every response has 64 bytes. -/
theorem length_response : ∀ c ∈ commands host m x n, c.2.length = pktSize := by
  induction n with
  | zero => exact nofun
  | succ n ih =>
    intro c hc
    rw [commands_succ, List.mem_append] at hc
    rcases hc with hc | hc
    · exact ih c hc
    · rw [processed] at hc
      split at hc
      next p m' _ =>
        rw [List.mem_singleton.1 hc]
        exact m'.length_glEp0BufferTx
      · exact nomatch hc
      · exact nomatch hc

theorem length_responses : ((commands host m x n).flatMap Prod.snd).length =
    pktSize * (commands host m x n).length := by
  rw [List.length_flatMap, List.map_congr_left (g := fun _ => pktSize) length_response,
    List.map_const', List.sum_replicate_nat, Nat.mul_comm]

/-- What has been written and what is still to be written is as long as the responses. -/
theorem bytesWritten_add : bytesWritten host m x n + (ctrlAt host m x n).reply.length =
    ((commands host m x n).flatMap Prod.snd).length := by
  induction n with
  | zero => rfl
  | succ n ih =>
    have hw : bytesWritten host m x (n + 1) =
        if (ctrlAt host m x n).reply = [] then bytesWritten host m x n else bytesWritten host m x n + 1 := rfl
    have hs : (ctrlAt host m x (n + 1)) = ((ctrlAt host m x n).meet host (x n)).access (x n) := rfl
    have hmeet : ((ctrlAt host m x n).meet host (x n)).reply = (ctrlAt host m x n).reply := rfl
    rw [commands_succ, List.flatMap_append, List.length_append, ← ih, hw, hs]
    cases hr : (ctrlAt host m x n).reply with
    | nil =>
      rw [if_pos rfl, reply_access_nil (hmeet.trans hr)]
      rfl
    | cons b rest =>
      rw [if_neg (List.cons_ne_nil b rest), (bytes_access_cons (i := x n) (hmeet.trans hr)).2,
        access, hmeet, hr]
      simp only [List.length_cons, List.flatMap_nil, List.length_nil]
      omega

/-- As long as nothing is lost `Room` is room in the FIFO. -/
theorem Delivered.room_iff (h : Delivered host m x n) : Room host m x n ↔
    ((ctrlAt host m x n).reply ≠ [] →
      ((ctrlAt host m x n).meet host (x n)).outFifo.length < outFifoSize) := by
  have hb : ((ctrlAt host m x n).meet host (x n)).bytes = (commands host m x n).flatMap Prod.snd :=
    bytes_meet.trans h.bytes
  have hl := congrArg List.length hb
  have hmeet : ((ctrlAt host m x n).meet host (x n)).reply = (ctrlAt host m x n).reply := rfl
  rw [← bytesWritten_add, CtrlLoop.bytes, List.length_append, List.length_append, hmeet] at hl
  unfold Room
  constructor <;> intro hroom hne <;> have := hroom hne <;> omega

/-- While no byte is left out the responses are delivered. -/
theorem delivered_succ (h : Delivered host m x n) (room : Room host m x n) :
    Delivered host m x (n + 1) := by
  have hb : ((ctrlAt host m x n).meet host (x n)).bytes = (commands host m x n).flatMap Prod.snd :=
    bytes_meet.trans h.bytes
  refine ⟨?_, length_response⟩
  show (((ctrlAt host m x n).meet host (x n)).access (x n)).bytes = _
  rw [commands_succ, List.flatMap_append, ← hb]
  cases hr : ((ctrlAt host m x n).meet host (x n)).reply with
  | nil => exact bytes_access_nil hr
  | cons b rest =>
    have hroom := h.room_iff.1 room (by
      intro hn
      have hn' : ((ctrlAt host m x n).meet host (x n)).reply = [] := hn
      rw [hr] at hn'
      cases hn')
    obtain ⟨hacc, hproc⟩ := bytes_access_cons (i := x n) hr
    rw [hacc, hproc, iowr0, if_pos hroom, bytes, hr]
    simp

/-- A byte left out is never made up for. -/
theorem room_of_delivered (h : Delivered host m x n) (h' : Delivered host m x (n + 1)) :
    Room host m x n := by
  rw [h.room_iff]
  intro hne
  obtain ⟨b, rest, hr⟩ := List.exists_cons_of_ne_nil hne
  have hb : ((ctrlAt host m x n).meet host (x n)).bytes = (commands host m x n).flatMap Prod.snd :=
    bytes_meet.trans h.bytes
  have hb' : (((ctrlAt host m x n).meet host (x n)).access (x n)).bytes =
    (commands host m x (n + 1)).flatMap Prod.snd := h'.bytes
  have hr' : ((ctrlAt host m x n).meet host (x n)).reply = b :: rest := hr
  obtain ⟨hacc, hproc⟩ := bytes_access_cons (i := x n) hr'
  rw [commands_succ, hproc, List.append_nil, ← hb, hacc, bytes, hr', iowr0] at hb'
  split at hb'
  next hroom => exact hroom
  next =>
    have hlen := congrArg List.length hb'
    simp only [List.length_append, List.length_cons] at hlen
    omega

end run

/-- Response delivery: the host gets one whole response after the other, in the order of the commands,
    exactly when none is written while 1024 bytes are left for it to take. -/
theorem responses_delivered_iff (host : Nat → UInt8) (m : Machine) (x : Nat → CtrlIn) :
    (∀ n, Delivered host m x n) ↔ ∀ n, Room host m x n := by
  constructor
  · exact fun h n => room_of_delivered (h n) (h (n + 1))
  · intro h n
    induction n with
    | zero => exact ⟨rfl, length_response⟩
    | succ n ih => exact delivered_succ ih (h n)

/-- A host that never leaves more than 16 responses outstanding loses none. -/
theorem delivered_of_outstanding {host : Nat → UInt8} {m : Machine} {x : Nat → CtrlIn}
    (h : ∀ n, pktSize * (commands host m x n).length ≤
      ((ctrlAt host m x n).meet host (x n)).received.length + outFifoSize) (n : Nat) :
    Delivered host m x n := by
  induction n with
  | zero => exact ⟨rfl, length_response⟩
  | succ n ih =>
    refine delivered_succ ih fun hne => ?_
    have hpos : 0 < (ctrlAt host m x n).reply.length := List.length_pos_iff.2 hne
    have hw : bytesWritten host m x n + (ctrlAt host m x n).reply.length = _ := bytesWritten_add
    rw [length_responses] at hw
    have := h n
    omega

/-! ## A host that takes nothing -/

/-- One byte of an unknown command comes before each access, and the host takes none. -/
def undrained : CtrlIn := ⟨1, 0, ⟨fun _ => false, fun _ => 0, fun _ => (0, 0), fun _ => 0, fun _ => 0,
  fun _ => 0⟩, 0⟩

/-- Where the main loop is in the 129 accesses of a command: one of the status, 64 reads and 64
    writes. -/
structure InRound (s : CtrlLoop) (r : Nat) : Prop where
  hung : s.hung = false
  received : s.received = []
  items : ∀ b ∈ s.main.inFifo.items, b = 0xff
  buf : ∀ b ∈ s.main.glEp0BufferRx, b = 0xff
  full : s.outFifo.length ≤ outFifoSize
  place : s.main.place = if r = 0 ∨ 64 < r then .status else .data (r - 1)
  reply : s.reply.length = if 64 < r then 129 - r else 0

section undrained

variable {s : CtrlLoop} {r : Nat}

theorem handle_unknown {b : Board} {fuel : Nat} {p : Packet} {m : Machine} (h : p.command = 0xff) :
    ∃ m', handle b fuel p m = (some (), m') := by
  refine ⟨{ m.receive p with status := .unknown }, ?_⟩
  rw [handle, dispatch, h]
  rfl

theorem inRound_meet (h : InRound s r) : InRound (s.meet (fun _ => 0xff) undrained) r ∧
    (s.meet (fun _ => 0xff) undrained).main.inFifo.items ≠ [] := by
  have hitems : (s.meet (fun _ => 0xff) undrained).main.inFifo.items =
    s.main.inFifo.items ++ [0xff] := rfl
  refine ⟨⟨h.hung, ?_, ?_, h.buf, h.full, h.place, h.reply⟩, ?_⟩
  · show s.received ++ [] = []
    rw [h.received]
    rfl
  · intro b hb
    rw [hitems] at hb
    rcases List.mem_append.1 hb with hb | hb
    · exact h.items b hb
    · exact List.mem_singleton.1 hb
  · rw [hitems]
    exact List.append_ne_nil_of_right_ne_nil _ (List.cons_ne_nil _ _)

/-- An access in which no command gets complete is one of the main loop. -/
theorem access_of_none {i : CtrlIn} (hnil : s.reply = []) (hung : s.hung = false)
    (hnone : s.completed i = none) : s.access i = { s with main := s.main.access } := by
  rw [access, hnil, hung, hnone]
  rfl

theorem access_of_some {i : CtrlIn} {p : List UInt8} {m : Machine} (hnil : s.reply = [])
    (hung : s.hung = false) (hsome : s.completed i = some (p, some (), m)) : s.access i =
      { s with main := s.main.access, machine := m, reply := m.glEp0BufferTx } := by
  rw [access, hnil, hung, hsome]
  rfl

theorem completed_of_idle {i : CtrlIn} (hnil : s.reply = []) (hung : s.hung = false) :
    s.completed i = s.main.complete.head?.map fun p =>
      (p, handle i.board i.fuel (.ofBytes p) s.machine) := by
  rw [completed, if_pos ⟨hnil, hung⟩]

namespace InRound

theorem reply_nil (h : InRound s r) (hw : r ≤ 64) : s.reply = [] := by
  have hreply := h.reply
  rw [if_neg (Nat.not_lt.2 hw)] at hreply
  exact List.eq_nil_of_length_eq_zero hreply

/-- A byte of the response is written. -/
theorem writes (h : InRound s r) (hw : 64 < r) (hr : r < 129) :
    InRound (s.access undrained) ((r + 1) % 129) ∧ s.processed undrained = [] := by
  have hplace := h.place
  have hreply := h.reply
  rw [if_pos hw] at hreply
  rw [if_pos (.inr hw)] at hplace
  obtain ⟨c, tl, htl⟩ := List.exists_cons_of_length_pos (by omega : 0 < s.reply.length)
  have hlen : tl.length = 128 - r := by
    rw [htl, List.length_cons] at hreply
    omega
  have hacc : s.access undrained = { s with reply := tl, outFifo := iowr0 s.outFifo c } := by
    rw [access, htl]
  have hnone : s.completed undrained = none := by
    rw [completed, if_neg]
    rintro ⟨hn, -⟩
    rw [htl] at hn
    cases hn
  rw [hacc]
  refine ⟨⟨h.hung, h.received, h.items, h.buf, ?_, ?_, ?_⟩, ?_⟩
  · show (iowr0 s.outFifo c).length ≤ outFifoSize
    rw [iowr0]
    split
    · rw [List.length_append]
      assumption
    · exact h.full
  · rw [if_pos (by omega)]
    exact hplace
  · show tl.length = _
    split <;> omega
  · rw [processed, hnone]

/-- The main loop finds a byte in the FIFO. -/
theorem asks (h : InRound s 0) (hne : s.main.inFifo.items ≠ []) :
    InRound (s.access undrained) 1 ∧ s.processed undrained = [] := by
  obtain ⟨b, rest, hcons⟩ := List.exists_cons_of_ne_nil hne
  have hnil := h.reply_nil (Nat.zero_le _)
  have hplace := h.place
  rw [if_pos (.inl rfl)] at hplace
  have hmain : s.main.access = { s.main with place := .data 0, glEp0BufferRx := [] } := by
    rw [MainLoop.access, hplace]
    dsimp only
    rw [iord2Empty, hcons]
    rfl
  have hnone : s.completed undrained = none := by
    rw [completed_of_idle hnil h.hung, MainLoop.complete, hplace]
    rfl
  rw [access_of_none hnil h.hung hnone, hmain]
  refine ⟨⟨h.hung, h.received, h.items, ?_, h.full, rfl, ?_⟩, ?_⟩
  · intro c hc
    cases hc
  · show s.reply.length = _
    rw [hnil]
    rfl
  · rw [processed, hnone]

/-- What reading a byte of the command does. -/
theorem reads (h : InRound s r) (hpos : 0 < r) (hw : r ≤ 64) (hne : s.main.inFifo.items ≠ []) :
    ∃ b rest, (∀ c ∈ rest, c = 0xff) ∧ (∀ c ∈ s.main.glEp0BufferRx ++ [b], c = 0xff) ∧
      s.main.access = { s.main with
        place := if r < pktSize then .data r else .status
        glEp0BufferRx := s.main.glEp0BufferRx ++ [b]
        inFifo := ⟨rest, b⟩ } ∧
      s.main.complete = if r < pktSize then [] else [s.main.glEp0BufferRx ++ [b]] := by
  obtain ⟨b, rest, hcons⟩ := List.exists_cons_of_ne_nil hne
  have hread : iord1 s.main.inFifo = (b, ⟨rest, b⟩) := by
    unfold iord1
    rw [hcons]
  have hplace := h.place
  rw [if_neg (by omega)] at hplace
  have hsub : r - 1 + 1 = r := by omega
  refine ⟨b, rest, ?_, ?_, ?_, ?_⟩
  · intro c hc
    exact h.items c (by rw [hcons]; exact List.mem_cons_of_mem _ hc)
  · intro c hc
    rcases List.mem_append.1 hc with hc | hc
    · exact h.buf c hc
    · rw [List.mem_singleton.1 hc]
      exact h.items b (by rw [hcons]; exact List.mem_cons_self ..)
  · rw [MainLoop.access, hplace]
    dsimp only
    rw [hread, hsub]
  · rw [MainLoop.complete, hplace]
    dsimp only
    rw [hread, hsub]

/-- A byte that is not the last of the command is read. -/
theorem goesOn (h : InRound s r) (hpos : 0 < r) (hlt : r < 64) (hne : s.main.inFifo.items ≠ []) :
    InRound (s.access undrained) (r + 1) ∧ s.processed undrained = [] := by
  obtain ⟨b, rest, hrest, hbuf, hmain, hcomplete⟩ := h.reads hpos (Nat.le_of_lt hlt) hne
  have hnil := h.reply_nil (Nat.le_of_lt hlt)
  have hnone : s.completed undrained = none := by
    rw [completed_of_idle hnil h.hung, hcomplete, if_pos hlt]
    rfl
  rw [access_of_none hnil h.hung hnone, hmain]
  refine ⟨⟨h.hung, h.received, hrest, hbuf, h.full, ?_, ?_⟩, ?_⟩
  · show (if r < pktSize then Place.data r else .status) = _
    rw [if_pos hlt, if_neg (by omega)]
    rfl
  · show s.reply.length = _
    rw [hnil, if_neg (by omega)]
    rfl
  · rw [processed, hnone]

/-- The command is complete; it is none that the firmware knows. -/
theorem answers (h : InRound s 64) (hne : s.main.inFifo.items ≠ []) :
    InRound (s.access undrained) 65 ∧ (s.processed undrained).length = 1 := by
  obtain ⟨b, rest, hrest, hbuf, hmain, hcomplete⟩ := h.reads (by decide) (Nat.le_refl _) hne
  have hnil := h.reply_nil (Nat.le_refl _)
  have hcmd : (Packet.ofBytes (s.main.glEp0BufferRx ++ [b])).command = 0xff := by
    show (s.main.glEp0BufferRx ++ [b]).getD 0 0 = 0xff
    cases hl : s.main.glEp0BufferRx with
    | nil => exact hbuf b (List.mem_append_right _ (List.mem_singleton.2 rfl))
    | cons c tl => exact hbuf c (by rw [hl]; exact List.mem_cons_self ..)
  obtain ⟨m', hm'⟩ := handle_unknown (b := undrained.board) (m := s.machine) hcmd
  have hsome : s.completed undrained = some (s.main.glEp0BufferRx ++ [b], some (), m') := by
    rw [completed_of_idle hnil h.hung, hcomplete, if_neg (by decide)]
    exact congrArg (fun r => some (s.main.glEp0BufferRx ++ [b], r)) hm'
  rw [access_of_some hnil h.hung hsome, hmain]
  refine ⟨⟨h.hung, h.received, hrest, hbuf, h.full, rfl, m'.length_glEp0BufferTx⟩, ?_⟩
  rw [processed, hsome]
  rfl

end InRound

theorem inRound_step (h : InRound s r) (hr : r < 129) (hne : s.main.inFifo.items ≠ []) :
    InRound (s.access undrained) ((r + 1) % 129) ∧
      (s.processed undrained).length = if r = 64 then 1 else 0 := by
  rcases Nat.lt_or_ge 64 r with hw | hw
  · obtain ⟨hround, hnone⟩ := h.writes hw hr
    rw [hnone, if_neg (by omega)]
    exact ⟨hround, rfl⟩
  rw [Nat.mod_eq_of_lt (by omega)]
  rcases Nat.lt_or_eq_of_le hw with hlt | rfl
  · obtain ⟨hround, hnone⟩ : InRound (s.access undrained) (r + 1) ∧
        s.processed undrained = [] := by
      rcases Nat.eq_zero_or_pos r with rfl | hpos
      · exact h.asks hne
      · exact h.goesOn hpos hlt hne
    rw [hnone, if_neg (by omega)]
    exact ⟨hround, rfl⟩
  · exact h.answers hne

/-- The rounds go on, whether bytes are left out or not. -/
theorem inRound (m : Machine) (n : Nat) :
    InRound (ctrlAt (fun _ => 0xff) m (fun _ => undrained) n) (n % 129) ∧
      (commands (fun _ => 0xff) m (fun _ => undrained) n).length = (n + 64) / 129 := by
  induction n with
  | zero => exact ⟨⟨rfl, rfl, nofun, nofun, Nat.zero_le _, rfl, rfl⟩, rfl⟩
  | succ n ih =>
    obtain ⟨hround, hlen⟩ := ih
    obtain ⟨hmeet, hne⟩ := inRound_meet hround
    obtain ⟨hstep, hproc⟩ := inRound_step hmeet (Nat.mod_lt n (by decide)) hne
    constructor
    · have hmod : (n % 129 + 1) % 129 = (n + 1) % 129 := by omega
      rw [← hmod]
      exact hstep
    · rw [commands_succ, List.length_append, hlen, hproc]
      split <;> omega

end undrained

/-- Sixteen responses fill the FIFO, of the next one nothing gets in. -/
theorem responses_undelivered : ¬ ∀ host m x n, Delivered host m x n := by
  intro h
  let m : Machine := ⟨.replicate _ 0, ⟨0, 0, 0⟩, .replicate _ 0, .busy, 0, 0, 0,
    ⟨0, 0, 0, 0, 0, .replicate _ 0⟩, [], [], 0, 0, 0, 0, 0⟩
  obtain ⟨hround, hlen⟩ := inRound m 2258
  have hd := congrArg List.length (h (fun _ => 0xff) m (fun _ => undrained) 2258).bytes
  rw [length_responses, hlen, List.length_append, List.length_append, hround.received,
    hround.reply, if_pos (by decide)] at hd
  have := hround.full
  simp only [pktSize, outFifoSize, List.length_nil] at hd this
  omega

end Fw
