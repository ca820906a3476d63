import LimeSdrGw.Tx.Feed
import LimeSdrGw.Tx.Carry
import LimeSdrGw.Tx.Events
/-
# The invariant of the TX packet path

The registers of the path against its book: what every slot FIFO holds (`SlotIs`), where the writer
is (`Writer`), where the reader is (`Reader`), and that the words presented so far, together with
the two still in the output registers, are the words read (`Out`).
-/
namespace Tx

open Clocked P2dWrFsm

namespace TxPath

/-- The header of `p` is in the tables of slot `k`. -/
structure TaggedAs (p : Packet) (s : TxPath) (k : Fin buffCount) : Prop where
  size : s.inst1.pctBuffSize k = 2 * p.len
  hdr0 : s.rd.pctHdr0Array k = p.hdr.hdr0
  hdr1 : s.rd.pctHdr1Array k = p.hdr.hdr1

/-- What slot FIFO `k` holds, by the use of the slot. -/
inductive SlotIs (ps : List Packet) (s : TxPath) (k : Fin buffCount) : SlotUse → Prop
  | free (empty : s.inst1.slotVisible k = []) : SlotIs ps s k .free
  | filling (j : Nat) (p : Packet) (hat : ps[j]? = some p)
      (items : (s.inst1.instx k).items = p.payload64.take (2 * s.wr.stored))
      (tag : s.wr.Tagged → TaggedAs p s k) : SlotIs ps s k (.filling j)
  | full (j : Nat) (p : Packet) (hat : ps[j]? = some p)
      (items : (s.inst1.instx k).items = p.payload64) (tag : TaggedAs p s k) : SlotIs ps s k (.full j)
  | reading (j : Nat) (p : Packet) (hat : ps[j]? = some p)
      (items : (s.inst1.instx k).items = p.payload64.drop s.rd.rdCnt) (tag : TaggedAs p s k) :
      SlotIs ps s k (.reading j)

/-- Where `p2d_wr_fsm` and the words before it are. -/
inductive Writer (ps : List Packet) (b : Book) (s : TxPath) : Prop
  | away (state : Away s.wr.currentState) (quiet : s.wr.Quiet)
      (feed : Feed.Filling (ps.drop b.next) s) (next : s.wr.nextBuffCnt = b.wp)
      (cur : s.wr.currentState ≠ .checkNextBuf → s.wr.currentBuffCnt = b.wp)
      (free : s.wr.currentState ≠ .checkNextBuf → b.slot b.wp = .free)
      (notFilling : ∀ j, b.slot b.wp ≠ .filling j)
      (rdy : s.wr.currentState = .checkNextBuf → s.wr.nextBuffRdy = true → b.slot b.wp = .free)
  | carry (j : Nat) (p : Packet) (hat : ps[j]? = some p) (slot : b.slot b.wp = .filling j)
      (carry : s.wr.Carry p s.inst0.inst1.q) (cur : s.wr.currentBuffCnt = b.wp)
      (next : s.wr.nextBuffCnt =
        if s.wr.currentState = .rdPct ∨ s.wr.currentState = .waitWrEnd then nextBuff b.wp else b.wp)
      (drain : s.wr.taken ≤ p.len → Feed.Drain p s.wr.taken (ps.drop b.next) s)
      (done : p.len < s.wr.taken → Feed.Filling (ps.drop b.next) s)

/-- Where `p2d_rd` is. -/
inductive Reader (ps : List Packet) (b : Book) (s : TxPath) : Prop
  | idle (state : s.rd.currentState = .idle) (rp : b.rp = s.rd.crntBuffCnt)
      (slot : ∀ j, b.slot b.rp ≠ .reading j)
      (rdy : s.rd.crntBuffRdy = true → ∃ j p, b.slot b.rp = .full j ∧ ps[j]? = some p ∧
        s.rd.crntBuffPayloadSize = Word64.sizeField p.hdr.hdr0)
  | reading (state : s.rd.currentState = .rdBuff ∨ s.rd.currentState = .rdHold)
      (rp : b.rp = s.rd.crntBuffCnt) (j : Nat) (p : Packet) (slot : b.slot b.rp = .reading j)
      (hat : ps[j]? = some p) (size : s.rd.crntBuffPayloadSize = Word64.sizeField p.hdr.hdr0)
      (max : s.rd.rdCntMax = 2 * p.len) (lt : s.rd.rdCnt < 2 * p.len)
  | clear (state : s.rd.currentState = .clrBuff) (rp : b.rp = nextBuff s.rd.crntBuffCnt)
      (free : b.slot s.rd.crntBuffCnt = .free) (slot : ∀ j, b.slot b.rp ≠ .reading j)
  | leave (state : s.rd.currentState = .switchNextBuff) (rp : b.rp = nextBuff s.rd.crntBuffCnt)
      (slot : ∀ j, b.slot b.rp ≠ .reading j)
  | arrive (state : s.rd.currentState = .checkNextBuf) (rp : b.rp = s.rd.crntBuffCnt)
      (slot : ∀ j, b.slot b.rp ≠ .reading j)

/-- In `idle` the reader is at the slot whose turn it is, and has not begun to read it. -/
theorem Reader.of_idle {ps : List Packet} {b : Book} {s : TxPath} (h : Reader ps b s)
    (hs : s.rd.currentState = .idle) : b.rp = s.rd.crntBuffCnt ∧ (∀ j, b.slot b.rp ≠ .reading j) ∧
    (s.rd.crntBuffRdy = true → ∃ j p, b.slot b.rp = .full j ∧ ps[j]? = some p ∧
      s.rd.crntBuffPayloadSize = Word64.sizeField p.hdr.hdr0) := by
  cases h with
  | idle _ rp slot rdy => exact ⟨rp, slot, rdy⟩
  | reading state => simp [hs] at state
  | clear state | leave state | arrive state => simp [hs] at state

/-- The payload of packet `j` of the stream. -/
def payloadAt (ps : List Packet) (j : Nat) : List Word64 := (ps[j]?.map Packet.payload64).getD []

theorem payloadAt_eq {ps : List Packet} {j : Nat} {p : Packet} (h : ps[j]? = some p) :
    payloadAt ps j = p.payload64 := by
  rw [payloadAt, h]; rfl

/-- The words in the registers between the slots and `smpl_buff_q`. -/
def pending (s : TxPath) : List Word64 :=
  (if s.inst1.smplBuffValid then [s.inst1.smplBuffQ] else []) ++
  (if s.inst1.smplBuffValidInt then [(s.inst1.instx s.rd.crntBuffCnt).q] else [])

/-- The output registers run empty before the next packet is begun. -/
structure Flushed (s : TxPath) : Prop where
  idle : s.rd.currentState = .idle → s.inst1.smplBuffValid = false
  moved : s.rd.currentState = .idle ∨ s.rd.currentState = .checkNextBuf →
    s.inst1.smplBuffValidInt = false
  reading : s.rd.currentState = .rdBuff ∨ s.rd.currentState = .rdHold →
    s.inst1.smplBuffValid.toNat + s.inst1.smplBuffValidInt.toNat ≤ s.rd.rdCnt

/-- The words read out of the slots so far. -/
inductive ReadOut (ps : List Packet) (b : Book) (rdCnt : Nat) (l : List Word64) : Prop
  | reading (done : List Nat) (j : Nat) (slot : b.slot b.rp = .reading j)
      (kept : b.kept = done ++ [j])
      (words : l = done.flatMap (payloadAt ps) ++ (payloadAt ps j).take rdCnt)
  | between (slot : ∀ j, b.slot b.rp ≠ .reading j) (words : l = b.kept.flatMap (payloadAt ps))

structure Inv (ps : List Packet) (b : Book) (e : List Word64) (s : TxPath) : Prop where
  book : b.Ok
  order : b.InOrder
  bound : b.next ≤ ps.length
  writer : Writer ps b s
  reader : Reader ps b s
  slots : ∀ k, SlotIs ps s k (b.slot k)
  sizes : ∀ k, 4 ≤ s.inst1.pctBuffSize k
  rdy : ∀ k, s.inst1.pctBuffRdyInt k = true →
    (b.slot k).Back ∨ s.rd.currentState = .clrBuff ∧ k = s.rd.crntBuffCnt
  out : ReadOut ps b s.rd.rdCnt (e ++ pending s)
  flushed : Flushed s

namespace Inv

variable {ps : List Packet} {b : Book} {e : List Word64} {s : TxPath} {i : TxIn}
  {k : Fin buffCount} {j : Nat}

/-! ## What the writer and the reader do to a slot -/

/-- The writer leaves a slot alone that it is not filling. -/
theorem wr_quiet (I : Inv ps b e s) (hk : ∀ j, b.slot k ≠ .filling j) :
    s.wr.pctDataWrreq k = false ∧ s.wr.pctHdr0Valid k = false ∧ s.wr.pctHdr1Valid k = false := by
  cases I.writer with
  | away _ quiet => exact ⟨quiet.wrreq k, quiet.hdr0 k, quiet.hdr1 k⟩
  | carry j p _ slot carry cur =>
    have hne : (k == s.wr.currentBuffCnt) = false := by
      rw [cur, beq_eq_false_iff_ne]
      rintro rfl
      exact hk j slot
    exact ⟨by rw [carry.wrreq, hne, Bool.and_false], by rw [carry.hdr0, hne, Bool.and_false],
      by rw [carry.hdr1, hne, Bool.and_false]⟩

/-- The reader reads the slot at `rp`, and only when the book says so. -/
theorem rd_quiet (I : Inv ps b e s) (hk : ∀ j, b.slot k ≠ .reading j) :
    s.rd.pctBuffRdreq i.smplBuffAlmostFull k = false := by
  unfold P2dRd.pctBuffRdreq P2dRd.rdReqInt
  cases I.reader with
  | reading _ rp j _ slot =>
    have hne : (k == s.rd.crntBuffCnt) = false := by
      rw [← rp, beq_eq_false_iff_ne]
      rintro rfl
      exact hk j slot
    rw [hne, Bool.and_false]
  | idle state | clear state | leave state | arrive state => simp [state]

/-- A slot in use is not being cleared. -/
theorem clrN (I : Inv ps b e s) (hk : b.slot k ≠ .free) : s.rd.pctBuffClrN k = true := by
  unfold P2dRd.pctBuffClrN
  cases I.reader with
  | clear state _ free =>
    have hne : (k == s.rd.crntBuffCnt) = false := by
      rw [beq_eq_false_iff_ne]
      rintro rfl
      exact hk free
    simp [hne]
  | idle state | leave state | arrive state => simp [state]
  | reading state => rcases state with h | h <;> simp [h]

theorem visible (I : Inv ps b e s) (hk : b.slot k ≠ .free) :
    s.inst1.slotVisible k = (s.inst1.instx k).items := by
  rw [Packets2data.slotVisible, I.clrN hk]; rfl

/-- An empty slot behind the writer's front is a free one. -/
theorem free_of_wrempty (I : Inv ps b e s) (hk : ∀ j, b.slot k ≠ .filling j)
    (he : s.inst1.wrempty k = true) : b.slot k = .free := by
  have hv : s.inst1.slotVisible k = [] := List.isEmpty_iff.1 he
  have hs := I.slots k
  generalize hu : b.slot k = u at hs
  cases hs with
  | free => rfl
  | filling j => exact absurd hu (hk j)
  | full j p _ items =>
    rw [I.visible (by simp [hu]), items, ← List.length_eq_zero_iff, p.length_payload64] at hv
    have := p.two_le_len; omega
  | reading j p hat items =>
    have hr := I.book.eq_rp_of_reading hu
    subst hr
    cases I.reader with
    | reading _ _ j' p' slot at' _ _ lt =>
      rw [slot] at hu
      obtain rfl := SlotUse.reading.inj hu
      obtain rfl := Option.some.inj (hat.symm.trans at')
      rw [I.visible (by simp [slot]), items, ← List.length_eq_zero_iff, List.length_drop,
        p.length_payload64] at hv
      omega
    | idle _ _ slot | clear _ _ _ slot | leave _ _ slot | arrive _ _ slot => exact absurd hu (slot j)

/-! ## Every entry finds what it expects -/

theorem idle_of_takes (h : s.takes i = true ∨ s.discards i = true) :
    s.rd.currentState = .idle ∧ s.rd.crntBuffRdy = true := by
  unfold takes discards P2dRd.nextState at h
  cases hs : s.rd.currentState <;> simp only [hs] at h
  case idle =>
    cases hr : s.rd.crntBuffRdy
    · simp [hr] at h
    · exact ⟨rfl, rfl⟩
  all_goals simp at h

theorem fits (I : Inv ps b e s) : Fits b s i where
  opens h := by
    simp only [opens, Bool.and_eq_true, beq_iff_eq] at h
    cases I.writer with
    | away _ _ _ _ _ free => exact free (by simp [h.1])
    | carry _ _ _ _ carry => exact absurd h.1 carry.not_idle
  rejects h := by
    simp only [rejects, beq_iff_eq] at h
    cases I.writer with
    | away state => rw [h] at state; exact nomatch state
    | carry j _ _ slot => exact ⟨j, slot⟩
  finishes h := by
    simp only [finishes, Bool.and_eq_true, beq_iff_eq] at h
    cases I.writer with
    | away state => rw [h.1] at state; exact nomatch state
    | carry j _ _ slot => exact ⟨j, slot⟩
  takes h := by
    obtain ⟨hs, hr⟩ := idle_of_takes (.inl h)
    obtain ⟨j, _, hj, _⟩ := (I.reader.of_idle hs).2.2 hr
    exact ⟨j, hj⟩
  discards h := by
    obtain ⟨hs, hr⟩ := idle_of_takes (.inr h)
    obtain ⟨j, _, hj, _⟩ := (I.reader.of_idle hs).2.2 hr
    exact ⟨j, hj⟩
  releases h := by
    simp only [releases, Bool.and_eq_true, beq_iff_eq] at h
    cases I.reader with
    | reading _ _ j _ slot => exact ⟨j, slot⟩
    | idle state | clear state | leave state | arrive state => simp [h.1] at state

end Inv

end TxPath

end Tx
