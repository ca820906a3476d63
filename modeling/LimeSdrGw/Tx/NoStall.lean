import LimeSdrGw.Tx.Progress
/-
# The five packet lengths, and that nothing stalls

`pct_separate_fsm`, `one_pct_fifo`, `p2d_wr_fsm`, `packets2data` and `p2d_rd` each compute the length
of a packet from its header, with divisors of their own. `LengthsAgree` says what has to hold between
them and `lengthsAgree_iff` for which size fields it does; for packets of these sizes every level
that is waited for is reached, and the whole stream comes through.
-/
namespace Tx

open Clocked P2dWrFsm

/-- The five lengths fit together and the packet fits the FIFOs. -/
structure LengthsAgree (hdr : Word128) : Prop where
  /-- `one_pct_fifo` awaits the words `pct_separate_fsm` moves. -/
  awaited : OnePctFifo.pctWordsOf hdr = PctSeparateFsm.rdCntMaxOf hdr
  /-- The one-packet FIFO has room for them. -/
  fits : PctSeparateFsm.rdCntMaxOf hdr ≤ 256
  /-- `rd_cnt_max` comes in time to stop the reads: it is known when two words have been asked for. -/
  known : 3 ≤ PctSeparateFsm.rdCntMaxOf hdr
  /-- `p2d_wr_fsm` reads as many. -/
  moved : P2dWrFsm.rdCntMaxOf hdr = PctSeparateFsm.rdCntMaxOf hdr
  /-- Without the header and in 64-bit words that is what the slot awaits, -/
  slot : Packets2data.pctBuffSizeOf hdr.hdr0 hdr = 2 * (P2dWrFsm.rdCntMaxOf hdr - 1)
  /-- and what `p2d_rd` reads. -/
  read : P2dRd.rdCntMaxOf (Word64.sizeField hdr.hdr0) = Packets2data.pctBuffSizeOf hdr.hdr0 hdr

/-- They fit together for the size fields of `SizeOk` and for no other. -/
theorem lengthsAgree_iff (hdr : Word128) : LengthsAgree hdr ↔ hdr.SizeOk := by
  constructor
  · rintro ⟨-, fits, known, -, slot, -⟩
    simp only [Packets2data.pctBuffSizeOf, P2dWrFsm.rdCntMaxOf, PctSeparateFsm.rdCntMaxOf,
      Word128.sizeField_hdr0] at fits known slot
    unfold Word128.SizeOk
    by_cases h0 : hdr.sizeField = 0
    · exact .inl h0
    · rw [if_neg h0] at fits known
      rw [if_neg h0, if_neg h0] at slot
      omega
  · intro ok
    obtain ⟨p, rfl⟩ : ∃ p : Packet, p.hdr = hdr :=
      ⟨⟨hdr, List.replicate hdr.payloadWords 0, ok, List.length_replicate⟩, rfl⟩
    have h2 := p.two_le_len
    have h255 := p.len_le
    constructor
    · rw [OnePctFifo.pctWordsOf_hdr, PctSeparateFsm.rdCntMaxOf_hdr]
    · rw [PctSeparateFsm.rdCntMaxOf_hdr]; omega
    · rw [PctSeparateFsm.rdCntMaxOf_hdr]; omega
    · rw [P2dWrFsm.rdCntMaxOf_hdr, PctSeparateFsm.rdCntMaxOf_hdr]
    · rw [Packets2data.pctBuffSizeOf_hdr, P2dWrFsm.rdCntMaxOf_hdr]; rfl
    · rw [P2dRd.rdCntMaxOf_hdr, Packets2data.pctBuffSizeOf_hdr]

/-- With one payload word the third word of the stream, not part of the packet, is read as well. -/
example : ((TxPath.machine [0x1000, 1, 2, 3]).state (fun _ => ⟨false, true, 0, false⟩) 9).infifo = [3] := by
  decide +kernel

namespace TxPath

section levels

variable {ps : List Packet} {b : Book} {e : List Word64} {s : TxPath} {i : TxIn}

/-! ## The levels that are waited for -/

/-- When `pct_rdy` is seen, the one-packet FIFO holds exactly the packet. -/
theorem level_of_opens (I : Inv ps b e s) (h : s.opens = true) : ∃ p, ps[b.next]? = some p ∧
    s.inst0.inst1.items = p.words ∧ s.inst0.pctWords = p.words.length := by
  simp only [opens, Bool.and_eq_true, beq_iff_eq] at h
  cases I.writer with
  | carry _ _ _ _ carry => exact absurd h.1 carry.not_idle
  | away _ quiet feed =>
    cases feed with
    | idle h' => exact absurd h.2 (by simp [h'.notRdy])
    | drained h' => exact absurd h.2 (by simp [h'.notRdy])
    | load p rest eq load =>
      obtain ⟨hw, hwords⟩ := load.rdy h.2
      refine ⟨p, ?_, ?_, hwords⟩
      · have hd := congrArg List.head? eq
        rwa [List.head?_drop, List.head?_cons] at hd
      · rw [load.items, hw, ← Packet.length_words, List.take_length]

/-- When the reader begins with a slot, it holds exactly the payload: as many words as the slot
    awaited and as the reader is to read. -/
theorem level_of_takes (I : Inv ps b e s) (h : s.takes i = true) : ∃ p ∈ ps,
    (s.inst1.instx s.rd.crntBuffCnt).items = p.payload64 ∧
    s.inst1.pctBuffSize s.rd.crntBuffCnt = p.payload64.length ∧
    (s.step i).rd.rdCntMax = p.payload64.length ∧ (s.step i).rd.rdCnt = 0 := by
  obtain ⟨hs, hr⟩ := Inv.idle_of_takes (.inl h)
  obtain ⟨rp, -, rdy⟩ := I.reader.of_idle hs
  obtain ⟨j, p, hj, hat, hsize⟩ := rdy hr
  have hsl := I.slots s.rd.crntBuffCnt
  rw [← rp, hj, rp] at hsl
  cases hsl with
  | full _ p' hat' items tag =>
    obtain rfl := Option.some.inj (hat.symm.trans hat')
    refine ⟨p, List.mem_of_getElem? hat, items, ?_, ?_, ?_⟩
    · rw [tag.size, p.length_payload64]
    · show P2dRd.rdCntMaxOf s.rd.crntBuffPayloadSize = _
      rw [hsize, P2dRd.rdCntMaxOf_hdr, p.length_payload64]
    · simp [TxPath.step, Packets2data.step, P2dRd.step, hs]

/-- When the reader leaves a slot it has read as many words, and the slot is empty. -/
theorem level_of_releases (I : Inv ps b e s) (h : s.releases i = true) : ∃ p ∈ ps,
    s.rd.rdCnt + 1 = p.payload64.length ∧
    ((s.step i).inst1.instx s.rd.crntBuffCnt).items = [] := by
  obtain ⟨j, hj⟩ := I.fits.releases h
  cases I.reader with
  | reading _ rp j' p slot hat =>
    obtain rfl := SlotUse.reading.inj (slot.symm.trans hj)
    have hl := I.releases_rdCnt (i := i) hj hat
    rw [h] at hl
    simp only [Eq.comm (a := true), Bool.and_eq_true, beq_iff_eq] at hl
    have hcnt : s.rd.rdCnt + 1 = p.payload64.length := by
      have := p.two_le_len
      rw [p.length_payload64, hl.2]; omega
    refine ⟨p, List.mem_of_getElem? hat, hcnt, ?_⟩
    have hs := I.slots b.rp
    rw [hj] at hs
    cases hs with
    | reading _ p' hat' items =>
      obtain rfl := Option.some.inj (hat.symm.trans hat')
      rw [← rp, step_items_of_quiet (I.wr_quiet (by simp [hj])).1, I.visible (by simp [hj]), hl.1,
        items, Fifo.popped_true, List.tail_drop, hcnt, List.drop_length]
  | idle _ _ h | clear _ _ _ h | leave _ _ h | arrive _ _ h => exact absurd hj (h j)

end levels

/-! ## The whole stream comes through -/

section stream

variable {ps : List Packet} {x : Nat → TxIn} {c : Nat}

/-- `p2d_wr_fsm` has no packet in hand, `c` having been taken from the stream. -/
def AwayAt (ps : List Packet) (x : Nat → TxIn) (c n : Nat) : Prop :=
  Away (pathAt ps x n).wr.currentState ∧ (book ps x n).next = c

/-- It waits for the next slot. -/
def BlockedAt (ps : List Packet) (x : Nat → TxIn) (c n : Nat) : Prop :=
  (pathAt ps x n).wr.currentState = .checkNextBuf ∧ (book ps x n).next = c

/-- Nothing is taken from the stream outside `idle`. -/
theorem next_succ {n : Nat} (h : (pathAt ps x n).wr.currentState ≠ .idle) :
    (book ps x (n + 1)).next = (book ps x n).next := by
  rw [book_succ, note_next, opens, beq_eq_false_iff_ne.2 h]; rfl

theorem switch_leads : LeadsTo
    (fun n => (pathAt ps x n).wr.currentState = .switchCurrentBuff ∧ (book ps x n).next = c)
    (IdleAt ps x c) := by
  rintro n ⟨hs, hc⟩
  refine ⟨n + 1, Nat.le_succ n, ?_, (next_succ (by rw [hs]; nofun)).trans hc⟩
  show (pathAt ps x n).wr.nextState _ _ = _
  rw [nextState, hs]

theorem blocked_step {n : Nat} (h : BlockedAt ps x c n) :
    (BlockedAt ps x c (n + 1) ∧ (pathAt ps x n).wr.nextBuffRdy = false) ∨
      ((pathAt ps x (n + 1)).wr.currentState = .switchCurrentBuff ∧
        (book ps x (n + 1)).next = c) := by
  have hn : (book ps x (n + 1)).next = c :=
    (next_succ (by rw [h.1]; nofun)).trans h.2
  have hst : (pathAt ps x (n + 1)).wr.currentState =
      if (pathAt ps x n).wr.nextBuffRdy then .switchCurrentBuff else .checkNextBuf := by
    show (pathAt ps x n).wr.nextState _ _ = _
    rw [nextState, h.1]
  cases hr : (pathAt ps x n).wr.nextBuffRdy
  · rw [hr] at hst; exact .inl ⟨⟨hst, hn⟩, rfl⟩
  · rw [hr] at hst; exact .inr ⟨hst, hn⟩

/-- The slot that `p2d_wr_fsm` waits for, one clock later. -/
theorem blocked_wp {n : Nat} (h : BlockedAt ps x c n) :
    (book ps x (n + 1)).wp = (book ps x n).wp := by
  rw [book_succ, note_wp (inv ps x n).fits, finishes, h.1]; rfl

/-- A free slot lets it go on. -/
theorem unblocked_leads : LeadsTo
    (fun n => BlockedAt ps x c n ∧ (book ps x n).slot (book ps x n).wp = .free)
    (fun n => (pathAt ps x n).wr.currentState = .switchCurrentBuff ∧ (book ps x n).next = c) := by
  rintro n ⟨h, hfree⟩
  rcases blocked_step h with ⟨h', -⟩ | h'
  · have I := inv ps x n
    have hw : (pathAt ps x n).wr.nextBuffCnt = (book ps x n).wp := by
      cases I.writer with
      | away _ _ _ next => exact next
      | carry _ _ _ _ carry => exact absurd (h.1 ▸ .checkNextBuf) carry.not_away
    have hrdy : (pathAt ps x (n + 1)).wr.nextBuffRdy = true := by
      have hs := I.slots (book ps x n).wp
      rw [hfree] at hs
      cases hs with
      | free empty =>
        show (pathAt ps x n).inst1.wrempty (pathAt ps x n).wr.nextBuffCnt = true
        rw [hw, Packets2data.wrempty, empty]; rfl
    rcases blocked_step h' with ⟨-, hf⟩ | h''
    · rw [hrdy] at hf; cases hf
    · exact ⟨n + 2, by omega, h''⟩
  · exact ⟨n + 1, Nat.le_succ n, h'⟩

/-- A slot in use becomes free: it is behind the writer and its packet leaves. -/
theorem blocked_leads (U : Unsync ps x) (F : Fair x) : LeadsTo
    (fun n => BlockedAt ps x c n ∧ ((book ps x n).slot (book ps x n).wp).Back)
    (fun n => (BlockedAt ps x c n ∧ (book ps x n).slot (book ps x n).wp = .free) ∨
      ((pathAt ps x n).wr.currentState = .switchCurrentBuff ∧ (book ps x n).next = c)) := by
  have at_rp : ∀ n, ((book ps x n).slot (book ps x n).wp).Back →
      (book ps x n).rp = (book ps x n).wp := by
    intro n hb
    cases (inv ps x n).book.ring with
    | empty front _ _ => exact absurd hb front.not_back
    | one front _ _ => exact absurd hb front.not_back
    | full _ _ _ eq => exact eq
  refine LeadsTo.of_change (fun n => (book ps x n).emptied.length) ?_ ?_
  · rintro n ⟨h, hb⟩
    have I := inv ps x n
    have f := I.fits (i := x n)
    have hd := not_discards U n
    rcases blocked_step h with ⟨h', -⟩ | h'
    · have hwp := blocked_wp h
      generalize hu : (book ps x n).slot (book ps x n).wp = u at hb
      cases hb with
      | full j =>
        have hrel : (pathAt ps x n).releases (x n) = false := by
          cases hrel : (pathAt ps x n).releases (x n)
          · rfl
          · obtain ⟨l, hl⟩ := f.releases hrel
            rw [at_rp n (hu ▸ .full j), hu] at hl; exact nomatch hl
        refine .inl ⟨⟨h', ?_⟩, ?_⟩
        · rw [hwp, book_succ, note_slot_full f hu, hd]
          split
          · split
            · exact .reading j
            · exact .full j
          · exact .full j
        · rw [emptied_succ, hd, hrel]; rfl
      | reading j =>
        have hs : (book ps x (n + 1)).slot (book ps x (n + 1)).wp =
            if (pathAt ps x n).releases (x n) then .free else .reading j := by
          rw [hwp]; exact note_slot_reading I.book f hu
        cases hrel : (pathAt ps x n).releases (x n)
        · rw [hrel] at hs
          refine .inl ⟨⟨h', ?_⟩, ?_⟩
          · rw [hs]; exact .reading j
          · rw [emptied_succ, hd, hrel]; rfl
        · rw [hrel] at hs
          exact .inr (.inl ⟨h', hs⟩)
    · exact .inr (.inr h')
  · rintro n ⟨-, hb⟩
    have hrp : ((book ps x n).slot (book ps x n).rp).Back := by rw [at_rp n hb]; exact hb
    obtain ⟨m, hm, he⟩ := back_leads U F n ⟨hrp, rfl⟩
    exact ⟨m, hm, by omega⟩

/-- With no packet in hand the next one is found, if the wait for a slot ends. -/
theorem away_leads (supply : ∀ n, ∃ k, n ≤ k ∧ (x k).gap = false) (hc : c < ps.length) {n : Nat}
    (h : AwayAt ps x c n) (blocked : BlockedAt ps x c n → ∃ m, n ≤ m ∧ OpensAt ps x c m) :
    ∃ m, n ≤ m ∧ OpensAt ps x c m := by
  have idle := feed_leads (List.drop_eq_getElem_cons hc) supply
  obtain ⟨ha, hn⟩ := h
  generalize hs : (pathAt ps x n).wr.currentState = st at ha
  cases ha with
  | idle => exact idle n ⟨hs, hn⟩
  | switchCurrentBuff => exact (switch_leads.trans idle) n ⟨hs, hn⟩
  | checkNextBuf => exact blocked ⟨hs, hn⟩

/-- The slot at `wp` is free or behind the writer while the writer waits for it. -/
theorem BlockedAt.slot {n : Nat} (h : BlockedAt ps x c n) :
    (book ps x n).slot (book ps x n).wp = .free ∨ ((book ps x n).slot (book ps x n).wp).Back := by
  cases hu : (book ps x n).slot (book ps x n).wp with
  | free => exact .inl rfl
  | full j => exact .inr (.full j)
  | reading j => exact .inr (.reading j)
  | filling j =>
    cases (inv ps x n).writer with
    | away _ _ _ _ _ _ notFilling => exact absurd hu (notFilling j)
    | carry _ _ _ _ carry => exact absurd (h.1 ▸ .checkNextBuf) carry.not_away

/-- A packet that is found comes into its slot. -/
theorem opens_lead (U : Unsync ps x) :
    LeadsTo (OpensAt ps x c) (fun n => (book ps x n).filled.length = c + 1) := by
  rintro m ⟨ho, hmc⟩
  -- the packet is taken: from here on it is in hand
  have f := (inv ps x m).fits (i := x m)
  have hfree := f.opens ho
  have hfin : (pathAt ps x m).finishes = false := by
    simp only [opens, Bool.and_eq_true, beq_iff_eq] at ho
    simp [finishes, ho.1]
  have hfill' : FillingAt ps x c (m + 1) := by
    refine ⟨⟨(book ps x m).next, ?_⟩, ?_⟩
    · rw [book_succ, note_wp f, hfin, if_neg (by decide), note_slot_free f hfree,
        if_pos ⟨ho, rfl⟩]
    · have := (next_eq U m).1 fun j h => by rw [hfree] at h; cases h
      rw [filled_succ, hfin, ← this, hmc]; rfl
  obtain ⟨k, hk, hq⟩ := filling_leads U (m + 1) hfill'
  exact ⟨k, by omega, hq⟩

/-- The writer has a packet in hand or none. -/
theorem filling_or_away (U : Unsync ps x) {n : Nat} (hn : (book ps x n).filled.length = c) :
    FillingAt ps x c n ∨ AwayAt ps x c n := by
  by_cases hfill : ∃ j, (book ps x n).slot (book ps x n).wp = .filling j
  · exact .inl ⟨hfill, hn⟩
  · have hnot : ∀ j, (book ps x n).slot (book ps x n).wp ≠ .filling j := fun j h => hfill ⟨j, h⟩
    refine .inr ⟨?_, ((next_eq U n).1 hnot).trans hn⟩
    cases (inv ps x n).writer with
    | away state => exact state
    | carry j _ _ slot => exact absurd slot (hnot j)

/-- One more packet comes into a slot, if the wait for that ends. -/
theorem next_filled (U : Unsync ps x) (supply : ∀ n, ∃ k, n ≤ k ∧ (x k).gap = false)
    (hc : c < ps.length) {n : Nat} (hn : (book ps x n).filled.length = c)
    (blocked : BlockedAt ps x c n → ∃ m, n ≤ m ∧ OpensAt ps x c m) :
    ∃ m, n ≤ m ∧ (book ps x m).filled.length = c + 1 := by
  rcases filling_or_away U hn with h | h
  · exact filling_leads U n h
  · obtain ⟨m, hm, ho⟩ := away_leads supply hc h blocked
    obtain ⟨k, hk, hq⟩ := opens_lead U m ho
    exact ⟨k, Nat.le_trans hm hk, hq⟩

/-- A free slot is found. -/
theorem free_leads (supply : ∀ n, ∃ k, n ≤ k ∧ (x k).gap = false) (hc : c < ps.length) :
    LeadsTo (fun n => BlockedAt ps x c n ∧ (book ps x n).slot (book ps x n).wp = .free)
      (OpensAt ps x c) :=
  unblocked_leads.trans (switch_leads.trans (feed_leads (List.drop_eq_getElem_cons hc) supply))

/-- One more packet comes into a slot. -/
theorem filled_leads (U : Unsync ps x) (F : Fair x) (hc : c < ps.length) :
    LeadsTo (fun n => (book ps x n).filled.length = c)
      (fun n => (book ps x n).filled.length = c + 1) := by
  have free := free_leads F.supply hc
  have switch := (switch_leads (c := c)).trans (feed_leads (List.drop_eq_getElem_cons hc) F.supply)
  have blocked := (blocked_leads U F).trans (free.or switch)
  intro n hn
  refine next_filled U F.supply hc hn fun h => ?_
  rcases h.slot with hu | hu
  · exact free n ⟨h, hu⟩
  · exact blocked n ⟨h, hu⟩

/-- The packets that have left their slot are among those that came in. -/
theorem emptied_le (n : Nat) : (book ps x n).emptied.length ≤ (book ps x n).filled.length := by
  rw [(inv ps x n).order.held, List.length_append]
  omega

/-- What has come in and not left is in slot `rp`. -/
theorem back_of_lt {n : Nat} (h : (book ps x n).emptied.length < (book ps x n).filled.length) :
    ((book ps x n).slot (book ps x n).rp).Back := by
  have I := inv ps x n
  have hh := I.order.held
  cases I.book.ring with
  | one _ back eq => rw [eq]; exact back
  | full back _ _ eq => rw [eq]; exact back
  | empty front other eq =>
    have hnil : ((book ps x n).slot (book ps x n).wp).held = [] := by
      generalize (book ps x n).slot (book ps x n).wp = u at front
      cases front <;> rfl
    rw [eq, other, hnil] at hh
    rw [hh] at h
    simp [SlotUse.held] at h

/-- With at most one packet behind the writer, a slot is free for the next one. -/
theorem filled_leads_of_room (U : Unsync ps x) (supply : ∀ n, ∃ k, n ≤ k ∧ (x k).gap = false)
    (hc : c < ps.length) {n : Nat} (hn : (book ps x n).filled.length = c)
    (hroom : c ≤ (book ps x n).emptied.length + 1) :
    ∃ m, n ≤ m ∧ (book ps x m).filled.length = c + 1 := by
  refine next_filled U supply hc hn fun h => free_leads supply hc n ⟨h, h.slot.resolve_right ?_⟩
  intro hb
  have I := inv ps x n
  have hh := congrArg List.length I.order.held
  simp only [List.length_append] at hh
  cases I.book.ring with
  | empty front => exact front.not_back hb
  | one front => exact front.not_back hb
  | full back j other eq =>
    rw [eq, other] at hh
    have hone : ((book ps x n).slot (book ps x n).wp).held.length = 1 := by
      generalize (book ps x n).slot (book ps x n).wp = u at back
      cases back <;> rfl
    have hone' : (SlotUse.full j).held.length = 1 := rfl
    omega

theorem filled_mono {n m : Nat} (h : n ≤ m) :
    (book ps x n).filled.length ≤ (book ps x m).filled.length := by
  induction h with
  | refl => exact Nat.le_refl _
  | step _ ih => exact Nat.le_trans ih (by rw [filled_succ]; exact Nat.le_add_right _ _)

theorem emptied_mono {n m : Nat} (h : n ≤ m) :
    (book ps x n).emptied.length ≤ (book ps x m).emptied.length := by
  induction h with
  | refl => exact Nat.le_refl _
  | step _ ih => exact Nat.le_trans ih (by rw [emptied_succ]; exact Nat.le_add_right _ _)

theorem filled_le (U : Unsync ps x) (n : Nat) : (book ps x n).filled.length ≤ ps.length := by
  have hb := (inv ps x n).bound
  have hn := next_eq U n
  by_cases hfill : ∃ j, (book ps x n).slot (book ps x n).wp = .filling j
  · obtain ⟨j, hj⟩ := hfill
    have := hn.2 j hj
    omega
  · have := hn.1 fun j h => hfill ⟨j, h⟩
    omega

/-- Every packet comes into a slot and leaves it again. -/
theorem all_emptied (U : Unsync ps x) (F : Fair x) :
    ∃ N, (book ps x N).emptied.length = ps.length := by
  have filled : ∀ c ≤ ps.length, ∃ n, (book ps x n).filled.length = c := by
    intro c hc
    induction c with
    | zero => exact ⟨0, rfl⟩
    | succ c ih =>
      obtain ⟨n, hn⟩ := ih (by omega)
      obtain ⟨m, -, hm⟩ := filled_leads U F hc n hn
      exact ⟨m, hm⟩
  obtain ⟨N, hN⟩ := filled ps.length (Nat.le_refl _)
  have emptied : ∀ c ≤ ps.length, ∃ n, N ≤ n ∧ c ≤ (book ps x n).emptied.length := by
    intro c hc
    induction c with
    | zero => exact ⟨N, Nat.le_refl _, Nat.zero_le _⟩
    | succ c ih =>
      obtain ⟨n, hn, hcn⟩ := ih (by omega)
      by_cases hlt : c < (book ps x n).emptied.length
      · exact ⟨n, hn, hlt⟩
      · have hfull : (book ps x n).filled.length = ps.length :=
          Nat.le_antisymm (filled_le U n) (hN ▸ filled_mono hn)
        obtain ⟨m, hm, he⟩ := back_leads U F n ⟨back_of_lt (by omega), rfl⟩
        exact ⟨m, by omega, by omega⟩
  obtain ⟨n, -, hn⟩ := emptied ps.length (Nat.le_refl _)
  exact ⟨n, Nat.le_antisymm (Nat.le_trans (emptied_le n) (filled_le U n)) hn⟩

/-! ### After the last packet -/

/-- Every packet has left its slot. -/
structure EmptiedAll (ps : List Packet) (b : Book) : Prop where
  next : b.next = ps.length
  slot : ∀ k, b.slot k = .free

theorem emptiedAll (U : Unsync ps x) {n : Nat}
    (h : (book ps x n).emptied.length = ps.length) : EmptiedAll ps (book ps x n) := by
  have I := inv ps x n
  have hf : (book ps x n).filled.length = ps.length :=
    Nat.le_antisymm (filled_le U n) (h ▸ emptied_le n)
  have hnf : ∀ j, (book ps x n).slot (book ps x n).wp ≠ .filling j := by
    intro j hj
    have := (next_eq U n).2 j hj
    have := I.bound
    omega
  refine ⟨((next_eq U n).1 hnf).trans hf, ?_⟩
  have hh := congrArg List.length I.order.held
  rw [List.length_append, h, hf, List.length_append] at hh
  have back_false : ∀ {k}, ((book ps x n).slot k).Back →
      0 < ((book ps x n).slot k).held.length := by
    intro k hb
    generalize (book ps x n).slot k = u at hb
    cases hb <;> exact Nat.succ_pos _
  cases I.book.ring with
  | one _ back eq => rw [← eq] at back; have := back_false back; omega
  | full back _ _ eq => rw [← eq] at back; have := back_false back; omega
  | empty front other eq =>
    intro k
    by_cases hk : k = (book ps x n).wp
    · rw [hk]
      generalize hu : (book ps x n).slot (book ps x n).wp = u at front
      cases front with
      | free => rfl
      | filling j => exact absurd hu (hnf j)
    · rw [eq_nextBuff_of_ne hk, other]

/-- Clocks until the reader is back in `idle`. -/
def leaveRank (s : RdState) : Nat :=
  match s with
  | .clrBuff => 3
  | .switchNextBuff => 2
  | .checkNextBuf => 1
  | .idle | .rdBuff | .rdHold => 0

/-- With all slots free the reader goes back to `idle` and stays there. -/
theorem reader_rests {n : Nat} (h : ∀ k, (book ps x n).slot k = .free) :
    (pathAt ps x (n + 1)).rd.currentState = .idle ∨
      leaveRank (pathAt ps x (n + 1)).rd.currentState <
        leaveRank (pathAt ps x n).rd.currentState := by
  have hst : (pathAt ps x (n + 1)).rd.currentState =
    (pathAt ps x n).rd.nextState (x n).pctSyncDis (x n).smplBuffAlmostFull := rfl
  rw [hst, P2dRd.nextState]
  cases (inv ps x n).reader with
  | reading _ _ j _ slot => rw [h] at slot; cases slot
  | clear state => right; simp [state, leaveRank]
  | leave state => right; simp [state, leaveRank]
  | arrive state => left; rw [state]
  | idle state _ _ rdy =>
    left
    have hr : (pathAt ps x n).rd.crntBuffRdy = false := by
      cases hr : (pathAt ps x n).rd.crntBuffRdy
      · rfl
      · obtain ⟨j, _, hj, _⟩ := rdy hr
        rw [h] at hj; cases hj
    rw [state, hr]; rfl

/-- The whole stream has come through, and the path is ready for more. -/
structure Through (ps : List Packet) (b : Book) (e : List Word64) (s : TxPath) : Prop where
  emitted : e = ps.flatMap Packet.payload64
  lost : b.lost = []
  infifo : s.infifo = []
  slots : ∀ k, (s.inst1.instx k).items = []
  reader : s.rd.currentState = .idle

/-- A sorted arrangement of `0 .. n-1` is `0 .. n-1`. -/
theorem eq_range_of_perm {l : List Nat} {n : Nat} (hs : l.Pairwise (· < ·))
    (hp : l.Perm (List.range n)) : l = List.range n :=
  hp.eq_of_pairwise (fun _ _ _ _ h h' => absurd (Nat.lt_trans h h') (Nat.lt_irrefl _)) hs
    List.pairwise_lt_range

theorem flatMap_payloadAt (ps : List Packet) :
    (List.range ps.length).flatMap (payloadAt ps) = ps.flatMap Packet.payload64 := by
  have hmap : (List.range ps.length).map (payloadAt ps) = ps.map Packet.payload64 := by
    apply List.ext_getElem
    · simp
    · intro k _ hk
      have hk' : k < ps.length := by simpa using hk
      simp [payloadAt, List.getElem?_eq_getElem hk']
  rw [List.flatMap_def, hmap, ← List.flatMap_def]

theorem through (U : Unsync ps x) {n : Nat} (h : EmptiedAll ps (book ps x n))
    (hidle : (pathAt ps x n).rd.currentState = .idle) :
    Through ps (book ps x n) (emitted ps x n) (pathAt ps x n) := by
  have I := inv ps x n
  have T := tx_packet_integrity ps x n
  have hl := lost_eq_nil U n
  have hwait : (book ps x n).waiting = [] := by
    rw [Book.waiting, h.slot, h.slot]; rfl
  have hkept : (book ps x n).kept = List.range ps.length := by
    have hp := T.places
    rw [hwait, hl, List.append_nil, List.append_nil, h.next] at hp
    exact eq_range_of_perm T.order hp
  refine ⟨?_, hl, ?_, fun k => ?_, hidle⟩
  · rw [T.idle hidle, hkept, flatMap_payloadAt]
  · have hdrop : ps.drop (book ps x n).next = [] := by rw [h.next, List.drop_length]
    cases I.writer with
    | carry _ _ _ slot => rw [h.slot] at slot; cases slot
    | away _ _ feed =>
      rw [hdrop] at feed
      cases feed with
      | idle h' => exact h'.infifo
      | drained h' => exact h'.infifo
      | load _ _ eq _ => cases eq
  · have hs := I.slots k
    rw [h.slot] at hs
    cases hs with
    | free empty =>
      have hc : (pathAt ps x n).rd.pctBuffClrN k = true := by
        simp [P2dRd.pctBuffClrN, hidle]
      rw [Packets2data.slotVisible, hc] at empty
      exact empty

/-- The whole stream comes through. -/
theorem comes_through (U : Unsync ps x) (F : Fair x) : ∃ N, ∀ n, N ≤ n →
    Through ps (book ps x n) (emitted ps x n) (pathAt ps x n) := by
  obtain ⟨N, hN⟩ := all_emptied U F
  have all : ∀ n, N ≤ n → EmptiedAll ps (book ps x n) := fun n hn =>
    emptiedAll U (Nat.le_antisymm (Nat.le_trans (emptied_le n) (filled_le U n))
      (hN ▸ emptied_mono hn))
  have rest : LeadsTo (fun n => N ≤ n)
      (fun n => N ≤ n ∧ (pathAt ps x n).rd.currentState = .idle) := by
    refine LeadsTo.variant (fun n => leaveRank (pathAt ps x n).rd.currentState) ?_
    intro n hn
    refine ⟨n + 1, Nat.le_succ n, ?_⟩
    rcases reader_rests (all n hn).slot with hi | hlt
    · exact .inl ⟨by omega, hi⟩
    · exact .inr ⟨by omega, hlt⟩
  obtain ⟨M, hM, hNM, hidle⟩ := rest N (Nat.le_refl N)
  refine ⟨M, fun n hn => through U (all n (by omega)) ?_⟩
  induction hn with
  | refl => exact hidle
  | @step n hn ih =>
    rcases reader_rests (all n (Nat.le_trans hNM hn)).slot with hi | hlt
    · exact hi
    · rw [ih] at hlt; exact absurd hlt (Nat.not_lt_zero _)

/-- What is awaited along the run is what is there. -/
structure Levels (ps : List Packet) (b : Book) (s s' : TxPath) (i : TxIn) : Prop where
  /-- `pct_rdy`: the one-packet FIFO holds exactly the next packet. -/
  one : s.opens = true → ∃ p, ps[b.next]? = some p ∧
    s.inst0.inst1.items = p.words ∧ s.inst0.pctWords = p.words.length
  /-- The slot holds exactly the payload when its reading begins. -/
  slot : s.takes i = true → ∃ p ∈ ps, (s.inst1.instx s.rd.crntBuffCnt).items = p.payload64 ∧
    s.inst1.pctBuffSize s.rd.crntBuffCnt = p.payload64.length ∧
    s'.rd.rdCntMax = p.payload64.length ∧ s'.rd.rdCnt = 0
  /-- Nothing is left in it when the reading ends. -/
  left : s.releases i = true → ∃ p ∈ ps, s.rd.rdCnt + 1 = p.payload64.length ∧
    (s'.inst1.instx s.rd.crntBuffCnt).items = []

/-- TX size agreement: for every packet of an admissible size the five lengths agree, the levels
    waited for are reached exactly, and with synchronisation disabled, a supply of words and room in
    the sample FIFO the whole stream comes through. -/
theorem tx_size_agreement (U : Unsync ps x) (F : Fair x) :
    (∀ p ∈ ps, LengthsAgree p.hdr) ∧
    (∀ n, Levels ps (book ps x n) (pathAt ps x n) (pathAt ps x (n + 1)) (x n)) ∧
    ∃ N, ∀ n, N ≤ n → Through ps (book ps x n) (emitted ps x n) (pathAt ps x n) :=
  ⟨fun p _ => (lengthsAgree_iff p.hdr).2 p.sizeOk,
    fun n => ⟨level_of_opens (inv ps x n), level_of_takes (inv ps x n),
      level_of_releases (inv ps x n)⟩,
    comes_through U F⟩

/-- Words without gaps, room in the sample FIFO, synchronisation disabled by the input. -/
def openFlow : TxIn := ⟨false, true, 0, false⟩

theorem fair_openFlow : Fair fun _ => openFlow :=
  ⟨fun n => ⟨n, Nat.le_refl n, rfl⟩, fun n => ⟨n, Nat.le_refl n, rfl, rfl⟩⟩

/-- A packet with 32 bytes of payload. -/
def packet32 : Packet := ⟨0x2000, [0x1_0000000000000002, 3], by decide, by decide⟩

theorem tx_size_agreement_32 : ∃ N, ∀ n, N ≤ n →
    emitted [packet32, packet32] (fun _ => openFlow) n = [2, 1, 3, 0, 2, 1, 3, 0] := by
  have hu : Unsync [packet32, packet32] fun _ => openFlow := fun _ _ _ => .inl rfl
  obtain ⟨-, -, N, h⟩ := tx_size_agreement hu fair_openFlow
  refine ⟨N, fun n hn => (h n hn).emitted.trans ?_⟩
  decide

end stream

/-! ## A size on which the lengths disagree -/

/-- All words are in, the slot of the packet awaits another level than it has. -/
structure Stuck (s : TxPath) : Prop where
  feed : Feed.Idle [] s
  writer : s.wr.currentState = .idle
  quiet : s.wr.Quiet
  reader : s.rd.currentState = .idle
  cur : s.rd.crntBuffCnt = 0
  ready : s.rd.crntBuffRdy = false
  readyInt : s.inst1.pctBuffRdyInt 0 = false
  level : (s.inst1.instx 0).items.length ≠ s.inst1.pctBuffSize 0
  output : s.inst1.smplBuffValid = false ∧ s.inst1.smplBuffValidInt = false

theorem Stuck.step {s : TxPath} (h : Stuck s) (i : TxIn) : Stuck (s.step i) := by
  have hclr : s.wr.currentState ≠ .clrFifo := by rw [h.writer]; nofun
  have he : s.infifoRdempty i = true := by rw [infifoRdempty, h.feed.infifo, Bool.or_eq_true]; exact .inr rfl
  have hrq : s.rd.rdReqInt i.smplBuffAlmostFull = false := by simp [P2dRd.rdReqInt, h.reader]
  have hc : s.rd.pctBuffClrN 0 = true := by simp [P2dRd.pctBuffClrN, h.reader]
  have hitems : ((s.step i).inst1.instx 0).items = (s.inst1.instx 0).items := by
    rw [step_items_of_quiet (h.quiet.wrreq 0), Packets2data.slotVisible, hc, P2dRd.pctBuffRdreq, hrq]
    rfl
  have hsize : (s.step i).inst1.pctBuffSize 0 = s.inst1.pctBuffSize 0 := by
    simp [TxPath.step, Packets2data.step, h.quiet.hdr0 0]
  refine ⟨h.feed.stay h.quiet.rdreq hclr he, ?_, ?_, ?_, ?_, ?_, ?_, ?_, ?_, ?_⟩
  · show s.wr.nextState _ s.inst0.pctRdyReg = _
    rw [nextState, h.writer, h.feed.notRdy]; rfl
  · exact (h.quiet.step (h.writer ▸ .idle) fun _ => h.feed.notRdy).2
  · show s.rd.nextState _ _ = _
    rw [P2dRd.nextState, h.reader, h.ready]; rfl
  · show (if s.rd.currentState = .switchNextBuff then _ else s.rd.crntBuffCnt) = 0
    rw [h.reader, h.cur]; rfl
  · show s.inst1.pctBuffRdyInt s.rd.crntBuffCnt = false
    rw [h.cur, h.readyInt]
  · have : (s.step i).inst1.pctBuffRdyInt 0 =
        ((s.inst1.slotVisible 0).length == s.inst1.pctBuffSize 0) := by
      simp [TxPath.step, Packets2data.step]
    rw [this, Packets2data.slotVisible, hc, beq_eq_false_iff_ne]
    exact h.level
  · rw [hitems, hsize]; exact h.level
  · exact h.output.2
  · rw [step_validInt, hrq]

/-- A packet whose size field says 40 bytes: 128-bit words of the stream, header first. -/
def size40 : List Word128 := [0x2800, 1, 2]

theorem size40_stuck : Stuck ((machine size40).state (fun _ => openFlow) 30) where
  feed := by
    refine ⟨?_, ?_, ?_, ?_, ?_, ⟨?_, ?_, ?_⟩, ?_, ?_, ?_⟩ <;> decide +kernel
  writer := by decide +kernel
  quiet := by
    refine ⟨?_, ?_, ?_, ?_, ?_⟩ <;> decide +kernel
  reader := by decide +kernel
  cur := by decide +kernel
  ready := by decide +kernel
  readyInt := by decide +kernel
  level := by decide +kernel
  output := by decide +kernel

/-- With a size field of 40 bytes all lengths but one come to 2 payload words; the slot, filled with
    their 4 halves, awaits 5 and the packet is never read. -/
theorem size40_stalls : Word128.sizeField 0x2800 = 40 ∧ Word128.payloadWords 0x2800 = 2 ∧
    Fair (fun _ => openFlow) ∧ ∀ n, 30 ≤ n →
      ((machine size40).state (fun _ => openFlow) n).infifo = [] ∧
      (((machine size40).state (fun _ => openFlow) n).inst1.instx 0).items.length ≠
        ((machine size40).state (fun _ => openFlow) n).inst1.pctBuffSize 0 ∧
      (machine size40).log presented (fun _ => openFlow) n = [] := by
  refine ⟨by decide, by decide, fair_openFlow, fun n hn => ?_⟩
  have key : Stuck ((machine size40).state (fun _ => openFlow) n) ∧
      (machine size40).log presented (fun _ => openFlow) n = [] := by
    induction hn with
    | refl => exact ⟨size40_stuck, by decide +kernel⟩
    | @step n _ ih =>
      refine ⟨ih.1.step _, ?_⟩
      rw [Machine.log_succ, ih.2, presented, ih.1.output.1]; rfl
  exact ⟨key.1.feed.infifo, key.1.level, key.2⟩

end TxPath

end Tx
