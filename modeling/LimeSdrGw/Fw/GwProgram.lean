import LimeSdrGw.Fw.GwWrite
/-
# What ends up in the flash

The pages are programmed in order and their sectors erased in time. The bytes are the host's, but for
a portion that does not fit into the page: its second part is taken from the beginning of the portion
again (`written`). So the flash holds the bitstream exactly when no portion is changed by that, and the
24-bit addresses last.
-/
namespace Fw

open GwState

/-- A bitstream in portions, from the one numbered 0 to the closing packet. -/
structure Upload where
  portions : List GwPacket
  close : GwPacket
  mode : ∀ p ∈ portions ++ [close], p.progMode = 1
  cnt : ∀ p ∈ portions, 1 ≤ p.dataCnt ∧ p.dataCnt ≤ 32
  closing : close.dataCnt = 0
  first : ∀ p ∈ (portions ++ [close]).head?, p.currentPortion = 0
  later : ∀ p ∈ (portions ++ [close]).tail, p.currentPortion ≠ 0

namespace Upload

def packets (u : Upload) : List GwPacket := u.portions ++ [u.close]

/-- The bitstream. -/
def bytes (u : Upload) : List UInt8 := u.portions.flatMap GwPacket.data

end Upload

/-- The flash is programmed with `stream`. -/
structure Programmed (stream : List UInt8) (ops : List FlashOp) : Prop where
  /-- Pages 0, 1, 2, …, each once. -/
  pages : (ops.flatMap FlashOp.programmed).map Prod.fst =
    List.range ((stream.length + (flashPageSize - 1)) / flashPageSize)
  /-- From the start of the area on they hold the bytes. -/
  bytes : stream <+: (ops.flatMap FlashOp.programmed).flatMap fun p => p.2.toList
  /-- Every sector in use is erased, and once only, -/
  sectors : ops.flatMap FlashOp.erased =
    List.range ((stream.length + (flashSectorSize - 1)) / flashSectorSize)
  /-- not after a page of it has been programmed. -/
  before : ops.Pairwise fun a b => ∀ p ∈ a.programmed, ∀ sector ∈ b.erased,
    p.1 / pagesPerSector ≠ sector

/-! ## The commands for a row of pages -/

/-- The commands for page `k`. -/
def pageOps (k : Nat) (c : Vector UInt8 flashPageSize) : List FlashOp :=
  (if k % 256 = 0 then [.erase (.of (k / 256 % 256 * flashSectorSize))] else []) ++
  [.program (.of (k * flashPageSize)) c]

/-- The commands for the pages from `k` on. -/
def script (k : Nat) : List (Vector UInt8 flashPageSize) → List FlashOp
  | [] => []
  | c :: cs => pageOps k c ++ script (k + 1) cs

section script

variable {k : Nat} {c : Vector UInt8 flashPageSize} {cs ds : List (Vector UInt8 flashPageSize)}

theorem script_append : script k (cs ++ ds) = script k cs ++ script (k + cs.length) ds := by
  induction cs generalizing k with
  | nil => rfl
  | cons c cs ih =>
    rw [List.cons_append, script, script, ih, List.append_assoc, List.length_cons]
    congr 3
    omega

theorem programmed_pageOps : (pageOps k c).flatMap FlashOp.programmed = [(k % 65536, c)] := by
  rw [pageOps, List.flatMap_append]
  split <;> simp [FlashOp.programmed, page_of]

theorem erased_pageOps : (pageOps k c).flatMap FlashOp.erased =
    if k % 256 = 0 then [k / 256 % 256] else [] := by
  rw [pageOps, List.flatMap_append]
  split <;> simp [FlashOp.erased, sector_of]

theorem programmed_script (k : Nat) (cs : List (Vector UInt8 flashPageSize)) :
    ((script k cs).flatMap FlashOp.programmed).map Prod.fst =
      (List.range' k cs.length).map (· % 65536) ∧
    ((script k cs).flatMap FlashOp.programmed).map Prod.snd = cs := by
  induction cs generalizing k with
  | nil => exact ⟨rfl, rfl⟩
  | cons c cs ih =>
    obtain ⟨ih1, ih2⟩ := ih (k := k + 1)
    constructor
    · rw [script, List.flatMap_append, programmed_pageOps, List.map_append, ih1,
        List.length_cons, List.range'_succ]
      rfl
    · rw [script, List.flatMap_append, programmed_pageOps, List.map_append, ih2]
      rfl

theorem erased_script : (script k cs).flatMap FlashOp.erased =
    (List.range' ((k + 255) / 256) ((k + cs.length + 255) / 256 - (k + 255) / 256)).map
      (· % 256) := by
  induction cs generalizing k with
  | nil => simp [script]
  | cons c cs ih =>
    rw [script, List.flatMap_append, erased_pageOps, ih, List.length_cons]
    split
    next h0 =>
      have hk : (k + 255) / 256 = k / 256 := by omega
      have hk' : (k + 1 + 255) / 256 = k / 256 + 1 := by omega
      have hn : (k + (cs.length + 1) + 255) / 256 - k / 256 =
        ((k + 1 + cs.length + 255) / 256 - (k / 256 + 1)) + 1 := by omega
      rw [hk, hk', hn, List.range'_succ]
      rfl
    next h0 =>
      have hk' : (k + 1 + 255) / 256 = (k + 255) / 256 := by omega
      have hn : k + (cs.length + 1) + 255 = k + 1 + cs.length + 255 := by omega
      rw [hk', hn, List.nil_append]

/-- Every sector that the script erases begins with a page of the script. -/
theorem of_mem_erased {op : FlashOp} {e : Nat} (hop : op ∈ script k cs) (he : e ∈ op.erased) :
    ∃ i, k ≤ i ∧ i < k + cs.length ∧ i % 256 = 0 ∧ e = i / 256 % 256 := by
  induction cs generalizing k with
  | nil => exact nomatch hop
  | cons c cs ih =>
    rw [script, List.mem_append] at hop
    rw [List.length_cons]
    rcases hop with hop | hop
    · have hmem : e ∈ (pageOps k c).flatMap FlashOp.erased := List.mem_flatMap.2 ⟨op, hop, he⟩
      rw [erased_pageOps] at hmem
      split at hmem
      next h0 => exact ⟨k, Nat.le_refl k, by omega, h0, List.mem_singleton.1 hmem⟩
      next => exact nomatch hmem
    · obtain ⟨i, h1, h2, h3⟩ := ih hop
      exact ⟨i, by omega, by omega, h3⟩

theorem before_script (h : k + cs.length ≤ 65536) :
    (script k cs).Pairwise fun a b => ∀ p ∈ a.programmed, ∀ sector ∈ b.erased,
      p.1 / pagesPerSector ≠ sector := by
  induction cs generalizing k with
  | nil => exact List.Pairwise.nil
  | cons c cs ih =>
    rw [List.length_cons] at h
    rw [script, List.pairwise_append]
    refine ⟨?_, ih (by omega), ?_⟩
    · rw [pageOps]
      split
      · rw [List.singleton_append, List.pairwise_pair]
        intro p hp
        exact nomatch hp
      · exact List.pairwise_singleton _ _
    · -- a sector erased later begins with a later page
      intro a ha b hb p hp e he
      have hmem : p ∈ (pageOps k c).flatMap FlashOp.programmed := List.mem_flatMap.2 ⟨a, ha, hp⟩
      rw [programmed_pageOps, List.mem_singleton] at hmem
      obtain ⟨i, h1, h2, h3, rfl⟩ := of_mem_erased hb he
      rw [hmem]
      dsimp only [pagesPerSector]
      omega

end script

/-! ## The page buffer -/

section memcpy

variable {m : Nat} {dst : Vector UInt8 m} {off n : Nat} {src : List UInt8}

theorem getElem_memcpy {i : Nat} (hi : i < m) : (memcpy dst off src n)[i] =
    if off ≤ i ∧ i < off + n then src.getD (i - off) 0 else dst[i] := by
  simp [memcpy, Vector.get]

theorem memcpy_take (hn : off + n ≤ m) (hs : n ≤ src.length) :
    (memcpy dst off src n).toList.take (off + n) = dst.toList.take off ++ src.take n := by
  have hd : (dst.toList.take off).length = off := by
    rw [List.length_take, Vector.length_toList]
    omega
  apply List.ext_getElem
  · simp only [List.length_take, List.length_append, Vector.length_toList]
    omega
  · intro i hi hi'
    have hlt : i < off + n := by
      rw [List.length_take] at hi
      omega
    rw [List.getElem_take, Vector.getElem_toList, getElem_memcpy]
    by_cases hoff : i < off
    · rw [if_neg (by omega), List.getElem_append_left (by omega), List.getElem_take,
        Vector.getElem_toList]
    · rw [if_pos (by omega), List.getElem_append_right (by omega), List.getElem_take]
      simp only [hd, List.getD_eq_getElem?_getD]
      rw [List.getElem?_eq_getElem (by omega)]
      rfl

/-- The copy reaches the end. -/
theorem memcpy_full (hn : off + n = m) (hs : n ≤ src.length) :
    (memcpy dst off src n).toList = dst.toList.take off ++ src.take n := by
  rw [← memcpy_take (by omega) hs, List.take_of_length_le]
  rw [Vector.length_toList]
  omega

end memcpy

section portions

/-- What a portion that comes at byte `pos` of the stream leaves in the pages. -/
def written (pos : Nat) (d : List UInt8) : List UInt8 :=
  if flashPageSize < pos % flashPageSize + d.length then
    d.take (flashPageSize - pos % flashPageSize) ++
    d.take (d.length - (flashPageSize - pos % flashPageSize))
  else d

/-- What a sequence of portions leaves. -/
def allWritten (pos : Nat) : List (List UInt8) → List UInt8
  | [] => []
  | d :: ds => written pos d ++ allWritten (pos + d.length) ds

@[simp] theorem length_written (pos : Nat) (d : List UInt8) : (written pos d).length = d.length := by
  unfold written
  split
  · have hm : pos % flashPageSize < flashPageSize := Nat.mod_lt _ (by decide)
    rw [List.length_append, List.length_take, List.length_take]
    omega
  · rfl

theorem length_allWritten (pos : Nat) (ds : List (List UInt8)) :
    (allWritten pos ds).length = ds.flatten.length := by
  induction ds generalizing pos with
  | nil => rfl
  | cons d ds ih => rw [allWritten, List.length_append, length_written, ih, List.flatten_cons,
      List.length_append]

/-- The part of the portion that goes to the next page looks like its beginning. -/
def Repeats (pos : Nat) (d : List UInt8) : Prop :=
  flashPageSize < pos % flashPageSize + d.length →
    d.drop (flashPageSize - pos % flashPageSize) =
      d.take (d.length - (flashPageSize - pos % flashPageSize))

theorem written_eq_iff (pos : Nat) (d : List UInt8) : written pos d = d ↔ Repeats pos d := by
  unfold written Repeats
  constructor
  · intro h hlt
    rw [if_pos hlt] at h
    have hsplit := List.take_append_drop (flashPageSize - pos % flashPageSize) d
    exact List.append_cancel_left (hsplit.trans h.symm)
  · intro h
    split
    next hlt => rw [← h hlt, List.take_append_drop]
    next => rfl

theorem allWritten_eq_iff (pos : Nat) (ds : List (List UInt8)) : allWritten pos ds = ds.flatten ↔
    ∀ l d r, ds = l ++ d :: r → Repeats (pos + l.flatten.length) d := by
  induction ds generalizing pos with
  | nil =>
    constructor
    · intro _ l d r h
      simp at h
    · intro _
      rfl
  | cons d ds ih =>
    rw [allWritten, List.flatten_cons]
    constructor
    · intro h l e r hl
      obtain ⟨h1, h2⟩ := List.append_inj h (length_written pos d)
      cases l with
      | nil =>
        obtain ⟨rfl, -⟩ := List.cons.inj hl
        exact (written_eq_iff pos d).1 h1
      | cons f l =>
        obtain ⟨rfl, hl'⟩ := List.cons.inj hl
        have := (ih (pos + d.length)).1 h2 l e r hl'
        rwa [List.flatten_cons, List.length_append, ← Nat.add_assoc]
    · intro h
      congr 1
      · exact (written_eq_iff pos d).2 (h [] d ds rfl)
      · apply (ih (pos + d.length)).2
        intro l e r hl
        have := h (d :: l) e r (by rw [hl]; rfl)
        rwa [List.flatten_cons, List.length_append, ← Nat.add_assoc] at this

end portions

/-! ## The handler -/

section handler

variable {s : GwState} {p : GwPacket} {pages : List (Vector UInt8 flashPageSize)} {bytes : List UInt8}

/-- The handler has programmed `pages`; together with the buffer they make up `bytes`. -/
structure Holding (s : GwState) (pages : List (Vector UInt8 flashPageSize)) (bytes : List UInt8) :
    Prop where
  page : s.flashPage = pages.length
  lt : s.flashPageDataCnt < flashPageSize
  bytes : bytes = pages.flatMap Vector.toList ++ s.flashPageData.toList.take s.flashPageDataCnt

theorem length_flatMap_toList (pages : List (Vector UInt8 flashPageSize)) :
    (pages.flatMap Vector.toList).length = flashPageSize * pages.length := by
  induction pages with
  | nil => rfl
  | cons c cs ih =>
    rw [List.flatMap_cons, List.length_append, ih, Vector.length_toList, List.length_cons,
      Nat.mul_add, Nat.mul_one, Nat.add_comm]

theorem Holding.length (h : Holding s pages bytes) :
    bytes.length = flashPageSize * pages.length + s.flashPageDataCnt := by
  have := h.lt
  rw [h.bytes, List.length_append, length_flatMap_toList, List.length_take, Vector.length_toList]
  omega

theorem Holding.mod (h : Holding s pages bytes) :
    bytes.length % flashPageSize = s.flashPageDataCnt := by
  rw [h.length, Nat.mul_add_mod, Nat.mod_eq_of_lt h.lt]

theorem GwPacket.length_source (p : GwPacket) : p.source.length = 32 := by
  simp [GwPacket.source]

theorem GwPacket.length_data (h : p.dataCnt ≤ 32) : p.data.length = p.dataCnt := by
  rw [GwPacket.data, List.length_take, p.length_source]
  omega

/-- The counting at the end leaves the pages alone. -/
theorem count_holding (h : Holding s pages bytes) (hn : p.dataCnt ≠ 0) :
    Holding (s.count p).1 pages bytes := by
  have hc : (s.count p).1 = { s with fpgaByte := (s.fpgaByte + p.dataCnt) % 2 ^ 32 } := by
    unfold GwState.count
    simp only [hn, if_false]
    split <;> rfl
  rw [hc]
  exact ⟨h.page, h.lt, h.bytes⟩

/-- A full page is programmed, with its sector erased before when it is the first one of it. -/
theorem writePage_full (hc : s.flashPageDataCnt = flashPageSize) :
    s.writePage .success =
      (some { s with
        flashPage := s.flashPage + 1, flashPageDataCnt := 0, flashDataCntFree := flashPageSize },
        pageOps s.flashPage s.flashPageData) := by
  unfold GwState.writePage
  rw [if_pos (Nat.le_of_eq hc.symm)]
  simp only [flashLayoutFpgaBitstream, Nat.zero_add, Nat.zero_mul, flashSpiTransfer,
    FlashStatus.success, if_true, pageOps, pagesPerSector]
  split <;> simp [flashSpiEraseSector]

theorem writePage_open (hc : s.flashPageDataCnt < flashPageSize) :
    s.writePage .success = (some s, []) := by
  unfold GwState.writePage
  rw [if_neg (Nat.not_le_of_lt hc)]

/-- A packet in the flash-writing mode, no flash operation failing. -/
theorem gwWr_eq {w : GwState} {ops : List FlashOp} (hm : p.progMode = 1)
    (hw : ((s.beginning p).fillPage p).writePage .success = (some w, ops)) :
    (s.gwWr p .success).1 = ((w.keepRest p).count p).1 ∧ (s.gwWr p .success).2.1 = ops := by
  unfold GwState.gwWr
  rw [hm]
  dsimp only
  rw [hw]
  exact ⟨rfl, rfl⟩

/-- The portion fits into the page and leaves room. -/
theorem fillPage_room (hfit : flashPageSize - s.flashPageDataCnt > p.dataCnt) (hn : p.dataCnt ≠ 0) :
    s.fillPage p =
      { s with
        flashDataCounterToCopy := p.dataCnt
        flashPageData := memcpy s.flashPageData s.flashPageDataCnt p.source p.dataCnt
        flashPageDataCnt := s.flashPageDataCnt + p.dataCnt
        flashDataCntFree := flashPageSize - (s.flashPageDataCnt + p.dataCnt) } := by
  unfold GwState.fillPage
  dsimp only
  rw [if_pos (Nat.lt_of_le_of_lt (Nat.zero_le _) hfit), if_pos hfit, if_neg fun h => hn h.1]

/-- The page gets full. -/
theorem fillPage_full (hlt : s.flashPageDataCnt < flashPageSize)
    (hfit : ¬ flashPageSize - s.flashPageDataCnt > p.dataCnt) (hn : p.dataCnt ≠ 0) :
    s.fillPage p =
      { s with
        flashDataCounterToCopy := flashPageSize - s.flashPageDataCnt
        flashPageData := memcpy s.flashPageData s.flashPageDataCnt p.source
          (flashPageSize - s.flashPageDataCnt)
        flashPageDataCnt := flashPageSize
        flashDataCntFree := flashPageSize - flashPageSize } := by
  have hc : s.flashPageDataCnt + (flashPageSize - s.flashPageDataCnt) = flashPageSize := by omega
  unfold GwState.fillPage
  dsimp only
  rw [if_pos (Nat.sub_pos_of_lt hlt), if_neg hfit, if_neg fun h => hn h.1, hc]

/-- A portion that does not fill the page. -/
theorem portion_room (h : Holding (s.beginning p) pages bytes) (hm : p.progMode = 1)
    (hn : p.dataCnt ≠ 0) (hn' : p.dataCnt ≤ 32)
    (hfit : flashPageSize - (s.beginning p).flashPageDataCnt > p.dataCnt) :
    (s.gwWr p .success).2.1 = [] ∧
    Holding (s.gwWr p .success).1 pages (bytes ++ written bytes.length p.data) := by
  have hsrc := p.length_source
  have hlen := GwPacket.length_data hn'
  have hfill := fillPage_room hfit hn
  generalize ht : s.beginning p = t at h hfit hfill
  have hw : (t.fillPage p).writePage .success = (some (t.fillPage p), []) := by
    apply writePage_open
    rw [hfill]
    dsimp only
    omega
  have hto : (t.fillPage p).flashDataCounterToCopy = p.dataCnt := by rw [hfill]
  have hk : (t.fillPage p).keepRest p = t.fillPage p :=
    if_neg (by rw [hto]; exact Nat.lt_irrefl _)
  rw [← ht] at hw
  obtain ⟨h1, h2⟩ := gwWr_eq hm hw
  refine ⟨h2, ?_⟩
  rw [h1, ht, hk, hfill]
  apply count_holding _ hn
  refine ⟨h.page, by dsimp only; omega, ?_⟩
  have hnot : ¬ flashPageSize < bytes.length % flashPageSize + p.data.length := by
    rw [h.mod, hlen]
    omega
  dsimp only
  rw [written, if_neg hnot, memcpy_take (by omega) (by omega), ← List.append_assoc, ← h.bytes]
  rfl

/-- A portion that fills the page; the rest of it is kept for the next one. -/
theorem portion_full (h : Holding (s.beginning p) pages bytes) (hm : p.progMode = 1)
    (hn : p.dataCnt ≠ 0) (hn' : p.dataCnt ≤ 32)
    (hfit : ¬ flashPageSize - (s.beginning p).flashPageDataCnt > p.dataCnt) : ∃ c,
    (s.gwWr p .success).2.1 = pageOps pages.length c ∧
    Holding (s.gwWr p .success).1 (pages ++ [c]) (bytes ++ written bytes.length p.data) := by
  have hps : flashPageSize = 256 := rfl
  have hsrc := p.length_source
  have hlen := GwPacket.length_data hn'
  have hlt := h.lt
  have hmod := h.mod
  have hfill := fillPage_full h.lt hfit hn
  have hfull : ((s.beginning p).fillPage p).flashPageDataCnt = flashPageSize := by rw [hfill]
  obtain ⟨h1, h2⟩ := gwWr_eq hm (writePage_full hfull)
  have hpg : ((s.beginning p).fillPage p).flashPage = pages.length := by rw [hfill]; exact h.page
  have hto : ((s.beginning p).fillPage p).flashDataCounterToCopy =
    flashPageSize - (s.beginning p).flashPageDataCnt := by rw [hfill]
  have hpage : ((s.beginning p).fillPage p).flashPageData.toList =
      (s.beginning p).flashPageData.toList.take (s.beginning p).flashPageDataCnt ++
      p.source.take (flashPageSize - (s.beginning p).flashPageDataCnt) := by
    rw [hfill]
    exact memcpy_full (by omega) (by omega)
  have hb := h.bytes
  rw [hpg] at h1 h2
  generalize (s.beginning p).fillPage p = w at h1 h2 hto hpage
  generalize (s.beginning p).flashPageDataCnt = cnt at *
  refine ⟨w.flashPageData, h2, ?_⟩
  rw [h1]
  apply count_holding _ hn
  have hbytes : bytes ++ p.source.take (flashPageSize - cnt) =
      (pages ++ [w.flashPageData]).flatMap Vector.toList := by
    rw [List.flatMap_append, List.flatMap_singleton, hpage, ← List.append_assoc, ← hb]
  unfold GwState.keepRest
  dsimp only
  rw [hto]
  by_cases hrest : p.dataCnt > flashPageSize - cnt
  · have hst : flashPageSize < bytes.length % flashPageSize + p.data.length := by
      rw [hmod, hlen]
      omega
    have htake : p.data.take (flashPageSize - cnt) = p.source.take (flashPageSize - cnt) := by
      rw [GwPacket.data, List.take_take, Nat.min_eq_left (by omega)]
    have hall : (memcpy w.flashPageData 0 p.source p.dataCnt).toList.take (0 + p.dataCnt) = p.data := by
      rw [memcpy_take (by omega) (by omega), List.take_zero, List.nil_append]
      rfl
    have hkept : (memcpy w.flashPageData 0 p.source p.dataCnt).toList.take
        (0 + (p.dataCnt - (flashPageSize - cnt))) = p.data.take (p.dataCnt - (flashPageSize - cnt)) := by
      rw [← hall, List.take_take]
      congr 1
      omega
    rw [if_pos hrest]
    refine ⟨by rw [List.length_append]; rfl, by dsimp only; omega, ?_⟩
    dsimp only
    rw [hkept, written, if_pos hst, hmod, hlen, htake, ← hbytes, List.append_assoc]
  · have heq : p.dataCnt = flashPageSize - cnt := by omega
    have hst : ¬ flashPageSize < bytes.length % flashPageSize + p.data.length := by
      rw [hmod, hlen]
      omega
    rw [if_neg hrest]
    refine ⟨by rw [List.length_append]; rfl, Nat.zero_lt_succ _, ?_⟩
    dsimp only
    rw [written, if_neg hst, List.take_zero, List.append_nil, ← hbytes, GwPacket.data, heq]

/-- A portion: at most one page gets full. -/
theorem portion_step (h : Holding (s.beginning p) pages bytes) (hm : p.progMode = 1)
    (hn : p.dataCnt ≠ 0) (hn' : p.dataCnt ≤ 32) : ∃ new,
    (s.gwWr p .success).2.1 = script pages.length new ∧
    Holding (s.gwWr p .success).1 (pages ++ new) (bytes ++ written bytes.length p.data) := by
  by_cases hfit : flashPageSize - (s.beginning p).flashPageDataCnt > p.dataCnt
  · obtain ⟨h1, h2⟩ := portion_room h hm hn hn' hfit
    exact ⟨[], h1, by rwa [List.append_nil]⟩
  · obtain ⟨c, h1, h2⟩ := portion_full h hm hn hn' hfit
    exact ⟨[c], by rw [h1, script, script, List.append_nil], h2⟩

/-- The closing packet: the last page is filled up and programmed. -/
theorem close_step (h : Holding (s.beginning p) pages bytes) (hm : p.progMode = 1)
    (hn : p.dataCnt = 0) : ∃ new, (s.gwWr p .success).2.1 = script pages.length new ∧
    bytes <+: (pages ++ new).flatMap Vector.toList ∧
    (pages ++ new).length = (bytes.length + (flashPageSize - 1)) / flashPageSize := by
  have hl := h.length
  have hlt := h.lt
  have hb := h.bytes
  have hfree : flashPageSize - (s.beginning p).flashPageDataCnt > 0 := Nat.sub_pos_of_lt hlt
  have hfill : ((s.beginning p).fillPage p).flashPage = pages.length ∧
      ((s.beginning p).fillPage p).flashPageDataCnt =
        (if (s.beginning p).flashPageDataCnt > 0 then flashPageSize else 0) ∧
      ((s.beginning p).fillPage p).flashPageData =
        memcpy (s.beginning p).flashPageData (s.beginning p).flashPageDataCnt p.source 0 := by
    unfold GwState.fillPage
    dsimp only
    rw [if_pos hfree, hn, if_pos hfree]
    refine ⟨h.page, ?_, rfl⟩
    by_cases hpos : (s.beginning p).flashPageDataCnt > 0
    · rw [if_pos hpos]
      exact if_pos ⟨rfl, hpos⟩
    · rw [if_neg hpos]
      refine (if_neg fun hh => hpos hh.2).trans ?_
      omega
  obtain ⟨hpg, hcnt, hdata⟩ := hfill
  have htake : (memcpy (s.beginning p).flashPageData (s.beginning p).flashPageDataCnt p.source
      0).toList.take ((s.beginning p).flashPageDataCnt + 0) =
      (s.beginning p).flashPageData.toList.take (s.beginning p).flashPageDataCnt := by
    rw [memcpy_take (by omega) (Nat.zero_le _), List.take_zero, List.append_nil]
  rw [← hdata] at htake
  by_cases hc : (s.beginning p).flashPageDataCnt > 0
  · rw [if_pos hc] at hcnt
    obtain ⟨-, h2⟩ := gwWr_eq hm (writePage_full hcnt)
    rw [hpg] at h2
    refine ⟨[((s.beginning p).fillPage p).flashPageData], ?_, ?_, ?_⟩
    · rw [h2, script, script, List.append_nil]
    · rw [hb, List.flatMap_append, List.flatMap_singleton, List.prefix_append_right_inj, ← htake]
      exact List.take_prefix _ _
    · rw [List.length_append, List.length_singleton, hl]
      generalize pages.length = k
      dsimp only [flashPageSize] at hlt ⊢
      omega
  · rw [if_neg hc] at hcnt
    have hz : (s.beginning p).flashPageDataCnt = 0 := Nat.eq_zero_of_not_pos hc
    obtain ⟨-, h2⟩ := gwWr_eq hm (writePage_open (hcnt ▸ Nat.zero_lt_succ _))
    refine ⟨[], h2, ?_, ?_⟩
    · rw [hz, List.take_zero, List.append_nil] at hb
      exact ⟨[], by rw [List.append_nil, List.append_nil, hb]⟩
    · rw [List.append_nil, hl, hz]
      generalize pages.length = k
      dsimp only [flashPageSize]
      omega

/-- The portions after the first, and the closing packet. -/
theorem run_holding {ps : List GwPacket} {c : GwPacket} (h : Holding s pages bytes)
    (hm : ∀ p ∈ ps ++ [c], p.progMode = 1) (hn : ∀ p ∈ ps, p.dataCnt ≠ 0 ∧ p.dataCnt ≤ 32)
    (hc : c.dataCnt = 0) (hl : ∀ p ∈ ps ++ [c], p.currentPortion ≠ 0) : ∃ new,
    s.gwRun (ps ++ [c]) = script pages.length new ∧
    bytes ++ allWritten bytes.length (ps.map GwPacket.data) <+: (pages ++ new).flatMap Vector.toList ∧
    (pages ++ new).length =
      (bytes.length + (ps.map GwPacket.data).flatten.length + (flashPageSize - 1)) / flashPageSize := by
  induction ps generalizing s pages bytes with
  | nil =>
    have hbeg : s.beginning c = s := if_neg (hl c (List.mem_singleton.2 rfl))
    obtain ⟨new, h1, h2, h3⟩ := close_step (hbeg ▸ h) (hm c (List.mem_singleton.2 rfl)) hc
    refine ⟨new, ?_, ?_, h3⟩
    · rw [List.nil_append, GwState.gwRun, h1, GwState.gwRun, List.append_nil]
    · rw [List.map_nil, allWritten, List.append_nil]
      exact h2
  | cons p ps ih =>
    have hmem : p ∈ (p :: ps) ++ [c] := List.mem_cons_self
    have hbeg : s.beginning p = s := if_neg (hl p hmem)
    obtain ⟨hp, hp'⟩ := hn p List.mem_cons_self
    obtain ⟨new, h1, h2⟩ := portion_step (hbeg ▸ h) (hm p hmem) hp hp'
    obtain ⟨more, h3, h4, h5⟩ := ih h2 (fun q hq => hm q (List.mem_cons_of_mem _ hq))
      (fun q hq => hn q (List.mem_cons_of_mem _ hq)) fun q hq => hl q (List.mem_cons_of_mem _ hq)
    refine ⟨new ++ more, ?_, ?_, ?_⟩
    · rw [List.cons_append, GwState.gwRun, h1, h3, script_append, List.length_append]
    · rw [List.length_append, length_written] at h4
      rw [List.map_cons, allWritten, ← List.append_assoc, ← List.append_assoc]
      exact h4
    · rw [← List.append_assoc, h5, List.length_append, length_written, List.map_cons,
        List.flatten_cons, List.length_append, Nat.add_assoc bytes.length]

/-- Whatever state the handler is in, an upload programs the pages with what its portions leave. -/
theorem upload_run (u : Upload) (s : GwState) : ∃ pages,
    s.gwRun u.packets = script 0 pages ∧
    allWritten 0 (u.portions.map GwPacket.data) <+: pages.flatMap Vector.toList ∧
    pages.length = (u.bytes.length + (flashPageSize - 1)) / flashPageSize := by
  have hbytes : u.bytes = (u.portions.map GwPacket.data).flatten := List.flatMap_def
  have start : ∀ p : GwPacket, p.currentPortion = 0 → Holding (s.beginning p) [] [] := by
    intro p hp
    rw [GwState.beginning, if_pos hp]
    exact ⟨rfl, Nat.zero_lt_succ _, rfl⟩
  have hmode := u.mode
  have hfirst := u.first
  have hlater := u.later
  have hcnt : ∀ p ∈ u.portions, p.dataCnt ≠ 0 ∧ p.dataCnt ≤ 32 := fun p hp =>
    ⟨Nat.ne_of_gt (u.cnt p hp).1, (u.cnt p hp).2⟩
  rw [hbytes, Upload.packets]
  cases hps : u.portions with
  | nil =>
    rw [hps] at hmode hfirst
    obtain ⟨new, h1, h2, h3⟩ := close_step (start u.close (hfirst u.close rfl))
      (hmode u.close (List.mem_singleton.2 rfl)) u.closing
    refine ⟨new, ?_, h2, h3⟩
    rw [List.nil_append, GwState.gwRun, h1, GwState.gwRun, List.append_nil, List.length_nil]
  | cons p ps =>
    rw [hps] at hmode hfirst hlater hcnt
    have hmem : p ∈ (p :: ps) ++ [u.close] := List.mem_cons_self
    obtain ⟨hp, hp'⟩ := hcnt p List.mem_cons_self
    obtain ⟨new, h1, h2⟩ := portion_step (start p (hfirst p rfl)) (hmode p hmem) hp hp'
    obtain ⟨more, h3, h4, h5⟩ := run_holding h2 (fun q hq => hmode q (List.mem_cons_of_mem _ hq))
      (fun q hq => hcnt q (List.mem_cons_of_mem _ hq)) u.closing hlater
    rw [List.nil_append] at h2 h3 h4 h5
    refine ⟨new ++ more, ?_, ?_, ?_⟩
    · rw [List.cons_append, GwState.gwRun, h1, h3, script_append, List.length_nil]
      simp
    · rw [List.nil_append] at h4
      rw [List.map_cons, allWritten, Nat.zero_add]
      simpa using h4
    · rw [h5, List.nil_append, length_written, List.map_cons, List.flatten_cons, List.length_append]

end handler

/-- No portion is changed by being split over two pages. -/
def Upload.TailsRepeat (u : Upload) : Prop :=
  ∀ l d r, u.portions.map GwPacket.data = l ++ d :: r → Repeats l.flatten.length d

/-- FPGA flash programming: an upload programs the flash with the bitstream exactly when every portion
    split over two pages goes on in the second as it began in the first, and the bitstream fits the
    24-bit addresses. -/
theorem gw_write_programs_iff (u : Upload) (s : GwState) :
    Programmed u.bytes (s.gwRun u.packets) ↔ u.bytes.length ≤ 2 ^ 24 ∧ u.TailsRepeat := by
  have hbytes : u.bytes = (u.portions.map GwPacket.data).flatten := List.flatMap_def
  obtain ⟨pages, hrun, hpre, hlen⟩ := upload_run u s
  obtain ⟨hfst, hsnd⟩ := programmed_script 0 pages
  have hflat : ((script 0 pages).flatMap FlashOp.programmed).flatMap (fun p => p.2.toList) =
      pages.flatMap Vector.toList := by
    rw [← List.flatMap_map, hsnd]
  have hrep : u.TailsRepeat ↔ allWritten 0 (u.portions.map GwPacket.data) = u.bytes := by
    rw [hbytes, allWritten_eq_iff]
    simp only [Nat.zero_add]
    rfl
  rw [hrun, hrep]
  constructor
  · rintro ⟨hp, hb, -, -⟩
    rw [hflat] at hb
    constructor
    · -- the page numbers would wrap
      rw [hfst, ← hlen] at hp
      apply Nat.le_of_not_lt
      intro hgt
      have hlt : 65536 < pages.length := by
        rw [hlen]
        simp only [flashPageSize]
        omega
      have h := congrArg (fun l : List Nat => l[65536]?) hp
      simp only [List.getElem?_map, List.getElem?_range' hlt, List.getElem?_range hlt] at h
      exact absurd (Option.some.inj h) (by decide)
    · have h : (allWritten 0 (u.portions.map GwPacket.data)).length = u.bytes.length := by
        rw [length_allWritten, hbytes]
      exact (List.prefix_of_prefix_length_le hpre hb (Nat.le_of_eq h)).eq_of_length h
  · rintro ⟨hle, heq⟩
    have hp : pages.length ≤ 65536 := by
      rw [hlen]
      simp only [flashPageSize]
      omega
    refine ⟨?_, ?_, ?_, before_script (by omega)⟩
    · rw [hfst, hlen, List.range_eq_range', ← hlen]
      conv => rhs; rw [← List.map_id (List.range' 0 pages.length)]
      apply List.map_congr_left
      intro k hk
      rw [List.mem_range'_1] at hk
      exact Nat.mod_eq_of_lt (by omega)
    · rw [hflat, ← heq]
      exact hpre
    · rw [erased_script, List.range_eq_range']
      have hn : (0 + pages.length + 255) / 256 - (0 + 255) / 256 =
          (u.bytes.length + (flashSectorSize - 1)) / flashSectorSize := by
        rw [hlen]
        simp only [flashPageSize, flashSectorSize]
        omega
      rw [hn]
      conv => rhs; rw [← List.map_id (List.range' 0 _)]
      apply List.map_congr_left
      intro k hk
      rw [List.mem_range'_1] at hk
      simp only [flashSectorSize] at hk
      exact Nat.mod_eq_of_lt (by omega)

/-!
The second `memcpy` of the handler starts at `Data_field[24]` again instead of behind the bytes the
first one has taken. Nine portions of 31 counting bytes run into it at the end of the first page.
-/

/-- A portion of `cnt` bytes that count up from `first`. -/
def countingPacket (portion cnt first : UInt8) : GwPacket where
  dataField := Vector.ofFn fun i =>
    if i.val = 0 then 1 else if i.val = 4 then portion else if i.val = 5 then cnt
    else if i.val < 24 then 0 else first + .ofNat (i.val - 24)

def straddling : Upload where
  portions := (List.range 9).map fun k => countingPacket (.ofNat k) 31 (.ofNat (31 * k))
  close := countingPacket 9 0 0
  mode := by decide +kernel
  cnt := by decide +kernel
  closing := by decide +kernel
  first := by decide +kernel
  later := by decide +kernel

/-- The handler's variables at start-up. -/
def GwState.startUp : GwState := ⟨0, 0, 0, 0, 0, .replicate _ 0⟩

/-- The first byte of the second page is to be the 257th byte of the stream, 0; it is the first
byte, 248, of the portion that straddles the boundary. -/
theorem straddling_misplaced : ¬ Programmed straddling.bytes
    (GwState.startUp.gwRun straddling.packets) := by
  intro h
  have hpre := h.bytes
  have hwant : straddling.bytes[256]? = some 0 := by decide +kernel
  have hgot : (((GwState.startUp.gwRun straddling.packets).flatMap FlashOp.programmed).flatMap
      fun p => p.2.toList)[256]? = some 248 := by decide +kernel
  obtain ⟨rest, hrest⟩ := hpre
  rw [← hrest, List.getElem?_append_left, hwant] at hgot
  · exact absurd hgot (by decide)
  · exact (List.getElem?_eq_some_iff.1 hwant).1

end Fw
