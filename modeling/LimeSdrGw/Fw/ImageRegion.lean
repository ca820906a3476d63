import LimeSdrGw.Fw.Bounds
import LimeSdrGw.Fw.GwProgram
/-
# Where the flash is written

`FPGA_SIZE` is compared with the bytes received after the page has been programmed, and what comes out
is the status of the answer only (main.c:812-827): nothing keeps a host that goes on sending from the
pages behind the bitstream. `gw_flash_region_iff` says which sequences of packets stay in front of it.
What counts is the state before each packet: page 10747 is the last one that starts below `FPGA_SIZE`,
and up to there neither the `uint8_t` of the sector nor the 24 bits of an address cut anything off.

`gwSteps` runs through the handler with the state before each packet beside it; the flash may report
anything.
-/
namespace Fw

open GwState

/-- Address at which a command starts. -/
def FlashOp.address : FlashOp → Nat
  | .erase l => l.address
  | .program l _ => l.address

/-- A packet, with the state it comes to and what the flash reports meanwhile. -/
structure GwStep where
  before : GwState
  packet : GwPacket
  status : FlashStatus

namespace GwStep

def after (t : GwStep) : GwState := (t.before.gwWr t.packet t.status).1

/-- The commands that the flash gets. -/
def ops (t : GwStep) : List FlashOp := (t.before.gwWr t.packet t.status).2.1

/-- The page being filled; portion 0 begins with page 0. -/
def page (t : GwStep) : Nat := if t.packet.currentPortion = 0 then 0 else t.before.flashPage

/-- How much of it there is. -/
def cnt (t : GwStep) : Nat := if t.packet.currentPortion = 0 then 0 else t.before.flashPageDataCnt

/-- The commands of the packet start below `FPGA_SIZE`, and a sector erased is that of the page. -/
structure InRegion (t : GwStep) : Prop where
  address : ∀ op ∈ t.ops, op.address < fpgaSize
  sector : ∀ l, .erase l ∈ t.ops → l.sector = t.page * flashPageSize / flashSectorSize

/-- The packet makes the page full. -/
def FillsPage (t : GwStep) : Prop :=
  t.packet.progMode = 1 ∧
    (flashPageSize ≤ t.cnt + t.packet.dataCnt ∨ t.packet.dataCnt = 0 ∧ 0 < t.cnt)

/-- A page that the packet makes full starts below `FPGA_SIZE`, unless nothing comes of it: the flash
    does not get ready and there is no sector to erase. -/
def Fits (t : GwStep) : Prop :=
  t.FillsPage → (t.status.wait = 0 ∨ t.page % pagesPerSector = 0) →
    t.page * flashPageSize < fpgaSize

end GwStep

/-- The packets, each with the state it comes to. -/
def GwState.gwSteps (s : GwState) : List (GwPacket × FlashStatus) → List GwStep
  | [] => []
  | (p, st) :: ps => ⟨s, p, st⟩ :: gwSteps (s.gwWr p st).1 ps

/-! ## One packet -/

namespace GwStep

variable {t : GwStep}

theorem beginning_page : (t.before.beginning t.packet).flashPage = t.page := by
  unfold GwState.beginning page
  split <;> rfl

theorem beginning_cnt : (t.before.beginning t.packet).flashPageDataCnt = t.cnt := by
  unfold GwState.beginning cnt
  split <;> rfl

/-- The state in which it is decided whether to write. -/
def filled (t : GwStep) : GwState := (t.before.beginning t.packet).fillPage t.packet

theorem filled_page : t.filled.flashPage = t.page := by
  rw [← beginning_page]
  rcases Nat.lt_or_ge (t.before.beginning t.packet).flashPageDataCnt flashPageSize with h | h
  · exact (fillPage_below h).1
  · exact (fillPage_at_end h).1

theorem filled_cnt (hm : t.packet.progMode = 1) :
    flashPageSize ≤ t.filled.flashPageDataCnt ↔ t.FillsPage := by
  rw [FillsPage, ← beginning_cnt, and_iff_right hm]
  exact fillPage_full_iff

/-- The commands for a full page. -/
def writes (t : GwStep) : List FlashOp :=
  (if t.page % pagesPerSector = 0 then
    [.erase (.of (t.page / pagesPerSector % 256 * flashSectorSize))] else []) ++
  if t.status.wait = 0 then [.program (.of (t.page * flashPageSize)) t.filled.flashPageData] else []

/-- What the handler stops at. -/
def polled (t : GwStep) : UInt8 :=
  (if t.page % pagesPerSector = 0 then t.status.erase else 0) + t.status.wait

theorem writePage_writes (h : flashPageSize ≤ t.filled.flashPageDataCnt) :
    t.filled.writePage t.status =
      (if t.polled = 0 then
        some { t.filled with
          flashPage := t.page + 1, flashPageDataCnt := 0, flashDataCntFree := flashPageSize }
        else none, t.writes) := by
  unfold GwState.writePage writes polled flashSpiTransfer flashSpiEraseSector
  rw [if_pos h, filled_page]
  simp only [flashLayoutFpgaBitstream, Nat.zero_mul, Nat.zero_add]
  by_cases hp : t.page % pagesPerSector = 0
  · by_cases hw : t.status.wait = 0
    · simp only [hp, hw, if_true, ne_eq, ite_not]
      split <;> rfl
    · simp only [hp, hw, if_true, if_false, ne_eq, ite_not]
      split <;> rfl
  · by_cases hw : t.status.wait = 0
    · simp [hp, hw]
    · simp [hp, hw]

/-- Nothing but a full page has a command sent. -/
theorem ops_eq (h : ¬ t.FillsPage) : t.ops = [] := by
  unfold ops GwState.gwWr
  split
  next hm =>
    have hlt : t.filled.flashPageDataCnt < flashPageSize :=
      Nat.lt_of_not_le fun hle => h ((filled_cnt hm).1 hle)
    have hw : t.filled.writePage t.status = (some t.filled, []) := by
      unfold GwState.writePage
      rw [if_neg (Nat.not_le_of_lt hlt)]
    dsimp only
    rw [← filled, hw]
  all_goals rfl

theorem ops_full (h : t.FillsPage) : t.ops = t.writes := by
  unfold ops GwState.gwWr
  rw [h.1]
  dsimp only
  rw [← filled, writePage_writes ((filled_cnt h.1).2 h)]
  by_cases hz : t.polled = 0
  · simp only [hz, if_true]
  · simp only [hz, if_false]

theorem keepRest_page (s : GwState) (p : GwPacket) : (s.keepRest p).flashPage = s.flashPage := by
  unfold GwState.keepRest
  split <;> rfl

theorem count_page (s : GwState) (p : GwPacket) : (s.count p).1.flashPage = s.flashPage := by
  unfold GwState.count
  dsimp only
  split
  · split <;> rfl
  · rfl

/-- The page number goes up only where a command has gone out for the page. -/
theorem writePage_page {w : GwState} {ops : List FlashOp}
    (h : t.filled.writePage t.status = (some w, ops)) : w.flashPage = t.page ∨
    flashPageSize ≤ t.filled.flashPageDataCnt ∧
      (t.status.wait = 0 ∨ t.page % pagesPerSector = 0) ∧ w.flashPage = t.page + 1 := by
  by_cases hfull : flashPageSize ≤ t.filled.flashPageDataCnt
  · right
    rw [writePage_writes hfull] at h
    obtain ⟨hw, -⟩ := Prod.mk.inj h
    split at hw
    next hzero =>
      refine ⟨hfull, ?_, by rw [← Option.some.inj hw]⟩
      by_cases hp : t.page % pagesPerSector = 0
      · exact .inr hp
      · left
        simpa [polled, hp] using hzero
    next => exact nomatch hw
  · left
    rw [GwState.writePage, if_neg hfull] at h
    rw [← Option.some.inj (Prod.mk.inj h).1, filled_page]

theorem after_page : t.after.flashPage = t.before.flashPage ∨ t.after.flashPage = t.page ∨
    t.FillsPage ∧ (t.status.wait = 0 ∨ t.page % pagesPerSector = 0) ∧
      t.after.flashPage = t.page + 1 := by
  unfold after GwState.gwWr
  split
  next hm =>
    right
    dsimp only
    rw [← filled]
    cases hw : t.filled.writePage t.status with
    | mk w ops =>
      cases w with
      | none => exact .inl filled_page
      | some w =>
        dsimp only
        rw [count_page, keepRest_page, ← filled_cnt hm]
        exact writePage_page hw
  all_goals exact .inl rfl

/-! ## The region -/

/-- Up to the last page nothing is cut off. -/
theorem inRegion_of_fits (h : t.Fits) : t.InRegion := by
  by_cases hf : t.FillsPage
  · have hfit := h hf
    constructor
    · intro op hop
      rw [ops_full hf, writes, List.mem_append] at hop
      dsimp only [fpgaSize, flashPageSize, pagesPerSector] at hfit ⊢
      rcases hop with hop | hop
      · split at hop
        next h0 =>
          rw [List.mem_singleton.1 hop, FlashOp.address, Location.address_of]
          have := hfit (.inr h0)
          dsimp only [flashSectorSize, pagesPerSector]
          omega
        next => exact nomatch hop
      · split at hop
        next hw =>
          rw [List.mem_singleton.1 hop, FlashOp.address, Location.address_of]
          have := hfit (.inl hw)
          dsimp only [flashPageSize]
          omega
        next => exact nomatch hop
    · intro l hl
      rw [ops_full hf, writes, List.mem_append] at hl
      dsimp only [fpgaSize, flashPageSize, pagesPerSector] at hfit
      rcases hl with hl | hl
      · split at hl
        next h0 =>
          rw [FlashOp.erase.inj (List.mem_singleton.1 hl), sector_of]
          have := hfit (.inr h0)
          dsimp only [flashSectorSize, flashPageSize, pagesPerSector]
          omega
        next => exact nomatch hl
      · split at hl
        next => exact nomatch List.mem_singleton.1 hl
        next => exact nomatch hl
  · constructor
    · intro op hop
      rw [ops_eq hf] at hop
      exact nomatch hop
    · intro l hl
      rw [ops_eq hf] at hl
      exact nomatch hl

/-- As long as the addresses have not wrapped, the commands show where the page is. -/
theorem fits_of_inRegion (hp : t.page < 65536) (h : t.InRegion) : t.Fits := by
  intro hf hout
  by_cases h0 : t.page % pagesPerSector = 0
  · have hop : FlashOp.erase (.of (t.page / pagesPerSector % 256 * flashSectorSize)) ∈ t.ops := by
      rw [ops_full hf, writes, if_pos h0]
      exact List.mem_append_left _ (List.mem_singleton.2 rfl)
    have := h.address _ hop
    rw [FlashOp.address, Location.address_of] at this
    dsimp only [fpgaSize, flashPageSize, pagesPerSector, flashSectorSize] at this h0 ⊢
    omega
  · have hop : FlashOp.program (.of (t.page * flashPageSize)) t.filled.flashPageData ∈ t.ops := by
      rw [ops_full hf, writes, if_pos (hout.resolve_right h0)]
      exact List.mem_append_right _ (List.mem_singleton.2 rfl)
    have := h.address _ hop
    rw [FlashOp.address, Location.address_of] at this
    dsimp only [fpgaSize, flashPageSize] at this ⊢
    omega

/-- The first page that starts behind the region. -/
abbrev pastRegion : Nat := 10748

theorem page_le (h : t.before.flashPage ≤ pastRegion) : t.page ≤ pastRegion := by
  unfold page
  split
  · exact Nat.zero_le _
  · exact h

/-- The handler does not come further than that page without writing it. -/
theorem after_le (h : t.before.flashPage ≤ pastRegion) (hfit : t.Fits) :
    t.after.flashPage ≤ pastRegion := by
  have hp := page_le h
  rcases after_page with heq | heq | ⟨hf, hout, heq⟩
  · rwa [heq]
  · rwa [heq]
  · have := hfit hf hout
    rw [heq]
    dsimp only [fpgaSize, flashPageSize, pastRegion] at this ⊢
    omega

end GwStep

/-! ## Runs -/

section runs

variable {s : GwState} {ps : List (GwPacket × FlashStatus)}

theorem fits_of_run (hs : s.flashPage ≤ GwStep.pastRegion)
    (h : ∀ t ∈ s.gwSteps ps, t.InRegion) : ∀ t ∈ s.gwSteps ps, t.Fits := by
  induction ps generalizing s with
  | nil => exact fun t ht => nomatch ht
  | cons x ps ih =>
    obtain ⟨p, st⟩ := x
    rw [GwState.gwSteps, List.forall_mem_cons] at h ⊢
    have hp := GwStep.page_le (t := ⟨s, p, st⟩) hs
    have hfit := GwStep.fits_of_inRegion (Nat.lt_of_le_of_lt hp (by decide)) h.1
    exact ⟨hfit, ih (GwStep.after_le (t := ⟨s, p, st⟩) hs hfit) h.2⟩

/-- What the flash gets is what the packets send, one after the other. -/
theorem gwRun_eq (s : GwState) (ps : List GwPacket) :
    s.gwRun ps = (s.gwSteps (ps.map fun p => (p, .success))).flatMap GwStep.ops := by
  induction ps generalizing s with
  | nil => rfl
  | cons p ps ih =>
    rw [GwState.gwRun, List.map_cons, GwState.gwSteps, List.flatMap_cons, ih]
    rfl

end runs

/-- Flash writes stay in the image region: no page program or sector erase starts at or behind
    `FPGA_SIZE`, and no sector number is cut off, exactly as long as every page that a packet makes full
    starts below `FPGA_SIZE`. -/
theorem gw_flash_region_iff (ps : List (GwPacket × FlashStatus)) :
    (∀ t ∈ GwState.startUp.gwSteps ps, t.InRegion) ↔ ∀ t ∈ GwState.startUp.gwSteps ps, t.Fits :=
  ⟨fits_of_run (Nat.zero_le _), fun h t ht => GwStep.inRegion_of_fits (h t ht)⟩

/-! ## With no flash operation failing -/

/-- How much of the image there is: the pages written, and what has come of the next one. -/
def GwState.place (s : GwState) : Nat := s.flashPage * flashPageSize + s.flashPageDataCnt

namespace GwPacket

/-- The bytes since portion 0 to which the packet adds its own, `n` having come before it. -/
def base (p : GwPacket) (n : Nat) : Nat :=
  if p.progMode = 1 ∧ p.currentPortion = 0 then 0 else n

/-- The bytes since portion 0 behind the packet; one without data fills up the page. -/
def received (p : GwPacket) (n : Nat) : Nat :=
  if p.progMode = 1 then
    if p.dataCnt = 0 then (p.base n + 255) / 256 * 256 else p.base n + p.dataCnt
  else n

end GwPacket

/-- Of every packet, the bytes since portion 0 before and behind it. -/
def portionBytes (n : Nat) : List GwPacket → List (Nat × Nat)
  | [] => []
  | p :: ps => (p.base n, p.received n) :: portionBytes (p.received n) ps

namespace GwStep

variable {t : GwStep}

theorem filled_toCopy (h : t.cnt < flashPageSize) :
    t.filled.flashDataCounterToCopy = min (flashPageSize - t.cnt) t.packet.dataCnt := by
  rw [← beginning_cnt] at h ⊢
  exact (fillPage_below h).2.1

theorem filled_cnt_below (h : t.cnt < flashPageSize) : t.filled.flashPageDataCnt =
    if t.packet.dataCnt = 0 ∧ 0 < t.cnt then flashPageSize
    else t.cnt + min (flashPageSize - t.cnt) t.packet.dataCnt := by
  rw [← beginning_cnt] at h ⊢
  exact (fillPage_below h).2.2

/-- A packet of an upload whose commands succeed. -/
theorem after_of_success (hm : t.packet.progMode = 1) (hst : t.status = .success)
    (h : t.cnt < flashPageSize) :
    t.after.flashPageDataCnt < flashPageSize ∧
      t.after.place = if t.packet.dataCnt = 0 then (t.page * 256 + t.cnt + 255) / 256 * 256
        else t.page * 256 + t.cnt + t.packet.dataCnt := by
  have hd := dataCnt_le (q := t.packet)
  have htc := filled_toCopy h
  have hfc := filled_cnt_below h
  have hpol : t.polled = 0 := by simp [polled, hst, FlashStatus.success]
  dsimp only [flashPageSize] at h htc hfc ⊢
  obtain ⟨w, ops, hw, hcopy, hplace⟩ : ∃ w ops, t.filled.writePage t.status = (some w, ops) ∧
      w.flashDataCounterToCopy = t.filled.flashDataCounterToCopy ∧
      (256 ≤ t.filled.flashPageDataCnt ∧ w.flashPage = t.page + 1 ∧ w.flashPageDataCnt = 0 ∨
        t.filled.flashPageDataCnt < 256 ∧ w = t.filled) := by
    by_cases hfull : flashPageSize ≤ t.filled.flashPageDataCnt
    · rw [writePage_writes hfull, if_pos hpol]
      exact ⟨_, _, rfl, rfl, .inl ⟨hfull, rfl, rfl⟩⟩
    · rw [GwState.writePage, if_neg hfull]
      exact ⟨_, _, rfl, rfl, .inr ⟨Nat.lt_of_not_le hfull, rfl⟩⟩
  rw [hst] at hw
  have hafter : t.after = ((w.keepRest t.packet).count t.packet).1 := by
    rw [after, hst]
    exact (gwWr_eq hm hw).1
  rw [hafter, place, count_cnt, count_page, keepRest_cnt, keepRest_page, hcopy]
  dsimp only [flashPageSize]
  rcases hplace with ⟨hfull, hpage, hcnt⟩ | ⟨hroom, rfl⟩
  · rw [hpage, hcnt]
    split at hfc <;> split <;> omega
  · rw [filled_page]
    split at hfc <;> split <;> omega

theorem base_place (hm : t.packet.progMode = 1) :
    t.packet.base t.before.place = t.page * 256 + t.cnt := by
  unfold GwPacket.base page cnt
  by_cases h : t.packet.currentPortion = 0
  · simp [hm, h]
  · simp [h, place]

/-- `Fits` in bytes since portion 0. -/
theorem fits_iff_bytes (hst : t.status = .success) (h : t.before.flashPageDataCnt < flashPageSize) :
    (t.Fits ↔ (t.packet.base t.before.place / 256 < t.packet.received t.before.place / 256 →
        t.packet.base t.before.place / 256 * 256 < fpgaSize)) ∧
      t.after.flashPageDataCnt < flashPageSize ∧
      t.after.place = t.packet.received t.before.place := by
  by_cases hm : t.packet.progMode = 1
  · have hcnt : t.cnt < flashPageSize := by
      unfold cnt
      split
      · decide
      · exact h
    obtain ⟨hlt, hplace⟩ := after_of_success hm hst hcnt
    have hbase := base_place hm
    rw [← hbase] at hplace
    have hrec : t.packet.received t.before.place = t.after.place := by
      rw [GwPacket.received, if_pos hm, hplace]
    refine ⟨?_, hlt, hrec.symm⟩
    have hwait : t.status.wait = 0 := by rw [hst]; rfl
    rw [hrec, hplace, hbase, Fits, FillsPage, and_iff_right hm]
    dsimp only [flashPageSize, fpgaSize] at hcnt ⊢
    simp only [hwait, true_or, forall_const]
    split <;> omega
  · have hafter : t.after = t.before := by
      unfold after GwState.gwWr
      split
      next h1 => exact absurd h1 hm
      all_goals rfl
    have hbase : t.packet.base t.before.place = t.before.place := if_neg fun hp => hm hp.1
    have hrec : t.packet.received t.before.place = t.before.place := if_neg hm
    rw [hafter, hbase, hrec]
    exact ⟨⟨fun _ hlt => absurd hlt (Nat.lt_irrefl _), fun _ hf => absurd hf.1 hm⟩, h, rfl⟩

end GwStep

theorem fits_of_bytes {s : GwState} (h : s.flashPageDataCnt < flashPageSize) (ps : List GwPacket) :
    (∀ t ∈ s.gwSteps (ps.map fun p => (p, .success)), t.Fits) ↔
      ∀ x ∈ portionBytes s.place ps, x.1 / 256 < x.2 / 256 → x.1 / 256 * 256 < fpgaSize := by
  induction ps generalizing s with
  | nil => exact ⟨fun _ _ hx => (nomatch hx), fun _ _ ht => (nomatch ht)⟩
  | cons p ps ih =>
    obtain ⟨hfits, hcnt, hplace⟩ := GwStep.fits_iff_bytes (t := ⟨s, p, .success⟩) rfl h
    rw [List.map_cons, GwState.gwSteps, portionBytes, List.forall_mem_cons, List.forall_mem_cons,
      hfits, ← hplace]
    exact and_congr_right fun _ => ih hcnt

/-- With no flash operation failing the region is kept exactly as long as every page made full begins
    below `FPGA_SIZE` bytes since portion 0. -/
theorem gw_flash_region_bytes (ps : List GwPacket) :
    (∀ t ∈ GwState.startUp.gwSteps (ps.map fun p => (p, .success)), t.InRegion) ↔
      ∀ x ∈ portionBytes 0 ps, x.1 / 256 < x.2 / 256 → x.1 / 256 * 256 < fpgaSize := by
  rw [show portionBytes 0 ps = portionBytes GwState.startUp.place ps from rfl,
    ← fits_of_bytes (by decide)]
  exact ⟨fits_of_run (Nat.zero_le _), fun h t ht => GwStep.inRegion_of_fits (h t ht)⟩

/-!
Nothing stops a host that uploads too much: each page is written before the bytes are counted. With
85992 portions of 32 bytes page 10748 is made full, and it starts 127 bytes behind the end.
-/

/-- `n + 1` portions of 32 bytes. -/
def plainUpload (n : Nat) : Upload where
  portions := countingPacket 0 32 0 :: List.replicate n (countingPacket 1 32 0)
  close := countingPacket 1 0 0
  mode := by
    intro p hp
    simp only [List.cons_append, List.mem_cons, List.mem_append, List.mem_replicate,
      List.not_mem_nil, or_false] at hp
    rcases hp with rfl | ⟨-, rfl⟩ | rfl <;> decide +kernel
  cnt := by
    intro p hp
    rw [List.mem_cons, List.mem_replicate] at hp
    rcases hp with rfl | ⟨-, rfl⟩ <;> decide +kernel
  closing := by decide +kernel
  first := by
    intro p hp
    obtain rfl : countingPacket 0 32 0 = p := Option.some.inj hp
    decide +kernel
  later := by
    intro p hp
    simp only [List.cons_append, List.tail_cons, List.mem_append, List.mem_replicate,
      List.mem_singleton] at hp
    rcases hp with ⟨-, rfl⟩ | rfl <;> decide +kernel

theorem length_plainUpload (n : Nat) : (plainUpload n).bytes.length = 32 * (n + 1) := by
  have h0 : (countingPacket 0 32 0).data.length = 32 := by decide +kernel
  have h1 : (countingPacket 1 32 0).data.length = 32 := by decide +kernel
  rw [Upload.bytes, plainUpload, List.flatMap_cons, List.length_append, h0, List.length_flatMap,
    List.map_replicate, h1, List.sum_replicate_nat]
  omega

theorem oversized_upload_written : ¬ ∀ t ∈ GwState.startUp.gwSteps
    ((plainUpload 85991).packets.map fun p => (p, .success)), t.InRegion := by
  intro h
  obtain ⟨pages, hrun, -, hlen⟩ := upload_run (plainUpload 85991) GwState.startUp
  have hpages : pages.length = 10749 := by
    rw [hlen, length_plainUpload]
    decide
  obtain ⟨hfst, -⟩ := programmed_script 0 pages
  have hmem : 10748 ∈ ((script 0 pages).flatMap FlashOp.programmed).map Prod.fst := by
    rw [hfst, List.mem_map]
    exact ⟨10748, List.mem_range'_1.2 ⟨Nat.zero_le _, by omega⟩, rfl⟩
  rw [← hrun, gwRun_eq] at hmem
  obtain ⟨x, hx, hpage⟩ := List.mem_map.1 hmem
  obtain ⟨op, hop, hx⟩ := List.mem_flatMap.1 hx
  obtain ⟨t, ht, hop⟩ := List.mem_flatMap.1 hop
  have hlt := (h t ht).address op hop
  cases op with
  | erase l => exact nomatch hx
  | program l c =>
    rw [List.mem_singleton.1 hx] at hpage
    dsimp only [FlashOp.address, Location.page, fpgaSize, flashPageSize] at hlt hpage
    omega

end Fw
