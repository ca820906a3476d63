import LimeSdrGw.Wfm.WcmdFsm
/-
# What a waveform load leaves in the memory

A load lasts as long as `wfm_load_wcmd2`. Its commands are collected beside the run.
-/
namespace Wfm

open Clocked

namespace WfmPlayer

/-- The commands of the current load, or of the last one while none is running. -/
def collect (cur : List Cmd) (s : WfmPlayer) (i : WfmIn) : List Cmd :=
  if (s.step i).wfmLoadWcmd2 && !s.wfmLoadWcmd2 then [] else cur ++ s.issued

section run

variable (x : Nat → WfmIn)

abbrev playerAt (n : Nat) : WfmPlayer := machine.state x n

/-- All commands before clock `n`. -/
def commands (n : Nat) : List Cmd := machine.log (fun s _ => s.issued) x n

/-- The words that have arrived before clock `n`. -/
def arrived (n : Nat) : List Word32 := machine.log (fun _ i => i.arrival.toList) x n

/-- The commands before clock `n` of the load that is running in clock `n` or ran last. -/
def ofLoad (n : Nat) : List Cmd := machine.track collect [] x n

end run

/-- The FSM goes on to write a single word although the load has ended. -/
def lateSingle (s : WfmPlayer) (i : WfmIn) : Bool :=
  decide (s.fsm.currentState = .checkWr ∧ s.infifo.length = lclBurstLength - 1) && i.wcmdRdy &&
    !s.wfmLoadWcmd1 && !s.wfmLoadWcmd2

/-- The words the FSM counts on are there. -/
structure Stocked (s : WfmPlayer) : Prop where
  cnt : s.fsm.currentState ≠ .burstWr → s.fsm.wrburstCnt = 0
  cnt_le : s.fsm.wrburstCnt ≤ 1
  burst : s.fsm.currentState = .burstWr → 2 ≤ s.infifo.length + s.fsm.wrburstCnt
  single : s.fsm.currentState = .wr ∨ s.fsm.currentState = .checkWr → 1 ≤ s.infifo.length
  reads : s.fsm.currentState ≠ .burstRd ∧ s.fsm.currentState ≠ .rd

/-- Where the FSM is while a load ends and until the next one is under way. -/
structure Settles (s : WfmPlayer) : Prop where
  ended : s.wfmLoadWcmd2 = false → s.fsm.wfmLoadReg0 = true →
    (s.fsm.currentState = .idle ∨ s.fsm.currentState = .checkBurst) ∧ s.infifo.length ≤ 1
  falls : s.fsm.loadFalls = true → s.fsm.currentState = .idle ∨ s.fsm.currentState = .checkWr
  off : s.wfmLoadWcmd2 = false → s.fsm.wfmLoadReg0 = false → s.fsm.wfmLoadReg1 = false →
    s.fsm.currentState = .idle
  begins : s.wfmLoadWcmd2 = true → s.fsm.wfmLoadReg0 = false → s.fsm.wfmLoadReg1 = false →
    s.fsm.currentState = .idle ∨ s.fsm.currentState = .wr

/-- The address counter counts the commands of the load. -/
structure Counts (cur : List Cmd) (s : WfmPlayer) : Prop where
  running : s.fsm.wfmLoadReg0 = true → s.fsm.wrAddress = cur.length % 2 ^ addrSize
  begins : s.wfmLoadWcmd2 = true → s.fsm.wfmLoadReg0 = false → cur = []
  cleared : s.fsm.wfmLoadReg0 = false → s.fsm.wfmLoadReg1 = false → s.fsm.wrAddress = 0

/-- Between the two writes of a pair the first one stands alone. -/
structure Pairs (cur : List Cmd) (s : WfmPlayer) : Prop where
  whole : ¬ (s.fsm.currentState = .burstWr ∧ s.fsm.wrburstCnt = 1) → Paired cur
  half : s.fsm.currentState = .burstWr ∧ s.fsm.wrburstCnt = 1 →
    ∃ l a, cur = l ++ [a] ∧ Paired l ∧ a.brst = true ∧ s.fsm.wrAddress = incAddr a.addr

/-- Everything kept along a run in which no single word is late. -/
structure Inv (cur : List Cmd) (s : WfmPlayer) : Prop where
  stocked : Stocked s
  settles : Settles s
  counts : Counts cur s
  pairs : Pairs cur s

theorem Stocked.init : Stocked init where
  cnt _ := rfl
  cnt_le := Nat.zero_le _
  burst h := nomatch h
  single h := by rcases h with h | h <;> exact nomatch h
  reads := ⟨nofun, nofun⟩

/-- The signals of the next clock by the state of this one. -/
theorem fsm_step (s : WfmPlayer) (i : WfmIn) :
    (s.step i).fsm.currentState = s.fsm.next s.wfmLoadWcmd2 i.wcmdRdy s.infifo.length ∧
      (s.step i).fsm.wfmLoadReg0 = s.wfmLoadWcmd2 ∧
      (s.step i).fsm.wfmLoadReg1 = s.fsm.wfmLoadReg0 :=
  ⟨rfl, rfl, rfl⟩

theorem Stocked.step {s : WfmPlayer} {i : WfmIn} (h : Stocked s) : Stocked (s.step i) := by
  have hs := (fsm_step s i).1
  have hc : (s.step i).fsm.wrburstCnt = if s.fsm.currentState = .burstWr then
    if s.fsm.wrburstCnt < 1 then s.fsm.wrburstCnt + 1 else 0 else 0 := rfl
  have hl : (s.step i).infifo.length =
      s.infifo.length - (if s.fsm.wcmdWr then 1 else 0) + i.arrival.toList.length := by
    cases hw : s.fsm.wcmdWr <;> simp [WfmPlayer.step, wfmInfifoRdreq, hw]
  have le := h.cnt_le
  constructor
  · intro hb
    rw [hs] at hb
    rw [hc]
    grind [WcmdFsm.next]
  · rw [hc]
    grind
  · intro hb
    rw [hs] at hb
    rw [hc, hl]
    grind [WcmdFsm.next, WcmdFsm.wcmdWr, Stocked]
  · intro hb
    rw [hs] at hb
    rw [hl]
    grind [WcmdFsm.next, WcmdFsm.wcmdWr, Stocked]
  · rw [hs]
    grind [WcmdFsm.next, Stocked]

theorem Settles.init : Settles init where
  ended _ h := nomatch h
  falls h := nomatch h
  off _ _ _ := rfl
  begins h := nomatch h

theorem Settles.step {s : WfmPlayer} {i : WfmIn} (h : Settles s) (stocked : Stocked s)
    (late : lateSingle s i = false) : Settles (s.step i) := by
  obtain ⟨hs, h0, h1⟩ := fsm_step s i
  have h2 : (s.step i).wfmLoadWcmd2 =
      if s.wfmLoadWcmd1 then true else if s.infifo.isEmpty then false else s.wfmLoadWcmd2 := rfl
  have hl : (s.step i).infifo.length =
      s.infifo.length - (if s.fsm.wcmdWr then 1 else 0) + i.arrival.toList.length := by
    cases hw : s.fsm.wcmdWr <;> simp [WfmPlayer.step, wfmInfifoRdreq, hw]
  have one : i.arrival.toList.length ≤ 1 := by cases i.arrival <;> simp
  have empty : s.infifo.isEmpty = true ↔ s.infifo.length = 0 := by simp
  constructor
  · intro hoff hwas
    rw [h2] at hoff
    rw [h0] at hwas
    rw [hs, hl]
    grind [WcmdFsm.next, WcmdFsm.wcmdWr, Stocked]
  · intro hf
    have hf' : s.wfmLoadWcmd2 = false ∧ s.fsm.wfmLoadReg0 = true := by
      simpa [WcmdFsm.loadFalls, h0, h1] using hf
    obtain ⟨hst, hle⟩ := h.ended hf'.1 hf'.2
    rw [hs]
    grind [WcmdFsm.next]
  · intro hoff hwas hwas'
    rw [h2] at hoff
    rw [h0] at hwas
    rw [h1] at hwas'
    rw [hs]
    cases h1 : s.fsm.wfmLoadReg1
    · have := h.off hwas hwas' h1
      grind [WcmdFsm.next]
    · have := h.falls (by simp [WcmdFsm.loadFalls, hwas', h1])
      grind [WcmdFsm.next, lateSingle]
  · intro hon hwas hwas'
    rw [h0] at hwas
    rw [h1] at hwas'
    rw [hs]
    cases h1 : s.fsm.wfmLoadReg1
    · have := h.off hwas hwas' h1
      grind [WcmdFsm.next]
    · have := h.falls (by simp [WcmdFsm.loadFalls, hwas', h1])
      grind [WcmdFsm.next]

theorem issued_eq (s : WfmPlayer) : s.issued =
    if s.fsm.wcmdWr then [⟨s.fsm.wrAddress, s.fsm.wcmdBrstEn, s.infifo.head?⟩] else [] := rfl

theorem Counts.init : Counts [] init where
  running h := nomatch h
  begins _ _ := rfl
  cleared _ _ := rfl

/-- No command while the address counter is at rest. -/
theorem Settles.idle_of_falls {s : WfmPlayer} (h : Settles s) (hf : s.fsm.loadFalls = true) :
    s.fsm.wcmdWr = false := by
  rcases h.falls hf with hs | hs <;> simp [WcmdFsm.wcmdWr, hs]

theorem Counts.step {cur : List Cmd} {s : WfmPlayer} {i : WfmIn} (h : Counts cur s)
    (settles : Settles s) : Counts (collect cur s i) (s.step i) := by
  obtain ⟨hs, h0, h1⟩ := fsm_step s i
  have ha : (s.step i).fsm.wrAddress = if s.fsm.loadFalls then 0
    else if s.fsm.wcmdWr then incAddr s.fsm.wrAddress else s.fsm.wrAddress := rfl
  constructor
  · intro hon
    rw [h0] at hon
    have hc : collect cur s i = cur ++ s.issued := by simp [collect, hon]
    rw [hc, ha, issued_eq]
    cases hf : s.fsm.loadFalls
    · cases hr : s.fsm.wfmLoadReg0
      · have hr1 : s.fsm.wfmLoadReg1 = false := by simpa [WcmdFsm.loadFalls, hr] using hf
        rw [h.cleared hr hr1, h.begins hon hr]
        cases s.fsm.wcmdWr <;> simp [incAddr]
      · rw [h.running hr]
        cases s.fsm.wcmdWr <;> simp [incAddr_mod]
    · have hr : s.fsm.wfmLoadReg0 = false := by
        simp only [WcmdFsm.loadFalls, Bool.and_eq_true, Bool.not_eq_true'] at hf
        exact hf.1
      simp [settles.idle_of_falls hf, h.begins hon hr]
  · intro hon hwas
    rw [h0] at hwas
    simp [collect, hon, hwas]
  · intro hwas hwas'
    rw [h0] at hwas
    rw [h1] at hwas'
    rw [ha]
    cases hf : s.fsm.loadFalls
    · have hr1 : s.fsm.wfmLoadReg1 = false := by simpa [WcmdFsm.loadFalls, hwas'] using hf
      have := settles.off hwas hwas' hr1
      simp [WcmdFsm.wcmdWr, this, h.cleared hwas' hr1]
    · rfl

theorem Settles.quiet {s : WfmPlayer} (h : Settles s) (hoff : s.wfmLoadWcmd2 = false) :
    s.fsm.wcmdWr = false := by
  cases h0 : s.fsm.wfmLoadReg0
  · cases h1 : s.fsm.wfmLoadReg1
    · simp [WcmdFsm.wcmdWr, h.off hoff h0 h1]
    · exact h.idle_of_falls (by simp [WcmdFsm.loadFalls, h0, h1])
  · rcases (h.ended hoff h0).1 with hs | hs <;> simp [WcmdFsm.wcmdWr, hs]

theorem Pairs.init : Pairs [] init where
  whole _ := .nil
  half h := nomatch h.1

theorem Pairs.step {cur : List Cmd} {s : WfmPlayer} {i : WfmIn} (h : Pairs cur s)
    (stocked : Stocked s) (settles : Settles s) : Pairs (collect cur s i) (s.step i) := by
  have hs := (fsm_step s i).1
  have hc : (s.step i).fsm.wrburstCnt = if s.fsm.currentState = .burstWr then
    if s.fsm.wrburstCnt < 1 then s.fsm.wrburstCnt + 1 else 0 else 0 := rfl
  by_cases hb : s.fsm.currentState = .burstWr
  · have hw : s.fsm.wcmdWr = true := by simp [WcmdFsm.wcmdWr, hb]
    have hon : s.wfmLoadWcmd2 = true := by
      cases hoff : s.wfmLoadWcmd2
      · exact absurd (settles.quiet hoff) (by simp [hw])
      · rfl
    have hf : s.fsm.loadFalls = false := by
      cases hf : s.fsm.loadFalls
      · rfl
      · exact absurd (settles.idle_of_falls hf) (by simp [hw])
    have hcur : collect cur s i = cur ++ [⟨s.fsm.wrAddress, true, s.infifo.head?⟩] := by
      simp [collect, hon, issued_eq, hw, WcmdFsm.wcmdBrstEn, hb]
    rw [hcur]
    have le := stocked.cnt_le
    by_cases h1 : s.fsm.wrburstCnt = 1
    · -- the second write of the pair
      constructor
      · intro _
        obtain ⟨l, a, rfl, pl, ha, hadr⟩ := h.half ⟨hb, h1⟩
        rw [List.append_assoc]
        exact pl.pair ha rfl hadr
      · rintro ⟨-, hcnt⟩
        simp [hc, hb, h1] at hcnt
    · have h0 : s.fsm.wrburstCnt = 0 := by omega
      have hnext : (s.step i).fsm.currentState = .burstWr := by
        simp [hs, WcmdFsm.next, hb, h0, lclBurstLength]
      constructor
      · intro hn
        exact absurd ⟨hnext, by simp [hc, hb, h0]⟩ hn
      · intro _
        refine ⟨cur, _, rfl, h.whole (by simp [h0]), rfl, ?_⟩
        simp [WfmPlayer.step, WcmdFsm.step, hf, hw]
  · constructor
    · intro _
      unfold collect
      split
      · exact .nil
      · rw [issued_eq]
        split
        next hw =>
          exact (h.whole (by simp [hb])).single (by simp [WcmdFsm.wcmdBrstEn, hb])
        next => simpa using h.whole (by simp [hb])
    · rintro ⟨-, hcnt⟩
      simp [hc, hb] at hcnt

theorem Inv.step {cur : List Cmd} {s : WfmPlayer} {i : WfmIn} (h : Inv cur s)
    (late : lateSingle s i = false) : Inv (collect cur s i) (s.step i) where
  stocked := h.stocked.step
  settles := h.settles.step h.stocked late
  counts := h.counts.step h.settles
  pairs := h.pairs.step h.stocked h.settles

theorem stocked_at (x : Nat → WfmIn) (n : Nat) : Stocked (playerAt x n) :=
  machine.invariant (P := fun _ s => Stocked s) .init (fun _ h => h.step) n

theorem Stocked.nonempty {s : WfmPlayer} (h : Stocked s) (hw : s.fsm.wcmdWr = true) :
    ∃ w l, s.infifo = w :: l := by
  have le := h.cnt_le
  have pos : 1 ≤ s.infifo.length := by
    simp only [WcmdFsm.wcmdWr, decide_eq_true_eq] at hw
    rcases hw with hb | hr
    · have := h.burst hb
      omega
    · exact h.single (.inl hr)
  cases hq : s.infifo with
  | nil => simp [hq] at pos
  | cons w l => exact ⟨w, l, rfl⟩

/-- A popped word is written in the same clock, whatever the load does. -/
theorem words_written (x : Nat → WfmIn) (n : Nat) :
    (commands x n).map Cmd.data ++ (playerAt x n).infifo.map some = (arrived x n).map some := by
  induction n with
  | zero => rfl
  | succ n ih =>
    have hc : commands x (n + 1) = commands x n ++ (playerAt x n).issued := rfl
    have ha : arrived x (n + 1) = arrived x n ++ (x n).arrival.toList := rfl
    have hq : (playerAt x (n + 1)).infifo =
        (if (playerAt x n).fsm.wcmdWr then (playerAt x n).infifo.tail else (playerAt x n).infifo) ++
          (x n).arrival.toList := rfl
    rw [hc, ha, hq, List.map_append, List.map_append, List.map_append, ← ih, issued_eq]
    cases hw : (playerAt x n).fsm.wcmdWr
    · simp
    · obtain ⟨w, l, hwl⟩ := (stocked_at x n).nonempty hw
      simp [hwl]

theorem inv_at {x : Nat → WfmIn} (n : Nat)
    (late : ∀ k, k < n → lateSingle (playerAt x k) (x k) = false) :
    Inv (ofLoad x n) (playerAt x n) := by
  induction n with
  | zero => exact ⟨.init, .init, .init, .init⟩
  | succ n ih => exact (ih fun k hk => late k (by omega)).step (late n (by omega))

/-- What a load owes in clock `n`. -/
structure LoadFaithful (x : Nat → WfmIn) (n : Nat) : Prop where
  /-- Popped only when there is a word. -/
  pops : (playerAt x n).wfmInfifoRdreq = true → (playerAt x n).infifo ≠ []
  /-- Every word that arrived is written once, in order, or still in the FIFO. -/
  words : (commands x n).map Cmd.data ++ (playerAt x n).infifo.map some = (arrived x n).map some
  /-- Addresses count from the start of the load. -/
  address : ∀ c ∈ (playerAt x n).issued, c.addr = (ofLoad x n).length % 2 ^ addrSize
  /-- A pair under way is completed in this very clock. -/
  pairs : Paired (ofLoad x n) ∨ Paired (ofLoad x n ++ (playerAt x n).issued)
  /-- Nothing is written outside a load. -/
  within : (playerAt x n).wfmLoadWcmd2 = false → (playerAt x n).issued = []
  /-- The end of the load latches its length, three clocks on. -/
  length : (playerAt x n).wfmLoadWcmd2 = true → (playerAt x (n + 1)).wfmLoadWcmd2 = false →
    (playerAt x (n + 3)).fsm.wrAddressLatch = (ofLoad x (n + 1)).length % 2 ^ addrSize

theorem Inv.address {cur : List Cmd} {s : WfmPlayer} (h : Inv cur s) (hw : s.fsm.wcmdWr = true) :
    s.fsm.wrAddress = cur.length % 2 ^ addrSize := by
  cases h0 : s.fsm.wfmLoadReg0
  · have hon : s.wfmLoadWcmd2 = true := by
      cases hoff : s.wfmLoadWcmd2
      · exact absurd (h.settles.quiet hoff) (by simp [hw])
      · rfl
    cases h1 : s.fsm.wfmLoadReg1
    · rw [h.counts.cleared h0 h1, h.counts.begins hon h0]
      rfl
    · have hf : s.fsm.loadFalls = true := by simp [WcmdFsm.loadFalls, h0, h1]
      exact absurd (h.settles.idle_of_falls hf) (by simp [hw])
  · exact h.counts.running h0

theorem Inv.pair_completed {cur : List Cmd} {s : WfmPlayer} (h : Inv cur s) :
    Paired cur ∨ Paired (cur ++ s.issued) := by
  by_cases hm : s.fsm.currentState = .burstWr ∧ s.fsm.wrburstCnt = 1
  · obtain ⟨l, a, rfl, pl, ha, hadr⟩ := h.pairs.half hm
    refine .inr ?_
    have hi : s.issued = [⟨s.fsm.wrAddress, true, s.infifo.head?⟩] := by
      simp [issued_eq, WcmdFsm.wcmdWr, WcmdFsm.wcmdBrstEn, hm.1]
    rw [hi, List.append_assoc]
    exact pl.pair ha rfl hadr
  · exact .inl (h.pairs.whole hm)

/-- With the load over, its length passes through the address counter into the latch. -/
theorem Inv.latched {x : Nat → WfmIn} {n : Nat} (h : Inv (ofLoad x (n + 1)) (playerAt x (n + 1)))
    (hon : (playerAt x n).wfmLoadWcmd2 = true) (hoff : (playerAt x (n + 1)).wfmLoadWcmd2 = false) :
    (playerAt x (n + 3)).fsm.wrAddressLatch = (ofLoad x (n + 1)).length % 2 ^ addrSize := by
  have r0 : (playerAt x (n + 1)).fsm.wfmLoadReg0 = true := hon
  have r0' : (playerAt x (n + 2)).fsm.wfmLoadReg0 = false := hoff
  have r1' : (playerAt x (n + 2)).fsm.wfmLoadReg1 = true := r0
  have quiet := h.settles.quiet hoff
  have kept : (playerAt x (n + 2)).fsm.wrAddress = (playerAt x (n + 1)).fsm.wrAddress := by
    have : (playerAt x (n + 2)).fsm.wrAddress = if (playerAt x (n + 1)).fsm.loadFalls then 0
      else if (playerAt x (n + 1)).fsm.wcmdWr then incAddr (playerAt x (n + 1)).fsm.wrAddress
      else (playerAt x (n + 1)).fsm.wrAddress := rfl
    simp [this, WcmdFsm.loadFalls, r0, quiet]
  have hl : (playerAt x (n + 3)).fsm.wrAddressLatch =
      if (playerAt x (n + 2)).fsm.loadFalls then (playerAt x (n + 2)).fsm.wrAddress
      else (playerAt x (n + 2)).fsm.wrAddressLatch := rfl
  rw [hl, if_pos (by simp [WcmdFsm.loadFalls, r0', r1']), kept]
  exact h.counts.running r0

/-- A late single word is written with the load over. -/
theorem late_writes {s : WfmPlayer} {i : WfmIn} (late : lateSingle s i = true) :
    (s.step i).wfmLoadWcmd2 = false ∧ (s.step i).issued ≠ [] := by
  simp only [lateSingle, Bool.and_eq_true, decide_eq_true_eq, Bool.not_eq_true'] at late
  obtain ⟨⟨⟨⟨hst, hlen⟩, hrdy⟩, h1⟩, h2⟩ := late
  constructor
  · simp [WfmPlayer.step, h1, h2]
  · have hw : (s.step i).fsm.wcmdWr = true := by
      simp [WcmdFsm.wcmdWr, (fsm_step s i).1, WcmdFsm.next, hst, hlen, hrdy]
    simp [issued_eq, hw]

/-- A load is faithful in every clock of a run exactly when no single word is late in it. -/
theorem load_faithful_iff (x : Nat → WfmIn) :
    (∀ n, LoadFaithful x n) ↔ ∀ n, lateSingle (playerAt x n) (x n) = false := by
  constructor
  · intro h n
    cases late : lateSingle (playerAt x n) (x n)
    · rfl
    · obtain ⟨hoff, hne⟩ := late_writes late
      exact absurd ((h (n + 1)).within hoff) hne
  · intro late n
    have inv (k : Nat) := inv_at k fun m _ => late m
    constructor
    · intro hw
      obtain ⟨w, l, hwl⟩ := (stocked_at x n).nonempty hw
      simp [hwl]
    · exact words_written x n
    · intro c hc
      rw [issued_eq] at hc
      split at hc
      next hw =>
        obtain rfl := List.mem_singleton.1 hc
        exact (inv n).address hw
      next => simp at hc
    · exact (inv n).pair_completed
    · intro hoff
      simp [issued_eq, (inv n).settles.quiet hoff]
    · intro hon hoff
      exact (inv (n + 1)).latched hon hoff

/-- One word is loaded, and one more arrives when the load has just ended. -/
def lateWord (n : Nat) : WfmIn where
  wfmLoad := decide (n < 7)
  wcmdRdy := true
  arrival := if n = 2 ∨ n = 9 then some 7#32 else none

/-- It is written over the first word, and the length does not count it. -/
theorem late_word_overwrites : ¬ LoadFaithful lateWord 12 := by
  intro h
  have hoff : (playerAt lateWord 12).wfmLoadWcmd2 = false := by decide +kernel
  exact absurd (h.within hoff) (by decide +kernel)

end WfmPlayer

end Wfm
