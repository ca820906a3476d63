import LimeSdrGw.Rx.Data2Packets
/-
# `data2packets` makes one packet

`Making p k e` is the state in which `k` payload words of the packet `p` have come and `e` words of it
have been given out. The header is taken with the first word; the last two words are pushed out by the
state `s2` without anything coming in.

| here | there |
| --- | --- |
| `Making.taking`   | data2packets.vhd: `s0`, `s1` and the first clock of `s2` |
| `Making.shifting` | the second clock of `s2` |
| `Making.last`     | the clock after, in which `pct_wrreq` is still high |
-/
namespace Rx

open Clocked Tx

/-- The state of `data2packets` after `k` payload words. -/
def stateAfter (k : Nat) : PctState := if k ≤ 508 then .s0 else if k = 509 then .s1 else .s2

inductive Making (p : List Word64) : Nat → Nat → Data2Packets → Prop
  | rest {s} (hst : s.currentState = .idle) (hcnt : s.pctDataWrCnt = 0)
      (hwr : s.pctWrreqInt = false) : Making p 0 0 s
  | taking {s k e} (hk : 1 ≤ k) (hk' : k ≤ 510) (hst : s.currentState = stateAfter k)
      (hcnt : k ≤ 508 → s.pctDataWrCnt = k) (hcnt' : k = 510 → s.pctDataWrCnt = 0)
      (hend : k = 510 → s.pctEndCnt = 1) (h0 : p[k - 1]? = some s.reg0) (h1 : p[k]? = some s.reg1)
      (h2 : p[k + 1]? = some s.reg2) (hwr : k = 510 → s.pctWrreqInt = true)
      (he : e + s.pctWrreqInt.toNat = k) : Making p k e s
  | shifting {s} (hst : s.currentState = .s2) (hcnt : s.pctDataWrCnt = 0) (hend : s.pctEndCnt = 0)
      (h0 : p[510]? = some s.reg0) (h1 : p[511]? = some s.reg1) (hwr : s.pctWrreqInt = true) :
      Making p 510 510 s
  | last {s} (hst : s.currentState = .idle) (hcnt : s.pctDataWrCnt = 0)
      (h0 : p[511]? = some s.reg0) (hwr : s.pctWrreqInt = true) : Making p 510 511 s
  | done {s} (hst : s.currentState = .idle) (hcnt : s.pctDataWrCnt = 0)
      (hwr : s.pctWrreqInt = false) : Making p 510 512 s

namespace Making

variable {p : List Word64} {k e : Nat} {s : Data2Packets}

/-- What is given out is the next word of the packet. -/
theorem emits (h : Making p k e s) (hwr : s.pctWrreqInt = true) : p[e]? = some s.reg0 := by
  cases h with
  | rest hst hcnt hwr' => exact absurd hwr (by rw [hwr']; decide)
  | taking hk hk' hst hcnt hcnt' hend h0 h1 h2 hwr' he =>
    rw [hwr] at he
    rw [← h0, ← he]
    rfl
  | shifting hst hcnt hend h0 h1 hwr' => exact h0
  | last hst hcnt h0 hwr' => exact h0
  | done hst hcnt hwr' => exact absurd hwr (by rw [hwr']; decide)

/-- A packet of which nothing has come is any packet. -/
theorem rest_of {p' : List Word64} (h : Making p 0 0 s) : Making p' 0 0 s := by
  cases h with
  | rest hst hcnt hwr => exact .rest hst hcnt hwr
  | taking hk => exact absurd hk (Nat.not_succ_le_zero 0)

/-- So is one that has been given out. -/
theorem rest_of_done (h : Making p 510 512 s) : Making [] 0 0 s := by
  cases h with
  | taking hk hk' hst hcnt hcnt' hend h0 h1 h2 hwr he => omega
  | done hst hcnt hwr => exact .rest hst hcnt hwr

theorem rest_wrreq (h : Making p 0 0 s) : s.pctWrreqInt = false := by
  cases h with
  | rest hst hcnt hwr => exact hwr
  | taking hk => exact absurd hk (Nat.not_succ_le_zero 0)

theorem rest_step (h : Making p 0 0 s) (size : Nat) (hdr0 hdr1 data : Word64) :
    Making p 0 0 (s.step false size hdr0 hdr1 data) := by
  cases h with
  | rest hst hcnt hwr =>
    exact .rest (by simp [Data2Packets.step, Data2Packets.next, hst])
      (by simp [Data2Packets.step, hst, hcnt]) (by simp [Data2Packets.step, hst])
  | taking hk => exact absurd hk (Nat.not_succ_le_zero 0)

theorem stateAfter_ne {k : Nat} (hk : k < 510) : stateAfter k ≠ .idle ∧ stateAfter k ≠ .s2 := by
  unfold stateAfter
  split
  · exact ⟨nofun, nofun⟩
  · split
    · exact ⟨nofun, nofun⟩
    · omega

/-- `s1` is entered with the word before the last, `s2` with the last one. -/
theorem next_taking (hst : s.currentState = stateAfter k) (hcnt : k ≤ 508 → s.pctDataWrCnt = k)
    (hmax : s.pctDataWrCntMax = 508) (hk : k < 510) (wr : Bool) :
    s.next wr = stateAfter (k + wr.toNat) := by
  obtain hle | rfl | rfl : k ≤ 507 ∨ k = 508 ∨ k = 509 := by omega
  · have hs0 : s.currentState = .s0 := by rw [hst, stateAfter, if_pos (by omega)]
    have hne : s.pctDataWrCnt ≠ 508 := by rw [hcnt (by omega)]; omega
    have hle' : k + wr.toNat ≤ 508 := by
      have := Bool.toNat_le wr
      omega
    rw [stateAfter, if_pos hle']
    simp [Data2Packets.next, hs0, hmax, hne]
  · cases wr <;> simp [Data2Packets.next, hst, stateAfter, hmax, hcnt]
  · cases wr <;> simp [Data2Packets.next, hst, stateAfter]

theorem idle_iff (h : Making p k e s) : s.currentState = .idle ↔ k = 0 ∨ 511 ≤ e := by
  cases h with
  | rest hst hcnt hwr => simp [hst]
  | taking hk hk' hst hcnt hcnt' hend h0 h1 h2 hwr he =>
    have hne : s.currentState ≠ .idle := by
      rw [hst, stateAfter]
      split
      · exact nofun
      · split <;> exact nofun
    refine iff_of_false hne ?_
    omega
  | shifting hst hcnt hend h0 h1 hwr => simp [hst]
  | last hst hcnt h0 hwr => simp [hst]
  | done hst hcnt hwr => simp [hst]

/-- Given out are the words that had come one clock before; after the last one, three more clocks. -/
theorem emitted (h : Making p k e s) : e + s.pctWrreqInt.toNat =
    if k = 510 ∧ 510 ≤ e then min (e + 1) 512 else k := by
  cases h with
  | rest hst hcnt hwr => simp [hwr]
  | taking hk hk' hst hcnt hcnt' hend h0 h1 h2 hwr he =>
    rw [he, if_neg]
    rintro ⟨rfl, hle⟩
    rw [hwr rfl] at he
    have : e + 1 = 510 := he
    omega
  | shifting hst hcnt hend h0 h1 hwr => simp [hwr]
  | last hst hcnt h0 hwr => simp [hwr]
  | done hst hcnt hwr => simp [hwr]

/-- One clock. -/
theorem step (h : Making p k e s) (hmax : 1 ≤ k → s.pctDataWrCntMax = 508) {wr : Bool} (size : Nat)
    {hdr0 hdr1 data : Word64} (hw : wr = true → k < 510 ∧ p[k + 2]? = some data)
    (hh : wr = true → k = 0 → p[0]? = some hdr0 ∧ p[1]? = some hdr1) :
    Making p (k + wr.toNat) (e + s.pctWrreqInt.toNat) (s.step wr size hdr0 hdr1 data) := by
  -- when all words have come there is no other
  have hoff : k = 510 → wr = false := by
    rintro rfl
    exact Bool.eq_false_iff.2 fun h => Nat.lt_irrefl _ (hw h).1
  cases h with
  | rest hst hcnt hwr =>
    cases wr with
    | false =>
      rw [hwr]
      exact (Making.rest hst hcnt hwr).rest_step size hdr0 hdr1 data
    | true =>
      obtain ⟨-, h2⟩ := hw rfl
      obtain ⟨h0, h1⟩ := hh rfl rfl
      rw [hwr]
      apply Making.taking <;>
        simp [Data2Packets.step, Data2Packets.next, Data2Packets.regLd, stateAfter, hst, hcnt, h0,
          h1, h2]
  | taking hk hk' hst hcnt hcnt' hend h0 h1 h2 hwr he =>
    obtain rfl | hlt : k = 510 ∨ k < 510 := by omega
    · -- the two words left are shifted out
      have hs2 : s.currentState = .s2 := hst
      have he' : e + s.pctWrreqInt.toNat = 510 := he
      obtain rfl := hoff rfl
      rw [he']
      exact .shifting (by simp [Data2Packets.step, Data2Packets.next, hs2, hend rfl])
        (by simp [Data2Packets.step, hs2, hcnt' rfl])
        (by simp [Data2Packets.step, hs2, hend rfl])
        (by simp [Data2Packets.step, Data2Packets.regLd, Data2Packets.regEn, hs2, h1])
        (by simp [Data2Packets.step, Data2Packets.regLd, Data2Packets.regEn, hs2, h2])
        (by simp [Data2Packets.step, hs2])
    · obtain ⟨hidle, hs2⟩ := stateAfter_ne hlt
      rw [← hst] at hidle hs2
      have hnext := next_taking hst hcnt (hmax hk) hlt wr
      rw [he]
      cases wr with
      | false =>
        have hne : k ≠ 510 := Nat.ne_of_lt hlt
        have hcnt1 : k ≤ 508 → (s.step false size hdr0 hdr1 data).pctDataWrCnt = k := by
          intro hle
          have hs1 : s.currentState ≠ .s1 := by simp [hst, stateAfter, hle]
          simp [Data2Packets.step, hs1, hcnt hle]
        exact .taking hk hk' hnext hcnt1 (fun h => absurd h hne) (fun h => absurd h hne)
          (by simp [Data2Packets.step, Data2Packets.regLd, Data2Packets.regEn, hs2, h0])
          (by simp [Data2Packets.step, Data2Packets.regLd, Data2Packets.regEn, hs2, h1])
          (by simp [Data2Packets.step, h2]) (fun h => absurd h hne)
          (by simp [Data2Packets.step, hs2])
      | true =>
        obtain ⟨-, hdata⟩ := hw rfl
        have hcnt1 : k ≤ 508 → (s.step true size hdr0 hdr1 data).pctDataWrCnt = k + 1 := by
          intro hle
          have hs1 : s.currentState ≠ .s1 := by simp [hst, stateAfter, hle]
          simp only [Data2Packets.step, if_neg hs1, if_true, hcnt hle]
          omega
        have hcnt2 : k = 509 → (s.step true size hdr0 hdr1 data).pctDataWrCnt = 0 := by
          rintro rfl
          simp [Data2Packets.step, hst, stateAfter]
        exact .taking (Nat.le_add_left 1 k) (Nat.succ_le_of_lt hlt) hnext
          (fun hle => hcnt1 (by simp at hle; omega)) (fun h => hcnt2 (by simpa using h))
          (fun _ => by simp [Data2Packets.step, hs2])
          (by simp [Data2Packets.step, Data2Packets.regLd, Data2Packets.regEn, hidle, h1])
          (by simp [Data2Packets.step, Data2Packets.regLd, Data2Packets.regEn, hidle, h2])
          (by simp [Data2Packets.step, hdata]) (fun _ => by simp [Data2Packets.step])
          (by simp [Data2Packets.step])
  | shifting hst hcnt hend h0 h1 hwr =>
    obtain rfl := hoff rfl
    rw [hwr]
    exact .last (by simp [Data2Packets.step, Data2Packets.next, hst, hend])
      (by simp [Data2Packets.step, hst, hcnt])
      (by simp [Data2Packets.step, Data2Packets.regLd, Data2Packets.regEn, hst, h1])
      (by simp [Data2Packets.step, hst])
  | last hst hcnt h0 hwr =>
    obtain rfl := hoff rfl
    rw [hwr]
    exact .done (by simp [Data2Packets.step, Data2Packets.next, hst])
      (by simp [Data2Packets.step, hst, hcnt]) (by simp [Data2Packets.step, hst])
  | done hst hcnt hwr =>
    obtain rfl := hoff rfl
    rw [hwr]
    exact .done (by simp [Data2Packets.step, Data2Packets.next, hst])
      (by simp [Data2Packets.step, hst, hcnt]) (by simp [Data2Packets.step, hst])

end Making

end Rx
