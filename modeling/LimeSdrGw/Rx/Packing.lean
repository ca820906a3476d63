import LimeSdrGw.Rx.Data2Packets
import LimeSdrGw.Rx.Pack56
/-
# What `bit_pack` makes of the words of one packet

Begun with nothing under way, it gives out the packing of the words it got, `lat` clocks later; when as
many words have come as make whole groups and the last of them has left, nothing is under way again.

| here | there |
| --- | --- |
| `packing`                 | bit_pack.vhd:23: "10"-12bit, "01"-14bit, "00"-16bit |
| `WidthSetting.packOutput` | bit_pack.vhd: `data_out` in the clocks with `data_out_valid` |

`packing` is what the ports promise, `packOutput` what comes.
-/
namespace Rx

open Clocked Tx

/-- The upper fourteen bits of every field. -/
def inst1Data56In (dataIn : Word64) : Word56 :=
  dataIn.extractLsb' 50 14 ++ dataIn.extractLsb' 34 14 ++ dataIn.extractLsb' 18 14 ++
    dataIn.extractLsb' 2 14

/-- Sample words packed at the width set. -/
def packing (sampleWidth : BitVec 2) (l : List Word64) : List Word64 :=
  if sampleWidth = 2 then packGear.run 0 0 (l.map inst0Data48In)
  else if sampleWidth = 1 then pack56Gear.run (0, 0) (l.map inst1Data56In)
  else l

namespace WidthSetting

/-- With 14-bit samples nothing comes out (`inst1` of `bit_pack` is commented out). -/
def packOutput : WidthSetting → List Word64 → List Word64
  | .w12, l => packGear.run 0 0 (l.map inst0Data48In)
  | .w14, _ => []
  | .w16, l => l

/-- Payload words that `k` sample words make. -/
def packCnt : WidthSetting → Nat → Nat
  | .w12, k => 3 * k / 4
  | .w14, _ => 0
  | .w16, k => k

/-- Clocks from a word at the input to the word it completes at the output. -/
def lat : WidthSetting → Nat
  | .w12 => 4
  | .w14 => 0
  | .w16 => 1

/-- Sample words that are packed together. -/
def group : WidthSetting → Nat
  | .w12 => 4
  | .w14 => 1
  | .w16 => 1

end WidthSetting

theorem packGear_run_length (p : Nat) (prev : Word48) (l : List Word48) (hp : p < 4) :
    (packGear.run p prev l).length + 3 * p / 4 = 3 * (p + l.length) / 4 := by
  induction l generalizing p prev with
  | nil => simp [Gear.run]
  | cons a l ih =>
    rw [Gear.run, List.length_append, List.length_cons]
    obtain rfl | rfl | rfl | rfl : p = 0 ∨ p = 1 ∨ p = 2 ∨ p = 3 := by omega
    · have h := ih 1 a (by omega)
      simp only [packGear, Gear.next, List.length_nil] at h ⊢
      simp only [Nat.zero_add, Nat.reduceLT, ↓reduceIte] at h ⊢
      omega
    · have h := ih 2 a (by omega)
      simp only [packGear, Gear.next, List.length_singleton] at h ⊢
      simp only [Nat.reduceAdd, Nat.reduceLT, ↓reduceIte] at h ⊢
      omega
    · have h := ih 3 a (by omega)
      simp only [packGear, Gear.next, List.length_singleton] at h ⊢
      simp only [Nat.reduceAdd, Nat.reduceLT, ↓reduceIte] at h ⊢
      omega
    · have h := ih 0 a (by omega)
      simp only [packGear, Gear.next, List.length_singleton] at h ⊢
      simp only [Nat.reduceAdd, Nat.lt_irrefl, ↓reduceIte] at h ⊢
      omega

/-- The word in front of a group has no part in it. -/
theorem packGear_run_prev (prev prev' : Word48) (l : List Word48) :
    packGear.run 0 prev l = packGear.run 0 prev' l := by
  cases l with
  | nil => rfl
  | cons a l => rfl

theorem WidthSetting.packOutput_length (wd : WidthSetting) (l : List Word64) :
    (wd.packOutput l).length = wd.packCnt l.length := by
  cases wd with
  | w12 =>
    have h := packGear_run_length 0 0 (l.map inst0Data48In) (by decide)
    rw [List.length_map] at h
    rw [packOutput, packCnt]
    omega
  | w14 => rfl
  | w16 => rfl

theorem packing_code {wd : WidthSetting} (hwd : wd ≠ .w14) (l : List Word64) :
    packing wd l = wd.packOutput l := by
  cases wd with
  | w12 => rfl
  | w14 => exact absurd rfl hwd
  | w16 => rfl

/-- Nothing under way, and the next word begins a group. -/
def BitPack.Quiet (s : BitPack) : WidthSetting → Prop
  | .w12 => s.inst0.wrCnt = 0 ∧ ∀ k, k ≤ 3 → packStage k s = []
  | .w14 => packStage 0 s = [] ∧ packStage 1 s = []
  | .w16 => packStage 0 s = []

theorem BitPack.quiet_init (wd : WidthSetting) : BitPack.init.Quiet wd := by
  cases wd with
  | w12 => exact ⟨rfl, fun k _ => packStage_init k⟩
  | w14 => exact ⟨packStage_init 0, packStage_init 1⟩
  | w16 => exact packStage_init 0

theorem BitPack.Quiet.dataOutValid {s : BitPack} {wd : WidthSetting} (h : s.Quiet wd) :
    s.mux1DataOutValidReg = false := by
  have h0 : packStage 0 s = [] := by
    cases wd with
    | w12 => exact h.2 0 (by omega)
    | w14 => exact h.1
    | w16 => exact h
  rw [packStage, validWord] at h0
  cases hv : s.mux1DataOutValidReg with
  | false => rfl
  | true =>
    rw [hv] at h0
    cases h0

theorem BitPack.Quiet.step {s : BitPack} {wd : WidthSetting} (h : s.Quiet wd) (dataIn : Word64) :
    (s.step wd.code false dataIn).Quiet wd := by
  cases wd with
  | w12 =>
    refine ⟨h.1, ?_⟩
    intro k hk
    obtain rfl | hlt : k = 3 ∨ k < 3 := by omega
    · exact completes48 s.inst0 false (inst0Data48In dataIn)
    · exact (packStage_move s (false, dataIn) hlt).trans (h.2 (k + 1) hlt)
  | w14 => exact ⟨h.2, rfl⟩
  | w16 => rfl

section run

variable {wd : WidthSetting} {s : BitPack} (x : Nat → Bool × Word64)

/-- `bit_pack` from the state `s` on. -/
abbrev packerAt (sampleWidth : BitVec 2) (s : BitPack) : Machine BitPack (Bool × Word64) :=
  (packer sampleWidth).startAt s

/-- The words that come out. -/
abbrev packOut (s : BitPack) (_ : Bool × Word64) : List Word64 :=
  validWord s.mux1DataOutValidReg s.mux1Data64Reg

theorem quiet_w14 (h : s.Quiet .w14) (n : Nat) :
    ((packerAt WidthSetting.w14 s).state x n).Quiet .w14 := by
  induction n with
  | zero => exact h
  | succ n ih => exact ⟨ih.2, rfl⟩

theorem packOut_w14 (h : s.Quiet .w14) (n : Nat) :
    (packerAt WidthSetting.w14 s).log packOut x n = [] := by
  induction n with
  | zero => rfl
  | succ n ih =>
    rw [Machine.log_succ, ih, packOut, (quiet_w14 x h n).dataOutValid]
    rfl

/-- The packing of what came in, `lat` clocks later. -/
theorem packOut_log (h : s.Quiet wd) (n : Nat) :
    (packerAt wd s).log packOut x (n + wd.lat) = wd.packOutput (words x n) := by
  cases wd with
  | w12 => exact (packLog_w12 h.2 h.1 x n).trans (packGear_run_prev _ _ _)
  | w14 => exact packOut_w14 x h n
  | w16 => exact packLog_w16 h x n

/-- Before that, nothing. -/
theorem packOut_early (h : s.Quiet wd) {n : Nat} (hn : n ≤ wd.lat) :
    (packerAt wd s).log packOut x n = [] := by
  have hpre := (packerAt wd s).log_grows packOut x (n := n) (k := 0 + wd.lat) (by omega)
  rw [packOut_log x h 0] at hpre
  have hnil : wd.packOutput (words x 0) = [] := by cases wd <;> rfl
  rw [hnil] at hpre
  exact List.prefix_nil.1 hpre

/-- Behind the last word of the last group. -/
theorem quiet_again (h : s.Quiet wd) {n : Nat} (hgap : ∀ k, n ≤ k → k < n + wd.lat → (x k).1 = false)
    (hlen : wd.group ∣ (words x n).length) : ((packerAt wd s).state x (n + wd.lat)).Quiet wd := by
  cases wd with
  | w12 =>
    refine ⟨?_, ?_⟩
    · have hwords : words x (n + 4) = words x n := words_gap (Nat.le_add_right n 4) hgap
      have hcnt : s.inst0.wrCnt < packGear.phases := by
        rw [h.1]
        decide
      have hphase := (packGear_drives.startAt s).phase_eq hcnt x (n + 4)
      rw [words_map, hwords, List.length_map] at hphase
      have hlen' : 4 ∣ (words x n).length := hlen
      refine hphase.trans ?_
      show (s.inst0.wrCnt + (words x n).length) % 4 = 0
      rw [h.1, Nat.zero_add, Nat.mod_eq_zero_of_dvd hlen']
    · intro k hk
      have hstage := Machine.stage_of_fresh (m := packerAt WidthSetting.w12 s) packStage 3
        (fun k s i hk => packStage_move s i hk)
        (fun s i => completes48 s.inst0 i.1 (inst0Data48In i.2)) x (k := 3 - k) (by omega) (n + k)
      have hk3 : 3 - (3 - k) = k := by omega
      have hn : n + k + (3 - k) + 1 = n + 4 := by omega
      rw [hk3, hn, hgap (n + k) (by omega) (Nat.add_lt_add_left (Nat.lt_succ_of_le hk) n)] at hstage
      exact hstage
  | w14 => exact quiet_w14 x h n
  | w16 =>
    have hlast := hgap n (Nat.le_refl n) (Nat.lt_succ_self n)
    show validWord (x n).1 (x n).2 = []
    rw [hlast]
    rfl

end run

end Rx
