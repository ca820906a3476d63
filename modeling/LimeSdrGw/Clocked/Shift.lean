/-!
# Shift registers

Bits enter at the low end, the first one highest in the end. A register that takes in as many bits as
it is wide keeps nothing else; one that turns round shows its bits at the top, highest first.
-/

namespace Clocked

variable {w : Nat}

/-- A bit enters at the low end, the highest one leaves. -/
def shiftIn (r : BitVec w) (b : Bool) : BitVec w := (r ++ BitVec.ofBool b).setWidth w

theorem getLsbD_shiftIn (r : BitVec w) (b : Bool) (i : Nat) : (shiftIn r b).getLsbD i =
    if i = 0 then decide (0 < w) && b else decide (i < w) && r.getLsbD (i - 1) := by
  simp only [shiftIn, BitVec.getLsbD_setWidth, BitVec.getLsbD_append, BitVec.getLsbD_ofBool]
  by_cases h : i = 0 <;> simp [h]

/-- The word a list of bits leaves in a register, the highest first. -/
def word (w : Nat) (l : List Bool) : BitVec w := l.foldl shiftIn 0

/-- Of what a register held, only what has not been shifted out matters. -/
theorem getLsbD_foldl_shiftIn (l : List Bool) (r r' : BitVec w) (i : Nat)
    (h : l.length ≤ i → r.getLsbD (i - l.length) = r'.getLsbD (i - l.length)) :
    (l.foldl shiftIn r).getLsbD i = (l.foldl shiftIn r').getLsbD i := by
  induction l generalizing r r' with
  | nil => simpa using h
  | cons b l ih =>
    apply ih
    intro hle
    rw [getLsbD_shiftIn, getLsbD_shiftIn]
    by_cases h0 : i - l.length = 0
    · simp [h0]
    · have hle' : (b :: l).length ≤ i := by
        rw [List.length_cons]
        omega
      have := h hle'
      rw [List.length_cons, Nat.sub_add_eq] at this
      simp [h0, this]

/-- A full turn of bits makes a word of its own. -/
theorem foldl_shiftIn_eq_word {l : List Bool} (h : w ≤ l.length) (r : BitVec w) :
    l.foldl shiftIn r = word w l := by
  apply BitVec.eq_of_getLsbD_eq
  intro i hi
  apply getLsbD_foldl_shiftIn
  intro hle
  omega

/-- The bits of a word, highest first. -/
def msbBits (x : BitVec w) : List Bool := (List.range w).map x.getMsbD

theorem msbBits_take_succ (x : BitVec w) {k : Nat} (h : k < w) :
    (msbBits x).take (k + 1) = (msbBits x).take k ++ [x.getMsbD k] := by
  rw [List.take_add_one]
  simp [msbBits, h]

theorem msbBits_take_all (x : BitVec w) : (msbBits x).take w = msbBits x := by
  apply List.take_of_length_le
  simp [msbBits]

/-- The last bit of a list ends up lowest. -/
theorem getLsbD_word (l : List Bool) (i : Nat) :
    (word w l).getLsbD i = (decide (i < w) && l.reverse.getD i false) := by
  have key : ∀ r : List Bool, ∀ i, (word w r.reverse).getLsbD i = (decide (i < w) && r.getD i false) := by
    intro r
    induction r with
    | nil => intro i; simp [word]
    | cons b r ih =>
      intro i
      have e : word w (b :: r).reverse = shiftIn (word w r.reverse) b := by
        rw [word, List.reverse_cons, List.foldl_append]
        rfl
      rw [e, getLsbD_shiftIn]
      cases i with
      | zero => simp
      | succ i =>
        rw [if_neg (Nat.succ_ne_zero i), Nat.add_sub_cancel, ih, List.getD_cons_succ]
        by_cases h : i + 1 < w
        · simp [h, Nat.lt_of_succ_lt h]
        · simp [h]
  have h := key l.reverse i
  rwa [List.reverse_reverse] at h

theorem getMsbD_word {l : List Bool} (hl : l.length = w) {i : Nat} (hi : i < w) :
    (word w l).getMsbD i = l.getD i false := by
  rw [BitVec.getMsbD, getLsbD_word, decide_eq_true hi, Bool.true_and,
    decide_eq_true (by omega : w - 1 - i < w), Bool.true_and, List.getD_eq_getElem?_getD,
    List.getElem?_reverse (by omega), List.getD_eq_getElem?_getD]
  congr 2
  omega

theorem word_msbBits (x : BitVec w) : word w (msbBits x) = x := by
  apply BitVec.eq_of_getMsbD_eq
  intro i hi
  rw [getMsbD_word (by simp [msbBits]) hi]
  simp [msbBits, hi]

theorem msbBits_append {v : Nat} (x : BitVec v) (y : BitVec w) :
    msbBits (x ++ y) = msbBits x ++ msbBits y := by
  apply List.ext_getElem
  · simp [msbBits]
  · intro i h1 h2
    simp only [msbBits, List.length_map, List.length_range] at h1
    rw [List.getElem_append]
    split
    next h =>
      simp only [msbBits, List.length_map, List.length_range] at h
      have hlt : ¬ v ≤ i := by omega
      simp [msbBits, BitVec.getMsbD_append, hlt]
    next h =>
      simp only [msbBits, List.length_map, List.length_range, Nat.not_lt] at h
      simp [msbBits, BitVec.getMsbD_append, h]

/-- What a register shows at its top after some bits have entered. -/
theorem getMsbD_zero_foldl_shiftIn (r : BitVec w) (l : List Bool) (h : l.length < w) :
    (l.foldl shiftIn r).getMsbD 0 = r.getMsbD l.length := by
  have hw : 0 < w := by omega
  have key : ∀ (l : List Bool) (r : BitVec w) (i : Nat), l.length + i < w →
      (l.foldl shiftIn r).getMsbD i = r.getMsbD (l.length + i) := by
    intro l
    induction l with
    | nil => simp
    | cons b l ih =>
      intro r i hi
      rw [List.length_cons] at hi
      rw [List.foldl_cons, ih _ _ (by omega), List.length_cons]
      simp only [BitVec.getMsbD, getLsbD_shiftIn]
      have h0 : ¬ w - 1 - (l.length + i) = 0 := by omega
      have e : w - 1 - (l.length + i) - 1 = w - 1 - (l.length + 1 + i) := by omega
      have h1 : l.length + i < w := by omega
      have h2 : l.length + 1 + i < w := by omega
      have h3 : w - 1 - (l.length + i) < w := by omega
      rw [if_neg h0, e, decide_eq_true h1, decide_eq_true h2, decide_eq_true h3]
      simp
  exact key l r 0 h

/-- What a turning register shows at its top. -/
theorem getMsbD_zero_rotateLeft (x : BitVec w) {k : Nat} (h : k < w) :
    (x.rotateLeft k).getMsbD 0 = x.getMsbD k := by
  have hw : 0 < w := by omega
  rw [BitVec.getMsbD_rotateLeft_of_lt h, decide_eq_true hw, Bool.true_and, Nat.add_zero,
    Nat.mod_eq_of_lt h]

theorem rotateLeft_zero (x : BitVec w) : x.rotateLeft 0 = x := by
  apply BitVec.eq_of_getMsbD_eq
  intro i hi
  rw [BitVec.getMsbD_rotateLeft_of_lt (by omega), decide_eq_true hi, Bool.true_and, Nat.zero_add,
    Nat.mod_eq_of_lt hi]

theorem rotateLeft_rotateLeft_one (x : BitVec w) {k : Nat} (h : k + 1 < w) :
    (x.rotateLeft k).rotateLeft 1 = x.rotateLeft (k + 1) := by
  apply BitVec.eq_of_getMsbD_eq
  intro i hi
  have hmod : (1 + i) % w < w := Nat.mod_lt _ (by omega)
  have hidx : (k + (1 + i) % w) % w = (k + 1 + i) % w := by
    rw [Nat.add_mod_mod, Nat.add_assoc]
  rw [BitVec.getMsbD_rotateLeft_of_lt (by omega), BitVec.getMsbD_rotateLeft_of_lt (by omega),
    BitVec.getMsbD_rotateLeft_of_lt h, decide_eq_true hi, decide_eq_true hmod, hidx]
  simp

end Clocked
