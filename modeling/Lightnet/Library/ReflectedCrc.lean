import Mathlib.Data.BitVec
import Mathlib.Logic.Function.Iterate

/-!
# Reflected cyclic redundancy checks

A reflected CRC keeps its remainder in a `w`-bit register and consumes one byte at a time: the
byte is added to the low end of the register, which is then shifted down eight times, each
shift that drops a one adding the polynomial.

The register is a linear function of what was fed to it. Feeding a register its own bytes, low
byte first, therefore leaves zero, whatever the polynomial was.
-/

namespace ReflectedCrc

variable {w : ℕ} (poly : BitVec w)

def shift (c : BitVec w) : BitVec w :=
  if c.getLsbD 0 then (c >>> 1) ^^^ poly else c >>> 1

def update (c : BitVec w) (b : BitVec 8) : BitVec w :=
  (shift poly)^[8] (c ^^^ b.setWidth w)

def run (c : BitVec w) (bs : List (BitVec 8)) : BitVec w :=
  bs.foldl (update poly) c

/-- The low `n` bytes of a register, low byte first. -/
def leBytes : ℕ → BitVec w → List (BitVec 8)
  | 0, _ => []
  | n + 1, c => c.setWidth 8 :: leBytes n (c >>> 8)

@[simp] theorem run_nil (c : BitVec w) : run poly c [] = c := rfl

@[simp] theorem run_cons (c : BitVec w) (b : BitVec 8) (bs : List (BitVec 8)) :
    run poly c (b :: bs) = run poly (update poly c b) bs := rfl

theorem run_append (c : BitVec w) (bs cs : List (BitVec 8)) :
    run poly c (bs ++ cs) = run poly (run poly c bs) cs := by
  simp only [run, List.foldl_append]

@[simp] theorem length_leBytes (n : ℕ) (c : BitVec w) : (leBytes n c).length = n := by
  induction n generalizing c with
  | zero => rfl
  | succ n ih => simp only [leBytes, List.length_cons, ih]

theorem shift_of_even (c : BitVec w) (hc : c.getLsbD 0 = false) : shift poly c = c >>> 1 := by
  simp only [shift, hc, Bool.false_eq_true, if_false]

/-- A register whose low `k` bits are clear only moves down through `k` shifts. -/
theorem iterate_shift_of_clear (k : ℕ) (c : BitVec w) (hc : ∀ i < k, c.getLsbD i = false) :
    (shift poly)^[k] c = c >>> k := by
  induction k with
  | zero => simp
  | succ k ih =>
      have hlow : (c >>> k).getLsbD 0 = false := by
        simpa [BitVec.getLsbD_ushiftRight] using hc k (Nat.lt_succ_self k)
      rw [Function.iterate_succ_apply', ih (fun i hi => hc i (Nat.lt_succ_of_lt hi)),
        shift_of_even poly _ hlow, BitVec.shiftRight_add]

/-- Feeding a register its own low byte cancels that byte, so the eight shifts never meet a one. -/
theorem update_low_byte (c : BitVec w) : update poly c (c.setWidth 8) = c >>> 8 := by
  have hclear : ∀ i < 8, (c ^^^ (c.setWidth 8).setWidth w).getLsbD i = false := by
    intro i hi
    rw [BitVec.getLsbD_xor, BitVec.getLsbD_setWidth, BitVec.getLsbD_setWidth]
    by_cases hw : i < w
    · simp [hi, hw]
    · simp [BitVec.getLsbD_of_ge c i (Nat.le_of_not_lt hw)]
  rw [update, iterate_shift_of_clear poly 8 _ hclear]
  apply BitVec.eq_of_getLsbD_eq
  intro i _
  have hi : ¬ 8 + i < 8 := by omega
  simp only [BitVec.getLsbD_ushiftRight, BitVec.getLsbD_xor, BitVec.getLsbD_setWidth, hi,
    decide_false, Bool.false_and, Bool.and_false, Bool.xor_false]

theorem run_leBytes (n : ℕ) (c : BitVec w) : run poly c (leBytes n c) = c >>> (8 * n) := by
  induction n generalizing c with
  | zero => simp [leBytes]
  | succ n ih =>
      rw [leBytes, run_cons, update_low_byte, ih, ← BitVec.shiftRight_add]
      congr 1
      omega

/-- The residue of a message followed by its own check bytes is zero. -/
theorem run_append_residue (n : ℕ) (hw : w ≤ 8 * n) (c : BitVec w) (bs : List (BitVec 8)) :
    run poly c (bs ++ leBytes n (run poly c bs)) = 0 := by
  rw [run_append, run_leBytes]
  apply BitVec.eq_of_getLsbD_eq
  intro i _
  rw [BitVec.getLsbD_ushiftRight, BitVec.getLsbD_of_ge _ _ (by omega)]
  simp

end ReflectedCrc
