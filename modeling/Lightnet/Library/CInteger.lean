import Mathlib.Data.Int.Basic
import Mathlib.Tactic.NormNum

/-!
# Integer arithmetic in C

Operands narrower than `int` are promoted to it, or to `unsigned int` if they do not fit. What an
expression gives then depends on the width of `int`: unsigned results are reduced, signed ones have
to fit. Operations that overflow give no value.
-/

namespace CInteger

inductive Width where
  | int16 | int32
  deriving DecidableEq

def Width.bits : Width → ℕ
  | .int16 => 16
  | .int32 => 32

/-- An operand after promotion. -/
structure Value where
  isUnsigned : Bool
  num : ℤ
  deriving DecidableEq

def Fits (w : Width) (z : ℤ) : Prop := -2 ^ (w.bits - 1) ≤ z ∧ z < 2 ^ (w.bits - 1)

instance (w : Width) (z : ℤ) : Decidable (Fits w z) := inferInstanceAs (Decidable (_ ∧ _))

/-! ### Promotion -/

def int (z : ℤ) : Value := ⟨false, z⟩

def ofU8 (x : BitVec 8) : Value := int x.toNat

/-- A number of sixteen bits is an `int` only where that is wider. -/
def ofU16 (w : Width) (z : ℤ) : Value := ⟨decide (w = .int16), z⟩

/-! ### Conversion -/

def toU8 (a : Value) : BitVec 8 := BitVec.ofInt 8 a.num

def toU16 (w : Width) (a : Value) : Value := ofU16 w (a.num % 65536)

def toS16 (a : Value) : Value := int (a.num.bmod 65536)

/-! ### Operations -/

def arith (w : Width) (op : ℤ → ℤ → ℤ) (a b : Value) : Option Value :=
  if a.isUnsigned || b.isUnsigned then
    some ⟨true, op (a.num % 2 ^ w.bits) (b.num % 2 ^ w.bits) % 2 ^ w.bits⟩
  else if Fits w (op a.num b.num) then some (int (op a.num b.num)) else none

def add (w : Width) : Value → Value → Option Value := arith w (· + ·)

def sub (w : Width) : Value → Value → Option Value := arith w (· - ·)

def mul (w : Width) : Value → Value → Option Value := arith w (· * ·)

def div (w : Width) (a b : Value) : Option Value :=
  if b.num = 0 then none else arith w Int.tdiv a b

variable {w : Width} {op : ℤ → ℤ → ℤ}

theorem fits_of_abs_le {z : ℤ} (h : |z| ≤ 32767) : Fits w z := by
  rw [abs_le] at h
  cases w with
  | int16 => exact ⟨by norm_num [Width.bits]; omega, by norm_num [Width.bits]; omega⟩
  | int32 => exact ⟨by norm_num [Width.bits]; omega, by norm_num [Width.bits]; omega⟩

theorem arith_int (x y : ℤ) :
    arith w op (int x) (int y) = if Fits w (op x y) then some (int (op x y)) else none := rfl

theorem arith_int_of_fits {x y : ℤ} (h : Fits w (op x y)) :
    arith w op (int x) (int y) = some (int (op x y)) := if_pos h

/-- A number of sixteen bits keeps its value under an operation that stays below their range. -/
theorem arith_of_small {a b : Value} (hkind : (a.isUnsigned || b.isUnsigned) = decide (w = .int16))
    (ha : 0 ≤ a.num ∧ a.num < 65536) (hb : 0 ≤ b.num ∧ b.num < 65536)
    (hop : 0 ≤ op a.num b.num ∧ op a.num b.num < 65536) :
    arith w op a b = some (ofU16 w (op a.num b.num)) := by
  unfold arith
  rw [hkind]
  cases w with
  | int16 =>
      rw [if_pos (by decide)]
      change some (Value.mk true (op (a.num % 65536) (b.num % 65536) % 65536)) = _
      rw [Int.emod_eq_of_lt ha.1 ha.2, Int.emod_eq_of_lt hb.1 hb.2,
        Int.emod_eq_of_lt hop.1 hop.2]
      rfl
  | int32 =>
      have hfits : Fits .int32 (op a.num b.num) :=
        ⟨by norm_num [Width.bits]; omega, by norm_num [Width.bits]; omega⟩
      rw [if_neg (by decide), if_pos hfits]
      rfl

theorem div_int {x y : ℤ} (hy : y ≠ 0) :
    div w (int x) (int y) = if Fits w (x.tdiv y) then some (int (x.tdiv y)) else none := if_neg hy

/-! ### Natural numbers of sixteen bits -/

/-- The operand is this number, as an `int` or as a number of sixteen bits. -/
def IsNum (w : Width) (v : Value) (n : ℕ) : Prop := v = int n ∨ v = ofU16 w n

theorem IsNum.num {v : Value} {n : ℕ} (h : IsNum w v n) : v.num = n := by
  rcases h with rfl | rfl <;> rfl

theorem IsNum.kind {v : Value} {n : ℕ} (h : IsNum w v n) :
    (decide (w = .int16) || v.isUnsigned) = decide (w = .int16) := by
  rcases h with rfl | rfl
  · exact Bool.or_false _
  · exact Bool.or_self _

theorem mul_ofU16 {v : Value} {m n : ℕ} (hv : IsNum w v n) (hm : m < 65536) (hn : n < 65536)
    (hprod : m * n < 65536) : mul w (ofU16 w m) v = some (ofU16 w (m * n : ℕ)) := by
  have heq : (ofU16 w m).num * v.num = (m * n : ℕ) := by
    rw [hv.num, Int.natCast_mul]
    rfl
  rw [mul, arith_of_small hv.kind ⟨by exact Int.natCast_nonneg m, by change (m : ℤ) < 65536; omega⟩
    (by rw [hv.num]; omega) (by rw [heq]; omega), heq]

theorem div_ofU16 {m n : ℕ} (hm : m < 65536) (hpos : 0 < n) (hn : n < 65536) :
    div w (ofU16 w m) (int n) = some (ofU16 w (m / n : ℕ)) := by
  have hlt : m / n < 65536 := (Nat.div_le_self m n).trans_lt hm
  have heq : (ofU16 w m).num.tdiv (int n).num = (m / n : ℕ) := (Int.ofNat_tdiv m n).symm
  have hne : (int n).num ≠ 0 := by
    change (n : ℤ) ≠ 0
    omega
  rw [div, if_neg hne, arith_of_small (Bool.or_false _)
    ⟨by exact Int.natCast_nonneg m, by change (m : ℤ) < 65536; omega⟩
    ⟨by exact Int.natCast_nonneg n, by change (n : ℤ) < 65536; omega⟩
    ⟨by rw [heq]; exact Int.natCast_nonneg _, by rw [heq]; exact_mod_cast hlt⟩, heq]

theorem sub_isNum {v : Value} {m n : ℕ} (hv : IsNum w v n) (hle : n ≤ m) (hm : m < 32768) :
    ∃ u, sub w (int m) v = some u ∧ IsNum w u (m - n) := by
  have heq : (m : ℤ) - n = (m - n : ℕ) := (Int.ofNat_sub hle).symm
  rcases hv with rfl | rfl
  · refine ⟨int (m - n : ℕ), ?_, .inl rfl⟩
    rw [sub, arith_int, heq, if_pos (fits_of_abs_le (abs_le.mpr ⟨by omega, by omega⟩))]
  · refine ⟨ofU16 w (m - n : ℕ), ?_, .inr rfl⟩
    have hnum : (int m).num - (ofU16 w n).num = (m - n : ℕ) := heq
    rw [sub, arith_of_small (Bool.false_or _)
      ⟨by exact Int.natCast_nonneg m, by change (m : ℤ) < 65536; omega⟩
      ⟨by exact Int.natCast_nonneg n, by change (n : ℤ) < 65536; omega⟩ (by rw [hnum]; omega),
      hnum]

end CInteger
