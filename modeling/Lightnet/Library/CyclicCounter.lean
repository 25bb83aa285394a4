import Mathlib.Data.Finset.Card
import Mathlib.Data.Nat.ModEq
import Mathlib.Data.Set.Function
import Mathlib.Order.Interval.Set.Defs

/-!
# Slots taken in turn by a counter that wraps

A free-running counter below `n` picks one of `s` slots by its remainder. As long as the counter
does not wrap, `s` picks in a row are of `s` different slots; across a wrap they are only if the
slots divide the range of the counter.
-/

namespace CyclicCounter

/-- The slot of the `j`-th pick from the counter `k` on. -/
def slot (n s k j : ℕ) : ℕ := (k + j) % n % s

variable {n s k : ℕ}

theorem slot_lt (hs : 0 < s) (j : ℕ) : slot n s k j < s := Nat.mod_lt _ hs

theorem slot_succ (j : ℕ) : slot n s ((k + 1) % n) j = slot n s k (j + 1) := by
  rw [slot, slot, Nat.mod_add_mod, Nat.add_assoc, Nat.add_comm 1 j]

/-- Consecutive numbers have different remainders. -/
theorem injOn_add_mod (c : ℕ) : Set.InjOn (fun j => (c + j) % s) (Set.Iio s) := by
  intro a ha b hb h
  have hab : a % s = b % s := Nat.ModEq.add_left_cancel' c h
  rwa [Nat.mod_eq_of_lt ha, Nat.mod_eq_of_lt hb] at hab

theorem slot_of_dvd (h : n % s = 0) (j : ℕ) : slot n s k j = (k + j) % s :=
  Nat.mod_mod_of_dvd _ (Nat.dvd_of_mod_eq_zero h)

theorem slot_of_lt {j : ℕ} (h : k % n + j < n) : slot n s k j = (k % n + j) % s := by
  rw [slot, Nat.add_mod k j n, Nat.mod_eq_of_lt (show j < n by omega), Nat.mod_eq_of_lt h]

theorem slot_of_wrapped {j : ℕ} (hle : n ≤ k % n + j) (hlt : k % n + j < n + s) (hs : s ≤ n) :
    slot n s k j = (k % n + j - n) % s := by
  have hmod : (k + j) % n = k % n + j - n := by
    rw [Nat.add_mod_eq_add_mod_right j (Nat.mod_mod k n).symm, Nat.mod_eq_sub_mod hle,
      Nat.mod_eq_of_lt (by omega)]
  rw [slot, hmod]

/-- With `r` over from the range, the pick `r` places after the one before the wrap is of the same
slot. -/
theorem slot_collision (hs : s ≤ n) (hover : n % s ≠ 0) (hwrap : n < k % n + s) :
    ∃ a b, a < s ∧ b < s ∧ a ≠ b ∧ slot n s k a = slot n s k b := by
  have hn : n ≠ 0 := by
    rintro rfl
    exact hover (Nat.zero_mod s)
  have hk : k % n < n := Nat.mod_lt _ (Nat.pos_of_ne_zero hn)
  have hr : n % s < s := Nat.mod_lt _ (by omega)
  have hdiv := Nat.div_add_mod n s
  by_cases hcase : n % s ≤ n - k % n
  · refine ⟨n - k % n - n % s, n - k % n, by omega, by omega, by omega, ?_⟩
    have hbefore : k % n + (n - k % n - n % s) = s * (n / s) := by omega
    have hafter : k % n + (n - k % n) - n = 0 := by omega
    rw [slot_of_lt (by omega), slot_of_wrapped (by omega) (by omega) hs, hbefore, hafter,
      Nat.mul_mod_right, Nat.zero_mod]
  · refine ⟨0, n % s, by omega, hr, by omega, ?_⟩
    have hbefore : k % n + 0 = s * (n / s) + (n % s - (n - k % n)) := by omega
    have hafter : k % n + n % s - n = n % s - (n - k % n) := by omega
    rw [slot_of_lt (by omega), slot_of_wrapped (by omega) (by omega) hs, hbefore, hafter,
      Nat.mul_add_mod]

/-- When `s` picks in a row are of different slots. -/
theorem slot_injOn_iff (hs : s ≤ n) :
    Set.InjOn (slot n s k) (Set.Iio s) ↔ n % s = 0 ∨ k % n + s ≤ n := by
  constructor
  · intro h
    by_contra hnot
    rw [not_or, not_le] at hnot
    obtain ⟨a, b, ha, hb, hne, heq⟩ := slot_collision hs hnot.1 hnot.2
    exact hne (h ha hb heq)
  · rintro (hdvd | hroom)
    · refine (injOn_add_mod k).congr fun j _ => ?_
      exact (slot_of_dvd hdvd j).symm
    · refine (injOn_add_mod (k % n)).congr fun j hj => ?_
      have hj : j < s := hj
      exact (slot_of_lt (by omega)).symm

/-- If no slot is picked twice, each one is picked. -/
theorem slot_surj (h : Set.InjOn (slot n s k) (Set.Iio s)) {t : ℕ} (ht : t < s) :
    ∃ j < s, slot n s k j = t := by
  have hmaps : Set.MapsTo (slot n s k) (Finset.range s) (Finset.range s) := fun j _ => by
    rw [Finset.coe_range]
    exact slot_lt (by omega) j
  rw [← Finset.coe_range] at h
  obtain ⟨j, hj, heq⟩ := Finset.surjOn_of_injOn_of_card_le _ hmaps h le_rfl
    (Finset.mem_coe.mpr (Finset.mem_range.mpr ht))
  exact ⟨j, Finset.mem_range.mp hj, heq⟩

end CyclicCounter
