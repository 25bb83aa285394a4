import Mathlib.Data.Nat.Init
import Mathlib.Logic.Function.Basic
import Mathlib.Logic.Relation
import Mathlib.Order.Nat
import Mathlib.Tactic.Common

/-!
# Numbers given out by a depth-first walk

Every number above the root has a parent. When the parent of a number is the number before it, or
one that the number before it hangs from, the numbers come in pre-order: whatever hangs from a
number forms an interval that begins with it, and the intervals of two siblings do not overlap.
-/

namespace PreorderNumbers

/-- The second number is the first one or hangs from it. -/
def Under (root : ℕ) (parent : ℕ → ℕ) : ℕ → ℕ → Prop :=
  Relation.ReflTransGen fun a b => root < b ∧ parent b = a

/-- The numbers up to `n` are in pre-order. -/
def InPreorder (root : ℕ) (parent : ℕ → ℕ) (n : ℕ) : Prop :=
  ∀ k, root < k → k ≤ n → Under root parent (parent k) (k - 1)

variable {root n : ℕ} {parent : ℕ → ℕ}

/-- A number hangs from others only through its parent. -/
theorem Under.eq_or_parent {a b : ℕ} (h : Under root parent a b) :
    a = b ∨ root < b ∧ Under root parent a (parent b) := by
  cases h with
  | refl => exact .inl rfl
  | tail hrest hlast =>
      obtain ⟨hroot, rfl⟩ := hlast
      exact .inr ⟨hroot, hrest⟩

namespace InPreorder

variable (h : InPreorder root parent n)

include h

theorem le {a b : ℕ} (hab : Under root parent a b) (hb : b ≤ n) : a ≤ b := by
  induction b using Nat.strong_induction_on with
  | _ b ih =>
      rcases hab.eq_or_parent with rfl | ⟨hroot, hparent⟩
      · exact le_rfl
      · have hbefore := hparent.trans (h b hroot hb)
        have := ih (b - 1) (by omega) hbefore (by omega)
        omega

theorem parent_lt {k : ℕ} (hroot : root < k) (hk : k ≤ n) : parent k < k := by
  have := h.le (h k hroot hk) (by omega)
  omega

/-- What hangs from a number is an interval. -/
theorem under_of_between {a b c : ℕ} (hac : Under root parent a c) (hab : a ≤ b) (hbc : b ≤ c)
    (hc : c ≤ n) : Under root parent a b := by
  induction c with
  | zero =>
      have hzero : b = 0 := by omega
      exact hzero ▸ hac
  | succ c ih =>
      by_cases heq : b = c + 1
      · exact heq ▸ hac
      · rcases hac.eq_or_parent with rfl | ⟨hroot, hparent⟩
        · omega
        · exact ih (hparent.trans (h (c + 1) hroot hc)) (by omega) (by omega)

/-- What hangs from the older of two siblings comes before the younger one. -/
theorem lt_of_sibling {i j d : ℕ} (hi : root < i) (hij : i < j) (hj : j ≤ n)
    (hsibling : parent i = parent j) (hd : Under root parent i d) (hdn : d ≤ n) : d < j := by
  by_contra hle
  have hbetween := h.under_of_between hd hij.le (not_lt.mp hle) hdn
  rcases hbetween.eq_or_parent with heq | ⟨-, hparent⟩
  · omega
  · have hle' := h.le (hsibling ▸ hparent) (by have := h.parent_lt hi (by omega); omega)
    have := h.parent_lt hi (by omega)
    omega

/-- A new parent for a number that comes later changes nothing among the numbers before it. -/
theorem under_update {a b m p : ℕ} (hab : Under root parent a b) (hb : b ≤ n) (hm : b < m) :
    Under root (Function.update parent m p) a b := by
  induction hab with
  | refl => exact .refl
  | @tail b c hac hlast ih =>
      obtain ⟨hroot, rfl⟩ := hlast
      have hlt := h.parent_lt hroot hb
      refine (ih (by omega) (by omega)).tail ⟨hroot, ?_⟩
      exact Function.update_of_ne (by omega) _ _

end InPreorder

/-- The next number may hang from the last one or from whatever the last one hangs from. -/
theorem InPreorder.update (h : InPreorder root parent n) {p : ℕ} (hp : Under root parent p n) :
    InPreorder root (Function.update parent (n + 1) p) (n + 1) := by
  intro k hroot hk
  by_cases hlast : k = n + 1
  · subst hlast
    rw [Function.update_self]
    rw [Nat.add_sub_cancel]
    exact h.under_update hp le_rfl (Nat.lt_succ_self n)
  · rw [Function.update_of_ne hlast]
    exact h.under_update (h k hroot (by omega)) (by omega) (by omega)

end PreorderNumbers
