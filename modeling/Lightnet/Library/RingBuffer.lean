import Mathlib.Data.Fin.Basic
import Mathlib.Data.Nat.ModEq
import Mathlib.Logic.Function.Basic
import Mathlib.Tactic.Common

/-!
# Runs of cells on a ring

The cells of a ring are numbered from zero, and the last one is followed by the first. A run of
cells is given by where it starts and how long it is, so that it may cross the end of the ring
anywhere. Storing a word behind a run makes the run longer by the word and keeps what it held, as
long as both fit on the ring.
-/

namespace RingBuffer

variable {n : ℕ} {α : Type*}

def next (p : Fin n) : Fin n :=
  if h : p.val + 1 = n then ⟨0, by have := p.isLt; omega⟩
  else ⟨p.val + 1, by have := p.isLt; omega⟩

/-- The cell that is `k` steps ahead. -/
def ahead (p : Fin n) : ℕ → Fin n
  | 0 => p
  | k + 1 => ahead (next p) k

def walk (cells : Fin n → α) (p : Fin n) : ℕ → List α
  | 0 => []
  | k + 1 => cells p :: walk cells (next p) k

/-- The cells after a word is stored from `p` on, and the cell behind the word. -/
def store (cells : Fin n → α) (p : Fin n) : List α → (Fin n → α) × Fin n
  | [] => (cells, p)
  | a :: as => store (Function.update cells p a) (next p) as

/-- The number of steps from `r` to `w`. -/
def distance (r w : Fin n) : ℕ :=
  if r.val ≤ w.val then w.val - r.val else n - r.val + w.val

theorem val_next (p : Fin n) : (next p).val = (p.val + 1) % n := by
  have hp := p.isLt
  unfold next
  split_ifs with h
  · rw [h, Nat.mod_self]
  · exact (Nat.mod_eq_of_lt (by omega)).symm

theorem val_ahead (p : Fin n) (k : ℕ) : (ahead p k).val = (p.val + k) % n := by
  induction k generalizing p with
  | zero => exact (Nat.mod_eq_of_lt p.isLt).symm
  | succ k ih =>
      rw [ahead, ih, val_next, Nat.mod_add_mod]
      congr 1
      omega

theorem ahead_add (p : Fin n) (j k : ℕ) : ahead (ahead p j) k = ahead p (j + k) := by
  apply Fin.ext
  rw [val_ahead, val_ahead, val_ahead, Nat.mod_add_mod, Nat.add_assoc]

theorem ahead_inj {p : Fin n} {j k : ℕ} (hj : j < n) (hk : k < n) (h : ahead p j = ahead p k) :
    j = k := by
  have hmod := congrArg Fin.val h
  rw [val_ahead, val_ahead] at hmod
  have hcancel : j % n = k % n := Nat.ModEq.add_left_cancel' p.val hmod
  rwa [Nat.mod_eq_of_lt hj, Nat.mod_eq_of_lt hk] at hcancel

theorem distance_lt (r w : Fin n) : distance r w < n := by
  have hr := r.isLt
  have hw := w.isLt
  unfold distance
  split_ifs <;> omega

theorem ahead_distance (r w : Fin n) : ahead r (distance r w) = w := by
  have hr := r.isLt
  have hw := w.isLt
  apply Fin.ext
  rw [val_ahead]
  unfold distance
  split_ifs with h
  · rw [Nat.add_sub_of_le h, Nat.mod_eq_of_lt hw]
  · have hturn : r.val + (n - r.val + w.val) = w.val + n := by omega
    rw [hturn, Nat.add_mod_right, Nat.mod_eq_of_lt hw]

theorem distance_ahead (r : Fin n) {k : ℕ} (hk : k < n) : distance r (ahead r k) = k :=
  ahead_inj (distance_lt r _) hk (ahead_distance r _)

@[simp] theorem length_walk (cells : Fin n → α) (p : Fin n) (k : ℕ) :
    (walk cells p k).length = k := by
  induction k generalizing p with
  | zero => rfl
  | succ k ih => simp [walk, ih]

theorem walk_add (cells : Fin n → α) (p : Fin n) (j k : ℕ) :
    walk cells p (j + k) = walk cells p j ++ walk cells (ahead p j) k := by
  induction j generalizing p with
  | zero => simp [walk, ahead]
  | succ j ih =>
      rw [Nat.succ_add, walk, ih, walk, ahead]
      rfl

theorem walk_congr {cells cells' : Fin n → α} {p : Fin n} {k : ℕ}
    (h : ∀ j, j < k → cells (ahead p j) = cells' (ahead p j)) :
    walk cells p k = walk cells' p k := by
  induction k generalizing p with
  | zero => rfl
  | succ k ih =>
      rw [walk, walk, ih (fun j hj => h (j + 1) (by omega))]
      exact congrArg (· :: _) (h 0 (by omega))

theorem store_snd (cells : Fin n → α) (p : Fin n) (as : List α) :
    (store cells p as).2 = ahead p as.length := by
  induction as generalizing cells p with
  | nil => rfl
  | cons a as ih =>
      rw [store, ih]
      rfl

theorem store_fst_of_ne {cells : Fin n → α} {p q : Fin n} {as : List α}
    (h : ∀ j, j < as.length → q ≠ ahead p j) : (store cells p as).1 q = cells q := by
  induction as generalizing cells p with
  | nil => rfl
  | cons a as ih =>
      rw [store, ih (fun j hj => h (j + 1) (Nat.succ_lt_succ hj))]
      exact Function.update_of_ne (h 0 (Nat.succ_pos _)) a cells

theorem walk_store_before {cells : Fin n → α} {r : Fin n} {m : ℕ} {as : List α}
    (h : m + as.length ≤ n) : walk (store cells (ahead r m) as).1 r m = walk cells r m := by
  apply walk_congr
  intro j hj
  apply store_fst_of_ne
  intro i hi heq
  rw [ahead_add] at heq
  have := ahead_inj (by omega) (by omega) heq
  omega

theorem walk_store_self {cells : Fin n → α} {p : Fin n} {as : List α} (h : as.length ≤ n) :
    walk (store cells p as).1 p as.length = as := by
  induction as generalizing cells p with
  | nil => rfl
  | cons a as ih =>
      rw [List.length_cons] at h
      rw [List.length_cons, walk, store, ih (by omega)]
      congr 1
      rw [store_fst_of_ne, Function.update_self]
      intro j hj heq
      have := ahead_inj (p := p) (j := 0) (k := j + 1) (by omega) (by omega) heq
      omega

/-- A word that is stored behind a run makes the run longer. -/
theorem walk_store {cells : Fin n → α} {r : Fin n} {m : ℕ} {as : List α}
    (h : m + as.length ≤ n) :
    walk (store cells (ahead r m) as).1 r (m + as.length) = walk cells r m ++ as := by
  rw [walk_add, walk_store_before h, walk_store_self (by omega)]

end RingBuffer
