import Mathlib.Data.List.Induction
import Mathlib.Tactic.Common

/-!
# Tables with checked accesses

A table is a list of cells, of which some may not be set. To name a cell that the table does not
have, to read one that is not set and to divide by zero are undefined.
-/

namespace CheckedTable

variable {α : Type*}

inductive Undefined where
  | outOfRange
  | unset
  | divideByZero
  deriving DecidableEq

def read (t : List (Option α)) (i : ℕ) : Except Undefined α :=
  match t[i]? with
  | none => .error .outOfRange
  | some none => .error .unset
  | some (some a) => .ok a

def write (t : List (Option α)) (i : ℕ) (a : α) : Except Undefined (List (Option α)) :=
  if i < t.length then .ok (t.set i (some a)) else .error .outOfRange

def divide [Div α] [NatCast α] (a : α) (n : ℕ) : Except Undefined α :=
  if n = 0 then .error .divideByZero else .ok (a / n)

/-- The cell can be read. -/
def IsSet (t : List (Option α)) (i : ℕ) : Prop := ∃ a, t[i]? = some (some a)

theorem divide_ok [Div α] [NatCast α] (a : α) {n : ℕ} (h : 0 < n) : divide a n = .ok (a / n) :=
  if_neg (Nat.ne_of_gt h)

section
variable {t t' : List (Option α)} {i j : ℕ} {a : α}

theorem read_ok (h : t[i]? = some (some a)) : read t i = .ok a := by
  rw [read, h]

theorem exists_read (h : IsSet t i) : ∃ a, read t i = .ok a := by
  obtain ⟨a, ha⟩ := h
  exact ⟨a, read_ok ha⟩

theorem isSet_of_read (h : read t i = .ok a) : IsSet t i := by
  unfold read at h
  split at h
  · cases h
  · cases h
  · exact ⟨_, by assumption⟩

theorem IsSet.lt_length (h : IsSet t i) : i < t.length := by
  obtain ⟨a, ha⟩ := h
  exact (List.getElem?_eq_some_iff.mp ha).1

theorem write_ok (a : α) (h : i < t.length) : write t i a = .ok (t.set i (some a)) := if_pos h

/-- A write sets its cell and leaves the others. -/
theorem isSet_set (h : i < t.length) : IsSet (t.set i (some a)) j ↔ j = i ∨ IsSet t j := by
  by_cases hji : j = i
  · rw [hji]
    exact iff_of_true ⟨a, by rw [List.getElem?_set_self h]⟩ (.inl rfl)
  · rw [IsSet, List.getElem?_set_ne (Ne.symm hji)]
    exact (or_iff_right hji).symm

theorem not_isSet_replicate {n : ℕ} : ¬IsSet (List.replicate n (none : Option α)) i := by
  rintro ⟨a, ha⟩
  have hmem := List.mem_of_getElem? ha
  cases List.eq_of_mem_replicate hmem

end

/-! ### Loops that may fail -/

section Loops

variable {ε β γ : Type*} {f : β → γ → Except ε β}

theorem ok_bind {β γ : Type _} (b : β) (g : β → Except ε γ) : (Except.ok b >>= g) = g b := rfl

theorem bind_eq_ok {β γ : Type _} {x : Except ε β} {g : β → Except ε γ} {c : γ} :
    (x >>= g) = .ok c ↔ ∃ b, x = .ok b ∧ g b = .ok c := by
  cases x with
  | error e => exact iff_of_false (fun h => by cases h) fun ⟨_, h, _⟩ => by cases h
  | ok b =>
      refine ⟨fun h => ⟨b, rfl, h⟩, ?_⟩
      rintro ⟨b', hb, hg⟩
      rw [Except.ok.inj hb]
      exact hg

theorem foldlM_append_ok {b c : β} {l : List γ} (h : l.foldlM f b = .ok c) (a : γ) :
    (l ++ [a]).foldlM f b = f c a := by
  rw [List.foldlM_append, h]
  change List.foldlM f c [a] = f c a
  rw [List.foldlM_cons]
  cases f c a <;> rfl

/-- A loop over a list goes through when each turn does, after those before it. -/
theorem foldlM_ok (P : List γ → β → Prop) {b : β} (l : List γ) (hstart : P [] b)
    (hstep : ∀ pre a post c, l = pre ++ a :: post → P pre c → ∃ c', f c a = .ok c' ∧
      P (pre ++ [a]) c') : ∃ c, l.foldlM f b = .ok c ∧ P l c := by
  induction l using List.reverseRecOn with
  | nil => exact ⟨b, rfl, hstart⟩
  | append_singleton l a ih =>
      obtain ⟨c, hfold, hc⟩ := ih fun pre d post c heq =>
        hstep pre d (post ++ [a]) c (by rw [heq, List.append_assoc]; rfl)
      obtain ⟨c', hf, hc'⟩ := hstep l a [] c rfl hc
      exact ⟨c', (foldlM_append_ok hfold a).trans hf, hc'⟩

/-- A loop over the numbers below `n`. -/
theorem foldlM_range_ok {f : β → ℕ → Except ε β} (P : ℕ → β → Prop) {b : β} (n : ℕ)
    (hstart : P 0 b)
    (hstep : ∀ k < n, ∀ c, P k c → ∃ c', f c k = .ok c' ∧ P (k + 1) c') :
    ∃ c, (List.range n).foldlM f b = .ok c ∧ P n c := by
  induction n with
  | zero => exact ⟨b, rfl, hstart⟩
  | succ n ih =>
      obtain ⟨c, hfold, hc⟩ := ih fun k hk => hstep k (by omega)
      obtain ⟨c', hf, hc'⟩ := hstep n (by omega) c hc
      rw [List.range_succ]
      exact ⟨c', (foldlM_append_ok hfold n).trans hf, hc'⟩

/-- In a loop that goes through, each turn does. -/
theorem exists_ok_of_mem {b c : β} {l : List γ} (h : l.foldlM f b = .ok c) {a : γ} (ha : a ∈ l) :
    ∃ d d', f d a = .ok d' := by
  induction l generalizing b with
  | nil => cases ha
  | cons e l ih =>
      rw [List.foldlM_cons] at h
      cases he : f b e with
      | error err =>
          rw [he] at h
          cases h
      | ok d =>
          rw [he] at h
          rcases List.mem_cons.mp ha with rfl | ha
          · exact ⟨b, d, he⟩
          · exact ih h ha

end Loops

end CheckedTable
