import Mathlib.Data.List.Basic
import Mathlib.Data.List.TakeDrop
import Mathlib.Tactic.Common

/-!
# Buffers of a fixed size

A buffer is the list of its cells. A write names the cell it starts at, and one that goes past the
last cell is an overrun. A text in a buffer is followed by a terminator, so that it needs one more
cell than it is long.
-/

namespace BoundedBuffer

variable {α : Type*}

inductive Overrun where
  | overrun
  deriving DecidableEq

def writeAt (buf : List α) (pos : ℕ) (t : List α) : Except Overrun (List α) :=
  if pos + t.length ≤ buf.length then .ok (buf.take pos ++ t ++ buf.drop (pos + t.length))
  else .error .overrun

theorem writeAt_ok {buf t : List α} {pos : ℕ} (h : pos + t.length ≤ buf.length) :
    writeAt buf pos t = .ok (buf.take pos ++ t ++ buf.drop (pos + t.length)) := if_pos h

theorem exists_writeAt {buf : List α} {pos : ℕ} (t : List α) (h : pos + t.length ≤ buf.length) :
    ∃ buf', writeAt buf pos t = .ok buf' :=
  ⟨_, writeAt_ok h⟩

section WriteAt

variable {buf buf' t : List α} {pos : ℕ}

theorem le_of_writeAt (hput : writeAt buf pos t = .ok buf') : pos + t.length ≤ buf.length := by
  unfold writeAt at hput
  split_ifs at hput with h
  exact h

theorem eq_of_writeAt (hput : writeAt buf pos t = .ok buf') :
    buf' = buf.take pos ++ t ++ buf.drop (pos + t.length) := by
  rw [writeAt_ok (le_of_writeAt hput)] at hput
  injection hput with hput
  exact hput.symm

theorem length_writeAt (hput : writeAt buf pos t = .ok buf') : buf'.length = buf.length := by
  have h := le_of_writeAt hput
  rw [eq_of_writeAt hput]
  simp only [List.length_append, List.length_take, List.length_drop]
  omega

theorem take_writeAt (hput : writeAt buf pos t = .ok buf') :
    buf'.take (pos + t.length) = buf.take pos ++ t := by
  have h := le_of_writeAt hput
  have hlen : (buf.take pos ++ t).length = pos + t.length := by
    rw [List.length_append, List.length_take]
    omega
  rw [eq_of_writeAt hput, List.take_left' hlen]

theorem take_writeAt_of_le {k : ℕ} (hput : writeAt buf pos t = .ok buf') (hk : k ≤ pos) :
    buf'.take k = buf.take k := by
  have h := le_of_writeAt hput
  have htake : (buf'.take (pos + t.length)).take k = (buf.take pos ++ t).take k := by
    rw [take_writeAt hput]
  have hlen : k ≤ (buf.take pos).length := by
    rw [List.length_take]
    omega
  rwa [List.take_take, Nat.min_eq_left (by omega), List.take_append_of_le_length hlen,
    List.take_take, Nat.min_eq_left hk] at htake

theorem drop_writeAt (hput : writeAt buf pos t = .ok buf') :
    buf'.drop (pos + t.length) = buf.drop (pos + t.length) := by
  have h := le_of_writeAt hput
  have hlen : (buf.take pos ++ t).length = pos + t.length := by
    rw [List.length_append, List.length_take]
    omega
  rw [eq_of_writeAt hput, List.drop_left' hlen]

end WriteAt

/-! ### Terminated texts -/

/-- The buffer with a text and its terminator from cell `pos` on. -/
def terminated (nul : α) (buf : List α) (pos : ℕ) (t : List α) : List α :=
  buf.take pos ++ t ++ nul :: buf.drop (pos + t.length + 1)

variable {nul : α} {buf t u : List α} {pos : ℕ}

theorem length_terminated (h : pos + t.length < buf.length) :
    (terminated nul buf pos t).length = buf.length := by
  simp only [terminated, List.length_append, List.length_take, List.length_cons, List.length_drop]
  omega

theorem take_terminated (h : pos + t.length < buf.length) :
    (terminated nul buf pos t).take (pos + t.length) = buf.take pos ++ t := by
  have hlen : (buf.take pos ++ t).length = pos + t.length := by
    rw [List.length_append, List.length_take]
    omega
  rw [terminated, ← hlen, List.take_left]

theorem take_terminated_of_le {k : ℕ} (hk : k ≤ pos) (h : pos ≤ buf.length) :
    (terminated nul buf pos t).take k = buf.take k := by
  have hlen : k ≤ (buf.take pos).length := by
    rw [List.length_take]
    omega
  rw [terminated, List.append_assoc, List.take_append_of_le_length hlen, List.take_take,
    Nat.min_eq_left hk]

theorem drop_terminated (h : pos + t.length < buf.length) :
    (terminated nul buf pos t).drop (pos + t.length + 1) = buf.drop (pos + t.length + 1) := by
  have hlen : (buf.take pos ++ t ++ [nul]).length = pos + t.length + 1 := by
    simp only [List.length_append, List.length_take, List.length_singleton]
    omega
  rw [terminated, List.append_cons, List.drop_left' hlen]

/-- A second text over the terminator of the first. -/
theorem terminated_terminated (h : pos + t.length + u.length < buf.length) :
    terminated nul (terminated nul buf pos t) (pos + t.length) u =
      terminated nul buf pos (t ++ u) := by
  have hdrop : (terminated nul buf pos t).drop (pos + t.length + u.length + 1) =
      buf.drop (pos + t.length + u.length + 1) := by
    have hshift : pos + t.length + u.length + 1 = pos + t.length + 1 + u.length := by omega
    rw [hshift, ← List.drop_drop, drop_terminated (by omega), List.drop_drop]
  rw [terminated, take_terminated (by omega), hdrop]
  simp only [terminated, List.length_append, List.append_assoc, Nat.add_assoc]

/-- A text that begins with what an earlier write has put there. -/
theorem terminated_writeAt {buf' : List α} (hput : writeAt buf pos t = .ok buf') :
    terminated nul buf' (pos + t.length) u = terminated nul buf pos (t ++ u) := by
  have hshift : pos + t.length + u.length + 1 = pos + t.length + (u.length + 1) := by omega
  rw [terminated, take_writeAt hput, hshift, ← List.drop_drop, drop_writeAt hput, List.drop_drop,
    ← hshift]
  simp only [terminated, List.length_append, List.append_assoc, Nat.add_assoc]

theorem writeAt_terminator {buf' : List α} (hput : writeAt buf pos t = .ok buf')
    (h : pos + t.length < buf.length) :
    writeAt buf' (pos + t.length) [nul] = .ok (terminated nul buf pos t) := by
  have hlen := length_writeAt hput
  rw [writeAt_ok (by rw [List.length_singleton]; omega), take_writeAt hput, ← List.drop_drop,
    drop_writeAt hput, List.drop_drop, terminated, List.append_assoc _ [nul]]
  rfl

/-! ### Writers -/

/-- A writer that puts a text and its terminator at `pos` and returns the position of the
terminator. Without room for both it returns no position, and the cells before `pos` are as they
were. -/
def Appends (nul : α) (buf : List α) (pos : ℕ) (t : List α)
    (r : Except Overrun (Option ℕ × List α)) : Prop :=
  (pos + t.length < buf.length ∧ r = .ok (some (pos + t.length), terminated nul buf pos t)) ∨
    (buf.length ≤ pos + t.length ∧ ∃ buf', buf'.length = buf.length ∧
      buf'.take pos = buf.take pos ∧ r = .ok (none, buf'))

variable {r : Except Overrun (Option ℕ × List α)}

theorem Appends.full (h : buf.length ≤ pos + t.length) {buf' : List α}
    (hlen : buf'.length = buf.length) (htake : buf'.take pos = buf.take pos) :
    Appends nul buf pos t (.ok (none, buf')) :=
  .inr ⟨h, buf', hlen, htake, rfl⟩

theorem Appends.cases (h : Appends nul buf pos t r) :
    (pos + t.length < buf.length ∧ r = .ok (some (pos + t.length), terminated nul buf pos t)) ∨
      (buf.length ≤ pos + t.length ∧ ∃ buf', buf'.length = buf.length ∧
        buf'.take pos = buf.take pos ∧ r = .ok (none, buf')) := h

/-- A writer that goes on behind what an earlier write has put there. -/
theorem Appends.writeAt {buf' : List α} (hput : writeAt buf pos t = .ok buf')
    (h : Appends nul buf' (pos + t.length) u r) : Appends nul buf pos (t ++ u) r := by
  have hbuf := length_writeAt hput
  have hlen : pos + (t ++ u).length = pos + t.length + u.length := by
    rw [List.length_append, Nat.add_assoc]
  rcases h with ⟨hroom, rfl⟩ | ⟨hfull, b, hb, htake, rfl⟩
  · refine .inl ⟨by omega, ?_⟩
    rw [terminated_writeAt hput, hlen]
  · refine .inr ⟨by omega, b, by omega, ?_, rfl⟩
    have hcut : (b.take (pos + t.length)).take pos = (buf'.take (pos + t.length)).take pos := by
      rw [htake]
    rw [List.take_take, List.take_take, Nat.min_eq_left (Nat.le_add_right _ _)] at hcut
    rw [hcut, take_writeAt_of_le hput (Nat.le_refl _)]

theorem Appends.bind_writeAt {f : List α → Except Overrun (Option ℕ × List α)}
    (hroom : pos + t.length ≤ buf.length)
    (h : ∀ buf', buf'.length = buf.length → Appends nul buf' (pos + t.length) u (f buf')) :
    Appends nul buf pos (t ++ u) (BoundedBuffer.writeAt buf pos t >>= f) := by
  obtain ⟨buf', hput⟩ := exists_writeAt t hroom
  rw [hput]
  exact .writeAt hput (h buf' (length_writeAt hput))

/-- The second writer goes on where the first has come to. -/
def andThen (r : Except Overrun (Option ℕ × List α))
    (g : List α → ℕ → Except Overrun (Option ℕ × List α)) :
    Except Overrun (Option ℕ × List α) :=
  r.bind fun x =>
    match x.1 with
    | none => .ok (none, x.2)
    | some pos => g x.2 pos

theorem Appends.andThen {g : List α → ℕ → Except Overrun (Option ℕ × List α)}
    (h : Appends nul buf pos t r)
    (hg : ∀ buf', buf'.length = buf.length → pos + t.length < buf.length →
      Appends nul buf' (pos + t.length) u (g buf' (pos + t.length))) :
    Appends nul buf pos (t ++ u) (andThen r g) := by
  have hlen : pos + (t ++ u).length = pos + t.length + u.length := by
    rw [List.length_append, Nat.add_assoc]
  rcases h with ⟨hroom, rfl⟩ | ⟨hfull, buf', hbuf', htake, rfl⟩
  · have hsize : (terminated nul buf pos t).length = _ := length_terminated hroom
    rcases (hg _ hsize hroom).cases with ⟨hroom', hok⟩ | ⟨hfull', b, hb, htake, hok⟩
    · rw [hsize] at hroom'
      refine .inl ⟨by omega, hok.trans ?_⟩
      rw [terminated_terminated hroom', hlen]
    · refine .inr ⟨by omega, b, hb.trans hsize, ?_, hok⟩
      have hcut := congrArg (List.take pos) htake
      rw [List.take_take, List.take_take, Nat.min_eq_left (Nat.le_add_right _ _)] at hcut
      rw [hcut, take_terminated_of_le (Nat.le_refl _) (by omega)]
  · exact .inr ⟨by omega, buf', hbuf', htake, rfl⟩

/-- A writer on the buffer from cell `k` on. -/
theorem Appends.slice {k : ℕ} (hk : k ≤ buf.length)
    (h : Appends nul (buf.drop k) pos t r) :
    Appends nul buf (k + pos) t (r.map fun x => (x.1.map (k + ·), buf.take k ++ x.2)) := by
  have hcells : (buf.take k).length = k := by
    rw [List.length_take]
    omega
  have htakes (b : List α) : (buf.take k ++ b).take (k + pos) = buf.take k ++ b.take pos := by
    have h := @List.take_length_add_append α (buf.take k) b pos
    rwa [hcells] at h
  rw [Appends, List.length_drop] at h
  rcases h with ⟨hroom, rfl⟩ | ⟨hfull, b, hb, htake, rfl⟩
  · refine .inl ⟨by omega, ?_⟩
    have hdrop : (buf.drop k).drop (pos + t.length + 1) = buf.drop (k + pos + t.length + 1) := by
      rw [List.drop_drop]
      congr 1
      omega
    simp only [Except.map, Option.map_some, terminated, List.take_add, hdrop, List.append_assoc]
    rw [← Nat.add_assoc]
  · refine .inr ⟨by omega, buf.take k ++ b, ?_, ?_, rfl⟩
    · rw [List.length_append, hcells, hb]
      omega
    · rw [htakes, htake, List.take_add]

end BoundedBuffer
