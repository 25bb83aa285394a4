import Lightnet.Library.RingBuffer

/-!
# A ring between a producer and a consumer

The producer writes behind the contents of a ring, and only then moves the write offset over what
it has written. The consumer reads the contents, and only then moves the read offset over what it
has read. What has been written and not been published is no part of the contents, and neither side
touches the cells of the other.
-/

namespace RingBuffer

variable {n : ℕ} {α : Type*}

/-- The ring holds `contents`, and behind them lies what the producer has not published yet. -/
structure Lies (cells : Fin n → α) (r w : Fin n) (contents unpublished : List α) : Prop where
  fits : contents.length + unpublished.length < n
  write : w = ahead r contents.length
  cells : walk cells r (contents.length + unpublished.length) = contents ++ unpublished

namespace Lies

variable {cells : Fin n → α} {r w : Fin n} {contents unpublished : List α}
  (h : Lies cells r w contents unpublished)

include h

theorem eq_iff : w = r ↔ contents = [] := by
  have hfits := h.fits
  constructor
  · intro heq
    have hwrite := h.write
    rw [heq] at hwrite
    have hzero : 0 = contents.length := ahead_inj (p := r) (by omega) (by omega) hwrite
    exact List.length_eq_zero_iff.mp hzero.symm
  · intro hempty
    rw [h.write, hempty]
    rfl

/-- The producer writes a cell that is neither contents nor written before. -/
theorem put (a : α) (hroom : contents.length + unpublished.length + 1 < n) :
    Lies (Function.update cells (ahead w unpublished.length) a) r w contents
      (unpublished ++ [a]) := by
  refine ⟨by rw [List.length_append, List.length_singleton]; omega, h.write, ?_⟩
  have hword : (store cells (ahead r (contents.length + unpublished.length)) [a]).1 =
      Function.update cells (ahead w unpublished.length) a := by
    rw [h.write, ahead_add]
    rfl
  have hfits : contents.length + unpublished.length + [a].length ≤ n := by
    rw [List.length_singleton]
    omega
  have hwalk : walk (store cells (ahead r (contents.length + unpublished.length)) [a]).1 r
      (contents.length + unpublished.length + [a].length) =
        walk cells r (contents.length + unpublished.length) ++ [a] := walk_store hfits
  rw [hword, h.cells, List.append_assoc] at hwalk
  rw [List.length_append, ← Nat.add_assoc]
  exact hwalk

/-- The write offset moves over what has been written. -/
theorem publish : Lies cells r (ahead w unpublished.length) (contents ++ unpublished) [] := by
  refine ⟨?_, ?_, ?_⟩
  · rw [List.length_append]
    exact h.fits
  · rw [h.write, ahead_add, List.length_append]
  · rw [List.length_append, List.length_nil, Nat.add_zero, List.append_nil]
    exact h.cells

/-- The consumer reads what was written. -/
theorem get {j : ℕ} (hj : j < contents.length) : cells (ahead r j) = contents[j] := by
  have hwalk := h.cells
  have hsplit : contents.length + unpublished.length =
      j + (1 + (contents.length + unpublished.length - j - 1)) := by omega
  have hget : (walk cells r (contents.length + unpublished.length))[j]? =
      some (cells (ahead r j)) := by
    rw [hsplit, walk_add, walk_add, List.getElem?_append_right (by rw [length_walk]), length_walk,
      Nat.sub_self]
    rfl
  rw [hwalk, List.getElem?_append_left hj, List.getElem?_eq_getElem hj] at hget
  exact (Option.some.inj hget).symm

end Lies

/-- The read offset moves over what has been read. -/
theorem Lies.release {cells : Fin n → α} {r w : Fin n} {taken rest unpublished : List α}
    (h : Lies cells r w (taken ++ rest) unpublished) :
    Lies cells (ahead r taken.length) w rest unpublished := by
  have hfits := h.fits
  have hcells := h.cells
  rw [List.length_append] at hfits hcells
  refine ⟨by omega, ?_, ?_⟩
  · rw [h.write, List.length_append, ahead_add]
  · rw [Nat.add_assoc, walk_add, List.append_assoc] at hcells
    exact (List.append_inj hcells (length_walk _ _ _)).2

end RingBuffer
