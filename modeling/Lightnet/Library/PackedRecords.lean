import Lightnet.Library.BoundedBuffer

/-!
# Records packed in a buffer

Records of several sizes lie end to end in a buffer, and an index has an entry for each that says
where it starts. A record is overwritten in place by one of its size, added behind the last one, or
taken out, and then those behind it move down.
-/

namespace BoundedBuffer

variable {α : Type*}

/-- Move `n` cells from `src` on to `dst`. -/
def moveWithin (buf : List α) (dst src n : ℕ) : Except Overrun (List α) :=
  if src + n ≤ buf.length then writeAt buf dst ((buf.drop src).take n) else .error .overrun

end BoundedBuffer

namespace PackedRecords

open BoundedBuffer

variable {α ρ ε : Type*} (cells : ρ → List α)

/-- The cells of the records, end to end. -/
def area (rs : List ρ) : List α := rs.flatMap cells

/-- An entry for each record, from what it is and where it starts. -/
def index (entry : ρ → ℕ → ε) (start : ℕ) : List ρ → List ε
  | [] => []
  | r :: rs => entry r start :: index entry (start + (cells r).length) rs

/-- The entries lie end to end, from `start` up to `stop`. -/
def Tiles (offset size : ε → ℕ) (start : ℕ) : List ε → ℕ → Prop
  | [], stop => start = stop
  | e :: es, stop => offset e = start ∧ Tiles offset size (start + size e) es stop

section Area

variable {cells} {pre post rs : List ρ} {r r' : ρ}

theorem area_append (rs ss : List ρ) : area cells (rs ++ ss) = area cells rs ++ area cells ss :=
  List.flatMap_append

theorem area_cons (r : ρ) (rs : List ρ) : area cells (r :: rs) = cells r ++ area cells rs :=
  List.flatMap_cons

theorem area_singleton (r : ρ) : area cells [r] = cells r := by
  rw [area_cons]
  exact List.append_nil _

theorem length_area_split : (area cells (pre ++ r :: post)).length =
    (area cells pre).length + (cells r).length + (area cells post).length := by
  rw [area_append, area_cons, List.length_append, List.length_append, Nat.add_assoc]

theorem length_area_set (hsize : (cells r').length = (cells r).length) :
    (area cells (pre ++ r' :: post)).length = (area cells (pre ++ r :: post)).length := by
  rw [length_area_split, length_area_split, hsize]

/-! ### The buffer -/

variable {buf : List α}

/-- A record is overwritten by one of its size. -/
theorem writeAt_set (h : area cells (pre ++ r :: post) <+: buf)
    (hsize : (cells r').length = (cells r).length) :
    ∃ buf', writeAt buf (area cells pre).length (cells r') = .ok buf' ∧
      area cells (pre ++ r' :: post) <+: buf' ∧ buf'.length = buf.length := by
  obtain ⟨rest, rfl⟩ := h
  rw [area_append, area_cons]
  have hroom : (area cells pre).length + (cells r').length ≤
      (area cells pre ++ (cells r ++ area cells post) ++ rest).length := by
    simp only [List.length_append]
    omega
  obtain ⟨buf', hwrite⟩ := exists_writeAt (cells r') hroom
  refine ⟨buf', hwrite, ⟨rest, ?_⟩, length_writeAt hwrite⟩
  rw [eq_of_writeAt hwrite, area_append, area_cons, hsize]
  simp only [List.append_assoc]
  rw [List.take_left, ← List.drop_drop, List.drop_left, List.drop_left]

/-- The back of a record is overwritten, behind what the two records have in common. -/
theorem writeAt_part (h : area cells (pre ++ r :: post) <+: buf) {front back back' : List α}
    (hr : cells r = front ++ back) (hr' : cells r' = front ++ back')
    (hsize : back'.length = back.length) :
    ∃ buf', writeAt buf ((area cells pre).length + front.length) back' = .ok buf' ∧
      area cells (pre ++ r' :: post) <+: buf' ∧ buf'.length = buf.length := by
  obtain ⟨rest, rfl⟩ := h
  have hbuf : area cells (pre ++ r :: post) ++ rest =
      area cells pre ++ front ++ (back ++ (area cells post ++ rest)) := by
    rw [area_append, area_cons, hr]
    simp only [List.append_assoc]
  have hfront : (area cells pre).length + front.length = (area cells pre ++ front).length :=
    List.length_append.symm
  rw [hbuf, hfront]
  have hroom : (area cells pre ++ front).length + back'.length ≤
      (area cells pre ++ front ++ (back ++ (area cells post ++ rest))).length := by
    rw [hsize]
    simp only [List.length_append]
    omega
  obtain ⟨buf', hwrite⟩ := exists_writeAt back' hroom
  refine ⟨buf', hwrite, ⟨rest, ?_⟩, length_writeAt hwrite⟩
  rw [eq_of_writeAt hwrite, hsize, List.take_left, ← List.drop_drop, List.drop_left,
    List.drop_left, area_append, area_cons, hr']
  simp only [List.append_assoc]

/-- A record is added behind the last one. -/
theorem writeAt_append (h : area cells rs <+: buf)
    (hroom : (area cells rs).length + (cells r).length ≤ buf.length) :
    ∃ buf', writeAt buf (area cells rs).length (cells r) = .ok buf' ∧
      area cells (rs ++ [r]) <+: buf' ∧ buf'.length = buf.length := by
  obtain ⟨rest, rfl⟩ := h
  obtain ⟨buf', hwrite⟩ := exists_writeAt (cells r) hroom
  refine ⟨buf', hwrite, ⟨rest.drop (cells r).length, ?_⟩, length_writeAt hwrite⟩
  rw [eq_of_writeAt hwrite, area_append, area_singleton, List.take_left, ← List.drop_drop,
    List.drop_left]

/-- A record is taken out. -/
theorem moveWithin_remove (h : area cells (pre ++ r :: post) <+: buf) :
    ∃ buf', moveWithin buf (area cells pre).length
        ((area cells pre).length + (cells r).length) (area cells post).length = .ok buf' ∧
      area cells (pre ++ post) <+: buf' ∧ buf'.length = buf.length := by
  obtain ⟨rest, rfl⟩ := h
  rw [area_append, area_cons]
  have hmoved : ((area cells pre ++ (cells r ++ area cells post) ++ rest).drop
      ((area cells pre).length + (cells r).length)).take (area cells post).length =
        area cells post := by
    simp only [List.append_assoc]
    rw [← List.drop_drop, List.drop_left, List.drop_left, List.take_left]
  have hroom : (area cells pre).length + (cells r).length + (area cells post).length ≤
      (area cells pre ++ (cells r ++ area cells post) ++ rest).length := by
    simp only [List.length_append]
    omega
  have hbelow : (area cells pre).length + (area cells post).length ≤
      (area cells pre ++ (cells r ++ area cells post) ++ rest).length := by omega
  obtain ⟨buf', hwrite⟩ := exists_writeAt (area cells post) hbelow
  have hmove : moveWithin (area cells pre ++ (cells r ++ area cells post) ++ rest)
      (area cells pre).length ((area cells pre).length + (cells r).length)
      (area cells post).length = .ok buf' := by
    rw [moveWithin, if_pos hroom, hmoved, hwrite]
  refine ⟨buf', hmove, ?_, length_writeAt hwrite⟩
  rw [eq_of_writeAt hwrite, area_append]
  simp only [List.append_assoc]
  rw [List.take_left, ← List.append_assoc]
  exact List.prefix_append _ _

end Area

/-! ### The index -/

section Index

variable {cells} {entry : ρ → ℕ → ε} {start n : ℕ} {pre post rs : List ρ} {r r' : ρ}

theorem length_index : (index cells entry start rs).length = rs.length := by
  induction rs generalizing start with
  | nil => rfl
  | cons r rs ih => rw [index, List.length_cons, List.length_cons, ih]

theorem index_append (rs ss : List ρ) : index cells entry start (rs ++ ss) =
    index cells entry start rs ++ index cells entry (start + (area cells rs).length) ss := by
  induction rs generalizing start with
  | nil => rfl
  | cons r rs ih =>
      rw [List.cons_append, index, index, ih, List.cons_append, area_cons, List.length_append,
        Nat.add_assoc]

/-- A record that is overwritten by one of its size leaves the index. -/
theorem index_set (hentry : entry r' = entry r) (hsize : (cells r').length = (cells r).length) :
    index cells entry start (pre ++ r' :: post) = index cells entry start (pre ++ r :: post) := by
  rw [index_append, index_append, index, index, hentry, hsize]

theorem mem_index {e : ε} (h : e ∈ index cells entry start rs) :
    ∃ pre r post, rs = pre ++ r :: post ∧ e = entry r (start + (area cells pre).length) := by
  induction rs generalizing start with
  | nil => cases h
  | cons r rs ih =>
      rw [index, List.mem_cons] at h
      rcases h with rfl | h
      · exact ⟨[], r, rs, rfl, rfl⟩
      · obtain ⟨pre, s, post, rfl, rfl⟩ := ih h
        refine ⟨r :: pre, s, post, rfl, ?_⟩
        rw [area_cons, List.length_append, Nat.add_assoc]

/-- What an entry has of its record. -/
theorem map_index_entry {β : Type*} (f : ε → β) (g : ρ → β) (h : ∀ r k, f (entry r k) = g r) :
    (index cells entry start rs).map f = rs.map g := by
  induction rs generalizing start with
  | nil => rfl
  | cons r rs ih => rw [index, List.map_cons, List.map_cons, h, ih]

/-- Entries that move by the same distance. -/
theorem map_index (g : ε → ε)
    (h : ∀ r k, start ≤ k → k + (cells r).length ≤ start + (area cells rs).length →
      g (entry r (k + n)) = entry r k) :
    (index cells entry (start + n) rs).map g = index cells entry start rs := by
  induction rs generalizing start with
  | nil => rfl
  | cons r rs ih =>
      have htail : (index cells entry (start + (cells r).length + n) rs).map g =
          index cells entry (start + (cells r).length) rs := by
        refine ih fun s k hk hfit => h s k (by omega) ?_
        rw [area_cons, List.length_append]
        omega
      rw [index, index, List.map_cons, Nat.add_right_comm, htail, h r start (Nat.le_refl _)]
      rw [area_cons, List.length_append]
      omega

/-- The first entry with a property that only depends on the record. -/
theorem find?_index {p : ε → Bool} {q : ρ → Bool} (h : ∀ r k, p (entry r k) = q r) :
    ((index cells entry start rs).find? p = none ∧ ∀ r ∈ rs, q r = false) ∨
      ∃ pre r post, rs = pre ++ r :: post ∧ (∀ s ∈ pre, q s = false) ∧ q r = true ∧
        (index cells entry start rs).find? p =
          some (entry r (start + (area cells pre).length)) := by
  induction rs generalizing start with
  | nil => exact .inl ⟨rfl, fun r hr => by cases hr⟩
  | cons r rs ih =>
      cases hr : q r with
      | true =>
          refine .inr ⟨[], r, rs, rfl, fun s hs => (List.not_mem_nil hs).elim, hr, ?_⟩
          rw [index, List.find?_cons_of_pos (by rw [h, hr])]
          rfl
      | false =>
          have hskip : (index cells entry start (r :: rs)).find? p =
              (index cells entry (start + (cells r).length) rs).find? p := by
            rw [index, List.find?_cons_of_neg (by rw [h, hr]; exact Bool.false_ne_true)]
          have hall {l : List ρ} (hl : ∀ s ∈ l, q s = false) : ∀ s ∈ r :: l, q s = false := by
            intro s hs
            rcases List.mem_cons.mp hs with rfl | hs
            · exact hr
            · exact hl s hs
          rw [hskip]
          rcases ih with ⟨hnone, hrs⟩ | ⟨pre, s, post, rfl, hpre, hs, hsome⟩
          · exact .inl ⟨hnone, hall hrs⟩
          · refine .inr ⟨r :: pre, s, post, rfl, hall hpre, hs, ?_⟩
            rw [hsome, area_cons, List.length_append, Nat.add_assoc]

end Index

/-! ### Tilings -/

section Tiles

variable {cells} {entry : ρ → ℕ → ε} {offset size : ε → ℕ} {start stop : ℕ} {rs : List ρ}
  {es : List ε}

theorem tiles_index
    (h : ∀ r ∈ rs, ∀ k, k ≤ start + (area cells rs).length →
      offset (entry r k) = k ∧ size (entry r k) = (cells r).length) :
    Tiles offset size start (index cells entry start rs) (start + (area cells rs).length) := by
  induction rs generalizing start with
  | nil => rfl
  | cons r rs ih =>
      have hr := h r List.mem_cons_self start (Nat.le_add_right _ _)
      rw [area_cons, List.length_append, ← Nat.add_assoc] at h ⊢
      refine ⟨hr.1, ?_⟩
      rw [hr.2]
      exact ih fun s hs k hk => h s (List.mem_cons_of_mem r hs) k hk

theorem Tiles.start_le (h : Tiles offset size start es stop) :
    ∀ e ∈ es, start ≤ offset e := by
  induction es generalizing start with
  | nil => intro e he; cases he
  | cons d es ih =>
      intro e he
      rcases List.mem_cons.mp he with rfl | he
      · exact Nat.le_of_eq h.1.symm
      · exact Nat.le_trans (Nat.le_add_right _ _) (ih h.2 e he)

/-- Entries that are not empty start at distinct places, in ascending order. -/
theorem Tiles.ascending (h : Tiles offset size start es stop) (hpos : ∀ e ∈ es, 0 < size e) :
    es.Pairwise fun d e => offset d < offset e := by
  induction es generalizing start with
  | nil => exact .nil
  | cons d es ih =>
      refine List.pairwise_cons.mpr ⟨fun e he => ?_, ih h.2 fun e he => hpos e (.tail d he)⟩
      have hnext := Tiles.start_le h.2 e he
      have hd := hpos d (.head es)
      have hstart := h.1
      omega

/-- Each place is in one of the entries. -/
theorem Tiles.exists_mem (h : Tiles offset size start es stop) {k : ℕ} (hstart : start ≤ k)
    (hstop : k < stop) : ∃ e ∈ es, offset e ≤ k ∧ k < offset e + size e := by
  induction es generalizing start with
  | nil =>
      change start = stop at h
      omega
  | cons d es ih =>
      have hd := h.1
      by_cases hk : k < start + size d
      · exact ⟨d, .head es, by omega, by omega⟩
      · obtain ⟨e, he, hin⟩ := ih h.2 (by omega)
        exact ⟨e, .tail d he, hin⟩

end Tiles

end PackedRecords
