import Mathlib.Data.Fintype.Card
import Mathlib.Logic.Relation

/-!
# Store-and-forward propagation

`propagate` works off a queue of arrivals, oldest first: each arrival is recorded and whatever it
is passed on to joins the queue. Along a forest every key is visited at most once, so the queue
empties within as many steps as there are keys.
-/

namespace Propagation

variable {α β : Type*} (next : α → List α)

/-- The arrivals in order, or nothing when the fuel does not last. -/
def propagate : ℕ → List α → Option (List α)
  | _, [] => some []
  | 0, _ :: _ => none
  | n + 1, a :: as => (propagate n (as ++ next a)).map (a :: ·)

@[simp] theorem propagate_nil (n : ℕ) : propagate next n [] = some [] := by
  cases n <;> rfl

theorem propagate_succ_cons (n : ℕ) (a : α) (as : List α) :
    propagate next (n + 1) (a :: as) = (propagate next n (as ++ next a)).map (a :: ·) := rfl

theorem mem_of_mem_queue {n : ℕ} {as arrivals : List α}
    (h : propagate next n as = some arrivals) : ∀ a ∈ as, a ∈ arrivals := by
  induction n generalizing as arrivals with
  | zero =>
      cases as with
      | nil => intro a ha; cases ha
      | cons a as => cases h
  | succ n ih =>
      cases as with
      | nil => intro a ha; cases ha
      | cons a as =>
          rw [propagate_succ_cons] at h
          obtain ⟨rest, hrest, rfl⟩ := Option.map_eq_some_iff.mp h
          intro b hb
          rcases List.mem_cons.mp hb with rfl | hb
          · exact List.mem_cons_self
          · exact List.mem_cons_of_mem _ (ih hrest b (List.mem_append_left _ hb))

/-- Whatever an arrival is passed on to arrives as well. -/
theorem closed_under_next {n : ℕ} {as arrivals : List α}
    (h : propagate next n as = some arrivals) : ∀ a ∈ arrivals, ∀ b ∈ next a, b ∈ arrivals := by
  induction n generalizing as arrivals with
  | zero =>
      cases as with
      | nil =>
          rw [propagate_nil] at h
          cases h
          intro a ha
          cases ha
      | cons a as => cases h
  | succ n ih =>
      cases as with
      | nil =>
          rw [propagate_nil] at h
          cases h
          intro a ha
          cases ha
      | cons a as =>
          rw [propagate_succ_cons] at h
          obtain ⟨rest, hrest, rfl⟩ := Option.map_eq_some_iff.mp h
          intro c hc b hb
          apply List.mem_cons_of_mem
          rcases List.mem_cons.mp hc with rfl | hc
          · exact mem_of_mem_queue next hrest b (List.mem_append_right _ hb)
          · exact ih hrest c hc b hb

/-- What every arrival satisfies, when the first ones do and it is passed on. -/
theorem forall_arrivals {n : ℕ} {as arrivals : List α} (good : α → Prop)
    (hnext : ∀ a, good a → ∀ b ∈ next a, good b) (has : ∀ a ∈ as, good a)
    (h : propagate next n as = some arrivals) : ∀ a ∈ arrivals, good a := by
  induction n generalizing as arrivals with
  | zero =>
      cases as with
      | nil => rw [propagate_nil] at h; cases h; intro a ha; cases ha
      | cons a as => cases h
  | succ n ih =>
      cases as with
      | nil => rw [propagate_nil] at h; cases h; intro a ha; cases ha
      | cons a as =>
          rw [propagate_succ_cons] at h
          obtain ⟨rest, hrest, rfl⟩ := Option.map_eq_some_iff.mp h
          have ha := has a List.mem_cons_self
          have hqueue : ∀ b ∈ as ++ next a, good b := by
            intro b hb
            rcases List.mem_append.mp hb with hb | hb
            · exact has b (List.mem_cons_of_mem _ hb)
            · exact hnext a ha b hb
          intro b hb
          rcases List.mem_cons.mp hb with rfl | hb
          · exact ha
          · exact ih hqueue hrest b hb

/-- Good arrivals are passed on to good ones, whose keys have the sender's key above them. -/
structure Branching (key : α → β) (up : β → Option β) (good : α → Prop) : Prop where
  next_good : ∀ a, good a → ∀ b ∈ next a, good b
  next_up : ∀ a, good a → ∀ b ∈ next a, up (key b) = some (key a)
  next_nodup : ∀ a, good a → ((next a).map key).Nodup

variable {next} {key : α → β} {up : β → Option β} {good : α → Prop}

/-- The keys seen so far and those still queued stay distinct, since a newly queued key has its
sender above it and every other one has either no key above it or one seen earlier. -/
theorem Branching.propagate_queue (hb : Branching next key up good) {root : β}
    (hroot : up root = none) [Fintype β] (n : ℕ) (seen : List β) (as : List α)
    (hn : Fintype.card β ≤ n + seen.length) (hgood : ∀ a ∈ as, good a)
    (hnodup : (seen ++ as.map key).Nodup)
    (hup : ∀ k ∈ seen ++ as.map key, k = root ∨ ∃ k' ∈ seen, up k = some k') :
    ∃ arrivals, propagate next n as = some arrivals ∧ (seen ++ arrivals.map key).Nodup := by
  induction n generalizing seen as with
  | zero =>
      cases as with
      | nil => exact ⟨[], rfl, hnodup⟩
      | cons a as =>
          have hle := hnodup.length_le_card
          simp only [List.map_cons, List.length_append, List.length_cons] at hle
          omega
  | succ n ih =>
      cases as with
      | nil => exact ⟨[], propagate_nil next _, hnodup⟩
      | cons a as =>
          have ha := hgood a List.mem_cons_self
          rw [List.map_cons] at hnodup hup
          have hsplit : seen ++ key a :: as.map key = (seen ++ [key a]) ++ as.map key := by simp
          rw [hsplit] at hnodup hup
          have hmem : key a ∈ seen ++ [key a] := by simp
          have hfresh : key a ∉ seen := by
            intro h
            have := (List.nodup_append.mp hnodup).1
            exact (List.nodup_append.mp this).2.2 _ h _ (List.mem_singleton_self _) rfl
          have hdisj : ∀ k ∈ (seen ++ [key a]) ++ as.map key, ∀ k' ∈ (next a).map key, k ≠ k' := by
            rintro k hk k' hk' rfl
            obtain ⟨b, hbmem, rfl⟩ := List.mem_map.mp hk'
            have hab := hb.next_up a ha b hbmem
            rcases hup _ hk with h | ⟨k₀, hk₀, h⟩
            · rw [h, hroot] at hab
              cases hab
            · rw [h] at hab
              cases hab
              exact hfresh hk₀
          have hnodup' : ((seen ++ [key a]) ++ (as ++ next a).map key).Nodup := by
            rw [List.map_append, ← List.append_assoc]
            exact List.nodup_append.mpr ⟨hnodup, hb.next_nodup a ha, hdisj⟩
          have hup' : ∀ k ∈ (seen ++ [key a]) ++ (as ++ next a).map key,
              k = root ∨ ∃ k' ∈ seen ++ [key a], up k = some k' := by
            intro k hk
            rw [List.map_append, ← List.append_assoc] at hk
            rcases List.mem_append.mp hk with hk | hk
            · rcases hup k hk with h | ⟨k', hk', h⟩
              · exact Or.inl h
              · exact Or.inr ⟨k', List.mem_append_left _ hk', h⟩
            · obtain ⟨b, hbmem, rfl⟩ := List.mem_map.mp hk
              exact Or.inr ⟨key a, hmem, hb.next_up a ha b hbmem⟩
          have hgood' : ∀ b ∈ as ++ next a, good b := by
            intro b hbmem
            rcases List.mem_append.mp hbmem with h | h
            · exact hgood b (List.mem_cons_of_mem _ h)
            · exact hb.next_good a ha b h
          obtain ⟨arrivals, hrun, harr⟩ := ih (seen ++ [key a]) (as ++ next a)
            (by rw [List.length_append, List.length_singleton]; omega) hgood' hnodup' hup'
          refine ⟨a :: arrivals, by rw [propagate_succ_cons, hrun]; rfl, ?_⟩
          simpa using harr

/-- From an arrival with nothing above it, propagation ends and no key is visited twice. -/
theorem Branching.propagate_terminates (hb : Branching next key up good) [Fintype β] {a : α}
    (ha : good a) (hroot : up (key a) = none) :
    ∃ arrivals, propagate next (Fintype.card β) [a] = some arrivals ∧
      (arrivals.map key).Nodup := by
  have h := hb.propagate_queue hroot (Fintype.card β) [] [a] (by simp)
    (by simpa using ha) (by simp) (by simp)
  simpa using h

/-! ### Forests -/

/-- Every node has at most one predecessor and no node is its own ancestor. -/
structure IsForest (r : β → β → Prop) : Prop where
  unique : ∀ {a b c}, r a c → r b c → a = b
  acyclic : ∀ a, ¬ Relation.TransGen r a a

theorem isForest_of_rank {r : β → β → Prop} (rank : β → ℕ)
    (hunique : ∀ {a b c}, r a c → r b c → a = b) (hrank : ∀ a b, r a b → rank a < rank b) :
    IsForest r := by
  have hlt : ∀ a b, Relation.TransGen r a b → rank a < rank b := by
    intro a b hab
    induction hab with
    | single h => exact hrank _ _ h
    | tail _ h ih => exact ih.trans (hrank _ _ h)
  exact ⟨hunique, fun a h => lt_irrefl _ (hlt a a h)⟩

end Propagation
