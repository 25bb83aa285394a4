import Mathlib.Combinatorics.SimpleGraph.Metric

/-!
# Distances from a set

A breadth first search that starts from several vertices at once. The queue is sorted by distance,
no distance that is known is more than one above that of the front, and a vertex that has left the
queue has passed its distance on. When the queue is empty the distances are those of the graph.
-/

namespace Flooding

variable {α : Type*} [DecidableEq α]

structure State (α : Type*) where
  queue : List α
  dist : α → Option ℕ

/-- Looking at a neighbour of `u`. -/
def look (u : α) (s : State α) (v : α) : State α :=
  if (s.dist v).isSome then s
  else ⟨s.queue ++ [v], Function.update s.dist v ((s.dist u).map (· + 1))⟩

/-- At most as many rounds as the second argument says. -/
def run (neighbors : α → List α) : ℕ → State α → State α
  | 0, s => s
  | n + 1, s =>
    match s.queue with
    | [] => s
    | u :: queue => run neighbors n ((neighbors u).foldl (look u) { s with queue })

variable (G : SimpleGraph α) (sources : Set α)

/-- The lengths of the walks from the sources. -/
def lengths (v : α) : Set ℕ := {n | ∃ s ∈ sources, ∃ w : G.Walk s v, w.length = n}

/-- What is known while the neighbours of `u` are looked at, which is at distance `d`. -/
structure Spreading (u : α) (d : ℕ) (s : State α) : Prop where
  source : ∀ a ∈ sources, s.dist a = some 0
  walk : ∀ v e, s.dist v = some e → e ∈ lengths G sources v
  front : s.dist u = some d
  queued : ∀ v ∈ s.queue, ∃ e, s.dist v = some e ∧ d ≤ e
  sorted : s.queue.Pairwise fun v w => ∀ e f, s.dist v = some e → s.dist w = some f → e ≤ f
  near : ∀ v e, s.dist v = some e → e ≤ d + 1
  settled : ∀ v e, s.dist v = some e → v ∉ s.queue → v ≠ u → ∀ w, G.Adj v w →
    ∃ f, s.dist w = some f ∧ f ≤ e + 1

/-- What is known between the rounds. -/
structure Sound (s : State α) : Prop where
  source : ∀ a ∈ sources, s.dist a = some 0
  walk : ∀ v e, s.dist v = some e → e ∈ lengths G sources v
  queued : ∀ v ∈ s.queue, ∃ e, s.dist v = some e
  sorted : s.queue.Pairwise fun v w => ∀ e f, s.dist v = some e → s.dist w = some f → e ≤ f
  near : ∀ u ∈ s.queue, ∀ d, s.dist u = some d → ∀ v e, s.dist v = some e → e ≤ d + 1
  settled : ∀ v e, s.dist v = some e → v ∉ s.queue → ∀ w, G.Adj v w →
    ∃ f, s.dist w = some f ∧ f ≤ e + 1

variable {G sources} {s : State α} {u v : α} {d : ℕ}

theorem look_known (h : (s.dist v).isSome = true) : look u s v = s := if_pos h

/-- The state with a new vertex at the end of the queue. -/
def found (s : State α) (v : α) (d : ℕ) : State α :=
  ⟨s.queue ++ [v], Function.update s.dist v (some d)⟩

theorem look_new (hu : s.dist u = some d) (h : s.dist v = none) :
    look u s v = found s v (d + 1) := by
  have hnone : ¬(s.dist v).isSome = true := by
    rw [h]
    exact Bool.false_ne_true
  rw [look, if_neg hnone, hu]
  rfl

theorem found_dist (s : State α) (v : α) (d : ℕ) (w : α) :
    (found s v d).dist w = if w = v then some d else s.dist w := Function.update_apply _ _ _ _

/-- What is known stays as it is. -/
theorem found_known (h : s.dist v = none) {w : α} {e : ℕ} (hw : s.dist w = some e) (d : ℕ) :
    (found s v d).dist w = some e := by
  have hne : w ≠ v := by
    rintro rfl
    rw [h] at hw
    cases hw
  rw [found_dist, if_neg hne, hw]

theorem Spreading.found (h : Spreading G sources u d s) (hadj : G.Adj u v)
    (hv : s.dist v = none) : Spreading G sources u d (found s v (d + 1)) := by
  have hinv {w : α} {e : ℕ} (hw : (Flooding.found s v (d + 1)).dist w = some e) :
      (w = v ∧ e = d + 1) ∨ s.dist w = some e := by
    rw [found_dist] at hw
    split_ifs at hw with hwv
    · exact .inl ⟨hwv, (Option.some.inj hw).symm⟩
    · exact .inr hw
  refine ⟨fun a ha => found_known hv (h.source a ha) _, fun w e hw => ?_,
    found_known hv h.front _, fun w hw => ?_, ?_, fun w e hw => ?_,
    fun w e hw hqueue hwu x hx => ?_⟩
  · rcases hinv hw with ⟨rfl, rfl⟩ | hw
    · obtain ⟨a, ha, walk, hlength⟩ := h.walk u d h.front
      refine ⟨a, ha, walk.concat hadj, ?_⟩
      rw [SimpleGraph.Walk.length_concat, hlength]
    · exact h.walk w e hw
  · rcases List.mem_append.mp hw with hw | hw
    · obtain ⟨e, he, hde⟩ := h.queued w hw
      exact ⟨e, found_known hv he _, hde⟩
    · rw [List.mem_singleton.mp hw]
      exact ⟨d + 1, by rw [found_dist, if_pos rfl], Nat.le_succ d⟩
  · refine List.pairwise_append.mpr ⟨h.sorted.imp_of_mem fun {a b} ha hb hab e f he hf => ?_,
      List.pairwise_singleton _ _, fun a ha b hb e f he hf => ?_⟩
    · obtain ⟨e', he', -⟩ := h.queued a ha
      obtain ⟨f', hf', -⟩ := h.queued b hb
      rw [found_known hv he'] at he
      rw [found_known hv hf'] at hf
      rw [← Option.some.inj he, ← Option.some.inj hf]
      exact hab e' f' he' hf'
    · obtain ⟨e', he', -⟩ := h.queued a ha
      rw [found_known hv he'] at he
      rw [List.mem_singleton.mp hb, found_dist, if_pos rfl] at hf
      rw [← Option.some.inj he, ← Option.some.inj hf]
      exact h.near a e' he'
  · rcases hinv hw with ⟨-, rfl⟩ | hw
    · exact le_rfl
    · exact h.near w e hw
  · have hqueue : w ∉ s.queue ∧ w ≠ v := by
      rw [Flooding.found, List.mem_append, List.mem_singleton, not_or] at hqueue
      exact hqueue
    rcases hinv hw with ⟨hwv, -⟩ | hw
    · exact absurd hwv hqueue.2
    · obtain ⟨f, hf, hle⟩ := h.settled w e hw hqueue.1 hwu x hx
      exact ⟨f, found_known hv hf _, hle⟩

/-- Looking at neighbours of `u` gives them their distances. -/
theorem Spreading.looks (h : Spreading G sources u d s) {vs : List α}
    (hvs : ∀ v ∈ vs, G.Adj u v) :
    Spreading G sources u d (vs.foldl (look u) s) ∧
      (∀ v ∈ vs, ∃ e, (vs.foldl (look u) s).dist v = some e) ∧
      ∀ w e, s.dist w = some e → (vs.foldl (look u) s).dist w = some e := by
  induction vs generalizing s with
  | nil => exact ⟨h, List.forall_mem_nil _, fun w e hw => hw⟩
  | cons v vs ih =>
      have hrest : ∀ w ∈ vs, G.Adj u w := fun w hw => hvs w (.tail v hw)
      rw [List.foldl_cons]
      cases hv : s.dist v with
      | some e =>
          rw [look_known (by rw [hv]; rfl)]
          obtain ⟨hspread, hknown, hkept⟩ := ih h hrest
          refine ⟨hspread, fun w hw => ?_, hkept⟩
          rcases List.mem_cons.mp hw with rfl | hw
          · exact ⟨e, hkept w e hv⟩
          · exact hknown w hw
      | none =>
          rw [look_new h.front hv]
          obtain ⟨hspread, hknown, hkept⟩ := ih (h.found (hvs v (.head vs)) hv) hrest
          refine ⟨hspread, fun w hw => ?_, fun w e hw => hkept w e (found_known hv hw _)⟩
          rcases List.mem_cons.mp hw with rfl | hw
          · exact ⟨d + 1, hkept w _ (by rw [found_dist, if_pos rfl])⟩
          · exact hknown w hw

omit [DecidableEq α] in
theorem Sound.spreading {queue : List α} (h : Sound G sources s) (hqueue : s.queue = u :: queue) :
    ∃ d, Spreading G sources u d { s with queue } := by
  have hu : u ∈ s.queue := by
    rw [hqueue]
    exact List.mem_cons_self
  obtain ⟨d, hd⟩ := h.queued u hu
  have hsorted := h.sorted
  rw [hqueue, List.pairwise_cons] at hsorted
  refine ⟨d, h.source, h.walk, hd, fun v hv => ?_, hsorted.2, fun v e hv => h.near u hu d hd v e hv,
    fun v e hv hmem hvu w hw => h.settled v e hv ?_ w hw⟩
  · obtain ⟨e, he⟩ := h.queued v (by rw [hqueue]; exact .tail u hv)
    exact ⟨e, he, hsorted.1 v hv d e hd he⟩
  · rw [hqueue, List.mem_cons, not_or]
    exact ⟨hvu, hmem⟩

/-- When all neighbours have been looked at, the vertex has passed its distance on. -/
theorem Spreading.sound (h : Spreading G sources u d s)
    (hneighbors : ∀ v, G.Adj u v → ∃ e, s.dist v = some e) : Sound G sources s := by
  refine ⟨h.source, h.walk, fun v hv => ?_, h.sorted, fun v hv e he w f hf => ?_,
    fun v e hv hmem w hw => ?_⟩
  · obtain ⟨e, he, -⟩ := h.queued v hv
    exact ⟨e, he⟩
  · obtain ⟨e', he', hde⟩ := h.queued v hv
    rw [he'] at he
    rw [← Option.some.inj he]
    exact (h.near w f hf).trans (Nat.succ_le_succ hde)
  · by_cases hvu : v = u
    · rw [hvu] at hw hv
      obtain ⟨f, hf⟩ := hneighbors w hw
      rw [h.front] at hv
      rw [← Option.some.inj hv]
      exact ⟨f, hf, h.near w f hf⟩
    · exact h.settled v e hv hmem hvu w hw

omit [DecidableEq α] in
/-- With an empty queue the distances are those of the graph. -/
theorem Sound.isLeast (h : Sound G sources s) (hqueue : s.queue = []) {v : α} {n : ℕ}
    (hv : n ∈ lengths G sources v) : ∃ d, s.dist v = some d ∧ IsLeast (lengths G sources v) d := by
  have hwalk {a v : α} (ha : a ∈ sources) (w : G.Walk a v) :
      ∃ d, s.dist v = some d ∧ d ≤ w.length := by
    induction w using SimpleGraph.Walk.concatRec with
    | Hnil => exact ⟨0, h.source _ ha, le_rfl⟩
    | Hconcat w hadj ih =>
        obtain ⟨d, hd, hle⟩ := ih ha
        obtain ⟨e, he, hed⟩ := h.settled _ d hd (by rw [hqueue]; exact List.not_mem_nil) _ hadj
        refine ⟨e, he, ?_⟩
        rw [SimpleGraph.Walk.length_concat]
        omega
  obtain ⟨a, ha, w, -⟩ := hv
  obtain ⟨d, hd, -⟩ := hwalk ha w
  refine ⟨d, hd, h.walk v d hd, ?_⟩
  rintro n ⟨b, hb, w', rfl⟩
  obtain ⟨e, he, hle⟩ := hwalk hb w'
  rw [hd] at he
  rwa [Option.some.inj he]

/-! ### Rounds -/

/-- How many vertices have no distance yet. -/
def unknown (vertices : Finset α) (s : State α) : ℕ :=
  (vertices.filter fun v => s.dist v = none).card

theorem unknown_found {vertices : Finset α} (hv : s.dist v = none) (hmem : v ∈ vertices) (d : ℕ) :
    unknown vertices (found s v d) + 1 = unknown vertices s := by
  have herase : (vertices.filter fun w => (found s v d).dist w = none) =
      (vertices.filter fun w => s.dist w = none).erase v := by
    ext w
    rw [Finset.mem_erase, Finset.mem_filter, Finset.mem_filter, found_dist]
    split_ifs with hwv
    · exact iff_of_false (fun h => by cases h.2) fun h => h.1 hwv
    · exact (and_iff_right hwv).symm
  rw [unknown, unknown, herase]
  exact Finset.card_erase_add_one (Finset.mem_filter.mpr ⟨hmem, hv⟩)

/-- What is looked at is new and in the queue, or has been known. -/
theorem unknown_looks {vertices : Finset α} (hu : s.dist u = some d) {vs : List α}
    (hvs : ∀ v ∈ vs, v ∈ vertices) :
    unknown vertices (vs.foldl (look u) s) + (vs.foldl (look u) s).queue.length =
      unknown vertices s + s.queue.length := by
  induction vs generalizing s with
  | nil => rfl
  | cons v vs ih =>
      have hrest : ∀ w ∈ vs, w ∈ vertices := fun w hw => hvs w (.tail v hw)
      rw [List.foldl_cons]
      cases hv : s.dist v with
      | some e =>
          rw [look_known (by rw [hv]; rfl)]
          exact ih hu hrest
      | none =>
          rw [look_new hu hv, ih (found_known hv hu _) hrest, ← unknown_found hv (hvs v (.head vs)),
            found, List.length_append, List.length_singleton]
          omega

/-- As many rounds as there are vertices are enough. -/
theorem Sound.run (h : Sound G sources s) {neighbors : α → List α}
    (hneighbors : ∀ u v, v ∈ neighbors u ↔ G.Adj u v) {vertices : Finset α}
    (hvertices : ∀ u v, G.Adj u v → v ∈ vertices) {n : ℕ}
    (hn : unknown vertices s + s.queue.length ≤ n) :
    Sound G sources (run neighbors n s) ∧ (run neighbors n s).queue = [] := by
  induction n generalizing s with
  | zero =>
      have hlength : s.queue.length = 0 := by omega
      exact ⟨h, List.length_eq_zero_iff.mp hlength⟩
  | succ n ih =>
      unfold Flooding.run
      split
      · exact ⟨h, by assumption⟩
      · rename_i u queue hqueue
        obtain ⟨d, hspreading⟩ := h.spreading hqueue
        obtain ⟨hspread, hknown, -⟩ := hspreading.looks fun v hv => (hneighbors u v).mp hv
        have hmem : ∀ v ∈ neighbors u, v ∈ vertices := fun v hv =>
          hvertices u v ((hneighbors u v).mp hv)
        have hcount := unknown_looks hspreading.front hmem
        refine ih (hspread.sound fun v hv => hknown v ((hneighbors u v).mpr hv)) ?_
        rw [hcount]
        rw [hqueue, List.length_cons] at hn
        change unknown vertices s + queue.length ≤ n
        omega

/-- From the sources in the queue the search finds the distances. -/
theorem run_isLeast {neighbors : α → List α}
    (hneighbors : ∀ u v, v ∈ neighbors u ↔ G.Adj u v) {vertices : Finset α}
    (hvertices : ∀ u v, G.Adj u v → v ∈ vertices) {queue : List α} (hnodup : queue.Nodup)
    (hmem : ∀ v ∈ queue, v ∈ vertices) {v : α} {n : ℕ}
    (hv : n ∈ lengths G {a | a ∈ queue} v) :
    ∃ d, (run neighbors vertices.card ⟨queue, fun w => if w ∈ queue then some 0 else none⟩).dist v =
      some d ∧ IsLeast (lengths G {a | a ∈ queue} v) d := by
  have hzero {w : α} {e : ℕ} (h : (if w ∈ queue then some 0 else none) = some e) :
      w ∈ queue ∧ e = 0 := by
    split_ifs at h with hw
    exact ⟨hw, (Option.some.inj h).symm⟩
  have hstart : Sound G {a | a ∈ queue} ⟨queue, fun w => if w ∈ queue then some 0 else none⟩ := by
    refine ⟨fun a ha => if_pos ha, fun w e hw => ?_, fun w hw => ⟨0, if_pos hw⟩, ?_, ?_, ?_⟩
    · obtain ⟨hmem, rfl⟩ := hzero hw
      exact ⟨w, hmem, .nil, rfl⟩
    · refine List.pairwise_of_forall fun a b e f he _ => ?_
      rw [(hzero he).2]
      exact Nat.zero_le f
    · intro u _ d _ w e hw
      rw [(hzero hw).2]
      exact Nat.zero_le _
    · intro w e hw hnot
      exact absurd (hzero hw).1 hnot
  have hmeasure : unknown vertices ⟨queue, fun w => if w ∈ queue then some 0 else none⟩ +
      queue.length ≤ vertices.card := by
    have hunion : (vertices.filter fun w => (if w ∈ queue then some 0 else none) = none) ∪
        queue.toFinset ⊆ vertices := by
      refine Finset.union_subset (Finset.filter_subset _ _) fun w hw => ?_
      exact hmem w (List.mem_toFinset.mp hw)
    have hdisjoint : Disjoint
        (vertices.filter fun w => (if w ∈ queue then some 0 else none : Option ℕ) = none)
        queue.toFinset := by
      rw [Finset.disjoint_left]
      intro w hw hmem
      rw [Finset.mem_filter, if_pos (List.mem_toFinset.mp hmem)] at hw
      cases hw.2
    rw [← List.toFinset_card_of_nodup hnodup, unknown, ← Finset.card_union_of_disjoint hdisjoint]
    exact Finset.card_le_card hunion
  obtain ⟨hsound, hempty⟩ := hstart.run hneighbors hvertices hmeasure
  exact hsound.isLeast hempty hv

end Flooding
