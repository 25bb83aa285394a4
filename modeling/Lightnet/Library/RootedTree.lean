import Lightnet.Library.DepthFirst
import Mathlib.Combinatorics.SimpleGraph.Acyclic
import Mathlib.Data.Set.Card
import Mathlib.Data.List.Lex

/-!
# Rooted trees

An acyclic graph seen from a root. The neighbours of a vertex that are one step further from the
root are its children. Labels on the edges order the children of each vertex, and the labels on
the way from the root, compared lexicographically, order all vertices.
-/

namespace RootedTree

variable {V L : Type*} (G : SimpleGraph V) (r : V)

def IsChild (u v : V) : Prop := G.Adj u v ∧ G.dist r v = G.dist r u + 1

def Descendant : V → V → Prop := Relation.ReflTransGen (IsChild G r)

/-- The labels on the way from the root. -/
inductive Route (label : V → V → L) : V → List L → Prop
  | root : Route label r []
  | child {u v : V} {w : List L} (hu : Route label u w) (h : IsChild G r u v) :
      Route label v (w ++ [label u v])

def Before [LT L] (label : V → V → L) (u v : V) : Prop :=
  ∃ w w', Route G r label u w ∧ Route G r label v w' ∧ w < w'

/-- How many vertices come before this one. -/
noncomputable def position [LT L] (label : V → V → L) (v : V) : ℕ :=
  {u | Before G r label u v}.ncard

variable {G r}

/-! ### Parents -/

theorem isChild_or_isChild (hG : G.IsAcyclic) {u v : V} (hu : G.Reachable r u) (h : G.Adj u v) :
    IsChild G r u v ∨ IsChild G r v u := by
  rcases hG.dist_eq_dist_add_one_of_adj_of_reachable r h hu with hd | hd
  · exact .inr ⟨h.symm, hd⟩
  · exact .inl ⟨h, hd⟩

theorem IsChild.reachable {u v : V} (h : IsChild G r u v) (hu : G.Reachable r u) :
    G.Reachable r v := hu.trans h.1.reachable

theorem IsChild.mem_support (hG : G.IsAcyclic) {u v : V} (h : IsChild G r u v) {p : G.Walk r v}
    (hp : p.IsPath) : u ∈ p.support := by
  classical
  have hu : G.Reachable r u := p.reachable.trans h.1.symm.reachable
  obtain ⟨q, hq, hlen⟩ := hu.exists_path_of_dist
  refine hG.mem_support_of_ne_mem_support_of_adj_of_isPath hp hq h.1.symm fun hv => ?_
  have hle := SimpleGraph.dist_le (q.takeUntil v hv)
  have hshort := q.length_takeUntil_le_length hv
  have := h.2
  omega

theorem IsChild.parent_unique (hG : G.IsAcyclic) {u u' v : V} (hv : G.Reachable r v)
    (h : IsChild G r u v) (h' : IsChild G r u' v) : u = u' := by
  obtain ⟨p, hp, -⟩ := hv.exists_path_of_dist
  rw [hG.eq_penultimate_of_adj_end hp h.1.symm (h.mem_support hG hp),
    hG.eq_penultimate_of_adj_end hp h'.1.symm (h'.mem_support hG hp)]

theorem exists_parent {v : V} (hv : G.Reachable r v) (hne : v ≠ r) : ∃ u, IsChild G r u v := by
  obtain ⟨p, hp⟩ := hv.exists_walk_length_eq_dist
  have hnil : ¬p.Nil := fun h => hne h.eq.symm
  refine ⟨p.penultimate, p.adj_penultimate hnil, ?_⟩
  have hle := SimpleGraph.dist_le p.dropLast
  have hlen := p.length_dropLast_add_one hnil
  have hadj := (p.adj_penultimate hnil).diff_dist_adj (u := r)
  omega

/-- From the root down to every vertex. -/
theorem reachable_induction {P : V → Prop} (hroot : P r)
    (hchild : ∀ u v, G.Reachable r u → IsChild G r u v → P u → P v) {v : V}
    (hv : G.Reachable r v) : P v := by
  induction hd : G.dist r v using Nat.strong_induction_on generalizing v with
  | _ d ih =>
      by_cases hne : v = r
      · rw [hne]
        exact hroot
      · obtain ⟨u, hu⟩ := exists_parent hv hne
        have hreach : G.Reachable r u := hv.trans hu.1.symm.reachable
        exact hchild u v hreach hu (ih _ (by have := hu.2; omega) hreach rfl)

theorem not_isChild_root (u : V) : ¬IsChild G r u r := by
  intro h
  have := h.2
  rw [SimpleGraph.dist_self] at this
  omega

/-! ### Descendants -/

theorem Descendant.dist_le {u v : V} (h : Descendant G r u v) : G.dist r u ≤ G.dist r v := by
  induction h with
  | refl => exact le_rfl
  | tail _ h ih =>
      have := h.2
      omega

theorem Descendant.reachable {u v : V} (h : Descendant G r u v) (hu : G.Reachable r u) :
    G.Reachable r v := by
  induction h with
  | refl => exact hu
  | tail _ h ih => exact h.reachable ih

/-- Two ancestors at one distance are the same. -/
theorem Descendant.ancestor_unique (hG : G.IsAcyclic) {u u' v : V} (hu : G.Reachable r u)
    (h : Descendant G r u v) (h' : Descendant G r u' v) (hd : G.dist r u = G.dist r u') :
    u = u' := by
  induction h with
  | refl =>
      rcases Relation.ReflTransGen.cases_tail h' with rfl | ⟨y, hy, hv⟩
      · rfl
      · have hle := Descendant.dist_le hy
        have := hv.2
        omega
  | @tail y v hy hv ih =>
      have hle := Descendant.dist_le hy
      have hstep := hv.2
      rcases Relation.ReflTransGen.cases_tail h' with rfl | ⟨y', hy', hv'⟩
      · omega
      · have hreach : G.Reachable r v := hv.reachable (Descendant.reachable hy hu)
        obtain rfl := hv.parent_unique hG hreach hv'
        exact ih hy'

/-! ### Routes -/

section
variable {label : V → V → L}

theorem Route.reachable {v : V} {w : List L} (h : Route G r label v w) : G.Reachable r v := by
  induction h with
  | root => exact .refl r
  | child _ h ih => exact h.reachable ih

theorem Route.unique (hG : G.IsAcyclic) {v : V} {w w' : List L} (h : Route G r label v w)
    (h' : Route G r label v w') : w = w' := by
  induction h generalizing w' with
  | root =>
      cases h' with
      | root => rfl
      | child _ h => exact absurd h (not_isChild_root _)
  | child hu h ih =>
      cases h' with
      | root => exact absurd h (not_isChild_root _)
      | child hu' h' =>
          obtain rfl := h.parent_unique hG (h.reachable hu.reachable) h'
          rw [ih hu']

theorem exists_route (label : V → V → L) {v : V} (hv : G.Reachable r v) : ∃ w, Route G r label v w :=
  reachable_induction (P := fun v => ∃ w, Route G r label v w) ⟨[], .root⟩
    (fun _ _ _ h ⟨_, hw⟩ => ⟨_, .child hw h⟩) hv

theorem Route.descendant {u v : V} {w : List L} (h : Route G r label u w)
    (hv : Descendant G r u v) : ∃ z, Route G r label v (w ++ z) := by
  induction hv with
  | refl => exact ⟨[], by rwa [List.append_nil]⟩
  | tail _ hv ih =>
      obtain ⟨z, hz⟩ := ih
      exact ⟨z ++ [label _ _], by
        rw [← List.append_assoc]
        exact .child hz hv⟩

variable [LinearOrder L]

theorem Before.irrefl (hG : G.IsAcyclic) (v : V) : ¬Before G r label v v := by
  rintro ⟨w, w', hw, hw', hlt⟩
  rw [hw.unique hG hw'] at hlt
  exact lt_irrefl _ hlt

theorem Before.asymm (hG : G.IsAcyclic) {u v : V} (h : Before G r label u v) :
    ¬Before G r label v u := by
  rintro ⟨z, z', hz, hz', hlt'⟩
  obtain ⟨w, w', hw, hw', hlt⟩ := h
  rw [hz.unique hG hw', hz'.unique hG hw] at hlt'
  exact lt_asymm hlt hlt'

theorem lt_append_cons (w : List L) (a : L) (z : List L) : w < w ++ a :: z := by
  induction w with
  | nil => exact List.Lex.nil
  | cons b w ih => exact List.Lex.cons ih

theorem append_cons_lt (w : List L) {a b : L} (h : a < b) (z z' : List L) :
    w ++ a :: z < w ++ b :: z' := by
  induction w with
  | nil => exact List.Lex.rel h
  | cons c w ih => exact List.Lex.cons ih

end

/-! ### Depth first visits -/

section
variable {children : V → List V}

theorem descendant_of_under (hchildren : ∀ u v, v ∈ children u → IsChild G r u v) {u v : V}
    (h : DepthFirst.Under children u v) : Descendant G r u v := by
  induction h with
  | refl => exact .refl
  | tail _ h ih => exact ih.tail (hchildren _ _ h)

/-- What is below a child comes before what is below a child with a greater label. -/
theorem before_of_siblings [LinearOrder L] {label : V → V → L} {u v v' x y : V}
    (hu : G.Reachable r u) (hv : IsChild G r u v) (hv' : IsChild G r u v')
    (hlt : label u v < label u v') (hx : Descendant G r v x) (hy : Descendant G r v' y) :
    Before G r label x y := by
  obtain ⟨w, hw⟩ := exists_route label hu
  obtain ⟨z, hz⟩ := (Route.child hw hv).descendant hx
  obtain ⟨z', hz'⟩ := (Route.child hw hv').descendant hy
  rw [List.append_assoc] at hz hz'
  exact ⟨_, _, hz, hz', append_cons_lt w hlt _ _⟩

/-- With the children in the order of their labels, visits are in the order of the routes. -/
theorem inOrder_before [LinearOrder L] (hG : G.IsAcyclic) {label : V → V → L}
    (hchildren : ∀ u v, v ∈ children u → IsChild G r u v)
    (hreach : ∀ u v, v ∈ children u → G.Reachable r u)
    (hsorted : ∀ u, (children u).Pairwise fun v v' => label u v < label u v') :
    DepthFirst.InOrder children (Before G r label) := by
  refine ⟨Before.irrefl hG, fun {a b x} hb hx => ?_, fun a => ?_⟩
  · obtain ⟨w, hw⟩ := exists_route label (hreach a b hb)
    obtain ⟨z, hz⟩ := (Route.child hw (hchildren a b hb)).descendant
      (descendant_of_under hchildren hx)
    rw [List.append_assoc] at hz
    exact ⟨w, _, hw, hz, lt_append_cons w _ _⟩
  · refine List.Pairwise.imp_of_mem ?_ (hsorted a)
    intro b c hb hc hlt x y hx hy
    exact before_of_siblings (hreach a b hb) (hchildren a b hb) (hchildren a c hc) hlt
      (descendant_of_under hchildren hx) (descendant_of_under hchildren hy)

/-- Whatever the order of the children, nothing is visited twice. -/
theorem inOrder_ne (hG : G.IsAcyclic) (hchildren : ∀ u v, v ∈ children u → IsChild G r u v)
    (hreach : ∀ u v, v ∈ children u → G.Reachable r u) (hnodup : ∀ u, (children u).Nodup) :
    DepthFirst.InOrder children (· ≠ ·) := by
  refine ⟨fun a h => h rfl, fun {a b x} hb hx => ?_, fun a => ?_⟩
  · rintro rfl
    have hle := (descendant_of_under hchildren hx).dist_le
    have := (hchildren a b hb).2
    omega
  · refine List.Pairwise.imp_of_mem ?_ (hnodup a)
    rintro b c hb hc hne x y hx hy rfl
    have hb' := hchildren a b hb
    have hc' := hchildren a c hc
    exact hne ((descendant_of_under hchildren hx).ancestor_unique hG
      (hb'.reachable (hreach a b hb)) (descendant_of_under hchildren hy)
      (hb'.2.trans hc'.2.symm))

/-- In a list of all vertices in the order of the routes, every vertex is at its position. -/
theorem idxOf_eq_position [DecidableEq V] [LinearOrder L] (hG : G.IsAcyclic) {label : V → V → L}
    {l : List V} (hl : l.Pairwise (Before G r label)) (hall : ∀ u, G.Reachable r u → u ∈ l) {v : V}
    (hv : v ∈ l) : l.idxOf v = position G r label v := by
  classical
  rw [DepthFirst.idxOf_eq_card (Before.irrefl hG) (fun _ _ h => Before.asymm hG h) hl hv, position,
    ← Set.ncard_coe_finset]
  congr 1
  ext u
  simp only [Finset.coe_filter, List.mem_toFinset, Set.mem_ofPred_eq]
  refine ⟨fun h => h.2, fun h => ⟨?_, h⟩⟩
  obtain ⟨w, w', hw, -, -⟩ := h
  exact hall u hw.reachable

end

end RootedTree
