import Lightnet.Library.PreorderNumbers
import Lightnet.Relay.IndexUniqueness

/-!
# The indices of a subtree

The walk descends before it goes on with the next edge, and the next index is handed out by the
panel that was registered last or by one of the panels it hangs from. So the indices of a panel
and of everything behind it are an interval, and the router can tell the branches of a panel apart
by the indices of its children.
-/

namespace Lightnet.Fabric

open Panel PreorderNumbers

variable {P : Type*} {W : Wiring P}

/-- Each panel to resume hangs the one above it, down to the controller. -/
def Resumes (owner : ℕ → ℕ) : ℕ → List ℕ → Prop
  | _, [] => True
  | above, t :: stack => t < above ∧ (t ≠ 0 → owner above = t) ∧ Resumes owner t stack

structure WalksInOrder (c : DiscoveryCoordinator) (owner : ℕ → ℕ) : Prop where
  resumes : Resumes owner c.frontierPanelIndex c.stack
  order : InPreorder 1 owner c.nextPanelIndex

theorem Resumes.update {owner : ℕ → ℕ} {above : ℕ} {stack : List ℕ}
    (h : Resumes owner above stack) {m : ℕ} (hm : above < m) (p : ℕ) :
    Resumes (Function.update owner m p) above stack := by
  induction stack generalizing above with
  | nil => trivial
  | cons t stack ih =>
      obtain ⟨hlt, howner, hrest⟩ := h
      refine ⟨hlt, fun ht => ?_, ih hrest (hlt.trans hm)⟩
      rw [Function.update_of_ne hm.ne]
      exact howner ht

/-- The frontier is the last panel that was registered, or one that it hangs from. -/
theorem WalksInOrder.frontier {c : DiscoveryCoordinator} {owner : ℕ → ℕ}
    (h : WalksInOrder c owner) (hnext : owner c.nextPanelIndex = c.frontierPanelIndex)
    (htwo : 2 ≤ c.nextPanelIndex) :
    Under 1 owner c.frontierPanelIndex (c.nextPanelIndex - 1) ∧
      c.frontierPanelIndex < c.nextPanelIndex := by
  have hunder := h.order c.nextPanelIndex htwo le_rfl
  have hlt := h.order.parent_lt htwo le_rfl
  rw [hnext] at hunder hlt
  exact ⟨hunder, hlt⟩

theorem WalksInOrder.moves {c c' : DiscoveryCoordinator} {owner owner' : ℕ → ℕ}
    (h : WalksInOrder c owner)
    (hwalk : c.frontierPanelIndex = 0 ∧ c.nextPanelIndex = 1 ∨
      c.frontierPanelIndex ≠ 0 ∧ 2 ≤ c.nextPanelIndex)
    (howner : owner c.nextPanelIndex = c.frontierPanelIndex)
    (hmoves : OwnerMoves c c' owner owner') : WalksInOrder c' owner' := by
  have hlt : c.frontierPanelIndex < c.nextPanelIndex := by
    rcases hwalk with ⟨hzero, hone⟩ | ⟨-, htwo⟩
    · omega
    · exact (h.frontier howner htwo).2
  cases hmoves with
  | stays hsame =>
      obtain ⟨hnext, hfrontier, hstack⟩ := hsame
      refine ⟨?_, ?_⟩
      · rw [hfrontier, hstack]
        exact h.resumes
      · rw [hnext]
        exact h.order
  | registers hnext hfrontier hstack =>
      refine ⟨?_, ?_⟩
      · rw [hfrontier, hstack]
        have hresumes : Resumes owner c.nextPanelIndex (c.frontierPanelIndex :: c.stack) :=
          ⟨hlt, fun _ => howner, h.resumes⟩
        exact hresumes.update (Nat.lt_succ_self _) _
      · rw [hnext]
        exact h.order.update .refl
  | @resumes t ht hstack hnext hfrontier =>
      have hresumes := h.resumes
      rw [hstack] at hresumes
      obtain ⟨hbelow, hparent, hrest⟩ := hresumes
      have htwo : 2 ≤ c.nextPanelIndex := by omega
      have hunder : Under 1 owner t (c.nextPanelIndex - 1) :=
        .trans (.single ⟨by omega, hparent ht⟩) (h.frontier howner htwo).1
      have horder : InPreorder 1 owner (c.nextPanelIndex - 1) :=
        fun k hk hle => h.order k hk (by omega)
      have hnew := horder.update hunder
      rw [Nat.sub_add_cancel (by omega)] at hnew
      refine ⟨?_, ?_⟩
      · rw [hfrontier]
        exact hrest.update (hbelow.trans hlt) t
      · rw [hnext]
        exact hnew
  | finishes hstack hnext hfrontier =>
      have hresumes := h.resumes
      rw [hstack] at hresumes
      refine ⟨?_, ?_⟩
      · rw [hfrontier]
        obtain ⟨-, -, hrest⟩ := hresumes
        cases hempty : c'.stack with
        | nil => trivial
        | cons t stack =>
            -- Nothing lies below the sentinel.
            rw [hempty] at hrest
            exact absurd hrest.1 (Nat.not_lt_zero t)
      · rw [hnext]
        exact h.order

/-! ### Runs -/

/-- What holds along every run in which no index is handed out a second time. -/
structure Ordered (W : Wiring P) (s : Fabric P) (rank : P → ℕ) (owner : ℕ → ℕ) : Prop where
  sound : Sound W s rank
  indexed : Indexed W s owner
  walks : WalksInOrder s.coordinator owner

variable [DecidableEq P]

theorem exists_ordered_step {s : Fabric P} (ev : Event P)
    (h : ∃ rank owner, Ordered W s rank owner) (hok : AdvancesOnce s ev) :
    ∃ rank owner, Ordered W (step W s ev) rank owner := by
  obtain ⟨rank, owner, h⟩ := h
  obtain ⟨rank', hsound⟩ := exists_sound_step ⟨rank, h.sound⟩ ev
  obtain ⟨owner', hmoves, hindexed⟩ := h.indexed.step h.sound ev hok
  exact ⟨rank', owner', hsound, hindexed,
    h.walks.moves h.indexed.walk h.indexed.owner_next hmoves⟩

theorem exists_ordered {s : Fabric P} {clock : ℕ}
    (hs : Transition.Reachable (step W) AdvancesOnce (init W clock) s) :
    ∃ rank owner, Ordered W s rank owner := by
  refine hs.invariant (fun s => ∃ rank owner, Ordered W s rank owner)
    (fun s ev h hok => exists_ordered_step ev h hok) ?_
  obtain ⟨rank, hsound⟩ := exists_sound_init W clock
  obtain ⟨owner, hindexed⟩ := exists_indexed_init W clock
  refine ⟨rank, owner, hsound, hindexed, trivial, fun k hk hle => ?_⟩
  have hone : (init W clock).coordinator.nextPanelIndex = 1 := rfl
  omega

omit [DecidableEq P]

/-! ### Subtrees -/

/-- The second panel is the first one or behind one of its connected child edges. -/
def Behind (W : Wiring P) (s : Fabric P) : P → P → Prop :=
  Relation.ReflTransGen fun p q => ∃ e f, ChildLink W s p e q f

theorem Behind.linked {s : Fabric P} {p q : P} (h : Behind W s p q) (hp : Linked W s p) :
    Linked W s q := by
  induction h with
  | refl => exact hp
  | tail _ hlink ih =>
      obtain ⟨e, f, hlink⟩ := hlink
      exact .child ih hlink

variable {s : Fabric P} {rank : P → ℕ} {owner : ℕ → ℕ}

namespace Ordered

variable (h : Ordered W s rank owner)

include h

theorem child_index {p q : P} {e f : ℕ} (hlink : ChildLink W s p e q f) :
    1 < (s.panels q).assignedIndex ∧
      (s.panels q).assignedIndex ≤ s.coordinator.nextPanelIndex ∧
      owner (s.panels q).assignedIndex = (s.panels p).assignedIndex := by
  rw [← h.indexed.child_index p e q f hlink]
  obtain ⟨htwo, hle, howner⟩ := h.indexed.child p e hlink.connected hlink.elsewhere
  exact ⟨htwo, hle, howner.symm⟩

theorem root_index {r : P} {e : ℕ} (htrunk : W.cable .trunk = some (.edge r e))
    (hvia : (s.panels r).ParentVia e) : (s.panels r).assignedIndex = 1 :=
  h.indexed.root_index r e htrunk hvia

theorem index_le {p : P} (hp : Linked W s p) :
    (s.panels p).assignedIndex ≤ s.coordinator.nextPanelIndex := by
  cases hp with
  | root htrunk hvia =>
      rw [h.root_index htrunk hvia]
      rcases h.indexed.walk with ⟨-, hone⟩ | ⟨-, htwo⟩
      · exact hone.ge
      · omega
  | child _ hlink => exact (h.child_index hlink).2.1

theorem under_of_behind {p q : P} (hbehind : Behind W s p q) :
    Under 1 owner (s.panels p).assignedIndex (s.panels q).assignedIndex := by
  induction hbehind with
  | refl => exact .refl
  | tail _ hlink ih =>
      obtain ⟨e, f, hlink⟩ := hlink
      obtain ⟨hone, -, howner⟩ := h.child_index hlink
      exact ih.tail ⟨hone, howner⟩

theorem behind_of_under {p q : P} (hp : Linked W s p) (hq : Linked W s q)
    (hunder : Under 1 owner (s.panels p).assignedIndex (s.panels q).assignedIndex) :
    Behind W s p q := by
  induction hq with
  | @root r e htrunk hvia =>
      rcases hunder.eq_or_parent with heq | ⟨hone, -⟩
      · rw [h.indexed.unique p r hp (.root htrunk hvia) heq]
        exact .refl
      · rw [h.root_index htrunk hvia] at hone
        omega
  | @child p' q e f hp' hlink ih =>
      rcases hunder.eq_or_parent with heq | ⟨-, hparent⟩
      · rw [h.indexed.unique p q hp (.child hp' hlink) heq]
        exact .refl
      · rw [(h.child_index hlink).2.2] at hparent
        exact (ih hparent).tail ⟨e, f, hlink⟩

end Ordered

/-- In every run in which no idle panel with a child of index `k` or more is told to hand out `k`,
the indices of the panels behind a panel form an interval that begins with its own. -/
theorem subtree_interval [DecidableEq P] (W : Wiring P) (clock : ℕ) (s : Fabric P)
    (hs : Transition.Reachable (step W) AdvancesOnce (init W clock) s) {p q : P}
    (hp : Linked W s p) (hbehind : Behind W s p q) :
    (s.panels p).assignedIndex ≤ (s.panels q).assignedIndex ∧
      ∀ r, Linked W s r → (s.panels p).assignedIndex ≤ (s.panels r).assignedIndex →
        (s.panels r).assignedIndex ≤ (s.panels q).assignedIndex → Behind W s p r := by
  obtain ⟨rank, owner, h⟩ := exists_ordered hs
  have hunder := h.under_of_behind hbehind
  have hle := h.index_le (hbehind.linked hp)
  refine ⟨h.walks.order.le hunder hle, fun r hr hpr hrq => ?_⟩
  exact h.behind_of_under hp hr (h.walks.order.under_of_between hunder hpr hrq hle)

/-! ### A walk without faults -/

/-- Every frame is delivered as soon as it is sent. -/
def wholeWalk : List (Event (Fin 3)) := List.replicate 20 (.deliver 0)

theorem reachable_wholeWalk : Transition.Reachable (step twoLeaves) AdvancesOnce
    (init twoLeaves 0) (wholeWalk.foldl (step twoLeaves) (init twoLeaves 0)) :=
  Transition.reachable_of_guarded _ .refl (by decide +kernel)

theorem linked_wholeWalk :
    Linked twoLeaves (wholeWalk.foldl (step twoLeaves) (init twoLeaves 0)) 0 :=
  .root (e := 0) rfl ⟨by decide +kernel, by decide +kernel⟩

theorem childLink_wholeWalk :
    ChildLink twoLeaves (wholeWalk.foldl (step twoLeaves) (init twoLeaves 0)) 0 2 2 0 :=
  ⟨isConnected_iff.mp (by decide +kernel), ⟨by decide +kernel, by decide +kernel⟩, rfl⟩

theorem subtree_interval_twoLeaves :
    let s := wholeWalk.foldl (step twoLeaves) (init twoLeaves 0)
    (s.panels 0).assignedIndex ≤ (s.panels 2).assignedIndex ∧
      ∀ r, Linked twoLeaves s r → (s.panels 0).assignedIndex ≤ (s.panels r).assignedIndex →
        (s.panels r).assignedIndex ≤ (s.panels 2).assignedIndex → Behind twoLeaves s 0 r :=
  subtree_interval twoLeaves 0 _ reachable_wholeWalk linked_wholeWalk
    (.single ⟨2, 0, childLink_wholeWalk⟩)

end Lightnet.Fabric
