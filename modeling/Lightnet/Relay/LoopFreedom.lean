import Lightnet.Library.Propagation
import Lightnet.Relay.Fabric
import Lightnet.Relay.PanelSteps
import Mathlib.Data.Fintype.Option

/-!
# Loop freedom

Whatever is lost, delayed or repeated, a panel only counts a child edge as connected when the
panel across has that very port as its parent. So the edges the router floods on run from parents
to their children, and parents come before their children in the order of adoption.
-/

namespace Lightnet

/-- The panel a port belongs to. -/
def Port.panel? {P : Type*} : Port P → Option P
  | .trunk => none
  | .edge p _ => some p

namespace Fabric

open Panel

variable {P : Type*} {W : Wiring P}

/-! ### The invariant -/

/-- The port is cabled to the controller, or to a panel that has its parent elsewhere. -/
def Upstream (W : Wiring P) (s : Fabric P) (port : Port P) : Prop :=
  W.cable port = some .trunk ∨
    ∃ q f, W.cable port = some (.edge q f) ∧ (s.panels q).ParentElsewhere f

/-- The panel across the cable has its own end of it as parent. -/
def Claimed (W : Wiring P) (s : Fabric P) (port : Port P) : Prop :=
  ∃ q f, W.cable port = some (.edge q f) ∧ (s.panels q).ParentVia f

/-- What may be on its way to a port. -/
def FrameSound (W : Wiring P) (s : Fabric P) : Port P → Frame → Prop
  | .edge p e, .initializationPull _ _ => Upstream W s (.edge p e)
  | .edge p e, .registerEdge k _ _ => k ≠ 0 → Claimed W s (.edge p e)
  | _, .discoveryAdvance t _ => t ≠ 0
  | _, _ => True

structure Sound (W : Wiring P) (s : Fabric P) (rank : P → ℕ) : Prop where
  probing : ∀ p e, (s.panels p).probingEdgeIndex = some e → (s.panels p).ParentElsewhere e
  assigned : ∀ p, (s.panels p).assignedIndex ≠ 0 → (s.panels p).discovery.hasParent = true
  parent : ∀ p e, (s.panels p).ParentVia e → W.cable (.edge p e) = some .trunk ∨
    ∃ q f, W.cable (.edge p e) = some (.edge q f) ∧ (s.panels q).ParentElsewhere f ∧
      rank q < rank p
  connected : ∀ p e, (s.panels p).Connected e → (s.panels p).ParentVia e ∨ Claimed W s (.edge p e)
  frames : ∀ x ∈ s.inFlight, FrameSound W s x.1 x.2

/-- Parents are only ever gained. -/
def Extends (s s' : Fabric P) : Prop :=
  ∀ q f, (s.panels q).ParentVia f → (s'.panels q).ParentVia f

theorem Extends.elsewhere {s s' : Fabric P} (h : Extends s s') {q : P} {f : ℕ}
    (hq : (s.panels q).ParentElsewhere f) : (s'.panels q).ParentElsewhere f := by
  obtain ⟨hparent, hne⟩ := hq
  have hq' := h q _ ⟨hparent, rfl⟩
  exact ⟨hq'.1, hq'.2.trans_ne hne⟩

theorem Extends.upstream {s s' : Fabric P} (h : Extends s s') {port : Port P}
    (hp : Upstream W s port) : Upstream W s' port := by
  rcases hp with hp | ⟨q, f, hcable, hq⟩
  · exact Or.inl hp
  · exact Or.inr ⟨q, f, hcable, h.elsewhere hq⟩

theorem Extends.claimed {s s' : Fabric P} (h : Extends s s') {port : Port P}
    (hp : Claimed W s port) : Claimed W s' port := by
  obtain ⟨q, f, hcable, hq⟩ := hp
  exact ⟨q, f, hcable, h q f hq⟩

theorem Extends.frameSound {s s' : Fabric P} (h : Extends s s') {port : Port P} {frame : Frame}
    (hf : FrameSound W s port frame) : FrameSound W s' port frame := by
  cases port <;> cases frame <;> try exact hf
  · exact h.upstream hf
  · exact fun hk => h.claimed (hf hk)

/-- A port is not both offered by a parent and claimed by a child. -/
theorem Sound.not_claimed_of_parentVia {s : Fabric P} {rank : P → ℕ} (h : Sound W s rank)
    {p : P} {e : ℕ} (hp : (s.panels p).ParentVia e) : ¬ Claimed W s (.edge p e) := by
  rintro ⟨q, f, hcable, hq⟩
  rcases h.parent p e hp with htrunk | ⟨q', f', hcable', hq', -⟩
  · rw [hcable] at htrunk
    cases htrunk
  · rw [hcable] at hcable'
    cases hcable'
    exact hq.not_elsewhere hq'

/-- What a panel may put on its edges, in the state it is left in. -/
def SendSound (p : Panel) (e : ℕ) : Frame → Prop
  | .initializationPull _ _ => p.ParentElsewhere e
  | .registerEdge k _ _ => k ≠ 0 → p.ParentVia e
  | .discoveryAdvance t _ => t ≠ 0
  | _ => True

theorem frameSound_of_sendSound {s : Fabric P} {p : P} {e : ℕ} {port : Port P} {frame : Frame}
    (hcable : W.cable (.edge p e) = some port) (h : SendSound (s.panels p) e frame) :
    FrameSound W s port frame := by
  cases port <;> cases frame <;> first | exact h | trivial | skip
  · exact Or.inr ⟨p, e, W.cable_symm hcable, h⟩
  · exact fun hk => ⟨p, e, W.cable_symm hcable, h hk⟩

theorem Sound.of_subset {s s' : Fabric P} {rank : P → ℕ} (h : Sound W s rank)
    (hpanels : s'.panels = s.panels) (hflight : ∀ x ∈ s'.inFlight, x ∈ s.inFlight) :
    Sound W s' rank := by
  have hext : Extends s s' := by
    intro q f hq
    rwa [hpanels]
  refine ⟨?_, ?_, ?_, ?_, fun x hx => hext.frameSound (h.frames x (hflight x hx))⟩
  · rw [hpanels]
    exact h.probing
  · rw [hpanels]
    exact h.assigned
  · rw [hpanels]
    exact h.parent
  · rw [hpanels]
    intro p e hc
    exact (h.connected p e hc).imp id hext.claimed

/-- A frame that may arrive may be passed on. -/
theorem Sound.sendSound_of_relay {s : Fabric P} {rank : P → ℕ} (h : Sound W s rank) {p : P}
    {e : ℕ} {frame : Frame} (hin : FrameSound W s (.edge p e) frame) :
    ∀ x ∈ (s.panels p).relay e frame,
      (s.panels p).discovery.hasParent = true ∧ SendSound (s.panels p) x.1 x.2 := by
  rintro ⟨e', frame'⟩ hx
  obtain ⟨rfl, hpull, hroute⟩ := mem_relay hx
  refine ⟨hroute.elim (fun h' => h'.1.1) (fun h' => h'.1.1), ?_⟩
  cases frame' with
  | initializationPull k pe => cases hpull
  | registerEdge k ce pe =>
      intro hk
      rcases hroute with ⟨-, hup⟩ | ⟨hvia, -⟩
      · exact hup
      · exact absurd (hin hk) (h.not_claimed_of_parentVia hvia)
  | discoveryAdvance t k => exact hin
  | discoveryDone k => trivial
  | other type t payload => trivial

theorem Sound.drop {s : Fabric P} {rank : P → ℕ} (h : Sound W s rank) (i : ℕ) :
    Sound W (s.drop i) rank := h.of_subset rfl fun _ hx => List.mem_of_mem_eraseIdx hx

theorem Sound.putCoordinator {s : Fabric P} {rank : P → ℕ} (h : Sound W s rank)
    {c : DiscoveryCoordinator} {frames : List Frame}
    (hframes : ∀ f ∈ frames,
      (∃ k pe, f = .initializationPull k pe) ∨ ∃ t k, f = .discoveryAdvance t k ∧ t ≠ 0) :
    Sound W (s.putCoordinator W (c, frames)) rank := by
  refine ⟨h.probing, h.assigned, h.parent, h.connected, ?_⟩
  intro x hx
  rw [putCoordinator_inFlight] at hx
  rcases List.mem_append.mp hx with hx | hx
  · exact h.frames x hx
  · obtain ⟨hmem, hcable⟩ := mem_sendTrunk.mp hx
    rcases x with ⟨port, frame⟩
    rcases hframes frame hmem with ⟨k, pe, rfl⟩ | ⟨t, k, rfl, ht⟩
    · cases port with
      | trunk => trivial
      | edge p e => exact Or.inl (W.cable_symm hcable)
    · cases port <;> exact ht

theorem sound_blank (W : Wiring P) (clock : ℕ) : Sound W (blank W clock) fun _ => 0 := by
  refine ⟨?_, ?_, ?_, ?_, ?_⟩
  · intro p e h
    cases h
  · intro p h
    exact absurd rfl h
  · intro p e h
    cases h.1
  · intro p e h
    cases h
  · intro x hx
    cases hx

theorem exists_sound_init (W : Wiring P) (clock : ℕ) :
    ∃ rank, Sound W (init W clock) rank :=
  ⟨_, (sound_blank W clock).putCoordinator fun _ hf =>
    Or.inl ⟨_, _, List.mem_singleton.mp hf⟩⟩

theorem Sound.claimed_of_connected {s : Fabric P} {rank : P → ℕ} (h : Sound W s rank) {p : P}
    {e : ℕ} (hc : (s.panels p).Connected e) (hne : ¬ (s.panels p).ParentVia e) :
    Claimed W s (.edge p e) := (h.connected p e hc).resolve_left hne

/-- Every panel with a parent hangs below the panel on the trunk. -/
theorem Sound.root_adopted {s : Fabric P} {rank : P → ℕ} (h : Sound W s rank) {p : P} {e : ℕ}
    (hp : (s.panels p).ParentVia e) :
    ∃ r f, W.cable .trunk = some (.edge r f) ∧ (s.panels r).ParentVia f := by
  induction hn : rank p using Nat.strong_induction_on generalizing p e with
  | _ n ih =>
      rcases h.parent p e hp with htrunk | ⟨q, f, -, hq, hrank⟩
      · exact ⟨p, e, W.cable_symm htrunk, hp⟩
      · exact ih (rank q) (hn ▸ hrank) ⟨hq.1, rfl⟩ rfl

/-! ### The flood -/

variable (W) in
/-- The router of one panel floods to the other: along an edge of the first, in from its parent. -/
def FloodLink (s : Fabric P) (p q : P) : Prop :=
  ∃ e f, e ∈ (s.panels p).floodEdges (s.panels p).discovery.parentEdge ∧
    W.cable (.edge p e) = some (.edge q f)

variable (W) in
/-- Where the panels pass a frame that arrives at a port, in the state they are in. -/
def passOn (s : Fabric P) (frame : Frame) : Port P → List (Port P)
  | .trunk => []
  | .edge p e => ((s.panels p).relay e frame).filterMap fun x => W.cable (.edge p x.1)

variable (W) in
/-- The panel across a panel's parent edge. -/
def parentOf (s : Fabric P) : Option P → Option (Option P)
  | none => none
  | some p =>
    if (s.panels p).discovery.hasParent then
      (W.cable (.edge p (s.panels p).discovery.parentEdge)).bind fun q => q.panel?.map some
    else none

theorem Sound.isForest {s : Fabric P} {rank : P → ℕ} (h : Sound W s rank) :
    Propagation.IsForest (FloodLink W s) := by
  have hlink : ∀ p q, FloodLink W s p q → ∃ e f, W.cable (.edge p e) = some (.edge q f) ∧
      (s.panels q).ParentVia f := by
    rintro p q ⟨e, f, he, hcable⟩
    obtain ⟨-, hne, hconn⟩ := Panel.mem_floodEdges.mp he
    obtain ⟨q', f', hcable', hq⟩ := h.claimed_of_connected hconn fun hvia => hne hvia.2.symm
    rw [hcable] at hcable'
    cases hcable'
    exact ⟨e, f, hcable, hq⟩
  refine Propagation.isForest_of_rank rank ?_ ?_
  · intro a b c hac hbc
    obtain ⟨e, f, hcable, hc⟩ := hlink a c hac
    obtain ⟨e', f', hcable', hc'⟩ := hlink b c hbc
    obtain rfl := hc.eq hc'
    have := (W.cable_symm hcable).symm.trans (W.cable_symm hcable')
    cases this
    rfl
  · intro a b hab
    obtain ⟨e, f, hcable, hb⟩ := hlink a b hab
    rcases h.parent b f hb with htrunk | ⟨q, f', hcable', -, hrank⟩
    · rw [W.cable_symm hcable] at htrunk
      cases htrunk
    · rw [W.cable_symm hcable] at hcable'
      cases hcable'
      exact hrank

/-- An arrival that a frame sent down from the trunk can cause. -/
def Descends (s : Fabric P) (port : Port P) : Prop :=
  ∃ p e, port = .edge p e ∧
    ((s.panels p).discovery.hasParent = false ∨ (s.panels p).ParentVia e)

/-- A frame that came down is only passed on down, to children of the panel. -/
theorem Sound.child_of_relay {s : Fabric P} {rank : P → ℕ} (h : Sound W s rank)
    {frame frame' : Frame} {p : P} {e e' : ℕ} (hdesc : Descends s (.edge p e))
    (hmem : (e', frame') ∈ (s.panels p).relay e frame) :
    (s.panels p).discovery.hasParent = true ∧ ∃ q f,
      W.cable (.edge p e') = some (.edge q f) ∧ (s.panels q).ParentVia f := by
  obtain ⟨p', e₀, heq, hcase⟩ := hdesc
  cases heq
  obtain ⟨-, -, ⟨hup, -⟩ | ⟨hvia, helse, hconn⟩⟩ := mem_relay hmem
  · rcases hcase with hnone | hvia
    · rw [hup.1] at hnone
      cases hnone
    · exact absurd hup hvia.not_elsewhere
  · exact ⟨hvia.1, h.claimed_of_connected hconn fun h' => h'.not_elsewhere helse⟩

theorem Sound.branching {s : Fabric P} {rank : P → ℕ} (h : Sound W s rank) (frame : Frame) :
    Propagation.Branching (passOn W s frame) Port.panel? (parentOf W s) (Descends s) := by
  have hchild : ∀ a, Descends s a → ∀ b ∈ passOn W s frame a, ∃ p e' q f,
      a.panel? = some p ∧ W.cable (.edge p e') = some (.edge q f) ∧ b = .edge q f ∧
        (s.panels q).ParentVia f := by
    intro a ha b hb
    obtain ⟨p, e, rfl, -⟩ := id ha
    obtain ⟨⟨e', frame'⟩, hmem, hcable⟩ := List.mem_filterMap.mp hb
    obtain ⟨-, q, f, hcable', hvia⟩ := h.child_of_relay ha hmem
    dsimp only at hcable
    rw [hcable] at hcable'
    cases hcable'
    exact ⟨p, e', q, f, rfl, hcable, rfl, hvia⟩
  refine ⟨?_, ?_, ?_⟩
  · intro a ha b hb
    obtain ⟨p, e', q, f, -, -, rfl, hvia⟩ := hchild a ha b hb
    exact ⟨q, f, rfl, Or.inr hvia⟩
  · intro a ha b hb
    obtain ⟨p, e', q, f, hp, hcable, rfl, hvia⟩ := hchild a ha b hb
    have hup : W.cable (.edge q (s.panels q).discovery.parentEdge) = some (.edge p e') := by
      rw [hvia.2]
      exact W.cable_symm hcable
    rw [hp]
    simp only [Port.panel?, parentOf, hvia.1, if_true, hup, Option.bind_some, Option.map_some]
  · intro a ha
    obtain ⟨p, e, rfl, -⟩ := id ha
    rw [passOn, List.map_filterMap]
    refine List.pairwise_filterMap.mpr ((List.pairwise_map.mp
      (relay_nodup (s.panels p) e frame)).imp_of_mem ?_)
    rintro ⟨e₁, frame₁⟩ ⟨e₂, frame₂⟩ h₁ h₂ hne k₁ hk₁ k₂ hk₂ rfl
    obtain ⟨-, q₁, f₁, hc₁, hvia₁⟩ := h.child_of_relay ha h₁
    obtain ⟨-, q₂, f₂, hc₂, hvia₂⟩ := h.child_of_relay ha h₂
    rw [hc₁] at hk₁
    rw [hc₂] at hk₂
    cases hk₁
    cases hk₂
    obtain rfl := hvia₁.eq hvia₂
    have := (W.cable_symm hc₁).symm.trans (W.cable_symm hc₂)
    cases this
    exact hne rfl

theorem Sound.descends_of_trunk {s : Fabric P} {rank : P → ℕ} (h : Sound W s rank)
    {port : Port P} (hport : W.cable .trunk = some port) :
    Descends s port ∧ parentOf W s port.panel? = none := by
  cases port with
  | trunk => exact absurd hport (W.cable_irrefl _)
  | edge p e =>
      cases hp : (s.panels p).discovery.hasParent with
      | false => exact ⟨⟨p, e, rfl, Or.inl hp⟩, by simp [parentOf, Port.panel?, hp]⟩
      | true =>
          obtain ⟨r, f, hcable, hvia⟩ := h.root_adopted (p := p) ⟨hp, rfl⟩
          rw [hport] at hcable
          cases hcable
          refine ⟨⟨p, e, rfl, Or.inr hvia⟩, ?_⟩
          simp [parentOf, Port.panel?, hvia.1, hvia.2, W.cable_symm hport]


/-! ### Steps -/

variable [DecidableEq P]

/-- A panel may change in any way that keeps its parent, as long as it connects only claimed
edges and what it sends is sound. -/
theorem Sound.putPanel {s : Fabric P} {rank : P → ℕ} (h : Sound W s rank) {p : P}
    {p' : Panel} {sends : Sends}
    (hparent : ∀ e, p'.ParentVia e ↔ (s.panels p).ParentVia e)
    (hprobing : ∀ e, p'.probingEdgeIndex = some e → p'.ParentElsewhere e)
    (hassigned : p'.assignedIndex ≠ 0 → p'.discovery.hasParent = true)
    (hconnected : ∀ e, p'.Connected e → (s.panels p).Connected e ∨ Claimed W s (.edge p e))
    (hsends : ∀ x ∈ sends, SendSound p' x.1 x.2) :
    Sound W (s.putPanel W p (p', sends)) rank := by
  have hiff : ∀ q f, ((s.putPanel W p (p', sends)).panels q).ParentVia f ↔
      (s.panels q).ParentVia f := by
    intro q f
    by_cases hq : q = p
    · subst hq
      rw [putPanel_panels_self]
      exact hparent f
    · rw [putPanel_panels_of_ne s _ hq]
  have hext : Extends s (s.putPanel W p (p', sends)) := fun q f => (hiff q f).mpr
  refine ⟨?_, ?_, ?_, ?_, ?_⟩
  · intro q e hq
    by_cases hqp : q = p
    · subst hqp
      rw [putPanel_panels_self] at hq ⊢
      exact hprobing e hq
    · rw [putPanel_panels_of_ne s _ hqp] at hq ⊢
      exact h.probing q e hq
  · intro q hq
    by_cases hqp : q = p
    · subst hqp
      rw [putPanel_panels_self] at hq ⊢
      exact hassigned hq
    · rw [putPanel_panels_of_ne s _ hqp] at hq ⊢
      exact h.assigned q hq
  · intro q e hq
    rcases h.parent q e ((hiff q e).mp hq) with htrunk | ⟨q', f, hcable, hq', hrank⟩
    · exact Or.inl htrunk
    · exact Or.inr ⟨q', f, hcable, hext.elsewhere hq', hrank⟩
  · intro q e hq
    by_cases hqp : q = p
    · subst hqp
      rw [putPanel_panels_self] at hq
      rcases hconnected e hq with hold | hclaim
      · exact (h.connected q e hold).imp (hiff q e).mpr hext.claimed
      · exact Or.inr (hext.claimed hclaim)
    · rw [putPanel_panels_of_ne s _ hqp] at hq
      exact (h.connected q e hq).imp (hiff q e).mpr hext.claimed
  · intro x hx
    rw [putPanel_inFlight] at hx
    rcases List.mem_append.mp hx with hx | hx
    · exact hext.frameSound (h.frames x hx)
    · obtain ⟨e, hmem, hcable⟩ := mem_sendAll.mp hx
      refine frameSound_of_sendSound hcable ?_
      rw [putPanel_panels_self]
      exact hsends _ hmem

/-- A panel without a parent takes one that is upstream of it. Nobody has it as parent yet, so it
can come last in the order. -/
theorem Sound.adopt {s : Fabric P} {rank : P → ℕ} (h : Sound W s rank) {p : P} {e k : ℕ}
    (hnew : (s.panels p).discovery.hasParent = false) (hup : Upstream W s (.edge p e))
    {sends : Sends} (hsends : ∀ x ∈ sends, SendSound ((s.panels p).adopt e k) x.1 x.2) :
    ∃ rank', Sound W (s.putPanel W p ((s.panels p).adopt e k, sends)) rank' := by
  have hno : ∀ f, ¬ (s.panels p).ParentVia f := by
    rintro f ⟨hf, -⟩
    rw [hnew] at hf
    cases hf
  have hno' : ∀ f, ¬ (s.panels p).ParentElsewhere f := fun f hf => hno _ ⟨hf.1, rfl⟩
  have hself : ((s.panels p).adopt e k).ParentVia e := ⟨rfl, rfl⟩
  have hext : Extends s (s.putPanel W p ((s.panels p).adopt e k, sends)) := by
    intro q f hq
    rw [putPanel_panels_of_ne s _ (by rintro rfl; exact hno f hq)]
    exact hq
  obtain ⟨n, hn⟩ : ∃ n, W.cable (.edge p e) = some .trunk ∨
      ∃ q f, W.cable (.edge p e) = some (.edge q f) ∧ (s.panels q).ParentElsewhere f ∧
        q ≠ p ∧ rank q < n := by
    rcases hup with htrunk | ⟨q, f, hcable, hq⟩
    · exact ⟨0, Or.inl htrunk⟩
    · exact ⟨rank q + 1, Or.inr ⟨q, f, hcable, hq, by rintro rfl; exact hno' f hq, by omega⟩⟩
  refine ⟨Function.update rank p n, ?_, ?_, ?_, ?_, ?_⟩
  · intro q f hq
    by_cases hqp : q = p
    · subst hqp
      rw [putPanel_panels_self] at hq
      exact absurd (h.probing q f hq) (hno' f)
    · rw [putPanel_panels_of_ne s _ hqp] at hq ⊢
      exact h.probing q f hq
  · intro q hq
    by_cases hqp : q = p
    · subst hqp
      rw [putPanel_panels_self]
      exact hself.1
    · rw [putPanel_panels_of_ne s _ hqp] at hq ⊢
      exact h.assigned q hq
  · intro q f hq
    by_cases hqp : q = p
    · subst hqp
      rw [putPanel_panels_self] at hq
      obtain rfl := hq.eq hself
      rcases hn with htrunk | ⟨q', f', hcable, hq', hne, hrank⟩
      · exact Or.inl htrunk
      · refine Or.inr ⟨q', f', hcable, hext.elsewhere hq', ?_⟩
        rwa [Function.update_of_ne hne, Function.update_self]
    · rw [putPanel_panels_of_ne s _ hqp] at hq
      rcases h.parent q f hq with htrunk | ⟨q', f', hcable, hq', hrank⟩
      · exact Or.inl htrunk
      · have hne : q' ≠ p := by
          rintro rfl
          exact hno' f' hq'
        refine Or.inr ⟨q', f', hcable, hext.elsewhere hq', ?_⟩
        rwa [Function.update_of_ne hne, Function.update_of_ne hqp]
  · intro q f hq
    by_cases hqp : q = p
    · subst hqp
      rw [putPanel_panels_self] at hq ⊢
      by_cases hf : f = e
      · subst hf
        exact Or.inl hself
      · have hold : (s.panels q).Connected f := by
          simpa [Connected, Panel.adopt, assign, Function.update_of_ne hf] using hq
        exact (h.connected q f hold).imp (fun h' => absurd h' (hno f)) hext.claimed
    · rw [putPanel_panels_of_ne s _ hqp] at hq ⊢
      exact (h.connected q f hq).imp id hext.claimed
  · intro x hx
    rw [putPanel_inFlight] at hx
    rcases List.mem_append.mp hx with hx | hx
    · exact hext.frameSound (h.frames x hx)
    · obtain ⟨f, hmem, hcable⟩ := mem_sendAll.mp hx
      refine frameSound_of_sendSound hcable ?_
      rw [putPanel_panels_self]
      exact hsends _ hmem

/-- What reaches a panel is sound to react to. -/
def InputSound (W : Wiring P) (s : Fabric P) (p : P) (input : Option (ℕ × Frame)) : Prop :=
  ∀ x ∈ input, FrameSound W s (.edge p x.1) x.2

theorem Sound.searches {s : Fabric P} {rank : P → ℕ} (h : Sound W s rank) {p : P}
    {q p' : Panel} {sends relayed : Sends} (hs : Searches q p' sends)
    (hq : q.discovery.hasParent = true)
    (hparent : ∀ e, q.ParentVia e ↔ (s.panels p).ParentVia e)
    (hprobing : q.probingEdgeIndex = none)
    (hconnected : ∀ e, q.Connected e → (s.panels p).Connected e)
    (hrelayed : ∀ x ∈ relayed, SendSound q x.1 x.2) :
    Sound W (s.putPanel W p (p', relayed ++ sends)) rank := by
  cases hs with
  | @probes e nowMs he =>
      have hpast : q.ParentElsewhere e := ⟨hq, (nextEdge_eq_some he).2.1.symm⟩
      refine h.putPanel hparent ?_ (fun _ => hq) (fun f hf => Or.inl (hconnected f hf)) ?_
      · intro f hf
        cases hf
        exact hpast
      · intro x hx
        rcases List.mem_append.mp hx with hx | hx
        · have := hrelayed x hx
          rcases x with ⟨f, _ | _ | _ | _ | _⟩ <;> exact this
        · cases List.mem_singleton.mp hx
          exact hpast
  | finds_none hnone =>
      refine h.putPanel hparent ?_ (fun _ => hq) (fun f hf => Or.inl (hconnected f hf)) ?_
      · intro f hf
        rw [hprobing] at hf
        cases hf
      · intro x hx
        rcases List.mem_append.mp hx with hx | hx
        · exact hrelayed x hx
        · cases List.mem_singleton.mp hx
          trivial

/-- Any reaction to a sound input, and whatever is passed on before it, keeps the fabric sound. -/
theorem Sound.reacts {s : Fabric P} {rank : P → ℕ} (h : Sound W s rank) {p : P}
    {input : Option (ℕ × Frame)} {p' : Panel} {sends : Sends} (relayed : Sends)
    (hin : InputSound W s p input) (hr : Reacts (s.panels p) input p' sends)
    (hrelayed : ∀ x ∈ relayed,
      (s.panels p).discovery.hasParent = true ∧ SendSound (s.panels p) x.1 x.2) :
    ∃ rank', Sound W (s.putPanel W p (p', relayed ++ sends)) rank' := by
  have hpast : ∀ {e}, (s.panels p).probingEdgeIndex = some e →
      (s.panels p).discovery.hasParent = true := fun he => (h.probing p _ he).1
  have hrelayed' : ∀ x ∈ relayed, SendSound (s.panels p) x.1 x.2 := fun x hx => (hrelayed x hx).2
  have hfail : ∀ {e f}, ((s.panels p).failChild e).Connected f → (s.panels p).Connected f := by
    intro e f hf
    by_cases hfe : f = e
    · subst hfe
      simp [Connected, failChild, PanelDiscovery.onChildProbeFailed] at hf
    · simpa [Connected, failChild, PanelDiscovery.onChildProbeFailed,
        Function.update_of_ne hfe] using hf
  cases hr with
  | ignores =>
      rw [List.append_nil]
      exact ⟨rank, h.putPanel (fun _ => Iff.rfl) (h.probing p) (h.assigned p)
        (fun _ => Or.inl) hrelayed'⟩
  | @adopts e k pe hnew =>
      refine h.adopt hnew (hin _ rfl) ?_
      intro x hx
      rcases List.mem_append.mp hx with hx | hx
      · have := (hrelayed x hx).1
        rw [hnew] at this
        cases this
      · cases List.mem_singleton.mp hx
        exact fun _ => ⟨rfl, rfl⟩
  | @confirms e k pe hparent =>
      refine ⟨rank, h.putPanel (fun _ => Iff.rfl) (h.probing p) (fun _ => hparent.1)
        (fun _ => Or.inl) ?_⟩
      intro x hx
      rcases List.mem_append.mp hx with hx | hx
      · exact hrelayed' x hx
      · cases List.mem_singleton.mp hx
        exact fun _ => hparent
  | @rejects e k pe helse =>
      refine ⟨rank, h.putPanel (fun _ => Iff.rfl) (h.probing p) (h.assigned p) ?_ ?_⟩
      · intro f hf
        by_cases hfe : f = e
        · subst hfe
          simp [Connected, reject] at hf
        · exact Or.inl (by simpa [Connected, reject, Function.update_of_ne hfe] using hf)
      · intro x hx
        rcases List.mem_append.mp hx with hx | hx
        · exact hrelayed' x hx
        · cases List.mem_singleton.mp hx
          exact fun hk => absurd rfl hk
  | @accepts e k ce pe hprobing hk =>
      refine ⟨rank, h.putPanel (fun _ => Iff.rfl) ?_ (h.assigned p) ?_ ?_⟩
      · intro f hf
        cases hf
      · intro f hf
        by_cases hfe : f = e
        · subst hfe
          exact Or.inr (hin _ rfl hk)
        · exact Or.inl (by simpa [Connected, acceptChild, PanelDiscovery.onChildProbeAccepted,
            Function.update_of_ne hfe] using hf)
      · rw [List.append_nil]
        exact hrelayed'
  | refused hprobing hs =>
      exact ⟨rank, h.searches hs (hpast hprobing) (fun _ => Iff.rfl) rfl (fun _ => hfail)
        hrelayed'⟩
  | @advances e t k _ _ ht hprobing hs =>
      have hp : (s.panels p).discovery.hasParent = true := by
        apply h.assigned
        rw [← ht]
        exact hin _ rfl
      exact ⟨rank, h.searches hs hp (fun _ => Iff.rfl) hprobing (fun _ => id) hrelayed'⟩
  | @retries e nowMs hprobing =>
      refine ⟨rank, h.putPanel (fun _ => Iff.rfl) ?_ (h.assigned p) (fun _ => Or.inl) ?_⟩
      · intro f hf
        cases hf
        exact h.probing p _ hprobing
      · intro x hx
        rcases List.mem_append.mp hx with hx | hx
        · exact hrelayed' x hx
        · cases List.mem_singleton.mp hx
          exact h.probing p _ hprobing
  | gives_up hprobing hs =>
      exact ⟨rank, h.searches hs (hpast hprobing) (fun _ => Iff.rfl) rfl (fun _ => hfail)
        hrelayed'⟩

/-! ### Runs -/

theorem exists_sound_step {s : Fabric P} (h : ∃ rank, Sound W s rank) (ev : Event P) :
    ∃ rank, Sound W (step W s ev) rank := by
  obtain ⟨rank, h⟩ := h
  cases ev with
  | elapse ms => exact ⟨rank, h.of_subset rfl fun _ hx => hx⟩
  | lose i => exact ⟨rank, h.drop i⟩
  | again i =>
      refine ⟨rank, h.of_subset rfl fun x hx => ?_⟩
      rcases List.mem_append.mp hx with hx | hx
      · exact hx
      · exact List.mem_of_getElem? (Option.mem_toList.mp hx)
  | deliver i =>
      cases hi : s.inFlight[i]? with
      | none => simpa only [step, hi] using ⟨rank, h⟩
      | some x =>
          simp only [step, hi]
          rcases x with ⟨port, frame⟩
          have hframe : FrameSound W (s.drop i) port frame :=
            h.frames _ (List.mem_of_getElem? hi)
          cases port with
          | trunk =>
              exact ⟨rank, (h.drop i).putCoordinator
                (DiscoveryCoordinator.reacts_onFrameArrived _ _ _).sends⟩
          | edge p e =>
              have hin : InputSound W (s.drop i) p (some (e, frame)) := by
                intro y hy
                cases hy
                exact hframe
              exact (h.drop i).reacts _ hin (reacts_driverOnFrameArrived _ _ _ _)
                ((h.drop i).sendSound_of_relay hframe)
  | tickPanel p =>
      have hin : InputSound W s p none := by
        intro y hy
        cases hy
      have := h.reacts [] hin (reacts_tick (s.panels p) s.nowMs) (by simp)
      exact this
  | tickController =>
      exact ⟨rank, h.putCoordinator (DiscoveryCoordinator.reacts_tick _ _).sends⟩

theorem exists_sound (W : Wiring P) (clock : ℕ) (events : List (Event P)) :
    ∃ rank, Sound W (events.foldl (step W) (init W clock)) rank := by
  induction events using List.reverseRecOn with
  | nil => exact exists_sound_init W clock
  | append_singleton events ev ih =>
      rw [List.foldl_append]
      exact exists_sound_step ih ev

/-- Whatever is lost, delayed or repeated: a connected edge other than the parent's leads to the
panel that has its port as parent, the links the router floods on are a forest, and a frame sent
down the trunk reaches every panel at most once, after which it is nowhere on its way. -/
theorem loop_freedom [Fintype P] (W : Wiring P) (clock : ℕ) (events : List (Event P)) :
    let s := events.foldl (step W) (init W clock)
    (∀ p e, (s.panels p).discovery.isConnected e = true → ¬ (s.panels p).ParentVia e →
      ∃ q f, W.cable (.edge p e) = some (.edge q f) ∧ (s.panels q).ParentVia f) ∧
    Propagation.IsForest (FloodLink W s) ∧
    ∀ frame, ∃ n arrivals,
      Propagation.propagate (passOn W s frame) n (W.cable .trunk).toList = some arrivals ∧
        (arrivals.map Port.panel?).Nodup := by
  intro s
  obtain ⟨rank, h⟩ := exists_sound W clock events
  refine ⟨?_, h.isForest, ?_⟩
  · intro p e hc hne
    exact h.claimed_of_connected (isConnected_iff.mp hc) hne
  · intro frame
    cases htrunk : W.cable .trunk with
    | none => exact ⟨0, [], rfl, List.nodup_nil⟩
    | some port =>
        obtain ⟨hdesc, hroot⟩ := h.descends_of_trunk htrunk
        exact ⟨_, (h.branching frame).propagate_terminates hdesc hroot⟩

end Fabric

end Lightnet
