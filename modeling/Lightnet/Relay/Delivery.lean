import Lightnet.Relay.Routing

/-!
# Every frame is delivered once

A frame that the controller sends is acted on once by each panel it is meant for, and by no other
one, in every state that a walk has reached in which no index was handed out twice. A frame that a
panel sends on its parent edge reaches the controller once, whatever was lost, delayed or repeated.
-/

namespace Lightnet.Fabric

open Panel Propagation

variable {P : Type*} {W : Wiring P}

/-- The panel that acts on a frame when it arrives at a port. -/
def dispatches (s : Fabric P) (frame : Frame) : Port P → Option P
  | .trunk => none
  | .edge p e => if ((s.panels p).onFrameArrived e frame s.nowMs).2.2 then some p else none

/-- The panels that act on a frame, in the order in which it reaches them. -/
def dispatched (s : Fabric P) (frame : Frame) (arrivals : List (Port P)) : List P :=
  arrivals.filterMap (dispatches s frame)

/-! ### What every panel keeps -/

structure Wired (W : Wiring P) (s : Fabric P) : Prop where
  edgeCount : ∀ p, (s.panels p).discovery.edgeCount = W.edgeCount p
  parentConnected : ∀ p, (s.panels p).ParentConnected

theorem wired_init (W : Wiring P) (clock : ℕ) : Wired W (init W clock) :=
  ⟨fun _ => rfl, fun p e hvia => by cases hvia.1⟩

section Steps

variable [DecidableEq P]

theorem Wired.putPanel {s : Fabric P} {rank : P → ℕ} (h : Wired W s) (hs : Sound W s rank) {p : P}
    {p' : Panel} {input : Option (ℕ × Frame)} {sends sends' : Sends}
    (hr : Reacts (s.panels p) input p' sends) : Wired W (s.putPanel W p (p', sends')) := by
  obtain ⟨hconnected, hcount⟩ := (h.parentConnected p).reacts (hs.probing p) hr
  refine ⟨fun q => ?_, fun q => ?_⟩
  · by_cases hq : q = p
    · subst hq
      rw [putPanel_panels_self, hcount]
      exact h.edgeCount q
    · rw [putPanel_panels_of_ne s _ hq]
      exact h.edgeCount q
  · by_cases hq : q = p
    · subst hq
      rw [putPanel_panels_self]
      exact hconnected
    · rw [putPanel_panels_of_ne s _ hq]
      exact h.parentConnected q

theorem Wired.step {s : Fabric P} {rank : P → ℕ} (h : Wired W s) (hs : Sound W s rank)
    (ev : Event P) : Wired W (step W s ev) := by
  cases ev with
  | elapse ms => exact ⟨h.edgeCount, h.parentConnected⟩
  | lose i => exact ⟨h.edgeCount, h.parentConnected⟩
  | again i => exact ⟨h.edgeCount, h.parentConnected⟩
  | tickController => exact ⟨h.edgeCount, h.parentConnected⟩
  | tickPanel p => exact h.putPanel hs (reacts_tick (s.panels p) s.nowMs)
  | deliver i =>
      unfold Fabric.step
      dsimp only
      cases hi : s.inFlight[i]? with
      | none => exact h
      | some x =>
          obtain ⟨port, frame⟩ := x
          have hdrop : Wired W (s.drop i) := ⟨h.edgeCount, h.parentConnected⟩
          cases port with
          | trunk => exact ⟨h.edgeCount, h.parentConnected⟩
          | edge p e =>
              have hreacts := reacts_driverOnFrameArrived (s.panels p) e frame s.nowMs
              exact hdrop.putPanel (hs.drop i) hreacts

/-- Every reachable state, whatever was lost, delayed or repeated. -/
theorem exists_sound_wired (W : Wiring P) (clock : ℕ) (events : List (Event P)) :
    ∃ rank, Sound W (events.foldl (step W) (init W clock)) rank ∧
      Wired W (events.foldl (step W) (init W clock)) := by
  induction events using List.reverseRecOn with
  | nil =>
      obtain ⟨rank, hs⟩ := exists_sound_init W clock
      exact ⟨rank, hs, wired_init W clock⟩
  | append_singleton events ev ih =>
      obtain ⟨rank, hs, h⟩ := ih
      obtain ⟨rank', hs'⟩ := exists_sound_step ⟨rank, hs⟩ ev
      rw [List.foldl_append]
      exact ⟨rank', hs', h.step hs ev⟩

/-- Every state of a run in which no index is handed out a second time. -/
theorem exists_ordered_wired {s : Fabric P} {clock : ℕ}
    (hs : Transition.Reachable (step W) AdvancesOnce (init W clock) s) :
    (∃ rank owner, Ordered W s rank owner) ∧ Wired W s := by
  refine ⟨exists_ordered hs, ?_⟩
  have hinv := hs.invariant (fun s => (∃ rank owner, Ordered W s rank owner) ∧ Wired W s) ?_ ?_
  · exact hinv.2
  · rintro s ev ⟨⟨rank, owner, h⟩, hwired⟩ hok
    exact ⟨exists_ordered_step ev ⟨rank, owner, h⟩ hok, hwired.step h.sound ev⟩
  · exact ⟨exists_ordered .refl, wired_init W clock⟩

end Steps

/-- One frame on one edge goes to the port across. -/
theorem passOn_single {s : Fabric P} {p : P} {e e' : ℕ} {frame frame' : Frame}
    (hrelay : (s.panels p).relay e frame = [(e', frame')]) :
    passOn W s frame (.edge p e) = (W.cable (.edge p e')).toList := by
  change ((s.panels p).relay e frame).filterMap (fun x => W.cable (.edge p x.1)) = _
  rw [hrelay, List.filterMap_cons, List.filterMap_nil]
  cases W.cable (.edge p e') <;> rfl

/-! ### Up -/

/-- A frame that no panel above is meant for climbs from parent to parent. -/
theorem Sound.climbs {s : Fabric P} {rank : P → ℕ} (hs : Sound W s rank) (h : Wired W s)
    {frame : Frame} (hpull : frame.isPull = false) {p : P} {e : ℕ}
    (hvia : (s.panels p).ParentVia e)
    (hself : ∀ q, rank q < rank p → (s.panels q).addressedToSelf frame = false) :
    ∃ n climbed, propagate (passOn W s frame) n (W.cable (.edge p e)).toList =
      some (climbed ++ [.trunk]) ∧ Port.trunk ∉ climbed := by
  induction hn : rank p using Nat.strong_induction_on generalizing p e with
  | _ n ih =>
      subst hn
      rcases hs.parent p e hvia with htrunk | ⟨q, f, hcable, helse, hrank⟩
      · rw [htrunk]
        exact ⟨1, [], rfl, List.not_mem_nil⟩
      · have hup : (s.panels q).ParentVia (s.panels q).discovery.parentEdge := ⟨helse.1, rfl⟩
        obtain ⟨m, climbed, hrun, hlast⟩ := ih (rank q) hrank hup
          (fun q' hq' => hself q' (hq'.trans hrank)) rfl
        have hnext : passOn W s frame (.edge q f) =
            (W.cable (.edge q (s.panels q).discovery.parentEdge)).toList :=
          passOn_single (relay_up helse (h.parentConnected q _ hup) hpull (hself q hrank))
        refine ⟨m + 1, .edge q f :: climbed, ?_, ?_⟩
        · rw [hcable, Option.toList_some, propagate_succ_cons, List.nil_append, hnext, hrun]
          rfl
        · intro hmem
          rcases List.mem_cons.mp hmem with heq | hmem
          · cases heq
          · exact hlast hmem

/-- Whatever was lost, delayed or repeated: a frame without a target, or with a target that no
other panel holds as its index, reaches the controller once when a panel sends it on its parent
edge, and then it is nowhere on its way. -/
theorem reports_once [DecidableEq P] (W : Wiring P) (clock : ℕ) (events : List (Event P))
    (frame : Frame) (hpull : frame.isPull = false) (p : P) :
    let s := events.foldl (step W) (init W clock)
    (s.panels p).discovery.hasParent = true →
    (frame.targetPanelIndex = 0 ∨
      ∀ q, q ≠ p → (s.panels q).assignedIndex ≠ frame.targetPanelIndex) →
    ∃ n climbed, propagate (passOn W s frame) n
        (W.cable (.edge p (s.panels p).discovery.parentEdge)).toList =
      some (climbed ++ [.trunk]) ∧ Port.trunk ∉ climbed := by
  intro s hparent htarget
  obtain ⟨rank, hs, h⟩ := exists_sound_wired W clock events
  refine hs.climbs h hpull ⟨hparent, rfl⟩ fun q hrank => ?_
  rw [addressedToSelf_eq_false_iff]
  by_cases hzero : (s.panels q).assignedIndex = 0
  · exact .inl hzero
  · rcases htarget with hnone | hother
    · rw [hnone]
      exact .inr (Ne.symm hzero)
    · have hne : q ≠ p := fun heq => (heq ▸ hrank).ne rfl
      exact .inr (Ne.symm (hother q hne))

theorem reports_once_twoLeaves :
    let s := wholeWalk.foldl (step twoLeaves) (init twoLeaves 0)
    ∃ n climbed, propagate (passOn twoLeaves s (.other .ack 0 [])) n
        (twoLeaves.cable (.edge 2 (s.panels 2).discovery.parentEdge)).toList =
      some (climbed ++ [.trunk]) ∧ Port.trunk ∉ climbed :=
  reports_once twoLeaves 0 wholeWalk (.other .ack 0 []) rfl 2 (by decide +kernel) (.inl rfl)

/-! ### Down -/

/-- The panel on the trunk is above every other one. -/
theorem Linked.root_above {s : Fabric P} {t : P} (h : Linked W s t) :
    ∃ r e, W.cable .trunk = some (.edge r e) ∧ (s.panels r).ParentVia e ∧ Behind W s r t := by
  induction h with
  | @root r e htrunk hvia => exact ⟨r, e, htrunk, hvia, .refl⟩
  | @child p q e f _ hlink ih =>
      obtain ⟨r, e₀, htrunk, hvia, hbehind⟩ := ih
      exact ⟨r, e₀, htrunk, hvia, hbehind.tail ⟨e, f, hlink⟩⟩

/-- Where a frame from the controller may come to a panel. -/
def Comes (W : Wiring P) (s : Fabric P) (port : Port P) : Prop :=
  ∃ p e, port = .edge p e ∧
    ((s.panels p).discovery.hasParent = false ∨ Linked W s p ∧ (s.panels p).ParentVia e)

namespace Ordered

variable {s : Fabric P} {rank : P → ℕ} {owner : ℕ → ℕ} (h : Ordered W s rank owner)

include h

theorem comes_of_trunk {port : Port P} (htrunk : W.cable .trunk = some port) : Comes W s port := by
  cases port with
  | trunk => exact absurd htrunk (W.cable_irrefl _)
  | edge p e =>
      by_cases hp : (s.panels p).discovery.hasParent = true
      · obtain ⟨r, f, hcable, hvia⟩ := h.sound.root_adopted (p := p) ⟨hp, rfl⟩
        rw [htrunk] at hcable
        cases hcable
        exact ⟨p, e, rfl, .inr ⟨.root htrunk hvia, hvia⟩⟩
      · exact ⟨p, e, rfl, .inl (Bool.not_eq_true _ ▸ hp)⟩

theorem comes_next {frame : Frame} {port : Port P} (hport : Comes W s port) :
    ∀ port' ∈ passOn W s frame port, ∃ p e e' q f, port = .edge p e ∧ port' = .edge q f ∧
      Linked W s p ∧ ChildLink W s p e' q f ∧ (e', frame) ∈ (s.panels p).relay e frame := by
  intro port' hmem
  obtain ⟨p, e, rfl, hcase⟩ := hport
  obtain ⟨⟨e', frame'⟩, hrelay, hcable⟩ := List.mem_filterMap.mp hmem
  obtain ⟨rfl, -, hroute⟩ := mem_relay hrelay
  rcases hcase with hnone | ⟨hp, hvia⟩
  · rcases hroute with ⟨helse, -⟩ | ⟨hvia, -⟩
    · rw [helse.1] at hnone
      cases hnone
    · rw [hvia.1] at hnone
      cases hnone
  · rcases hroute with ⟨helse, -⟩ | ⟨-, helse, hconn⟩
    · exact absurd helse hvia.not_elsewhere
    · obtain ⟨q, f, hcable', -⟩ :=
        h.sound.claimed_of_connected hconn fun hvia' => hvia'.not_elsewhere helse
      dsimp only at hcable
      rw [hcable'] at hcable
      cases hcable
      exact ⟨p, e, e', q, f, rfl, rfl, hp, ⟨hconn, helse, hcable'⟩, hrelay⟩

theorem comes_of_next {frame : Frame} {port : Port P} (hport : Comes W s port) :
    ∀ port' ∈ passOn W s frame port, Comes W s port' := by
  intro port' hmem
  obtain ⟨p, e, e', q, f, rfl, rfl, hp, hlink, -⟩ := h.comes_next hport port' hmem
  exact ⟨q, f, rfl, .inr ⟨.child hp hlink, hlink.parentVia h.sound⟩⟩

/-- Two branches of a panel have nothing in common. -/
theorem branch_unique {p q q' t : P} {e f e' f' : ℕ} (hp : Linked W s p)
    (hlink : ChildLink W s p e q f) (hlink' : ChildLink W s p e' q' f')
    (hbehind : Behind W s q t)
    (hle : (s.panels q').assignedIndex ≤ (s.panels t).assignedIndex) (hne : e' ≠ e) :
    (s.panels q').assignedIndex < (s.panels q).assignedIndex := by
  obtain ⟨hone, hlast, howner⟩ := h.child_index hlink
  obtain ⟨hone', hlast', howner'⟩ := h.child_index hlink'
  rcases Nat.lt_trichotomy (s.panels q').assignedIndex (s.panels q).assignedIndex with
    hlt | heq | hgt
  · exact hlt
  · obtain rfl := h.indexed.unique q' q (.child hp hlink') (.child hp hlink) heq
    obtain rfl := (hlink'.parentVia h.sound).eq (hlink.parentVia h.sound)
    have hcable := (W.cable_symm hlink'.cable).symm.trans (W.cable_symm hlink.cable)
    cases hcable
    exact absurd rfl hne
  · have hend := h.index_le (hbehind.linked (.child hp hlink))
    have := h.walks.order.lt_of_sibling hone hgt hlast' (howner.trans howner'.symm)
      (h.under_of_behind hbehind) hend
    omega

theorem addressedToSelf_eq_false {p t : P} {type : PacketType} {payload : List Byte}
    (hp : Linked W s p) (ht : Linked W s t) (hne : p ≠ t) :
    (s.panels p).addressedToSelf (.other type (s.panels t).assignedIndex payload) = false := by
  rw [addressedToSelf_eq_false_iff]
  exact .inr fun heq => hne (h.indexed.unique t p ht hp heq).symm

/-- An addressed frame takes the branch that holds its target. -/
theorem relay_branch (hwired : Wired W s) {p q t : P} {e e' f : ℕ} {type : PacketType}
    {payload : List Byte} (hp : Linked W s p) (hvia : (s.panels p).ParentVia e)
    (hlink : ChildLink W s p e' q f) (hbehind : Behind W s q t) :
    (s.panels p).relay e (.other type (s.panels t).assignedIndex payload) =
      [(e', .other type (s.panels t).assignedIndex payload)] := by
  have hq := Linked.child hp hlink
  have ht := hbehind.linked hq
  have hunder := h.under_of_behind hbehind
  have hle := h.walks.order.le hunder (h.index_le ht)
  obtain ⟨hone, hlast, howner⟩ := h.child_index hlink
  have hne : p ≠ t := by
    intro heq
    have hlt := h.walks.order.parent_lt hone hlast
    rw [howner, heq] at hlt
    omega
  have hrecorded : ∀ edge, edge ≠ e → (s.panels p).Connected edge →
      ∃ q' f', ChildLink W s p edge q' f' ∧
        (s.panels p).discovery.childIndex edge = (s.panels q').assignedIndex := by
    intro edge hedge hconn
    have helse : (s.panels p).ParentElsewhere edge :=
      ⟨hvia.1, fun heq => hedge (heq.symm.trans hvia.2)⟩
    obtain ⟨q', f', hcable, -⟩ :=
      h.sound.claimed_of_connected hconn fun hvia' => hvia'.not_elsewhere helse
    have hlink' : ChildLink W s p edge q' f' := ⟨hconn, helse, hcable⟩
    exact ⟨q', f', hlink', h.indexed.child_index p edge q' f' hlink'⟩
  have hindex := h.indexed.child_index p e' q f hlink
  rw [relay_down hvia rfl (h.addressedToSelf_eq_false hp ht hne)]
  refine routeDownstream_branch ?_ ?_ ⟨?_, hlink.connected, ?_⟩ ?_ ?_
  · change (s.panels t).assignedIndex ≠ 0
    omega
  · rw [hwired.edgeCount p]
    exact W.edge_lt hlink.cable
  · exact fun heq => hlink.elsewhere.2 (hvia.2.trans heq.symm)
  · rw [hindex]
    exact hle
  · intro edge hedge hconn
    obtain ⟨q', f', hlink', hindex'⟩ := hrecorded edge hedge hconn
    rw [hindex']
    have := (h.child_index hlink').1
    omega
  · rintro edge ⟨hedge, hconn, hle'⟩ hother
    obtain ⟨q', f', hlink', hindex'⟩ := hrecorded edge hedge hconn
    rw [hindex'] at hle' ⊢
    rw [hindex]
    exact h.branch_unique hp hlink hlink' hbehind hle' hother

/-- A broadcast takes every branch. -/
theorem relay_flood (hwired : Wired W s) {p q : P} {e e' f : ℕ} {type : PacketType}
    {payload : List Byte} (hvia : (s.panels p).ParentVia e) (hlink : ChildLink W s p e' q f) :
    (e', .other type 0 payload) ∈ (s.panels p).relay e (.other type 0 payload) := by
  have hself : (s.panels p).addressedToSelf (.other type 0 payload) = false := by
    rw [addressedToSelf_eq_false_iff]
    exact .inr (Ne.symm (h.indexed.index_ne_zero p e hvia))
  rw [relay_down hvia rfl hself]
  have hedge : e' ∈ (s.panels p).floodEdges e := by
    rw [mem_floodEdges, hwired.edgeCount p]
    exact ⟨W.edge_lt hlink.cable, fun heq => hlink.elsewhere.2 (hvia.2.trans heq.symm),
      hlink.connected⟩
  exact List.mem_map.mpr ⟨e', hedge, rfl⟩

/-- Every panel that the frame is meant for, or that is above one, is reached. -/
theorem reaches (hwired : Wired W s) {type : PacketType} {target : ℕ} {payload : List Byte}
    {arrivals : List (Port P)} (hall : ∀ port ∈ arrivals, Comes W s port)
    (hclosed : ∀ port ∈ arrivals, ∀ port' ∈ passOn W s (.other type target payload) port,
      port' ∈ arrivals)
    (hstart : ∀ port, W.cable .trunk = some port → port ∈ arrivals) {p : P} (hp : Linked W s p)
    (htarget : target = 0 ∨ ∃ t, target = (s.panels t).assignedIndex ∧ Behind W s p t) :
    ∃ e, .edge p e ∈ arrivals := by
  induction hp with
  | @root r e htrunk hvia => exact ⟨e, hstart _ htrunk⟩
  | @child p q e' f hp hlink ih =>
      have habove : target = 0 ∨ ∃ t, target = (s.panels t).assignedIndex ∧ Behind W s p t := by
        rcases htarget with hzero | ⟨t, ht, hbehind⟩
        · exact .inl hzero
        · exact .inr ⟨t, ht, .head ⟨e', f, hlink⟩ hbehind⟩
      obtain ⟨e, hmem⟩ := ih habove
      have hvia : (s.panels p).ParentVia e := by
        obtain ⟨p', e₀, heq, hcase⟩ := hall _ hmem
        cases heq
        rcases hcase with hnone | ⟨-, hvia⟩
        · rw [hlink.elsewhere.1] at hnone
          cases hnone
        · exact hvia
      have hrelay : (e', .other type target payload) ∈
          (s.panels p).relay e (.other type target payload) := by
        rcases htarget with rfl | ⟨t, rfl, hbehind⟩
        · exact h.relay_flood hwired hvia hlink
        · rw [h.relay_branch hwired hp hvia hlink hbehind]
          exact List.mem_singleton_self _
      exact ⟨f, hclosed _ hmem _ (List.mem_filterMap.mpr ⟨_, hrelay, hlink.cable⟩)⟩

/-- An addressed frame keeps to the panels above its target. -/
theorem behind_next (hwired : Wired W s) {p t : P} {e : ℕ} {type : PacketType}
    {payload : List Byte} (hp : Linked W s p) (hvia : (s.panels p).ParentVia e)
    (hbehind : Behind W s p t) :
    ∀ port ∈ passOn W s (.other type (s.panels t).assignedIndex payload) (.edge p e),
      ∃ q f, port = .edge q f ∧ Linked W s q ∧ (s.panels q).ParentVia f ∧ Behind W s q t := by
  intro port hmem
  rcases hbehind.cases_head with rfl | ⟨q, ⟨e', f, hlink⟩, hrest⟩
  · have hself : (s.panels p).addressedToSelf
        (.other type (s.panels p).assignedIndex payload) = true :=
      decide_eq_true ⟨h.indexed.index_ne_zero p e hvia, rfl⟩
    have hnone : (s.panels p).relay e (.other type (s.panels p).assignedIndex payload) = [] := by
      unfold relay
      rw [hself]
      rfl
    obtain ⟨x, hx, -⟩ := List.mem_filterMap.mp hmem
    rw [hnone] at hx
    cases hx
  · rw [passOn_single (h.relay_branch hwired hp hvia hlink hrest), hlink.cable] at hmem
    cases List.mem_singleton.mp hmem
    exact ⟨q, f, rfl, .child hp hlink, hlink.parentVia h.sound, hrest⟩

end Ordered

/-- The panels that act on an ordinary frame are those it arrives at and is meant for. -/
theorem dispatched_other (s : Fabric P) (type : PacketType) (target : ℕ) (payload : List Byte)
    (arrivals : List (Port P)) :
    dispatched s (.other type target payload) arrivals =
      (arrivals.filterMap Port.panel?).filter fun p =>
        (s.panels p).actsLocally (.other type target payload) := by
  rw [List.filter_filterMap]
  refine List.filterMap_congr fun port _ => ?_
  cases port with
  | trunk => rfl
  | edge p e =>
      change (if (s.panels p).actsLocally (.other type target payload) = true then some p
        else none) = (some p).filter _
      rw [Option.filter_some]

/-- In every run in which no idle panel with a child of index `k` or more is told to hand out `k`,
a frame that the controller sends is acted on once by each panel it is meant for and by no other
panel, and a frame with a target meets only the panels above it. -/
theorem delivered_once [DecidableEq P] [Fintype P] (W : Wiring P) (clock : ℕ) (s : Fabric P)
    (hs : Transition.Reachable (step W) AdvancesOnce (init W clock) s) (type : PacketType)
    (target : ℕ) (payload : List Byte) :
    ∃ n arrivals, propagate (passOn W s (.other type target payload)) n
        (W.cable .trunk).toList = some arrivals ∧
      (dispatched s (.other type target payload) arrivals).Nodup ∧
      (∀ p, p ∈ dispatched s (.other type target payload) arrivals ↔
        Linked W s p ∧ (target = 0 ∨ target = (s.panels p).assignedIndex)) ∧
      ∀ t, Linked W s t → target = (s.panels t).assignedIndex →
        ∀ p e, .edge p e ∈ arrivals → Behind W s p t := by
  obtain ⟨⟨rank, owner, h⟩, hwired⟩ := exists_ordered_wired hs
  obtain ⟨n, arrivals, hrun, hnodup⟩ : ∃ n arrivals,
      propagate (passOn W s (.other type target payload)) n (W.cable .trunk).toList =
        some arrivals ∧ (arrivals.map Port.panel?).Nodup := by
    cases htrunk : W.cable .trunk with
    | none => exact ⟨0, [], rfl, List.nodup_nil⟩
    | some port =>
        obtain ⟨hdesc, hroot⟩ := h.sound.descends_of_trunk htrunk
        exact ⟨_, (h.sound.branching _).propagate_terminates hdesc hroot⟩
  have hstart : ∀ port, W.cable .trunk = some port → port ∈ arrivals := fun port htrunk =>
    mem_of_mem_queue _ hrun port (Option.mem_toList.mpr htrunk)
  have hall : ∀ port ∈ arrivals, Comes W s port :=
    forall_arrivals _ (Comes W s) (fun port => h.comes_of_next)
      (fun port hport => h.comes_of_trunk (Option.mem_toList.mp hport)) hrun
  refine ⟨n, arrivals, hrun, ?_, fun p => ?_, ?_⟩
  · rw [dispatched_other]
    have hpanels : (arrivals.filterMap Port.panel?).Nodup := by
      have hmap := hnodup.filterMap (f := id) fun a a' b hb hb' => hb.trans hb'.symm
      rw [List.filterMap_map] at hmap
      exact hmap
    exact hpanels.filter _
  · rw [dispatched_other, List.mem_filter, List.mem_filterMap]
    constructor
    · rintro ⟨⟨port, hmem, hport⟩, hacts⟩
      obtain ⟨hindex, htarget⟩ := of_decide_eq_true hacts
      obtain ⟨p', e, rfl, hcase⟩ := hall port hmem
      cases hport
      rcases hcase with hnone | ⟨hp, -⟩
      · rw [h.sound.assigned p hindex] at hnone
        cases hnone
      · exact ⟨hp, htarget⟩
    · rintro ⟨hp, htarget⟩
      obtain ⟨e₀, hvia⟩ := hp.hasParent h.sound
      have hreached : target = 0 ∨ ∃ t, target = (s.panels t).assignedIndex ∧ Behind W s p t :=
        htarget.imp id fun heq => ⟨p, heq, .refl⟩
      obtain ⟨e, hmem⟩ := h.reaches hwired hall (closed_under_next _ hrun) hstart hp hreached
      exact ⟨⟨.edge p e, hmem, rfl⟩,
        decide_eq_true ⟨h.indexed.index_ne_zero p e₀ hvia, htarget⟩⟩
  · rintro t ht rfl p e hmem
    have habove : ∀ port ∈ arrivals, ∃ q f, port = .edge q f ∧ Linked W s q ∧
        (s.panels q).ParentVia f ∧ Behind W s q t := by
      refine forall_arrivals _ _ ?_ (fun port hport => ?_) hrun
      · rintro port ⟨q, f, rfl, hq, hvia, hbehind⟩
        exact h.behind_next hwired hq hvia hbehind
      · obtain ⟨r, f, htrunk, hvia, hbehind⟩ := ht.root_above
        rw [Option.mem_toList.mp hport] at htrunk
        cases htrunk
        exact ⟨r, f, rfl, .root (Option.mem_toList.mp hport) hvia, hvia, hbehind⟩
    obtain ⟨q, f, heq, -, -, hbehind⟩ := habove _ hmem
    cases heq
    exact hbehind

theorem delivered_once_twoLeaves :
    let s := wholeWalk.foldl (step twoLeaves) (init twoLeaves 0)
    ∃ n arrivals, propagate (passOn twoLeaves s (.other .setColor 3 [])) n
        (twoLeaves.cable .trunk).toList = some arrivals ∧
      (dispatched s (.other .setColor 3 []) arrivals).Nodup ∧
      (∀ p, p ∈ dispatched s (.other .setColor 3 []) arrivals ↔
        Linked twoLeaves s p ∧ (3 = 0 ∨ 3 = (s.panels p).assignedIndex)) ∧
      ∀ t, Linked twoLeaves s t → 3 = (s.panels t).assignedIndex →
        ∀ p e, .edge p e ∈ arrivals → Behind twoLeaves s p t :=
  delivered_once twoLeaves 0 _ reachable_wholeWalk .setColor 3 []

example :
    let s := wholeWalk.foldl (step twoLeaves) (init twoLeaves 0)
    (propagate (passOn twoLeaves s (.other .setColor 3 [])) 3
      (twoLeaves.cable .trunk).toList).map (dispatched s (.other .setColor 3 [])) = some [2] := by
  decide +kernel

end Lightnet.Fabric
