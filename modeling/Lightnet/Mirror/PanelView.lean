import Lightnet.Mirror.PacketMirror
import Lightnet.Animation.ScheduleIndependence

/-!
# What the packets make of a panel

Before any tick a panel's state is what the packets say: the step to come and the running step of
each group, and the settings. Which slot holds a group and when its step began are no part of it.
-/

namespace Lightnet

/-! ### Views -/

@[ext]
structure GroupView where
  pending : Option AnimationState
  running : Option AnimationState
  deriving DecidableEq

def GroupView.empty : GroupView := ⟨none, none⟩

structure Appearance where
  palette : List GradientStop
  baseColors : Fin baseColorsCount → ColorRGB
  background : ColorRGB
  globalBrightness : Byte
  on : Bool

@[ext]
structure PanelView where
  groups : Byte → GroupView
  appearance : Appearance

def Slot.view (s : Slot) : GroupView where
  pending := if s.hasPending then some s.pending else none
  running := if s.started then some { s.cur with startMs := 0 } else none

namespace AnimationPlayer

def groupView (p : AnimationPlayer) (g : Byte) : GroupView :=
  match p.findSlot g with
  | some i => (p.slots i).view
  | none => .empty

end AnimationPlayer

def AnimationPlayer.Settings.appearance (s : AnimationPlayer.Settings) (globalBrightness : Byte)
    (on : Bool) : Appearance :=
  ⟨s.palette, s.baseColors, s.backgroundColor, globalBrightness, on⟩

def LitPanel.view (p : LitPanel) : PanelView where
  groups := p.player.groupView
  appearance := p.player.settings.appearance p.globalBrightness p.on

/-- A step without its start and without the colours that it takes from the output. -/
def AnimationState.parameters (a : AnimationState) : AnimationState :=
  { a with
      startMs := 0
      colorFrom := if a.hasFlag flagCurrentColorFrom then .rgb .black else a.colorFrom
      colorTo := if a.hasFlag flagCurrentColorTo then .rgb .black else a.colorTo }

def GroupView.parameters (v : GroupView) : GroupView :=
  { v with running := v.running.map AnimationState.parameters }

def PanelView.parameters (v : PanelView) : PanelView :=
  { v with groups := fun g => (v.groups g).parameters }

/-! ### Packets on views -/

def groupsAfter (v : Byte → GroupView) : AnimationPacket → Byte → GroupView
  | .prepare pkt =>
    Function.update v pkt.groupId { v pkt.groupId with pending := some pkt.toState }
  | .start _ g =>
    match (v g).pending with
    | some a => Function.update v g ⟨none, some a.parameters⟩
    | none => v
  | .control .stop g => fun k => if g = 0 ∨ k = g then .empty else v k
  | _ => v

def Appearance.after (v : Appearance) : AnimationPacket → Appearance
  | .setPalette stops => if stops = [] then v else { v with palette := stops.take paletteStops }
  | .setBaseColors colors => { v with baseColors := colors }
  | .setBackground c => { v with background := c }
  | .setGlobalBrightness value => { v with globalBrightness := value }
  | .turnOnOff on => { v with on }
  | _ => v

def PanelView.after (v : PanelView) (packet : AnimationPacket) : PanelView :=
  ⟨groupsAfter v.groups packet, v.appearance.after packet⟩

/-- The packets that a replay stands for. -/
def isReplayed (packet : AnimationPacket) : Bool :=
  PacketMirror.isSnapshotted packet ||
    match packet with
    | .control .stop _ => true
    | _ => false

namespace AnimationPlayer

/-- A prepare finds a slot, and a start of a pending step has a new number. -/
def Heeded (p : AnimationPlayer) : AnimationPacket → Prop
  | .prepare pkt => p.findSlot pkt.groupId ≠ none ∨ p.freeSlot ≠ none
  | .start seqId g => (p.groupView g).pending ≠ none → seqId ≠ p.lastStartSeqId
  | _ => True

/-! ### The view of a player -/

section
variable {p q : AnimationPlayer}

theorem groupView_of_slot (h : UniqueGroups p) {i : Fin maxAnimSlots} {g : Byte}
    (hocc : (p.slots i).occupied = true) (hgroup : (p.slots i).groupId = g) :
    p.groupView g = (p.slots i).view := by
  rw [groupView, findSlot_eq_some h hocc hgroup]

theorem groupView_of_none {g : Byte}
    (h : ∀ i, (p.slots i).occupied = true → (p.slots i).groupId ≠ g) :
    p.groupView g = .empty := by
  have hnone : p.findSlot g = none := by
    refine List.find?_eq_none.mpr fun i _ => ?_
    rw [decide_eq_true_eq]
    exact fun hi => h i hi.1 hi.2
  rw [groupView, hnone]

theorem groupView_of_slots_eq (h : q.slots = p.slots) : q.groupView = p.groupView := by
  funext g
  rw [groupView, groupView, findSlot, findSlot, h]

/-- A group is seen as before when the slots that differ were and are not the group's. -/
theorem groupView_congr (hq : UniqueGroups q) {g : Byte}
    (h : ∀ i, q.slots i = p.slots i ∨
      ((p.slots i).occupied = true → (p.slots i).groupId ≠ g) ∧
        ((q.slots i).occupied = true → (q.slots i).groupId ≠ g)) :
    q.groupView g = p.groupView g := by
  cases hfind : p.findSlot g with
  | some i =>
      obtain ⟨hocc, hgroup⟩ := p.findSlot_some hfind
      have hsame : q.slots i = p.slots i :=
        (h i).resolve_right fun hi => hi.1 hocc hgroup
      rw [groupView_of_slot hq (hsame ▸ hocc) (hsame ▸ hgroup), hsame, groupView, hfind]
  | none =>
      have hnone : p.groupView g = .empty := by rw [groupView, hfind]
      rw [hnone]
      refine groupView_of_none fun i hocc => ?_
      rcases h i with hsame | ⟨-, hother⟩
      · rw [hsame] at hocc ⊢
        exact p.findSlot_none hfind i hocc
      · exact hother hocc

theorem groupView_setSlot_other (hq : UniqueGroups q) {i : Fin maxAnimSlots} {s : Slot} {g : Byte}
    (hslots : q.slots = Function.update p.slots i s)
    (hp : (p.slots i).occupied = true → (p.slots i).groupId ≠ g)
    (hs : s.occupied = true → s.groupId ≠ g) : q.groupView g = p.groupView g := by
  refine groupView_congr hq fun j => ?_
  rw [hslots]
  by_cases hj : j = i
  · subst hj
    rw [Function.update_self]
    exact .inr ⟨hp, hs⟩
  · rw [Function.update_of_ne hj]
    exact .inl rfl

@[simp] theorem activatePending_occupied (s : Slot) :
    (p.activatePending s).occupied = s.occupied := by
  unfold activatePending
  dsimp only
  split_ifs <;> rfl

@[simp] theorem activatePending_groupId (s : Slot) :
    (p.activatePending s).groupId = s.groupId := by
  unfold activatePending
  dsimp only
  split_ifs <;> rfl

theorem activatePending_view (s : Slot) :
    (p.activatePending s).view.parameters = ⟨none, some s.pending.parameters⟩ := by
  obtain ⟨occupied, started, holding, paused, hasPending, elapsed, g, cur, pending, level, ms⟩ := s
  unfold activatePending Slot.view GroupView.parameters AnimationState.parameters
  dsimp only
  split_ifs <;> simp_all [AnimationState.hasFlag]

/-- A packet for one group, by what it makes of the group's slot. -/
theorem parameters_groupView_update (hq : UniqueGroups q) {i : Fin maxAnimSlots} {s : Slot}
    {g : Byte} {v : GroupView} (hslots : q.slots = Function.update p.slots i s)
    (hocc : s.occupied = true) (hgroup : s.groupId = g)
    (hp : (p.slots i).occupied = true → (p.slots i).groupId = g) (hview : s.view.parameters = v)
    (k : Byte) :
    (q.groupView k).parameters =
      Function.update (fun k => (p.groupView k).parameters) g v k := by
  by_cases hk : k = g
  · subst hk
    have hslot : q.slots i = s := by rw [hslots, Function.update_self]
    rw [Function.update_self, groupView_of_slot hq (i := i) (by rw [hslot, hocc])
      (by rw [hslot, hgroup]), hslot, hview]
  · rw [Function.update_of_ne hk, groupView_setSlot_other hq hslots
      (fun ho hg => hk (hg.symm.trans (hp ho))) fun _ hg => hk (hg.symm.trans hgroup)]

theorem groupView_prepare (hp : UniqueGroups p) (pkt : PacketAnimationPrepare)
    (h : p.Heeded (.prepare pkt)) (k : Byte) :
    ((p.prepare pkt).groupView k).parameters =
      groupsAfter (fun k => (p.groupView k).parameters) (.prepare pkt) k := by
  have hunique : UniqueGroups (p.prepare pkt) := hp.handlePacket 0 (.prepare pkt)
  cases hfind : p.findSlot pkt.groupId with
  | some i =>
      obtain ⟨hocc, hgroup⟩ := p.findSlot_some hfind
      have hview : p.groupView pkt.groupId = (p.slots i).view := groupView_of_slot hp hocc hgroup
      have hslots : (p.prepare pkt).slots = Function.update p.slots i
          { p.slots i with pending := pkt.toState, hasPending := true } := by
        unfold prepare allocSlot
        rw [hfind]
        rfl
      rw [groupsAfter]
      refine parameters_groupView_update hunique hslots hocc hgroup (fun _ => hgroup) ?_ k
      rw [hview]
      rfl
  | none =>
      have hview : p.groupView pkt.groupId = .empty := by rw [groupView, hfind]
      have hfree : p.freeSlot ≠ none := h.resolve_left (not_not.mpr hfind)
      obtain ⟨i, hi⟩ := Option.ne_none_iff_exists'.mp hfree
      have hslots : (p.prepare pkt).slots = Function.update p.slots i
          { clearSlot (p.slots i) with
              occupied := true, groupId := pkt.groupId, pending := pkt.toState
              hasPending := true } := by
        unfold prepare allocSlot
        rw [hfind, hi]
        simp only [setSlot_slots, Function.update_self, Function.update_idem]
      have hocc : (p.slots i).occupied = true → (p.slots i).groupId = pkt.groupId := fun ho => by
        rw [p.freeSlot_some hi] at ho
        cases ho
      rw [groupsAfter]
      refine parameters_groupView_update hunique hslots rfl rfl hocc ?_ k
      rw [hview]
      rfl

theorem groupView_start (hp : UniqueGroups p) {seqId g : Byte} (now : Ticks)
    (h : p.Heeded (.start seqId g)) (k : Byte) :
    ((p.start seqId g now).groupView k).parameters =
      groupsAfter (fun k => (p.groupView k).parameters) (.start seqId g) k := by
  have hunique : UniqueGroups (p.start seqId g now) := hp.handlePacket now (.start seqId g)
  have hpending : (GroupView.parameters (p.groupView g)).pending = (p.groupView g).pending := rfl
  rw [groupsAfter, hpending]
  by_cases hidle : ∀ i, p.findSlot g = some i → (p.slots i).hasPending = false
  · have hnone : (p.groupView g).pending = none := by
      unfold groupView
      cases hfind : p.findSlot g with
      | none => rfl
      | some i => simp [Slot.view, hidle i hfind]
    rw [groupView_of_slots_eq (start_slots_of_idle p hidle seqId now), hnone]
  · push Not at hidle
    obtain ⟨i, hfind, hi⟩ := hidle
    rw [ne_eq, Bool.not_eq_false] at hi
    obtain ⟨hocc, hgroup⟩ := p.findSlot_some hfind
    have hsome : (p.groupView g).pending = some (p.slots i).pending := by
      rw [groupView, hfind]
      simp [Slot.view, hi]
    have hseq : seqId ≠ p.lastStartSeqId := h (by rw [hsome]; simp)
    rw [hsome]
    refine parameters_groupView_update hunique (start_of_pending p hseq hfind hi now) ?_ ?_
      (fun _ => hgroup) (activatePending_view _) k
    · rw [activatePending_occupied, hocc]
    · rw [activatePending_groupId, hgroup]

theorem groupView_stop (hp : UniqueGroups p) (g : Byte) (now : Ticks) (k : Byte) :
    (p.control .stop g now).groupView k = groupsAfter p.groupView (.control .stop g) k := by
  have hunique : UniqueGroups (p.control .stop g now) := hp.handlePacket now (.control .stop g)
  have hstopped : ∀ i, g = 0 ∨ (p.slots i).groupId = g →
      ((p.control .stop g now).slots i).occupied = false := fun i haddr => by
    by_cases hocc : (p.slots i).occupied = true
    · rw [p.control_slots_addressed hocc haddr]
      rfl
    · rw [Bool.not_eq_true] at hocc
      rw [p.control_slots_free hocc, hocc]
  have hkept : ∀ i, ¬ (g = 0 ∨ (p.slots i).groupId = g) →
      (p.control .stop g now).slots i = p.slots i := fun i haddr =>
    p.control_slots_other (by tauto)
  simp only [groupsAfter]
  split_ifs with hk
  · refine groupView_of_none fun i hocc hgroup => ?_
    by_cases haddr : g = 0 ∨ (p.slots i).groupId = g
    · rw [hstopped i haddr] at hocc
      cases hocc
    · rw [hkept i haddr] at hgroup
      exact haddr (hk.imp_right fun hk => hgroup.trans hk)
  · refine groupView_congr hunique fun i => ?_
    by_cases haddr : g = 0 ∨ (p.slots i).groupId = g
    · refine .inr ⟨fun _ hgroup => hk (haddr.imp_right hgroup.symm.trans), fun hocc => ?_⟩
      rw [hstopped i haddr] at hocc
      cases hocc
    · exact .inl (hkept i haddr)

end

end AnimationPlayer

namespace LitPanel

theorem appearance_handlePacket (p : LitPanel) {packet : AnimationPacket}
    (hkind : isReplayed packet = true) (now : Ticks) :
    (p.handlePacket now packet).view.appearance = p.view.appearance.after packet := by
  have hplayer : (p.player.handlePacket now packet).settings.appearance p.globalBrightness p.on =
      (p.player.settings.handlePacket packet).appearance p.globalBrightness p.on := by
    rw [p.player.handlePacket_settings now packet]
  cases packet with
  | setGlobalBrightness value => rfl
  | turnOnOff on => rfl
  | updateParams seqId g t value ms => cases hkind
  | setColor c => cases hkind
  | setPalette stops =>
      refine hplayer.trans ?_
      simp only [AnimationPlayer.Settings.handlePacket, Appearance.after]
      split_ifs <;> rfl
  | prepare pkt => exact hplayer
  | start seqId g => exact hplayer
  | control cmd g => exact hplayer
  | setBaseColors colors => exact hplayer
  | setBackground c => exact hplayer

/-- A packet that the panel heeds changes its view as it should. -/
theorem view_handlePacket {p : LitPanel} (hp : AnimationPlayer.UniqueGroups p.player)
    {packet : AnimationPacket} (hkind : isReplayed packet = true) (h : p.player.Heeded packet)
    (now : Ticks) :
    (p.handlePacket now packet).view.parameters = p.view.parameters.after packet := by
  have happearance := p.appearance_handlePacket hkind now
  have hgroups : (p.handlePacket now packet).view.parameters.groups =
      groupsAfter p.view.parameters.groups packet := by
    funext k
    cases packet with
    | prepare pkt => exact AnimationPlayer.groupView_prepare hp pkt h k
    | start seqId g => exact AnimationPlayer.groupView_start hp now h k
    | control cmd g =>
        cases cmd with
        | stop =>
            have hstop := AnimationPlayer.groupView_stop hp g now k
            change GroupView.parameters ((p.player.control .stop g now).groupView k) = _
            rw [hstop]
            simp only [groupsAfter]
            split_ifs <;> rfl
        | _ => cases hkind
    | setPalette stops =>
        exact congrArg (fun v => GroupView.parameters (v k)) (AnimationPlayer.groupView_of_slots_eq
          (AnimationPlayer.setPalette_slots p.player stops))
    | setBackground c =>
        exact congrArg (fun v => GroupView.parameters (v k)) (AnimationPlayer.groupView_of_slots_eq
          (AnimationPlayer.setBackground_slots p.player c))
    | setBaseColors colors => rfl
    | setGlobalBrightness value => rfl
    | turnOnOff on => rfl
    | updateParams seqId g t value ms => cases hkind
    | setColor c => cases hkind
  exact PanelView.ext hgroups happearance

/-! ### Steps that take no colour from the output -/

theorem running_startMs {p : LitPanel} {g : Byte} {a : AnimationState}
    (h : (p.view.groups g).running = some a) : a.startMs = 0 := by
  change (p.player.groupView g).running = some a at h
  unfold AnimationPlayer.groupView at h
  cases hfind : p.player.findSlot g with
  | none =>
      rw [hfind] at h
      cases h
  | some i =>
      rw [hfind] at h
      simp only [Slot.view] at h
      split_ifs at h
      cases h
      rfl

end LitPanel

theorem AnimationState.parameters_of_plain {a : AnimationState} (h : AnimationPlayer.Plain a)
    (hstart : a.startMs = 0) : a.parameters = a := by
  rw [AnimationState.parameters, h.1, h.2, if_neg Bool.false_ne_true, if_neg Bool.false_ne_true,
    ← hstart]

namespace PanelView

/-- No running step takes a colour from the output. -/
def PlainSteps (v : PanelView) : Prop :=
  ∀ g a, (v.groups g).running = some a → AnimationPlayer.Plain a

/-- A started step takes no colour from the output. -/
def StartsPlain (v : PanelView) : AnimationPacket → Prop
  | .start _ g => ∀ a, (v.groups g).pending = some a → AnimationPlayer.Plain a
  | _ => True

theorem PlainSteps.after {v : PanelView} (h : v.PlainSteps) {packet : AnimationPacket}
    (hpacket : v.StartsPlain packet) : (v.after packet).PlainSteps := by
  intro k a hrunning
  have hother : ∀ {g : Byte} {w : GroupView},
      (k = g → w.running = some a → AnimationPlayer.Plain a) →
      (Function.update v.groups g w k).running = some a → AnimationPlayer.Plain a := by
    intro g w hw hupdate
    by_cases hk : k = g
    · subst hk
      rw [Function.update_self] at hupdate
      exact hw rfl hupdate
    · rw [Function.update_of_ne hk] at hupdate
      exact h k a hupdate
  cases packet with
  | prepare pkt =>
      have hkeeps : ∀ w : GroupView, w.running = (v.groups pkt.groupId).running →
          w.running = some a → AnimationPlayer.Plain a := fun w hw hsome =>
        h pkt.groupId a (hw.symm.trans hsome)
      exact hother (w := { v.groups pkt.groupId with pending := some pkt.toState })
        (fun _ => hkeeps _ rfl) hrunning
  | start seqId g =>
      change (groupsAfter v.groups (.start seqId g) k).running = some a at hrunning
      rw [groupsAfter] at hrunning
      cases hpending : (v.groups g).pending with
      | none =>
          rw [hpending] at hrunning
          exact h k a hrunning
      | some b =>
          rw [hpending] at hrunning
          refine hother (fun _ hw => ?_) hrunning
          cases hw
          exact hpacket b hpending
  | control cmd g =>
      cases cmd with
      | stop =>
          change (if g = 0 ∨ k = g then GroupView.empty else v.groups k).running = some a
            at hrunning
          split_ifs at hrunning
          · cases hrunning
          · exact h k a hrunning
      | _ => exact h k a hrunning
  | _ => exact h k a hrunning

end PanelView

/-- Panels agree when they agree but for starts and colours from the output, and no running step
takes such a colour. -/
theorem LitPanel.view_eq_of_parameters_eq {p q : LitPanel}
    (h : p.view.parameters = q.view.parameters) (hplain : p.view.parameters.PlainSteps) :
    p.view = q.view := by
  have hgroup : ∀ g, (p.view.groups g).parameters = (q.view.groups g).parameters := fun g =>
    congrFun (congrArg PanelView.groups h) g
  have happearance : p.view.parameters.appearance = q.view.parameters.appearance :=
    congrArg PanelView.appearance h
  refine PanelView.ext (funext fun g => ?_) happearance
  have hrunning : (p.view.groups g).running.map AnimationState.parameters =
      (q.view.groups g).running.map AnimationState.parameters :=
    congrArg GroupView.running (hgroup g)
  have hpending : (p.view.groups g).parameters.pending = (q.view.groups g).parameters.pending :=
    congrArg GroupView.pending (hgroup g)
  have hsame : (p.view.groups g).running = (q.view.groups g).running := by
    cases hp : (p.view.groups g).running with
    | none =>
        rw [hp] at hrunning
        exact (Option.map_eq_none_iff.mp hrunning.symm).symm
    | some a =>
        rw [hp] at hrunning
        obtain ⟨b, hq, hab⟩ := Option.map_eq_some_iff.mp hrunning.symm
        have ha : AnimationPlayer.Plain a := by
          refine hplain g a.parameters ?_
          change (p.view.groups g).running.map AnimationState.parameters = _
          rw [hp]
          rfl
        have hflags : b.parameters.flags = a.parameters.flags :=
          congrArg AnimationState.flags hab
        change b.flags = a.flags at hflags
        have hb : AnimationPlayer.Plain b := by
          rw [AnimationPlayer.Plain, AnimationState.hasFlag, AnimationState.hasFlag, hflags]
          exact ha
        rw [AnimationState.parameters_of_plain ha (running_startMs hp),
          AnimationState.parameters_of_plain hb (running_startMs hq)] at hab
        rw [hq, hab]
  exact GroupView.ext hpending hsame

end Lightnet
