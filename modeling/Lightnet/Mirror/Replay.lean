import Lightnet.Mirror.Snapshot
import Mathlib.Data.Finset.Card

/-!
# Replaying the snapshot

A client that joins late gets the snapshot's records in their order. A panel heeds each of them: no
group comes that the live panel has no slot for.
-/

namespace Lightnet

/-! ### Room for every group -/

/-- No more groups than slots. -/
def Fits (v : Byte → GroupView) : Prop :=
  ∀ gs : Finset Byte, (∀ g ∈ gs, v g ≠ .empty) → gs.card ≤ maxAnimSlots

theorem Fits.mono {v w : Byte → GroupView} (hw : Fits w) (h : ∀ g, v g ≠ .empty → w g ≠ .empty) :
    Fits v := fun gs hgs => hw gs fun g hg => h g (hgs g hg)

theorem groupView_parameters_eq_empty {v : GroupView} : v.parameters = .empty ↔ v = .empty := by
  obtain ⟨pending, running⟩ := v
  cases pending <;> cases running <;> simp [GroupView.parameters, GroupView.empty]

theorem fits_groupView (p : AnimationPlayer) : Fits p.groupView := by
  intro gs hgs
  have hslot : ∀ g ∈ gs, ∃ i, p.findSlot g = some i := fun g hg => by
    cases hfind : p.findSlot g with
    | some i => exact ⟨i, rfl⟩
    | none =>
        refine absurd ?_ (hgs g hg)
        rw [AnimationPlayer.groupView, hfind]
  have hinj : Set.InjOn (fun g => (p.findSlot g).getD 0) gs := by
    intro g hg g' hg' heq
    obtain ⟨i, hi⟩ := hslot g hg
    obtain ⟨j, hj⟩ := hslot g' hg'
    dsimp only at heq
    rw [hi, hj, Option.getD_some, Option.getD_some] at heq
    subst heq
    exact (p.findSlot_some hi).2.symm.trans (p.findSlot_some hj).2
  have hcard := Finset.card_le_card_of_injOn (fun g => (p.findSlot g).getD 0)
    (fun g _ => Finset.mem_coe.mpr (Finset.mem_univ _)) hinj
  rwa [Finset.card_univ, Fintype.card_fin] at hcard

theorem groupsAfter_ne_empty {v : Byte → GroupView} {packet : AnimationPacket}
    (hkind : PacketMirror.isSnapshotted packet = true) {g : Byte} (h : v g ≠ .empty) :
    groupsAfter v packet g ≠ .empty := by
  by_cases hstep : isStep packet = true
  · cases packet with
    | prepare pkt =>
        by_cases hg : g = pkt.groupId
        · subst hg
          rw [groupsAfter_prepare, Function.update_self]
          exact fun heq => Option.some_ne_none _ (congrArg GroupView.pending heq)
        · rwa [groupsAfter_prepare, Function.update_of_ne hg]
    | start seqId k =>
        by_cases hg : g = k
        · subst hg
          rw [groupsAfter_start, Function.update_self, groupStart]
          cases hpending : (v g).pending with
          | some a => exact fun heq => Option.some_ne_none _ (congrArg GroupView.running heq)
          | none => exact h
        · rwa [groupsAfter_start, Function.update_of_ne hg]
    | _ => cases hstep
  · rw [Bool.not_eq_true] at hstep
    rwa [groupsAfter_setting v hkind hstep]

namespace AnimationPlayer

/-- An occupied slot has a step to come or a running one. -/
def SlotsUsed (p : AnimationPlayer) : Prop :=
  ∀ i, (p.slots i).occupied = true → (p.slots i).hasPending = true ∨ (p.slots i).started = true

theorem SlotsUsed.handlePacket {p : AnimationPlayer} (h : SlotsUsed p) (now : Ticks)
    {packet : AnimationPacket} (hkind : PacketMirror.isSnapshotted packet = true) :
    SlotsUsed (p.handlePacket now packet) := by
  intro i hocc
  have hchange := p.handlePacket_slotChange now packet i
  generalize (p.handlePacket now packet).slots i = s' at hchange hocc ⊢
  cases hchange with
  | same => exact h i hocc
  | refill pkt hfind => exact .inl rfl
  | alloc pkt hnone hfree => exact .inl rfl
  | activate seqId g hfind hpending =>
      refine .inr ?_
      unfold activatePending
      dsimp only
      split_ifs <;> rfl
  | control cmd g hocc' haddr => cases hkind
  | trigger seqId g t value ms haddr htype => cases hkind

theorem heeded_prepare {p : AnimationPlayer} (hunique : UniqueGroups p) (hused : SlotsUsed p)
    {pkt : PacketAnimationPrepare} (hfits : Fits (groupsAfter p.groupView (.prepare pkt))) :
    p.Heeded (.prepare pkt) := by
  by_contra hnot
  rw [Heeded, not_or, not_not, not_not] at hnot
  obtain ⟨hfind, hfree⟩ := hnot
  have hocc : ∀ i, (p.slots i).occupied = true := fun i => by
    simpa using List.find?_eq_none.mp hfree i (List.mem_finRange i)
  have hother : ∀ i, (p.slots i).groupId ≠ pkt.groupId := fun i => p.findSlot_none hfind i (hocc i)
  have hinj : Function.Injective fun i => (p.slots i).groupId := fun i j hij =>
    hunique i j (hocc i) (hocc j) hij
  have hnew : pkt.groupId ∉ Finset.univ.image fun i => (p.slots i).groupId := by
    rw [Finset.mem_image]
    rintro ⟨i, -, hi⟩
    exact hother i hi
  have hcard := hfits (insert pkt.groupId (Finset.univ.image fun i => (p.slots i).groupId)) (by
    intro g hg
    rw [groupsAfter_prepare]
    rcases Finset.mem_insert.mp hg with rfl | hg
    · rw [Function.update_self]
      exact fun heq => Option.some_ne_none _ (congrArg GroupView.pending heq)
    · obtain ⟨i, -, rfl⟩ := Finset.mem_image.mp hg
      rw [Function.update_of_ne (hother i), groupView_of_slot hunique (hocc i) rfl, Slot.view]
      intro heq
      have hpending := congrArg GroupView.pending heq
      have hrunning := congrArg GroupView.running heq
      rcases hused i (hocc i) with hi | hi <;> simp [hi, GroupView.empty] at hpending hrunning)
  rw [Finset.card_insert_of_notMem hnew, Finset.card_image_of_injective _ hinj, Finset.card_univ,
    Fintype.card_fin] at hcard
  omega

end AnimationPlayer

namespace PacketMirror

/-! ### The replay -/

def startNumber (last : Byte) : AnimationPacket → Byte
  | .start seqId _ => seqId
  | _ => last

/-- A start of something pending has another number than the start before it. -/
def NumberedApart : PanelView → Byte → List Record → Prop
  | _, _, [] => True
  | v, last, r :: rs =>
    (match r.packet with
      | .start seqId g => (v.groups g).pending ≠ none → seqId ≠ last
      | _ => True) ∧ NumberedApart (v.after r.packet) (startNumber last r.packet) rs

/-- The snapshot's records as a client gets them. -/
def replayed (now : Ticks) (rs : List Record) : List Record :=
  rs.map fun r => { r with time := now }

theorem Fits.of_after {rs : List Record} {v : PanelView}
    (hrs : ∀ d ∈ rs, isSnapshotted d.packet = true)
    (h : Fits (rs.foldl (fun v r => v.after r.packet) v).groups) : Fits v.groups := by
  induction rs generalizing v with
  | nil => exact h
  | cons d rs ih =>
      have hnext := ih (fun e he => hrs e (List.mem_cons_of_mem d he)) h
      exact hnext.mono fun g hg => groupsAfter_ne_empty (hrs d List.mem_cons_self) hg

theorem startNumber_handlePacket (p : LitPanel) (now : Ticks) (packet : AnimationPacket) :
    (p.handlePacket now packet).player.lastStartSeqId =
      startNumber p.player.lastStartSeqId packet := by
  have hplayer := congrArg AnimationPlayer.Settings.lastStartSeqId
    (p.player.handlePacket_settings now packet)
  cases packet with
  | setPalette stops =>
      refine hplayer.trans ?_
      simp only [AnimationPlayer.Settings.handlePacket]
      split_ifs <;> rfl
  | _ => first | rfl | exact hplayer

theorem heeded_of_numberedApart {p : LitPanel} {r : Record}
    (hunique : AnimationPlayer.UniqueGroups p.player) (hused : p.player.SlotsUsed)
    (hfits : Fits (p.view.parameters.after r.packet).groups)
    (hnumber : NumberedApart p.view.parameters p.player.lastStartSeqId [r]) :
    p.player.Heeded r.packet := by
  cases hpacket : r.packet with
  | prepare pkt =>
      rw [hpacket] at hfits
      refine AnimationPlayer.heeded_prepare hunique hused (hfits.mono fun g hg => ?_)
      rw [PanelView.after_groups, groupsAfter_prepare]
      rw [groupsAfter_prepare] at hg
      by_cases hgroup : g = pkt.groupId
      · subst hgroup
        rw [Function.update_self]
        exact fun heq => Option.some_ne_none _ (congrArg GroupView.pending heq)
      · rw [Function.update_of_ne hgroup] at hg ⊢
        exact fun heq => hg (groupView_parameters_eq_empty.mp heq)
  | start seqId g =>
      rw [NumberedApart, hpacket] at hnumber
      exact hnumber.1
  | _ => trivial

theorem slotsUsed_handlePacket {p : LitPanel} (h : p.player.SlotsUsed) (now : Ticks)
    {packet : AnimationPacket} (hkind : isSnapshotted packet = true) :
    (p.handlePacket now packet).player.SlotsUsed := by
  have hplayer := h.handlePacket now hkind
  cases packet <;> exact hplayer

/-- A panel that heeds nothing but such records shows what they say. -/
theorem view_handleAll {rs : List Record} {p : LitPanel}
    (hrs : ∀ d ∈ rs, isSnapshotted d.packet = true)
    (hunique : AnimationPlayer.UniqueGroups p.player) (hused : p.player.SlotsUsed)
    (hfits : Fits (rs.foldl (fun v r => v.after r.packet) p.view.parameters).groups)
    (hnumbers : NumberedApart p.view.parameters p.player.lastStartSeqId rs) :
    (handleAll rs p).view.parameters =
      rs.foldl (fun v r => v.after r.packet) p.view.parameters := by
  induction rs generalizing p with
  | nil => rfl
  | cons r rs ih =>
      have hr := hrs r List.mem_cons_self
      have htail : ∀ d ∈ rs, isSnapshotted d.packet = true := fun d hd =>
        hrs d (List.mem_cons_of_mem r hd)
      have hheeded : p.player.Heeded r.packet :=
        heeded_of_numberedApart hunique hused (Fits.of_after htail hfits) ⟨hnumbers.1, trivial⟩
      have hkind : isReplayed r.packet = true := (Bool.or_eq_true _ _).mpr (.inl hr)
      have hview := p.view_handlePacket hunique hkind hheeded r.time
      have hnext := @ih (p.handlePacket r.time r.packet) htail
        (Stream.unique_handlePacket hunique _ _)
      rw [hview, startNumber_handlePacket] at hnext
      exact hnext (slotsUsed_handlePacket hused r.time hr) hfits hnumbers.2

theorem received_replayed (i : Byte) (now : Ticks) (rs : List Record) :
    received i (replayed now rs) = replayed now (received i rs) := by
  rw [received, received, replayed, List.filter_map]
  rfl

theorem NumberedApart.replayed {v : PanelView} {last : Byte} {rs : List Record}
    (h : NumberedApart v last rs) (now : Ticks) :
    NumberedApart v last (PacketMirror.replayed now rs) := by
  induction rs generalizing v last with
  | nil => trivial
  | cons r rs ih => exact ⟨h.1, ih h.2⟩

namespace Stream

/-- In a run of kept captures the snapshot restores the view of a panel, if the numbers of its
starts are apart. -/
theorem view_deliver_replayed (i : Byte) (hasServer : Bool) (events : List MirrorEvent)
    (h : Transition.Guarded step (Kept i) (init hasServer) events)
    (hnumbers : NumberedApart LitPanel.init.view.parameters 0xFF
      (received i (run hasServer events).mirror.snapshot)) (now : Ticks) :
    (deliver i (replayed now (run hasServer events).mirror.snapshot) .init).view =
      (deliver i (run hasServer events).captured .init).view := by
  have hmirrored := run_mirrored h
  generalize run hasServer events = s at hnumbers hmirrored ⊢
  have hall : ∀ d ∈ received i s.mirror.snapshot, isSnapshotted d.packet = true := fun d hd =>
    hmirrored.snapshotted d (List.mem_of_mem_filter hd)
  have hfits : Fits (shownBy i s.mirror.snapshot LitPanel.init.view.parameters).groups := by
    rw [← hmirrored.view]
    exact (fits_groupView _).mono fun g hg heq => hg (groupView_parameters_eq_empty.mpr heq)
  have hreplay : (deliver i (replayed now s.mirror.snapshot) .init).view.parameters =
      (deliver i s.captured .init).view.parameters := by
    have hfold : ∀ v : PanelView, (replayed now (received i s.mirror.snapshot)).foldl
        (fun v r => v.after r.packet) v = shownBy i s.mirror.snapshot v := fun v => by
      rw [replayed, List.foldl_map]
      rfl
    have hreplay := @view_handleAll (replayed now (received i s.mirror.snapshot)) .init
      (fun d hd => by
        obtain ⟨e, he, rfl⟩ := List.mem_map.mp hd
        exact hall e he)
      (mirrored_init (i := i) hasServer).unique
      (fun j hj => by cases hj) (by rwa [hfold]) (hnumbers.replayed now)
    rw [hfold, ← hmirrored.view, ← received_replayed] at hreplay
    exact hreplay
  exact (LitPanel.view_eq_of_parameters_eq hreplay.symm hmirrored.plain).symm

/-! ### The next step, prepared while one runs -/

/-- A solid step for group 5. -/
def solidStep (c : ColorRGB) : PacketAnimationPrepare :=
  ⟨.solid, 5, 0, 0, 1000, .rgb .black, .rgb c, 0, 0, .default, 0, 0, .color⟩

def nextStepPrepared : List MirrorEvent :=
  [.capture ⟨0, .prepare (solidStep ⟨255, 0, 0⟩), 0⟩, .capture ⟨0, .start 1 5, 0⟩,
    .capture ⟨0, .prepare (solidStep ⟨0, 0, 255⟩), 0⟩]

theorem nextStepPrepared_differs :
    (run true nextStepPrepared).mirror.snapshotDroppedCount = 0 ∧
      (deliver 1 (replayed 0 (run true nextStepPrepared).mirror.snapshot) .init).view.groups 5 =
        ⟨none, some (solidStep ⟨0, 0, 255⟩).toState⟩ ∧
      (deliver 1 (run true nextStepPrepared).captured .init).view.groups 5 =
        ⟨some (solidStep ⟨0, 0, 255⟩).toState, some (solidStep ⟨255, 0, 0⟩).toState⟩ := by
  decide

/-- A new background, with a step prepared since the old one. -/
def backgroundReplaced : List MirrorEvent :=
  [.capture ⟨0, .setBackground ⟨255, 0, 0⟩, 0⟩,
    .capture ⟨0, .prepare (solidStep ⟨0, 255, 0⟩), 0⟩,
    .capture ⟨0, .setBackground ⟨0, 0, 255⟩, 0⟩]

theorem backgroundReplaced_replayed :
    (deliver 1 (replayed 9 (run true backgroundReplaced).mirror.snapshot) .init).view =
      (deliver 1 (run true backgroundReplaced).captured .init).view := by
  refine view_deliver_replayed 1 true backgroundReplaced
    ⟨⟨rfl, rfl, fun _ => ⟨trivial, trivial, fun before e after heq => ?_⟩⟩,
      ⟨rfl, rfl, fun _ => ⟨.inr (by decide), trivial, fun before e after heq hsame => ?_⟩⟩,
      ⟨rfl, rfl, fun _ => ⟨trivial, trivial, fun before e after heq hsame hbefore => ?_⟩⟩,
      trivial⟩ ⟨trivial, trivial, trivial⟩ 9
  · exact absurd heq.symm (by simp [init, PacketMirror.init])
  · have hsnapshot : [⟨0, .setBackground ⟨255, 0, 0⟩, 0⟩] = before ++ e :: after := heq
    have he : e ∈ [(⟨0, .setBackground ⟨255, 0, 0⟩, 0⟩ : Record)] := by
      rw [hsnapshot]
      exact List.mem_append_right _ List.mem_cons_self
    rw [List.mem_singleton.mp he] at hsame
    exact absurd hsame (by decide)
  · have hsnapshot : before ++ e :: after =
        [⟨0, .setBackground ⟨255, 0, 0⟩, 0⟩, ⟨0, .prepare (solidStep ⟨0, 255, 0⟩), 0⟩] := heq.symm
    cases before with
    | nil =>
        obtain ⟨-, rfl⟩ := List.cons.inj hsnapshot
        refine ⟨?_, fun d hd _ => ?_⟩
        · exact AnimationPacket.noConfusion
        rw [List.mem_singleton.mp hd]
        rfl
    | cons d before =>
        obtain ⟨rfl, -⟩ := List.cons.inj hsnapshot
        exact absurd (hbefore _ List.mem_cons_self) (by decide)

end Stream

end PacketMirror

end Lightnet
