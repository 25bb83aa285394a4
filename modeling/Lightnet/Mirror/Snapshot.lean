import Lightnet.Mirror.Coalescing
import Lightnet.Mirror.PacketOrder

/-!
# The snapshot

The snapshot keeps one record for each address, type and group, where the first one was captured.
What its records show a panel is what the panel shows, as long as no record is overwritten that a
later one depends on, and a stop for one panel has nothing to end that is for all.
-/

namespace Lightnet

namespace PacketMirror

/-! ### What records show -/

/-- What the panel of this index shows after the records. -/
def shownBy (i : Byte) (rs : List Record) (v : PanelView) : PanelView :=
  (received i rs).foldl (fun v r => v.after r.packet) v

theorem shownBy_append (i : Byte) (rs ss : List Record) (v : PanelView) :
    shownBy i (rs ++ ss) v = shownBy i ss (shownBy i rs v) := by
  rw [shownBy, received, List.filter_append, List.foldl_append]
  rfl

section
variable {i : Byte} {r : Record} {rs : List Record}

theorem received_cons_of_reaches (h : r.reaches i = true) :
    received i (r :: rs) = r :: received i rs := List.filter_cons_of_pos h

theorem received_cons_of_not_reaches (h : r.reaches i = false) :
    received i (r :: rs) = received i rs :=
  List.filter_cons_of_neg (by rw [h]; exact Bool.false_ne_true)

theorem shownBy_cons_of_reaches (h : r.reaches i = true) (v : PanelView) :
    shownBy i (r :: rs) v = shownBy i rs (v.after r.packet) := by
  rw [shownBy, received_cons_of_reaches h]
  rfl

theorem shownBy_cons_of_not_reaches (h : r.reaches i = false) (v : PanelView) :
    shownBy i (r :: rs) v = shownBy i rs v := by
  rw [shownBy, received_cons_of_not_reaches h]
  rfl

/-- A packet may be moved to the front of records that it has no conflict with. -/
theorem shownBy_after (hr : isSnapshotted r.packet = true)
    (hrs : ∀ d ∈ rs, isSnapshotted d.packet = true)
    (h : ∀ d ∈ rs, d.reaches i = true → conflicts r.packet d.packet = false) (v : PanelView) :
    (shownBy i rs v).after r.packet = shownBy i rs (v.after r.packet) := by
  induction rs generalizing v with
  | nil => rfl
  | cons d rs ih =>
      have ih := ih (fun e he => hrs e (List.mem_cons_of_mem d he))
        fun e he => h e (List.mem_cons_of_mem d he)
      by_cases hd : d.reaches i = true
      · rw [shownBy_cons_of_reaches hd, shownBy_cons_of_reaches hd, ih,
          v.after_comm hr (hrs d List.mem_cons_self) (h d List.mem_cons_self hd)]
      · rw [Bool.not_eq_true] at hd
        rw [shownBy_cons_of_not_reaches hd, shownBy_cons_of_not_reaches hd, ih]

/-- An overwriting record does in place of the old one what it would do at the end. -/
theorem shownBy_overwrite {before after : List Record} {e : Record}
    (hr : isSnapshotted r.packet = true)
    (hall : ∀ d ∈ before ++ e :: after, isSnapshotted d.packet = true)
    (hsame : sameEntry r e = true) (hpalette : r.reaches i = true → r.packet ≠ .setPalette [])
    (h : r.reaches i = true →
      ∀ d ∈ after, d.reaches i = true → conflicts r.packet d.packet = false) (v : PanelView) :
    shownBy i (before ++ r :: after) v = shownBy i (before ++ e :: after ++ [r]) v := by
  simp only [sameEntry, Bool.and_eq_true, decide_eq_true_eq] at hsame
  obtain ⟨⟨haddress, htype⟩, hkey⟩ := hsame
  have hreach : e.reaches i = r.reaches i := by
    rw [Record.reaches, Record.reaches, haddress]
  rw [shownBy_append, shownBy_append, shownBy_append]
  by_cases hreaches : r.reaches i = true
  · rw [shownBy_cons_of_reaches hreaches, shownBy_cons_of_reaches (hreach.trans hreaches),
      shownBy_cons_of_reaches hreaches]
    change _ = (shownBy i after _).after r.packet
    rw [shownBy_after hr (fun d hd => hall d (by simp [hd])) (h hreaches),
      PanelView.after_absorb _ hr (hall e (by simp)) htype hkey (hpalette hreaches)]
  · rw [Bool.not_eq_true] at hreaches
    rw [shownBy_cons_of_not_reaches hreaches,
      shownBy_cons_of_not_reaches (hreach.trans hreaches), shownBy_cons_of_not_reaches hreaches]
    rfl

/-- Without the records that a stop invalidates a panel shows what it shows after the stop, as
long as none of them is left because it is for all panels. -/
theorem shownBy_filter {address g : Byte} (haddress : address = 0 ∨ address = i)
    (hrs : ∀ d ∈ rs, isSnapshotted d.packet = true)
    (h : address ≠ 0 → ∀ d ∈ rs, d.address = 0 → packetType d.packet = .animationPrepare →
      ¬ PanelView.stopped g (key d.packet)) (v : PanelView) :
    shownBy i (rs.filter fun d => !invalidated address g d) (v.after (.control .stop g)) =
      (shownBy i rs v).after (.control .stop g) := by
  induction rs generalizing v with
  | nil => rfl
  | cons d rs ih =>
      have ih := ih (fun e he => hrs e (List.mem_cons_of_mem d he))
        fun ha e he => h ha e (List.mem_cons_of_mem d he)
      have hd := hrs d List.mem_cons_self
      by_cases hreaches : d.reaches i = true
      · rw [shownBy_cons_of_reaches hreaches, ← ih]
        by_cases hinv : invalidated address g d = true
        · rw [List.filter_cons_of_neg (by simp [hinv])]
          simp only [invalidated, Bool.and_eq_true, Bool.or_eq_true, decide_eq_true_eq] at hinv
          have hstep : isStep d.packet = true := by simpa [isStep] using hinv.2
          rw [v.after_stop_of_stopped hstep hinv.1.2]
        · rw [List.filter_cons_of_pos (by simpa using hinv), shownBy_cons_of_reaches hreaches]
          congr 1
          by_cases hstep : isStep d.packet = true ∧ PanelView.stopped g (key d.packet)
          · have hother : address ≠ 0 ∧ d.address ≠ address := by
              have hkind : packetType d.packet = .animationPrepare ∨
                  packetType d.packet = .animationStart := by simpa [isStep] using hstep.1
              have hkey : g = 0 ∨ key d.packet = g := hstep.2
              simp only [invalidated, Bool.and_eq_true, Bool.or_eq_true, decide_eq_true_eq]
                at hinv
              tauto
            have hall : d.address = 0 := by
              have hi : d.address = 0 ∨ d.address = i := by simpa [Record.reaches] using hreaches
              have hai := haddress.resolve_left hother.1
              exact hi.resolve_right fun hdi => hother.2 (hdi.trans hai.symm)
            have hstart := h hother.1 d List.mem_cons_self hall
            rw [v.after_stop_of_stopped hstep.1 hstep.2]
            cases hpacket : d.packet with
            | start seqId k =>
                rw [hpacket] at hstep
                exact v.after_start_of_stopped seqId hstep.2
            | prepare pkt =>
                rw [hpacket] at hstart hstep
                exact absurd hstep.2 (hstart rfl)
            | _ =>
                rw [hpacket] at hstep
                cases hstep.1
          · exact (v.after_stop_comm hd fun hs hk => hstep ⟨hs, hk⟩).symm
      · rw [Bool.not_eq_true] at hreaches
        rw [shownBy_cons_of_not_reaches hreaches, ← ih]
        by_cases hinv : invalidated address g d = true
        · rw [List.filter_cons_of_neg (by simp [hinv])]
        · rw [List.filter_cons_of_pos (by simpa using hinv),
            shownBy_cons_of_not_reaches hreaches]

/-- A stop for another panel leaves what this one receives. -/
theorem received_filter_invalidated {address g : Byte} (haddress : address ≠ 0)
    (hi : address ≠ i) :
    received i (rs.filter fun d => !invalidated address g d) = received i rs := by
  rw [received, received, List.filter_filter]
  refine List.filter_congr fun d _ => ?_
  by_cases hreaches : d.reaches i = true
  · have hd : d.address = 0 ∨ d.address = i := by simpa [Record.reaches] using hreaches
    have hkept : invalidated address g d = false := by
      have hne : d.address ≠ address := by
        rintro heq
        rcases hd with hd | hd
        · exact haddress (heq.symm.trans hd)
        · exact hi (heq.symm.trans hd)
      rw [invalidated, decide_eq_false haddress, decide_eq_false hne]
      rfl
    rw [hreaches, hkept]
    rfl
  · rw [Bool.not_eq_true] at hreaches
    rw [hreaches, Bool.false_and]

end

/-! ### What a capture makes of the snapshot -/

section
variable {m : PacketMirror} {r : Record}

theorem captureRecord_snapshot : (m.captureRecord r).1.snapshot = m.snapshot ∧
    (m.captureRecord r).1.snapshotDroppedCount = m.snapshotDroppedCount := by
  unfold captureRecord
  split
  · exact ⟨rfl, rfl⟩
  · split_ifs
    · exact ⟨rfl, rfl⟩
    · unfold flush
      split_ifs <;> exact ⟨rfl, rfl⟩
    · exact ⟨rfl, rfl⟩

/-- A record overwrites the one of its entry, is appended, or is dropped. -/
theorem capture_snapshot_cases (h : isSnapshotted r.packet = true) :
    (∃ before e after, m.snapshot = before ++ e :: after ∧ sameEntry r e = true ∧
        (∀ d ∈ before, sameEntry r d = false) ∧
        (m.capture r).1.snapshot = before ++ r :: after) ∨
      (m.capture r).1.snapshot = m.snapshot ++ [r] ∨
      (m.capture r).1.snapshotDroppedCount ≠ m.snapshotDroppedCount := by
  have hcapture : m.captureSnapshot r = m.updateSnapshot r := by
    unfold captureSnapshot
    rw [if_pos h]
    cases hpacket : r.packet with
    | control cmd g =>
        rw [hpacket] at h
        cases h
    | _ => rfl
  rw [capture, captureRecord_snapshot.1, captureRecord_snapshot.2, hcapture, updateSnapshot]
  cases hover : overwrite (sameEntry r) r m.snapshot with
  | some rs =>
      obtain ⟨before, e, after, heq, he, hbefore, rfl⟩ := overwrite_eq_some hover
      exact .inl ⟨before, e, after, heq, he, hbefore, rfl⟩
  | none =>
      dsimp only
      split_ifs
      · exact .inr (.inr (Nat.succ_ne_self _))
      · exact .inr (.inl rfl)

theorem capture_snapshot_of_stop {g : Byte} (h : r.packet = .control .stop g) :
    (m.capture r).1.snapshot =
      m.snapshot.filter fun e => !invalidated r.address g e := by
  have hcapture : m.captureSnapshot r = m.invalidateSnapshot r.address g := by
    unfold captureSnapshot
    rw [h]
    rfl
  rw [capture, captureRecord_snapshot.1, hcapture]
  rfl

end

end PacketMirror

/-! ### Runs -/

namespace PacketMirror.Stream

/-- A stop for one panel finds no prepare for all panels that it would have to end; any other
packet overwrites no record that a later one for the panel depends on. -/
def SoundUpdate (i : Byte) (snapshot : List Record) (r : Record) : Prop :=
  match r.packet with
  | .control .stop g =>
    r.address ≠ 0 → ∀ e ∈ snapshot, e.address = 0 → packetType e.packet = .animationPrepare →
      ¬ PanelView.stopped g (key e.packet)
  | packet =>
    ∀ before e after, snapshot = before ++ e :: after → sameEntry r e = true →
      (∀ d ∈ before, sameEntry r d = false) →
      packet ≠ .setPalette [] ∧
        ∀ d ∈ after, d.reaches i = true → conflicts packet d.packet = false

/-- A capture of a packet that a replay stands for, without a drop. If the packet reaches the
panel, the panel heeds it, no started step takes a colour from the output, and the snapshot's
update is sound. -/
def Kept (i : Byte) (s : Stream) : MirrorEvent → Prop
  | .capture r =>
    isReplayed r.packet = true ∧
      (s.mirror.capture r).1.snapshotDroppedCount = s.mirror.snapshotDroppedCount ∧
      (r.reaches i = true →
        (deliver i s.captured .init).player.Heeded r.packet ∧
          (deliver i s.captured .init).view.StartsPlain r.packet ∧
          SoundUpdate i s.mirror.snapshot r)
  | .flush => True

/-- The snapshot shows what the panel of this index shows. -/
structure Mirrored (i : Byte) (s : Stream) : Prop where
  snapshotted : ∀ e ∈ s.mirror.snapshot, isSnapshotted e.packet = true
  unique : AnimationPlayer.UniqueGroups (deliver i s.captured .init).player
  view : (deliver i s.captured .init).view.parameters =
    shownBy i s.mirror.snapshot LitPanel.init.view.parameters
  plain : (deliver i s.captured .init).view.parameters.PlainSteps

section
variable {i : Byte} {s : Stream} {r : Record}

theorem deliver_snoc (rs : List Record) (p : LitPanel) :
    deliver i (rs ++ [r]) p =
      if r.reaches i then (deliver i rs p).handlePacket r.time r.packet else deliver i rs p := by
  rw [deliver_append]
  split_ifs with h
  · rw [deliver, received_cons_of_reaches h]
    rfl
  · rw [Bool.not_eq_true] at h
    rw [deliver_not_reached h]

theorem unique_handlePacket {p : LitPanel} (h : AnimationPlayer.UniqueGroups p.player)
    (now : Ticks) (packet : AnimationPacket) :
    AnimationPlayer.UniqueGroups (p.handlePacket now packet).player := by
  have hplayer := h.handlePacket now packet
  cases packet <;> exact hplayer

theorem shownBy_snoc (hr : r.reaches i = true) (rs : List Record) (v : PanelView) :
    shownBy i (rs ++ [r]) v = (shownBy i rs v).after r.packet := by
  rw [shownBy_append, shownBy_cons_of_reaches hr]
  rfl

theorem init_after_stop (g : Byte) :
    LitPanel.init.view.parameters.after (.control .stop g) = LitPanel.init.view.parameters := by
  refine PanelView.ext (funext fun k => ?_) rfl
  rw [PanelView.after_groups, PanelView.groupsAfter_stop]
  have hempty : LitPanel.init.view.parameters.groups k = .empty := rfl
  rw [hempty, ite_self]

/-- What a heeded packet shows. -/
theorem Mirrored.view_snoc (h : Mirrored i s) (hreach : r.reaches i = true)
    (hkind : isReplayed r.packet = true)
    (hheeded : (deliver i s.captured .init).player.Heeded r.packet) :
    (deliver i (s.captured ++ [r]) .init).view.parameters =
      (shownBy i s.mirror.snapshot LitPanel.init.view.parameters).after r.packet := by
  rw [deliver_snoc, if_pos hreach, LitPanel.view_handlePacket h.unique hkind hheeded, h.view]

theorem Mirrored.stop (h : Mirrored i s) {g : Byte} (hr : r.packet = .control .stop g)
    (hsound : r.reaches i = true → SoundUpdate i s.mirror.snapshot r) :
    shownBy i (s.mirror.capture r).1.snapshot LitPanel.init.view.parameters =
      if r.reaches i then
        (shownBy i s.mirror.snapshot LitPanel.init.view.parameters).after r.packet
      else shownBy i s.mirror.snapshot LitPanel.init.view.parameters := by
  rw [capture_snapshot_of_stop hr]
  split_ifs with hreach
  · have haddress : r.address = 0 ∨ r.address = i := by simpa [Record.reaches] using hreach
    have hsound := hsound hreach
    rw [SoundUpdate, hr] at hsound
    rw [hr, ← shownBy_filter haddress h.snapshotted hsound, init_after_stop]
  · have hother : r.address ≠ 0 ∧ r.address ≠ i := by simpa [Record.reaches] using hreach
    rw [shownBy, received_filter_invalidated hother.1 hother.2]
    rfl

theorem Mirrored.update (h : Mirrored i s) (hr : isSnapshotted r.packet = true)
    (hdrop : (s.mirror.capture r).1.snapshotDroppedCount = s.mirror.snapshotDroppedCount)
    (hsound : r.reaches i = true → SoundUpdate i s.mirror.snapshot r) :
    shownBy i (s.mirror.capture r).1.snapshot LitPanel.init.view.parameters =
      if r.reaches i then
        (shownBy i s.mirror.snapshot LitPanel.init.view.parameters).after r.packet
      else shownBy i s.mirror.snapshot LitPanel.init.view.parameters := by
  have hsnoc : ∀ v, shownBy i (s.mirror.snapshot ++ [r]) v =
      if r.reaches i then (shownBy i s.mirror.snapshot v).after r.packet
      else shownBy i s.mirror.snapshot v := fun v => by
    split_ifs with hreach
    · exact shownBy_snoc hreach _ v
    · rw [Bool.not_eq_true] at hreach
      rw [shownBy_append, shownBy_cons_of_not_reaches hreach]
      rfl
  rw [← hsnoc]
  rcases capture_snapshot_cases hr with
    ⟨before, e, after, heq, hsame, hbefore, hsnapshot⟩ | hsnapshot | hdropped
  · have hsettled : r.reaches i = true → r.packet ≠ .setPalette [] ∧
        ∀ d ∈ after, d.reaches i = true → conflicts r.packet d.packet = false := fun hreach => by
      have hsound := hsound hreach
      rw [SoundUpdate] at hsound
      cases hpacket : r.packet with
      | control cmd g =>
          rw [hpacket] at hr
          cases hr
      | _ =>
          rw [hpacket] at hsound
          exact hsound before e after heq hsame hbefore
    have hall := h.snapshotted
    rw [heq] at hall
    rw [hsnapshot, heq, shownBy_overwrite hr hall hsame (fun hreach => (hsettled hreach).1)
      fun hreach => (hsettled hreach).2]
  · rw [hsnapshot]
  · exact absurd hdrop hdropped

theorem stop_or_snapshotted {packet : AnimationPacket} (h : isReplayed packet = true) :
    (∃ g, packet = .control .stop g) ∨ isSnapshotted packet = true := by
  cases packet with
  | control cmd g =>
      cases cmd with
      | stop => exact .inl ⟨g, rfl⟩
      | _ => cases h
  | _ => exact .inr h

theorem Mirrored.snapshotted_capture (h : Mirrored i s) (hkind : isReplayed r.packet = true)
    (hdrop : (s.mirror.capture r).1.snapshotDroppedCount = s.mirror.snapshotDroppedCount) :
    ∀ e ∈ (s.mirror.capture r).1.snapshot, isSnapshotted e.packet = true := by
  intro e he
  rcases stop_or_snapshotted hkind with ⟨g, hr⟩ | hr
  · rw [capture_snapshot_of_stop hr] at he
    exact h.snapshotted e (List.mem_of_mem_filter he)
  · rcases capture_snapshot_cases hr with
      ⟨before, d, after, heq, -, -, hsnapshot⟩ | hsnapshot | hdropped
    · rw [hsnapshot] at he
      have hold : ∀ e ∈ before ++ after, isSnapshotted e.packet = true := fun e he =>
        h.snapshotted e (by
          rw [heq]
          rcases List.mem_append.mp he with he | he
          · exact List.mem_append_left _ he
          · exact List.mem_append_right _ (List.mem_cons_of_mem d he))
      rcases List.mem_append.mp he with he | he
      · exact hold e (List.mem_append_left _ he)
      · rcases List.mem_cons.mp he with rfl | he
        · exact hr
        · exact hold e (List.mem_append_right _ he)
    · rw [hsnapshot] at he
      rcases List.mem_append.mp he with he | he
      · exact h.snapshotted e he
      · rw [List.mem_singleton.mp he]
        exact hr
    · exact absurd hdrop hdropped

theorem startsPlain_parameters {v : PanelView} {packet : AnimationPacket}
    (h : v.StartsPlain packet) : v.parameters.StartsPlain packet := by
  cases packet <;> exact h

theorem Mirrored.capture (h : Mirrored i s) (hok : Kept i s (.capture r)) :
    Mirrored i (s.step (.capture r)) := by
  obtain ⟨hkind, hdrop, hreached⟩ := hok
  have hsnapshot : shownBy i (s.mirror.capture r).1.snapshot LitPanel.init.view.parameters =
      if r.reaches i then
        (shownBy i s.mirror.snapshot LitPanel.init.view.parameters).after r.packet
      else shownBy i s.mirror.snapshot LitPanel.init.view.parameters := by
    rcases stop_or_snapshotted hkind with ⟨g, hr⟩ | hr
    · exact h.stop hr fun hreach => (hreached hreach).2.2
    · exact h.update hr hdrop fun hreach => (hreached hreach).2.2
  have hall := h.snapshotted_capture hkind hdrop
  by_cases hreach : r.reaches i = true
  · obtain ⟨hheeded, hplain, -⟩ := hreached hreach
    have hview := h.view_snoc hreach hkind hheeded
    refine ⟨hall, ?_, ?_, ?_⟩
    · change AnimationPlayer.UniqueGroups (deliver i (s.captured ++ [r]) .init).player
      rw [deliver_snoc, if_pos hreach]
      exact unique_handlePacket h.unique _ _
    · refine hview.trans ?_
      exact (hsnapshot.trans (if_pos hreach)).symm
    · change (deliver i (s.captured ++ [r]) .init).view.parameters.PlainSteps
      rw [hview, ← h.view]
      exact h.plain.after (startsPlain_parameters hplain)
  · have hsame : deliver i (s.captured ++ [r]) .init = deliver i s.captured .init := by
      rw [deliver_snoc, if_neg hreach]
    have hcaptured : (s.step (.capture r)).captured = s.captured ++ [r] := rfl
    refine ⟨hall, ?_, ?_, ?_⟩
    · rw [hcaptured, hsame]
      exact h.unique
    · rw [hcaptured, hsame, h.view]
      exact (hsnapshot.trans (if_neg hreach)).symm
    · rw [hcaptured, hsame]
      exact h.plain

theorem Mirrored.flush (h : Mirrored i s) : Mirrored i (s.step .flush) := by
  have hsnapshot : (s.step .flush).mirror.snapshot = s.mirror.snapshot := by
    change s.mirror.flush.1.snapshot = _
    unfold PacketMirror.flush
    split_ifs <;> rfl
  refine ⟨?_, h.unique, ?_, h.plain⟩
  · rw [hsnapshot]
    exact h.snapshotted
  · rw [hsnapshot]
    exact h.view

theorem Mirrored.step (h : Mirrored i s) {event : MirrorEvent} (hok : Kept i s event) :
    Mirrored i (s.step event) := by
  cases event with
  | capture r => exact h.capture hok
  | flush => exact h.flush

theorem mirrored_init (hasServer : Bool) : Mirrored i (init hasServer) where
  snapshotted := by simp [init, PacketMirror.init]
  unique := by
    intro j k hj
    cases hj
  view := rfl
  plain := by
    intro g a h
    cases h

theorem run_mirrored {hasServer : Bool} {events : List MirrorEvent}
    (h : Transition.Guarded step (Kept i) (init hasServer) events) :
    Mirrored i (run hasServer events) :=
  (Transition.reachable_of_guarded events .refl h).invariant (Mirrored i)
    (fun _ _ hs hok => hs.step hok) (mirrored_init hasServer)

end

end PacketMirror.Stream

end Lightnet
