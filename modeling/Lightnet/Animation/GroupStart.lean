import Lightnet.Animation.SlotDiscipline

/-!
# Starting a group

A panel ignores a start that carries the number of the last start it saw, so that the copies of
one start run once. The scheduler numbers starts and parameter updates from one counter with
period 255, and the panel only remembers starts: after 254 updates in a row the next start carries
the number of the last one and is taken for a copy of it. A start also finds nothing when a frame
has reaped the slot, and the step pending in it, before the first copy arrives.
-/

namespace Lightnet.GroupStart

open AnimationScheduler (Command run nextSeq startFloodSendCount)
open AnimationPlayer (Awaits Runs expired)

/-- When a packet arrives, and the ticks of the panel since the one before. -/
structure Delivery where
  ticks : List Ticks
  now : Ticks

/-- A command with the delivery of each of its packets to the panel. -/
structure Event where
  command : Command
  deliveries : ℕ → Delivery

/-- The scheduler's counter and one panel's player. -/
structure Session where
  nextSeqId : Byte
  player : AnimationPlayer

def boot : Session := ⟨1, .init⟩

def ticked (p : AnimationPlayer) (ticks : List Ticks) : AnimationPlayer :=
  ticks.foldl AnimationPlayer.tick p

def receive (p : AnimationPlayer) (d : Delivery) (packet : AnimationPacket) : AnimationPlayer :=
  (ticked p d.ticks).handlePacket d.now packet

/-- The packets arrive in order, the first one with the delivery of this number. -/
def receiveAll (deliveries : ℕ → Delivery) :
    ℕ → AnimationPlayer → List AnimationPacket → AnimationPlayer
  | _, p, [] => p
  | n, p, packet :: packets =>
    receiveAll deliveries (n + 1) (receive p (deliveries n) packet) packets

def addressedTo (panel : ℕ) (sent : List Addressed) : List AnimationPacket :=
  (sent.filter fun x => x.1 = 0 ∨ x.1 = panel).map Prod.snd

def step (panel : ℕ) (s : Session) (ev : Event) : Session :=
  let out := run s.nextSeqId ev.command
  ⟨out.1, receiveAll ev.deliveries 0 s.player (addressedTo panel out.2)⟩

/-! ### The copies of one start -/

/-- The panel when the copy of this number arrives. -/
def atCopy (s : Session) (g : Byte) (deliveries : ℕ → Delivery) (n : ℕ) : AnimationPlayer :=
  ticked (receiveAll deliveries 0 s.player (List.replicate n (.start s.nextSeqId g)))
    (deliveries n).ticks

/-- The panel once it has handled that copy. -/
def afterCopy (s : Session) (g : Byte) (deliveries : ℕ → Delivery) (n : ℕ) : AnimationPlayer :=
  (atCopy s g deliveries n).start s.nextSeqId g (deliveries n).now

/-- The first copy of a start runs the step that is pending when the start is issued, and the
others change no slot. -/
structure StartDelivered (s : Session) (g : Byte) (deliveries : ℕ → Delivery) : Prop where
  activates : ∀ i a, Awaits (s.player.slots i) g a →
    Runs (atCopy s g deliveries 0).lastOutput (deliveries 0).now g a
      ((afterCopy s g deliveries 0).slots i)
  copies : ∀ n, 0 < n → n < startFloodSendCount →
    (afterCopy s g deliveries n).slots = (atCopy s g deliveries n).slots

/-- One of the ticks computes a frame in which the finished step of the slot is reaped. -/
def Reaps (p : AnimationPlayer) (ticks : List Ticks) (i : Fin maxAnimSlots) : Prop :=
  ∃ earlier t later, ticks = earlier ++ t :: later ∧ (ticked p earlier).framesAt t.toNat ∧
    expired t ((ticked p earlier).slots i) = true

def updatesAfter (n : ℕ) (ev : Event) : ℕ :=
  match ev.command with
  | .sendGroupStart _ => 0
  | .sendGeneralCallUpdateParams _ _ _ => n + 1
  | _ => n

def updatesSinceStart (events : List Event) : ℕ := events.foldl updatesAfter 0

theorem step_sendGroupStart (panel : ℕ) (s : Session) (g : Byte) (deliveries : ℕ → Delivery) :
    step panel s ⟨.sendGroupStart g, deliveries⟩ =
      ⟨nextSeq s.nextSeqId, afterCopy s g deliveries 2⟩ := by
  simp [step, run, addressedTo, startFloodSendCount, receiveAll, afterCopy, atCopy, receive,
    AnimationPlayer.handlePacket, List.replicate]

/-! ### Sequence numbers -/

/-- The numbers in the order they are handed out, over and over. -/
def seqAt (n : ℕ) : Byte := BitVec.ofNat 8 (n % 255 + 1)

theorem seqAt_eq_iff (m n : ℕ) : seqAt m = seqAt n ↔ m % 255 = n % 255 := by
  rw [seqAt, seqAt, ← BitVec.toNat_inj, BitVec.toNat_ofNat, BitVec.toNat_ofNat]
  omega

theorem nextSeq_seqAt (n : ℕ) : nextSeq (seqAt n) = seqAt (n + 1) := by
  have hsucc : seqAt n + 1 = BitVec.ofNat 8 (n % 255 + 2) := by
    simp [seqAt, ← BitVec.toNat_inj, BitVec.toNat_add, Nat.add_assoc]
  have hzero : seqAt n + 1 = 0 ↔ n % 255 = 254 := by
    rw [hsucc, ← BitVec.toNat_inj, BitVec.toNat_ofNat]
    change (n % 255 + 2) % 256 = 0 ↔ _
    omega
  unfold nextSeq
  split_ifs with h
  · rw [hzero] at h
    rw [show seqAt (n + 1) = BitVec.ofNat 8 ((n + 1) % 255 + 1) from rfl]
    have : (n + 1) % 255 = 0 := by omega
    rw [this]
    rfl
  · rw [hzero] at h
    rw [hsucc, seqAt]
    have : (n + 1) % 255 = n % 255 + 1 := by omega
    rw [this]

/-! ### The panel remembers the last start -/

theorem ticked_lastStartSeqId (p : AnimationPlayer) (ticks : List Ticks) :
    (ticked p ticks).lastStartSeqId = p.lastStartSeqId := by
  induction ticks generalizing p with
  | nil => rfl
  | cons t ticks ih => exact (ih _).trans (p.tick_lastStartSeqId t)

/-- The number a packet leaves behind. -/
def startSeqId (last : Byte) : AnimationPacket → Byte
  | .start seqId _ => seqId
  | _ => last

theorem receive_lastStartSeqId (p : AnimationPlayer) (d : Delivery) (packet : AnimationPacket) :
    (receive p d packet).lastStartSeqId = startSeqId p.lastStartSeqId packet := by
  have hticked := ticked_lastStartSeqId p d.ticks
  cases packet <;>
    simp [receive, AnimationPlayer.handlePacket, startSeqId, AnimationPlayer.setColorDirect,
      AnimationPlayer.setBaseColors, AnimationPlayer.control, hticked]

theorem receiveAll_lastStartSeqId (deliveries : ℕ → Delivery) (n : ℕ) (p : AnimationPlayer)
    (packets : List AnimationPacket) :
    (receiveAll deliveries n p packets).lastStartSeqId =
      packets.foldl startSeqId p.lastStartSeqId := by
  induction packets generalizing n p with
  | nil => rfl
  | cons packet packets ih =>
      rw [receiveAll, ih, receive_lastStartSeqId, List.foldl_cons]

/-- The panel remembers the last start, and the counter has moved on by the updates since. -/
def InSequence (s : Session) (updates : ℕ) : Prop :=
  ∃ m, s.player.lastStartSeqId = seqAt m ∧ s.nextSeqId = seqAt (m + 1 + updates)

theorem inSequence_boot : InSequence boot 0 := ⟨254, by decide, by decide⟩

theorem foldl_startSeqId_of_no_start {packets : List AnimationPacket} {last : Byte}
    (h : ∀ x ∈ packets, ∀ l, startSeqId l x = l) : packets.foldl startSeqId last = last := by
  induction packets with
  | nil => rfl
  | cons x xs ih =>
      rw [List.foldl_cons, h x List.mem_cons_self]
      exact ih fun y hy => h y (List.mem_cons_of_mem _ hy)

/-- Only a group start sends starts. -/
theorem startSeqId_of_run {nextSeqId : Byte} {command : Command}
    (hc : ∀ g, command ≠ .sendGroupStart g) :
    ∀ x ∈ (run nextSeqId command).2, ∀ l, startSeqId l x.2 = l := by
  have hmap : ∀ (packet : AnimationPacket) (addresses : List ℕ),
      (∀ l, startSeqId l packet = l) →
      ∀ x ∈ addresses.map (fun a => (a, packet)), ∀ l, startSeqId l x.2 = l := by
    intro packet addresses hpacket x hx
    obtain ⟨a, -, rfl⟩ := List.mem_map.mp hx
    exact hpacket
  intro x hx l
  cases command with
  | sendGroupStart g => exact absurd rfl (hc g)
  | sendControlToPanels g cmd addresses => exact hmap _ _ (fun _ => rfl) x hx l
  | turnOnPanels addresses => exact hmap _ _ (fun _ => rfl) x hx l
  | broadcastPalette stops =>
      simp only [run] at hx
      split_ifs at hx
      · cases hx
      · cases List.mem_singleton.mp hx
        rfl
  | unicastPaletteToPanels stops addresses =>
      simp only [run] at hx
      split_ifs at hx
      · cases hx
      · exact hmap _ _ (fun _ => rfl) x hx l
  | _ =>
      cases List.mem_singleton.mp hx
      rfl

theorem inSequence_step (panel : ℕ) {s : Session} {n : ℕ} (h : InSequence s n) (ev : Event) :
    InSequence (step panel s ev) (updatesAfter n ev) := by
  obtain ⟨m, hlast, hnext⟩ := h
  obtain ⟨command, deliveries⟩ := ev
  by_cases hc : ∃ g, command = .sendGroupStart g
  · obtain ⟨g, rfl⟩ := hc
    refine ⟨m + 1 + n, ?_, ?_⟩
    · rw [step_sendGroupStart]
      exact (AnimationPlayer.start_lastStartSeqId _ _ _ _).trans hnext
    · rw [step_sendGroupStart, hnext]
      exact nextSeq_seqAt _
  · have hplayer : (step panel s ⟨command, deliveries⟩).player.lastStartSeqId = seqAt m := by
      rw [← hlast]
      refine (receiveAll_lastStartSeqId _ _ _ _).trans (foldl_startSeqId_of_no_start ?_)
      intro packet hpacket
      obtain ⟨x, hx, rfl⟩ := List.mem_map.mp hpacket
      exact startSeqId_of_run (fun g hg => hc ⟨g, hg⟩) x (List.mem_of_mem_filter hx)
    refine ⟨m, hplayer, ?_⟩
    cases command with
    | sendGroupStart g => exact absurd ⟨g, rfl⟩ hc
    | sendGeneralCallUpdateParams g t value =>
        change nextSeq s.nextSeqId = seqAt (m + 1 + (n + 1))
        rw [hnext, nextSeq_seqAt]
        rfl
    | _ => exact hnext

theorem inSequence_run (panel : ℕ) (events : List Event) :
    InSequence (events.foldl (step panel) boot) (updatesSinceStart events) := by
  induction events using List.reverseRecOn with
  | nil => exact inSequence_boot
  | append_singleton events ev ih =>
      rw [updatesSinceStart, List.foldl_append, List.foldl_append]
      exact inSequence_step panel ih ev

/-! ### The pending step until the start arrives -/

theorem clock_toNat (t : Ticks) : clock t.toNat = t := by
  rw [clock, BitVec.ofNat_toNat, BitVec.setWidth_eq]

theorem stepAt_tick (p : AnimationPlayer) (t : Ticks) :
    p.stepAt ⟨t.toNat, .tick⟩ = p.tick t := by
  change p.tick (clock t.toNat) = p.tick t
  rw [clock_toNat]

theorem stepAt_packet (p : AnimationPlayer) (t : Ticks) (packet : AnimationPacket) :
    p.stepAt ⟨t.toNat, .packet packet⟩ = p.handlePacket t packet := by
  change p.handlePacket (clock t.toNat) packet = p.handlePacket t packet
  rw [clock_toNat]

theorem oneSlot_ticked {p : AnimationPlayer} (h : p.OneSlotPerGroup) (ticks : List Ticks) :
    (ticked p ticks).OneSlotPerGroup := by
  induction ticks generalizing p with
  | nil => exact h
  | cons t ticks ih =>
      have hstep := h.step ⟨t.toNat, .tick⟩
      rw [stepAt_tick] at hstep
      exact ih hstep

theorem oneSlot_receiveAll (deliveries : ℕ → Delivery) (n : ℕ) {p : AnimationPlayer}
    (h : p.OneSlotPerGroup) (packets : List AnimationPacket) :
    (receiveAll deliveries n p packets).OneSlotPerGroup := by
  induction packets generalizing n p with
  | nil => exact h
  | cons packet packets ih =>
      have hstep := (oneSlot_ticked h (deliveries n).ticks).step
        ⟨(deliveries n).now.toNat, .packet packet⟩
      rw [stepAt_packet] at hstep
      exact ih (n + 1) hstep

theorem oneSlot_run (panel : ℕ) (events : List Event) :
    (events.foldl (step panel) boot).player.OneSlotPerGroup := by
  induction events using List.reverseRecOn with
  | nil => exact AnimationPlayer.run_oneSlotPerGroup []
  | append_singleton events ev ih =>
      rw [List.foldl_append]
      exact oneSlot_receiveAll _ _ ih _

theorem ticked_append (p : AnimationPlayer) (ticks : List Ticks) (t : Ticks) :
    ticked p (ticks ++ [t]) = (ticked p ticks).tick t := by
  rw [ticked, List.foldl_append]
  rfl

theorem reaps_append (p : AnimationPlayer) (ticks : List Ticks) (t : Ticks)
    (i : Fin maxAnimSlots) : Reaps p (ticks ++ [t]) i ↔ Reaps p ticks i ∨
      ((ticked p ticks).framesAt t.toNat ∧ expired t ((ticked p ticks).slots i) = true) := by
  constructor
  · rintro ⟨earlier, t', later, heq, hframe, hexp⟩
    rcases List.eq_nil_or_concat later with rfl | ⟨later, last, rfl⟩
    · obtain ⟨rfl, ht⟩ := List.append_inj' heq rfl
      cases ht
      exact .inr ⟨hframe, hexp⟩
    · left
      rw [List.concat_eq_append, ← List.cons_append, ← List.append_assoc] at heq
      exact ⟨earlier, t', later, (List.append_inj' heq rfl).1, hframe, hexp⟩
  · rintro (⟨earlier, t', later, rfl, hframe, hexp⟩ | ⟨hframe, hexp⟩)
    · exact ⟨earlier, t', later ++ [t], by simp, hframe, hexp⟩
    · exact ⟨ticks, t, [], rfl, hframe, hexp⟩

theorem tick_free {p : AnimationPlayer} {i : Fin maxAnimSlots}
    (h : (p.slots i).occupied = false) (t : Ticks) : ((p.tick t).slots i).occupied = false := by
  unfold AnimationPlayer.tick
  dsimp only
  split_ifs
  · exact h
  · rw [AnimationPlayer.composite_slots, Bool.eq_false_iff]
    intro hocc
    rw [(AnimationPlayer.compositeSlot_keeps _).2 hocc] at h
    cases h

theorem tick_reaps {p : AnimationPlayer} {i : Fin maxAnimSlots} {t : Ticks}
    (hframe : p.framesAt t.toNat) (hexp : expired t (p.slots i) = true) :
    ((p.tick t).slots i).occupied = false := by
  have htick := AnimationPlayer.tick_of_framesAt hframe
  rw [clock_toNat] at htick
  rw [htick, AnimationPlayer.composite_slots]
  have hexp' : expired (p.atFrame t.toNat).nowMs (p.slots i) = true := by
    change expired (clock t.toNat) (p.slots i) = true
    rw [clock_toNat]
    exact hexp
  change ((p.atFrame t.toNat).compositeSlot (p.slots i)).1.occupied = false
  rw [AnimationPlayer.compositeSlot_fst_of_expired hexp']
  rfl

theorem tick_awaits {p : AnimationPlayer} {i : Fin maxAnimSlots} {g : Byte} {a : AnimationState}
    (h : Awaits (p.slots i) g a) {t : Ticks}
    (hkept : ¬ (p.framesAt t.toNat ∧ expired t (p.slots i) = true)) :
    Awaits ((p.tick t).slots i) g a := by
  have hlaw := (AnimationPlayer.pendingLaw_tick_iff h.occupied h.hasPending t.toNat).mpr
    fun hframe => by
      rw [clock_toNat, Bool.eq_false_iff]
      exact fun hexp => hkept ⟨hframe, hexp⟩
  have hawaits := hlaw.awaits h id
  rwa [stepAt_tick] at hawaits

/-- The ticks free the slot, or its step still waits. -/
theorem ticked_slot {p : AnimationPlayer} {i : Fin maxAnimSlots} {g : Byte} {a : AnimationState}
    (h : Awaits (p.slots i) g a) (ticks : List Ticks) :
    (Reaps p ticks i → ((ticked p ticks).slots i).occupied = false) ∧
      (¬ Reaps p ticks i → Awaits ((ticked p ticks).slots i) g a) := by
  induction ticks using List.reverseRecOn with
  | nil =>
      refine ⟨fun hreaps => ?_, fun _ => h⟩
      obtain ⟨earlier, t, later, heq, -⟩ := hreaps
      simp at heq
  | append_singleton ticks t ih =>
      rw [reaps_append, ticked_append]
      by_cases hbefore : Reaps p ticks i
      · exact ⟨fun _ => tick_free (ih.1 hbefore) t, fun hnot => absurd (.inl hbefore) hnot⟩
      · refine ⟨fun hreaps => ?_, fun hnot => tick_awaits (ih.2 hbefore) fun hnow => hnot (.inr hnow)⟩
        obtain ⟨hframe, hexp⟩ := hreaps.resolve_left hbefore
        exact tick_reaps hframe hexp

/-! ### Delivery of a start -/

/-- A start neither takes a free slot nor runs anything in it. -/
theorem start_free {p : AnimationPlayer} {i : Fin maxAnimSlots}
    (h : (p.slots i).occupied = false) (seqId g : Byte) (now : Ticks) :
    ((p.start seqId g now).slots i).occupied = false := by
  unfold AnimationPlayer.start
  dsimp only
  split_ifs with hseq
  · exact h
  · cases hfind : AnimationPlayer.findSlot { p with nowMs := now, lastStartSeqId := seqId } g with
    | none => exact h
    | some j =>
        dsimp only
        split_ifs with hpending
        · have hocc := (AnimationPlayer.findSlot_some _ hfind).1
          have hne : i ≠ j := by
            rintro rfl
            rw [h] at hocc
            cases hocc
          rw [AnimationPlayer.setSlot_slots, Function.update_of_ne hne]
          exact h
        · exact h

theorem atCopy_lastStartSeqId (s : Session) (g : Byte) (deliveries : ℕ → Delivery) (n : ℕ) :
    (atCopy s g deliveries n).lastStartSeqId =
      if n = 0 then s.player.lastStartSeqId else s.nextSeqId := by
  rw [atCopy, ticked_lastStartSeqId, receiveAll_lastStartSeqId]
  cases n with
  | zero => rfl
  | succ n =>
      rw [List.replicate_succ', List.foldl_append]
      rfl

theorem startDelivered_iff {s : Session} {n : ℕ} (h : InSequence s n)
    (hone : s.player.OneSlotPerGroup) (g : Byte) (deliveries : ℕ → Delivery) :
    StartDelivered s g deliveries ↔ ∀ i a, Awaits (s.player.slots i) g a →
      n % 255 ≠ 254 ∧ ¬ Reaps s.player (deliveries 0).ticks i := by
  obtain ⟨m, hlast, hnext⟩ := h
  have hfirst : s.nextSeqId = (atCopy s g deliveries 0).lastStartSeqId ↔ n % 255 = 254 := by
    rw [atCopy_lastStartSeqId, if_pos rfl, hlast, hnext, seqAt_eq_iff]
    omega
  constructor
  · rintro ⟨hactivates, -⟩ i a hawaits
    have hruns := hactivates i a hawaits
    have hnot : ¬ Reaps s.player (deliveries 0).ticks i := by
      intro hreaps
      have hfree := (ticked_slot hawaits (deliveries 0).ticks).1 hreaps
      have hocc := start_free hfree s.nextSeqId g (deliveries 0).now
      exact Bool.false_ne_true (hocc.symm.trans hruns.occupied)
    refine ⟨fun hn => ?_, hnot⟩
    have hwaits : Awaits ((atCopy s g deliveries 0).slots i) g a :=
      (ticked_slot hawaits (deliveries 0).ticks).2 hnot
    have hgone := hruns.hasPending
    rw [afterCopy, AnimationPlayer.start_of_seqId_eq _ (hfirst.mpr hn)] at hgone
    exact Bool.false_ne_true (hgone.symm.trans hwaits.hasPending)
  · intro hall
    refine ⟨fun i a hawaits => ?_, fun k hk _ => ?_⟩
    · obtain ⟨hn, hnot⟩ := hall i a hawaits
      have hwaits : Awaits ((atCopy s g deliveries 0).slots i) g a :=
        (ticked_slot hawaits (deliveries 0).ticks).2 hnot
      have honeCopy : (atCopy s g deliveries 0).OneSlotPerGroup := oneSlot_ticked hone _
      have hfind := AnimationPlayer.findSlot_of_occupied honeCopy hwaits.occupied
      rw [hwaits.groupId] at hfind
      have hne : s.nextSeqId ≠ (atCopy s g deliveries 0).lastStartSeqId :=
        fun heq => hn (hfirst.mp heq)
      rw [afterCopy, AnimationPlayer.start_of_pending _ hne hfind hwaits.hasPending,
        Function.update_self]
      have hstarted := (AnimationPlayer.activatePending_startedFrom
        { atCopy s g deliveries 0 with nowMs := (deliveries 0).now } hwaits.occupied).toRuns
      rw [hwaits.groupId, hwaits.pending] at hstarted
      exact hstarted
    · have hsame : s.nextSeqId = (atCopy s g deliveries k).lastStartSeqId := by
        rw [atCopy_lastStartSeqId, if_neg (by omega)]
      rw [afterCopy, AnimationPlayer.start_of_seqId_eq _ hsame]

/-- A start runs the step that waits for it, and its copies change nothing more, exactly when the
number of parameter updates since the start before it is not 254 modulo 255 and no frame reaps the
slot before the first copy arrives. -/
theorem groupStart_delivered_iff (panel : ℕ) (before : List Event) (g : Byte)
    (deliveries : ℕ → Delivery) :
    let s := before.foldl (step panel) boot
    StartDelivered s g deliveries ↔ ∀ i a, Awaits (s.player.slots i) g a →
      updatesSinceStart before % 255 ≠ 254 ∧ ¬ Reaps s.player (deliveries 0).ticks i :=
  startDelivered_iff (inSequence_run panel before) (oneSlot_run panel before) g deliveries

/-! ### A start that is taken for a copy -/

def atOnce : ℕ → Delivery := fun _ => ⟨[], 0⟩

/-- The frame at 100 ms falls between the start that is issued and its first copy. -/
example : Reaps ([⟨.sendPrepareToPanel 1 reapedPulse, atOnce⟩, ⟨.sendGroupStart 5, atOnce⟩,
    ⟨.sendPrepareToPanel 1 reapedPulse, atOnce⟩].foldl (step 1) boot).player [100] 0 :=
  ⟨[], 100, [], rfl, by decide, by decide⟩

def solidRed : PacketAnimationPrepare where
  animType := .solid
  groupId := 7
  flags := 0
  transitionMs := 0
  durationMs := 1000
  colorFrom := .rgb .black
  colorTo := .rgb ⟨255, 0, 0⟩
  param1 := 0
  param2 := 0
  composeMode := .opaqueTop
  composeOrder := 0
  startDelayMs := 0
  animates := .color

/-- After boot, 254 triggers of a group that no panel has, then one prepare. -/
def manyTriggers : List Event :=
  List.replicate 254 ⟨AnimationScheduler.triggerGroup 9 200, atOnce⟩ ++
    [⟨.sendPrepareToPanel 1 solidRed, atOnce⟩]

theorem step_trigger_slots {s : Session} (g value : Byte)
    (h : s.player.slots = fun _ => AnimationPlayer.idleSlot) :
    (step 1 s ⟨AnimationScheduler.triggerGroup g value, atOnce⟩).player.slots =
      fun _ => AnimationPlayer.idleSlot := by
  change (s.player.updateParams s.nextSeqId g .trigger value 0).slots = _
  unfold AnimationPlayer.updateParams
  dsimp only
  split_ifs with hseq htype
  · exact h
  · exact h
  · funext i
    simp [h, AnimationPlayer.idleSlot]

theorem manyTriggers_awaits :
    Awaits ((manyTriggers.foldl (step 1) boot).player.slots 0) 7 solidRed.toState := by
  have hidle : ∀ n, ((List.replicate n (⟨AnimationScheduler.triggerGroup 9 200, atOnce⟩ :
      Event)).foldl (step 1) boot).player.slots = fun _ => AnimationPlayer.idleSlot := by
    intro n
    induction n with
    | zero => rfl
    | succ n ih =>
        rw [List.replicate_succ', List.foldl_append]
        exact step_trigger_slots 9 200 ih
  have hprepare : ∀ s : Session, (s.player.slots = fun _ => AnimationPlayer.idleSlot) →
      Awaits ((step 1 s ⟨.sendPrepareToPanel 1 solidRed, atOnce⟩).player.slots 0) 7
        solidRed.toState := by
    rintro ⟨_, slots, _, _, _, _, _, _, _, _, _⟩ rfl
    exact ⟨rfl, rfl, rfl, rfl⟩
  rw [manyTriggers, List.foldl_append, List.foldl_cons, List.foldl_nil]
  exact hprepare _ (hidle 254)

theorem not_startDelivered_manyTriggers :
    ¬ StartDelivered (manyTriggers.foldl (step 1) boot) 7 atOnce := by
  rw [startDelivered_iff (inSequence_run 1 manyTriggers) (oneSlot_run 1 manyTriggers)]
  intro h
  exact (h 0 _ manyTriggers_awaits).1 (by decide +kernel)

end Lightnet.GroupStart
