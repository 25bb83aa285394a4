import Lightnet.Mirror.PacketMirror
import Lightnet.Animation.PacketSettling

/-!
# Overwriting a colour in the batch

The record that a later colour overwrites keeps its place, so the new colour comes before all that
was captured in between. A panel ends in the same state as without the mirror as long as nothing
in between reads or writes its colour.
-/

namespace Lightnet.PacketMirror

/-! ### Packets that leave the colour alone -/

section
variable (p : AnimationPlayer) (c : ColorRGB)

/-- The packet neither sets the colour nor activates a step that takes it. -/
def KeepsColor : AnimationPacket → Prop
  | .setColor _ => False
  | .setBackground _ => False
  | .start seqId g => seqId ≠ p.lastStartSeqId → ∀ j, p.findSlot g = some j →
      (p.slots j).hasPending = true → AnimationPlayer.Plain (p.slots j).pending
  | _ => True

theorem prepare_setColorDirect (pkt : PacketAnimationPrepare) :
    (p.setColorDirect c).prepare pkt = (p.prepare pkt).setColorDirect c := by
  have hfind : (p.setColorDirect c).findSlot pkt.groupId = p.findSlot pkt.groupId := rfl
  have hfree : (p.setColorDirect c).freeSlot = p.freeSlot := rfl
  unfold AnimationPlayer.prepare AnimationPlayer.allocSlot
  rw [hfind, hfree]
  cases p.findSlot pkt.groupId with
  | some i => rfl
  | none => cases p.freeSlot <;> rfl

/-- What a start with a new number does. -/
def activate (g : Byte) : AnimationPlayer :=
  match p.findSlot g with
  | none => p
  | some i =>
    if (p.slots i).hasPending then p.setSlot i (p.activatePending (p.slots i)) else p

theorem activate_setColorDirect {g : Byte}
    (h : ∀ j, p.findSlot g = some j → (p.slots j).hasPending = true →
      AnimationPlayer.Plain (p.slots j).pending) :
    activate (p.setColorDirect c) g = (activate p g).setColorDirect c := by
  have hfind : (p.setColorDirect c).findSlot g = p.findSlot g := rfl
  unfold activate
  rw [hfind]
  cases hslot : p.findSlot g with
  | none => rfl
  | some j =>
      have hslots : (p.setColorDirect c).slots j = p.slots j := rfl
      dsimp only
      rw [hslots]
      by_cases hpending : (p.slots j).hasPending = true
      · have hplain := h j hslot hpending
        have hactivate := @AnimationPlayer.activatePending_congr
          (p.setColorDirect c) p (p.slots j) hplain rfl
        rw [if_pos hpending, if_pos hpending, hactivate]
        rfl
      · rw [if_neg hpending, if_neg hpending]

theorem start_setColorDirect {seqId g : Byte} (now : Ticks) (h : KeepsColor p (.start seqId g)) :
    (p.setColorDirect c).start seqId g now = (p.start seqId g now).setColorDirect c := by
  have hlast : (p.setColorDirect c).lastStartSeqId = p.lastStartSeqId := rfl
  unfold AnimationPlayer.start
  dsimp only
  rw [hlast]
  by_cases hseq : seqId = p.lastStartSeqId
  · rw [if_pos hseq, if_pos hseq]
    rfl
  · rw [if_neg hseq, if_neg hseq]
    exact activate_setColorDirect { p with nowMs := now, lastStartSeqId := seqId } c (h hseq)

theorem updateParams_setColorDirect (seqId g : Byte) (t : AnimationParamType) (value : Byte)
    (now : Ticks) :
    (p.setColorDirect c).updateParams seqId g t value now =
      (p.updateParams seqId g t value now).setColorDirect c := by
  have hlast : (p.setColorDirect c).lastParamsSeqId = p.lastParamsSeqId := rfl
  unfold AnimationPlayer.updateParams
  dsimp only
  rw [hlast]
  split_ifs <;> rfl

theorem handlePacket_setColorDirect (now : Ticks) {packet : AnimationPacket}
    (h : KeepsColor p packet) :
    (p.setColorDirect c).handlePacket now packet =
      (p.handlePacket now packet).setColorDirect c := by
  cases packet with
  | prepare pkt => exact prepare_setColorDirect p c pkt
  | start seqId g => exact start_setColorDirect p c now h
  | control cmd g => rfl
  | updateParams seqId g t value ms => exact updateParams_setColorDirect p c seqId g t value now
  | setColor _ => exact h.elim
  | setPalette stops =>
      simp only [AnimationPlayer.handlePacket, AnimationPlayer.setPalette]
      split_ifs <;> rfl
  | setBaseColors colors => rfl
  | setGlobalBrightness value => rfl
  | setBackground _ => exact h.elim
  | turnOnOff on => rfl

end

/-! ### Moving a colour over what was captured later -/

/-- None of the packets, one after another, reads or writes the colour. -/
def KeepColor : LitPanel → List Record → Prop
  | _, [] => True
  | p, r :: rs => KeepsColor p.player r.packet ∧ KeepColor (p.handlePacket r.time r.packet) rs

def handleAll (rs : List Record) (p : LitPanel) : LitPanel :=
  rs.foldl (fun p r => p.handlePacket r.time r.packet) p

def setColor (p : LitPanel) (c : ColorRGB) : LitPanel :=
  { p with player := p.player.setColorDirect c }

theorem handlePacket_setColor {p : LitPanel} (c : ColorRGB) (now : Ticks)
    {packet : AnimationPacket} (h : KeepsColor p.player packet) :
    (setColor p c).handlePacket now packet = setColor (p.handlePacket now packet) c := by
  have hplayer := handlePacket_setColorDirect p.player c now h
  cases packet <;>
    first
    | rfl
    | simp only [LitPanel.handlePacket, setColor, hplayer]

theorem handleAll_setColor {p : LitPanel} {rs : List Record} (h : KeepColor p rs) (c : ColorRGB) :
    handleAll rs (setColor p c) = setColor (handleAll rs p) c := by
  induction rs generalizing p with
  | nil => rfl
  | cons r rs ih =>
      have hstep := ih h.2
      rw [← handlePacket_setColor c r.time h.1] at hstep
      exact hstep

/-- Of two colours around packets that leave it alone, the second may as well replace the first. -/
theorem handleAll_overwrite {p : LitPanel} {rs : List Record} {c d : ColorRGB}
    (h : KeepColor (setColor p c) rs) :
    setColor (handleAll rs (setColor p c)) d = handleAll rs (setColor p d) := by
  rw [← handleAll_setColor h]
  rfl

/-! ### The batch -/

section
variable {m : PacketMirror} {r : Record}

theorem overwrite_eq_some {p : Record → Bool} {rs rs' : List Record}
    (h : overwrite p r rs = some rs') :
    ∃ before e after, rs = before ++ e :: after ∧ p e = true ∧ (∀ d ∈ before, p d = false) ∧
      rs' = before ++ r :: after := by
  induction rs generalizing rs' with
  | nil => cases h
  | cons e rest ih =>
      rw [overwrite] at h
      by_cases he : p e = true
      · rw [if_pos he] at h
        cases h
        exact ⟨[], e, rest, rfl, he, by simp, rfl⟩
      · rw [if_neg he, Option.map_eq_some_iff] at h
        obtain ⟨rest', hrest, rfl⟩ := h
        obtain ⟨before, d, after, rfl, hd, hbefore, rfl⟩ := ih hrest
        refine ⟨e :: before, d, after, rfl, hd, fun c hc => ?_, rfl⟩
        rcases List.mem_cons.mp hc with rfl | hc
        · exact Bool.eq_false_iff.mpr he
        · exact hbefore c hc

theorem updateSnapshot_records : (m.updateSnapshot r).records = m.records := by
  unfold updateSnapshot
  split
  · rfl
  · split_ifs <;> rfl

theorem captureSnapshot_records : (m.captureSnapshot r).records = m.records := by
  unfold captureSnapshot
  dsimp only
  split_ifs
  · rw [updateSnapshot_records]
    split <;> rfl
  · split <;> rfl

/-- A capture overwrites a colour for the same address, appends its record, sends the batch before
it does, or drops the record. -/
theorem capture_cases :
    (packetType r.packet = .setColor ∧ ∃ before e after, m.records = before ++ e :: after ∧
        sameColor r e = true ∧ (∀ d ∈ before, sameColor r d = false) ∧
        (m.capture r).1.records = before ++ r :: after ∧ (m.capture r).2 = []) ∨
      ((m.capture r).1.records = m.records ++ [r] ∧ (m.capture r).2 = []) ∨
      ((m.capture r).1.records = [r] ∧ (m.capture r).2 = m.records) ∨
      (m.capture r).1.droppedCount ≠ 0 := by
  have hrecords : (m.captureSnapshot r).records = m.records := captureSnapshot_records
  unfold capture
  revert hrecords
  generalize m.captureSnapshot r = q
  intro hrecords
  rw [← hrecords]
  unfold captureRecord
  by_cases hover : ∃ rs,
      (if packetType r.packet = .setColor then overwrite (sameColor r) r q.records else none) =
        some rs
  · obtain ⟨rs, hrs⟩ := hover
    rw [hrs]
    split_ifs at hrs with hcolor
    obtain ⟨before, e, after, heq, he, hbefore, rfl⟩ := overwrite_eq_some hrs
    exact .inl ⟨hcolor, before, e, after, heq, he, hbefore, rfl, rfl⟩
  · rw [Option.eq_none_iff_forall_ne_some.mpr fun rs hrs => hover ⟨rs, hrs⟩]
    dsimp only
    split_ifs
    · exact .inr (.inl ⟨rfl, rfl⟩)
    · unfold flush
      by_cases hempty : q.records = []
      · rw [if_pos hempty]
        exact .inr (.inl ⟨rfl, rfl⟩)
      · rw [if_neg hempty]
        exact .inr (.inr (.inl ⟨rfl, rfl⟩))
    · exact .inr (.inr (.inr (Nat.succ_ne_zero _)))

theorem flush_records : (m.flush).1.records = [] ∧ (m.flush).2 = m.records := by
  unfold flush
  by_cases hempty : m.records = []
  · rw [if_pos hempty]
    exact ⟨hempty, hempty.symm⟩
  · rw [if_neg hempty]
    exact ⟨rfl, rfl⟩

end

/-! ### Runs -/

inductive MirrorEvent where
  | capture (r : Record)
  | flush

/-- The mirror, what it has sent, and what it was given. -/
structure Stream where
  mirror : PacketMirror
  sent : List Record
  captured : List Record

namespace Stream

def init (hasServer : Bool) : Stream := ⟨.init hasServer, [], []⟩

def step (s : Stream) : MirrorEvent → Stream
  | .capture r => ⟨(s.mirror.capture r).1, s.sent ++ (s.mirror.capture r).2, s.captured ++ [r]⟩
  | .flush => ⟨s.mirror.flush.1, s.sent ++ s.mirror.flush.2, s.captured⟩

def run (hasServer : Bool) (events : List MirrorEvent) : Stream :=
  events.foldl step (init hasServer)

/-- The colour overwrites no record that a later one in the batch depends on at this panel: none
sets the colour again or activates a step that takes it. -/
def Sound (i : Byte) (p : LitPanel) (s : Stream) (r : Record) : Prop :=
  packetType r.packet = .setColor → r.reaches i = true →
    ∀ before e after, s.mirror.records = before ++ e :: after → sameColor r e = true →
      (∀ d ∈ before, sameColor r d = false) →
      KeepColor (deliver i (s.sent ++ before ++ [e]) p) (received i after)

/-- A capture that is not dropped and overwrites soundly. -/
def Regular (i : Byte) (p : LitPanel) (s : Stream) : MirrorEvent → Prop
  | .capture r => (s.mirror.capture r).1.droppedCount = 0 ∧ Sound i p s r
  | .flush => True

section
variable {i : Byte} {p : LitPanel} {s : Stream} {r : Record}

theorem deliver_not_reached (h : r.reaches i = false) : deliver i [r] p = p := by
  rw [deliver, received, List.filter_cons_of_neg (by simpa using h)]
  rfl

theorem deliver_color {c : ColorRGB} (hreaches : r.reaches i = true)
    (hpacket : r.packet = .setColor c) : deliver i [r] p = setColor p c := by
  have hreceived : received i [r] = [r] := List.filter_cons_of_pos hreaches
  rw [deliver, hreceived, List.foldl_cons, List.foldl_nil, hpacket]
  rfl

theorem exists_color {packet : AnimationPacket} (h : packetType packet = .setColor) :
    ∃ c, packet = .setColor c := by
  cases packet with
  | setColor c => exact ⟨c, rfl⟩
  | _ => cases h

/-- The overwriting record does in place of the old one what it would do after the batch. -/
theorem deliver_overwrite {sent before after : List Record} {e : Record}
    (hcolor : packetType r.packet = .setColor) (hsame : sameColor r e = true)
    (hkeep : r.reaches i = true →
      KeepColor (deliver i (sent ++ before ++ [e]) p) (received i after)) :
    deliver i (sent ++ (before ++ r :: after)) p =
      deliver i (sent ++ (before ++ e :: after) ++ [r]) p := by
  obtain ⟨d, hd⟩ := exists_color hcolor
  rw [sameColor, Bool.and_eq_true, decide_eq_true_eq, decide_eq_true_eq] at hsame
  obtain ⟨c, hc⟩ := exists_color hsame.2
  have hsplit : ∀ x : Record, deliver i (sent ++ (before ++ x :: after)) p =
      deliver i after (deliver i [x] (deliver i (sent ++ before) p)) := fun x => by
    rw [← deliver_append, ← deliver_append]
    simp
  have hreach : e.reaches i = r.reaches i := by
    rw [Record.reaches, Record.reaches, hsame.1]
  rw [deliver_append _ _ [r], hsplit, hsplit]
  by_cases hr : r.reaches i = true
  · have hkeep' := hkeep hr
    rw [deliver_append, deliver_color (hreach.trans hr) hc] at hkeep'
    rw [deliver_color hr hd, deliver_color hr hd, deliver_color (hreach.trans hr) hc]
    exact (handleAll_overwrite hkeep').symm
  · have hr' : r.reaches i = false := Bool.eq_false_iff.mpr hr
    rw [deliver_not_reached hr', deliver_not_reached hr', deliver_not_reached (hreach.trans hr')]

/-- Sent and batched records together do what the captured ones do. -/
def Faithful (i : Byte) (p : LitPanel) (s : Stream) : Prop :=
  deliver i (s.sent ++ s.mirror.records) p = deliver i s.captured p

theorem Faithful.capture (h : Faithful i p s) (hdrop : (s.mirror.capture r).1.droppedCount = 0)
    (hsound : Sound i p s r) : Faithful i p (s.step (.capture r)) := by
  have hnext : deliver i (s.captured ++ [r]) p =
      deliver i (s.sent ++ s.mirror.records ++ [r]) p := by
    rw [deliver_append, ← h, ← deliver_append]
  change deliver i (s.sent ++ (s.mirror.capture r).2 ++ (s.mirror.capture r).1.records) p =
    deliver i (s.captured ++ [r]) p
  rw [hnext]
  rcases @capture_cases s.mirror r with
    ⟨hcolor, before, e, after, heq, hsame, hbefore, hrecords, hsent⟩ | ⟨hrecords, hsent⟩ |
      ⟨hrecords, hsent⟩ | hdropped
  · rw [hrecords, hsent, List.append_nil, heq]
    exact deliver_overwrite hcolor hsame fun hr =>
      hsound hcolor hr before e after heq hsame hbefore
  · rw [hrecords, hsent, List.append_nil, List.append_assoc]
  · rw [hrecords, hsent]
  · exact absurd hdrop hdropped

theorem Faithful.flush (h : Faithful i p s) : Faithful i p (s.step .flush) := by
  change deliver i (s.sent ++ s.mirror.flush.2 ++ s.mirror.flush.1.records) p = _
  rw [flush_records.1, flush_records.2, List.append_nil]
  exact h

theorem Faithful.step (h : Faithful i p s) {event : MirrorEvent} (hok : Regular i p s event) :
    Faithful i p (s.step event) := by
  cases event with
  | capture r => exact h.capture hok.1 hok.2
  | flush => exact h.flush

theorem run_faithful {hasServer : Bool} {events : List MirrorEvent}
    (h : Transition.Guarded step (Regular i p) (init hasServer) events) :
    Faithful i p (run hasServer events) :=
  have hinit : Faithful i p (init hasServer) := rfl
  (Transition.reachable_of_guarded events .refl h).invariant (Faithful i p)
    (fun _ _ hs hok => hs.step hok) hinit

/-- In a run without a drop whose overwrites are sound, what has been sent after a last flush does
to a panel what the captured packets do. -/
theorem deliver_sent_eq_deliver_captured (i : Byte) (p : LitPanel) (hasServer : Bool)
    (events : List MirrorEvent)
    (h : Transition.Guarded step (Regular i p) (init hasServer) events) :
    deliver i (run hasServer (events ++ [.flush])).sent p =
      deliver i (run hasServer (events ++ [.flush])).captured p := by
  have hrun : run hasServer (events ++ [.flush]) = (run hasServer events).step .flush := by
    rw [run, List.foldl_append]
    rfl
  rw [hrun]
  have hlast := (run_faithful h).flush
  rw [Faithful] at hlast
  rwa [Stream.step, flush_records.1, List.append_nil] at hlast

end

/-! ### A colour for all panels between two for one -/

def colorRecord (address : Byte) (c : ColorRGB) : Record := ⟨address, .setColor c, 0⟩

/-- The batch keeps the record of the first panel where it was. -/
def overlappingColors : List MirrorEvent :=
  [.capture (colorRecord 1 ⟨255, 0, 0⟩), .capture (colorRecord 0 ⟨0, 255, 0⟩),
    .capture (colorRecord 1 ⟨0, 0, 255⟩)]

theorem overlappingColors_differ :
    (∀ n ≤ 3, (run true (overlappingColors.take n)).mirror.droppedCount = 0) ∧
      (deliver 1 (run true (overlappingColors ++ [.flush])).sent .init).player.lastOutput =
        ⟨0, 255, 0⟩ ∧
      (deliver 1 (run true (overlappingColors ++ [.flush])).captured .init).player.lastOutput =
        ⟨0, 0, 255⟩ := by
  decide

/-- The colour between the two is for another panel. -/
def separateColors : List MirrorEvent :=
  [.capture (colorRecord 1 ⟨255, 0, 0⟩), .capture (colorRecord 2 ⟨0, 255, 0⟩),
    .capture (colorRecord 1 ⟨0, 0, 255⟩)]

theorem separateColors_delivered :
    deliver 1 (run true (separateColors ++ [.flush])).sent .init =
      deliver 1 (run true (separateColors ++ [.flush])).captured .init := by
  refine deliver_sent_eq_deliver_captured 1 .init true separateColors
    ⟨⟨by decide, fun _ _ before e after heq => ?_⟩, ⟨by decide, fun _ hreach => ?_⟩,
      ⟨by decide, fun _ _ before e after heq hsame hbefore => ?_⟩, trivial⟩
  · exact absurd heq.symm (by simp [init, PacketMirror.init])
  · exact absurd hreach (by decide)
  · have hrecords : before ++ e :: after =
        [colorRecord 1 ⟨255, 0, 0⟩, colorRecord 2 ⟨0, 255, 0⟩] := heq.symm
    cases before with
    | nil =>
        obtain ⟨-, rfl⟩ := List.cons.inj hrecords
        exact trivial
    | cons d before =>
        obtain ⟨rfl, -⟩ := List.cons.inj hrecords
        exact absurd (hbefore _ List.mem_cons_self) (by decide)

end Stream

end Lightnet.PacketMirror
