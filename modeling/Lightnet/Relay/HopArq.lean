import Lightnet.Relay.LinkArq

/-!
# One hop in time

The sender of a hop-acknowledged frame blocks until it has seen the acknowledgement or has sent the
frame three times. The receiver acknowledges every copy and dispatches those that its duplicate
memory does not know. Time is in microseconds; each end sees the milliseconds of its own clock.
-/

namespace Lightnet.LinkArq

def linkAckTimeoutMs : ℕ := 4

def linkRetransmits : ℕ := 2

def preambleByteCount : ℕ := 2

def maxPacketSize : ℕ := 80

abbrev maxEdges : ℕ := 3

/-- The edge it comes in on, the time of a byte, and how far the clocks of both ends are. -/
structure Hop where
  edge : Fin maxEdges
  byteUs : ℕ
  senderClock : ℕ
  receiverClock : ℕ

/-- A call to send a frame, `gapUs` after the last call has returned, and which copies of the frame
and of its acknowledgement are lost. -/
structure Send where
  gapUs : ℕ
  type : PacketType
  target : BitVec 16
  payload : List Byte
  dataLost : ℕ → Bool
  ackLost : ℕ → Bool

namespace Send

variable (f : Send)

def bytes : List Byte := frameBytes f.type f.target f.payload

def crc : BitVec 16 := crc16 f.bytes

/-- Whether the sender waits for an acknowledgement. -/
def awaitsAck : Bool := f.type.isLinkAckedType && f.bytes.length ≤ maxPacketSize

end Send

/-! ### The receiver -/

/-- What it has dispatched, and until when it sends an acknowledgement and cannot listen. -/
structure Receiver where
  dedup : LinkDedup maxEdges
  dispatched : List (List Byte)
  ackingUntil : ℕ

namespace Hop

variable (h : Hop)

/-- The time of a frame of this size on the wire. -/
def sendUs (size : ℕ) : ℕ := (preambleByteCount + size) * h.byteUs

def ackUs : ℕ := h.sendUs sizeofPacketLinkAck

def receiverMs (t : ℕ) : BitVec 32 := BitVec.ofNat 32 ((t + h.receiverClock) / 1000)

/-- Acknowledge first, then dispatch what is no duplicate. -/
def onFrame (f : Send) (r : Receiver) (t : ℕ) : Receiver :=
  if f.type.isLinkAckedType then
    let (dedup, duplicate) := r.dedup.checkAndNote h.edge f.crc (h.receiverMs t)
    { dedup
      dispatched := if duplicate then r.dispatched else r.dispatched ++ [f.bytes]
      ackingUntil := t + h.ackUs }
  else { r with dispatched := r.dispatched ++ [f.bytes] }

def hears (f : Send) (attempt t ackingUntil : ℕ) : Bool :=
  !f.dataLost attempt && decide (ackingUntil ≤ t)

/-! ### The sender -/

def senderMs (t : ℕ) : ℕ := (t + h.senderClock) / 1000

/-- The first instant at which `millis()` is `linkAckTimeoutMs` ahead of what it was at `t`. -/
def windowEnd (t : ℕ) : ℕ := 1000 * (h.senderMs t + linkAckTimeoutMs) - h.senderClock

/-- The bytes that arrive before the deadline when the first of them begins at `t`. -/
def bytesBefore (deadline : ℕ) : ℕ → List Byte → List Byte
  | _, [] => []
  | t, b :: bs => if t + h.byteUs < deadline then b :: bytesBefore deadline (t + h.byteUs) bs else []

/-- Whether the wait after a copy that has arrived at `t` ends with its acknowledgement. -/
def seesAck (f : Send) (attempt t : ℕ) (heard : Bool) : Bool :=
  heard && !f.ackLost attempt &&
    awaitLinkAck f.crc .reset (h.bytesBefore (h.windowEnd t) t
      (List.replicate preambleByteCount 0xFF ++ linkAckBytes f.crc))

structure Outcome where
  receiver : Receiver
  time : ℕ
  acked : Bool

/-- One copy, sent from `t` on. -/
def transmit (f : Send) (attempt t : ℕ) (r : Receiver) : Receiver × Bool :=
  let heard := hears f attempt t r.ackingUntil
  (if heard then h.onFrame f r (t + h.sendUs f.bytes.length) else r, heard)

/-- Wait after the copy that has arrived at `t`, and send another one as long as any remain. -/
def retry (f : Send) : ℕ → ℕ → ℕ → Receiver × Bool → Outcome
  | remaining, attempt, t, (r, heard) =>
    if h.seesAck f attempt t heard then ⟨r, t + h.ackUs, true⟩
    else
      match remaining with
      | 0 => ⟨r, h.windowEnd t, false⟩
      | n + 1 =>
        retry f n (attempt + 1) (h.windowEnd t + h.sendUs f.bytes.length)
          (h.transmit f (attempt + 1) (h.windowEnd t) r)

def sendOnEdge (f : Send) (t : ℕ) (r : Receiver) : Outcome :=
  let sent := h.transmit f 0 t r
  let t := t + h.sendUs f.bytes.length
  if !f.awaitsAck then ⟨sent.1, t, false⟩ else h.retry f linkRetransmits 0 t sent

/-! ### Runs -/

structure Link where
  time : ℕ
  receiver : Receiver

def Link.init : Link := ⟨0, ⟨.init, [], 0⟩⟩

def step (s : Link) (f : Send) : Link :=
  let o := h.sendOnEdge f (s.time + f.gapUs) s.receiver
  ⟨o.time, o.receiver⟩

def run (sends : List Send) : Link := sends.foldl h.step .init

/-- Each frame is dispatched at most once, and at least once if its sender saw it acknowledged. -/
def Delivers (sends : List Send) : Prop :=
  ∀ before f after, sends = before ++ f :: after →
    (h.run sends).receiver.dispatched.count f.bytes ≤ 1 ∧
      ((h.sendOnEdge f ((h.run before).time + f.gapUs) (h.run before).receiver).acked = true →
        1 ≤ (h.run sends).receiver.dispatched.count f.bytes)

/-! ### When copies arrive -/

/-- The arrivals of the copies heard after the one that has arrived at `t`. -/
def laterCopies (f : Send) : ℕ → ℕ → ℕ → Bool → ℕ → List ℕ
  | 0, _, _, _, _ => []
  | n + 1, attempt, t, heard, ackingUntil =>
    if h.seesAck f attempt t heard then []
    else
      let arrival := h.windowEnd t + h.sendUs f.bytes.length
      if hears f (attempt + 1) (h.windowEnd t) ackingUntil then
        arrival :: laterCopies f n (attempt + 1) arrival true (arrival + h.ackUs)
      else laterCopies f n (attempt + 1) arrival false ackingUntil

/-- The arrivals of the copies heard of a frame that is sent from `t` on. -/
def copies (f : Send) (t ackingUntil : ℕ) : List ℕ :=
  let arrival := t + h.sendUs f.bytes.length
  let retransmits := if f.awaitsAck then linkRetransmits else 0
  if hears f 0 t ackingUntil then
    arrival :: h.laterCopies f retransmits 0 arrival true (arrival + h.ackUs)
  else h.laterCopies f retransmits 0 arrival false ackingUntil

/-- The receiver still knows the frame when the next copy comes. -/
def InWindow (s t : ℕ) : Prop := h.receiverMs t - h.receiverMs s < linkDedupWindowMs

instance (s t : ℕ) : Decidable (h.InWindow s t) := inferInstanceAs (Decidable (_ < _))

/-- Copies that follow one another are inside the window. -/
def Timely (f : Send) (t ackingUntil : ℕ) : Prop :=
  f.type.isLinkAckedType = true → (h.copies f t ackingUntil).IsChain h.InWindow

/-! ### What one call does to the receiver -/

section
variable {h : Hop} {f : Send}

theorem onFrame_ackingUntil (hf : f.type.isLinkAckedType = true) (r : Receiver) (t : ℕ) :
    (h.onFrame f r t).ackingUntil = t + h.ackUs := by
  rw [onFrame, if_pos hf]

theorem onFrame_entry (hf : f.type.isLinkAckedType = true) (r : Receiver) (t : ℕ) :
    (h.onFrame f r t).dedup.entries h.edge = ⟨f.crc, h.receiverMs t, true⟩ := by
  rw [onFrame, if_pos hf, LinkDedup.checkAndNote, if_neg (Nat.not_le.mpr h.edge.isLt)]
  exact Function.update_self _ _ _

theorem onFrame_dispatched (hf : f.type.isLinkAckedType = true) (r : Receiver) (t : ℕ) :
    (h.onFrame f r t).dispatched =
      if r.dedup.duplicate h.edge f.crc (h.receiverMs t) then r.dispatched
      else r.dispatched ++ [f.bytes] := by
  rw [onFrame, if_pos hf, LinkDedup.checkAndNote, if_neg (Nat.not_le.mpr h.edge.isLt)]

theorem retry_receiver (hf : f.type.isLinkAckedType = true) (n attempt t : ℕ) (r : Receiver)
    (heard : Bool) :
    (h.retry f n attempt t (r, heard)).receiver =
      (h.laterCopies f n attempt t heard r.ackingUntil).foldl (h.onFrame f) r := by
  induction n generalizing attempt t r heard with
  | zero =>
      rw [retry, laterCopies]
      split_ifs <;> rfl
  | succ n ih =>
      rw [retry, laterCopies]
      by_cases hack : h.seesAck f attempt t heard = true
      · rw [if_pos hack, if_pos hack]
        rfl
      · rw [if_neg hack, if_neg hack, transmit]
        dsimp only
        by_cases hheard : hears f (attempt + 1) (h.windowEnd t) r.ackingUntil = true
        · rw [if_pos hheard, if_pos hheard, hheard, ih, onFrame_ackingUntil hf]
          rfl
        · rw [if_neg hheard, if_neg hheard, Bool.eq_false_iff.mpr hheard, ih]

theorem sendOnEdge_receiver (hf : f.type.isLinkAckedType = true) (t : ℕ) (r : Receiver) :
    (h.sendOnEdge f t r).receiver = (h.copies f t r.ackingUntil).foldl (h.onFrame f) r := by
  rw [sendOnEdge, copies, transmit]
  dsimp only
  by_cases hawaits : f.awaitsAck = true
  · rw [hawaits, if_neg (by simp), if_pos rfl]
    by_cases hheard : hears f 0 t r.ackingUntil = true
    · rw [if_pos hheard, if_pos hheard, hheard, retry_receiver hf, onFrame_ackingUntil hf]
      rfl
    · rw [if_neg hheard, if_neg hheard, Bool.eq_false_iff.mpr hheard, retry_receiver hf]
  · rw [Bool.not_eq_true] at hawaits
    simp only [hawaits, Bool.not_false, if_true, Bool.false_eq_true, if_false, laterCopies]
    split_ifs <;> rfl

/-- A frame that is not acknowledged is dispatched when it is heard. -/
theorem sendOnEdge_of_not_acked (hf : f.type.isLinkAckedType = false) (t : ℕ) (r : Receiver) :
    h.sendOnEdge f t r =
      ⟨if hears f 0 t r.ackingUntil then { r with dispatched := r.dispatched ++ [f.bytes] } else r,
        t + h.sendUs f.bytes.length, false⟩ := by
  have hawaits : f.awaitsAck = false := by rw [Send.awaitsAck, hf, Bool.false_and]
  rw [sendOnEdge, transmit, hawaits, if_pos (by rfl)]
  simp only [onFrame, hf, Bool.false_eq_true, if_false]

theorem retry_acked {n attempt t : ℕ} {r : Receiver} {heard : Bool}
    (h' : (h.retry f n attempt t (r, heard)).acked = true) :
    heard = true ∨ h.laterCopies f n attempt t heard r.ackingUntil ≠ [] := by
  induction n generalizing attempt t r heard with
  | zero =>
      rw [retry] at h'
      by_cases hack : h.seesAck f attempt t heard = true
      · simp only [seesAck, Bool.and_eq_true] at hack
        exact .inl hack.1.1
      · rw [if_neg hack] at h'
        cases h'
  | succ n ih =>
      rw [retry] at h'
      by_cases hack : h.seesAck f attempt t heard = true
      · simp only [seesAck, Bool.and_eq_true] at hack
        exact .inl hack.1.1
      · rw [if_neg hack, transmit] at h'
        rw [laterCopies, if_neg hack]
        dsimp only at h' ⊢
        by_cases hheard : hears f (attempt + 1) (h.windowEnd t) r.ackingUntil = true
        · rw [if_pos hheard]
          exact .inr (List.cons_ne_nil _ _)
        · rw [if_neg hheard, Bool.eq_false_iff.mpr hheard] at h'
          rw [if_neg hheard]
          exact .inr ((ih h').resolve_left (by simp))

theorem copies_ne_nil_of_acked {t : ℕ} {r : Receiver}
    (hacked : (h.sendOnEdge f t r).acked = true) : h.copies f t r.ackingUntil ≠ [] := by
  rw [sendOnEdge, transmit] at hacked
  rw [copies]
  dsimp only at hacked ⊢
  by_cases hheard : hears f 0 t r.ackingUntil = true
  · rw [if_pos hheard]
    exact List.cons_ne_nil _ _
  · rw [if_neg hheard, Bool.eq_false_iff.mpr hheard] at hacked
    rw [if_neg hheard]
    by_cases hawaits : f.awaitsAck = true
    · rw [hawaits, if_neg (by simp)] at hacked
      rw [if_pos hawaits]
      exact (retry_acked hacked).resolve_left (by simp)
    · rw [Bool.eq_false_iff.mpr hawaits, if_pos (by simp)] at hacked
      cases hacked

/-! ### How often one frame is dispatched -/

/-- How many copies come when the receiver has forgotten the copy before. -/
def forgotten (h : Hop) : ℕ → List ℕ → ℕ
  | _, [] => 0
  | s, t :: ts => (if h.InWindow s t then 0 else 1) + forgotten h t ts

theorem forgotten_eq_zero_iff (s : ℕ) (ts : List ℕ) :
    h.forgotten s ts = 0 ↔ (s :: ts).IsChain h.InWindow := by
  induction ts generalizing s with
  | nil => simp [forgotten]
  | cons t ts ih =>
      rw [forgotten, List.isChain_cons_cons, ← ih]
      by_cases hwindow : h.InWindow s t
      · rw [if_pos hwindow]
        simp [hwindow]
      · rw [if_neg hwindow]
        simp [hwindow]

theorem count_dispatched_known (hf : f.type.isLinkAckedType = true) {s : ℕ} {r : Receiver}
    (hentry : r.dedup.entries h.edge = ⟨f.crc, h.receiverMs s, true⟩) (ts : List ℕ) :
    (ts.foldl (h.onFrame f) r).dispatched.count f.bytes =
      r.dispatched.count f.bytes + h.forgotten s ts := by
  induction ts generalizing s r with
  | nil => rfl
  | cons t ts ih =>
      have hduplicate : r.dedup.duplicate h.edge f.crc (h.receiverMs t) =
          decide (h.InWindow s t) := by
        rw [LinkDedup.duplicate, hentry]
        dsimp only
        rw [beq_self_eq_true, Bool.true_and, Bool.true_and]
        exact decide_eq_decide.mpr Iff.rfl
      rw [List.foldl_cons, ih (onFrame_entry hf r t), onFrame_dispatched hf, hduplicate, forgotten]
      by_cases hwindow : h.InWindow s t
      · rw [if_pos (decide_eq_true hwindow), if_pos hwindow, Nat.zero_add]
      · rw [if_neg (by simpa using hwindow), if_neg hwindow, List.count_append,
          List.count_singleton_self, Nat.add_assoc]

/-- The receiver does not take the frame for a duplicate. -/
def Fresh (h : Hop) (f : Send) (r : Receiver) : Prop :=
  f.bytes ∉ r.dispatched ∧
    ((r.dedup.entries h.edge).armed = true → (r.dedup.entries h.edge).frameCrc ≠ f.crc)

theorem Fresh.count_dispatched {r : Receiver} (hr : Fresh h f r)
    (hf : f.type.isLinkAckedType = true) {s : ℕ} {ts : List ℕ} :
    ((s :: ts).foldl (h.onFrame f) r).dispatched.count f.bytes = 1 + h.forgotten s ts := by
  have hduplicate : r.dedup.duplicate h.edge f.crc (h.receiverMs s) = false := by
    rw [Bool.eq_false_iff]
    intro hdup
    simp only [LinkDedup.duplicate, Bool.and_eq_true, beq_iff_eq] at hdup
    exact hr.2 hdup.1.1 hdup.1.2
  rw [List.foldl_cons, count_dispatched_known hf (onFrame_entry hf r s), onFrame_dispatched hf,
    hduplicate, if_neg Bool.false_ne_true, List.count_append, List.count_singleton_self,
    List.count_eq_zero_of_not_mem hr.1, Nat.zero_add]

/-- After one call for a fresh frame. -/
theorem Fresh.sendOnEdge {r : Receiver} (hr : Fresh h f r) (t : ℕ) :
    ((h.sendOnEdge f t r).receiver.dispatched.count f.bytes ≤ 1 ↔
        h.Timely f t r.ackingUntil) ∧
      ((h.sendOnEdge f t r).acked = true →
        1 ≤ (h.sendOnEdge f t r).receiver.dispatched.count f.bytes) := by
  have hnone : r.dispatched.count f.bytes = 0 := List.count_eq_zero_of_not_mem hr.1
  by_cases hf : f.type.isLinkAckedType = true
  · have hcopies : h.copies f t r.ackingUntil = [] ∨
        ∃ s ts, h.copies f t r.ackingUntil = s :: ts := by
      cases h.copies f t r.ackingUntil with
      | nil => exact .inl rfl
      | cons s ts => exact .inr ⟨s, ts, rfl⟩
    rcases hcopies with hnil | ⟨s, ts, hcons⟩
    · refine ⟨?_, fun hacked => absurd hnil (copies_ne_nil_of_acked hacked)⟩
      rw [sendOnEdge_receiver hf, Timely, hnil, List.foldl_nil, hnone]
      simp
    · rw [sendOnEdge_receiver hf, Timely, hcons, hr.count_dispatched hf,
        ← forgotten_eq_zero_iff]
      refine ⟨⟨fun hle _ => by omega, fun hzero => by rw [hzero hf]⟩, fun _ => by omega⟩
  · rw [Bool.not_eq_true] at hf
    rw [sendOnEdge_of_not_acked hf, Timely, hf]
    refine ⟨⟨fun _ hfalse => absurd hfalse (by simp), fun _ => ?_⟩, fun hacked => by cases hacked⟩
    dsimp only
    split_ifs
    · rw [List.count_append, List.count_singleton_self, hnone]
    · omega

end

/-! ### Runs -/

section
variable {h : Hop}

theorem run_append (sends later : List Send) :
    h.run (sends ++ later) = later.foldl h.step (h.run sends) := List.foldl_append ..

theorem run_snoc (sends : List Send) (f : Send) :
    h.run (sends ++ [f]) = h.step (h.run sends) f := by
  rw [run_append]
  rfl

/-- What one call adds to the receiver's memory. -/
structure Adds (h : Hop) (f : Send) (r r' : Receiver) : Prop where
  dispatched : ∀ b, b ≠ f.bytes → r'.dispatched.count b = r.dispatched.count b
  entry : r'.dedup.entries h.edge = r.dedup.entries h.edge ∨
    (r'.dedup.entries h.edge).frameCrc = f.crc

theorem Adds.refl (f : Send) (r : Receiver) : Adds h f r r := ⟨fun _ _ => rfl, .inl rfl⟩

theorem Adds.onFrame {f : Send} {r r' : Receiver} (hadds : Adds h f r r') (t : ℕ) :
    Adds h f r (h.onFrame f r' t) := by
  by_cases hf : f.type.isLinkAckedType = true
  · refine ⟨fun b hb => ?_, .inr ?_⟩
    · rw [onFrame_dispatched hf]
      split_ifs
      · exact hadds.dispatched b hb
      · rw [List.count_append, List.count_singleton, hadds.dispatched b hb,
          if_neg (by simpa using Ne.symm hb), Nat.add_zero]
    · rw [onFrame_entry hf]
  · rw [Hop.onFrame, if_neg hf]
    refine ⟨fun b hb => ?_, hadds.entry⟩
    rw [List.count_append, List.count_singleton, hadds.dispatched b hb,
      if_neg (by simpa using Ne.symm hb), Nat.add_zero]

theorem adds_sendOnEdge (f : Send) (t : ℕ) (r : Receiver) :
    Adds h f r (h.sendOnEdge f t r).receiver := by
  by_cases hf : f.type.isLinkAckedType = true
  · rw [sendOnEdge_receiver hf]
    generalize h.copies f t r.ackingUntil = ts
    have hfold : ∀ (ts : List ℕ) (r' : Receiver), Adds h f r r' →
        Adds h f r (ts.foldl (h.onFrame f) r') := by
      intro ts
      induction ts with
      | nil => exact fun r' hr' => hr'
      | cons s ts ih => exact fun r' hr' => ih _ (hr'.onFrame s)
    exact hfold ts r (.refl f r)
  · rw [Bool.not_eq_true] at hf
    rw [sendOnEdge_of_not_acked hf]
    split_ifs
    · have hadds := (Adds.refl (h := h) f r).onFrame t
      rwa [onFrame, hf, if_neg Bool.false_ne_true] at hadds
    · exact .refl f r

/-- All that the receiver knows is from the frames that were sent. -/
structure Known (h : Hop) (sends : List Send) (r : Receiver) : Prop where
  dispatched : ∀ b ∈ r.dispatched, b ∈ sends.map Send.bytes
  entry : (r.dedup.entries h.edge).armed = true →
    (r.dedup.entries h.edge).frameCrc ∈ sends.map Send.crc

theorem run_known (sends : List Send) : Known h sends (h.run sends).receiver := by
  induction sends using List.reverseRecOn with
  | nil =>
      refine ⟨fun b hb => ?_, fun harmed => ?_⟩
      · cases hb
      · cases harmed
  | append_singleton sends f ih =>
      have hadds := adds_sendOnEdge (h := h) f ((h.run sends).time + f.gapUs)
        (h.run sends).receiver
      rw [run_snoc]
      refine ⟨fun b hb => ?_, fun harmed => ?_⟩ <;> rw [List.map_append]
      · by_cases hbytes : b = f.bytes
        · rw [hbytes]
          simp
        · have hcount := hadds.dispatched b hbytes
          have hpos := List.count_pos_iff.mpr hb
          rw [Hop.step, hcount] at hpos
          exact List.mem_append_left _ (ih.dispatched b (List.count_pos_iff.mp hpos))
      · rcases hadds.entry with hentry | hentry
        · rw [Hop.step] at harmed ⊢
          rw [hentry] at harmed ⊢
          exact List.mem_append_left _ (ih.entry harmed)
        · rw [Hop.step, hentry]
          simp

theorem count_run_append (sends later : List Send) {b : List Byte}
    (hb : b ∉ later.map Send.bytes) :
    (h.run (sends ++ later)).receiver.dispatched.count b =
      (h.run sends).receiver.dispatched.count b := by
  induction later using List.reverseRecOn with
  | nil => rw [List.append_nil]
  | append_singleton later f ih =>
      rw [List.map_append, List.mem_append, not_or] at hb
      have hne : b ≠ f.bytes := by simpa using hb.2
      rw [← List.append_assoc, run_snoc, Hop.step, ← ih hb.1]
      exact (adds_sendOnEdge f _ _).dispatched b hne

/-- Frames of different CRCs are delivered in every run whose copies are timely, and in no
other. -/
theorem delivers_iff (h : Hop) (sends : List Send) (hcrc : (sends.map Send.crc).Nodup) :
    h.Delivers sends ↔ ∀ before f after, sends = before ++ f :: after →
      h.Timely f ((h.run before).time + f.gapUs) (h.run before).receiver.ackingUntil := by
  have hframe : ∀ before f after, sends = before ++ f :: after →
      ((h.run sends).receiver.dispatched.count f.bytes ≤ 1 ↔
        h.Timely f ((h.run before).time + f.gapUs) (h.run before).receiver.ackingUntil) ∧
      ((h.sendOnEdge f ((h.run before).time + f.gapUs) (h.run before).receiver).acked = true →
        1 ≤ (h.run sends).receiver.dispatched.count f.bytes) := by
    rintro before f after rfl
    rw [List.map_append, List.map_cons, List.nodup_middle, List.nodup_cons, List.mem_append,
      not_or] at hcrc
    obtain ⟨⟨hbefore, hafter⟩, -⟩ := hcrc
    have hknown := run_known (h := h) before
    have hfresh : Fresh h f (h.run before).receiver := by
      refine ⟨fun hmem => hbefore ?_, fun harmed heq => hbefore ?_⟩
      · obtain ⟨g, hg, hbytes⟩ := List.mem_map.mp (hknown.dispatched _ hmem)
        refine List.mem_map.mpr ⟨g, hg, ?_⟩
        rw [Send.crc, Send.crc, hbytes]
      · rw [← heq]
        exact hknown.entry harmed
    have hother : f.bytes ∉ after.map Send.bytes := fun hmem => hafter (by
      obtain ⟨g, hg, hbytes⟩ := List.mem_map.mp hmem
      refine List.mem_map.mpr ⟨g, hg, ?_⟩
      rw [Send.crc, Send.crc, hbytes])
    have hsplit : before ++ f :: after = (before ++ [f]) ++ after := by simp
    rw [hsplit, count_run_append _ _ hother, run_snoc]
    exact hfresh.sendOnEdge _
  refine ⟨fun hdelivers before f after hsends => ?_, fun htimely before f after hsends => ?_⟩
  · exact (hframe before f after hsends).1.mp (hdelivers before f after hsends).1
  · exact ⟨(hframe before f after hsends).1.mpr (htimely before f after hsends),
      (hframe before f after hsends).2⟩

end

/-! ### The palette and the duplicate window -/

/-- A panel's edge at 250 kbaud, ten bits a byte. -/
def edgeHop (senderClock receiverClock : ℕ) : Hop := ⟨0, 40, senderClock, receiverClock⟩

theorem inWindow_of_le {h : Hop} {s t : ℕ} (hle : s ≤ t) (ht : t ≤ s + 11000) :
    h.InWindow s t := by
  have hdiv : (s + h.receiverClock) / 1000 ≤ (t + h.receiverClock) / 1000 :=
    Nat.div_le_div_right (by omega)
  have hlate : (t + h.receiverClock) / 1000 < (s + h.receiverClock) / 1000 + 12 := by omega
  rw [InWindow, receiverMs, receiverMs, linkDedupWindowMs]
  generalize (s + h.receiverClock) / 1000 = a at hdiv hlate
  generalize (t + h.receiverClock) / 1000 = b at hdiv hlate
  obtain ⟨d, rfl⟩ := Nat.exists_eq_add_of_le hdiv
  rw [BitVec.ofNat_add, BitVec.add_comm, BitVec.add_sub_cancel, BitVec.lt_def, BitVec.toNat_ofNat]
  have hd : d % 2 ^ 32 ≤ d := Nat.mod_le _ _
  have htwelve : (12 : BitVec 32).toNat = 12 := rfl
  omega

/-- The arrivals of the copies after the one that has arrived at `t`, if no acknowledgement is
seen. -/
def arrivals (h : Hop) (f : Send) : ℕ → ℕ → List ℕ
  | 0, _ => []
  | n + 1, t =>
    let arrival := h.windowEnd t + h.sendUs f.bytes.length
    arrival :: arrivals h f n arrival

theorem laterCopies_sublist (h : Hop) (f : Send) (n attempt t : ℕ) (heard : Bool)
    (ackingUntil : ℕ) :
    (h.laterCopies f n attempt t heard ackingUntil).Sublist (h.arrivals f n t) := by
  induction n generalizing attempt t heard ackingUntil with
  | zero => exact List.Sublist.refl _
  | succ n ih =>
      rw [laterCopies, arrivals]
      dsimp only
      split_ifs
      · exact List.nil_sublist _
      · exact (ih _ _ _ _).cons_cons _
      · exact (ih _ _ _ _).cons _

theorem copies_sublist (h : Hop) (f : Send) (t ackingUntil : ℕ) :
    (h.copies f t ackingUntil).Sublist
      ((t + h.sendUs f.bytes.length) ::
        h.arrivals f linkRetransmits (t + h.sendUs f.bytes.length)) := by
  rw [copies]
  split_ifs
  · exact (laterCopies_sublist ..).cons_cons _
  · exact (List.nil_sublist _).cons_cons _
  · exact (laterCopies_sublist ..).cons _
  · exact List.nil_sublist _

/-- At 250 kbaud every copy of a frame of at most 47 bytes is timely, whatever is lost. -/
theorem timely_of_short {senderClock receiverClock : ℕ} {f : Send} (hlen : f.bytes.length ≤ 47)
    (t ackingUntil : ℕ) : (edgeHop senderClock receiverClock).Timely f t ackingUntil := by
  intro _
  have hsend : (edgeHop senderClock receiverClock).sendUs f.bytes.length ≤ 1960 := by
    simp only [sendUs, edgeHop, preambleByteCount]
    omega
  generalize edgeHop senderClock receiverClock = h at hsend ⊢
  refine List.Pairwise.isChain (List.Pairwise.sublist (copies_sublist h f t ackingUntil) ?_)
  have hend : ∀ u, h.windowEnd u = 1000 * ((u + h.senderClock) / 1000 + 4) - h.senderClock :=
    fun _ => rfl
  simp only [linkRetransmits, arrivals, List.pairwise_cons, List.mem_cons, List.not_mem_nil,
    or_false, forall_eq_or_imp, forall_eq, false_implies, implies_true, List.Pairwise.nil,
    and_true]
  generalize h.sendUs f.bytes.length = d at hsend ⊢
  have hfirst := hend (t + d)
  generalize h.windowEnd (t + d) = w at hfirst ⊢
  have hsecond := hend (w + d)
  generalize h.windowEnd (w + d) = w' at hsecond ⊢
  refine ⟨⟨inWindow_of_le ?_ ?_, inWindow_of_le ?_ ?_⟩, inWindow_of_le ?_ ?_⟩ <;> omega

/-- All stops of a palette, 72 bytes with the header. Its second copy is lost, and so are the
acknowledgements of the others. -/
def lostPalette : Send where
  gapUs := 0
  type := .setPalette
  target := 1
  payload := List.replicate 65 0
  dataLost attempt := attempt = 1
  ackLost _ := true

theorem lostPalette_dispatched_twice :
    lostPalette.bytes.length = 72 ∧
      ((edgeHop 0 0).run [lostPalette]).receiver.dispatched.count lostPalette.bytes = 2 := by
  decide +kernel

/-- Two commands for a panel, the copies of the first lost but for the last. -/
def lostCommands : List Send :=
  [{ gapUs := 0, type := .turnOnOff, target := 1, payload := [1],
     dataLost attempt := attempt < 2, ackLost _ := true },
    { gapUs := 500, type := .turnOnOff, target := 1, payload := [0],
      dataLost _ := false, ackLost _ := false }]

theorem lostCommands_delivered : (edgeHop 0 300).Delivers lostCommands := by
  refine (delivers_iff (edgeHop 0 300) lostCommands (by decide +kernel)).mpr
    fun before f after hsends => timely_of_short ?_ _ _
  have hshort : ∀ f ∈ lostCommands, f.bytes.length ≤ 47 := by decide +kernel
  exact hshort f (by rw [hsends]; simp)

end Hop

end Lightnet.LinkArq
