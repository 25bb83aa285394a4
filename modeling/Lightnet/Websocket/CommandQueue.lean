import Lightnet.Queues.CircularQueue
import Lightnet.Websocket.Commands

/-!
# Commands on their way to the main loop

The network task puts a client's messages into one queue while the main loop takes those of the
other one. When the main loop comes back for more, the two are swapped, and the emptied one starts
from its beginning again. Every message that was taken in is handled once, in the order in which the
messages came.
-/

namespace Lightnet

open WebsocketApi

namespace CircularQueue

def reset (q : CircularQueue) : CircularQueue :=
  { q with softTail := q.bufferSize, readPointer := 0, writePointer := 0, itemsCount := 0 }

theorem Stores.reset {q : CircularQueue} {records : List (ℕ × List Byte)} (h : q.Stores records) :
    q.reset.Stores [] :=
  ⟨h.length_memory, h.bufferSize_lt, rfl, .inl ⟨rfl, Nat.zero_le _, rfl⟩⟩

end CircularQueue

/-- A frame of a client as the network library hands it over. -/
structure WebsocketFrame where
  clientId : ClientId
  final : Bool
  index : ℕ
  len : ℕ
  binary : Bool
  data : List Byte

/-- The two queues of the server, and how far the main loop is with what it has fetched. What came
of a message is undefined when the handler reads beyond it. -/
structure CommandLoop where
  cmdQueue : CircularQueue
  executionQueue : CircularQueue
  draining : Bool
  outcomes : List (Option Outcome)

namespace CommandLoop

def queueSize : BitVec 16 := 1000

def maxIncomingFrameSize : ℕ := 256

def init : CommandLoop := ⟨.create queueSize, .create queueSize, false, []⟩

/-- The size is passed on as a 16 bit number. -/
def payloadOf (data : List Byte) : List Byte := data.take (data.length % 65536)

theorem length_messageBytes (clientId : ClientId) (payload : List Byte) :
    (messageBytes clientId payload).length = sizeofMessage + payload.length := by
  simp only [messageBytes, List.length_append, ReflectedCrc.leBytes, List.length_cons,
    List.length_nil, sizeofMessage]
  omega

theorem length_messageBytes_lt (clientId : ClientId) {payload : List Byte}
    (h : payload.length ≤ maxIncomingFrameSize) :
    (messageBytes clientId payload).length < 65536 := by
  rw [length_messageBytes]
  unfold sizeofMessage
  unfold maxIncomingFrameSize at h
  omega

def onMessage (s : CommandLoop) (clientId : ClientId) (payload : List Byte) : CommandLoop :=
  if h : payload.length ≤ maxIncomingFrameSize then
    { s with
      cmdQueue := (s.cmdQueue.enqueue
        ⟨messageBytes clientId payload, length_messageBytes_lt clientId h⟩).1 }
  else s

def onEvent (s : CommandLoop) (frame : WebsocketFrame) : CommandLoop :=
  if frame.final ∧ frame.index = 0 ∧ frame.len = frame.data.length ∧ frame.binary then
    s.onMessage frame.clientId (payloadOf frame.data)
  else s

def getIncommingMessages (s : CommandLoop) : CommandLoop :=
  { s with cmdQueue := s.executionQueue.reset, executionQueue := s.cmdQueue }

/-- The main loop comes by and fetches the messages, unless it is still busy with some. -/
def fetch (s : CommandLoop) : CommandLoop :=
  if s.draining then s
  else
    let s := s.getIncommingMessages
    { s with draining := s.executionQueue.itemsCount ≠ 0 }

def handleNext (s : CommandLoop) : CommandLoop :=
  if s.draining then
    match s.executionQueue.dequeue with
    | (executionQueue, none) => { s with executionQueue, draining := false }
    | (executionQueue, some record) =>
      { s with
        executionQueue
        outcomes := s.outcomes ++ [WebsocketHandler.handleMessage record.2 record.2.length] }
  else s

/-- The network task runs in between, under the lock of the queue. -/
inductive Event where
  | frame (frame : WebsocketFrame)
  | fetch
  | handleNext

def step (s : CommandLoop) : Event → CommandLoop
  | .frame frame => s.onEvent frame
  | .fetch => s.fetch
  | .handleNext => s.handleNext

def run (events : List Event) : CommandLoop := events.foldl step init

def takes (s : CommandLoop) (frame : WebsocketFrame) : Bool :=
  if frame.final ∧ frame.index = 0 ∧ frame.len = frame.data.length ∧ frame.binary then
    if h : (payloadOf frame.data).length ≤ maxIncomingFrameSize then
      (s.cmdQueue.enqueue
        ⟨messageBytes frame.clientId (payloadOf frame.data),
          length_messageBytes_lt frame.clientId h⟩).2
    else false
  else false

/-- The message that an event brings into the queue. -/
def arrival (s : CommandLoop) : Event → List (ClientId × List Byte)
  | .frame frame => if s.takes frame then [(frame.clientId, payloadOf frame.data)] else []
  | .fetch => []
  | .handleNext => []

def arrivedFrom (s : CommandLoop) : List Event → List (ClientId × List Byte)
  | [] => []
  | event :: events => s.arrival event ++ (s.step event).arrivedFrom events

def arrived (events : List Event) : List (ClientId × List Byte) := init.arrivedFrom events

/-- How often the main loop asks for a message. -/
def turns : List Event → ℕ
  | [] => 0
  | .handleNext :: events => turns events + 1
  | _ :: events => turns events

end CommandLoop

/-! ### What the queues are for -/

/-- The messages that wait, those that the main loop has fetched, and those that it has handled. -/
structure Inbox where
  waiting : List (ClientId × List Byte)
  fetched : List (ClientId × List Byte)
  handled : List (ClientId × List Byte)
  draining : Bool

namespace Inbox

def init : Inbox := ⟨[], [], [], false⟩

/-- The place of a message, which is stored with its length. -/
def room (m : ClientId × List Byte) : ℕ := 2 + (sizeofMessage + m.2.length)

def message (m : ClientId × List Byte) : List Byte := messageBytes m.1 m.2

/-- A message in one frame, not too long, is taken in while there is room. -/
def Accepts (i : Inbox) (frame : WebsocketFrame) : Prop :=
  (frame.final ∧ frame.index = 0 ∧ frame.len = frame.data.length ∧ frame.binary) ∧
    (CommandLoop.payloadOf frame.data).length ≤ CommandLoop.maxIncomingFrameSize ∧
    (i.waiting.map room).sum + room (frame.clientId, CommandLoop.payloadOf frame.data) ≤ 1000

instance (i : Inbox) (frame : WebsocketFrame) : Decidable (i.Accepts frame) :=
  inferInstanceAs (Decidable (_ ∧ _ ∧ _))

def step (i : Inbox) : CommandLoop.Event → Inbox
  | .frame frame =>
    if i.Accepts frame then
      { i with waiting := i.waiting ++ [(frame.clientId, CommandLoop.payloadOf frame.data)] }
    else i
  | .fetch =>
    if i.draining then i
    else { i with waiting := [], fetched := i.waiting, draining := i.waiting ≠ [] }
  | .handleNext =>
    if i.draining then
      match i.fetched with
      | [] => { i with draining := false }
      | m :: fetched => { i with fetched, handled := i.handled ++ [m] }
    else i

def run (events : List CommandLoop.Event) : Inbox := events.foldl step init

end Inbox

/-! ### One queue between two swaps -/

/-- From its beginning on, the queue holds these messages. -/
structure CircularQueue.Filled (q : CircularQueue) (messages : List (ClientId × List Byte)) :
    Prop where
  bufferSize : q.bufferSize = 1000
  readPointer : q.readPointer = 0
  softTail : q.softTail = q.bufferSize
  writePointer : q.writePointer = (messages.map Inbox.room).sum
  stores : ∃ records, q.Stores records ∧ records.map Prod.snd = messages.map Inbox.message

/-- The main loop has still to take these messages out of the queue. -/
def CircularQueue.Holds (q : CircularQueue) (messages : List (ClientId × List Byte)) : Prop :=
  q.bufferSize = 1000 ∧
    ∃ records, q.Stores records ∧ records.map Prod.snd = messages.map Inbox.message

namespace CircularQueue

theorem Filled.holds {q : CircularQueue} {messages : List (ClientId × List Byte)}
    (h : q.Filled messages) : q.Holds messages := ⟨h.bufferSize, h.stores⟩

theorem Holds.itemsCount {q : CircularQueue} {messages : List (ClientId × List Byte)}
    (h : q.Holds messages) : q.itemsCount = messages.length := by
  obtain ⟨-, records, hstores, hmessages⟩ := h
  have hlength := congrArg List.length hmessages
  rw [List.length_map, List.length_map] at hlength
  rw [hstores.count, hlength]

theorem Holds.reset {q : CircularQueue} (h : q.Holds []) : q.reset.Filled [] := by
  obtain ⟨hsize, records, hstores, -⟩ := h
  exact ⟨hsize, rfl, rfl, rfl, [], hstores.reset, rfl⟩

theorem dequeue_bufferSize (q : CircularQueue) : q.dequeue.1.bufferSize = q.bufferSize := by
  unfold dequeue readData unwrapped
  split_ifs <;> rfl

theorem create_filled : (create CommandLoop.queueSize).Filled [] :=
  ⟨rfl, rfl, rfl, rfl, [], create_stores _, rfl⟩

theorem Filled.enqueue_room {q : CircularQueue} {messages : List (ClientId × List Byte)}
    (h : q.Filled messages) (data : ByteRecord) :
    (q.writePointer + (2 + data.bytes.length) ≤ 1000 ∧
        q.enqueue data = (q.counted.writeData data, true)) ∨
      (¬ q.writePointer + (2 + data.bytes.length) ≤ 1000 ∧ q.enqueue data = (q, false)) := by
  have hnotFull : ¬ (q.writePointer = q.readPointer ∧ q.itemsCount ≠ 0) := by
    rintro ⟨hempty, hsome⟩
    rw [h.readPointer, h.writePointer] at hempty
    have hlength := h.holds.itemsCount
    cases messages with
    | nil => exact hsome hlength
    | cons m messages =>
        rw [List.map_cons, List.sum_cons, Inbox.room] at hempty
        omega
  have hread : q.readPointer ≤ q.writePointer := by rw [h.readPointer]; exact Nat.zero_le _
  have hsize := h.bufferSize
  have hstart := h.readPointer
  unfold enqueue
  dsimp only
  rw [if_neg hnotFull, if_pos hread]
  by_cases hroom : q.writePointer + (2 + data.bytes.length) ≤ 1000
  · left
    exact ⟨hroom, by rw [if_neg (by omega), if_neg (by omega)]⟩
  · right
    exact ⟨hroom, if_pos (by omega)⟩

theorem Filled.enqueue {q : CircularQueue} {messages : List (ClientId × List Byte)}
    (h : q.Filled messages) {m : ClientId × List Byte} {data : ByteRecord}
    (hdata : data.bytes = Inbox.message m) :
    (q.enqueue data).1.Filled (if (messages.map Inbox.room).sum + Inbox.room m ≤ 1000 then
      messages ++ [m] else messages) := by
  have hlength : 2 + data.bytes.length = Inbox.room m := by
    rw [hdata, Inbox.message, CommandLoop.length_messageBytes, Inbox.room]
  obtain ⟨records, hstores, hmessages⟩ := h.stores
  rcases h.enqueue_room data with ⟨hroom, hput⟩ | ⟨hroom, hrefused⟩
  · rw [hlength, h.writePointer] at hroom
    rw [if_pos hroom]
    rcases enqueue_cases hstores data with hno | ⟨q', address, hyes, hstores'⟩
    · rw [hput] at hno
      exact absurd (congrArg Prod.snd hno) (fun heq => Bool.false_ne_true heq.symm)
    · rw [hput] at hyes ⊢
      obtain ⟨rfl, -⟩ := Prod.mk.inj hyes
      refine ⟨h.bufferSize, h.readPointer, h.softTail, ?_, _, hstores', ?_⟩
      · change q.writePointer + 2 + data.bytes.length = _
        rw [List.map_append, List.sum_append, List.map_singleton, List.sum_singleton,
          ← h.writePointer, ← hlength, Nat.add_assoc]
      · rw [List.map_append, List.map_append, hmessages, List.map_singleton, List.map_singleton,
          hdata]
  · rw [hlength, h.writePointer] at hroom
    rw [if_neg hroom, hrefused]
    exact h

end CircularQueue

/-! ### The loop refines the inbox -/

/-- What comes of a message. -/
def Inbox.outcome (m : ClientId × List Byte) : Option Outcome :=
  WebsocketHandler.handleMessage (Inbox.message m) (Inbox.message m).length

structure CommandLoop.Refines (s : CommandLoop) (i : Inbox) : Prop where
  waiting : s.cmdQueue.Filled i.waiting
  fetched : s.executionQueue.Holds i.fetched
  draining : s.draining = i.draining
  idle : i.draining = false → i.fetched = []
  outcomes : s.outcomes = i.handled.map Inbox.outcome

namespace CommandLoop

theorem init_refines : init.Refines Inbox.init :=
  ⟨CircularQueue.create_filled, CircularQueue.create_filled.holds, rfl, fun _ => rfl, rfl⟩

theorem Refines.onEvent {s : CommandLoop} {i : Inbox} (h : s.Refines i) (frame : WebsocketFrame) :
    (s.onEvent frame).Refines (i.step (.frame frame)) := by
  unfold CommandLoop.onEvent
  by_cases hwhole : frame.final ∧ frame.index = 0 ∧ frame.len = frame.data.length ∧ frame.binary
  swap
  · have hrefused : ¬ i.Accepts frame := fun haccepts => hwhole haccepts.1
    rw [if_neg hwhole, Inbox.step, if_neg hrefused]
    exact h
  rw [if_pos hwhole]
  unfold onMessage
  by_cases hsize : (payloadOf frame.data).length ≤ maxIncomingFrameSize
  swap
  · have hrefused : ¬ i.Accepts frame := fun haccepts => hsize haccepts.2.1
    rw [dif_neg hsize, Inbox.step, if_neg hrefused]
    exact h
  rw [dif_pos hsize]
  have hbytes : (ByteRecord.mk (messageBytes frame.clientId (payloadOf frame.data))
      (length_messageBytes_lt frame.clientId hsize)).bytes =
      Inbox.message (frame.clientId, payloadOf frame.data) := rfl
  have hfilled := h.waiting.enqueue hbytes
  rw [Inbox.step]
  by_cases hroom : (i.waiting.map Inbox.room).sum +
      Inbox.room (frame.clientId, payloadOf frame.data) ≤ 1000
  · rw [if_pos hroom] at hfilled
    rw [if_pos ⟨hwhole, hsize, hroom⟩]
    exact ⟨hfilled, h.fetched, h.draining, h.idle, h.outcomes⟩
  · have hrefused : ¬ i.Accepts frame := fun haccepts => hroom haccepts.2.2
    rw [if_neg hroom] at hfilled
    rw [if_neg hrefused]
    exact ⟨hfilled, h.fetched, h.draining, h.idle, h.outcomes⟩

theorem Refines.fetch {s : CommandLoop} {i : Inbox} (h : s.Refines i) :
    s.fetch.Refines (i.step .fetch) := by
  unfold CommandLoop.fetch
  rw [Inbox.step]
  cases hdraining : i.draining with
  | true =>
      rw [h.draining, hdraining, if_pos rfl, if_pos rfl]
      exact h
  | false =>
      have hempty := h.idle hdraining
      have hfetched := h.fetched
      rw [hempty] at hfetched
      rw [h.draining, hdraining, if_neg Bool.false_ne_true, if_neg Bool.false_ne_true]
      have hcount := h.waiting.holds.itemsCount
      refine ⟨hfetched.reset, h.waiting.holds, ?_, ?_, h.outcomes⟩
      · change decide (s.cmdQueue.itemsCount ≠ 0) = decide (i.waiting ≠ [])
        rw [hcount]
        exact decide_eq_decide.mpr (not_congr List.length_eq_zero_iff)
      · intro hnone
        exact not_not.mp (of_decide_eq_false hnone)

theorem Refines.handleNext {s : CommandLoop} {i : Inbox} (h : s.Refines i) :
    s.handleNext.Refines (i.step .handleNext) := by
  unfold CommandLoop.handleNext
  rw [Inbox.step]
  cases hdraining : i.draining with
  | false =>
      rw [h.draining, hdraining, if_neg Bool.false_ne_true, if_neg Bool.false_ne_true]
      exact h
  | true =>
      rw [h.draining, hdraining, if_pos rfl, if_pos rfl]
      obtain ⟨hsize, records, hstores, hmessages⟩ := h.fetched
      cases hfetched : i.fetched with
      | nil =>
          rw [hfetched, List.map_nil, List.map_eq_nil_iff] at hmessages
          subst hmessages
          rw [CircularQueue.dequeue_none hstores]
          exact ⟨h.waiting, ⟨hsize, [], hstores, rfl⟩, rfl, fun _ => rfl, h.outcomes⟩
      | cons m fetched =>
          rw [hfetched] at hmessages
          obtain ⟨record, rest, rfl⟩ : ∃ record rest, records = record :: rest := by
            cases records with
            | nil => exact absurd hmessages.symm (by simp)
            | cons record rest => exact ⟨record, rest, rfl⟩
          rw [List.map_cons, List.map_cons] at hmessages
          obtain ⟨hrecord, hrest⟩ := List.cons.inj hmessages
          obtain ⟨q', hdequeue, hstores'⟩ := CircularQueue.dequeue_some hstores
          have hsame := CircularQueue.dequeue_bufferSize s.executionQueue
          rw [hdequeue] at hsame ⊢
          refine ⟨h.waiting, ⟨hsame.trans hsize, rest, hstores', hrest⟩, rfl, ?_, ?_⟩
          · intro hidle
            dsimp only at hidle
            exact absurd hidle (fun heq => Bool.false_ne_true heq.symm)
          · dsimp only
            rw [List.map_append, List.map_singleton, h.outcomes, Inbox.outcome, hrecord]

theorem Refines.step {s : CommandLoop} {i : Inbox} (h : s.Refines i) (event : Event) :
    (s.step event).Refines (i.step event) := by
  cases event with
  | frame frame => exact h.onEvent frame
  | fetch => exact h.fetch
  | handleNext => exact h.handleNext

theorem Refines.foldl {s : CommandLoop} {i : Inbox} (h : s.Refines i) (events : List Event) :
    (events.foldl CommandLoop.step s).Refines (events.foldl Inbox.step i) := by
  induction events generalizing s i with
  | nil => exact h
  | cons event events ih => exact ih (h.step event)

theorem run_refines (events : List Event) : (run events).Refines (Inbox.run events) :=
  init_refines.foldl events

theorem Refines.takes_iff {s : CommandLoop} {i : Inbox} (h : s.Refines i)
    (frame : WebsocketFrame) : s.takes frame = true ↔ i.Accepts frame := by
  unfold takes Inbox.Accepts
  by_cases hwhole : frame.final ∧ frame.index = 0 ∧ frame.len = frame.data.length ∧ frame.binary
  swap
  · rw [if_neg hwhole]
    exact ⟨fun hno => absurd hno Bool.false_ne_true, fun haccepts => absurd haccepts.1 hwhole⟩
  rw [if_pos hwhole]
  by_cases hsize : (payloadOf frame.data).length ≤ maxIncomingFrameSize
  swap
  · rw [dif_neg hsize]
    exact ⟨fun hno => absurd hno Bool.false_ne_true, fun haccepts => absurd haccepts.2.1 hsize⟩
  rw [dif_pos hsize, ← h.waiting.writePointer]
  have hlength : 2 + (messageBytes frame.clientId (payloadOf frame.data)).length =
      Inbox.room (frame.clientId, payloadOf frame.data) := by
    rw [length_messageBytes, Inbox.room]
  rcases h.waiting.enqueue_room ⟨messageBytes frame.clientId (payloadOf frame.data),
    length_messageBytes_lt frame.clientId hsize⟩ with ⟨hroom, hput⟩ | ⟨hroom, hrefused⟩
  · rw [hput]
    exact ⟨fun _ => ⟨hwhole, hsize, hlength ▸ hroom⟩, fun _ => rfl⟩
  · rw [hrefused]
    exact ⟨fun hno => absurd hno Bool.false_ne_true,
      fun haccepts => absurd (hlength ▸ haccepts.2.2) hroom⟩

end CommandLoop

/-! ### The order of the messages -/

namespace Inbox

open CommandLoop (Event)

/-- All messages of the inbox, the oldest first. -/
def messages (i : Inbox) : List (ClientId × List Byte) := i.handled ++ i.fetched ++ i.waiting

end Inbox

namespace CommandLoop

theorem Refines.messages_step {s : CommandLoop} {i : Inbox} (h : s.Refines i) (event : Event) :
    (i.step event).messages = i.messages ++ s.arrival event := by
  cases event with
  | frame frame =>
      rw [Inbox.step, arrival]
      by_cases haccepts : i.Accepts frame
      · rw [if_pos haccepts, if_pos ((h.takes_iff frame).mpr haccepts)]
        exact (List.append_assoc _ _ _).symm
      · have hno := mt (h.takes_iff frame).mp haccepts
        rw [if_neg haccepts, if_neg hno, List.append_nil]
  | fetch =>
      have hnone : i.messages ++ s.arrival .fetch = i.messages := List.append_nil _
      rw [Inbox.step, hnone]
      cases hdraining : i.draining with
      | true => rw [if_pos rfl]
      | false =>
          rw [if_neg Bool.false_ne_true]
          simp only [Inbox.messages, h.idle hdraining, List.append_nil]
  | handleNext =>
      have hnone : i.messages ++ s.arrival .handleNext = i.messages := List.append_nil _
      rw [Inbox.step, hnone]
      cases hdraining : i.draining with
      | false => rw [if_neg Bool.false_ne_true]
      | true =>
          rw [if_pos rfl]
          cases hfetched : i.fetched with
          | nil => simp only [Inbox.messages, hfetched]
          | cons m fetched =>
              simp only [Inbox.messages, hfetched, List.append_assoc, List.cons_append,
                List.nil_append]

theorem Refines.messages_foldl {s : CommandLoop} {i : Inbox} (h : s.Refines i)
    (events : List Event) :
    (events.foldl Inbox.step i).messages = i.messages ++ s.arrivedFrom events := by
  induction events generalizing s i with
  | nil => exact (List.append_nil _).symm
  | cons event events ih =>
      rw [List.foldl_cons, ih (h.step event), h.messages_step event, arrivedFrom, List.append_assoc]

theorem messages_run (events : List Event) : (Inbox.run events).messages = arrived events :=
  init_refines.messages_foldl events

/-- Nothing that was fetched is lost. -/
theorem Refines.taken_step {s : CommandLoop} {i : Inbox} (h : s.Refines i) (event : Event) :
    i.handled ++ i.fetched <+: (i.step event).handled ++ (i.step event).fetched := by
  cases event with
  | frame frame =>
      rw [Inbox.step]
      split_ifs <;> exact List.prefix_rfl
  | fetch =>
      rw [Inbox.step]
      cases hdraining : i.draining with
      | true => exact List.prefix_rfl
      | false =>
          rw [if_neg Bool.false_ne_true, h.idle hdraining, List.append_nil]
          exact List.prefix_append _ _
  | handleNext =>
      rw [Inbox.step]
      cases hdraining : i.draining with
      | false => exact List.prefix_rfl
      | true =>
          rw [if_pos rfl]
          cases hfetched : i.fetched with
          | nil => exact List.prefix_rfl
          | cons m fetched =>
              rw [List.append_assoc]
              exact List.prefix_rfl

theorem handled_step (i : Inbox) (event : Event) : i.handled <+: (i.step event).handled := by
  cases event with
  | frame frame =>
      rw [Inbox.step]
      split_ifs <;> exact List.prefix_rfl
  | fetch =>
      rw [Inbox.step]
      split_ifs <;> exact List.prefix_rfl
  | handleNext =>
      rw [Inbox.step]
      split_ifs
      · cases hfetched : i.fetched with
        | nil => exact List.prefix_rfl
        | cons m fetched => exact List.prefix_append _ _
      · exact List.prefix_rfl

/-- A turn of the main loop handles a message, unless all that were fetched are handled. -/
theorem Refines.handled_turn {s : CommandLoop} {i : Inbox} (h : s.Refines i) :
    (i.step .handleNext).handled.length = i.handled.length + 1 ∨ i.fetched = [] := by
  cases hdraining : i.draining with
  | false => exact .inr (h.idle hdraining)
  | true =>
      cases hfetched : i.fetched with
      | nil => exact .inr rfl
      | cons m fetched =>
          left
          rw [Inbox.step, hdraining, if_pos rfl, hfetched]
          exact List.length_append

theorem Refines.handled_foldl {s : CommandLoop} {i : Inbox} (h : s.Refines i)
    {taken : List (ClientId × List Byte)} (htaken : taken <+: i.handled ++ i.fetched)
    {events : List Event} (hturns : taken.length ≤ i.handled.length + turns events) :
    taken <+: (events.foldl Inbox.step i).handled := by
  induction events generalizing s i with
  | nil => exact List.prefix_of_prefix_length_le htaken (List.prefix_append _ _) hturns
  | cons event events ih =>
      have hlonger := (handled_step i event).length_le
      apply ih (h.step event) (htaken.trans (h.taken_step event))
      cases event with
      | frame frame =>
          have hsame : turns (.frame frame :: events) = turns events := rfl
          omega
      | fetch =>
          have hsame : turns (.fetch :: events) = turns events := rfl
          omega
      | handleNext =>
          have hturn : turns (.handleNext :: events) = turns events + 1 := rfl
          rcases h.handled_turn with hone | hnone
          · omega
          · have hle := htaken.length_le
            rw [hnone, List.append_nil] at hle
            omega

/-- Once the main loop has come back, as many turns as messages wait handle all that has arrived. -/
theorem handled_round {events later : List Event} (hidle : (run events).draining = false)
    (hturns : (Inbox.run events).waiting.length ≤ turns later) :
    arrived events <+: (Inbox.run (events ++ .fetch :: later)).handled := by
  have h := run_refines events
  have hdraining : (Inbox.run events).draining = false := h.draining ▸ hidle
  have hmessages := messages_run events
  rw [Inbox.messages, h.idle hdraining, List.append_nil] at hmessages
  have hrun : Inbox.run (events ++ .fetch :: later) =
      later.foldl Inbox.step ((Inbox.run events).step .fetch) := List.foldl_append
  have hfetched : ((Inbox.run events).step .fetch).handled ++
      ((Inbox.run events).step .fetch).fetched = arrived events := by
    rw [← hmessages, Inbox.step, hdraining, if_neg Bool.false_ne_true]
  have hhandled := (handled_step (Inbox.run events) .fetch).length_le
  rw [hrun]
  apply (h.step .fetch).handled_foldl (hfetched ▸ List.prefix_rfl)
  rw [← hmessages, List.length_append]
  omega

theorem payloadOf_short {data : List Byte} (h : data.length ≤ maxIncomingFrameSize) :
    payloadOf data = data := by
  unfold maxIncomingFrameSize at h
  rw [payloadOf, Nat.mod_eq_of_lt (by omega), List.take_length]

/-- The commands of the clients come into effect in the order in which they arrived, none twice and
none left out, whatever the network task does in between. -/
theorem commands_inOrder (events later : List Event) :
    (run events).outcomes <+: (arrived events).map Inbox.outcome ∧
      (∀ m ∈ arrived events, (Inbox.outcome m).isSome) ∧
      ((run events).draining = false → (Inbox.run events).waiting.length ≤ turns later →
        (arrived events).map Inbox.outcome <+: (run (events ++ .fetch :: later)).outcomes) ∧
      (∀ frame, (run events).takes frame = true ↔ (Inbox.run events).Accepts frame) ∧
      ∀ clientId command nonce rest,
        (Command.bytes command nonce ++ rest).length ≤ maxIncomingFrameSize →
        Inbox.outcome (clientId, payloadOf (Command.bytes command nonce ++ rest)) =
          some (.command clientId command) := by
  have h := run_refines events
  refine ⟨?_, ?_, ?_, h.takes_iff, ?_⟩
  · rw [h.outcomes, ← messages_run, Inbox.messages, List.append_assoc]
    exact (List.prefix_append _ _).map _
  · intro m _
    obtain ⟨outcome, houtcome⟩ := WebsocketHandler.handleMessage_within (Inbox.message m)
    rw [Inbox.outcome, houtcome]
    rfl
  · intro hidle hturns
    rw [(run_refines _).outcomes]
    exact (handled_round hidle hturns).map _
  · intro clientId command nonce rest hshort
    rw [payloadOf_short hshort]
    unfold maxIncomingFrameSize at hshort
    exact WebsocketHandler.handleMessage_bytes clientId command nonce (by omega)

end CommandLoop

end Lightnet
