import Lightnet.Library.SharedRing
import Lightnet.Queues.SpscByteQueue

/-!
# The byte record ring between an interrupt and the main loop

The producer and the consumer of a record ring run at the same time, without locks: the one may
interrupt the other between any two accesses to the memory they share. Each access to a byte of the
buffer or to an offset is one step. However the steps of the two sides fall, the calls are answered
as if each of them were made in one piece, in the order in which they are decided.
-/

namespace Lightnet

open RingBuffer

/-- How far the producer has come with a `push`: the record, the cell that is next and the bytes
that are left. -/
inductive Pushing (capacityBytes : ℕ) where
  | idle
  | writing (data : ByteRecord) (p : Fin capacityBytes) (left : List Byte)

/-- How far the consumer has come with a `pop`, which reads the two bytes of the length first. -/
inductive Popping (capacityBytes : ℕ) where
  | idle
  | low (outCap : ℕ)
  | high (outCap : ℕ) (lo : Byte)
  | body (outCap len : ℕ) (p : Fin capacityBytes) (i : ℕ) (out : List Byte)

/-- The shared memory and what each side keeps to itself. -/
structure SharedQueue (capacityBytes : ℕ) where
  queue : SpscByteQueue capacityBytes
  pushing : Pushing capacityBytes
  popping : Popping capacityBytes

/-- A side begins a call or takes the next step of the call it is in. -/
inductive QueueMove where
  | push (data : ByteRecord)
  | produce
  | pop (outCap : ℕ)
  | consume

namespace SharedQueue

variable {capacityBytes : ℕ}

def fresh (h : 0 < capacityBytes) (buf : Fin capacityBytes → Byte) : SharedQueue capacityBytes :=
  ⟨SpscByteQueue.fresh h buf, .idle, .idle⟩

/-- The first step of `push` compares the room with what the record needs. A side that is in a call
begins no other one. -/
def beginPush (s : SharedQueue capacityBytes) (data : ByteRecord) :
    SharedQueue capacityBytes × Option (QueueCall × QueueAnswer) :=
  match s.pushing with
  | .writing _ _ _ => (s, none)
  | .idle =>
    let len := data.bytes.length
    if len = 0 then (s, some (.push data, .pushed false))
    else if s.queue.freeB < (SpscByteQueue.header + len) % 65536 then
      (s, some (.push data, .pushed false))
    else
      ({ s with
        pushing := .writing data s.queue.w (SpscByteQueue.lengthPrefix len ++ data.bytes) }, none)

/-- `put`, or the write offset is published. -/
def produce (s : SharedQueue capacityBytes) :
    SharedQueue capacityBytes × Option (QueueCall × QueueAnswer) :=
  match s.pushing with
  | .idle => (s, none)
  | .writing data p (b :: left) =>
    ({ s with
      queue := { s.queue with buf := Function.update s.queue.buf p b }
      pushing := .writing data (next p) left }, none)
  | .writing data p [] =>
    ({ s with queue := { s.queue with w := p }, pushing := .idle },
      some (.push data, .pushed true))

/-- The first step of `pop` compares the offsets. -/
def beginPop (s : SharedQueue capacityBytes) (outCap : ℕ) :
    SharedQueue capacityBytes × Option (QueueCall × QueueAnswer) :=
  match s.popping with
  | .idle =>
    if s.queue.w = s.queue.r then (s, some (.pop outCap, .popped 0 []))
    else ({ s with popping := .low outCap }, none)
  | _ => (s, none)

/-- `get`, or the read offset is published. -/
def consume (s : SharedQueue capacityBytes) :
    SharedQueue capacityBytes × Option (QueueCall × QueueAnswer) :=
  let q := s.queue
  match s.popping with
  | .idle => (s, none)
  | .low outCap => ({ s with popping := .high outCap (q.buf q.r) }, none)
  | .high outCap lo =>
    ({ s with
      popping := .body outCap (lo.toNat ||| (q.buf (next q.r)).toNat <<< 8) (next (next q.r)) 0 [] },
      none)
  | .body outCap len p i out =>
    if i < len then
      ({ s with
        popping := .body outCap len (next p) (i + 1) (if i < outCap then out ++ [q.buf p] else out) },
        none)
    else
      ({ s with queue := { q with r := p }, popping := .idle },
        some (.pop outCap, .popped len out))

def step (s : SharedQueue capacityBytes) :
    QueueMove → SharedQueue capacityBytes × Option (QueueCall × QueueAnswer)
  | .push data => s.beginPush data
  | .produce => s.produce
  | .pop outCap => s.beginPop outCap
  | .consume => s.consume

/-- The calls that were answered, in the order of their answers. -/
def log : SharedQueue capacityBytes → List QueueMove → List (QueueCall × QueueAnswer)
  | _, [] => []
  | s, move :: moves => (s.step move).2.toList ++ log (s.step move).1 moves

end SharedQueue

/-! ### The bounded queue -/

namespace ByteFifo

/-- These are the answers of the bounded queue. -/
def Answers (capacityBytes : ℕ) : List (List Byte) → List (QueueCall × QueueAnswer) → Prop
  | _, [] => True
  | records, (call, result) :: log => result = (answer capacityBytes records call).2 ∧
      Answers capacityBytes (answer capacityBytes records call).1 log

end ByteFifo

/-- A record whose room can be computed in sixteen bits. -/
def QueueMove.Representable : QueueMove → Prop
  | .push data => data.bytes.length + SpscByteQueue.header < 65536
  | _ => True

instance (move : QueueMove) : Decidable move.Representable := by
  cases move <;> unfold QueueMove.Representable <;> infer_instance

namespace SharedQueue

variable {capacityBytes : ℕ}

open SpscByteQueue (header encode image lengthPrefix)

/-! ### The invariant -/

/-- What the producer has written so far: it has room for the rest. -/
def Pushed (q : SpscByteQueue capacityBytes) (records : List (List Byte)) (unpublished : List Byte) :
    Pushing capacityBytes → Prop
  | .idle => unpublished = []
  | .writing data p left => data.bytes ≠ [] ∧ encode data.bytes = unpublished ++ left ∧
      p = ahead q.w unpublished.length ∧
      ByteFifo.size records + (encode data.bytes).length < capacityBytes

/-- What the consumer has read so far is the beginning of the oldest record. -/
def Popped (q : SpscByteQueue capacityBytes) (records : List (List Byte)) :
    Popping capacityBytes → Prop
  | .idle => True
  | .low _ => records ≠ []
  | .high _ lo => ∃ record rest, records = record :: rest ∧ lo = BitVec.ofNat 8 record.length
  | .body outCap len p i out => ∃ record rest, records = record :: rest ∧ len = record.length ∧
      p = ahead q.r (header + i) ∧ i ≤ len ∧ out = (record.take i).take outCap

/-- The ring holds the records, and both sides are where they should be. -/
structure Sound (s : SharedQueue capacityBytes) (records : List (List Byte)) : Prop where
  lies : ∃ unpublished, Lies s.queue.buf s.queue.r s.queue.w (image records) unpublished ∧
    Pushed s.queue records unpublished s.pushing
  popped : Popped s.queue records s.popping
  lengths : ∀ record ∈ records, record.length < 65536

theorem sound_fresh (h : 0 < capacityBytes) (buf : Fin capacityBytes → Byte) :
    (fresh h buf).Sound [] := by
  refine ⟨⟨[], ⟨h, rfl, rfl⟩, rfl⟩, trivial, fun record hmem => ?_⟩
  cases hmem

/-- A step that is no answer keeps the records, and an answer is that of the bounded queue. -/
def Agrees (records : List (List Byte))
    (result : SharedQueue capacityBytes × Option (QueueCall × QueueAnswer)) : Prop :=
  match result.2 with
  | none => result.1.Sound records
  | some (call, answer) => answer = (ByteFifo.answer capacityBytes records call).2 ∧
      result.1.Sound (ByteFifo.answer capacityBytes records call).1

/-! ### The producer -/

/-- What has not been published does not count. -/
theorem holds_of_lies {q : SpscByteQueue capacityBytes} {records : List (List Byte)}
    {unpublished : List Byte} (h : Lies q.buf q.r q.w (image records) unpublished)
    (hlengths : ∀ record ∈ records, record.length < 65536) : q.Holds records := by
  have hfits := h.fits
  have hwrite := h.write
  have hcells := h.cells
  rw [SpscByteQueue.length_image] at hfits hwrite hcells
  rw [walk_add] at hcells
  have himage : (RingBuffer.walk q.buf q.r (ByteFifo.size records)).length = (image records).length := by
    rw [length_walk, SpscByteQueue.length_image]
  exact ⟨by omega, (List.append_inj hcells himage).1, hwrite, hlengths⟩

theorem agrees_beginPush {s : SharedQueue capacityBytes} {records : List (List Byte)}
    (h : s.Sound records) (hcap : capacityBytes < 65536) {data : ByteRecord}
    (hdata : data.bytes.length + header < 65536) : Agrees records (s.beginPush data) := by
  obtain ⟨unpublished, hlies, hpushed⟩ := h.lies
  have hfree := (holds_of_lies hlies h.lengths).freeB hcap
  obtain ⟨queue, pushing, popping⟩ := s
  cases pushing with
  | writing data' p left => exact h
  | idle =>
      have hrefuse (hfull : data.bytes = [] ∨
          capacityBytes < ByteFifo.size records + (header + data.bytes.length) + 1) :
          Agrees records ((⟨queue, .idle, popping⟩ : SharedQueue capacityBytes),
            some (.push data, .pushed false)) := by
        have hspec : ByteFifo.answer capacityBytes records (.push data) =
            (records, .pushed false) := if_pos hfull
        change _ = (ByteFifo.answer capacityBytes records (.push data)).2 ∧ Sound _ _
        rw [hspec]
        exact ⟨rfl, h⟩
      unfold beginPush
      dsimp only at hfree hlies ⊢
      have hneed : (header + data.bytes.length) % 65536 = header + data.bytes.length :=
        Nat.mod_eq_of_lt (by omega)
      rw [hneed]
      split_ifs with hlen hroom
      · exact hrefuse (.inl (List.length_eq_zero_iff.mp hlen))
      · exact hrefuse (.inr (by omega))
      · have hnone : unpublished = [] := hpushed
        have hpushing : Pushed queue records [] (.writing data queue.w (encode data.bytes)) := by
          refine ⟨fun hnil => hlen (List.length_eq_zero_iff.mpr hnil), rfl, rfl, ?_⟩
          rw [SpscByteQueue.length_encode]
          omega
        exact ⟨⟨[], hnone ▸ hlies, hpushing⟩, h.popped, h.lengths⟩

theorem agrees_produce {s : SharedQueue capacityBytes} {records : List (List Byte)}
    (h : s.Sound records) : Agrees records s.produce := by
  obtain ⟨unpublished, hlies, hpushed⟩ := h.lies
  obtain ⟨queue, pushing, popping⟩ := s
  cases pushing with
  | idle => exact h
  | writing data p left =>
      obtain ⟨hne, hencode, hp, hroom⟩ := hpushed
      dsimp only at hlies
      have hlength := congrArg List.length hencode
      rw [List.length_append] at hlength
      cases left with
      | cons b left =>
          rw [List.length_cons] at hlength
          have hput := hlies.put b (by rw [SpscByteQueue.length_image]; omega)
          rw [← hp] at hput
          have hpushing : Pushed { queue with buf := Function.update queue.buf p b } records
              (unpublished ++ [b]) (.writing data (next p) left) := by
            refine ⟨hne, ?_, ?_, hroom⟩
            · rw [hencode, List.append_assoc]
              rfl
            · rw [hp, List.length_append, ← ahead_add]
              rfl
          exact ⟨⟨_, hput, hpushing⟩, h.popped, h.lengths⟩
      | nil =>
          rw [List.append_nil] at hencode
          have hpublish := hlies.publish
          rw [← hp, ← hencode, ← SpscByteQueue.image_append] at hpublish
          have hfits : ¬ (data.bytes = [] ∨
              capacityBytes < ByteFifo.size records + (header + data.bytes.length) + 1) := by
            rw [SpscByteQueue.length_encode] at hroom
            rintro (hnil | hfull)
            · exact hne hnil
            · omega
          have hspec : ByteFifo.answer capacityBytes records (.push data) =
              (records ++ [data.bytes], .pushed true) := if_neg hfits
          change _ = (ByteFifo.answer capacityBytes records (.push data)).2 ∧ Sound _ _
          rw [hspec]
          refine ⟨rfl, ⟨[], hpublish, rfl⟩, ?_, fun record hmem => ?_⟩
          · have hpopped := h.popped
            cases popping with
            | idle => trivial
            | low outCap => exact List.append_ne_nil_of_left_ne_nil hpopped _
            | high outCap lo =>
                obtain ⟨record, rest, rfl, hlo⟩ := hpopped
                exact ⟨record, rest ++ [data.bytes], rfl, hlo⟩
            | body outCap len p' i out =>
                obtain ⟨record, rest, rfl, hbody⟩ := hpopped
                exact ⟨record, rest ++ [data.bytes], rfl, hbody⟩
          · rcases List.mem_append.mp hmem with hold | hnew
            · exact h.lengths record hold
            · rw [List.mem_singleton.mp hnew]
              exact data.length_lt

/-! ### The consumer -/

theorem agrees_beginPop {s : SharedQueue capacityBytes} {records : List (List Byte)}
    (h : s.Sound records) (outCap : ℕ) : Agrees records (s.beginPop outCap) := by
  obtain ⟨unpublished, hlies, hpushed⟩ := h.lies
  obtain ⟨queue, pushing, popping⟩ := s
  cases popping with
  | idle =>
      have hempty : queue.w = queue.r ↔ records = [] := by
        rw [hlies.eq_iff, ← List.length_eq_zero_iff, SpscByteQueue.length_image]
        cases records with
        | nil => simp [ByteFifo.size]
        | cons record records => simp [SpscByteQueue.size_cons, header]
      unfold beginPop
      dsimp only
      split_ifs with heq
      · have hnil := hempty.mp heq
        subst hnil
        exact ⟨rfl, h⟩
      · exact ⟨⟨unpublished, hlies, hpushed⟩, fun hnil => heq (hempty.mpr hnil), h.lengths⟩
  | low outCap' => exact h
  | high outCap' lo => exact h
  | body outCap' len p i out => exact h

/-- The bytes of the oldest record, as the consumer finds them. -/
theorem get_record {q : SpscByteQueue capacityBytes} {record : List Byte}
    {rest : List (List Byte)} {unpublished : List Byte}
    (h : Lies q.buf q.r q.w (image (record :: rest)) unpublished) :
    q.buf q.r = BitVec.ofNat 8 record.length ∧
      q.buf (next q.r) = BitVec.ofNat 8 (record.length / 256) ∧
      ∀ i (hi : i < record.length), q.buf (ahead q.r (header + i)) = record[i] := by
  have himage : image (record :: rest) =
      BitVec.ofNat 8 record.length :: BitVec.ofNat 8 (record.length / 256) ::
        (record ++ image rest) := by
    simp [image, encode, lengthPrefix]
  rw [himage] at h
  refine ⟨h.get (Nat.succ_pos _), h.get (Nat.succ_lt_succ (Nat.succ_pos _)), fun i hi => ?_⟩
  have hbound : header + i < (BitVec.ofNat 8 record.length ::
      BitVec.ofNat 8 (record.length / 256) :: (record ++ image rest)).length := by
    simp only [List.length_cons, List.length_append, header]
    omega
  rw [h.get hbound]
  have hindex : header + i = i + 1 + 1 := by
    unfold header
    omega
  simp only [hindex, List.getElem_cons_succ]
  exact List.getElem_append_left hi

/-- One more byte is handed out as far as the caller's buffer goes. -/
theorem take_take_succ {α : Type} {l : List α} {i : ℕ} (hi : i < l.length) (m : ℕ) :
    (l.take (i + 1)).take m = if i < m then (l.take i).take m ++ [l[i]] else (l.take i).take m := by
  split_ifs with hm
  · have hshort : (l.take i).length ≤ m := (List.length_take_le i l).trans hm.le
    have hlong : (l.take (i + 1)).length ≤ m := (List.length_take_le (i + 1) l).trans hm
    rw [List.take_of_length_le hshort, List.take_of_length_le hlong, List.take_add_one,
      List.getElem?_eq_getElem hi]
    rfl
  · rw [List.take_take, List.take_take, Nat.min_eq_left (by omega), Nat.min_eq_left (by omega)]

theorem agrees_consume {s : SharedQueue capacityBytes} {records : List (List Byte)}
    (h : s.Sound records) : Agrees records s.consume := by
  obtain ⟨unpublished, hlies, hpushed⟩ := h.lies
  have hpopped := h.popped
  obtain ⟨queue, pushing, popping⟩ := s
  dsimp only at hlies hpushed hpopped
  cases popping with
  | idle => exact h
  | low outCap =>
      obtain ⟨record, rest, rfl⟩ := List.exists_cons_of_ne_nil hpopped
      exact ⟨⟨unpublished, hlies, hpushed⟩, ⟨record, rest, rfl, (get_record hlies).1⟩, h.lengths⟩
  | high outCap lo =>
      obtain ⟨record, rest, rfl, hlo⟩ := hpopped
      have hlen := SpscByteQueue.length_of_prefix (h.lengths record List.mem_cons_self)
      rw [← hlo, ← (get_record hlies).2.1] at hlen
      exact ⟨⟨unpublished, hlies, hpushed⟩, ⟨record, rest, rfl, hlen, rfl, Nat.zero_le _, by simp⟩,
        h.lengths⟩
  | body outCap len p i out =>
      obtain ⟨record, rest, rfl, rfl, hp, hi, hout⟩ := hpopped
      unfold consume
      dsimp only
      by_cases hmore : i < record.length
      · rw [if_pos hmore]
        have hnext : next p = ahead queue.r (header + (i + 1)) := by
          rw [hp]
          exact ahead_add queue.r (header + i) 1
        refine ⟨⟨unpublished, hlies, hpushed⟩, ⟨record, rest, rfl, rfl, hnext, hmore, ?_⟩,
          h.lengths⟩
        rw [hp, (get_record hlies).2.2 i hmore, take_take_succ hmore, hout]
      · have hall : i = record.length := by omega
        rw [if_neg hmore]
        have himage : image (record :: rest) = encode record ++ image rest := rfl
        rw [himage] at hlies
        have hrelease := hlies.release
        rw [SpscByteQueue.length_encode, ← hall, ← hp] at hrelease
        refine ⟨?_, ⟨unpublished, hrelease, ?_⟩, trivial,
          fun record' hmem => h.lengths record' (List.mem_cons_of_mem record hmem)⟩
        · change QueueAnswer.popped record.length out = .popped record.length (record.take outCap)
          rw [hout, hall, List.take_length]
        · cases pushing with
          | idle => exact hpushed
          | writing data p' left =>
              obtain ⟨hne, hencode, hp', hroom⟩ := hpushed
              rw [SpscByteQueue.size_cons] at hroom
              have hroom' : ByteFifo.size rest + (encode data.bytes).length < capacityBytes := by
                omega
              exact ⟨hne, hencode, hp', hroom'⟩

/-! ### Runs -/

theorem agrees_step {s : SharedQueue capacityBytes} {records : List (List Byte)}
    (h : s.Sound records) (hcap : capacityBytes < 65536) {move : QueueMove}
    (hmove : move.Representable) : Agrees records (s.step move) := by
  cases move with
  | push data => exact agrees_beginPush h hcap hmove
  | produce => exact agrees_produce h
  | pop outCap => exact agrees_beginPop h outCap
  | consume => exact agrees_consume h

theorem Sound.answers {s : SharedQueue capacityBytes} {records : List (List Byte)}
    (h : s.Sound records) (hcap : capacityBytes < 65536) (moves : List QueueMove)
    (hmoves : ∀ move ∈ moves, move.Representable) :
    ByteFifo.Answers capacityBytes records (s.log moves) := by
  induction moves generalizing s records with
  | nil => trivial
  | cons move moves ih =>
      have hagrees := agrees_step h hcap (hmoves move List.mem_cons_self)
      have hrest : ∀ move ∈ moves, move.Representable :=
        fun move' hmem => hmoves move' (List.mem_cons_of_mem move hmem)
      unfold Agrees at hagrees
      unfold log
      cases hanswer : (s.step move).2 with
      | none =>
          rw [hanswer] at hagrees
          exact ih hagrees hrest
      | some result =>
          rw [hanswer] at hagrees
          exact ⟨hagrees.1, ih hagrees.2 hrest⟩

/-! ### Calls that are not interrupted -/

/-- The state after the moves. -/
def after (s : SharedQueue capacityBytes) (moves : List QueueMove) : SharedQueue capacityBytes :=
  moves.foldl (fun s move => (s.step move).1) s

theorem produce_idle (s : SharedQueue capacityBytes) (hidle : s.pushing = .idle) (n : ℕ) :
    s.log (List.replicate n .produce) = [] ∧ s.after (List.replicate n .produce) = s := by
  have hstep : s.step .produce = (s, none) := by
    change s.produce = _
    unfold produce
    rw [hidle]
  induction n with
  | zero => exact ⟨rfl, rfl⟩
  | succ n ih =>
      rw [List.replicate_succ, log, after, List.foldl_cons, hstep]
      exact ih

theorem produce_writing (q : SpscByteQueue capacityBytes) (popping : Popping capacityBytes)
    (data : ByteRecord) (p : Fin capacityBytes) (left : List Byte) :
    log ⟨q, .writing data p left, popping⟩ (List.replicate (left.length + 1) .produce) =
        [(.push data, .pushed true)] ∧
      after ⟨q, .writing data p left, popping⟩ (List.replicate (left.length + 1) .produce) =
        ⟨⟨(store q.buf p left).1, (store q.buf p left).2, q.r⟩, .idle, popping⟩ := by
  induction left generalizing q p with
  | nil => exact ⟨rfl, rfl⟩
  | cons b left ih =>
      obtain ⟨hlog, hafter⟩ := ih { q with buf := Function.update q.buf p b } (next p)
      rw [List.length_cons, List.replicate_succ, log, after, List.foldl_cons]
      exact ⟨hlog, hafter⟩

/-- A push that nothing interrupts is the push of the queue. -/
theorem push_uninterrupted (s : SharedQueue capacityBytes) (hidle : s.pushing = .idle)
    (data : ByteRecord) :
    s.log (.push data :: List.replicate (header + data.bytes.length + 1) .produce) =
        [(.push data, (s.queue.answer (.push data)).2)] ∧
      s.after (.push data :: List.replicate (header + data.bytes.length + 1) .produce) =
        { s with queue := (s.queue.answer (.push data)).1 } := by
  obtain ⟨q, pushing, popping⟩ := s
  subst hidle
  rw [log, after, List.foldl_cons]
  by_cases hrefuse : data.bytes.length = 0 ∨ q.freeB < (header + data.bytes.length) % 65536
  · have hstep : step ⟨q, .idle, popping⟩ (.push data) =
        (⟨q, .idle, popping⟩, some (.push data, .pushed false)) := by
      unfold step beginPush
      dsimp only
      split_ifs with hlen hroom
      · rfl
      · rfl
      · exact absurd hrefuse (not_or.mpr ⟨hlen, hroom⟩)
    obtain ⟨hlog, hafter⟩ := produce_idle ⟨q, .idle, popping⟩ rfl (header + data.bytes.length + 1)
    rw [hstep, hlog, SpscByteQueue.answer_push_refused q hrefuse]
    exact ⟨rfl, hafter⟩
  · obtain ⟨hlen, hroom⟩ := not_or.mp hrefuse
    have hstep : step ⟨q, .idle, popping⟩ (.push data) =
        (⟨q, .writing data q.w (encode data.bytes), popping⟩, none) := by
      unfold step beginPush
      dsimp only
      rw [if_neg hlen, if_neg hroom]
      rfl
    have hwriting := produce_writing q popping data q.w (encode data.bytes)
    rw [SpscByteQueue.length_encode] at hwriting
    rw [hstep, hwriting.1, SpscByteQueue.answer_push_accepted hlen hroom]
    exact ⟨rfl, hwriting.2⟩

theorem consume_body (q : SpscByteQueue capacityBytes) (pushing : Pushing capacityBytes)
    (outCap len : ℕ) (p : Fin capacityBytes) (read : List Byte) (k : ℕ) (hk : read.length + k = len) :
    log ⟨q, pushing, .body outCap len p read.length (read.take outCap)⟩
        (List.replicate (k + 1) .consume) =
        [(.pop outCap, .popped len ((read ++ RingBuffer.walk q.buf p k).take outCap))] ∧
      after ⟨q, pushing, .body outCap len p read.length (read.take outCap)⟩
        (List.replicate (k + 1) .consume) = ⟨{ q with r := ahead p k }, pushing, .idle⟩ := by
  induction k generalizing p read with
  | zero =>
      have hstep : step ⟨q, pushing, .body outCap len p read.length (read.take outCap)⟩ .consume =
          (⟨{ q with r := p }, pushing, .idle⟩,
            some (.pop outCap, .popped len (read.take outCap))) := by
        unfold step consume
        exact if_neg (by omega)
      rw [List.replicate_succ, log, after, List.foldl_cons, hstep, RingBuffer.walk, List.append_nil]
      exact ⟨rfl, rfl⟩
  | succ k ih =>
      have hlength : (read ++ [q.buf p]).length = read.length + 1 := List.length_append
      have hout : (if read.length < outCap then read.take outCap ++ [q.buf p]
          else read.take outCap) = (read ++ [q.buf p]).take outCap := by
        split_ifs with hmore
        · rw [List.take_of_length_le hmore.le, List.take_of_length_le (by omega)]
        · rw [List.take_append_of_le_length (not_lt.mp hmore)]
      have hstep : step ⟨q, pushing, .body outCap len p read.length (read.take outCap)⟩ .consume =
          (⟨q, pushing, .body outCap len (next p) (read ++ [q.buf p]).length
            ((read ++ [q.buf p]).take outCap)⟩, none) := by
        rw [hlength, ← hout]
        unfold step consume
        exact if_pos (by omega)
      obtain ⟨hlog, hafter⟩ := ih (next p) (read ++ [q.buf p]) (by omega)
      rw [List.replicate_succ, log, after, List.foldl_cons, hstep]
      refine ⟨?_, hafter⟩
      dsimp only [Option.toList_none, List.nil_append]
      rw [hlog, RingBuffer.walk, List.append_assoc]
      rfl

/-- A pop that nothing interrupts is the pop of the queue. -/
theorem pop_uninterrupted (s : SharedQueue capacityBytes) (hidle : s.popping = .idle)
    (outCap : ℕ) (hne : s.queue.w ≠ s.queue.r) :
    s.log (.pop outCap :: List.replicate ((s.queue.pop outCap).2.1 + 3) .consume) =
        [(.pop outCap, (s.queue.answer (.pop outCap)).2)] ∧
      s.after (.pop outCap :: List.replicate ((s.queue.pop outCap).2.1 + 3) .consume) =
        { s with queue := (s.queue.answer (.pop outCap)).1 } := by
  obtain ⟨q, pushing, popping⟩ := s
  subst hidle
  have hpop : q.pop outCap =
      ({ q with r := ahead (next (next q.r)) ((q.buf q.r).toNat ||| (q.buf (next q.r)).toNat <<< 8) },
        (q.buf q.r).toNat ||| (q.buf (next q.r)).toNat <<< 8,
        (RingBuffer.walk q.buf (next (next q.r))
          ((q.buf q.r).toNat ||| (q.buf (next q.r)).toNat <<< 8)).take outCap) := by
    unfold SpscByteQueue.pop
    rw [if_neg hne]
  have hstep : step ⟨q, pushing, .idle⟩ (.pop outCap) = (⟨q, pushing, .low outCap⟩, none) := by
    unfold step beginPop
    dsimp only
    rw [if_neg hne]
  have hbody := consume_body q pushing outCap
    ((q.buf q.r).toNat ||| (q.buf (next q.r)).toNat <<< 8) (next (next q.r)) [] _ (Nat.zero_add _)
  rw [List.take_nil] at hbody
  rw [SpscByteQueue.answer, hpop]
  rw [log, after, List.foldl_cons, hstep]
  exact hbody

/-- However the steps of the producer and the consumer are interleaved, the calls are answered as a
bounded queue answers them one after the other. -/
theorem interleaved_answers (h : 0 < capacityBytes) (hcap : capacityBytes < 65536)
    (buf : Fin capacityBytes → Byte) (moves : List QueueMove)
    (hmoves : ∀ move ∈ moves, move.Representable) :
    ByteFifo.Answers capacityBytes [] ((fresh h buf).log moves) :=
  (sound_fresh h buf).answers hcap moves hmoves

/-- A push that comes between the two bytes of a length, and a pop that comes before the push is
through. -/
def interruptedMoves : List QueueMove :=
  [.push ⟨[1, 2, 3], by decide⟩] ++ List.replicate 6 .produce ++ [.pop 4, .consume] ++
    [.push ⟨[4, 5], by decide⟩] ++ List.replicate 3 .produce ++ List.replicate 5 .consume ++
    [.pop 1] ++ List.replicate 2 .produce ++ [.pop 1] ++ List.replicate 5 .consume

theorem interrupted_answers : ByteFifo.Answers 12 []
    ((fresh (by decide : 0 < 12) fun _ => 0).log interruptedMoves) :=
  interleaved_answers (by decide) (by decide) (fun _ => 0) interruptedMoves (by decide)

example : (fresh (by decide : 0 < 12) fun _ => 0).log interruptedMoves =
    [(.push ⟨[1, 2, 3], by decide⟩, .pushed true), (.pop 4, .popped 3 [1, 2, 3]),
      (.pop 1, .popped 0 []), (.push ⟨[4, 5], by decide⟩, .pushed true),
      (.pop 1, .popped 2 [4])] := by rfl

end SharedQueue

end Lightnet
