import Lightnet.Protocol
import Lightnet.Library.RingBuffer

/-!
# The byte record ring as a bounded queue

A record lies in the ring as a two byte little-endian length and its bytes, and may cross the end
of the ring anywhere. One byte stays free, so that equal offsets mean that the ring is empty. The
producer computes the room a record needs in sixteen bits: for the two longest lengths the sum
with the length prefix comes out as 0 or 1, and such a record is written over the ring however
small the ring is. Every other call is answered as a bounded queue of records answers it.
-/

namespace Lightnet

open RingBuffer

/-- What the producer hands over: bytes whose number a 16 bit length can hold. -/
structure ByteRecord where
  bytes : List Byte
  length_lt : bytes.length < 65536

structure SpscByteQueue (capacityBytes : ℕ) where
  buf : Fin capacityBytes → Byte
  w : Fin capacityBytes
  r : Fin capacityBytes

namespace SpscByteQueue

variable {capacityBytes : ℕ}

def header : ℕ := 2

/-- A queue as it is constructed: the bytes of the buffer are whatever the memory held. -/
def fresh (h : 0 < capacityBytes) (buf : Fin capacityBytes → Byte) :
    SpscByteQueue capacityBytes := ⟨buf, ⟨0, h⟩, ⟨0, h⟩⟩

def freeB (q : SpscByteQueue capacityBytes) : ℕ :=
  let used := if q.r.val ≤ q.w.val then q.w.val - q.r.val else (capacityBytes - q.r + q.w) % 65536
  (capacityBytes - 1 - used) % 65536

def lengthPrefix (len : ℕ) : List Byte := [BitVec.ofNat 8 len, BitVec.ofNat 8 (len / 256)]

def push (q : SpscByteQueue capacityBytes) (data : ByteRecord) :
    SpscByteQueue capacityBytes × Bool :=
  let len := data.bytes.length
  if len = 0 then (q, false)
  else
    let need := (header + len) % 65536
    if q.freeB < need then (q, false)
    else
      let s := store q.buf q.w (lengthPrefix len ++ data.bytes)
      ({ q with buf := s.1, w := s.2 }, true)

/-- The queue after a `pop`, the length it returns and the bytes it puts into `out`. -/
def pop (q : SpscByteQueue capacityBytes) (outCap : ℕ) :
    SpscByteQueue capacityBytes × ℕ × List Byte :=
  if q.w = q.r then (q, 0, [])
  else
    let lo := q.buf q.r
    let hi := q.buf (next q.r)
    let p := next (next q.r)
    let len := lo.toNat ||| hi.toNat <<< 8
    ({ q with r := ahead p len }, len, (RingBuffer.walk q.buf p len).take outCap)

end SpscByteQueue

inductive QueueCall where
  | push (data : ByteRecord)
  | pop (outCap : ℕ)

inductive QueueAnswer where
  | pushed (ok : Bool)
  | popped (len : ℕ) (out : List Byte)
  deriving DecidableEq

namespace SpscByteQueue

variable {capacityBytes : ℕ}

def answer (q : SpscByteQueue capacityBytes) :
    QueueCall → SpscByteQueue capacityBytes × QueueAnswer
  | .push data => ((q.push data).1, .pushed (q.push data).2)
  | .pop outCap => ((q.pop outCap).1, .popped (q.pop outCap).2.1 (q.pop outCap).2.2)

end SpscByteQueue

/-! ## The bounded queue -/

namespace ByteFifo

/-- The bytes that the records take with their prefixes. -/
def size (records : List (List Byte)) : ℕ :=
  (records.map (fun record => SpscByteQueue.header + record.length)).sum

/-- A push is refused exactly when the record is empty or does not fit with its length prefix and
the one spare byte; a pop hands over the oldest record, as far as the caller's buffer goes. -/
def answer (capacityBytes : ℕ) (records : List (List Byte)) :
    QueueCall → List (List Byte) × QueueAnswer
  | .push data =>
      if data.bytes = [] ∨
          capacityBytes < size records + (SpscByteQueue.header + data.bytes.length) + 1 then
        (records, .pushed false)
      else (records ++ [data.bytes], .pushed true)
  | .pop outCap =>
      match records with
      | [] => ([], .popped 0 [])
      | record :: rest => (rest, .popped record.length (record.take outCap))

/-- The lengths for which the room that is needed stays within sixteen bits. The very longest
record is refused anyway while not a byte is free. -/
def RoomRepresentable (capacityBytes : ℕ) (records : List (List Byte)) : QueueCall → Prop
  | .push data => data.bytes.length + SpscByteQueue.header < 65536 ∨
      (data.bytes.length = 65535 ∧ size records + 1 = capacityBytes)
  | .pop _ => True

theorem not_roomRepresentable {capacityBytes : ℕ} {records : List (List Byte)} {data : ByteRecord}
    (h : data.bytes.length = 65534) : ¬ RoomRepresentable capacityBytes records (.push data) := by
  unfold RoomRepresentable SpscByteQueue.header
  omega

/-- The calls of a run, each made while the bounded queue holds what the earlier ones left. -/
def AllRepresentable (capacityBytes : ℕ) : List (List Byte) → List QueueCall → Prop
  | _, [] => True
  | records, call :: calls => RoomRepresentable capacityBytes records call ∧
      AllRepresentable capacityBytes (answer capacityBytes records call).1 calls

end ByteFifo

namespace SpscByteQueue

variable {capacityBytes : ℕ}

/-- Every call of the run is answered as the bounded queue answers it, and a refused push leaves
the ring as it was. -/
def Follows : SpscByteQueue capacityBytes → List (List Byte) → List QueueCall → Prop
  | _, _, [] => True
  | q, records, call :: calls =>
      (q.answer call).2 = (ByteFifo.answer capacityBytes records call).2 ∧
      ((q.answer call).2 = .pushed false → (q.answer call).1 = q) ∧
      Follows (q.answer call).1 (ByteFifo.answer capacityBytes records call).1 calls

/-! ## What lies in the ring -/

def encode (record : List Byte) : List Byte := lengthPrefix record.length ++ record

def image (records : List (List Byte)) : List Byte := records.flatMap encode

theorem length_encode (record : List Byte) : (encode record).length = header + record.length := by
  rw [encode, List.length_append]
  rfl

theorem length_image (records : List (List Byte)) : (image records).length = ByteFifo.size records := by
  rw [image, List.length_flatMap, ByteFifo.size]
  simp only [length_encode]

theorem image_append (records : List (List Byte)) (record : List Byte) :
    image (records ++ [record]) = image records ++ encode record := by
  simp [image]

theorem size_append (records : List (List Byte)) (record : List Byte) :
    ByteFifo.size (records ++ [record]) = ByteFifo.size records + (header + record.length) := by
  simp [ByteFifo.size]

theorem size_cons (record : List Byte) (records : List (List Byte)) :
    ByteFifo.size (record :: records) = (header + record.length) + ByteFifo.size records := by
  simp [ByteFifo.size]

/-- The ring holds these records, oldest first. -/
structure Holds (q : SpscByteQueue capacityBytes) (records : List (List Byte)) : Prop where
  size_lt : ByteFifo.size records < capacityBytes
  bytes : RingBuffer.walk q.buf q.r (ByteFifo.size records) = image records
  write : q.w = ahead q.r (ByteFifo.size records)
  representable : ∀ record ∈ records, record.length < 65536

theorem fresh_holds (h : 0 < capacityBytes) (buf : Fin capacityBytes → Byte) :
    (fresh h buf).Holds [] :=
  ⟨h, rfl, rfl, fun _ hmem => absurd hmem List.not_mem_nil⟩

theorem Holds.freeB {q : SpscByteQueue capacityBytes} {records : List (List Byte)}
    (h : q.Holds records) (hcap : capacityBytes < 65536) :
    q.freeB + (ByteFifo.size records + 1) = capacityBytes := by
  have hdist : distance q.r q.w = ByteFifo.size records := by
    rw [h.write]
    exact distance_ahead q.r h.size_lt
  have hlt := h.size_lt
  have hr := q.r.isLt
  have hw := q.w.isLt
  unfold distance at hdist
  unfold SpscByteQueue.freeB
  dsimp only
  split_ifs at hdist ⊢ with hle
  · omega
  · rw [Nat.mod_eq_of_lt (a := capacityBytes - q.r + q.w) (by omega)]
    omega

theorem holds_push {q : SpscByteQueue capacityBytes} {records : List (List Byte)}
    (h : q.Holds records) (data : ByteRecord)
    (hroom : ByteFifo.size records + (header + data.bytes.length) + 1 ≤ capacityBytes) :
    Holds ⟨(store q.buf q.w (encode data.bytes)).1, (store q.buf q.w (encode data.bytes)).2, q.r⟩
      (records ++ [data.bytes]) := by
  refine ⟨?_, ?_, ?_, ?_⟩
  · rw [size_append]
    omega
  · have hfit : ByteFifo.size records + (encode data.bytes).length ≤ capacityBytes := by
      rw [length_encode]
      omega
    rw [size_append, ← length_encode, image_append, ← h.bytes, h.write]
    exact walk_store hfit
  · change (store q.buf q.w (encode data.bytes)).2 = _
    rw [store_snd, h.write, ahead_add, size_append, length_encode]
  · intro record hmem
    rcases List.mem_append.mp hmem with hold | hnew
    · exact h.representable record hold
    · rw [List.mem_singleton.mp hnew]
      exact data.length_lt

/-- The length that is read back from the prefix. -/
theorem length_of_prefix {len : ℕ} (h : len < 65536) :
    (BitVec.ofNat 8 len).toNat ||| (BitVec.ofNat 8 (len / 256)).toNat <<< 8 = len := by
  have hlo : len % 256 < 2 ^ 8 := Nat.mod_lt _ (by decide)
  rw [BitVec.toNat_ofNat, BitVec.toNat_ofNat, Nat.shiftLeft_eq, Nat.or_comm, Nat.mul_comm,
    ← Nat.two_pow_add_eq_or_of_lt hlo]
  omega

theorem holds_pop {q : SpscByteQueue capacityBytes} {record : List Byte}
    {records : List (List Byte)} (h : q.Holds (record :: records)) (outCap : ℕ) :
    q.answer (.pop outCap) =
      ({ q with r := ahead q.r (header + record.length) },
        .popped record.length (record.take outCap)) := by
  have hsize := h.size_lt
  have hbytes := h.bytes
  have hwrite := h.write
  rw [size_cons] at hsize hbytes hwrite
  have hne : q.w ≠ q.r := by
    intro heq
    rw [heq] at hwrite
    have := ahead_inj (p := q.r) (j := 0) (by omega) hsize hwrite
    unfold header at this
    omega
  have himage : image (record :: records) = encode record ++ image records := rfl
  rw [walk_add, himage] at hbytes
  have hfirst := (List.append_inj hbytes (by rw [length_walk, length_encode])).1
  rw [walk_add] at hfirst
  obtain ⟨hlength, hrecord⟩ := List.append_inj hfirst rfl
  obtain ⟨hlo, hhi⟩ : q.buf q.r = BitVec.ofNat 8 record.length ∧
      q.buf (next q.r) = BitVec.ofNat 8 (record.length / 256) := by
    simpa [RingBuffer.walk, header, lengthPrefix] using hlength
  have hlen := length_of_prefix (h.representable record List.mem_cons_self)
  have hpop : q.pop outCap = ({ q with r := ahead q.r (header + record.length) }, record.length,
      record.take outCap) := by
    unfold pop
    rw [if_neg hne, hlo, hhi]
    dsimp only
    rw [hlen]
    have hwalk : RingBuffer.walk q.buf (next (next q.r)) record.length = record := hrecord
    rw [hwalk]
    have hahead : ahead (next (next q.r)) record.length = ahead q.r (header + record.length) :=
      ahead_add q.r header record.length
    rw [hahead]
  rw [answer, hpop]

theorem Holds.rest {q : SpscByteQueue capacityBytes} {record : List Byte}
    {records : List (List Byte)} (h : q.Holds (record :: records)) :
    Holds { q with r := ahead q.r (header + record.length) } records := by
  have hsize := h.size_lt
  have hbytes := h.bytes
  have hwrite := h.write
  rw [size_cons] at hsize hbytes hwrite
  have himage : image (record :: records) = encode record ++ image records := rfl
  rw [walk_add, himage] at hbytes
  refine ⟨by omega, ?_, ?_, fun d hd => h.representable d (List.mem_cons_of_mem record hd)⟩
  · exact (List.append_inj hbytes (by rw [length_walk, length_encode])).2
  · rw [ahead_add]
    exact hwrite

theorem answer_pop_empty {q : SpscByteQueue capacityBytes} (h : q.Holds []) (outCap : ℕ) :
    q.answer (.pop outCap) = (q, .popped 0 []) := by
  have hempty : q.w = q.r := h.write
  have hpop : q.pop outCap = (q, 0, []) := if_pos hempty
  rw [answer, hpop]

theorem answer_push_refused (q : SpscByteQueue capacityBytes) {data : ByteRecord}
    (h : data.bytes.length = 0 ∨ q.freeB < (header + data.bytes.length) % 65536) :
    q.answer (.push data) = (q, .pushed false) := by
  have hpush : q.push data = (q, false) := by
    unfold push
    dsimp only
    split_ifs with hlen hroom
    · rfl
    · rfl
    · exact absurd h (not_or.mpr ⟨hlen, hroom⟩)
  rw [answer, hpush]

theorem answer_push_accepted {q : SpscByteQueue capacityBytes} {data : ByteRecord}
    (hlen : data.bytes.length ≠ 0) (hroom : ¬ q.freeB < (header + data.bytes.length) % 65536) :
    q.answer (.push data) =
      (⟨(store q.buf q.w (encode data.bytes)).1, (store q.buf q.w (encode data.bytes)).2, q.r⟩,
        .pushed true) := by
  have hpush : q.push data =
      (⟨(store q.buf q.w (encode data.bytes)).1, (store q.buf q.w (encode data.bytes)).2, q.r⟩,
        true) := by
    unfold push
    dsimp only
    rw [if_neg hlen, if_neg hroom]
    rfl
  rw [answer, hpush]

/-- What the queues are left with by one call, and that they answer it alike. -/
structure Alike (q : SpscByteQueue capacityBytes) (records : List (List Byte)) (call : QueueCall) :
    Prop where
  answer : (q.answer call).2 = (ByteFifo.answer capacityBytes records call).2
  refused : (q.answer call).2 = .pushed false → (q.answer call).1 = q
  holds : Holds (q.answer call).1 (ByteFifo.answer capacityBytes records call).1

theorem alike_push {q : SpscByteQueue capacityBytes} {records : List (List Byte)}
    (h : q.Holds records) (hcap : capacityBytes < 65536) {data : ByteRecord}
    (hroom : ByteFifo.RoomRepresentable capacityBytes records (.push data)) :
    q.Alike records (.push data) := by
  have hfree := h.freeB hcap
  have hneed : q.freeB < (header + data.bytes.length) % 65536 ↔
      capacityBytes < ByteFifo.size records + (header + data.bytes.length) + 1 := by
    unfold ByteFifo.RoomRepresentable at hroom
    unfold header at hroom ⊢
    omega
  by_cases hlen : data.bytes.length = 0
  · have hspec : ByteFifo.answer capacityBytes records (.push data) = (records, .pushed false) :=
      if_pos (Or.inl (List.length_eq_zero_iff.mp hlen))
    have hcode := @answer_push_refused capacityBytes q data (Or.inl hlen)
    exact ⟨by rw [hcode, hspec], fun _ => by rw [hcode], by rw [hcode, hspec]; exact h⟩
  · have hne : data.bytes ≠ [] := fun heq => hlen (List.length_eq_zero_iff.mpr heq)
    by_cases hfull : q.freeB < (header + data.bytes.length) % 65536
    · have hspec : ByteFifo.answer capacityBytes records (.push data) = (records, .pushed false) :=
        if_pos (Or.inr (hneed.mp hfull))
      have hcode := answer_push_refused q (Or.inr hfull)
      exact ⟨by rw [hcode, hspec], fun _ => by rw [hcode], by rw [hcode, hspec]; exact h⟩
    · have hspec : ByteFifo.answer capacityBytes records (.push data) =
          (records ++ [data.bytes], .pushed true) :=
        if_neg (not_or.mpr ⟨hne, fun hlt => hfull (hneed.mpr hlt)⟩)
      have hcode := answer_push_accepted hlen hfull
      refine ⟨by rw [hcode, hspec], fun hno => ?_, ?_⟩
      · rw [hcode] at hno
        cases hno
      · rw [hcode, hspec]
        exact holds_push h data (Nat.not_lt.mp fun hlt => hfull (hneed.mpr hlt))

theorem alike_pop {q : SpscByteQueue capacityBytes} {records : List (List Byte)}
    (h : q.Holds records) (outCap : ℕ) : q.Alike records (.pop outCap) := by
  cases records with
  | nil =>
      have hcode := answer_pop_empty h outCap
      exact ⟨by rw [hcode]; rfl, fun _ => by rw [hcode], by rw [hcode]; exact h⟩
  | cons record records =>
      have hcode := holds_pop h outCap
      refine ⟨by rw [hcode]; rfl, fun hno => ?_, by rw [hcode]; exact h.rest⟩
      rw [hcode] at hno
      cases hno

theorem alike {q : SpscByteQueue capacityBytes} {records : List (List Byte)}
    (h : q.Holds records) (hcap : capacityBytes < 65536) {call : QueueCall}
    (hroom : ByteFifo.RoomRepresentable capacityBytes records call) : q.Alike records call := by
  cases call with
  | push data => exact alike_push h hcap hroom
  | pop outCap => exact alike_pop h outCap

theorem holds_of_push {q : SpscByteQueue capacityBytes} {records : List (List Byte)}
    (h : q.Holds records) (hcap : capacityBytes < 65536) {data : ByteRecord}
    (hroom : data.bytes.length + header < 65536) :
    Holds (q.push data).1 (if (q.push data).2 then records ++ [data.bytes] else records) ∧
      ((q.push data).2 = true → data.bytes ≠ []) := by
  have halike := alike_push h hcap (Or.inl hroom)
  have hanswer := halike.answer
  have hholds := halike.holds
  by_cases hrefuse : data.bytes = [] ∨
      capacityBytes < ByteFifo.size records + (header + data.bytes.length) + 1
  · have hspec : ByteFifo.answer capacityBytes records (.push data) = (records, .pushed false) :=
      if_pos hrefuse
    rw [hspec] at hanswer hholds
    rw [QueueAnswer.pushed.inj hanswer]
    exact ⟨hholds, fun hno => absurd hno Bool.false_ne_true⟩
  · have hspec : ByteFifo.answer capacityBytes records (.push data) =
        (records ++ [data.bytes], .pushed true) := if_neg hrefuse
    rw [hspec] at hanswer hholds
    rw [QueueAnswer.pushed.inj hanswer]
    exact ⟨hholds, fun _ => (not_or.mp hrefuse).1⟩

/-- A record whose room is not representable is accepted, though it is longer than the ring. -/
theorem answer_ne {q : SpscByteQueue capacityBytes} {records : List (List Byte)}
    (h : q.Holds records) (hcap : capacityBytes < 65536) {call : QueueCall}
    (hroom : ¬ ByteFifo.RoomRepresentable capacityBytes records call) :
    (q.answer call).2 ≠ (ByteFifo.answer capacityBytes records call).2 := by
  cases call with
  | pop outCap => exact absurd trivial hroom
  | push data =>
      have hlt := data.length_lt
      have hfree := h.freeB hcap
      unfold ByteFifo.RoomRepresentable at hroom
      have hlen : data.bytes.length ≠ 0 := by
        unfold header at hroom
        omega
      have hneed : ¬ q.freeB < (header + data.bytes.length) % 65536 := by
        unfold header at hroom ⊢
        omega
      have hspec : ByteFifo.answer capacityBytes records (.push data) = (records, .pushed false) :=
        if_pos (Or.inr (by unfold header at hroom ⊢; omega))
      rw [answer_push_accepted hlen hneed, hspec]
      intro heq
      cases heq

theorem follows_iff {q : SpscByteQueue capacityBytes} {records : List (List Byte)}
    (h : q.Holds records) (hcap : capacityBytes < 65536) (calls : List QueueCall) :
    q.Follows records calls ↔ ByteFifo.AllRepresentable capacityBytes records calls := by
  induction calls generalizing q records with
  | nil => exact Iff.rfl
  | cons call calls ih =>
      by_cases hroom : ByteFifo.RoomRepresentable capacityBytes records call
      · have halike := alike h hcap hroom
        have hrest := ih halike.holds
        exact ⟨fun hfollows => ⟨hroom, hrest.mp hfollows.2.2⟩,
          fun hall => ⟨halike.answer, halike.refused, hrest.mpr hall.2⟩⟩
      · exact iff_of_false (fun hfollows => answer_ne h hcap hroom hfollows.1)
          (fun hall => hroom hall.1)

end SpscByteQueue

end Lightnet
