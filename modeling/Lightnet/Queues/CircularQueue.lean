import Lightnet.Queues.SpscByteQueue
import Lightnet.Storage.Records

/-!
# The queue of contiguous records

The commands of a web socket wait in a ring in which every record lies in one piece, so that it
can be handed over as a pointer. A record that does not fit before the end of the buffer is put at
its start, and `softTail` keeps where the records before it end. Pointers are offsets from the
head of the buffer.
-/

namespace Lightnet

open Storage (readByte readAt writeAt)
open SpscByteQueue (encode lengthPrefix)

structure CircularQueue where
  bufferSize : ℕ
  memory : List Byte
  softTail : ℕ
  writePointer : ℕ
  readPointer : ℕ
  itemsCount : ℕ

namespace CircularQueue

def create (bufferSize : BitVec 16) : CircularQueue :=
  { bufferSize := bufferSize.toNat
    memory := List.replicate bufferSize.toNat 0
    softTail := bufferSize.toNat
    writePointer := 0
    readPointer := 0
    itemsCount := 0 }

def writeData (q : CircularQueue) (data : ByteRecord) : CircularQueue :=
  { q with
    memory := writeAt q.memory q.writePointer (lengthPrefix data.bytes.length ++ data.bytes)
    writePointer := q.writePointer + 2 + data.bytes.length }

def counted (q : CircularQueue) : CircularQueue :=
  { q with itemsCount := (q.itemsCount + 1) % 65536 }

def wrapped (q : CircularQueue) : CircularQueue :=
  { q with softTail := q.writePointer, writePointer := 0 }

def enqueue (q : CircularQueue) (data : ByteRecord) : CircularQueue × Bool :=
  let dataSize := data.bytes.length + 2
  if q.writePointer = q.readPointer ∧ q.itemsCount ≠ 0 then (q, false)
  else if q.readPointer ≤ q.writePointer then
    if q.bufferSize - q.writePointer < dataSize ∧ q.readPointer < dataSize then (q, false)
    else if q.bufferSize - q.writePointer < dataSize then
      (q.wrapped.counted.writeData data, true)
    else (q.counted.writeData data, true)
  else if q.readPointer - q.writePointer < dataSize then (q, false)
  else (q.counted.writeData data, true)

def unwrapped (q : CircularQueue) : CircularQueue :=
  if q.readPointer = q.softTail then { q with readPointer := 0, softTail := q.bufferSize } else q

/-- The record is handed over as the address of its bytes; with them here stand the bytes. -/
def readData (q : CircularQueue) : CircularQueue × ℕ × List Byte :=
  let q := q.unwrapped
  let size := ((readByte q.memory (q.readPointer + 1)).toNat <<< 8 +
    (readByte q.memory q.readPointer).toNat) % 65536
  let data := q.readPointer + 2
  ({ q with readPointer := data + size }, data, readAt q.memory data size)

def dequeue (q : CircularQueue) : CircularQueue × Option (ℕ × List Byte) :=
  if q.itemsCount = 0 then (q, none)
  else
    let r := { q with itemsCount := q.itemsCount - 1 }.readData
    (r.1, some r.2)

end CircularQueue

inductive CircularCall where
  | enqueue (data : ByteRecord)
  | dequeue

namespace CircularQueue

/-- The record lies in one piece in the buffer. -/
def Intact (q : CircularQueue) (record : ℕ × List Byte) : Prop :=
  record.1 + record.2.length ≤ q.bufferSize ∧
    readAt q.memory record.1 record.2.length = record.2

/-- The run of calls from a queue in which these records are stored: a refused enqueue changes
nothing, an accepted one leaves every stored record intact, and a dequeue hands over the oldest
record that is still stored. -/
def FirstInFirstOut : CircularQueue → List (ℕ × List Byte) → List CircularCall → Prop
  | _, _, [] => True
  | q, stored, .enqueue data :: calls =>
      (q.enqueue data = (q, false) ∧ FirstInFirstOut q stored calls) ∨
      ∃ q' address, q.enqueue data = (q', true) ∧
        (∀ record ∈ stored ++ [(address, data.bytes)], q'.Intact record) ∧
        FirstInFirstOut q' (stored ++ [(address, data.bytes)]) calls
  | q, [], .dequeue :: calls => q.dequeue = (q, none) ∧ FirstInFirstOut q [] calls
  | q, record :: stored, .dequeue :: calls =>
      ∃ q', q.dequeue = (q', some record) ∧ FirstInFirstOut q' stored calls

/-! ## How the records lie -/

/-- The records lie one behind the other from `first` to `last`. -/
def LaidOut (memory : List Byte) : ℕ → ℕ → List (ℕ × List Byte) → Prop
  | first, last, [] => first = last
  | first, last, record :: records =>
      record.1 = first + 2 ∧ record.2.length < 65536 ∧
        readAt memory first (2 + record.2.length) = encode record.2 ∧
        LaidOut memory (first + (2 + record.2.length)) last records

theorem LaidOut.le {memory : List Byte} {records : List (ℕ × List Byte)} {first last : ℕ}
    (h : LaidOut memory first last records) : first + 2 * records.length ≤ last := by
  induction records generalizing first with
  | nil => exact Nat.le_of_eq h
  | cons record records ih =>
      have hrest := ih h.2.2.2
      rw [List.length_cons]
      omega

theorem LaidOut.append {memory : List Byte} {records others : List (ℕ × List Byte)}
    {first mid last : ℕ} (h : LaidOut memory first mid records)
    (h' : LaidOut memory mid last others) : LaidOut memory first last (records ++ others) := by
  induction records generalizing first with
  | nil =>
      have heq : first = mid := h
      rw [heq]
      exact h'
  | cons record records ih => exact ⟨h.1, h.2.1, h.2.2.1, ih h.2.2.2⟩

theorem LaidOut.congr {memory memory' : List Byte} {records : List (ℕ × List Byte)}
    {first last : ℕ} (h : LaidOut memory first last records)
    (hsame : ∀ i, first ≤ i → i < last → memory'[i]? = memory[i]?) :
    LaidOut memory' first last records := by
  induction records generalizing first with
  | nil => exact h
  | cons record records ih =>
      have hle := h.2.2.2.le
      refine ⟨h.1, h.2.1, ?_, ih h.2.2.2 (fun i hi hlt => hsame i (by omega) hlt)⟩
      rw [← h.2.2.1]
      exact Storage.readAt_congr (fun i hi hlt => hsame i hi (by omega))

theorem readAt_add (memory : List Byte) (offset j k : ℕ) :
    readAt memory offset (j + k) = readAt memory offset j ++ readAt memory (offset + j) k := by
  unfold readAt
  rw [List.take_add, List.drop_drop]

/-- The bytes of a record follow its prefix. -/
theorem LaidOut.record {memory : List Byte} {record : ℕ × List Byte}
    {records : List (ℕ × List Byte)} {first last : ℕ}
    (h : LaidOut memory first last (record :: records)) :
    readAt memory first 2 = lengthPrefix record.2.length ∧
      readAt memory (first + 2) record.2.length = record.2 := by
  have hbytes := h.2.2.1
  rw [readAt_add] at hbytes
  have hlen : (encode record.2).length = 2 + record.2.length := SpscByteQueue.length_encode _
  have hlong : (readAt memory first 2).length = 2 := by
    have hsum := congrArg List.length hbytes
    rw [List.length_append, hlen] at hsum
    have hfirst : (readAt memory first 2).length ≤ 2 := List.length_take_le _ _
    have hsecond : (readAt memory (first + 2) record.2.length).length ≤ record.2.length :=
      List.length_take_le _ _
    omega
  exact List.append_inj hbytes hlong

theorem LaidOut.intact {q : CircularQueue} {records : List (ℕ × List Byte)} {first last : ℕ}
    (h : LaidOut q.memory first last records) (hlast : last ≤ q.bufferSize) :
    ∀ record ∈ records, q.Intact record := by
  induction records generalizing first with
  | nil => exact fun _ hmem => absurd hmem List.not_mem_nil
  | cons record records ih =>
      intro other hmem
      rcases List.mem_cons.mp hmem with rfl | hmem
      · have hle := h.2.2.2.le
        have haddress := h.1
        refine ⟨by omega, ?_⟩
        rw [haddress]
        exact h.record.2
      · exact ih h.2.2.2 other hmem

/-- The records that are stored, oldest first. -/
structure Stores (q : CircularQueue) (records : List (ℕ × List Byte)) : Prop where
  length_memory : q.memory.length = q.bufferSize
  bufferSize_lt : q.bufferSize < 65536
  count : q.itemsCount = records.length
  laidOut : (q.softTail = q.bufferSize ∧ q.writePointer ≤ q.bufferSize ∧
      LaidOut q.memory q.readPointer q.writePointer records) ∨
    (∃ first second, records = first ++ second ∧ second ≠ [] ∧
      q.writePointer ≤ q.readPointer ∧ q.softTail ≤ q.bufferSize ∧
      LaidOut q.memory q.readPointer q.softTail first ∧
      LaidOut q.memory 0 q.writePointer second)

theorem create_stores (bufferSize : BitVec 16) : (create bufferSize).Stores [] :=
  ⟨List.length_replicate, bufferSize.isLt, rfl, Or.inl ⟨rfl, Nat.zero_le _, rfl⟩⟩

theorem Stores.intact {q : CircularQueue} {records : List (ℕ × List Byte)} (h : q.Stores records) :
    ∀ record ∈ records, q.Intact record := by
  rcases h.laidOut with ⟨-, hwrite, hlaid⟩ | ⟨first, second, rfl, -, hwrite, htail, hfirst, hsecond⟩
  · exact hlaid.intact hwrite
  · have hread := hfirst.le
    intro record hmem
    rcases List.mem_append.mp hmem with hmem | hmem
    · exact hfirst.intact htail record hmem
    · exact hsecond.intact (by omega) record hmem

/-! ## Enqueue -/

theorem laidOut_writeData {q : CircularQueue} {data : ByteRecord}
    (hfit : q.writePointer + (2 + data.bytes.length) ≤ q.memory.length) :
    LaidOut (q.writeData data).memory q.writePointer (q.writeData data).writePointer
      [(q.writePointer + 2, data.bytes)] := by
  have hlen : (encode data.bytes).length = 2 + data.bytes.length := SpscByteQueue.length_encode _
  refine ⟨rfl, data.length_lt, ?_, (Nat.add_assoc _ _ _).symm⟩
  have hself := @Storage.readAt_writeAt_self q.memory q.writePointer (encode data.bytes)
    (by rw [hlen]; exact hfit)
  rw [hlen] at hself
  exact hself

theorem LaidOut.writeData {q : CircularQueue} {data : ByteRecord}
    {records : List (ℕ × List Byte)} {first last : ℕ}
    (h : LaidOut q.memory first last records)
    (hfit : q.writePointer + (2 + data.bytes.length) ≤ q.memory.length)
    (happart : last ≤ q.writePointer ∨ q.writePointer + (2 + data.bytes.length) ≤ first) :
    LaidOut (q.writeData data).memory first last records := by
  have hlen : (encode data.bytes).length = 2 + data.bytes.length := SpscByteQueue.length_encode _
  apply h.congr
  intro i hi hlt
  change (writeAt q.memory q.writePointer (encode data.bytes))[i]? = _
  rw [Storage.getElem?_writeAt (by rw [hlen]; exact hfit), if_neg (by rw [hlen]; omega)]

theorem length_writeData {q : CircularQueue} {data : ByteRecord}
    (hfit : q.writePointer + (2 + data.bytes.length) ≤ q.memory.length) :
    (q.writeData data).memory.length = q.memory.length := by
  have hlen : (encode data.bytes).length = 2 + data.bytes.length := SpscByteQueue.length_encode _
  rw [← hlen] at hfit
  exact Storage.length_writeAt hfit

theorem Stores.count_lt {q : CircularQueue} {records : List (ℕ × List Byte)} (h : q.Stores records) :
    2 * records.length ≤ q.bufferSize := by
  rcases h.laidOut with ⟨-, hwrite, hlaid⟩ | ⟨first, second, rfl, -, hwrite, htail, hfirst, hsecond⟩
  · have := hlaid.le
    omega
  · have := hfirst.le
    have := hsecond.le
    rw [List.length_append]
    omega

theorem Stores.counted {q : CircularQueue} {records : List (ℕ × List Byte)} (h : q.Stores records) :
    q.counted.itemsCount = records.length + 1 := by
  have hcount := h.count_lt
  have hsize := h.bufferSize_lt
  change (q.itemsCount + 1) % 65536 = _
  rw [h.count, Nat.mod_eq_of_lt (by omega)]

/-- The record is put behind the others, before the end of the buffer. -/
theorem stores_behind {q : CircularQueue} {records : List (ℕ × List Byte)} {data : ByteRecord}
    (h : q.Stores records) (htail : q.softTail = q.bufferSize)
    (hlaid : LaidOut q.memory q.readPointer q.writePointer records)
    (hfit : q.writePointer + (2 + data.bytes.length) ≤ q.bufferSize) :
    (q.counted.writeData data).Stores (records ++ [(q.writePointer + 2, data.bytes)]) := by
  have hroom : q.counted.writePointer + (2 + data.bytes.length) ≤ q.counted.memory.length := by
    rw [← h.length_memory] at hfit
    exact hfit
  refine ⟨(length_writeData hroom).trans h.length_memory, h.bufferSize_lt, ?_,
    Or.inl ⟨htail, (Nat.add_assoc _ _ _).trans_le hfit, ?_⟩⟩
  · rw [List.length_append]
    exact h.counted
  · exact (LaidOut.writeData (q := q.counted) hlaid hroom (Or.inl le_rfl)).append
      (laidOut_writeData hroom)

/-- The record is put at the start of the buffer, where the others have been taken out. -/
theorem stores_start {q : CircularQueue} {records : List (ℕ × List Byte)} {data : ByteRecord}
    (h : q.Stores records) (hwrite : q.writePointer ≤ q.bufferSize)
    (hlaid : LaidOut q.memory q.readPointer q.writePointer records)
    (hfit : 2 + data.bytes.length ≤ q.readPointer) :
    (q.wrapped.counted.writeData data).Stores (records ++ [(2, data.bytes)]) := by
  have hread := hlaid.le
  have hroom : q.wrapped.counted.writePointer + (2 + data.bytes.length) ≤
      q.wrapped.counted.memory.length := by
    change 0 + (2 + data.bytes.length) ≤ q.memory.length
    rw [h.length_memory]
    omega
  refine ⟨(length_writeData hroom).trans h.length_memory, h.bufferSize_lt, ?_,
    Or.inr ⟨records, [(2, data.bytes)], rfl, List.cons_ne_nil _ _, ?_, hwrite, ?_, ?_⟩⟩
  · rw [List.length_append]
    exact h.counted
  · change 0 + 2 + data.bytes.length ≤ q.readPointer
    omega
  · refine LaidOut.writeData (q := q.wrapped.counted) hlaid hroom (Or.inr ?_)
    change 0 + (2 + data.bytes.length) ≤ q.readPointer
    omega
  · exact laidOut_writeData (q := q.wrapped.counted) hroom

/-- The record is put between the ones at the start of the buffer and the ones before its end. -/
theorem stores_between {q : CircularQueue} {first second : List (ℕ × List Byte)}
    {data : ByteRecord} (h : q.Stores (first ++ second)) (htail : q.softTail ≤ q.bufferSize)
    (hfirst : LaidOut q.memory q.readPointer q.softTail first)
    (hsecond : LaidOut q.memory 0 q.writePointer second)
    (hfit : q.writePointer + (2 + data.bytes.length) ≤ q.readPointer) :
    (q.counted.writeData data).Stores
      (first ++ second ++ [(q.writePointer + 2, data.bytes)]) := by
  have hread := hfirst.le
  have hroom : q.counted.writePointer + (2 + data.bytes.length) ≤ q.counted.memory.length := by
    change q.writePointer + (2 + data.bytes.length) ≤ q.memory.length
    rw [h.length_memory]
    omega
  refine ⟨(length_writeData hroom).trans h.length_memory, h.bufferSize_lt, ?_,
    Or.inr ⟨first, second ++ [(q.writePointer + 2, data.bytes)], List.append_assoc _ _ _, ?_, ?_,
      htail, ?_, ?_⟩⟩
  · rw [List.length_append]
    exact h.counted
  · exact List.append_ne_nil_of_right_ne_nil _ (List.cons_ne_nil _ _)
  · exact (Nat.add_assoc _ _ _).trans_le hfit
  · exact LaidOut.writeData (q := q.counted) hfirst hroom (Or.inr hfit)
  · exact (LaidOut.writeData (q := q.counted) hsecond hroom (Or.inl le_rfl)).append
      (laidOut_writeData hroom)

/-- An enqueue changes nothing, or stores the record behind the others. -/
theorem enqueue_cases {q : CircularQueue} {records : List (ℕ × List Byte)} (h : q.Stores records)
    (data : ByteRecord) :
    q.enqueue data = (q, false) ∨
      ∃ q' address, q.enqueue data = (q', true) ∧
        q'.Stores (records ++ [(address, data.bytes)]) := by
  unfold enqueue
  dsimp only
  by_cases hfull : q.writePointer = q.readPointer ∧ q.itemsCount ≠ 0
  · exact Or.inl (if_pos hfull)
  rw [if_neg hfull]
  rcases h.laidOut with ⟨htail, hwrite, hlaid⟩ |
    ⟨first, second, rfl, hne, hwrite, htail, hfirst, hsecond⟩
  · have hle := hlaid.le
    rw [if_pos (show q.readPointer ≤ q.writePointer by omega)]
    split_ifs with hno hshort
    · exact Or.inl rfl
    · exact Or.inr ⟨_, _, rfl, stores_start h hwrite hlaid (by omega)⟩
    · exact Or.inr ⟨_, _, rfl, stores_behind h htail hlaid (by omega)⟩
  · have hsome : q.itemsCount ≠ 0 := by
      have hpos := List.length_pos_iff.mpr hne
      rw [h.count, List.length_append]
      omega
    have hlt : ¬ q.readPointer ≤ q.writePointer := fun hle =>
      hfull ⟨Nat.le_antisymm hwrite hle, hsome⟩
    rw [if_neg hlt]
    split_ifs with hno
    · exact Or.inl rfl
    · exact Or.inr ⟨_, _, rfl, stores_between h htail hfirst hsecond (by omega)⟩

/-! ## Dequeue -/

theorem readByte_of_readAt {memory : List Byte} {offset : ℕ} {a b : Byte}
    (h : readAt memory offset 2 = [a, b]) :
    readByte memory offset = a ∧ readByte memory (offset + 1) = b := by
  have hget (i : ℕ) (hi : i < 2) : memory[offset + i]? = [a, b][i]? := by
    rw [← h, Storage.getElem?_readAt, if_pos hi]
  have hfirst := hget 0 (by omega)
  have hsecond := hget 1 (by omega)
  rw [readByte, readByte, List.getD_eq_getElem?_getD, List.getD_eq_getElem?_getD, hsecond]
  rw [Nat.add_zero] at hfirst
  rw [hfirst]
  exact ⟨rfl, rfl⟩

theorem size_of_prefix {len : ℕ} (h : len < 65536) :
    ((BitVec.ofNat 8 (len / 256)).toNat <<< 8 + (BitVec.ofNat 8 len).toNat) % 65536 = len := by
  rw [BitVec.toNat_ofNat, BitVec.toNat_ofNat, Nat.shiftLeft_eq]
  omega

theorem readData_record {q : CircularQueue} {record : ℕ × List Byte}
    {records : List (ℕ × List Byte)} {last : ℕ}
    (h : LaidOut q.unwrapped.memory q.unwrapped.readPointer last (record :: records)) :
    q.readData =
      ({ q.unwrapped with readPointer := q.unwrapped.readPointer + (2 + record.2.length) },
        record) := by
  obtain ⟨hlength, hbytes⟩ := h.record
  obtain ⟨hlo, hhi⟩ := readByte_of_readAt hlength
  unfold readData
  dsimp only
  rw [hlo, hhi, size_of_prefix h.2.1, hbytes, Nat.add_assoc]
  exact Prod.ext rfl (Prod.ext h.1.symm rfl)

theorem dequeue_none {q : CircularQueue} (h : q.Stores []) : q.dequeue = (q, none) :=
  if_pos h.count

theorem dequeue_some {q : CircularQueue} {record : ℕ × List Byte}
    {records : List (ℕ × List Byte)} (h : q.Stores (record :: records)) :
    ∃ q', q.dequeue = (q', some record) ∧ q'.Stores records := by
  have hcount : q.itemsCount = records.length + 1 := h.count
  have hsize := h.bufferSize_lt
  unfold dequeue
  rw [if_neg (by omega)]
  dsimp only
  rcases h.laidOut with ⟨htail, hwrite, hlaid⟩ |
    ⟨first, second, heq, hne, hwrite, htail, hfirst, hsecond⟩
  · have hle := hlaid.le
    rw [List.length_cons] at hle
    have hstay : unwrapped { q with itemsCount := q.itemsCount - 1 } =
        { q with itemsCount := q.itemsCount - 1 } := if_neg (by dsimp only; omega)
    rw [readData_record (by rw [hstay]; exact hlaid), hstay]
    exact ⟨_, rfl, h.length_memory, hsize, Nat.sub_eq_of_eq_add hcount,
      Or.inl ⟨htail, hwrite, hlaid.2.2.2⟩⟩
  · cases first with
    | nil =>
        have hread : q.readPointer = q.softTail := hfirst
        rw [List.nil_append] at heq
        rw [← heq] at hsecond
        have hback : unwrapped { q with itemsCount := q.itemsCount - 1 } =
            { q with
              itemsCount := q.itemsCount - 1
              readPointer := 0
              softTail := q.bufferSize } := if_pos hread
        rw [readData_record (by rw [hback]; exact hsecond), hback]
        exact ⟨_, rfl, h.length_memory, hsize, Nat.sub_eq_of_eq_add hcount,
          Or.inl ⟨rfl, by dsimp only; omega, hsecond.2.2.2⟩⟩
    | cons other first =>
        rw [List.cons_append] at heq
        obtain ⟨rfl, rfl⟩ := List.cons.inj heq
        have hle := hfirst.le
        rw [List.length_cons] at hle
        have hstay : unwrapped { q with itemsCount := q.itemsCount - 1 } =
            { q with itemsCount := q.itemsCount - 1 } := if_neg (by dsimp only; omega)
        rw [readData_record (by rw [hstay]; exact hfirst), hstay]
        exact ⟨_, rfl, h.length_memory, hsize, Nat.sub_eq_of_eq_add hcount,
          Or.inr ⟨first, second, rfl, hne, by dsimp only; omega, htail, hfirst.2.2.2, hsecond⟩⟩

theorem Stores.firstInFirstOut {q : CircularQueue} {records : List (ℕ × List Byte)}
    (h : q.Stores records) (calls : List CircularCall) : q.FirstInFirstOut records calls := by
  induction calls generalizing q records with
  | nil => cases records <;> trivial
  | cons call calls ih =>
      cases call with
      | enqueue data =>
          rcases enqueue_cases h data with hrefused | ⟨q', address, haccepted, hstores⟩
          · have hrest := ih h
            cases records <;> exact Or.inl ⟨hrefused, hrest⟩
          · have hrest := ih hstores
            cases records <;>
              exact Or.inr ⟨q', address, haccepted, hstores.intact, hrest⟩
      | dequeue =>
          cases records with
          | nil => exact ⟨dequeue_none h, ih h⟩
          | cons record records =>
              obtain ⟨q', hdequeue, hstores⟩ := dequeue_some h
              exact ⟨q', hdequeue, ih hstores⟩

end CircularQueue

/-- In every run of calls the queue hands over the records that it accepted, oldest first and
unchanged, and no enqueue touches a record that is stored. -/
theorem circularQueue_firstInFirstOut (bufferSize : BitVec 16) (calls : List CircularCall) :
    (CircularQueue.create bufferSize).FirstInFirstOut [] calls :=
  (CircularQueue.create_stores bufferSize).firstInFirstOut calls

end Lightnet
