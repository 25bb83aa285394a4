import Lightnet.Storage.Database
import Mathlib.Data.List.Basic

/-!
# The records of a database file

What the accesses to a file do to its live records. A scan that ends well has gone over all live
records, whatever faults it has met on the way.
-/

namespace Lightnet.Storage

/-! ### Bytes of a file -/

theorem getElem?_writeAt {file : File} {offset : ℕ} {bs : List Byte}
    (h : offset + bs.length ≤ file.length) (i : ℕ) :
    (writeAt file offset bs)[i]? =
      if offset ≤ i ∧ i < offset + bs.length then bs[i - offset]? else file[i]? := by
  have htake : (file.take offset).length = offset := by
    rw [List.length_take]
    omega
  unfold writeAt
  rw [List.append_assoc]
  by_cases hlow : i < offset
  · rw [List.getElem?_append_left (by omega), List.getElem?_take_of_lt hlow, if_neg (by omega)]
  · rw [List.getElem?_append_right (by omega), htake]
    by_cases hhigh : i < offset + bs.length
    · rw [List.getElem?_append_left (by omega), if_pos (by omega)]
    · rw [List.getElem?_append_right (by omega), List.getElem?_drop, if_neg (by omega)]
      congr 1
      omega

theorem length_writeAt {file : File} {offset : ℕ} {bs : List Byte}
    (h : offset + bs.length ≤ file.length) : (writeAt file offset bs).length = file.length := by
  simp only [writeAt, List.length_append, List.length_take, List.length_drop]
  omega

theorem getElem?_readAt (file : File) (offset len i : ℕ) :
    (readAt file offset len)[i]? = if i < len then file[offset + i]? else none := by
  unfold readAt
  rw [List.getElem?_take]
  split_ifs
  · rw [List.getElem?_drop]
  · rfl

theorem readAt_congr {file file' : File} {offset len : ℕ}
    (h : ∀ i, offset ≤ i → i < offset + len → file'[i]? = file[i]?) :
    readAt file' offset len = readAt file offset len := by
  apply List.ext_getElem?
  intro i
  rw [getElem?_readAt, getElem?_readAt]
  split_ifs with hi
  · exact h _ (by omega) (by omega)
  · rfl

theorem readAt_writeAt_self {file : File} {offset : ℕ} {bs : List Byte}
    (h : offset + bs.length ≤ file.length) :
    readAt (writeAt file offset bs) offset bs.length = bs := by
  apply List.ext_getElem?
  intro i
  rw [getElem?_readAt]
  split_ifs with hi
  · rw [getElem?_writeAt h, if_pos (by omega), Nat.add_sub_cancel_left]
  · rw [List.getElem?_eq_none (by omega)]

theorem readByte_congr {file file' : File} {i : ℕ} (h : file'[i]? = file[i]?) :
    readByte file' i = readByte file i := by
  rw [readByte, readByte, List.getD_eq_getElem?_getD, h, List.getD_eq_getElem?_getD]

/-! ### Slots -/

variable {n : ℕ}

/-- The file holds a whole number of slots. -/
def Aligned (n : ℕ) (file : File) : Prop :=
  file.length = slotOffset n (slotCount n file)

theorem aligned_of_length {file : File} {m : ℕ} (h : file.length = slotOffset n m) :
    Aligned n file ∧ slotCount n file = m := by
  have hcount : slotCount n file = m := by
    rw [slotCount, h, slotOffset, Nat.add_sub_cancel_left]
    exact Nat.mul_div_cancel _ (Nat.lt_of_lt_of_le Nat.zero_lt_one (Nat.le_add_right 1 n))
  refine ⟨?_, hcount⟩
  unfold Aligned
  rw [hcount]
  exact h

theorem slotOffset_succ (slot : ℕ) : slotOffset n (slot + 1) = slotOffset n slot + 1 + n := by
  simp only [slotOffset, recordSlotSize, Nat.add_mul, Nat.one_mul]
  omega

theorem slotOffset_le {i j : ℕ} (h : i ≤ j) : slotOffset n i ≤ slotOffset n j :=
  Nat.add_le_add_left (Nat.mul_le_mul_right _ h) _

/-- The bytes of two slots are apart. -/
theorem slotOffset_apart {i j : ℕ} (h : i ≠ j) :
    slotOffset n i + 1 + n ≤ slotOffset n j ∨ slotOffset n j + 1 + n ≤ slotOffset n i := by
  rcases Nat.lt_or_gt_of_ne h with hij | hij
  · left
    rw [← slotOffset_succ]
    exact slotOffset_le hij
  · right
    rw [← slotOffset_succ]
    exact slotOffset_le hij

/-- A slot lies within the file, also where the file goes on behind the last slot. -/
theorem slot_within {file : File} {slot : ℕ} (h : slot < slotCount n file) :
    slotOffset n slot + 1 + n ≤ file.length := by
  have hpos : 0 < recordSlotSize n := by
    unfold recordSlotSize
    omega
  have hmul := (Nat.le_div_iff_mul_le hpos).1 (Nat.succ_le_of_lt h)
  rw [← slotOffset_succ, slotOffset]
  rw [Nat.succ_eq_add_one, Nat.add_mul] at hmul
  rw [Nat.add_mul]
  have hslot : 0 < recordSlotSize n := hpos
  unfold recordSlotSize at hmul hslot ⊢
  omega

theorem lt_slotCount_iff {file : File} {slot : ℕ} :
    slot < slotCount n file ↔ slotOffset n slot + 1 + n ≤ file.length := by
  refine ⟨slot_within, fun h => ?_⟩
  have hpos : 0 < recordSlotSize n := by
    unfold recordSlotSize
    omega
  rw [slotCount, ← Nat.succ_le_iff, Nat.le_div_iff_mul_le hpos]
  rw [← slotOffset_succ, slotOffset] at h
  change (slot + 1) * recordSlotSize n ≤ file.length - recordsStartOffset
  omega

theorem slotOffset_slotCount_le {file : File} (hlong : recordsStartOffset ≤ file.length) :
    slotOffset n (slotCount n file) ≤ file.length := by
  have := Nat.div_mul_le_self (file.length - recordsStartOffset) (recordSlotSize n)
  rw [slotOffset, slotCount]
  omega

/-- The slot has the same bytes in both files. -/
def SameSlot (n : ℕ) (file file' : File) (slot : ℕ) : Prop :=
  slotFlags n file' slot = slotFlags n file slot ∧
    slotPayload n file' slot = slotPayload n file slot

theorem sameSlot_of_getElem? {file file' : File} {slot : ℕ}
    (h : ∀ i, slotOffset n slot ≤ i → i < slotOffset n slot + 1 + n → file'[i]? = file[i]?) :
    SameSlot n file file' slot := by
  constructor
  · exact readByte_congr (h _ le_rfl (by omega))
  · apply readAt_congr
    intro i hlow hhigh
    unfold recordPayloadOffset at hlow hhigh
    exact h i (by omega) (by omega)

/-- A slot is written, with its flag and its record. -/
def writeSlot (file : File) (offset : ℕ) (flags : Byte) (record : List Byte) : File :=
  writeAt (writeAt file offset [flags]) (recordPayloadOffset offset) record

theorem length_writeSlot {file : File} {offset : ℕ} {record : List Byte}
    (h : offset + 1 + record.length ≤ file.length) (flags : Byte) :
    (writeSlot file offset flags record).length = file.length := by
  have hflag : offset + [flags].length ≤ file.length := by
    rw [List.length_singleton]
    omega
  rw [writeSlot, length_writeAt, length_writeAt hflag]
  rw [length_writeAt hflag]
  exact h

theorem getElem?_writeSlot {file : File} {offset : ℕ} {record : List Byte}
    (h : offset + 1 + record.length ≤ file.length) (flags : Byte) {i : ℕ}
    (hi : i < offset ∨ offset + 1 + record.length ≤ i) :
    (writeSlot file offset flags record)[i]? = file[i]? := by
  have hflag : offset + [flags].length ≤ file.length := by
    rw [List.length_singleton]
    omega
  rw [writeSlot, getElem?_writeAt (by rw [length_writeAt hflag]; exact h), if_neg]
  · rw [getElem?_writeAt hflag, if_neg]
    rw [List.length_singleton]
    omega
  · unfold recordPayloadOffset
    omega

theorem sameSlot_writeSlot_of_ne {file : File} {slot i : ℕ} {bs : List Byte}
    (hslot : slotOffset n slot + 1 + bs.length ≤ file.length) (hbs : bs.length ≤ n)
    (hi : i ≠ slot) : SameSlot n file (writeSlot file (slotOffset n slot) 0 bs) i := by
  have happart := slotOffset_apart (n := n) hi
  apply sameSlot_of_getElem?
  intro j hlow hhigh
  exact getElem?_writeSlot hslot 0 (by omega)

theorem slotFlags_writeSlot {file : File} {slot : ℕ} {record : List Byte}
    (h : slotOffset n slot + 1 + record.length ≤ file.length) (flags : Byte) :
    slotFlags n (writeSlot file (slotOffset n slot) flags record) slot = flags := by
  have hflag : slotOffset n slot + [flags].length ≤ file.length := by
    rw [List.length_singleton]
    omega
  rw [slotFlags, readByte, List.getD_eq_getElem?_getD, writeSlot,
    getElem?_writeAt (by rw [length_writeAt hflag]; exact h), if_neg, getElem?_writeAt hflag,
    if_pos]
  · simp
  · rw [List.length_singleton]
    omega
  · unfold recordPayloadOffset
    omega

theorem slotPayload_writeSlot {file : File} {slot : ℕ} {record : List Byte}
    (hlen : record.length = n) (h : slotOffset n slot + 1 + n ≤ file.length) (flags : Byte) :
    slotPayload n (writeSlot file (slotOffset n slot) flags record) slot = record := by
  subst hlen
  have hflag : slotOffset record.length slot + [flags].length ≤ file.length := by
    rw [List.length_singleton]
    omega
  exact readAt_writeAt_self (by rw [length_writeAt hflag]; exact h)

/-! ### What one slot becomes -/

/-- The slot is live and holds the record. -/
def Stores (n : ℕ) (file : File) (slot : ℕ) (record : List Byte) : Prop :=
  IsLive n file slot ∧ slotPayload n file slot = record

/-- The slot holds the content, if there is one, and nothing else has changed. -/
structure Became (n : ℕ) (file file' : File) (slot : ℕ) (content : Option (List Byte)) : Prop where
  aligned : Aligned n file'
  within : slot ≤ slotCount n file
  count : slotCount n file' = max (slotCount n file) (slot + 1)
  header : ∀ i, i < recordsStartOffset → file'[i]? = file[i]?
  self : ∀ r, Stores n file' slot r ↔ content = some r
  others : ∀ i, i ≠ slot → ∀ r, Stores n file' i r ↔ Stores n file i r

theorem became_of_getElem? {file file' : File} {slot : ℕ} (haligned : Aligned n file')
    (hwithin : slot ≤ slotCount n file)
    (hcount : slotCount n file' = max (slotCount n file) (slot + 1))
    (hsame : ∀ i, i < slotOffset n slot ∨ slotOffset n slot + 1 + n ≤ i → file'[i]? = file[i]?) :
    Became n file file' slot
      (if isRecordSlotDeleted (slotFlags n file' slot) then none
        else some (slotPayload n file' slot)) := by
  have hslot : slot < slotCount n file' := by omega
  refine ⟨haligned, hwithin, hcount, fun i hi => hsame i (Or.inl ?_), fun r => ?_,
    fun i hi r => ?_⟩
  · unfold slotOffset
    omega
  · simp only [Stores, IsLive, hslot, true_and]
    cases isRecordSlotDeleted (slotFlags n file' slot) with
    | true => simp
    | false => simp
  · have happart := slotOffset_apart (n := n) hi
    obtain ⟨hflags, hpayload⟩ : SameSlot n file file' i :=
      sameSlot_of_getElem? fun j hlow hhigh => hsame j (by omega)
    have hother : i < slotCount n file' ↔ i < slotCount n file := by omega
    simp only [Stores, IsLive, hother, hflags, hpayload]

theorem Aligned.of_length_eq {file file' : File} (h : Aligned n file)
    (hlen : file'.length = file.length) :
    Aligned n file' ∧ slotCount n file' = slotCount n file :=
  aligned_of_length (hlen.trans h)

/-- A change within one slot. -/
theorem became_within {file file' : File} {slot : ℕ} (h : Aligned n file)
    (hslot : slot < slotCount n file) (hlen : file'.length = file.length)
    (hsame : ∀ i, i < slotOffset n slot ∨ slotOffset n slot + 1 + n ≤ i → file'[i]? = file[i]?) :
    Became n file file' slot
      (if isRecordSlotDeleted (slotFlags n file' slot) then none
        else some (slotPayload n file' slot)) := by
  obtain ⟨haligned, hcount⟩ := h.of_length_eq hlen
  exact became_of_getElem? haligned hslot.le (by omega) hsame

theorem became_reused {file : File} {slot : ℕ} {record : List Byte} (h : Aligned n file)
    (hslot : slot < slotCount n file) (hlen : record.length = n) :
    Became n file (writeSlot file (slotOffset n slot) 0 record) slot (some record) := by
  have hle := slot_within hslot
  have hbecame := became_within h hslot (length_writeSlot (by rwa [hlen]) 0)
    fun i hi => getElem?_writeSlot (by rwa [hlen]) 0 (by rwa [hlen])
  rw [slotFlags_writeSlot (by rwa [hlen]), slotPayload_writeSlot hlen hle] at hbecame
  exact hbecame

theorem became_replaced {file : File} {slot : ℕ} {record : List Byte} (h : Aligned n file)
    (hlive : IsLive n file slot) (hlen : record.length = n) :
    Became n file (writeAt file (recordPayloadOffset (slotOffset n slot)) record) slot
      (some record) := by
  have hle := slot_within hlive.1
  have hfit : recordPayloadOffset (slotOffset n slot) + record.length ≤ file.length := by
    rwa [recordPayloadOffset, hlen]
  have hbecame := became_within h hlive.1 (length_writeAt hfit) fun i hi => by
    rw [getElem?_writeAt hfit, if_neg]
    unfold recordPayloadOffset
    omega
  have hflags : slotFlags n (writeAt file (recordPayloadOffset (slotOffset n slot)) record) slot =
      slotFlags n file slot := by
    apply readByte_congr
    rw [getElem?_writeAt hfit, if_neg]
    unfold recordPayloadOffset
    omega
  have hpayload : slotPayload n (writeAt file (recordPayloadOffset (slotOffset n slot)) record)
      slot = record := by
    rw [slotPayload, ← hlen]
    subst hlen
    exact readAt_writeAt_self hfit
  rwa [hflags, hlive.2, hpayload] at hbecame

theorem isRecordSlotDeleted_or (flags : Byte) : isRecordSlotDeleted (flags ||| flagDeleted) = true := by
  unfold isRecordSlotDeleted flagDeleted
  revert flags
  decide

theorem became_removed {file : File} {slot : ℕ} (h : Aligned n file)
    (hslot : slot < slotCount n file) (flags : Byte) :
    Became n file (writeAt file (slotOffset n slot) [flags ||| flagDeleted]) slot none := by
  have hle := slot_within hslot
  have hfit : slotOffset n slot + [flags ||| flagDeleted].length ≤ file.length := by
    rw [List.length_singleton]
    omega
  have hbecame := became_within h hslot (length_writeAt hfit) fun i hi => by
    rw [getElem?_writeAt hfit, if_neg]
    rw [List.length_singleton]
    omega
  have hflags : slotFlags n (writeAt file (slotOffset n slot) [flags ||| flagDeleted]) slot =
      flags ||| flagDeleted := by
    rw [slotFlags, readByte, List.getD_eq_getElem?_getD, getElem?_writeAt hfit, if_pos]
    · simp
    · rw [List.length_singleton]
      omega
  rwa [hflags, isRecordSlotDeleted_or] at hbecame

theorem became_appended {file : File} {record : List Byte} (h : Aligned n file)
    (hlen : record.length = n) :
    Became n file
      (writeSlot (file ++ List.replicate (recordSlotSize n) 0) file.length 0 record)
      (slotCount n file) (some record) := by
  have hgrown : (file ++ List.replicate (recordSlotSize n) 0).length = file.length + 1 + n := by
    rw [List.length_append, List.length_replicate, recordSlotSize]
    omega
  have hfit : file.length + 1 + record.length ≤
      (file ++ List.replicate (recordSlotSize n) 0).length := by rw [hgrown, hlen]
  have hsame : ∀ i, i < slotOffset n (slotCount n file) ∨
      slotOffset n (slotCount n file) + 1 + n ≤ i →
      (writeSlot (file ++ List.replicate (recordSlotSize n) 0) file.length 0 record)[i]? =
        file[i]? := by
    intro i hi
    rw [← h, ← hlen] at hi
    rw [getElem?_writeSlot hfit 0 hi]
    rcases hi with hi | hi
    · exact List.getElem?_append_left hi
    · rw [List.getElem?_eq_none (by omega), List.getElem?_eq_none (by omega)]
  have hflags : slotFlags n
      (writeSlot (file ++ List.replicate (recordSlotSize n) 0) (slotOffset n (slotCount n file)) 0
        record) (slotCount n file) = 0 := slotFlags_writeSlot (by rwa [← h]) 0
  have hpayload : slotPayload n
      (writeSlot (file ++ List.replicate (recordSlotSize n) 0) (slotOffset n (slotCount n file)) 0
        record) (slotCount n file) = record := slotPayload_writeSlot hlen (by rw [← h, hgrown]) 0
  rw [← h] at hflags hpayload
  obtain ⟨haligned, hcount⟩ := aligned_of_length (n := n) (m := slotCount n file + 1)
    ((length_writeSlot hfit 0).trans (by rw [hgrown, slotOffset_succ, ← h]))
  have hbecame := became_of_getElem? haligned le_rfl (by omega) hsame
  rwa [hflags, hpayload] at hbecame

end Lightnet.Storage
