import Lightnet.Storage.Compaction

/-!
# The database is a map of records

On a storage that does not fail, a database maps references to records. A reference is the offset
of a slot; no other references are handed out.
-/

namespace Lightnet.Storage

open CursorDatabase

/-! ### What the operations do to the slots -/

section

variable {n : ℕ} {bytes : File} {position slot : ℕ}

def slotRef (n slot : ℕ) : RecordRef := ⟨slotOffset n slot⟩

theorem slotRef_offset : (slotRef n slot).offset = slotOffset n slot := rfl

theorem ofOffset_slot (hlimit : bytes.length < sizeLimit)
    (h : slot < slotCount n bytes) : RecordRef.ofOffset (slotOffset n slot) = slotRef n slot := by
  have hle := slot_within h
  rw [RecordRef.ofOffset, slotRef, Nat.mod_eq_of_lt]
  exact Nat.lt_trans (by omega) hlimit

/-- A slot is found live, or the operation ends without a change. -/
theorem liveFlags_apply (haligned : Aligned n bytes) :
    (∃ p, IsLive n bytes slot ∧ CursorDatabase.liveFlags (slotRef n slot) ⟨bytes, position⟩ =
      (.ok (slotFlags n bytes slot), ⟨bytes, p⟩)) ∨
    ∃ p e, ¬IsLive n bytes slot ∧
      CursorDatabase.liveFlags (slotRef n slot) ⟨bytes, position⟩ = (.error e, ⟨bytes, p⟩) := by
  unfold CursorDatabase.liveFlags CursorDatabase.readSlotFlagsAt slotRef
  dsimp only
  by_cases hslot : slot < slotCount n bytes
  · rw [bind_ok ((bind_ok (seek_slot hslot.le haligned.recordsStart_le)).trans (readFlags_apply hslot))]
    cases hdel : isRecordSlotDeleted (slotFlags n bytes slot) with
    | true =>
        refine Or.inr ⟨_, .recordDeleted, fun hlive => ?_, bind_error rfl⟩
        rw [hlive.2] at hdel
        cases hdel
    | false => exact Or.inl ⟨_, ⟨hslot, hdel⟩, rfl⟩
  · have hdead : ¬IsLive n bytes slot := fun hlive => hslot hlive.1
    by_cases hend : slot = slotCount n bytes
    · have hread : Cursor.read 1 .readFailed ⟨bytes, slotOffset n slot⟩ =
          (.error .readFailed, ⟨bytes, slotOffset n slot⟩) := by
        have hnone : readAt bytes (slotOffset n slot) 1 = [] := by
          rw [readAt, List.drop_eq_nil_of_le, List.take_nil]
          rw [haligned, hend]
        simp only [Cursor.read, hnone, List.length_nil]
        rfl
      exact Or.inr ⟨_, _, hdead, bind_error ((bind_ok (seek_slot hend.le haligned.recordsStart_le)).trans
        (bind_error hread))⟩
    · have hlt : bytes.length < slotOffset n slot := by
        rw [haligned]
        exact slotOffset_lt (by omega)
      have hseek : Cursor.seek (slotOffset n slot) .seekFailed ⟨bytes, position⟩ =
          (.error .seekFailed, ⟨bytes, position⟩) := by rw [Cursor.seek, if_pos (by simpa using hlt)]
      exact Or.inr ⟨_, _, hdead, bind_error (bind_error hseek)⟩

theorem read_apply (haligned : Aligned n bytes) (hlive : IsLive n bytes slot) :
    ∃ p, CursorDatabase.read n (slotRef n slot) ⟨bytes, position⟩ =
      (.ok (slotPayload n bytes slot), ⟨bytes, p⟩) := by
  have hle := slot_within hlive.1
  rcases @liveFlags_apply n bytes position slot haligned with
    ⟨p, -, hflags⟩ | ⟨p, e, hdead, -⟩
  · have hfit : recordPayloadOffset (slotOffset n slot) + n ≤ bytes.length := by
      unfold recordPayloadOffset
      omega
    refine ⟨recordPayloadOffset (slotOffset n slot) + n, ?_⟩
    rw [CursorDatabase.read, bind_ok hflags, CursorDatabase.readRecordPayloadAt, slotRef_offset,
      bind_ok (Cursor.seek_apply (by omega)), Cursor.read_apply hfit]
    rfl
  · exact absurd hlive hdead

theorem replaceSerialized_apply (haligned : Aligned n bytes) (hlive : IsLive n bytes slot)
    {record : List Byte} (hlen : record.length = n) :
    ∃ bytes' p, Became n bytes bytes' slot (some record) ∧
      CursorDatabase.replaceSerialized (slotRef n slot) record ⟨bytes, position⟩ =
        (.ok (), ⟨bytes', p⟩) := by
  have hle := slot_within hlive.1
  rcases @liveFlags_apply n bytes position slot haligned with
    ⟨p, -, hflags⟩ | ⟨p, e, hdead, -⟩
  · have hfit : recordPayloadOffset (slotOffset n slot) ≤ bytes.length := by
      unfold recordPayloadOffset
      omega
    refine ⟨_, recordPayloadOffset (slotOffset n slot) + record.length,
      became_replaced haligned hlive hlen, ?_⟩
    rw [CursorDatabase.replaceSerialized, bind_ok hflags, CursorDatabase.writeRecordPayloadAt,
      slotRef_offset, bind_ok (Cursor.seek_apply hfit)]
    rfl
  · exact absurd hlive hdead

theorem remove_apply (haligned : Aligned n bytes) (hlive : IsLive n bytes slot) :
    ∃ bytes' p, Became n bytes bytes' slot none ∧
      CursorDatabase.remove (slotRef n slot) ⟨bytes, position⟩ = (.ok (), ⟨bytes', p⟩) := by
  have hle := slot_within hlive.1
  rcases @liveFlags_apply n bytes position slot haligned with
    ⟨p, -, hflags⟩ | ⟨p, e, hdead, -⟩
  · refine ⟨_, slotOffset n slot + 1, became_removed haligned hlive.1 (slotFlags n bytes slot), ?_⟩
    rw [CursorDatabase.remove, bind_ok hflags, CursorDatabase.writeSlotFlagsAt, slotRef_offset,
      bind_ok (Cursor.seek_apply (by omega))]
    rfl
  · exact absurd hlive hdead

/-- A record goes to the first deleted slot, or else behind all that the file holds, unless the
storage has no room for it. -/
theorem insertSerialized_run (hlong : recordsStartOffset ≤ bytes.length)
    (hlimit : bytes.length < sizeLimit) {record : List Byte} (hlen : record.length = n) :
    (∃ p slot, slot < slotCount n bytes ∧ isRecordSlotDeleted (slotFlags n bytes slot) = true ∧
      CursorDatabase.insertSerialized n record ⟨bytes, position⟩ =
        (.ok (slotRef n slot), ⟨writeSlot bytes (slotOffset n slot) 0 record, p⟩)) ∨
    (¬HasDeleted n bytes ∧ bytes.length + recordSlotSize n < sizeLimit ∧
      ∃ p, CursorDatabase.insertSerialized n record ⟨bytes, position⟩ =
        (.ok ⟨bytes.length⟩, ⟨writeSlot (bytes ++ List.replicate (recordSlotSize n) 0) bytes.length 0
          record, p⟩)) ∨
    (sizeLimit ≤ bytes.length + recordSlotSize n ∧
      ∃ p, CursorDatabase.insertSerialized n record ⟨bytes, position⟩ =
        (.error .truncateFailed, ⟨bytes, p⟩)) := by
  obtain ⟨p, found, hfirst, hsearch⟩ := @search_apply n bytes position hlong
  cases found with
  | some slot =>
      obtain ⟨hslot, hdel, -⟩ := hfirst
      have hfit : slotOffset n slot + 1 + record.length ≤ bytes.length := by
        rw [hlen]
        exact slot_within hslot
      refine .inl ⟨slotOffset n slot + 1 + record.length, slot, hslot, hdel, ?_⟩
      rw [CursorDatabase.insertSerialized, bind_ok (rfl : Cursor.size _ = _), bind_ok hsearch,
        Option.map_some]
      dsimp only
      rw [bind_ok (writeLiveRecordSlot_apply hfit), ofOffset_slot hlimit hslot]
      rfl
  | none =>
      have hgrow : bytes.length < bytes.length + recordSlotSize n :=
        Nat.lt_add_of_pos_right (recordSlotSize_pos n)
      have hinsert : CursorDatabase.insertSerialized n record ⟨bytes, position⟩ =
          (CursorDatabase.appendRecordSlot n bytes.length record >>= fun _ =>
            pure (.ofOffset bytes.length)) ⟨bytes, p⟩ := by
        rw [CursorDatabase.insertSerialized, bind_ok (rfl : Cursor.size _ = _), bind_ok hsearch,
          Option.map_none]
        dsimp only
        rw [Nat.max_eq_left hlong]
      by_cases hroom : sizeLimit ≤ bytes.length + recordSlotSize n
      · refine .inr (.inr ⟨hroom, p, hinsert.trans (bind_error ?_)⟩)
        rw [CursorDatabase.appendRecordSlot, bind_ok (rfl : Cursor.size _ = _), if_pos hgrow]
        exact bind_error (by rw [Cursor.truncate, if_pos hroom])
      · have hfit : bytes.length + 1 + record.length ≤
            (bytes ++ List.replicate (recordSlotSize n) 0).length := by
          rw [List.length_append, List.length_replicate, hlen, recordSlotSize, Nat.add_assoc]
        have htruncate : Cursor.truncate (bytes.length + recordSlotSize n) .truncateFailed
            ⟨bytes, p⟩ = (.ok (), ⟨bytes ++ List.replicate (recordSlotSize n) 0,
              min p (bytes.length + recordSlotSize n)⟩) := by
          rw [Cursor.truncate, if_neg hroom, List.take_of_length_le hgrow.le,
            Nat.add_sub_cancel_left]
        have happend : CursorDatabase.appendRecordSlot n bytes.length record ⟨bytes, p⟩ =
            (.ok (), ⟨writeSlot (bytes ++ List.replicate (recordSlotSize n) 0) bytes.length 0
              record, bytes.length + 1 + record.length⟩) := by
          rw [CursorDatabase.appendRecordSlot, bind_ok (rfl : Cursor.size _ = _), if_pos hgrow,
            bind_ok htruncate]
          exact writeLiveRecordSlot_apply hfit
        have hnone : ¬HasDeleted n bytes := by
          rintro ⟨slot, hslot, hdel⟩
          rw [hfirst slot hslot] at hdel
          cases hdel
        refine .inr (.inl ⟨hnone, Nat.lt_of_not_le hroom, bytes.length + 1 + record.length,
          hinsert.trans ?_⟩)
        rw [bind_ok happend, RecordRef.ofOffset,
          Nat.mod_eq_of_lt (show bytes.length < 2 ^ 32 from hlimit)]
        rfl

/-- A record is inserted into a slot that is not live, unless the storage has no room for one. -/
theorem insertSerialized_apply (haligned : Aligned n bytes) (hlimit : bytes.length < sizeLimit)
    {record : List Byte} (hlen : record.length = n) :
    (∃ bytes' p slot, Became n bytes bytes' slot (some record) ∧ ¬IsLive n bytes slot ∧
      bytes'.length < sizeLimit ∧
      CursorDatabase.insertSerialized n record ⟨bytes, position⟩ =
        (.ok (slotRef n slot), ⟨bytes', p⟩)) ∨
    ∃ p, sizeLimit ≤ bytes.length + recordSlotSize n ∧
      CursorDatabase.insertSerialized n record ⟨bytes, position⟩ =
        (.error .truncateFailed, ⟨bytes, p⟩) := by
  rcases @insertSerialized_run n bytes position haligned.recordsStart_le hlimit record hlen with
    ⟨p, slot, hslot, hdel, hrun⟩ | ⟨-, hroom, p, hrun⟩ | ⟨hroom, p, hrun⟩
  · have hfit : slotOffset n slot + 1 + record.length ≤ bytes.length := by
      rw [hlen]
      exact slot_within hslot
    refine .inl ⟨_, p, slot, became_reused haligned hslot hlen, fun hlive => ?_, ?_, hrun⟩
    · rw [hlive.2] at hdel
      cases hdel
    · rw [length_writeSlot hfit]
      exact hlimit
  · have hfit : bytes.length + 1 + record.length ≤
        (bytes ++ List.replicate (recordSlotSize n) 0).length := by
      rw [List.length_append, List.length_replicate, hlen, recordSlotSize, Nat.add_assoc]
    have href : (⟨bytes.length⟩ : RecordRef) = slotRef n (slotCount n bytes) :=
      congrArg RecordRef.mk haligned
    rw [href] at hrun
    refine .inl ⟨_, p, slotCount n bytes, became_appended haligned hlen,
      fun hlive => absurd hlive.1 (Nat.lt_irrefl _), ?_, hrun⟩
    rw [length_writeSlot hfit, List.length_append, List.length_replicate]
    exact hroom
  · exact .inr ⟨p, hroom, hrun⟩

theorem create_apply (modelVersion : Byte) (s : RandomAccess) :
    ∃ bytes' p, bytes'.length = recordsStartOffset ∧ Opens modelVersion bytes' ∧
      CursorDatabase.create modelVersion s = (.ok (), ⟨bytes', p⟩) := by
  obtain ⟨start, hstart⟩ : ∃ start, start = s.bytes.take recordsStartOffset ++
    List.replicate (recordsStartOffset - s.bytes.length) 0 := ⟨_, rfl⟩
  have hlength : start.length = recordsStartOffset := by
    rw [hstart, List.length_append, List.length_take, List.length_replicate]
    omega
  have hversion : (writeAt start 0 [dbVersion]).length = recordsStartOffset := by
    rw [length_writeAt, hlength]
    rw [hlength]
    decide
  refine ⟨writeAt (writeAt start 0 [dbVersion]) 1 [modelVersion, 0, 0], 4, ?_,
    opens_written hlength, ?_⟩
  · rw [length_writeAt, hversion]
    rw [hversion]
    exact le_rfl
  · have htruncate : Cursor.truncate recordsStartOffset .truncateFailed s =
        (.ok (), ⟨start, min s.position recordsStartOffset⟩) := by
      rw [Cursor.truncate, if_neg (by decide), hstart]
    rw [CursorDatabase.create, bind_ok htruncate, bind_ok (Cursor.seek_apply (Nat.zero_le _)),
      bind_ok (rfl : Cursor.write _ _ = _), bind_ok (Cursor.seek_apply (by rw [hversion]; decide))]
    rfl

theorem openDatabase_apply {modelVersion : Byte} (h : Opens modelVersion bytes) :
    ∃ p, CursorDatabase.openDatabase modelVersion ⟨bytes, position⟩ = (.ok (), ⟨bytes, p⟩) := by
  obtain ⟨hlen, hversion, hmodel⟩ := h
  have hlen' : 4 ≤ bytes.length := hlen
  have hbyte : ∀ i k, readByte (readAt bytes i (k + 1)) 0 = readByte bytes i := by
    intro i k
    rw [readByte, List.getD_eq_getElem?_getD, getElem?_readAt, if_pos (Nat.succ_pos k),
      Nat.add_zero, readByte, List.getD_eq_getElem?_getD]
  refine ⟨4, ?_⟩
  rw [CursorDatabase.openDatabase, bind_ok (rfl : Cursor.size _ = _),
    bind_ok (Cursor.failIf_apply (Nat.not_lt_of_le hlen) _),
    bind_ok (Cursor.seek_apply (Nat.zero_le _)), bind_ok (Cursor.read_apply (by omega)),
    bind_ok (Cursor.failIf_apply (by rw [hbyte]; exact not_not.2 hversion) _),
    bind_ok (Cursor.seek_apply (by omega)), bind_ok (Cursor.read_apply (by omega)),
    Cursor.failIf_apply (by rw [hbyte]; exact not_not.2 hmodel) _]

/-- A caller that takes one live record after the other. -/
def iterate (n : ℕ) : ℕ → ℕ → Cursor (List (RecordRef × List Byte))
  | 0, _ => pure []
  | steps + 1, offset => do
    match ← CursorDatabase.nextLiveFrom n offset with
    | (none, _) => pure []
    | (some ref, next) =>
      let record ← CursorDatabase.read n ref
      let rest ← iterate n steps next
      pure ((ref, record) :: rest)

theorem mem_liveFrom {slot left i : ℕ} :
    i ∈ liveFrom n bytes slot left ↔ (slot ≤ i ∧ i < slot + left) ∧ IsLive n bytes i := by
  rw [liveFrom, List.mem_filter, List.mem_range'_1, decide_eq_true_iff]

theorem liveFrom_of_head {slot left i : ℕ} (hcount : slot + left = slotCount n bytes)
    (h : (liveFrom n bytes slot left).head? = some i) :
    slot ≤ i ∧ IsLive n bytes i ∧
      liveFrom n bytes slot left = i :: liveFrom n bytes (i + 1) (slotCount n bytes - (i + 1)) := by
  induction left generalizing slot with
  | zero => cases h
  | succ left ih =>
      have hslot : slot < slotCount n bytes := by omega
      rw [liveFrom_succ hslot] at h ⊢
      cases hdel : isRecordSlotDeleted (slotFlags n bytes slot) with
      | true =>
          rw [hdel, if_pos rfl] at h
          obtain ⟨hle, hlive, heq⟩ := ih (by omega) h
          exact ⟨by omega, hlive, by rw [if_pos rfl, heq]⟩
      | false =>
          rw [hdel] at h
          obtain rfl : slot = i := Option.some_inj.1 h
          have hleft : slotCount n bytes - (slot + 1) = left := by omega
          rw [hleft]
          exact ⟨le_rfl, ⟨hslot, hdel⟩, rfl⟩

theorem iterate_apply (haligned : Aligned n bytes) (hlimit : bytes.length < sizeLimit)
    {steps slot : ℕ} (hslot : slot ≤ slotCount n bytes) (hsteps : slotCount n bytes < slot + steps)
    {position : ℕ} : ∃ p, iterate n steps (slotOffset n slot) ⟨bytes, position⟩ =
      (.ok ((liveFrom n bytes slot (slotCount n bytes - slot)).map fun i =>
        (slotRef n i, slotPayload n bytes i)), ⟨bytes, p⟩) := by
  induction steps generalizing slot position with
  | zero => omega
  | succ steps ih =>
      obtain ⟨p, hnext⟩ := @nextLiveFrom_apply n bytes position slot haligned hslot
      rw [iterate]
      cases hhead : (liveFrom n bytes slot (slotCount n bytes - slot)).head? with
      | none =>
          rw [hhead] at hnext
          rw [bind_ok hnext, List.head?_eq_none_iff.1 hhead]
          exact ⟨p, rfl⟩
      | some i =>
          rw [hhead] at hnext
          obtain ⟨hle, hlive, heq⟩ := liveFrom_of_head (by omega) hhead
          obtain ⟨q, hread⟩ := @read_apply n bytes p i haligned hlive
          obtain ⟨r, hrest⟩ := @ih (i + 1) hlive.1 (by omega) q
          rw [bind_ok hnext]
          dsimp only
          rw [ofOffset_slot hlimit hlive.1, bind_ok hread, bind_ok hrest, heq]
          exact ⟨r, rfl⟩

end

/-! ### Runs -/

structure DatabaseState where
  storage : RandomAccess
  isOpen : Bool

/-- An empty file, before it is opened. -/
def DatabaseState.blank : DatabaseState := ⟨⟨[], 0⟩, false⟩

/-- An operation on an open database. -/
def DatabaseState.perform {α : Type} (d : DatabaseState) (m : Cursor α) :
    Except DatabaseResult α × DatabaseState :=
  if d.isOpen then ((m d.storage).1, ⟨(m d.storage).2, true⟩) else (.error .notOpen, d)

/-- An operation that opens the database. -/
def DatabaseState.opening (d : DatabaseState) (m : Cursor Unit) :
    Except DatabaseResult Unit × DatabaseState :=
  match m d.storage with
  | (.ok (), storage) => (.ok (), ⟨storage, true⟩)
  | (.error e, storage) => (.error e, ⟨storage, d.isOpen⟩)

/-- A fresh database object has not opened its file yet. -/
inductive DatabaseOp (n : ℕ) : Type 1 where
  | fresh
  | create
  | openDatabase
  | insert (record : List Byte) (h : record.length = n)
  | replace (slot : ℕ) (record : List Byte) (h : record.length = n)
  | remove (slot : ℕ)
  | read (slot : ℕ)
  | compact
  | foreachLive {σ : Type} (callback : Callback σ) (s : σ)
  | nextLiveFrom (slot : ℕ)

def databaseStep (n : ℕ) (modelVersion : Byte) (d : DatabaseState) : DatabaseOp n → DatabaseState
  | .fresh => { d with isOpen := false }
  | .create => (d.opening (CursorDatabase.create modelVersion)).2
  | .openDatabase => (d.opening (CursorDatabase.openDatabase modelVersion)).2
  | .insert record _ => (d.perform (CursorDatabase.insertSerialized n record)).2
  | .replace slot record _ => (d.perform (CursorDatabase.replaceSerialized (slotRef n slot) record)).2
  | .remove slot => (d.perform (CursorDatabase.remove (slotRef n slot))).2
  | .read slot => (d.perform (CursorDatabase.read n (slotRef n slot))).2
  | .compact => (d.perform (CursorDatabase.compact n)).2
  | .foreachLive callback s => (d.perform (CursorDatabase.foreachLive n callback s)).2
  | .nextLiveFrom slot => (d.perform (CursorDatabase.nextLiveFrom n (slotOffset n slot))).2

/-- The map: what the live slots hold. -/
def contents (n : ℕ) (d : DatabaseState) (slot : ℕ) : Option (List Byte) :=
  if IsLive n d.storage.bytes slot then some (slotPayload n d.storage.bytes slot) else none

/-! ### What is promised -/

/-- An open database does what is promised, and a database that is not open does nothing. -/
def Performs {α : Type} (d : DatabaseState) (m : Cursor α)
    (promise : Except DatabaseResult α → DatabaseState → Prop) : Prop :=
  if d.isOpen then promise (d.perform m).1 (d.perform m).2
  else d.perform m = (.error .notOpen, d)

/-- A scan goes to each reference of the map once, in their order. -/
def Visits (n : ℕ) (d : DatabaseState) (slots : List ℕ) : Prop :=
  slots.Pairwise (· < ·) ∧ ∀ slot, slot ∈ slots ↔ (contents n d slot).isSome

/-- What an operation reports and does, in terms of the map. -/
def Behaves (n : ℕ) (modelVersion : Byte) (d : DatabaseState) : DatabaseOp n → Prop
  | .fresh => contents n (databaseStep n modelVersion d .fresh) = contents n d
  | .create =>
    (d.opening (CursorDatabase.create modelVersion)).1 = .ok () ∧
      contents n (databaseStep n modelVersion d .create) = fun _ => none
  | .openDatabase =>
    (d.storage.bytes ≠ [] → (d.opening (CursorDatabase.openDatabase modelVersion)).1 = .ok ()) ∧
      contents n (databaseStep n modelVersion d .openDatabase) = contents n d
  | .insert record _ =>
    Performs d (CursorDatabase.insertSerialized n record) fun result d' =>
      (∃ slot, result = .ok (slotRef n slot) ∧ contents n d slot = none ∧
        contents n d' = Function.update (contents n d) slot (some record)) ∨
      (result = .error .truncateFailed ∧ contents n d' = contents n d ∧
        sizeLimit ≤ d.storage.bytes.length + recordSlotSize n)
  | .replace slot record _ =>
    Performs d (CursorDatabase.replaceSerialized (slotRef n slot) record) fun result d' =>
      if (contents n d slot).isSome then
        result = .ok () ∧ contents n d' = Function.update (contents n d) slot (some record)
      else (∃ e, result = .error e) ∧ contents n d' = contents n d
  | .remove slot =>
    Performs d (CursorDatabase.remove (slotRef n slot)) fun result d' =>
      if (contents n d slot).isSome then
        result = .ok () ∧ contents n d' = Function.update (contents n d) slot none
      else (∃ e, result = .error e) ∧ contents n d' = contents n d
  | .read slot =>
    Performs d (CursorDatabase.read n (slotRef n slot)) fun result d' =>
      contents n d' = contents n d ∧
        match contents n d slot with
        | some record => result = .ok record
        | none => ∃ e, result = .error e
  | .compact =>
    Performs d (CursorDatabase.compact n) fun result d' =>
      result = .ok () ∧ (∀ slot, slot < slotCount n d'.storage.bytes → (contents n d' slot).isSome) ∧
        ∃ slots, Visits n d slots ∧
          ∀ slot, contents n d' slot = (slots[slot]?).bind (contents n d)
  | .foreachLive callback s =>
    Performs d (CursorDatabase.foreachLive n callback s) fun result d' =>
      contents n d' = contents n d ∧
        (∀ slot record, contents n d slot = some record →
          (Cursor.read n .readFailed
            ⟨d.storage.bytes, recordPayloadOffset (slotOffset n slot)⟩).1 = .ok record) ∧
        ∃ slots, Visits n d slots ∧ result = slots.foldlM (fun s slot =>
          match (callback (slotRef n slot) (recordPayloadOffset (slotOffset n slot))
            ⟨d.storage.bytes, recordPayloadOffset (slotOffset n slot)⟩ s).1 with
          | some s => .ok s
          | none => .error .foreachAborted) s
  | .nextLiveFrom slot =>
    Performs d (CursorDatabase.nextLiveFrom n (slotOffset n slot)) fun result d' =>
      contents n d' = contents n d ∧
        (slot ≤ slotCount n d.storage.bytes →
          (∃ i, slot ≤ i ∧ (contents n d i).isSome ∧
            (∀ j, slot ≤ j → j < i → contents n d j = none) ∧
            result = .ok (some (slotRef n i), slotOffset n (i + 1))) ∨
          ((∀ j, slot ≤ j → contents n d j = none) ∧ ∃ next, result = .ok (none, next))) ∧
        ∃ slots, Visits n d slots ∧ ∃ visited : List (RecordRef × List Byte),
          (d.perform (iterate n (slotCount n d.storage.bytes + 1) recordsStartOffset)).1 =
            .ok visited ∧
          visited.map (fun v => (v.1, some v.2)) =
            slots.map fun slot => (slotRef n slot, contents n d slot)

/-! ### Every run -/

section

variable {n : ℕ} {modelVersion : Byte} {d d' : DatabaseState}

theorem contents_eq_some {slot : ℕ} {record : List Byte} :
    contents n d slot = some record ↔ Stores n d.storage.bytes slot record := by
  unfold contents Stores
  split_ifs with hlive
  · rw [Option.some_inj]
    exact ⟨fun h => ⟨hlive, h⟩, And.right⟩
  · exact iff_of_false nofun fun h => hlive h.1

theorem contents_isSome {slot : ℕ} :
    (contents n d slot).isSome ↔ IsLive n d.storage.bytes slot := by
  unfold contents
  split_ifs with hlive
  · exact iff_of_true rfl hlive
  · exact iff_of_false nofun hlive

theorem contents_eq_none {slot : ℕ} :
    contents n d slot = none ↔ ¬IsLive n d.storage.bytes slot := by
  rw [← contents_isSome, Option.not_isSome_iff_eq_none]

theorem contents_of_bytes (h : d'.storage.bytes = d.storage.bytes) :
    contents n d' = contents n d := by
  funext slot
  rw [contents, contents, h]

theorem contents_of_became {slot : ℕ} {content : Option (List Byte)}
    (h : Became n d.storage.bytes d'.storage.bytes slot content) :
    contents n d' = Function.update (contents n d) slot content := by
  funext i
  apply Option.ext
  intro record
  rw [contents_eq_some]
  by_cases hi : i = slot
  · subst hi
    rw [Function.update_self]
    exact h.self record
  · rw [Function.update_of_ne hi, contents_eq_some]
    exact h.others i hi record

theorem visits_liveSlots : Visits n d (liveSlots n d.storage.bytes) :=
  ⟨List.pairwise_lt_range.filter _, fun _ => mem_liveSlots.trans contents_isSome.symm⟩

/-- The file is empty, or it is that of a database. -/
def DatabaseInv (n : ℕ) (modelVersion : Byte) (d : DatabaseState) : Prop :=
  d.storage.bytes = [] ∧ d.isOpen = false ∨
    Opens modelVersion d.storage.bytes ∧ Aligned n d.storage.bytes ∧
      d.storage.bytes.length < sizeLimit

theorem perform_open {α : Type} (hopen : d.isOpen = true) {m : Cursor α}
    {r : Except DatabaseResult α} {s : RandomAccess} (h : m d.storage = (r, s)) :
    d.perform m = (r, ⟨s, true⟩) := by rw [DatabaseState.perform, if_pos hopen, h]

theorem perform_closed {α : Type} (hclosed : d.isOpen = false) (m : Cursor α) :
    d.perform m = (.error .notOpen, d) := by
  rw [DatabaseState.perform, if_neg (by rw [hclosed]; exact Bool.false_ne_true)]

/-- An operation that does what is promised when the database is open keeps the invariant. -/
theorem performs_of {α : Type} {m : Cursor α}
    {promise : Except DatabaseResult α → DatabaseState → Prop} (hinv : DatabaseInv n modelVersion d)
    (h : d.isOpen = true → Opens modelVersion d.storage.bytes → Aligned n d.storage.bytes →
      d.storage.bytes.length < sizeLimit → ∃ r s, m d.storage = (r, s) ∧ promise r ⟨s, true⟩ ∧
        DatabaseInv n modelVersion ⟨s, true⟩) :
    Performs d m promise ∧ DatabaseInv n modelVersion (d.perform m).2 := by
  cases hopen : d.isOpen with
  | false =>
      rw [perform_closed hopen, Performs, if_neg (by rw [hopen]; exact Bool.false_ne_true)]
      exact ⟨perform_closed hopen m, hinv⟩
  | true =>
      rcases hinv with ⟨-, hclosed⟩ | ⟨hopens, haligned, hlimit⟩
      · rw [hopen] at hclosed
        cases hclosed
      · obtain ⟨r, s, hm, hpromise, hinv'⟩ := h hopen hopens haligned hlimit
        rw [Performs, if_pos hopen, perform_open hopen hm]
        exact ⟨hpromise, hinv'⟩

theorem inv_of_became {bytes' : File} {slot p : ℕ} {content : Option (List Byte)} {b : Bool}
    (hopens : Opens modelVersion d.storage.bytes)
    (hbecame : Became n d.storage.bytes bytes' slot content) (hlimit : bytes'.length < sizeLimit) :
    DatabaseInv n modelVersion ⟨⟨bytes', p⟩, b⟩ :=
  Or.inr ⟨hbecame.opens hopens, hbecame.aligned, hlimit⟩

theorem inv_of_bytes {p : ℕ} {b : Bool} (hopens : Opens modelVersion d.storage.bytes)
    (haligned : Aligned n d.storage.bytes) (hlimit : d.storage.bytes.length < sizeLimit) :
    DatabaseInv n modelVersion ⟨⟨d.storage.bytes, p⟩, b⟩ :=
  Or.inr ⟨hopens, haligned, hlimit⟩

/-- A change of one live slot keeps the length of the file. -/
theorem Became.length_eq {bytes bytes' : File} {slot : ℕ} {content : Option (List Byte)}
    (h : Became n bytes bytes' slot content) (haligned : Aligned n bytes)
    (hslot : slot < slotCount n bytes) : bytes'.length = bytes.length := by
  have hcount : slotCount n bytes' = slotCount n bytes := by
    rw [h.count]
    omega
  rw [h.aligned, hcount, ← haligned]

/-- The operation of a slot that is not live is refused by the look at its flags. -/
theorem refused {α : Type} {slot : ℕ} {f : Byte → Cursor α} (haligned : Aligned n d.storage.bytes)
    (hdead : ¬IsLive n d.storage.bytes slot) :
    ∃ e p, (CursorDatabase.liveFlags (slotRef n slot) >>= f) d.storage =
      (.error e, ⟨d.storage.bytes, p⟩) := by
  rcases @liveFlags_apply n d.storage.bytes d.storage.position slot haligned with
    ⟨p, hlive, -⟩ | ⟨p, e, -, hflags⟩
  · exact absurd hlive hdead
  · exact ⟨e, p, bind_error hflags⟩

/-! One lemma for each operation. -/

theorem behaves_insert {record : List Byte} (hlen : record.length = n)
    (hinv : DatabaseInv n modelVersion d) : Behaves n modelVersion d (.insert record hlen) ∧
      DatabaseInv n modelVersion (databaseStep n modelVersion d (.insert record hlen)) := by
  simp only [Behaves, databaseStep]
  refine performs_of hinv fun _ hopens haligned hlimit => ?_
  rcases @insertSerialized_apply n d.storage.bytes d.storage.position haligned hlimit record hlen with
    ⟨bytes', p, slot, hbecame, hdead, hlimit', hrun⟩ | ⟨p, hroom, hrun⟩
  · exact ⟨_, _, hrun, Or.inl ⟨slot, rfl, contents_eq_none.2 hdead, contents_of_became hbecame⟩,
      inv_of_became hopens hbecame hlimit'⟩
  · exact ⟨_, _, hrun, Or.inr ⟨rfl, contents_of_bytes rfl, hroom⟩,
      inv_of_bytes hopens haligned hlimit⟩

theorem behaves_replace {slot : ℕ} {record : List Byte} (hlen : record.length = n)
    (hinv : DatabaseInv n modelVersion d) : Behaves n modelVersion d (.replace slot record hlen) ∧
      DatabaseInv n modelVersion (databaseStep n modelVersion d (.replace slot record hlen)) := by
  simp only [Behaves, databaseStep]
  refine performs_of hinv fun _ hopens haligned hlimit => ?_
  by_cases hlive : IsLive n d.storage.bytes slot
  · obtain ⟨bytes', p, hbecame, hrun⟩ :=
      @replaceSerialized_apply n d.storage.bytes d.storage.position slot haligned hlive record hlen
    refine ⟨_, _, hrun, ?_, inv_of_became hopens hbecame ?_⟩
    · rw [if_pos (contents_isSome.2 hlive)]
      exact ⟨rfl, contents_of_became hbecame⟩
    · rwa [hbecame.length_eq haligned hlive.1]
  · obtain ⟨e, p, hrun⟩ := refused haligned hlive
    refine ⟨_, _, hrun, ?_, inv_of_bytes hopens haligned hlimit⟩
    rw [if_neg (by rwa [contents_isSome])]
    exact ⟨⟨e, rfl⟩, contents_of_bytes rfl⟩

theorem behaves_remove {slot : ℕ} (hinv : DatabaseInv n modelVersion d) :
    Behaves n modelVersion d (.remove slot) ∧
      DatabaseInv n modelVersion (databaseStep n modelVersion d (.remove slot)) := by
  simp only [Behaves, databaseStep]
  refine performs_of hinv fun _ hopens haligned hlimit => ?_
  by_cases hlive : IsLive n d.storage.bytes slot
  · obtain ⟨bytes', p, hbecame, hrun⟩ :=
      @remove_apply n d.storage.bytes d.storage.position slot haligned hlive
    refine ⟨_, _, hrun, ?_, inv_of_became hopens hbecame ?_⟩
    · rw [if_pos (contents_isSome.2 hlive)]
      exact ⟨rfl, contents_of_became hbecame⟩
    · rwa [hbecame.length_eq haligned hlive.1]
  · obtain ⟨e, p, hrun⟩ := refused haligned hlive
    refine ⟨_, _, hrun, ?_, inv_of_bytes hopens haligned hlimit⟩
    rw [if_neg (by rwa [contents_isSome])]
    exact ⟨⟨e, rfl⟩, contents_of_bytes rfl⟩

theorem behaves_read {slot : ℕ} (hinv : DatabaseInv n modelVersion d) :
    Behaves n modelVersion d (.read slot) ∧
      DatabaseInv n modelVersion (databaseStep n modelVersion d (.read slot)) := by
  simp only [Behaves, databaseStep]
  refine performs_of hinv fun _ hopens haligned hlimit => ?_
  by_cases hlive : IsLive n d.storage.bytes slot
  · obtain ⟨p, hrun⟩ := @read_apply n d.storage.bytes d.storage.position slot haligned hlive
    refine ⟨_, _, hrun, ⟨contents_of_bytes rfl, ?_⟩, inv_of_bytes hopens haligned hlimit⟩
    rw [contents, if_pos hlive]
  · obtain ⟨e, p, hrun⟩ := refused haligned hlive
    refine ⟨_, _, hrun, ⟨contents_of_bytes rfl, ?_⟩, inv_of_bytes hopens haligned hlimit⟩
    rw [contents_eq_none.2 hlive]
    exact ⟨e, rfl⟩

theorem behaves_compact (hinv : DatabaseInv n modelVersion d) :
    Behaves n modelVersion d .compact ∧
      DatabaseInv n modelVersion (databaseStep n modelVersion d .compact) := by
  simp only [Behaves, databaseStep]
  refine performs_of hinv fun _ hopens haligned hlimit => ?_
  obtain ⟨bytes', p, haligned', hle, hheader, hlive, hrecords, hrun⟩ :=
    @compact_apply n d.storage.bytes d.storage.position haligned hlimit
  have hopens' : Opens modelVersion bytes' := by
    refine ⟨haligned'.recordsStart_le, ?_, ?_⟩
    · rw [readByte_congr (hheader 0 (by decide))]
      exact hopens.2.1
    · rw [readByte_congr (hheader 1 (by decide))]
      exact hopens.2.2
  refine ⟨_, _, hrun, ⟨rfl, fun slot hslot => contents_isSome.2 (hlive slot hslot), _,
    visits_liveSlots, fun slot => ?_⟩, Or.inr ⟨hopens', haligned', by dsimp only; omega⟩⟩
  have hnew : liveRecords n bytes' = (List.range (slotCount n bytes')).map (slotPayload n bytes') := by
    rw [liveRecords, liveSlots_of_all_live hlive]
  have hget : (liveRecords n bytes')[slot]? =
      ((liveSlots n d.storage.bytes)[slot]?).map (slotPayload n d.storage.bytes) := by
    rw [hrecords, liveRecords, List.getElem?_map]
  have hold : (liveRecords n bytes')[slot]? =
      ((liveSlots n d.storage.bytes)[slot]?).bind (contents n d) := by
    rw [hget]
    cases hslot : (liveSlots n d.storage.bytes)[slot]? with
    | none => rfl
    | some i =>
        have hi := mem_liveSlots.1 (List.mem_of_getElem? hslot)
        rw [Option.map_some, Option.bind_some, contents, if_pos hi]
  rw [← hold, hnew, List.getElem?_map]
  by_cases hslot : slot < slotCount n bytes'
  · rw [List.getElem?_range hslot, contents, if_pos (hlive slot hslot)]
    rfl
  · rw [List.getElem?_eq_none (by simpa using hslot), contents, if_neg fun h => hslot h.1]
    rfl

theorem foldlM_congr_mem {ε σ α : Type} {f g : σ → α → Except ε σ} {l : List α}
    (h : ∀ a ∈ l, ∀ s, f s a = g s a) (s : σ) : l.foldlM f s = l.foldlM g s := by
  induction l generalizing s with
  | nil => rfl
  | cons a l ih =>
      rw [List.foldlM_cons, List.foldlM_cons, h a List.mem_cons_self]
      congr 1
      funext s'
      exact ih (fun b hb => h b (List.mem_cons_of_mem a hb)) s'

theorem behaves_foreachLive {σ : Type} {callback : Callback σ} {s : σ}
    (hinv : DatabaseInv n modelVersion d) :
    Behaves n modelVersion d (.foreachLive callback s) ∧
      DatabaseInv n modelVersion (databaseStep n modelVersion d (.foreachLive callback s)) := by
  simp only [Behaves, databaseStep]
  refine performs_of hinv fun _ hopens haligned hlimit => ?_
  obtain ⟨p, hrun⟩ := @foreachLive_apply n d.storage.bytes d.storage.position σ callback
    haligned.recordsStart_le s
  refine ⟨_, _, hrun, ⟨contents_of_bytes rfl, fun slot record hslot => ?_, _, visits_liveSlots, ?_⟩,
    inv_of_bytes hopens haligned hlimit⟩
  · obtain ⟨hlive, rfl⟩ := contents_eq_some.1 hslot
    have hle := slot_within hlive.1
    rw [Cursor.read_apply (by unfold recordPayloadOffset; omega)]
    rfl
  · apply foldlM_congr_mem
    intro slot hslot s
    have href := ofOffset_slot hlimit (mem_liveSlots.1 hslot).1
    cases hreply : (callback (slotRef n slot) (recordPayloadOffset (slotOffset n slot))
      ⟨d.storage.bytes, recordPayloadOffset (slotOffset n slot)⟩ s).1 with
    | none => simp only [visit, href, hreply]
    | some _ => simp only [visit, href, hreply]

theorem behaves_nextLiveFrom {slot : ℕ} (hinv : DatabaseInv n modelVersion d) :
    Behaves n modelVersion d (.nextLiveFrom slot) ∧
      DatabaseInv n modelVersion (databaseStep n modelVersion d (.nextLiveFrom slot)) := by
  simp only [Behaves, databaseStep]
  refine performs_of hinv fun hopen hopens haligned hlimit => ?_
  have hiterate : ∃ slots, Visits n d slots ∧ ∃ visited : List (RecordRef × List Byte),
      (d.perform (iterate n (slotCount n d.storage.bytes + 1) recordsStartOffset)).1 =
        .ok visited ∧
      visited.map (fun v => (v.1, some v.2)) =
        slots.map fun slot => (slotRef n slot, contents n d slot) := by
    obtain ⟨p, hrun⟩ := @iterate_apply n d.storage.bytes haligned hlimit
      (slotCount n d.storage.bytes + 1) 0 (Nat.zero_le _) (by omega) d.storage.position
    have hzero : recordsStartOffset = slotOffset n 0 := by simp [slotOffset]
    rw [Nat.sub_zero, liveFrom_zero] at hrun
    rw [hzero, perform_open hopen hrun]
    refine ⟨_, visits_liveSlots, _, rfl, ?_⟩
    rw [List.map_map]
    apply List.map_congr_left
    intro i hi
    rw [Function.comp_apply, contents, if_pos (mem_liveSlots.1 hi)]
  by_cases hslot : slot ≤ slotCount n d.storage.bytes
  · obtain ⟨p, hrun⟩ :=
      @nextLiveFrom_apply n d.storage.bytes d.storage.position slot haligned hslot
    refine ⟨_, _, hrun, ⟨contents_of_bytes rfl, fun _ => ?_, hiterate⟩,
      inv_of_bytes hopens haligned hlimit⟩
    cases hhead : (liveFrom n d.storage.bytes slot (slotCount n d.storage.bytes - slot)).head? with
    | none =>
        refine Or.inr ⟨fun j hj => contents_eq_none.2 fun hlive => ?_, _, rfl⟩
        have hmem : j ∈ liveFrom n d.storage.bytes slot (slotCount n d.storage.bytes - slot) :=
          mem_liveFrom.2 ⟨⟨hj, by have := hlive.1; omega⟩, hlive⟩
        rw [List.head?_eq_none_iff.1 hhead] at hmem
        cases hmem
    | some i =>
        obtain ⟨hle, hlive, heq⟩ := liveFrom_of_head (by omega) hhead
        refine Or.inl ⟨i, hle, contents_isSome.2 hlive, fun j hj hji => contents_eq_none.2 ?_, ?_⟩
        · intro hlive'
          have hmem : j ∈ liveFrom n d.storage.bytes slot (slotCount n d.storage.bytes - slot) :=
            mem_liveFrom.2 ⟨⟨hj, by have := hlive'.1; omega⟩, hlive'⟩
          rw [heq, List.mem_cons, mem_liveFrom] at hmem
          omega
        · dsimp only
          rw [ofOffset_slot hlimit hlive.1]
  · have hlt : d.storage.bytes.length < slotOffset n slot := by
      rw [haligned]
      exact slotOffset_lt (by omega)
    have hmax : max (slotOffset n slot) recordsStartOffset = slotOffset n slot :=
      Nat.max_eq_left (Nat.le_add_right _ _)
    refine ⟨.error .seekFailed, d.storage, ?_, ⟨contents_of_bytes rfl, fun h => absurd h hslot,
      hiterate⟩, inv_of_bytes hopens haligned hlimit⟩
    rw [CursorDatabase.nextLiveFrom, bind_ok (rfl : Cursor.size _ = _),
      bind_ok (Cursor.failIf_apply (Nat.not_lt_of_le haligned.recordsStart_le) _), hmax]
    exact bind_error (by rw [Cursor.seek, if_pos hlt])

theorem behaves_opening {m : Cursor Unit} {s : RandomAccess} (h : m d.storage = (.ok (), s)) :
    d.opening m = (.ok (), ⟨s, true⟩) := by rw [DatabaseState.opening, h]

theorem behaves_create :
    Behaves n modelVersion d .create ∧
      DatabaseInv n modelVersion (databaseStep n modelVersion d .create) := by
  obtain ⟨bytes', p, hlength, hopens, hrun⟩ := create_apply modelVersion d.storage
  have hzero : slotOffset n 0 = recordsStartOffset := by simp [slotOffset]
  obtain ⟨haligned, hcount⟩ := aligned_of_length (hlength.trans hzero.symm)
  simp only [Behaves, databaseStep, behaves_opening hrun]
  refine ⟨⟨trivial, ?_⟩, Or.inr ⟨hopens, haligned, ?_⟩⟩
  · funext slot
    exact contents_eq_none.2 (not_isLive_of_slotCount hcount slot)
  · dsimp only
    rw [hlength]
    decide

theorem behaves_openDatabase (hinv : DatabaseInv n modelVersion d) :
    Behaves n modelVersion d .openDatabase ∧
      DatabaseInv n modelVersion (databaseStep n modelVersion d .openDatabase) := by
  rcases hinv with ⟨hempty, hclosed⟩ | ⟨hopens, haligned, hlimit⟩
  · have hrun : d.opening (CursorDatabase.openDatabase modelVersion) =
        (.error .fileTooShort, d) := by
      obtain ⟨⟨bytes, position⟩, isOpen⟩ := d
      obtain rfl : bytes = [] := hempty
      rfl
    simp only [Behaves, databaseStep, hrun]
    exact ⟨⟨fun h => absurd hempty h, trivial⟩, Or.inl ⟨hempty, hclosed⟩⟩
  · obtain ⟨p, hrun⟩ := @openDatabase_apply d.storage.bytes d.storage.position modelVersion hopens
    simp only [Behaves, databaseStep, behaves_opening hrun]
    exact ⟨⟨fun _ => trivial, contents_of_bytes rfl⟩, inv_of_bytes hopens haligned hlimit⟩

theorem behaves_step (hinv : DatabaseInv n modelVersion d) (op : DatabaseOp n) :
    Behaves n modelVersion d op ∧ DatabaseInv n modelVersion (databaseStep n modelVersion d op) := by
  cases op with
  | fresh =>
      refine ⟨contents_of_bytes rfl, ?_⟩
      rcases hinv with ⟨hempty, -⟩ | hopened
      · exact Or.inl ⟨hempty, rfl⟩
      · exact Or.inr hopened
  | create => exact behaves_create
  | openDatabase => exact behaves_openDatabase hinv
  | insert record h => exact behaves_insert h hinv
  | replace slot record h => exact behaves_replace h hinv
  | remove slot => exact behaves_remove hinv
  | read slot => exact behaves_read hinv
  | compact => exact behaves_compact hinv
  | foreachLive callback s => exact behaves_foreachLive hinv
  | nextLiveFrom slot => exact behaves_nextLiveFrom hinv

theorem databaseInv_run (ops : List (DatabaseOp n)) (hinv : DatabaseInv n modelVersion d) :
    DatabaseInv n modelVersion (ops.foldl (databaseStep n modelVersion) d) := by
  induction ops generalizing d with
  | nil => exact hinv
  | cons op ops ih => exact ih (behaves_step hinv op).2

end

/-- After any operations on a storage that does not fail, every operation does to the map of the
records what it promises. -/
theorem database_refines_map (n : ℕ) (modelVersion : Byte) (ops : List (DatabaseOp n))
    (op : DatabaseOp n) :
    Behaves n modelVersion (ops.foldl (databaseStep n modelVersion) .blank) op :=
  (behaves_step (databaseInv_run ops (Or.inl ⟨rfl, rfl⟩)) op).1

end Lightnet.Storage
