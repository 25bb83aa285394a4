import Lightnet.Storage.RecordMap
import Mathlib.Data.Finset.Card

/-!
# Files that end within a slot

A crash can leave a file that is no whole number of slots long, and such a file is opened without
complaint. The slots are counted from the start of the file, but a record that finds no deleted
slot is appended at the end of the file. Behind a partial slot the two places differ, and what is
written there is not found again. The deleted slots that the file holds are still safe to use.
-/

namespace Lightnet.Storage.CursorDatabase

/-! ### Inserting and looking again -/

section

variable (n : ℕ)

def insertAll : List (List Byte) → Cursor (List RecordRef)
  | [] => pure []
  | record :: records => do
    let ref ← insertSerialized n record
    let refs ← insertAll records
    pure (ref :: refs)

def openAndInsert (modelVersion : Byte) (records : List (List Byte)) : Cursor (List RecordRef) := do
  openDatabase modelVersion
  insertAll n records

/-- A caller that reads every record it is shown. -/
def collectRecord : Callback (List (RecordRef × List Byte)) := fun ref _ storage seen =>
  (some (seen ++ [(ref, readAt storage.bytes storage.position n)]), storage.position + n)

def collect : Cursor (List (RecordRef × List Byte)) := foreachLive n (collectRecord n) []

def reopenAndCollect (modelVersion : Byte) : Cursor (List (RecordRef × List Byte)) := do
  openDatabase modelVersion
  collect n

/-- Every record comes back at its reference, and does so also from the reopened file. -/
def InsertsReturned (modelVersion : Byte) (s : RandomAccess) (refs : List RecordRef)
    (records : List (List Byte)) : Prop :=
  (∃ seen s', collect n s = (.ok seen, s') ∧ ∀ v ∈ refs.zip records, v ∈ seen) ∧
  ∃ seen s', reopenAndCollect n modelVersion ⟨s.bytes, 0⟩ = (.ok seen, s') ∧
    ∀ v ∈ refs.zip records, v ∈ seen

def deletedSlots (file : File) : Finset ℕ :=
  (Finset.range (slotCount n file)).filter fun i => isRecordSlotDeleted (slotFlags n file i)

end

variable {n : ℕ} {modelVersion : Byte} {bytes : File} {position : ℕ}

theorem mem_deletedSlots {i : ℕ} : i ∈ deletedSlots n bytes ↔
    i < slotCount n bytes ∧ isRecordSlotDeleted (slotFlags n bytes i) = true := by
  rw [deletedSlots, Finset.mem_filter, Finset.mem_range]

theorem foldlM_collect (slots : List ℕ) (seen : List (RecordRef × List Byte)) :
    slots.foldlM (visit (collectRecord n) n bytes) seen =
      .ok (seen ++ slots.map fun i => (.ofOffset (slotOffset n i), slotPayload n bytes i)) := by
  induction slots generalizing seen with
  | nil => rw [List.map_nil, List.append_nil]; rfl
  | cons i slots ih =>
      rw [List.foldlM_cons, List.map_cons]
      have hvisit : visit (collectRecord n) n bytes seen i =
          .ok (seen ++ [(.ofOffset (slotOffset n i), slotPayload n bytes i)]) := rfl
      rw [hvisit]
      exact (ih _).trans (by rw [List.append_assoc]; rfl)

/-- The references that are seen are those of the live slots. -/
theorem collect_run (hlong : recordsStartOffset ≤ bytes.length) (hlimit : bytes.length < sizeLimit) :
    ∃ p, collect n ⟨bytes, position⟩ =
      (.ok ((liveSlots n bytes).map fun i => (slotRef n i, slotPayload n bytes i)), ⟨bytes, p⟩) := by
  obtain ⟨p, hrun⟩ := @foreachLive_apply n bytes position _ (collectRecord n) hlong []
  refine ⟨p, ?_⟩
  rw [collect, hrun, foldlM_collect, List.nil_append]
  congr 2
  apply List.map_congr_left
  intro i hi
  rw [ofOffset_slot hlimit (mem_liveSlots.1 hi).1]

theorem insertsReturned_iff_stores (hopens : Opens modelVersion bytes)
    (hlimit : bytes.length < sizeLimit) {refs : List RecordRef} {records : List (List Byte)} :
    InsertsReturned n modelVersion ⟨bytes, position⟩ refs records ↔
      ∀ v ∈ refs.zip records, ∃ i, v.1 = slotRef n i ∧ Stores n bytes i v.2 := by
  have hmem : ∀ v : RecordRef × List Byte,
      v ∈ (liveSlots n bytes).map (fun i => (slotRef n i, slotPayload n bytes i)) ↔
        ∃ i, v.1 = slotRef n i ∧ Stores n bytes i v.2 := by
    rintro ⟨ref, record⟩
    rw [List.mem_map]
    constructor
    · rintro ⟨i, hi, heq⟩
      obtain ⟨rfl, rfl⟩ := Prod.mk.inj heq
      exact ⟨i, rfl, mem_liveSlots.1 hi, rfl⟩
    · rintro ⟨i, rfl, hlive, rfl⟩
      exact ⟨i, mem_liveSlots.2 hlive, rfl⟩
  obtain ⟨p, hrun⟩ := @collect_run n bytes position hopens.1 hlimit
  obtain ⟨q, hopen⟩ := @openDatabase_apply bytes 0 modelVersion hopens
  obtain ⟨p', hrun'⟩ := @collect_run n bytes q hopens.1 hlimit
  have hreopen : reopenAndCollect n modelVersion ⟨bytes, 0⟩ =
      (.ok ((liveSlots n bytes).map fun i => (slotRef n i, slotPayload n bytes i)),
        ⟨bytes, p'⟩) := by
    rw [reopenAndCollect, bind_ok hopen, hrun']
  constructor
  · rintro ⟨⟨seen, s', hseen, hall⟩, -⟩ v hv
    rw [hrun] at hseen
    obtain rfl := Except.ok.inj (Prod.mk.inj hseen).1
    exact (hmem v).1 (hall v hv)
  · intro hall
    exact ⟨⟨_, _, hrun, fun v hv => (hmem v).2 (hall v hv)⟩,
      ⟨_, _, hreopen, fun v hv => (hmem v).2 (hall v hv)⟩⟩

theorem failIf_error {p : Prop} [Decidable p] (hp : p) (e : DatabaseResult) (s : RandomAccess) :
    Cursor.failIf p e s = (.error e, s) := by
  rw [Cursor.failIf, Storage.failIf, if_pos hp]

theorem opens_of_openDatabase {s' : RandomAccess}
    (h : openDatabase modelVersion ⟨bytes, position⟩ = (.ok (), s')) :
    Opens modelVersion bytes ∧ s'.bytes = bytes := by
  have hopens : Opens modelVersion bytes := by
    have hbyte : ∀ i k, readByte (readAt bytes i (k + 1)) 0 = readByte bytes i := by
      intro i k
      rw [readByte, List.getD_eq_getElem?_getD, getElem?_readAt, if_pos (Nat.succ_pos k),
        Nat.add_zero, readByte, List.getD_eq_getElem?_getD]
    rw [openDatabase, bind_ok (rfl : Cursor.size _ = _)] at h
    by_cases hlong : recordsStartOffset ≤ bytes.length
    swap
    · rw [bind_error (failIf_error (Nat.lt_of_not_le hlong) _ _)] at h
      cases h
    have hlong' : 4 ≤ bytes.length := hlong
    rw [bind_ok (Cursor.failIf_apply (Nat.not_lt_of_le hlong) _),
      bind_ok (Cursor.seek_apply (Nat.zero_le _)), bind_ok (Cursor.read_apply (by omega))] at h
    by_cases hversion : readByte bytes 0 = dbVersion
    swap
    · rw [bind_error (failIf_error (by rwa [hbyte]) _ _)] at h
      cases h
    rw [bind_ok (Cursor.failIf_apply (by rw [hbyte]; exact not_not.2 hversion) _),
      bind_ok (Cursor.seek_apply (by omega)), bind_ok (Cursor.read_apply (by omega))] at h
    by_cases hmodel : readByte bytes 1 = modelVersion
    · exact ⟨hlong, hversion, hmodel⟩
    · rw [failIf_error (by rwa [hbyte])] at h
      cases h
  obtain ⟨p, hrun⟩ := @openDatabase_apply bytes position modelVersion hopens
  rw [hrun] at h
  exact ⟨hopens, by rw [← (Prod.mk.inj h).2]⟩

/-! ### One insert -/

theorem opens_writeSlot {offset : ℕ} {record : List Byte} {file : File}
    (hopens : Opens modelVersion bytes) (hoffset : recordsStartOffset ≤ offset)
    (hfit : offset + 1 + record.length ≤ file.length)
    (hsame : ∀ i < recordsStartOffset, file[i]? = bytes[i]?) :
    Opens modelVersion (writeSlot file offset 0 record) := by
  have hbytes : ∀ i < recordsStartOffset, readByte (writeSlot file offset 0 record) i =
      readByte bytes i := by
    intro i hi
    apply readByte_congr
    rw [getElem?_writeSlot hfit 0 (Or.inl (Nat.lt_of_lt_of_le hi hoffset)), hsame i hi]
  refine ⟨?_, ?_, ?_⟩
  · rw [length_writeSlot hfit]
    omega
  · rw [hbytes 0 (by decide)]
    exact hopens.2.1
  · rw [hbytes 1 (by decide)]
    exact hopens.2.2

/-- What an insert into a deleted slot does to a file of any length. -/
theorem reuse_slots {slot : ℕ} {record : List Byte} (hdeleted : slot ∈ deletedSlots n bytes)
    (hlen : record.length = n) :
    Stores n (writeSlot bytes (slotOffset n slot) 0 record) slot record ∧
    (∀ i r, Stores n bytes i r → Stores n (writeSlot bytes (slotOffset n slot) 0 record) i r) ∧
    deletedSlots n (writeSlot bytes (slotOffset n slot) 0 record) =
      (deletedSlots n bytes).erase slot := by
  obtain ⟨hslot, hdel⟩ := mem_deletedSlots.1 hdeleted
  have hwithin := slot_within hslot
  have hfit : slotOffset n slot + 1 + record.length ≤ bytes.length := by rwa [hlen]
  have hcount : slotCount n (writeSlot bytes (slotOffset n slot) 0 record) = slotCount n bytes := by
    rw [slotCount, slotCount, length_writeSlot hfit]
  have hother : ∀ i, i ≠ slot → SameSlot n bytes (writeSlot bytes (slotOffset n slot) 0 record) i :=
    fun i hi => sameSlot_writeSlot_of_ne hfit hlen.le hi
  have hlive : isRecordSlotDeleted
      (slotFlags n (writeSlot bytes (slotOffset n slot) 0 record) slot) = false := by
    rw [slotFlags_writeSlot hfit]
    rfl
  refine ⟨⟨⟨by rwa [hcount], hlive⟩, slotPayload_writeSlot hlen hwithin 0⟩, ?_, ?_⟩
  · rintro i r ⟨⟨hi, hkept⟩, hpayload⟩
    have hne : i ≠ slot := by
      rintro rfl
      rw [hdel] at hkept
      cases hkept
    obtain ⟨hflags, hrecord⟩ := hother i hne
    exact ⟨⟨by rwa [hcount], by rwa [hflags]⟩, hrecord.trans hpayload⟩
  · ext i
    rw [Finset.mem_erase, mem_deletedSlots, mem_deletedSlots, hcount]
    by_cases hi : i = slot
    · subst hi
      rw [hlive]
      simp
    · rw [(hother i hi).1]
      simp [hi]

/-- An insert that succeeds has used a deleted slot, or else the end of the file. -/
theorem insertSerialized_ok {record : List Byte} {ref : RecordRef} {s' : RandomAccess}
    (hopens : Opens modelVersion bytes) (hlimit : bytes.length < sizeLimit)
    (hlen : record.length = n)
    (h : insertSerialized n record ⟨bytes, position⟩ = (.ok ref, s')) :
    Opens modelVersion s'.bytes ∧ s'.bytes.length < sizeLimit ∧
    ((∃ slot ∈ deletedSlots n bytes, ref = slotRef n slot ∧
        s'.bytes = writeSlot bytes (slotOffset n slot) 0 record) ∨
      (deletedSlots n bytes = ∅ ∧ ref = ⟨bytes.length⟩ ∧
        s'.bytes = writeSlot (bytes ++ List.replicate (recordSlotSize n) 0) bytes.length 0 record)) := by
  rcases @insertSerialized_run n bytes position hopens.1 hlimit record hlen with
    ⟨p, slot, hslot, hdel, hrun⟩ | ⟨hnone, hroom, p, hrun⟩ | ⟨-, p, hrun⟩
  · rw [hrun] at h
    obtain ⟨href, rfl⟩ := Prod.mk.inj h
    obtain rfl := Except.ok.inj href
    have hfit : slotOffset n slot + 1 + record.length ≤ bytes.length := by
      rw [hlen]
      exact slot_within hslot
    refine ⟨opens_writeSlot hopens (Nat.le_add_right _ _) hfit (fun _ _ => rfl), ?_,
      .inl ⟨slot, mem_deletedSlots.2 ⟨hslot, hdel⟩, rfl, rfl⟩⟩
    rw [length_writeSlot hfit]
    exact hlimit
  · rw [hrun] at h
    obtain ⟨href, rfl⟩ := Prod.mk.inj h
    obtain rfl := Except.ok.inj href
    have hfit : bytes.length + 1 + record.length ≤
        (bytes ++ List.replicate (recordSlotSize n) 0).length := by
      rw [List.length_append, List.length_replicate, hlen, recordSlotSize, Nat.add_assoc]
    have hempty : deletedSlots n bytes = ∅ := by
      rw [Finset.eq_empty_iff_forall_notMem]
      intro i hi
      obtain ⟨hslot, hdel⟩ := mem_deletedSlots.1 hi
      exact hnone ⟨i, hslot, hdel⟩
    refine ⟨opens_writeSlot hopens hopens.1 hfit ?_, ?_, .inr ⟨hempty, rfl, rfl⟩⟩
    · intro i hi
      exact List.getElem?_append_left (Nat.lt_of_lt_of_le hi hopens.1)
    · rw [length_writeSlot hfit, List.length_append, List.length_replicate]
      exact hroom
  · rw [hrun] at h
    cases (Prod.mk.inj h).1

/-! ### Any number of inserts -/

theorem insertAll_cons {record : List Byte} {records : List (List Byte)} {refs : List RecordRef}
    {s s' : RandomAccess} (h : insertAll n (record :: records) s = (.ok refs, s')) :
    ∃ ref mid rest, insertSerialized n record s = (.ok ref, mid) ∧
      insertAll n records mid = (.ok rest, s') ∧ refs = ref :: rest := by
  rw [insertAll] at h
  rcases Ends.bind h with ⟨ref, mid, hinsert, hrest⟩ | ⟨e, -, herr⟩
  · rcases Ends.bind hrest with ⟨rest, last, hall, hpure⟩ | ⟨e, -, herr⟩
    · obtain ⟨hrefs, rfl⟩ := Prod.mk.inj hpure
      exact ⟨ref, mid, rest, hinsert, hall, (Except.ok.inj hrefs).symm⟩
    · cases herr
  · cases herr

theorem insertAll_opens {records : List (List Byte)} {refs : List RecordRef} {s' : RandomAccess}
    (hopens : Opens modelVersion bytes) (hlimit : bytes.length < sizeLimit)
    (hlen : ∀ record ∈ records, record.length = n)
    (h : insertAll n records ⟨bytes, position⟩ = (.ok refs, s')) :
    Opens modelVersion s'.bytes ∧ s'.bytes.length < sizeLimit := by
  induction records generalizing bytes position refs with
  | nil =>
      obtain ⟨-, rfl⟩ := Prod.mk.inj h
      exact ⟨hopens, hlimit⟩
  | cons record records ih =>
      obtain ⟨ref, mid, rest, hinsert, hall, -⟩ := insertAll_cons h
      obtain ⟨hopens', hlimit', -⟩ :=
        insertSerialized_ok hopens hlimit (hlen record List.mem_cons_self) hinsert
      exact ih hopens' hlimit' (fun r hr => hlen r (List.mem_cons_of_mem _ hr)) hall

/-- Where the file is aligned, or has a deleted slot for each record, every record gets a slot and
keeps it. -/
theorem insertAll_lands {records : List (List Byte)} {refs : List RecordRef} {s' : RandomAccess}
    (hopens : Opens modelVersion bytes) (hlimit : bytes.length < sizeLimit)
    (hlen : ∀ record ∈ records, record.length = n)
    (hroom : Aligned n bytes ∨ records.length ≤ (deletedSlots n bytes).card)
    (h : insertAll n records ⟨bytes, position⟩ = (.ok refs, s')) :
    (∀ v ∈ refs.zip records, ∃ i, v.1 = slotRef n i ∧ Stores n s'.bytes i v.2) ∧
      ∀ i r, Stores n bytes i r → Stores n s'.bytes i r := by
  induction records generalizing bytes position refs with
  | nil =>
      obtain ⟨-, rfl⟩ := Prod.mk.inj h
      refine ⟨?_, fun _ _ hstores => hstores⟩
      intro v hv
      rw [List.zip_nil_right] at hv
      cases hv
  | cons record records ih =>
      obtain ⟨ref, mid, rest, hinsert, hall, rfl⟩ := insertAll_cons h
      have hrecord := hlen record List.mem_cons_self
      obtain ⟨hopens', hlimit', hplace⟩ := insertSerialized_ok hopens hlimit hrecord hinsert
      obtain ⟨slot, rfl, hself, hothers, hroom'⟩ : ∃ slot, ref = slotRef n slot ∧
          Stores n mid.bytes slot record ∧ (∀ i r, Stores n bytes i r → Stores n mid.bytes i r) ∧
          (Aligned n mid.bytes ∨ records.length ≤ (deletedSlots n mid.bytes).card) := by
        rcases hplace with ⟨slot, hslot, rfl, hbytes⟩ | ⟨hnone, rfl, hbytes⟩
        · have hfit : slotOffset n slot + 1 + record.length ≤ bytes.length := by
            rw [hrecord]
            exact slot_within (mem_deletedSlots.1 hslot).1
          obtain ⟨hself, hothers, hdeleted⟩ := reuse_slots hslot hrecord
          rw [hbytes]
          refine ⟨slot, rfl, hself, hothers, hroom.imp ?_ ?_⟩
          · intro haligned
            exact (haligned.of_length_eq (length_writeSlot hfit 0)).1
          · intro hle
            rw [hdeleted, Finset.card_erase_of_mem hslot]
            rw [List.length_cons] at hle
            omega
        · have haligned : Aligned n bytes := by
            rcases hroom with haligned | hle
            · exact haligned
            · rw [hnone, Finset.card_empty, List.length_cons] at hle
              omega
          have hbecame := became_appended haligned hrecord
          rw [hbytes]
          refine ⟨slotCount n bytes, congrArg RecordRef.mk haligned, (hbecame.self _).2 rfl, ?_,
            .inl hbecame.aligned⟩
          intro i r hstores
          exact (hbecame.others i (Nat.ne_of_lt hstores.1.1) r).2 hstores
      obtain ⟨hpairs, hkept⟩ := ih hopens' hlimit'
        (fun r hr => hlen r (List.mem_cons_of_mem _ hr)) hroom' hall
      refine ⟨?_, fun i r hstores => hkept i r (hothers i r hstores)⟩
      intro v hv
      rw [List.zip_cons_cons] at hv
      rcases List.mem_cons.1 hv with rfl | hv
      · exact ⟨slot, rfl, hkept slot record hself⟩
      · exact hpairs v hv

/-- Where the file is not aligned, the first record that finds no deleted slot goes astray. -/
theorem insertAll_strays {records : List (List Byte)} {refs : List RecordRef} {s' : RandomAccess}
    (hopens : Opens modelVersion bytes) (hlimit : bytes.length < sizeLimit)
    (hlen : ∀ record ∈ records, record.length = n) (htorn : ¬Aligned n bytes)
    (hroom : (deletedSlots n bytes).card < records.length)
    (h : insertAll n records ⟨bytes, position⟩ = (.ok refs, s')) :
    ∃ v ∈ refs.zip records, ∀ i, v.1 ≠ slotRef n i := by
  induction records generalizing bytes position refs with
  | nil => exact absurd hroom (Nat.not_lt_zero _)
  | cons record records ih =>
      obtain ⟨ref, mid, rest, hinsert, hall, rfl⟩ := insertAll_cons h
      have hrecord := hlen record List.mem_cons_self
      obtain ⟨hopens', hlimit', hplace⟩ := insertSerialized_ok hopens hlimit hrecord hinsert
      rw [List.zip_cons_cons]
      rcases hplace with ⟨slot, hslot, rfl, hbytes⟩ | ⟨hnone, rfl, hbytes⟩
      · have hfit : slotOffset n slot + 1 + record.length ≤ bytes.length := by
          rw [hrecord]
          exact slot_within (mem_deletedSlots.1 hslot).1
        have hlength : mid.bytes.length = bytes.length := by
          rw [hbytes, length_writeSlot hfit]
        have htorn' : ¬Aligned n mid.bytes := by
          intro haligned
          exact htorn (haligned.of_length_eq hlength.symm).1
        have hroom' : (deletedSlots n mid.bytes).card < records.length := by
          have hpos := Finset.card_pos.2 ⟨slot, hslot⟩
          rw [hbytes, (reuse_slots hslot hrecord).2.2, Finset.card_erase_of_mem hslot]
          rw [List.length_cons] at hroom
          omega
        obtain ⟨v, hv, hstray⟩ := ih hopens' hlimit'
          (fun r hr => hlen r (List.mem_cons_of_mem _ hr)) htorn' hroom' hall
        exact ⟨v, List.mem_cons_of_mem _ hv, hstray⟩
      · refine ⟨(⟨bytes.length⟩, record), List.mem_cons_self, ?_⟩
        intro i heq
        exact htorn (aligned_of_length (congrArg RecordRef.offset heq)).1

/-- As long as the storage has room, the inserts return success. -/
theorem insertAll_runs {records : List (List Byte)} (hopens : Opens modelVersion bytes)
    (hroom : bytes.length + records.length * recordSlotSize n < sizeLimit)
    (hlen : ∀ record ∈ records, record.length = n) :
    ∃ refs s', insertAll n records ⟨bytes, position⟩ = (.ok refs, s') := by
  induction records generalizing bytes position with
  | nil => exact ⟨[], _, rfl⟩
  | cons record records ih =>
      have hrecord := hlen record List.mem_cons_self
      rw [List.length_cons, Nat.add_mul, Nat.one_mul] at hroom
      have hlimit : bytes.length < sizeLimit := by omega
      obtain ⟨ref, mid, hinsert, hmid⟩ : ∃ ref mid, insertSerialized n record ⟨bytes, position⟩ =
          (.ok ref, mid) ∧ mid.bytes.length ≤ bytes.length + recordSlotSize n := by
        rcases @insertSerialized_run n bytes position hopens.1 hlimit record hrecord with
          ⟨p, slot, hslot, -, hrun⟩ | ⟨-, -, p, hrun⟩ | ⟨hfull, -⟩
        · refine ⟨_, _, hrun, ?_⟩
          rw [length_writeSlot (by rw [hrecord]; exact slot_within hslot)]
          exact Nat.le_add_right _ _
        · refine ⟨_, _, hrun, ?_⟩
          rw [length_writeSlot, List.length_append, List.length_replicate]
          rw [List.length_append, List.length_replicate, hrecord, recordSlotSize, Nat.add_assoc]
        · omega
      obtain ⟨hopens', -, -⟩ := insertSerialized_ok hopens hlimit hrecord hinsert
      obtain ⟨rest, s', hall⟩ := @ih mid.bytes mid.position hopens' (by omega)
        (fun r hr => hlen r (List.mem_cons_of_mem _ hr))
      refine ⟨ref :: rest, s', ?_⟩
      rw [insertAll, bind_ok hinsert, bind_ok hall]
      rfl

theorem openAndInsert_runs {records : List (List Byte)} (hopens : Opens modelVersion bytes)
    (hroom : bytes.length + records.length * recordSlotSize n < sizeLimit)
    (hlen : ∀ record ∈ records, record.length = n) :
    ∃ refs s', openAndInsert n modelVersion records ⟨bytes, position⟩ = (.ok refs, s') := by
  obtain ⟨p, hopen⟩ := @openDatabase_apply bytes position modelVersion hopens
  rw [openAndInsert, bind_ok hopen]
  exact insertAll_runs hopens hroom hlen

end Lightnet.Storage.CursorDatabase

namespace Lightnet.Storage

open CursorDatabase

/-- The inserts into an opened file are all found again if and only if the file is a whole number of
slots long, or has a deleted slot for each of them. -/
theorem insertsReturned_iff {n : ℕ} {modelVersion : Byte} {bytes : File}
    (hlimit : bytes.length < sizeLimit) {records : List (List Byte)}
    (hlen : ∀ record ∈ records, record.length = n) {refs : List RecordRef} {s : RandomAccess}
    (hrun : openAndInsert n modelVersion records ⟨bytes, 0⟩ = (.ok refs, s)) :
    InsertsReturned n modelVersion s refs records ↔
      Aligned n bytes ∨ records.length ≤ (deletedSlots n bytes).card := by
  rcases Ends.bind hrun with ⟨_, ⟨mid, p⟩, hopen, hall⟩ | ⟨e, -, herr⟩
  swap
  · cases herr
  obtain ⟨hopens, rfl⟩ := opens_of_openDatabase hopen
  obtain ⟨hopens', hlimit'⟩ := insertAll_opens hopens hlimit hlen hall
  rw [insertsReturned_iff_stores hopens' hlimit']
  constructor
  · intro hstored
    by_contra hnot
    rw [not_or, Nat.not_le] at hnot
    obtain ⟨v, hv, hstray⟩ := insertAll_strays hopens hlimit hlen hnot.1 hnot.2 hall
    obtain ⟨i, hi, -⟩ := hstored v hv
    exact hstray i hi
  · intro hroom
    exact (insertAll_lands hopens hlimit hlen hroom hall).1

/-- An empty database takes a record and gives it back. -/
theorem emptyDatabase_returns : ∃ refs s,
    openAndInsert 2 5 [[7, 8]] ⟨[dbVersion, 5, 0, 0], 0⟩ = (.ok refs, s) ∧
      InsertsReturned 2 5 s refs [[7, 8]] := by
  obtain ⟨refs, s, hrun⟩ := @openAndInsert_runs 2 5 [dbVersion, 5, 0, 0] 0 [[7, 8]] (by decide)
    (by decide) (by decide)
  exact ⟨refs, s, hrun, (insertsReturned_iff (by decide) (by decide) hrun).2 (.inl rfl)⟩

/-- A file that an append has left after its first zero byte. -/
def partialAppend : File := [dbVersion, 5, 0, 0, 0]

/-- The next record is acknowledged and lost. -/
theorem partialAppend_loses : ∃ refs s,
    openAndInsert 2 5 [[7, 8]] ⟨partialAppend, 0⟩ = (.ok refs, s) ∧
      ¬InsertsReturned 2 5 s refs [[7, 8]] := by
  have hopens : Opens 5 partialAppend := by decide
  obtain ⟨p, hopen⟩ := @openDatabase_apply partialAppend 0 5 hopens
  obtain ⟨refs, s, hall⟩ := @insertAll_runs 2 5 partialAppend p [[7, 8]] hopens (by decide)
    (by decide)
  obtain ⟨hopens', hlimit'⟩ := insertAll_opens hopens (by decide) (by decide) hall
  refine ⟨refs, s, (bind_ok hopen).trans hall, ?_⟩
  rw [insertsReturned_iff_stores hopens' hlimit']
  intro hstored
  obtain ⟨v, hv, hstray⟩ := insertAll_strays hopens (by decide) (by decide)
    (by unfold Aligned; decide) (by decide) hall
  obtain ⟨i, hi, -⟩ := hstored v hv
  exact hstray i hi

end Lightnet.Storage
