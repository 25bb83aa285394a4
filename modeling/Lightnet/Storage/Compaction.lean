import Lightnet.Storage.CursorLoops

/-!
# Compaction

The loop over the slots keeps a second offset, where the next live record goes. Below it the file is
done, and from the slot of the loop on it is as it was.
-/

namespace Lightnet.Storage

open CursorDatabase

variable {n : ℕ} {bytes : File} {position : ℕ}

theorem SameSlot.trans {a b c : File} {i : ℕ} (hab : SameSlot n a b i) (hbc : SameSlot n b c i) :
    SameSlot n a c i :=
  ⟨hbc.1.trans hab.1, hbc.2.trans hab.2⟩

theorem liveFrom_congr {bytes' : File} {slot left : ℕ}
    (hcount : slotCount n bytes' = slotCount n bytes)
    (h : ∀ i, slot ≤ i → SameSlot n bytes bytes' i) :
    liveFrom n bytes' slot left = liveFrom n bytes slot left ∧
      (liveFrom n bytes slot left).map (slotPayload n bytes') =
        (liveFrom n bytes slot left).map (slotPayload n bytes) := by
  constructor
  · apply List.filter_congr
    intro i hi
    have hlive : IsLive n bytes' i ↔ IsLive n bytes i := by
      rw [IsLive, IsLive, hcount, (h i (List.mem_range'_1.1 hi).1).1]
    exact decide_eq_decide.2 hlive
  · apply List.map_congr_left
    intro i hi
    exact (h i (List.mem_range'_1.1 (List.mem_of_mem_filter hi)).1).2

theorem writeLiveRecordSlot_apply {offset : ℕ} {record : List Byte}
    (h : offset + 1 + record.length ≤ bytes.length) :
    CursorDatabase.writeLiveRecordSlot offset record ⟨bytes, position⟩ =
      (.ok (), ⟨writeSlot bytes offset 0 record, offset + 1 + record.length⟩) := by
  have hflag : (writeAt bytes offset [0]).length = bytes.length := by
    apply length_writeAt
    rw [List.length_singleton]
    omega
  rw [CursorDatabase.writeLiveRecordSlot, bind_ok (Cursor.seek_apply (by omega)),
    bind_ok (rfl : Cursor.write _ _ = _), CursorDatabase.writeRecordPayloadAt,
    bind_ok (Cursor.seek_apply (by rw [hflag, recordPayloadOffset]; omega))]
  rfl

/-- The live records among the slots have gone to the slots from `w` on. -/
structure Moved (n : ℕ) (bytes bytes' : File) (w : ℕ) (slots : List ℕ) : Prop where
  aligned : Aligned n bytes'
  count : slotCount n bytes' = slotCount n bytes
  header : ∀ i, i < recordsStartOffset → bytes'[i]? = bytes[i]?
  below : ∀ i, i < w → SameSlot n bytes bytes' i
  live : ∀ i, w ≤ i → i < w + slots.length → IsLive n bytes' i
  payloads : (List.range' w slots.length).map (slotPayload n bytes') =
    slots.map (slotPayload n bytes)

theorem moved_nil (haligned : Aligned n bytes) (w : ℕ) : Moved n bytes bytes w [] :=
  ⟨haligned, rfl, fun _ _ => rfl, fun _ _ => ⟨rfl, rfl⟩,
    fun i hlow hhigh => absurd hhigh (by simpa using hlow), rfl⟩

/-- One record has been written to where it belongs, or was there already. -/
theorem Moved.cons {mid bytes' : File} {w slot : ℕ} {slots : List ℕ}
    (hcount : slotCount n mid = slotCount n bytes)
    (hheader : ∀ i, i < recordsStartOffset → mid[i]? = bytes[i]?)
    (hbelow : ∀ i, i < w → SameSlot n bytes mid i) (hlive : IsLive n mid w)
    (hpayload : slotPayload n mid w = slotPayload n bytes slot)
    (hslots : slots.map (slotPayload n mid) = slots.map (slotPayload n bytes))
    (h : Moved n mid bytes' (w + 1) slots) : Moved n bytes bytes' w (slot :: slots) := by
  have hw := h.below w (Nat.lt_succ_self w)
  refine ⟨h.aligned, h.count.trans hcount, fun i hi => (h.header i hi).trans (hheader i hi),
    fun i hi => (hbelow i hi).trans (h.below i (Nat.lt_succ_of_lt hi)), fun i hlow hhigh => ?_, ?_⟩
  · rcases Nat.eq_or_lt_of_le hlow with rfl | hlt
    · refine ⟨?_, ?_⟩
      · rw [h.count]
        exact hlive.1
      · rw [hw.1]
        exact hlive.2
    · rw [List.length_cons] at hhigh
      exact h.live i hlt (by omega)
  · rw [List.length_cons, List.range'_succ, List.map_cons, List.map_cons, hw.2, hpayload,
      h.payloads, hslots]

theorem compactLoop_apply {left : ℕ} : ∀ {bytes : File} {slot w : ℕ}, Aligned n bytes →
    slot + left = slotCount n bytes → w ≤ slot →
    ∃ bytes' p, Moved n bytes bytes' w (liveFrom n bytes slot left) ∧
      compactLoop n bytes.length (slotOffset n slot) (slotOffset n w) ⟨bytes, slotOffset n slot⟩ =
        (.ok (slotOffset n (w + (liveFrom n bytes slot left).length)), ⟨bytes', p⟩) := by
  induction left with
  | zero =>
      intro bytes slot w haligned h hw
      rw [compactLoop, if_neg]
      · exact ⟨bytes, _, moved_nil haligned w, rfl⟩
      · rw [in_file_iff]
        omega
  | succ left ih =>
      intro bytes slot w haligned h hw
      have hslot : slot < slotCount n bytes := by omega
      have hle := slot_within hslot
      rw [compactLoop, if_pos (in_file_iff.2 hslot),
        bind_ok (readFlags_apply hslot), liveFrom_succ hslot]
      cases hdel : isRecordSlotDeleted (slotFlags n bytes slot) with
      | true =>
          rw [if_pos rfl, if_pos rfl, bind_ok (seekForward_slot hslot), slotOffset_add]
          exact ih haligned (by omega) (by omega)
      | false =>
          simp only [Bool.false_eq_true, if_false, List.length_cons]
          by_cases hsame : slot = w
          · subst hsame
            rw [if_neg (by simp), bind_ok (seekForward_slot hslot), slotOffset_add]
            obtain ⟨bytes', p, hmoved, hrun⟩ := @ih bytes (slot + 1) (slot + 1) haligned
              (by omega) le_rfl
            refine ⟨bytes', p, Moved.cons rfl (fun _ _ => rfl) (fun _ _ => ⟨rfl, rfl⟩)
              ⟨hslot, hdel⟩ rfl rfl hmoved, ?_⟩
            rw [hrun, Nat.add_assoc, Nat.add_comm 1]
          · have hne : slotOffset n slot ≠ slotOffset n w := by
              intro heq
              exact hsame (Nat.le_antisymm (slotOffset_le_iff.1 heq.le) hw)
            have hlen : (slotPayload n bytes slot).length = n := Cursor.length_readAt (by
              unfold recordPayloadOffset
              omega)
            have hwslot : w < slotCount n bytes := by omega
            have hwle := slot_within hwslot
            have hfit : slotOffset n w + 1 + (slotPayload n bytes slot).length ≤ bytes.length := by
              rw [hlen]
              exact hwle
            have hread : readAt bytes (slotOffset n slot + 1) n = slotPayload n bytes slot := rfl
            rw [if_pos hne, bind_ok (Cursor.read_apply (by omega)), hread,
              bind_ok (writeLiveRecordSlot_apply hfit), slotOffset_add slot, slotOffset_add w]
            obtain ⟨mid, hmid⟩ : ∃ mid, mid =
              writeSlot bytes (slotOffset n w) 0 (slotPayload n bytes slot) := ⟨_, rfl⟩
            have hbecame := became_reused haligned hwslot hlen
            rw [← hmid] at hbecame ⊢
            have hcount : slotCount n mid = slotCount n bytes := by
              rw [hbecame.count]
              omega
            have hothers : ∀ i, i ≠ w → SameSlot n bytes mid i := fun i hi => by
              rw [hmid]
              exact sameSlot_writeSlot_of_ne (by rw [hlen]; exact slot_within hwslot) hlen.le hi
            obtain ⟨hfrom, hpayloads⟩ := @liveFrom_congr n bytes mid (slot + 1) left hcount
              fun i hi => hothers i (by omega)
            have hstored := (hbecame.self (slotPayload n bytes slot)).2 rfl
            have hlength : mid.length = bytes.length := by
              rw [hbecame.aligned, hcount, ← haligned]
            obtain ⟨bytes', p, hmoved, hrun⟩ := @ih mid (slot + 1) (w + 1) hbecame.aligned
              (by omega) (by omega)
            rw [hfrom] at hmoved hrun
            have hall := Moved.cons hcount hbecame.header
              (fun i hi => hothers i (by omega)) hstored.1 hstored.2 hpayloads hmoved
            by_cases hlast : slotCount n bytes ≤ slot + 1
            · obtain rfl : left = 0 := by omega
              rw [if_pos (last_slot_iff.2 hlast)]
              exact ⟨mid, _, Moved.cons hcount hbecame.header
                (fun i hi => hothers i (by omega)) hstored.1 hstored.2 hpayloads
                (moved_nil hbecame.aligned _), rfl⟩
            · rw [if_neg (by rwa [last_slot_iff]),
                bind_ok (seek_slot (by omega) hbecame.aligned.recordsStart_le), ← hlength, hrun, Nat.add_assoc,
                Nat.add_comm 1]
              exact ⟨bytes', p, hall, rfl⟩

theorem liveSlots_of_all_live (h : ∀ i, i < slotCount n bytes → IsLive n bytes i) :
    liveSlots n bytes = List.range (slotCount n bytes) := by
  apply List.filter_eq_self.2
  intro i hi
  exact decide_eq_true (h i (List.mem_range.1 hi))

theorem sameSlot_take {m i : ℕ} (h : i < m) :
    SameSlot n bytes (bytes.take (slotOffset n m)) i := by
  have hle : slotOffset n (i + 1) ≤ slotOffset n m := slotOffset_le h
  rw [slotOffset_succ] at hle
  apply sameSlot_of_getElem?
  intro j hlow hhigh
  exact List.getElem?_take_of_lt (by omega)

/-- Only live slots are left, with the records that were live, in their order. -/
theorem compact_apply (haligned : Aligned n bytes) (hlimit : bytes.length < sizeLimit) :
    ∃ bytes' p, Aligned n bytes' ∧ bytes'.length ≤ bytes.length ∧
      (∀ i, i < recordsStartOffset → bytes'[i]? = bytes[i]?) ∧
      (∀ i, i < slotCount n bytes' → IsLive n bytes' i) ∧
      liveRecords n bytes' = liveRecords n bytes ∧
      compact n ⟨bytes, position⟩ = (.ok (), ⟨bytes', p⟩) := by
  have hstart := haligned.recordsStart_le
  have hzero : recordsStartOffset = slotOffset n 0 := by simp [slotOffset]
  obtain ⟨mid, p, hmoved, hrun⟩ := compactLoop_apply haligned (Nat.zero_add _) (le_refl 0)
  rw [liveFrom_zero, Nat.zero_add] at hrun
  rw [liveFrom_zero] at hmoved
  obtain ⟨m, hm⟩ : ∃ m, m = (liveSlots n bytes).length := ⟨_, rfl⟩
  have hmle : m ≤ slotCount n mid := by
    rw [hm, hmoved.count]
    exact (List.length_filter_le _ _).trans_eq List.length_range
  have hmid : mid.length = bytes.length := by rw [hmoved.aligned, hmoved.count, ← haligned]
  have hmlen : slotOffset n m ≤ mid.length := by
    rw [hmoved.aligned]
    exact slotOffset_le hmle
  have htake : (mid.take (slotOffset n m)).length = slotOffset n m := by
    rw [List.length_take]
    omega
  obtain ⟨haligned', hcount'⟩ := aligned_of_length htake
  have hlive : ∀ i, i < m → IsLive n (mid.take (slotOffset n m)) i := by
    intro i hi
    refine ⟨by rwa [hcount'], ?_⟩
    rw [(sameSlot_take hi).1]
    exact (hmoved.live i (Nat.zero_le i) (by omega)).2
  refine ⟨mid.take (slotOffset n m), min p (slotOffset n m), haligned', by omega, fun i hi => ?_,
    fun i hi => hlive i (by rwa [hcount'] at hi), ?_, ?_⟩
  · have hlow : i < slotOffset n m := Nat.lt_of_lt_of_le hi (Nat.le_add_right _ _)
    rw [List.getElem?_take_of_lt hlow, hmoved.header i hi]
  · rw [liveRecords, liveSlots_of_all_live (fun i hi => hlive i (by rwa [hcount'] at hi)), hcount',
      List.range_eq_range', liveRecords, ← hmoved.payloads, ← hm]
    apply List.map_congr_left
    intro i hi
    exact (sameSlot_take (by simpa using hi)).2
  · rw [compact, bind_ok (rfl : Cursor.size _ = _),
      bind_ok (Cursor.failIf_apply (Nat.not_lt_of_le hstart) _), bind_ok (Cursor.seek_apply hstart),
      hzero, bind_ok hrun, ← hm, Cursor.truncate, if_neg (by omega),
      Nat.sub_eq_zero_of_le hmlen, List.replicate_zero, List.append_nil]

end Lightnet.Storage
