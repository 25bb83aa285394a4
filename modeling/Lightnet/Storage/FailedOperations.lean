import Lightnet.Storage.Writes

/-!
# What a failed operation leaves behind

An insertion or a compaction that meets a fault ends there, with what it has written so far. A
slot is made live before its record is written, and a compaction copies a record before the slot
it was in goes, so most faults past the first write leave a record too many.
-/

namespace Lightnet.Storage

section

variable (recordSize : ℕ)

namespace Failing

/-- The slots `left` from `slot` on; every slot is passed with faults of its own. -/
def compactLoop (ω : ℕ → Faults) : ℕ → ℕ → ℕ → Db ℕ
  | 0, _, w => pure w
  | left + 1, slot, w => do
    let file ← get
    ofExcept (access (ω slot) (.scan (.flag slot)) .readFailed)
    if isRecordSlotDeleted (slotFlags recordSize file slot) then
      ofExcept (access (ω slot) (.scan (.skip slot)) .seekFailed)
      compactLoop ω left (slot + 1) w
    else if slot ≠ w then
      ofExcept (access (ω slot) (.scan (.recordRead slot)) .readFailed)
      writeLiveRecordSlot (ω slot) (slotOffset recordSize w) (slotPayload recordSize file slot)
      if left = 0 then pure (w + 1)
      else
        ofExcept (access (ω slot) (.scan (.next slot)) .seekFailed)
        compactLoop ω left (slot + 1) (w + 1)
    else
      ofExcept (access (ω slot) (.scan (.skip slot)) .seekFailed)
      compactLoop ω left (slot + 1) (w + 1)

def compact (ω : ℕ → Faults) : Db Unit := do
  let file ← get
  ofExcept (failIf (file.length < recordsStartOffset) .fileTooShort)
  ofExcept (access (ω 0) (.scan .start) .seekFailed)
  let w ← compactLoop recordSize ω (slotCount recordSize file) 0 0
  truncate (ω (slotCount recordSize file)) .grow (slotOffset recordSize w)

end Failing

inductive Operation where
  | insert (record : List Byte)
  | compact

def Operation.perform (ω : ℕ → Faults) : Operation → Db Unit
  | .insert record => insertSerialized recordSize (ω 0) record
  | .compact => Failing.compact recordSize ω

/-- What opening the file and going over its live records shows. -/
def recordsSeen (modelVersion : Byte) (file : File) : Except DatabaseResult (List (List Byte)) := do
  openDatabase noFaults modelVersion file
  foreachLive recordSize noFaults file
    (fun slot seen => .ok (seen ++ [slotPayload recordSize file slot])) []

end

/-- The one access that fails: the slot it belongs to, its place, and how much it has written. -/
structure FaultPoint where
  visit : ℕ
  access : Access
  written : ℕ
  deriving DecidableEq

def FaultPoint.faults (p : FaultPoint) (visit : ℕ) : Faults := fun a =>
  if visit = p.visit ∧ a = p.access then some p.written else none

theorem FaultPoint.eq_of_faults {p : FaultPoint} {visit : ℕ} {a : Access}
    (h : p.faults visit a ≠ none) : p.visit = visit ∧ p.access = a := by
  unfold faults at h
  split_ifs at h with hpoint
  · exact ⟨hpoint.1.symm, hpoint.2.symm⟩
  · exact absurd rfl h

theorem FaultPoint.written_of_faults {p : FaultPoint} {visit k : ℕ} {a : Access}
    (h : p.faults visit a = some k) : p.visit = visit ∧ p.access = a ∧ p.written = k := by
  have hfault : p.faults visit a ≠ none := by
    rw [h]
    exact Option.some_ne_none k
  obtain ⟨hvisit, haccess⟩ := eq_of_faults hfault
  refine ⟨hvisit, haccess, ?_⟩
  rw [faults, if_pos ⟨hvisit.symm, haccess.symm⟩] at h
  exact Option.some.inj h

theorem FaultPoint.of_access_error {p : FaultPoint} {visit : ℕ} {a : Access}
    {e e' : DatabaseResult} (h : Storage.access (p.faults visit) a e = .error e') :
    p.visit = visit ∧ p.access = a := by
  apply eq_of_faults
  unfold Storage.access at h
  split_ifs at h with hnone
  exact hnone

variable {n : ℕ} {modelVersion : Byte} {file file' : File}

/-! ### Records lost and found -/

/-- The records that can be read are the same, in some order. -/
def KeepsRecords (n : ℕ) (modelVersion : Byte) (file file' : File) : Prop :=
  ∃ seen seen', recordsSeen n modelVersion file = .ok seen ∧
    recordsSeen n modelVersion file' = .ok seen' ∧ seen'.Perm seen

theorem foldlM_payloads (file : File) (slots : List ℕ) (seen : List (List Byte)) :
    slots.foldlM (fun (seen : List (List Byte)) slot =>
      (.ok (seen ++ [slotPayload n file slot]) : Except DatabaseResult _)) seen =
      .ok (seen ++ slots.map (slotPayload n file)) := by
  induction slots generalizing seen with
  | nil => simp [pure, Except.pure]
  | cons slot slots ih =>
      rw [List.foldlM_cons]
      change slots.foldlM _ (seen ++ [slotPayload n file slot]) = _
      rw [ih, List.map_cons, List.append_assoc, List.singleton_append]

theorem scanClean_noFaults : ScanClean n noFaults file := by
  refine ⟨rfl, fun slot _ => ⟨rfl, ?_⟩⟩
  split_ifs
  · rfl
  · exact fun _ => rfl

theorem recordsSeen_ok_iff {seen : List (List Byte)} :
    recordsSeen n modelVersion file = .ok seen ↔
      Opens modelVersion file ∧ liveRecords n file = seen := by
  have hclean : HeaderClean noFaults := ⟨rfl, rfl, rfl, rfl⟩
  unfold recordsSeen
  rw [except_bind_eq_ok]
  constructor
  · rintro ⟨_, hopen, hscan⟩
    obtain ⟨hopens, -⟩ := openDatabase_ok_iff.1 hopen
    rw [foreachLive_clean _ hopens.1 scanClean_noFaults, foldlM_payloads] at hscan
    exact ⟨hopens, Except.ok.inj hscan⟩
  · rintro ⟨hopens, rfl⟩
    refine ⟨(), openDatabase_ok_iff.2 ⟨hopens, hclean⟩, ?_⟩
    rw [foreachLive_clean _ hopens.1 scanClean_noFaults, foldlM_payloads]
    rfl

theorem keepsRecords_iff (hopens : Opens modelVersion file) :
    KeepsRecords n modelVersion file file' ↔
      Opens modelVersion file' ∧ (liveRecords n file').Perm (liveRecords n file) := by
  unfold KeepsRecords
  constructor
  · rintro ⟨seen, seen', hseen, hseen', hperm⟩
    obtain ⟨-, rfl⟩ := recordsSeen_ok_iff.1 hseen
    obtain ⟨hopens', rfl⟩ := recordsSeen_ok_iff.1 hseen'
    exact ⟨hopens', hperm⟩
  · rintro ⟨hopens', hperm⟩
    exact ⟨_, _, recordsSeen_ok_iff.2 ⟨hopens, rfl⟩, recordsSeen_ok_iff.2 ⟨hopens', rfl⟩, hperm⟩

/-- Live slots stay live, and another slot has come alive. -/
def Grew (n : ℕ) (file file' : File) : Prop :=
  (∀ i, IsLive n file i → IsLive n file' i) ∧ ∃ i, IsLive n file' i ∧ ¬IsLive n file i

theorem nodup_liveSlots (n : ℕ) (file : File) : (liveSlots n file).Nodup :=
  List.nodup_range.filter _

theorem Grew.not_perm (h : Grew n file file') :
    ¬(liveRecords n file').Perm (liveRecords n file) := by
  intro hperm
  obtain ⟨hkept, i, hlive, hdead⟩ := h
  have hlength := hperm.length_eq
  rw [liveRecords, liveRecords, List.length_map, List.length_map] at hlength
  have hsub : (liveSlots n file).Subperm (liveSlots n file') := by
    apply (nodup_liveSlots n file).subperm
    intro j hj
    exact mem_liveSlots.2 (hkept j (mem_liveSlots.1 hj))
  have hslots := hsub.perm_of_length_le hlength.le
  exact hdead (mem_liveSlots.1 (hslots.mem_iff.2 (mem_liveSlots.2 hlive)))

theorem filter_live_range {m : ℕ} (hm : slotCount n file ≤ m) :
    (List.range m).filter (IsLive n file ·) = liveSlots n file := by
  obtain ⟨d, rfl⟩ := Nat.exists_eq_add_of_le hm
  rw [liveSlots, List.range_add, List.filter_append]
  have hnone : ((List.range d).map (slotCount n file + ·)).filter (IsLive n file ·) = [] := by
    rw [List.filter_eq_nil_iff]
    intro i hi hlive
    obtain ⟨j, -, rfl⟩ := List.mem_map.1 hi
    have := (of_decide_eq_true hlive).1
    omega
  rw [hnone, List.append_nil]

theorem liveRecords_congr (hlive : ∀ i, IsLive n file' i ↔ IsLive n file i)
    (hpayload : ∀ i, IsLive n file i → slotPayload n file' i = slotPayload n file i) :
    liveRecords n file' = liveRecords n file := by
  have hslots : liveSlots n file' = liveSlots n file := by
    rw [← filter_live_range (Nat.le_max_left (slotCount n file') (slotCount n file)),
      ← filter_live_range (Nat.le_max_right (slotCount n file') (slotCount n file))]
    apply List.filter_congr
    intro i _
    exact decide_eq_decide.2 (hlive i)
  rw [liveRecords, liveRecords, hslots]
  apply List.map_congr_left
  intro i hi
  exact hpayload i (mem_liveSlots.1 hi)

theorem opens_of_header (hopens : Opens modelVersion file)
    (hlen : recordsStartOffset ≤ file'.length)
    (hheader : ∀ i, i < recordsStartOffset → file'[i]? = file[i]?) : Opens modelVersion file' := by
  refine ⟨hlen, ?_, ?_⟩
  · rw [readByte_congr (hheader 0 (by decide))]
    exact hopens.2.1
  · rw [readByte_congr (hheader 1 (by decide))]
    exact hopens.2.2

/-! ### A slot in the making -/

/-- The bytes behind the last slot begin with the flag of a deleted one. -/
def TrailDeleted (n : ℕ) (file : File) : Prop :=
  isRecordSlotDeleted (slotFlags n file (slotCount n file)) = true

theorem isLive_of_sameSlot {i : ℕ} (hcount : slotCount n file' = slotCount n file)
    (h : SameSlot n file file' i) : IsLive n file' i ↔ IsLive n file i := by
  rw [IsLive, IsLive, hcount, h.1]

theorem writeSlot_nil (file : File) (offset : ℕ) :
    writeSlot file offset 0 [] = writeAt file offset [0] := writeAt_nil _ _

theorem slotCount_of_length_eq (h : file'.length = file.length) :
    slotCount n file' = slotCount n file := by
  rw [slotCount, slotCount, h]

/-- The fault is between the flag of a slot and its record. -/
def FaultPoint.SplitsSlot (p : FaultPoint) : Prop :=
  p.access = .payloadSeek ∨ p.access = .payloadWrite

/-- A slot is written, or left as it was, or made live without its record. -/
theorem writeLiveRecordSlot_ends {p : FaultPoint} {visit offset : ℕ} {record : List Byte}
    {r : Except DatabaseResult Unit}
    (h : Ends (writeLiveRecordSlot (p.faults visit) offset record) file r file') :
    (r = .ok () ∧ file' = writeSlot file offset 0 record) ∨
    (∃ e, r = .error e ∧ p.visit = visit ∧
      (((p.access = .slotSeek ∨ p.access = .slotWrite) ∧ file' = file) ∨
      (p.SplitsSlot ∧ ∃ k ≤ record.length, file' = writeSlot file offset 0 (record.take k)))) := by
  rcases h.bind with ⟨_, mid, hflag, h⟩ | ⟨e, hflag, rfl⟩
  · rcases ends_writeSlotFlagsAt hflag with ⟨-, -, rfl⟩ | ⟨hr, -⟩
    · rcases h.ofExcept_bind with ⟨_, -, h⟩ | ⟨e, herr, rfl, rfl⟩
      · rcases ends_write h with ⟨-, hr, hfile⟩ | ⟨k, hk, hr, hfile⟩
        · exact Or.inl ⟨hr, hfile⟩
        · obtain ⟨hvisit, haccess, -⟩ := FaultPoint.written_of_faults hk
          exact Or.inr ⟨_, hr, hvisit, Or.inr ⟨Or.inr haccess, _, by omega, hfile⟩⟩
      · obtain ⟨hvisit, haccess⟩ := FaultPoint.of_access_error herr
        refine Or.inr ⟨e, rfl, hvisit, Or.inr ⟨Or.inl haccess, 0, Nat.zero_le _, ?_⟩⟩
        rw [List.take_zero, writeSlot_nil]
    · exact absurd rfl hr
  · rcases hflag.ofExcept_bind with ⟨_, -, h⟩ | ⟨e', herr, -, rfl⟩
    · rcases ends_write h with ⟨-, hr, -⟩ | ⟨k, hk, -, hfile⟩
      · cases hr
      · obtain ⟨hvisit, haccess, -⟩ := FaultPoint.written_of_faults hk
        refine Or.inr ⟨e, rfl, hvisit, Or.inl ⟨Or.inr haccess, ?_⟩⟩
        rw [hfile, List.length_singleton, Nat.sub_self, Nat.min_zero, List.take_zero, writeAt_nil]
    · obtain ⟨hvisit, haccess⟩ := FaultPoint.of_access_error herr
      exact Or.inr ⟨e, rfl, hvisit, Or.inl ⟨Or.inl haccess, rfl⟩⟩

/-- A dead slot of the file comes alive when its flag is written. -/
theorem grew_writeSlot {slot : ℕ} {bs : List Byte} (hslot : slot < slotCount n file)
    (hdead : ¬IsLive n file slot) (hbs : bs.length ≤ n) :
    Grew n file (writeSlot file (slotOffset n slot) 0 bs) := by
  have hwithin := slot_within hslot
  have hcount : slotCount n (writeSlot file (slotOffset n slot) 0 bs) = slotCount n file :=
    slotCount_of_length_eq (length_writeSlot (by omega) 0)
  refine ⟨fun i hi => ?_, slot, ⟨by rwa [hcount], ?_⟩, hdead⟩
  · have hne : i ≠ slot := fun h => hdead (h ▸ hi)
    exact (isLive_of_sameSlot hcount (sameSlot_writeSlot_of_ne (by omega) hbs hne)).2 hi
  · rw [slotFlags_writeSlot (by omega)]
    rfl

/-! ### Inserting -/

/-- The file with room for another slot, of which nothing has been written but zeros, and then
bytes in that room. -/
structure Extended (n : ℕ) (file file' : File) : Prop where
  long : file.length ≤ file'.length
  flag : slotFlags n file' (slotCount n file) = slotFlags n file (slotCount n file)
  same : ∀ i, i < slotCount n file → SameSlot n file file' i
  header : ∀ i, i < recordsStartOffset → file'[i]? = file[i]?
  count : slotCount n file' ≤ slotCount n file + 1

theorem slotCount_append_zeros (hlong : recordsStartOffset ≤ file.length) {z : ℕ}
    (hz : z ≤ recordSlotSize n) :
    slotCount n (file ++ List.replicate z 0) =
      if recordSlotSize n ≤ (file.length - recordsStartOffset) % recordSlotSize n + z then
        slotCount n file + 1 else slotCount n file := by
  have hpos : 0 < recordSlotSize n := by
    unfold recordSlotSize
    omega
  obtain ⟨m, hm⟩ : ∃ m, m = file.length - recordsStartOffset := ⟨_, rfl⟩
  have hlength : (file ++ List.replicate z 0).length - recordsStartOffset = m + z := by
    rw [List.length_append, List.length_replicate]
    omega
  have hmod := Nat.mod_lt m hpos
  have hsplit := Nat.div_add_mod m (recordSlotSize n)
  rw [slotCount, slotCount, hlength, ← hm]
  split_ifs with hfull
  · apply Nat.div_eq_of_lt_le
    · rw [Nat.add_mul, Nat.one_mul, Nat.mul_comm]
      omega
    · rw [Nat.add_mul, Nat.add_mul, Nat.one_mul, Nat.mul_comm]
      omega
  · apply Nat.div_eq_of_lt_le
    · rw [Nat.mul_comm]
      omega
    · rw [Nat.add_mul, Nat.one_mul, Nat.mul_comm]
      omega

theorem readByte_append_zeros (file : File) (z i : ℕ) :
    readByte (file ++ List.replicate z 0) i = readByte file i := by
  rw [readByte, readByte, List.getD_eq_getElem?_getD, List.getD_eq_getElem?_getD]
  by_cases hi : i < file.length
  · rw [List.getElem?_append_left hi]
  · rw [List.getElem?_append_right (by omega), List.getElem?_replicate,
      List.getElem?_eq_none (by omega)]
    split_ifs <;> rfl

theorem extended_append_zeros (hlong : recordsStartOffset ≤ file.length) {z : ℕ}
    (hz : z ≤ recordSlotSize n) : Extended n file (file ++ List.replicate z 0) := by
  refine ⟨by simp, readByte_append_zeros _ _ _, fun i hi => ?_, fun i hi => ?_, ?_⟩
  · have hwithin := slot_within hi
    apply sameSlot_of_getElem?
    intro j _ hj
    exact List.getElem?_append_left (by omega)
  · exact List.getElem?_append_left (by omega)
  · rw [slotCount_append_zeros hlong hz]
    split_ifs <;> omega

/-- Writing in the new room changes no flag: it starts at the flag of the new slot, which is
zero already, or behind it. -/
theorem extended_writeSlot (hlong : recordsStartOffset ≤ file.length) {bs : List Byte}
    (hbs : bs.length ≤ n) :
    Extended n file
      (writeSlot (file ++ List.replicate (recordSlotSize n) 0) file.length 0 bs) := by
  obtain ⟨mid, hmid⟩ : ∃ mid, mid = file ++ List.replicate (recordSlotSize n) 0 := ⟨_, rfl⟩
  have hroom : file.length + 1 + bs.length ≤ mid.length := by
    rw [hmid, List.length_append, List.length_replicate, recordSlotSize]
    omega
  have hstart := slotOffset_slotCount_le (n := n) hlong
  obtain ⟨hle, hflag, hsame, hheader, hcount⟩ := extended_append_zeros hlong (le_refl (recordSlotSize n))
  rw [← hmid] at hle hflag hsame hheader hcount ⊢
  have hlength := length_writeSlot hroom 0
  refine ⟨by omega, ?_, fun i hi => ?_, fun i hi => ?_, ?_⟩
  · rcases Nat.eq_or_lt_of_le hstart with heq | hlt
    · rw [← heq] at hroom ⊢
      rw [slotFlags_writeSlot hroom, slotFlags, readByte, heq]
      simp
    · rw [← hflag, slotFlags, slotFlags]
      exact readByte_congr (getElem?_writeSlot hroom 0 (Or.inl hlt))
  · have hwithin := slot_within hi
    obtain ⟨hf, hp⟩ := hsame i hi
    obtain ⟨hf', hp'⟩ : SameSlot n mid (writeSlot mid file.length 0 bs) i :=
      sameSlot_of_getElem? fun j _ hj => getElem?_writeSlot hroom 0 (by omega)
    exact ⟨hf'.trans hf, hp'.trans hp⟩
  · rw [getElem?_writeSlot hroom 0 (by omega)]
    exact hheader i hi
  · rw [slotCount_of_length_eq hlength]
    exact hcount

/-- The new slot shows unless it takes up the flag of a deleted one. -/
theorem Extended.keepsRecords_iff (h : Extended n file file') (hopens : Opens modelVersion file) :
    KeepsRecords n modelVersion file file' ↔
      TrailDeleted n file ∨ slotCount n file' ≤ slotCount n file := by
  have hlong := hopens.1
  have hopens' := opens_of_header hopens (hlong.trans h.long) h.header
  rw [Storage.keepsRecords_iff hopens]
  have hge : slotCount n file ≤ slotCount n file' :=
    Nat.div_le_div_right (Nat.sub_le_sub_right h.long _)
  have hold : ∀ i, i < slotCount n file → (IsLive n file' i ↔ IsLive n file i) := by
    intro i hi
    rw [IsLive, IsLive, (h.same i hi).1]
    exact ⟨fun hlive => ⟨hi, hlive.2⟩, fun hlive => ⟨by omega, hlive.2⟩⟩
  constructor
  · rintro ⟨-, hperm⟩
    by_contra hno
    push Not at hno
    obtain ⟨htrail, hcount⟩ := hno
    apply Grew.not_perm _ hperm
    refine ⟨fun i hi => (hold i hi.1).2 hi, slotCount n file, ⟨hcount, ?_⟩,
      fun hlive => absurd hlive.1 (Nat.lt_irrefl _)⟩
    rw [h.flag]
    exact Bool.eq_false_iff.2 htrail
  · intro hsafe
    refine ⟨hopens', ?_⟩
    rw [liveRecords_congr (fun i => (?_ : _ ↔ IsLive n file i)) (fun i hi => (h.same i hi.1).2)]
    by_cases hi : i < slotCount n file
    · exact hold i hi
    · constructor
      · intro hlive
        exfalso
        have hlt := hlive.1
        have hle := h.count
        obtain rfl : i = slotCount n file := by omega
        rcases hsafe with htrail | hcount
        · have hflag := hlive.2
          rw [h.flag, htrail] at hflag
          cases hflag
        · omega
      · intro hlive
        exact absurd hlive.1 hi

theorem searchLoop_error {ω : Faults} {e : DatabaseResult} {slot left : ℕ}
    (h : searchLoop n ω file left slot = .error e) : ∃ a e', access ω (.search a) e' = .error e := by
  induction left generalizing slot with
  | zero => cases h
  | succ left ih =>
      rcases except_bind_eq_error.1 h with h | ⟨_, -, h⟩
      · exact ⟨_, _, h⟩
      by_cases hdel : isRecordSlotDeleted (slotFlags n file slot) = true
      · rw [if_pos hdel] at h
        cases h
      · rw [if_neg hdel] at h
        rcases except_bind_eq_error.1 h with h | ⟨_, -, h⟩
        · exact ⟨_, _, h⟩
        · exact ih h

theorem search_error {ω : Faults} {e : DatabaseResult} (h : search n ω file = .error e) :
    ∃ a e', access ω (.search a) e' = .error e := by
  by_cases hshort : file.length < recordsStartOffset
  · rw [search, if_pos hshort] at h
    cases h
  · rw [search, if_neg hshort] at h
    rcases except_bind_eq_error.1 h with h | ⟨_, -, h⟩
    · exact ⟨_, _, h⟩
    · exact searchLoop_error h

/-- The faults at which an insertion ends without a trace, or in room that does not show. -/
def SafeInsertion (n : ℕ) (file : File) (p : FaultPoint) : Prop :=
  match p.access with
  | .payloadSeek | .payloadWrite => ¬HasDeleted n file ∧ TrailDeleted n file
  | .slotSeek | .slotWrite => HasDeleted n file ∨ TrailDeleted n file
  | .grow .seekBack => TrailDeleted n file
  | .grow .growWrite => TrailDeleted n file ∨
      (file.length - recordsStartOffset) % recordSlotSize n +
        min p.written (recordSlotSize n - 1) < recordSlotSize n
  | _ => True

theorem keepsRecords_refl (hopens : Opens modelVersion file) :
    KeepsRecords n modelVersion file file :=
  (keepsRecords_iff hopens).2 ⟨hopens, List.Perm.refl _⟩

theorem reuse_error {p : FaultPoint} {record : List Byte} {slot : ℕ} {e : DatabaseResult}
    (hopens : Opens modelVersion file) (hlen : record.length = n) (hslot : slot < slotCount n file)
    (hdel : isRecordSlotDeleted (slotFlags n file slot) = true)
    (h : Ends (writeLiveRecordSlot (p.faults 0) (slotOffset n slot) record) file (.error e) file') :
    KeepsRecords n modelVersion file file' ↔ SafeInsertion n file p := by
  have hdeleted : HasDeleted n file := ⟨slot, hslot, hdel⟩
  rcases writeLiveRecordSlot_ends h with ⟨hr, -⟩ | ⟨_, -, -, hcase⟩
  · cases hr
  rcases hcase with ⟨haccess, rfl⟩ | ⟨haccess, k, hk, rfl⟩
  · refine iff_of_true (keepsRecords_refl hopens) ?_
    rcases haccess with haccess | haccess
    · rw [SafeInsertion, haccess]
      exact Or.inl hdeleted
    · rw [SafeInsertion, haccess]
      exact Or.inl hdeleted
  · refine iff_of_false ?_ ?_
    · rw [keepsRecords_iff hopens]
      rintro ⟨-, hperm⟩
      have hdead : ¬IsLive n file slot := by
        intro hlive
        rw [hlive.2] at hdel
        cases hdel
      have hshort : (record.take k).length ≤ n := by
        rw [List.length_take]
        omega
      exact (grew_writeSlot hslot hdead hshort).not_perm hperm
    · rcases haccess with haccess | haccess
      · rw [SafeInsertion, haccess]
        exact fun hsafe => hsafe.1 hdeleted
      · rw [SafeInsertion, haccess]
        exact fun hsafe => hsafe.1 hdeleted

theorem append_error {p : FaultPoint} {record : List Byte} {e : DatabaseResult}
    (hopens : Opens modelVersion file) (hlen : record.length = n) (hnone : ¬HasDeleted n file)
    (h : Ends (appendRecordSlot n (p.faults 0) file.length record) file (.error e) file') :
    KeepsRecords n modelVersion file file' ↔ SafeInsertion n file p := by
  have hlong := hopens.1
  have hpos : 0 < recordSlotSize n := by
    unfold recordSlotSize
    omega
  have hfull : slotCount n (file ++ List.replicate (recordSlotSize n) 0) = slotCount n file + 1 := by
    rw [slotCount_append_zeros hlong le_rfl, if_pos (by omega)]
  rcases h.bind with ⟨_, mid, hgrow, h⟩ | ⟨e', hgrow, -⟩
  · have hmid : mid = file ++ List.replicate (recordSlotSize n) 0 := by
      rcases ends_truncate (Nat.le_add_right _ _) hgrow with ⟨-, -, hmid⟩ | ⟨hr, -⟩
      · rw [hmid, grown, Nat.add_sub_cancel_left]
      · cases hr
    rcases writeLiveRecordSlot_ends h with ⟨hr, -⟩ | ⟨_, -, -, hcase⟩
    · cases hr
    rcases hcase with ⟨haccess, rfl⟩ | ⟨haccess, k, hk, rfl⟩
    · subst hmid
      rw [(extended_append_zeros hlong le_rfl).keepsRecords_iff hopens, hfull]
      rcases haccess with haccess | haccess
      · rw [SafeInsertion, haccess]
        simp [hnone]
      · rw [SafeInsertion, haccess]
        simp [hnone]
    · subst hmid
      have hshort : (record.take k).length ≤ n := by
        rw [List.length_take]
        omega
      have hroom : file.length + 1 + (record.take k).length ≤
          (file ++ List.replicate (recordSlotSize n) (0 : Byte)).length := by
        rw [List.length_append, List.length_replicate, recordSlotSize]
        omega
      rw [(extended_writeSlot hlong hshort).keepsRecords_iff hopens,
        slotCount_of_length_eq (length_writeSlot hroom 0), hfull]
      rcases haccess with haccess | haccess
      · rw [SafeInsertion, haccess]
        simp [hnone]
      · rw [SafeInsertion, haccess]
        simp [hnone]
  · have hne : ¬file.length = file.length + recordSlotSize n := by omega
    have hnlt : ¬file.length + recordSlotSize n < file.length := by omega
    have hzeros : file.length + recordSlotSize n - file.length = recordSlotSize n :=
      Nat.add_sub_cancel_left ..
    unfold Ends truncate at hgrow
    rw [if_neg hne, if_neg hnlt, hzeros] at hgrow
    dsimp only at hgrow
    by_cases hseek : p.faults 0 (.grow .growSeek) = none
    · simp only [hseek, decide_true, if_true] at hgrow
      cases hwrite : p.faults 0 (.grow .growWrite) with
      | none =>
          rw [hwrite] at hgrow
          obtain ⟨hr, rfl⟩ := Prod.mk.inj hgrow
          have hback : p.faults 0 (.grow .seekBack) ≠ none := by
            intro hback
            rw [hback] at hr
            cases hr
          rw [(extended_append_zeros hlong le_rfl).keepsRecords_iff hopens, hfull, SafeInsertion,
            (FaultPoint.eq_of_faults hback).2]
          simp
      | some k =>
          rw [hwrite] at hgrow
          obtain ⟨-, rfl⟩ := Prod.mk.inj hgrow
          obtain ⟨-, haccess, hwritten⟩ := FaultPoint.written_of_faults hwrite
          have hz : min k (recordSlotSize n - 1) ≤ recordSlotSize n := by omega
          rw [(extended_append_zeros hlong hz).keepsRecords_iff hopens,
            slotCount_append_zeros hlong hz, SafeInsertion, haccess, hwritten]
          apply or_congr_right
          split_ifs with hroom
          · exact iff_of_false (by omega) (by omega)
          · exact iff_of_true le_rfl (by omega)
    · simp only [hseek, decide_false] at hgrow
      obtain ⟨-, rfl⟩ := Prod.mk.inj hgrow
      rw [SafeInsertion, (FaultPoint.eq_of_faults hseek).2]
      exact iff_of_true (keepsRecords_refl hopens) trivial

theorem insert_error {p : FaultPoint} {record : List Byte} {e : DatabaseResult}
    (hopens : Opens modelVersion file) (hlen : record.length = n)
    (h : Ends (insertSerialized n (p.faults 0) record) file (.error e) file') :
    KeepsRecords n modelVersion file file' ↔ SafeInsertion n file p := by
  rcases h.get_bind.ofExcept_bind with ⟨found, hsearch, h⟩ | ⟨e', hsearch, -, rfl⟩
  · obtain ⟨hfirst, -⟩ := search_ok hopens.1 hsearch
    cases found with
    | some slot => exact reuse_error hopens hlen hfirst.1 hfirst.2.1 h
    | none =>
        have hnone : ¬HasDeleted n file := by
          rintro ⟨slot, hslot, hdel⟩
          rw [hfirst slot hslot] at hdel
          cases hdel
        simp only [Nat.max_eq_left hopens.1] at h
        exact append_error hopens hlen hnone h
  · obtain ⟨a, e'', haccess⟩ := search_error hsearch
    rw [SafeInsertion, (FaultPoint.of_access_error haccess).2]
    exact iff_of_true (keepsRecords_refl hopens) trivial

end Lightnet.Storage
