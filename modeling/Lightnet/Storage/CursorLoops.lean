import Lightnet.Storage.CursorDatabase

/-!
# The loops over the slots keep the position

When a loop starts at a slot with the storage positioned there, it is positioned at every slot that
it comes to. What it does is then a matter of the slots alone.
-/

namespace Lightnet.Storage

variable {n : ℕ}

theorem slotOffset_add (slot : ℕ) :
    slotOffset n slot + recordSlotSize n = slotOffset n (slot + 1) := by
  rw [slotOffset_succ, recordSlotSize, Nat.add_assoc]

theorem slotOffset_lt {i j : ℕ} (h : i < j) : slotOffset n i < slotOffset n j := by
  have hle : slotOffset n (i + 1) ≤ slotOffset n j := slotOffset_le h
  rw [slotOffset_succ] at hle
  omega

theorem slotOffset_le_iff {i j : ℕ} : slotOffset n i ≤ slotOffset n j ↔ i ≤ j := by
  constructor
  · intro h
    by_contra hlt
    exact absurd h (Nat.not_le_of_lt (slotOffset_lt (Nat.lt_of_not_le hlt)))
  · exact slotOffset_le

theorem Aligned.recordsStart_le {bytes : File} (h : Aligned n bytes) :
    recordsStartOffset ≤ bytes.length := by
  rw [h]
  exact Nat.le_add_right _ _

/-! ### Accesses -/

theorem bind_ok {ς ε α β : Type} {m : ExceptT ε (StateM ς) α} {f : α → ExceptT ε (StateM ς) β}
    {s s' : ς} {a : α} (h : m s = (.ok a, s')) : (m >>= f) s = f a s' := by
  rw [exceptT_bind_apply, h]

theorem bind_error {ς ε α β : Type} {m : ExceptT ε (StateM ς) α} {f : α → ExceptT ε (StateM ς) β}
    {s s' : ς} {e : ε} (h : m s = (.error e, s')) : (m >>= f) s = (.error e, s') := by
  rw [exceptT_bind_apply, h]

namespace Cursor

variable {bytes : File} {position offset delta length : ℕ} {e : DatabaseResult}

theorem seek_apply (h : offset ≤ bytes.length) :
    seek offset e ⟨bytes, position⟩ = (.ok (), ⟨bytes, offset⟩) := by
  rw [seek, if_neg (by simpa using h)]

theorem seekForward_apply (h : position + delta ≤ bytes.length) :
    seekForward delta e ⟨bytes, position⟩ = (.ok (), ⟨bytes, position + delta⟩) := by
  rw [seekForward, if_neg (by simpa using h)]

theorem length_readAt (h : position + length ≤ bytes.length) :
    (readAt bytes position length).length = length := by
  rw [readAt, List.length_take, List.length_drop]
  omega

theorem read_apply (h : position + length ≤ bytes.length) :
    read length e ⟨bytes, position⟩ =
      (.ok (readAt bytes position length), ⟨bytes, position + length⟩) := by
  simp only [read, length_readAt h, if_true]

theorem failIf_apply {p : Prop} [Decidable p] (h : ¬p) (s : RandomAccess) :
    failIf p e s = (.ok (), s) := by
  rw [failIf, failIf_ok_iff.2 h]

end Cursor

namespace CursorDatabase

variable {bytes : File} {position slot : ℕ}

theorem readFlags_apply (h : slot < slotCount n bytes) :
    readFlags ⟨bytes, slotOffset n slot⟩ =
      (.ok (slotFlags n bytes slot), ⟨bytes, slotOffset n slot + 1⟩) := by
  have hle := slot_within h
  rw [readFlags, bind_ok (Cursor.read_apply (by omega))]
  have hbyte : readByte (readAt bytes (slotOffset n slot) 1) 0 = slotFlags n bytes slot := by
    rw [readByte, List.getD_eq_getElem?_getD, getElem?_readAt, if_pos Nat.one_pos, Nat.add_zero,
      slotFlags, readByte, List.getD_eq_getElem?_getD]
  rw [hbyte]
  rfl

theorem seekForward_slot (h : slot < slotCount n bytes) :
    Cursor.seekForward (recordSlotSize n - 1) .seekFailed ⟨bytes, slotOffset n slot + 1⟩ =
      (.ok (), ⟨bytes, slotOffset n (slot + 1)⟩) := by
  have hle := slot_within h
  have hnext : slotOffset n slot + 1 + (recordSlotSize n - 1) = slotOffset n (slot + 1) := by
    rw [slotOffset_succ, recordSlotSize]
    omega
  rw [Cursor.seekForward_apply, hnext]
  rw [hnext, slotOffset_succ]
  exact hle

theorem in_file_iff :
    slotOffset n slot + recordSlotSize n ≤ bytes.length ↔ slot < slotCount n bytes := by
  rw [lt_slotCount_iff, recordSlotSize, Nat.add_assoc]

theorem last_slot_iff :
    bytes.length < slotOffset n (slot + 1) + recordSlotSize n ↔
      slotCount n bytes ≤ slot + 1 := by
  rw [← not_iff_not, Nat.not_lt, in_file_iff, Nat.not_le]

theorem seek_slot (h : slot ≤ slotCount n bytes) (hlong : recordsStartOffset ≤ bytes.length)
    {e : DatabaseResult} :
    Cursor.seek (slotOffset n slot) e ⟨bytes, position⟩ = (.ok (), ⟨bytes, slotOffset n slot⟩) :=
  Cursor.seek_apply (Nat.le_trans (slotOffset_le h) (slotOffset_slotCount_le hlong))

/-! ### Iterating -/

section

variable {σ : Type} (callback : Callback σ)

/-- The callback gets the storage positioned at the record of the slot. -/
def visit (n : ℕ) (bytes : File) (s : σ) (slot : ℕ) : Except DatabaseResult σ :=
  match (callback (.ofOffset (slotOffset n slot)) (recordPayloadOffset (slotOffset n slot))
    ⟨bytes, recordPayloadOffset (slotOffset n slot)⟩ s).1 with
  | some s => .ok s
  | none => .error .foreachAborted

theorem runCallback_apply (s : σ) : ∃ p, runCallback callback (slotOffset n slot) s
    ⟨bytes, slotOffset n slot + 1⟩ = (visit callback n bytes s slot, ⟨bytes, p⟩) := by
  unfold runCallback visit recordPayloadOffset
  dsimp only
  cases (callback (.ofOffset (slotOffset n slot)) (slotOffset n slot + 1)
    ⟨bytes, slotOffset n slot + 1⟩ s).1 with
  | some s' => exact ⟨_, rfl⟩
  | none => exact ⟨_, rfl⟩

theorem foreachFrom_apply (hlong : recordsStartOffset ≤ bytes.length) {slot left : ℕ}
    (h : slot + left = slotCount n bytes) (s : σ) :
    ∃ p, foreachFrom n callback bytes.length (slotOffset n slot) s ⟨bytes, slotOffset n slot⟩ =
      ((liveFrom n bytes slot left).foldlM (visit callback n bytes) s, ⟨bytes, p⟩) := by
  induction left generalizing slot s with
  | zero =>
      rw [foreachFrom, if_neg]
      · exact ⟨_, rfl⟩
      · rw [in_file_iff]
        omega
  | succ left ih =>
      have hslot : slot < slotCount n bytes := by omega
      have hrest : ∀ s, ∃ p, foreachFrom n callback bytes.length (slotOffset n (slot + 1)) s
          ⟨bytes, slotOffset n (slot + 1)⟩ =
          ((liveFrom n bytes (slot + 1) left).foldlM (visit callback n bytes) s, ⟨bytes, p⟩) :=
        ih (by omega)
      rw [foreachFrom, if_pos (in_file_iff.2 hslot),
        bind_ok (readFlags_apply hslot), liveFrom_succ hslot]
      cases hdel : isRecordSlotDeleted (slotFlags n bytes slot) with
      | true =>
          rw [if_pos rfl, if_pos rfl, bind_ok (seekForward_slot hslot), slotOffset_add]
          exact hrest s
      | false =>
          simp only [Bool.false_eq_true, if_false, List.foldlM_cons]
          obtain ⟨p, hvisit⟩ : ∃ p, runCallback callback (slotOffset n slot) s
              ⟨bytes, slotOffset n slot + 1⟩ = (visit callback n bytes s slot, ⟨bytes, p⟩) :=
            runCallback_apply callback s
          cases hs : visit callback n bytes s slot with
          | error e =>
              rw [hs] at hvisit
              exact ⟨p, bind_error hvisit⟩
          | ok s' =>
              rw [hs] at hvisit
              rw [bind_ok hvisit, slotOffset_add]
              by_cases hlast : slotCount n bytes ≤ slot + 1
              · obtain rfl : left = 0 := by omega
                rw [if_pos (last_slot_iff.2 hlast)]
                exact ⟨p, rfl⟩
              · rw [if_neg (by rwa [last_slot_iff]), bind_ok (seek_slot hslot hlong)]
                exact hrest s'

theorem foreachLive_apply (hlong : recordsStartOffset ≤ bytes.length) (s : σ) :
    ∃ p, foreachLive n callback s ⟨bytes, position⟩ =
      ((liveSlots n bytes).foldlM (visit callback n bytes) s, ⟨bytes, p⟩) := by
  have hzero : recordsStartOffset = slotOffset n 0 := by simp [slotOffset]
  rw [foreachLive, bind_ok (rfl : Cursor.size _ = _),
    bind_ok (Cursor.failIf_apply (Nat.not_lt_of_le hlong) _), bind_ok (Cursor.seek_apply hlong),
    hzero, ← liveFrom_zero]
  exact foreachFrom_apply callback hlong (Nat.zero_add _) s

end

theorem nextLiveLoop_apply (haligned : Aligned n bytes) {slot left : ℕ}
    (h : slot + left = slotCount n bytes) :
    ∃ p, nextLiveLoop n bytes.length (slotOffset n slot) ⟨bytes, slotOffset n slot⟩ =
      (.ok (match (liveFrom n bytes slot left).head? with
        | some i => (some (.ofOffset (slotOffset n i)), slotOffset n (i + 1))
        | none => (none, bytes.length)), ⟨bytes, p⟩) := by
  induction left generalizing slot with
  | zero =>
      rw [nextLiveLoop, if_neg]
      · rw [haligned, ← h]
        exact ⟨_, rfl⟩
      · rw [in_file_iff]
        omega
  | succ left ih =>
      have hslot : slot < slotCount n bytes := by omega
      rw [nextLiveLoop, if_pos (in_file_iff.2 hslot),
        bind_ok (readFlags_apply hslot), liveFrom_succ hslot]
      cases hdel : isRecordSlotDeleted (slotFlags n bytes slot) with
      | true =>
          rw [if_pos rfl, if_pos rfl, bind_ok (seekForward_slot hslot), slotOffset_add]
          exact ih (by omega)
      | false =>
          rw [slotOffset_add]
          exact ⟨_, rfl⟩

theorem nextLiveFrom_apply (haligned : Aligned n bytes) (h : slot ≤ slotCount n bytes) :
    ∃ p, nextLiveFrom n (slotOffset n slot) ⟨bytes, position⟩ =
      (.ok (match (liveFrom n bytes slot (slotCount n bytes - slot)).head? with
        | some i => (some (.ofOffset (slotOffset n i)), slotOffset n (i + 1))
        | none => (none, bytes.length)), ⟨bytes, p⟩) := by
  have hmax : max (slotOffset n slot) recordsStartOffset = slotOffset n slot :=
    Nat.max_eq_left (Nat.le_add_right _ _)
  rw [nextLiveFrom, bind_ok (rfl : Cursor.size _ = _),
    bind_ok (Cursor.failIf_apply (Nat.not_lt_of_le haligned.recordsStart_le) _), hmax,
    bind_ok (seek_slot h haligned.recordsStart_le)]
  exact nextLiveLoop_apply haligned (by omega)

/-! ### The search for a deleted slot -/

theorem searchLoop_apply {slot left : ℕ}
    (h : slot + left = slotCount n bytes)
    (hbefore : ∀ i, i < slot → isRecordSlotDeleted (slotFlags n bytes i) = false) :
    ∃ p found, FirstDeleted n bytes found ∧
      searchLoop n bytes.length (slotOffset n slot) ⟨bytes, slotOffset n slot⟩ =
        (.ok (found.map (slotOffset n)), ⟨bytes, p⟩) := by
  induction left generalizing slot with
  | zero =>
      rw [searchLoop, if_neg]
      · exact ⟨_, none, fun i hi => hbefore i (by omega), rfl⟩
      · rw [in_file_iff]
        omega
  | succ left ih =>
      have hslot : slot < slotCount n bytes := by omega
      rw [searchLoop, if_pos (in_file_iff.2 hslot),
        bind_ok (readFlags_apply hslot)]
      cases hdel : isRecordSlotDeleted (slotFlags n bytes slot) with
      | true => exact ⟨_, some slot, ⟨hslot, hdel, hbefore⟩, rfl⟩
      | false =>
          simp only [Bool.false_eq_true, if_false]
          rw [bind_ok (seekForward_slot hslot), slotOffset_add]
          apply ih (by omega)
          intro i hi
          rcases Nat.eq_or_lt_of_le (Nat.le_of_lt_succ hi) with rfl | hlt
          · exact hdel
          · exact hbefore i hlt

theorem search_apply (hlong : recordsStartOffset ≤ bytes.length) :
    ∃ p found, FirstDeleted n bytes found ∧
      search n ⟨bytes, position⟩ = (.ok (found.map (slotOffset n)), ⟨bytes, p⟩) := by
  have hzero : recordsStartOffset = slotOffset n 0 := by simp [slotOffset]
  rw [search, bind_ok (rfl : Cursor.size _ = _), if_pos hlong, bind_ok (Cursor.seek_apply hlong),
    hzero]
  exact searchLoop_apply (Nat.zero_add _) fun i hi => absurd hi (Nat.not_lt_zero i)

end CursorDatabase

end Lightnet.Storage
