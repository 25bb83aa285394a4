import Lightnet.Storage.Scans

/-!
# Writes to a database file

Each operation either does all of its work or leaves the file as it was, unless a fault strikes
between two of its writes. The conditions below name the faults that do.
-/

namespace Lightnet.Storage

section

variable {ς ε α β : Type}

theorem exceptT_bind_apply (m : ExceptT ε (StateM ς) α) (f : α → ExceptT ε (StateM ς) β)
    (file : ς) : (m >>= f) file = match m file with
      | (.ok a, file') => f a file'
      | (.error e, file') => (.error e, file') := by
  change ExceptT.bindCont f (m file).1 (m file).2 = _
  rcases m file with ⟨_ | _, _⟩
  · rfl
  · rfl

/-- The computation ends with the result and the file. -/
def Ends (m : ExceptT ε (StateM ς) α) (file : ς) (r : Except ε α) (file' : ς) : Prop :=
  m file = (r, file')

namespace Ends

theorem bind {m : ExceptT ε (StateM ς) α} {f : α → ExceptT ε (StateM ς) β}
    {file file' : ς} {r : Except ε β} (h : Ends (m >>= f) file r file') :
    (∃ a mid, Ends m file (.ok a) mid ∧ Ends (f a) mid r file') ∨
      ∃ e, Ends m file (.error e) file' ∧ r = .error e := by
  unfold Ends at h
  rw [exceptT_bind_apply] at h
  rcases hm : m file with ⟨e | a, mid⟩
  · rw [hm] at h
    cases h
    exact Or.inr ⟨e, hm, rfl⟩
  · rw [hm] at h
    exact Or.inl ⟨a, mid, hm, h⟩

theorem get_bind {f : File → ExceptT ε (StateM File) β} {file file' : File} {r : Except ε β}
    (h : Ends (get >>= f) file r file') : Ends (f file) file r file' := by
  unfold Ends at h
  rwa [exceptT_bind_apply] at h

theorem ofExcept_bind {x : Except DatabaseResult α} {f : α → Db β} {file file' : File}
    {r : Except DatabaseResult β} (h : Ends (ofExcept x >>= f) file r file') :
    (∃ a, x = .ok a ∧ Ends (f a) file r file') ∨
      ∃ e, x = .error e ∧ r = .error e ∧ file' = file := by
  rcases h.bind with ⟨a, mid, hx, hf⟩ | ⟨e, hx, rfl⟩
  · cases hx
    exact Or.inl ⟨a, rfl, hf⟩
  · cases hx
    exact Or.inr ⟨e, rfl, rfl, rfl⟩

end Ends

end

variable {n : ℕ} {ω : Faults} {file file' : File}

/-! ### Single accesses -/

theorem writeAt_nil (file : File) (offset : ℕ) : writeAt file offset [] = file := by
  rw [writeAt, List.append_nil, List.length_nil, Nat.add_zero, List.take_append_drop]

theorem ends_write {a : Access} {e : DatabaseResult} {offset : ℕ} {bs : List Byte}
    {r : Except DatabaseResult Unit} (h : Ends (write ω a e offset bs) file r file') :
    (ω a = none ∧ r = .ok () ∧ file' = writeAt file offset bs) ∨
      ∃ k, ω a = some k ∧ r = .error e ∧
        file' = writeAt file offset (bs.take (min k (bs.length - 1))) := by
  unfold Ends write at h
  cases hω : ω a with
  | none =>
      rw [hω] at h
      cases h
      exact Or.inl ⟨rfl, rfl, rfl⟩
  | some k =>
      rw [hω] at h
      cases h
      exact Or.inr ⟨k, rfl, rfl, rfl⟩

def GrowClean (ω : Faults) (at_ : TruncateAccess → Access) (newSize : ℕ) (file : File) : Prop :=
  (file.length < newSize → ω (at_ .growSeek) = none ∧ ω (at_ .growWrite) = none) ∧
    ω (at_ .seekBack) = none

def grown (file : File) (newSize : ℕ) : File :=
  file ++ List.replicate (newSize - file.length) 0

theorem length_grown {newSize : ℕ} (h : file.length ≤ newSize) :
    (grown file newSize).length = newSize := by
  rw [grown, List.length_append, List.length_replicate]
  omega

theorem ends_truncate {at_ : TruncateAccess → Access} {newSize : ℕ}
    {r : Except DatabaseResult Unit} (hle : file.length ≤ newSize)
    (h : Ends (truncate ω at_ newSize) file r file') :
    (r = .ok () ∧ GrowClean ω at_ newSize file ∧ file' = grown file newSize) ∨
      (r = .error .truncateFailed ∧ ¬GrowClean ω at_ newSize file ∧ file'.length ≤ newSize ∧
        (file.length < newSize →
          ω (at_ .growSeek) ≠ none ∨ ω (at_ .growWrite) = some 0 → file' = file)) := by
  unfold Ends truncate at h
  rcases Nat.eq_or_lt_of_le hle with heq | hlt
  · rw [if_pos heq] at h
    dsimp only at h
    have hsame : grown file newSize = file := by simp [grown, heq]
    by_cases hback : ω (at_ .seekBack) = none
    · rw [decide_eq_true hback] at h
      cases h
      exact Or.inl ⟨rfl, ⟨fun hlt => by omega, hback⟩, hsame.symm⟩
    · rw [decide_eq_false hback] at h
      cases h
      exact Or.inr ⟨rfl, fun hclean => hback hclean.2, hle, fun hlt => by omega⟩
  · rw [if_neg (by omega), if_neg (by omega)] at h
    dsimp only at h
    by_cases hseek : ω (at_ .growSeek) = none
    · simp only [hseek, decide_true, if_true] at h
      cases hgrow : ω (at_ .growWrite) with
      | none =>
          rw [hgrow] at h
          by_cases hback : ω (at_ .seekBack) = none
          · simp only [hback, decide_true, if_true] at h
            cases h
            exact Or.inl ⟨rfl, ⟨fun _ => ⟨hseek, hgrow⟩, hback⟩, rfl⟩
          · simp only [hback, decide_false] at h
            cases h
            refine Or.inr ⟨rfl, fun hclean => hback hclean.2, ?_, ?_⟩
            · exact (length_grown hle).le
            · rintro - (hno | hno)
              · exact absurd hseek hno
              · cases hno
      | some k =>
          rw [hgrow] at h
          cases h
          refine Or.inr ⟨rfl, fun hclean => ?_, ?_, ?_⟩
          · have hnone := (hclean.1 hlt).2
            rw [hgrow] at hnone
            cases hnone
          · rw [List.length_append, List.length_replicate]
            omega
          · rintro - (hno | hno)
            · exact absurd hseek hno
            · cases hno
              simp
    · simp only [hseek, decide_false] at h
      cases h
      exact Or.inr ⟨rfl, fun hclean => hseek (hclean.1 hlt).1, hle, fun _ _ => rfl⟩

theorem ends_writeRecordPayloadAt {offset : ℕ} {record : List Byte}
    {r : Except DatabaseResult Unit} (h : Ends (writeRecordPayloadAt ω offset record) file r file')
    (hspared : ω .payloadSeek = none → ∀ k, ω .payloadWrite = some k → k = 0) :
    (r = .ok () ∧ file' = writeAt file (recordPayloadOffset offset) record) ∨
      (r ≠ .ok () ∧ file' = file) := by
  rcases h.ofExcept_bind with ⟨_, hseek, h⟩ | ⟨e, -, rfl, rfl⟩
  · rw [access_ok_iff] at hseek
    rcases ends_write h with ⟨-, hr, hfile⟩ | ⟨k, hk, rfl, hfile⟩
    · exact Or.inl ⟨hr, hfile⟩
    · obtain rfl := hspared hseek k hk
      refine Or.inr ⟨nofun, ?_⟩
      rw [hfile, Nat.zero_min, List.take_zero, writeAt_nil]
  · exact Or.inr ⟨nofun, rfl⟩

/-- One byte is written, or none. -/
theorem ends_writeSlotFlagsAt {offset : ℕ} {flags : Byte} {r : Except DatabaseResult Unit}
    (h : Ends (writeSlotFlagsAt ω offset flags) file r file') :
    (r = .ok () ∧ (ω .slotSeek = none ∧ ω .slotWrite = none) ∧
      file' = writeAt file offset [flags]) ∨ (r ≠ .ok () ∧ file' = file) := by
  rcases h.ofExcept_bind with ⟨_, hseek, h⟩ | ⟨e, -, rfl, rfl⟩
  · rw [access_ok_iff] at hseek
    rcases ends_write h with ⟨hwrite, hr, hfile⟩ | ⟨k, -, rfl, hfile⟩
    · exact Or.inl ⟨hr, ⟨hseek, hwrite⟩, hfile⟩
    · refine Or.inr ⟨nofun, ?_⟩
      rw [hfile, List.length_singleton, Nat.sub_self, Nat.min_zero, List.take_zero, writeAt_nil]
  · exact Or.inr ⟨nofun, rfl⟩

/-! ### Inserting -/

/-- No fault falls between the flag of a slot and its record. -/
def ReuseSpared (ω : Faults) : Prop :=
  ω .slotSeek = none → ω .slotWrite = none → ω .payloadSeek = none ∧ ω .payloadWrite = none

/-- No fault falls between the growth of the file and the record. -/
def AppendSpared (ω : Faults) : Prop :=
  ω (.grow .growSeek) = none → ω (.grow .growWrite) ≠ some 0 →
    ω (.grow .growWrite) = none ∧ ω (.grow .seekBack) = none ∧ ω .slotSeek = none ∧
      ω .slotWrite = none ∧ ω .payloadSeek = none ∧ ω .payloadWrite = none

def HasDeleted (n : ℕ) (file : File) : Prop :=
  ∃ slot, slot < slotCount n file ∧ isRecordSlotDeleted (slotFlags n file slot) = true

def InsertSpared (n : ℕ) (ω : Faults) (file : File) : Prop :=
  SearchClean n ω file →
    (HasDeleted n file → ReuseSpared ω) ∧ (¬HasDeleted n file → AppendSpared ω)

theorem ends_writeLiveRecordSlot {offset : ℕ} {record : List Byte}
    {r : Except DatabaseResult Unit} (h : Ends (writeLiveRecordSlot ω offset record) file r file')
    (hspared : ReuseSpared ω) :
    (r = .ok () ∧ file' = writeSlot file offset 0 record) ∨ (r ≠ .ok () ∧ file' = file) := by
  rcases h.bind with ⟨_, mid, hflag, h⟩ | ⟨e, hflag, rfl⟩
  · rcases ends_writeSlotFlagsAt hflag with ⟨-, ⟨hseek, hwrite⟩, rfl⟩ | ⟨hr, -⟩
    · obtain ⟨hpseek, hpwrite⟩ := hspared hseek hwrite
      rcases h.ofExcept_bind with ⟨_, -, h⟩ | ⟨e, herr, -, -⟩
      · rcases ends_write h with ⟨-, hr, hfile⟩ | ⟨k, hk, -, -⟩
        · exact Or.inl ⟨hr, hfile⟩
        · rw [hpwrite] at hk
          cases hk
      · rw [access, if_pos hpseek] at herr
        cases herr
    · exact absurd rfl hr
  · rcases ends_writeSlotFlagsAt hflag with ⟨hr, -, -⟩ | ⟨-, hfile⟩
    · cases hr
    · exact Or.inr ⟨nofun, hfile⟩

theorem ends_writeLiveRecordSlot_clean {offset : ℕ} {record : List Byte}
    {r : Except DatabaseResult Unit} (h : Ends (writeLiveRecordSlot ω offset record) file r file')
    (hslotSeek : ω .slotSeek = none) (hslotWrite : ω .slotWrite = none)
    (hpayloadSeek : ω .payloadSeek = none) (hpayloadWrite : ω .payloadWrite = none) :
    r = .ok () := by
  simp only [Ends, writeLiveRecordSlot, writeSlotFlagsAt, writeRecordPayloadAt, exceptT_bind_apply,
    ofExcept, access, write, hslotSeek, hslotWrite, hpayloadSeek, hpayloadWrite, if_true] at h
  exact (Prod.ext_iff.1 h).1.symm

theorem ends_appendRecordSlot {record : List Byte} {r : Except DatabaseResult Unit}
    (h : Ends (appendRecordSlot n ω file.length record) file r file') (hspared : AppendSpared ω) :
    (r = .ok () ∧
      file' = writeSlot (file ++ List.replicate (recordSlotSize n) 0) file.length 0 record) ∨
      (r ≠ .ok () ∧ file' = file) := by
  have hgrown : grown file (file.length + recordSlotSize n) =
      file ++ List.replicate (recordSlotSize n) 0 := by rw [grown, Nat.add_sub_cancel_left]
  have hlt : file.length < file.length + recordSlotSize n := by
    unfold recordSlotSize
    omega
  rcases h.bind with ⟨_, mid, htrunc, h⟩ | ⟨e, htrunc, rfl⟩
  · rcases ends_truncate hlt.le htrunc with ⟨-, hclean, rfl⟩ | ⟨hr, -⟩
    · obtain ⟨hseek, hwrite⟩ := hclean.1 hlt
      obtain ⟨-, -, hslotSeek, hslotWrite, hpseek, hpwrite⟩ := hspared hseek (by rw [hwrite]; nofun)
      rw [hgrown] at h
      rcases ends_writeLiveRecordSlot h (fun _ _ => ⟨hpseek, hpwrite⟩) with hdone | ⟨hr, -⟩
      · exact Or.inl hdone
      · exact absurd (ends_writeLiveRecordSlot_clean h hslotSeek hslotWrite hpseek hpwrite) hr
    · cases hr
  · rcases ends_truncate hlt.le htrunc with ⟨hr, -⟩ | ⟨-, hdirty, -, hsame⟩
    · cases hr
    · refine Or.inr ⟨nofun, hsame hlt ?_⟩
      by_contra hno
      push Not at hno
      obtain ⟨hwrite, hback, -⟩ := hspared hno.1 hno.2
      exact hdirty ⟨fun _ => ⟨hno.1, hwrite⟩, hback⟩

/-- The slot of an inserted record was not live before. -/
theorem ends_insertSerialized {record : List Byte} {r : Except DatabaseResult Unit}
    (haligned : Aligned n file) (hlen : record.length = n)
    (h : Ends (insertSerialized n ω record) file r file') (hspared : InsertSpared n ω file) :
    (r = .ok () ∧ ∃ slot, ¬IsLive n file slot ∧ Became n file file' slot (some record)) ∨
      (r ≠ .ok () ∧ file' = file) := by
  have hlong : recordsStartOffset ≤ file.length := by
    rw [haligned]
    exact Nat.le_add_right _ _
  rcases h.get_bind.ofExcept_bind with ⟨found, hsearch, h⟩ | ⟨e, -, rfl, rfl⟩
  · obtain ⟨hfirst, hclean⟩ := search_ok hlong hsearch
    obtain ⟨hreuse, happend⟩ := hspared hclean
    cases found with
    | some slot =>
        obtain ⟨hslot, hdel, -⟩ := hfirst
        rcases ends_writeLiveRecordSlot h (hreuse ⟨slot, hslot, hdel⟩) with ⟨hr, rfl⟩ | hfail
        · refine Or.inl ⟨hr, slot, fun hlive => ?_, became_reused haligned hslot hlen⟩
          rw [hlive.2] at hdel
          cases hdel
        · exact Or.inr hfail
    | none =>
        have hnone : ¬HasDeleted n file := by
          rintro ⟨slot, hslot, hdel⟩
          rw [hfirst slot hslot] at hdel
          cases hdel
        simp only [Nat.max_eq_left hlong] at h
        rcases ends_appendRecordSlot h (happend hnone) with ⟨hr, rfl⟩ | hfail
        · exact Or.inl ⟨hr, slotCount n file, fun hlive => absurd hlive.1 (Nat.lt_irrefl _),
            became_appended haligned hlen⟩
        · exact Or.inr hfail
  · exact Or.inr ⟨nofun, rfl⟩

/-! ### Replacing and removing -/

theorem liveFlags_ok {slot : ℕ} {flags : Byte} (h : liveFlags n ω file slot = .ok flags) :
    (ω .flagSeek = none ∧ ω .flagRead = none) ∧ flags = slotFlags n file slot ∧
      isRecordSlotDeleted flags = false := by
  obtain ⟨_, hread, h⟩ := except_bind_eq_ok.1 h
  obtain ⟨_, hseek, hread⟩ := except_bind_eq_ok.1 hread
  obtain ⟨_, hflag, hread⟩ := except_bind_eq_ok.1 hread
  cases hread
  obtain ⟨_, hlive, h⟩ := except_bind_eq_ok.1 h
  cases h
  exact ⟨⟨access_ok_iff.1 hseek, access_ok_iff.1 hflag⟩, rfl, by simpa using failIf_ok_iff.1 hlive⟩

/-- No fault falls within the record. -/
def ReplaceSpared (ω : Faults) : Prop :=
  ω .flagSeek = none → ω .flagRead = none → ω .payloadSeek = none →
    ∀ k, ω .payloadWrite = some k → k = 0

theorem ends_replaceSerialized {slot : ℕ} {record : List Byte} {r : Except DatabaseResult Unit}
    (haligned : Aligned n file) (hslot : slot < slotCount n file) (hlen : record.length = n)
    (h : Ends (replaceSerialized n ω slot record) file r file') (hspared : ReplaceSpared ω) :
    (r = .ok () ∧ Became n file file' slot (some record)) ∨ (r ≠ .ok () ∧ file' = file) := by
  rcases h.get_bind.ofExcept_bind with ⟨flags, hflags, h⟩ | ⟨e, -, rfl, rfl⟩
  · obtain ⟨⟨hseek, hread⟩, rfl, hdel⟩ := liveFlags_ok hflags
    rcases ends_writeRecordPayloadAt h (hspared hseek hread) with ⟨hr, rfl⟩ | hfail
    · exact Or.inl ⟨hr, became_replaced haligned ⟨hslot, hdel⟩ hlen⟩
    · exact Or.inr hfail
  · exact Or.inr ⟨nofun, rfl⟩

theorem ends_remove {slot : ℕ} {r : Except DatabaseResult Unit} (haligned : Aligned n file)
    (hslot : slot < slotCount n file) (h : Ends (remove n ω slot) file r file') :
    (r = .ok () ∧ Became n file file' slot none) ∨ (r ≠ .ok () ∧ file' = file) := by
  rcases h.get_bind.ofExcept_bind with ⟨flags, -, h⟩ | ⟨e, -, rfl, rfl⟩
  · rcases ends_writeSlotFlagsAt h with ⟨hr, -, rfl⟩ | hfail
    · exact Or.inl ⟨hr, became_removed haligned hslot flags⟩
    · exact Or.inr hfail
  · exact Or.inr ⟨nofun, rfl⟩

theorem read_ok {slot : ℕ} {record : List Byte} (h : read n ω file slot = .ok record) :
    isRecordSlotDeleted (slotFlags n file slot) = false ∧ record = slotPayload n file slot := by
  obtain ⟨flags, hflags, h⟩ := except_bind_eq_ok.1 h
  obtain ⟨-, rfl, hdel⟩ := liveFlags_ok hflags
  obtain ⟨_, -, h⟩ := except_bind_eq_ok.1 h
  obtain ⟨_, -, h⟩ := except_bind_eq_ok.1 h
  cases h
  exact ⟨hdel, rfl⟩

/-! ### Opening -/

section

variable {modelVersion : Byte}

def Opens (modelVersion : Byte) (file : File) : Prop :=
  recordsStartOffset ≤ file.length ∧ readByte file 0 = dbVersion ∧ readByte file 1 = modelVersion

instance : Decidable (Opens modelVersion file) := inferInstanceAs (Decidable (_ ∧ _ ∧ _))

def HeaderClean (ω : Faults) : Prop :=
  ω .versionSeek = none ∧ ω .versionRead = none ∧ ω .headerSeek = none ∧ ω .headerRead = none

def CreateClean (ω : Faults) (file : File) : Prop :=
  GrowClean ω .recreate recordsStartOffset file ∧ ω .newVersionSeek = none ∧
    ω .newVersionWrite = none ∧ ω .newHeaderSeek = none ∧ ω .newHeaderWrite = none

/-- The file of a database can be read at its start. -/
def OpenSpared (ω : Faults) (modelVersion : Byte) (file : File) : Prop :=
  ω .openFile = none → Opens modelVersion file → HeaderClean ω

/-- Opening the file meets no fault. -/
def SessionClean (ω : Faults) (modelVersion : Byte) (file : File) : Prop :=
  ω .openFile = none ∧ if Opens modelVersion file then HeaderClean ω else CreateClean ω file

/-- A file without a database has no room for a record. -/
def Sane (n : ℕ) (modelVersion : Byte) (file : File) : Prop :=
  if Opens modelVersion file then Aligned n file else file.length ≤ recordsStartOffset

theorem slotCount_of_length_le (h : file.length ≤ recordsStartOffset) : slotCount n file = 0 := by
  rw [slotCount, Nat.sub_eq_zero_of_le h, Nat.zero_div]

theorem sane_of_length_le (h : file.length ≤ recordsStartOffset) : Sane n modelVersion file := by
  unfold Sane
  split_ifs with hopens
  · apply (aligned_of_length (m := 0) _).1
    rw [slotOffset, Nat.zero_mul, Nat.add_zero]
    exact Nat.le_antisymm h hopens.1
  · exact h

theorem Sane.aligned (h : Sane n modelVersion file) (hopens : Opens modelVersion file) :
    Aligned n file := by
  rwa [Sane, if_pos hopens] at h

theorem openDatabase_ok_iff :
    openDatabase ω modelVersion file = .ok () ↔ Opens modelVersion file ∧ HeaderClean ω := by
  constructor
  · intro h
    obtain ⟨_, hlen, h⟩ := except_bind_eq_ok.1 h
    obtain ⟨_, hvseek, h⟩ := except_bind_eq_ok.1 h
    obtain ⟨_, hvread, h⟩ := except_bind_eq_ok.1 h
    obtain ⟨_, hversion, h⟩ := except_bind_eq_ok.1 h
    obtain ⟨_, hhseek, h⟩ := except_bind_eq_ok.1 h
    obtain ⟨_, hhread, h⟩ := except_bind_eq_ok.1 h
    rw [failIf_ok_iff] at hlen hversion h
    rw [access_ok_iff] at hvseek hvread hhseek hhread
    exact ⟨⟨Nat.le_of_not_lt hlen, not_not.1 hversion, not_not.1 h⟩, hvseek, hvread, hhseek, hhread⟩
  · rintro ⟨⟨hlen, hversion, hmodel⟩, hvseek, hvread, hhseek, hhread⟩
    rw [openDatabase, failIf_ok_iff.2 (Nat.not_lt_of_le hlen), access_ok_iff.2 hvseek,
      access_ok_iff.2 hvread, failIf_ok_iff.2 (not_not.2 hversion), access_ok_iff.2 hhseek,
      access_ok_iff.2 hhread, failIf_ok_iff.2 (not_not.2 hmodel)]
    rfl

theorem except_bind_eq_error {ε α β : Type} {x : Except ε α} {f : α → Except ε β} {e : ε} :
    x >>= f = .error e ↔ x = .error e ∨ ∃ a, x = .ok a ∧ f a = .error e := by
  cases x with
  | error e' => simp [bind, Except.bind]
  | ok a => simp [bind, Except.bind]

theorem access_error {a : Access} {e e' : DatabaseResult} (h : access ω a e = .error e') :
    e' = e := by
  unfold access at h
  split_ifs at h
  cases h
  rfl

theorem failIf_error {p : Prop} [Decidable p] {e e' : DatabaseResult}
    (h : failIf p e = .error e') : e' = e := by
  unfold failIf at h
  split_ifs at h
  cases h
  rfl

/-- A failed read counts as a missing or corrupt database. -/
theorem openDatabase_error {e : DatabaseResult} (h : openDatabase ω modelVersion file = .error e) :
    missingOrCorrupt e = true := by
  rcases except_bind_eq_error.1 h with h | ⟨_, -, h⟩
  · rw [failIf_error h]
    rfl
  rcases except_bind_eq_error.1 h with h | ⟨_, -, h⟩
  · rw [access_error h]
    rfl
  rcases except_bind_eq_error.1 h with h | ⟨_, -, h⟩
  · rw [access_error h]
    rfl
  rcases except_bind_eq_error.1 h with h | ⟨_, -, h⟩
  · rw [failIf_error h]
    rfl
  rcases except_bind_eq_error.1 h with h | ⟨_, -, h⟩
  · rw [access_error h]
    rfl
  rcases except_bind_eq_error.1 h with h | ⟨_, -, h⟩
  · rw [access_error h]
    rfl
  rw [failIf_error h]
  rfl

theorem length_of_ends_write {a : Access} {e : DatabaseResult} {offset : ℕ} {bs : List Byte}
    {r : Except DatabaseResult Unit} (hfit : offset + bs.length ≤ file.length)
    (h : Ends (write ω a e offset bs) file r file') : file'.length = file.length := by
  rcases ends_write h with ⟨-, -, rfl⟩ | ⟨k, -, -, rfl⟩
  · exact length_writeAt hfit
  · apply length_writeAt
    rw [List.length_take]
    omega

theorem opens_written {file : File} (h : file.length = recordsStartOffset) :
    Opens modelVersion (writeAt (writeAt file 0 [dbVersion]) 1 [modelVersion, 0, 0]) := by
  have hversion : 0 + [dbVersion].length ≤ file.length := by
    rw [h]
    decide
  have hheader : 1 + [modelVersion, (0 : Byte), 0].length ≤
      (writeAt file 0 [dbVersion]).length := by
    rw [length_writeAt hversion, h]
    exact le_rfl
  refine ⟨?_, ?_, ?_⟩
  · rw [length_writeAt hheader, length_writeAt hversion, h]
  · rw [readByte, List.getD_eq_getElem?_getD, getElem?_writeAt hheader, if_neg (by omega),
      getElem?_writeAt hversion, if_pos (by simp)]
    rfl
  · rw [readByte, List.getD_eq_getElem?_getD, getElem?_writeAt hheader, if_pos (by simp)]
    rfl

theorem ends_create {r : Except DatabaseResult Unit} (hle : file.length ≤ recordsStartOffset)
    (h : Ends (create ω modelVersion) file r file') :
    file'.length ≤ recordsStartOffset ∧
      (r = .ok () → Opens modelVersion file' ∧ CreateClean ω file) := by
  rcases h.bind with ⟨_, sized, htrunc, h⟩ | ⟨e, htrunc, rfl⟩
  swap
  · rcases ends_truncate hle htrunc with ⟨hr, -⟩ | ⟨-, -, hlen, -⟩
    · cases hr
    · exact ⟨hlen, nofun⟩
  rcases ends_truncate hle htrunc with ⟨-, hclean, rfl⟩ | ⟨hr, -⟩
  swap
  · cases hr
  have hsized := length_grown hle
  have hversion : 0 + [dbVersion].length ≤ (grown file recordsStartOffset).length := by
    rw [hsized]
    decide
  rcases h.ofExcept_bind with ⟨_, hvseek, h⟩ | ⟨e, -, rfl, rfl⟩
  swap
  · exact ⟨hsized.le, nofun⟩
  rcases h.bind with ⟨_, versioned, hwrite, h⟩ | ⟨e, hwrite, rfl⟩
  swap
  · rw [length_of_ends_write hversion hwrite]
    exact ⟨hsized.le, nofun⟩
  have hversioned := length_of_ends_write hversion hwrite
  have hheader : 1 + [modelVersion, (0 : Byte), 0].length ≤ versioned.length := by
    rw [hversioned, hsized]
    exact le_rfl
  rcases h.ofExcept_bind with ⟨_, hhseek, h⟩ | ⟨e, -, rfl, rfl⟩
  swap
  · exact ⟨(hversioned.trans hsized).le, nofun⟩
  refine ⟨((length_of_ends_write hheader h).trans (hversioned.trans hsized)).le, ?_⟩
  rintro rfl
  rcases ends_write hwrite with ⟨hvwrite, -, rfl⟩ | ⟨k, -, hr, -⟩
  · rcases ends_write h with ⟨hhwrite, -, rfl⟩ | ⟨k, -, hr, -⟩
    · exact ⟨opens_written hsized, hclean, access_ok_iff.1 hvseek, hvwrite,
        access_ok_iff.1 hhseek, hhwrite⟩
    · cases hr
  · cases hr

/-- The slots are the same, or there are none. -/
def SameSlots (n : ℕ) (file file' : File) : Prop :=
  file' = file ∨ slotCount n file = 0 ∧ slotCount n file' = 0

/-- Opening keeps the records, if the start of the file can be read. -/
theorem ends_ensureOpen {r : Except DatabaseResult Unit} (hsane : Sane n modelVersion file)
    (hspared : OpenSpared ω modelVersion file)
    (h : Ends (ensureOpen ω modelVersion) file r file') :
    Sane n modelVersion file' ∧ SameSlots n file file' ∧
      (r = .ok () → Opens modelVersion file' ∧ SessionClean ω modelVersion file) := by
  rcases h.ofExcept_bind with ⟨_, hopen, h⟩ | ⟨e, -, rfl, rfl⟩
  swap
  · exact ⟨hsane, Or.inl rfl, nofun⟩
  rw [access_ok_iff] at hopen
  have hopened := h.get_bind
  by_cases hopens : Opens modelVersion file
  · have hclean := hspared hopen hopens
    rw [openDatabase_ok_iff.2 ⟨hopens, hclean⟩] at hopened
    cases hopened
    exact ⟨hsane, Or.inl rfl, fun _ => ⟨hopens, hopen, by rwa [if_pos hopens]⟩⟩
  · have hle : file.length ≤ recordsStartOffset := by rwa [Sane, if_neg hopens] at hsane
    cases hresult : openDatabase ω modelVersion file with
    | ok _ => exact absurd (openDatabase_ok_iff.1 hresult).1 hopens
    | error e =>
        rw [hresult] at hopened
        dsimp only at hopened
        rw [if_pos (openDatabase_error hresult)] at hopened
        obtain ⟨hlen, hok⟩ := ends_create hle hopened
        refine ⟨sane_of_length_le hlen, Or.inr ⟨slotCount_of_length_le hle,
          slotCount_of_length_le hlen⟩, fun hr => ?_⟩
        obtain ⟨hopens', hcreate⟩ := hok hr
        exact ⟨hopens', hopen, by rwa [if_neg hopens]⟩

theorem not_isLive_of_slotCount (h : slotCount n file = 0) (slot : ℕ) : ¬IsLive n file slot := by
  intro hlive
  exact absurd (h ▸ hlive.1) (Nat.not_lt_zero slot)

namespace SameSlots

theorem stores_iff (h : SameSlots n file file') (slot : ℕ) (record : List Byte) :
    Stores n file' slot record ↔ Stores n file slot record := by
  rcases h with rfl | ⟨hfile, hfile'⟩
  · exact Iff.rfl
  · exact iff_of_false (fun hs => not_isLive_of_slotCount hfile' slot hs.1)
      (fun hs => not_isLive_of_slotCount hfile slot hs.1)

theorem everyRecordRead (h : SameSlots n file file') (hread : EveryRecordRead n ω file) :
    EveryRecordRead n ω file' := by
  rcases h with rfl | ⟨-, hfile'⟩
  · exact hread
  · exact fun _ slot hlive => absurd hlive (not_isLive_of_slotCount hfile' slot)

theorem insertSpared (h : SameSlots n file file') (hspared : InsertSpared n ω file) :
    InsertSpared n ω file' := by
  rcases h with rfl | ⟨hfile, hfile'⟩
  · exact hspared
  · intro hclean
    have hclean₀ : SearchClean n ω file := ⟨hclean.1, fun slot hslot => by omega⟩
    have hnone : ∀ {f : File}, slotCount n f = 0 → ¬HasDeleted n f := by
      rintro f hf ⟨slot, hslot, -⟩
      omega
    exact ⟨fun hdel => absurd hdel (hnone hfile'), fun _ => (hspared hclean₀).2 (hnone hfile)⟩

end SameSlots

theorem Became.opens {slot : ℕ} {content : Option (List Byte)} (h : Became n file file' slot content)
    (hopens : Opens modelVersion file) : Opens modelVersion file' := by
  obtain ⟨-, hversion, hmodel⟩ := hopens
  refine ⟨?_, ?_, ?_⟩
  · rw [h.aligned]
    exact Nat.le_add_right _ _
  · rwa [readByte_congr (h.header 0 (by decide))]
  · rwa [readByte_congr (h.header 1 (by decide))]

theorem Became.sane {slot : ℕ} {content : Option (List Byte)} (h : Became n file file' slot content)
    (hopens : Opens modelVersion file) : Sane n modelVersion file' := by
  rw [Sane, if_pos (h.opens hopens)]
  exact h.aligned

end

end Lightnet.Storage
