import Lightnet.Storage.Writes

/-!
# The database on a storage with a position

The storage has a position, which every read and every write moves on. The loops of the database
keep an offset of their own next to it, and the two have to agree.
-/

namespace Lightnet.Storage

structure RandomAccess where
  bytes : File
  position : ℕ

/-- Sizes and offsets are 32 bits wide. -/
def sizeLimit : ℕ := 2 ^ 32

abbrev Cursor := ExceptT DatabaseResult (StateM RandomAccess)

namespace Cursor

def size : Cursor ℕ := fun s => (.ok s.bytes.length, s)

def seek (offset : ℕ) (e : DatabaseResult) : Cursor Unit := fun s =>
  if s.bytes.length < offset then (.error e, s) else (.ok (), { s with position := offset })

def seekForward (delta : ℕ) (e : DatabaseResult) : Cursor Unit := fun s =>
  if s.bytes.length < s.position + delta then (.error e, s)
  else (.ok (), { s with position := s.position + delta })

/-- A read at the end of the file gets fewer bytes. -/
def read (length : ℕ) (e : DatabaseResult) : Cursor (List Byte) := fun s =>
  let got := readAt s.bytes s.position length
  let s' := { s with position := s.position + got.length }
  if got.length = length then (.ok got, s') else (.error e, s')

def write (bs : List Byte) : Cursor Unit := fun s =>
  (.ok (), ⟨writeAt s.bytes s.position bs, s.position + bs.length⟩)

def truncate (newSize : ℕ) (e : DatabaseResult) : Cursor Unit := fun s =>
  if sizeLimit ≤ newSize then (.error e, s)
  else (.ok (), ⟨s.bytes.take newSize ++ List.replicate (newSize - s.bytes.length) 0,
    min s.position newSize⟩)

def failIf (p : Prop) [Decidable p] (e : DatabaseResult) : Cursor Unit := fun s =>
  (Storage.failIf p e, s)

end Cursor

structure RecordRef where
  offset : ℕ
  deriving DecidableEq

def RecordRef.ofOffset (offset : ℕ) : RecordRef := ⟨offset % 2 ^ 32⟩

namespace CursorDatabase

/-- What is done with a live record: it may read the storage, and leave it at any position. -/
abbrev Callback (σ : Type) := RecordRef → ℕ → RandomAccess → σ → Option σ × ℕ

section

variable (recordSize : ℕ)

theorem recordSlotSize_pos : 0 < recordSlotSize recordSize := by
  unfold recordSlotSize
  omega

/-! ### Slots -/

def readFlags : Cursor Byte := do
  let got ← Cursor.read 1 .readFailed
  pure (readByte got 0)

def readSlotFlagsAt (offset : ℕ) : Cursor Byte := do
  Cursor.seek offset .seekFailed
  readFlags

def writeSlotFlagsAt (offset : ℕ) (flags : Byte) : Cursor Unit := do
  Cursor.seek offset .seekFailed
  Cursor.write [flags]

def readRecordPayloadAt (offset : ℕ) : Cursor (List Byte) := do
  Cursor.seek (recordPayloadOffset offset) .seekFailed
  Cursor.read recordSize .readFailed

def writeRecordPayloadAt (offset : ℕ) (record : List Byte) : Cursor Unit := do
  Cursor.seek (recordPayloadOffset offset) .seekFailed
  Cursor.write record

def writeLiveRecordSlot (offset : ℕ) (record : List Byte) : Cursor Unit := do
  Cursor.seek offset .seekFailed
  Cursor.write [0]
  writeRecordPayloadAt offset record

def appendRecordSlot (offset : ℕ) (record : List Byte) : Cursor Unit := do
  let fileSize ← Cursor.size
  if fileSize < offset + recordSlotSize recordSize then
    Cursor.truncate (offset + recordSlotSize recordSize) .truncateFailed
  writeLiveRecordSlot offset record

/-! ### Loops over the slots -/

def runCallback {σ : Type} (callback : Callback σ) (offset : ℕ) (s : σ) : Cursor σ :=
  fun storage =>
    let visited := callback (.ofOffset offset) (recordPayloadOffset offset) storage s
    let storage := { storage with position := visited.2 }
    match visited.1 with
    | some s => (.ok s, storage)
    | none => (.error .foreachAborted, storage)

/-- The loops start at the offset, where the storage is already positioned. -/
def foreachFrom {σ : Type} (callback : Callback σ) (fileSize offset : ℕ) (s : σ) : Cursor σ :=
  if offset + recordSlotSize recordSize ≤ fileSize then do
    let flags ← readFlags
    if isRecordSlotDeleted flags then
      Cursor.seekForward (recordSlotSize recordSize - 1) .seekFailed
      foreachFrom callback fileSize (offset + recordSlotSize recordSize) s
    else
      let s ← runCallback callback offset s
      if fileSize < offset + recordSlotSize recordSize + recordSlotSize recordSize then pure s
      else
        Cursor.seek (offset + recordSlotSize recordSize) .seekFailed
        foreachFrom callback fileSize (offset + recordSlotSize recordSize) s
  else pure s
termination_by fileSize - offset
decreasing_by all_goals have := recordSlotSize_pos recordSize; omega

/-- The first live slot, and where to go on. -/
def nextLiveLoop (fileSize offset : ℕ) : Cursor (Option RecordRef × ℕ) :=
  if offset + recordSlotSize recordSize ≤ fileSize then do
    let flags ← readFlags
    if isRecordSlotDeleted flags then
      Cursor.seekForward (recordSlotSize recordSize - 1) .seekFailed
      nextLiveLoop fileSize (offset + recordSlotSize recordSize)
    else pure (some (.ofOffset offset), offset + recordSlotSize recordSize)
  else pure (none, offset)
termination_by fileSize - offset
decreasing_by have := recordSlotSize_pos recordSize; omega

/-- The first deleted slot. -/
def searchLoop (fileSize offset : ℕ) : Cursor (Option ℕ) :=
  if offset + recordSlotSize recordSize ≤ fileSize then do
    let flags ← readFlags
    if isRecordSlotDeleted flags then pure (some offset)
    else
      Cursor.seekForward (recordSlotSize recordSize - 1) .seekFailed
      searchLoop fileSize (offset + recordSlotSize recordSize)
  else pure none
termination_by fileSize - offset
decreasing_by have := recordSlotSize_pos recordSize; omega

/-- Live records move down to where the next one is to be written. -/
def compactLoop (fileSize offset writeOffset : ℕ) : Cursor ℕ :=
  if offset + recordSlotSize recordSize ≤ fileSize then do
    let flags ← readFlags
    if isRecordSlotDeleted flags then
      Cursor.seekForward (recordSlotSize recordSize - 1) .seekFailed
      compactLoop fileSize (offset + recordSlotSize recordSize) writeOffset
    else if offset ≠ writeOffset then
      let record ← Cursor.read recordSize .readFailed
      writeLiveRecordSlot writeOffset record
      if fileSize < offset + recordSlotSize recordSize + recordSlotSize recordSize then
        pure (writeOffset + recordSlotSize recordSize)
      else
        Cursor.seek (offset + recordSlotSize recordSize) .seekFailed
        compactLoop fileSize (offset + recordSlotSize recordSize)
          (writeOffset + recordSlotSize recordSize)
    else
      Cursor.seekForward (recordSlotSize recordSize - 1) .seekFailed
      compactLoop fileSize (offset + recordSlotSize recordSize)
        (writeOffset + recordSlotSize recordSize)
  else pure writeOffset
termination_by fileSize - offset
decreasing_by all_goals have := recordSlotSize_pos recordSize; omega

/-! ### Operations on an open database -/

def foreachLive {σ : Type} (callback : Callback σ) (s : σ) : Cursor σ := do
  let fileSize ← Cursor.size
  Cursor.failIf (fileSize < recordsStartOffset) .fileTooShort
  Cursor.seek recordsStartOffset .seekFailed
  foreachFrom recordSize callback fileSize recordsStartOffset s

def nextLiveFrom (fromSlotOffset : ℕ) : Cursor (Option RecordRef × ℕ) := do
  let fileSize ← Cursor.size
  Cursor.failIf (fileSize < recordsStartOffset) .fileTooShort
  Cursor.seek (max fromSlotOffset recordsStartOffset) .seekFailed
  nextLiveLoop recordSize fileSize (max fromSlotOffset recordsStartOffset)

def search : Cursor (Option ℕ) := do
  let fileSize ← Cursor.size
  if recordsStartOffset ≤ fileSize then
    Cursor.seek recordsStartOffset .seekFailed
    searchLoop recordSize fileSize recordsStartOffset
  else pure none

def insertSerialized (record : List Byte) : Cursor RecordRef := do
  let fileSize ← Cursor.size
  match ← search recordSize with
  | some offset =>
    writeLiveRecordSlot offset record
    pure (.ofOffset offset)
  | none =>
    appendRecordSlot recordSize (max fileSize recordsStartOffset) record
    pure (.ofOffset (max fileSize recordsStartOffset))

/-- The flags of a slot that must be live. -/
def liveFlags (ref : RecordRef) : Cursor Byte := do
  let flags ← readSlotFlagsAt ref.offset
  Cursor.failIf (isRecordSlotDeleted flags) .recordDeleted
  pure flags

def replaceSerialized (ref : RecordRef) (record : List Byte) : Cursor Unit := do
  let _ ← liveFlags ref
  writeRecordPayloadAt ref.offset record

def remove (ref : RecordRef) : Cursor Unit := do
  let flags ← liveFlags ref
  writeSlotFlagsAt ref.offset (flags ||| flagDeleted)

def read (ref : RecordRef) : Cursor (List Byte) := do
  let _ ← liveFlags ref
  readRecordPayloadAt recordSize ref.offset

def compact : Cursor Unit := do
  let fileSize ← Cursor.size
  Cursor.failIf (fileSize < recordsStartOffset) .fileTooShort
  Cursor.seek recordsStartOffset .seekFailed
  let writeOffset ← compactLoop recordSize fileSize recordsStartOffset recordsStartOffset
  Cursor.truncate writeOffset .truncateFailed

end

/-! ### Creating and opening -/

def create (modelVersion : Byte) : Cursor Unit := do
  Cursor.truncate recordsStartOffset .truncateFailed
  Cursor.seek 0 .versionWriteFailed
  Cursor.write [dbVersion]
  Cursor.seek 1 .headerWriteFailed
  Cursor.write [modelVersion, 0, 0]

def openDatabase (modelVersion : Byte) : Cursor Unit := do
  let fileSize ← Cursor.size
  Cursor.failIf (fileSize < recordsStartOffset) .fileTooShort
  Cursor.seek 0 .versionReadFailed
  let filePrefix ← Cursor.read 1 .versionReadFailed
  Cursor.failIf (readByte filePrefix 0 ≠ dbVersion) .dbVersionMismatch
  Cursor.seek 1 .headerReadFailed
  let header ← Cursor.read 3 .headerReadFailed
  Cursor.failIf (readByte header 0 ≠ modelVersion) .modelVersionMismatch

end CursorDatabase

end Lightnet.Storage
