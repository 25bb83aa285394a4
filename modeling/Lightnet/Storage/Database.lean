import Lightnet.Protocol

/-!
# The record database

A database file is a version byte, a header with the version of the record model, and slots of
equal size: a flag byte and a record. A deleted slot keeps its record and is used again.

Every access to the storage may fail. A fault is the number of bytes a write has written before it
failed; for the other accesses the number has no meaning. An access is named by its place in the
code and, within a scan, by its slot, so that any of them can fail on its own.
-/

namespace Lightnet.Storage

abbrev File := List Byte

inductive TruncateAccess where
  | alloc | shrinkSeek | shrinkRead | shrinkOpen | shrinkWrite | reopen | growSeek | growWrite
  | seekBack
  deriving DecidableEq

inductive ScanAccess where
  | start | flag (slot : ℕ) | skip (slot : ℕ) | recordSeek (slot : ℕ) | recordRead (slot : ℕ)
  | next (slot : ℕ)
  deriving DecidableEq

inductive Access where
  | openFile
  | versionSeek | versionRead | headerSeek | headerRead
  | recreate (a : TruncateAccess)
  | newVersionSeek | newVersionWrite | newHeaderSeek | newHeaderWrite
  | scan (a : ScanAccess)
  | search (a : ScanAccess)
  | grow (a : TruncateAccess)
  | flagSeek | flagRead | readSeek | readRecord
  | slotSeek | slotWrite | payloadSeek | payloadWrite
  deriving DecidableEq

abbrev Faults := Access → Option ℕ

def noFaults : Faults := fun _ => none

inductive DatabaseResult where
  | notOpen | truncateFailed | versionReadFailed | dbVersionMismatch | headerReadFailed
  | modelVersionMismatch | headerWriteFailed | versionWriteFailed | fileTooShort | seekFailed
  | readFailed | writeFailed | recordDeleted | foreachAborted | storageOpenFailed
  deriving DecidableEq

/-! ### Accesses -/

/-- A computation on the file; what it has written stays when it fails. -/
abbrev Db := ExceptT DatabaseResult (StateM File)

/-- A computation that leaves the file as it is. -/
def ofExcept {α : Type} (x : Except DatabaseResult α) : Db α := fun file => (x, file)

/-- An access that changes nothing. -/
def access (ω : Faults) (a : Access) (e : DatabaseResult) : Except DatabaseResult Unit :=
  if ω a = none then .ok () else .error e

def failIf (p : Prop) [Decidable p] (e : DatabaseResult) : Except DatabaseResult Unit :=
  if p then .error e else .ok ()

def readByte (file : File) (i : ℕ) : Byte := file.getD i 0

def readAt (file : File) (offset len : ℕ) : List Byte := (file.drop offset).take len

def writeAt (file : File) (offset : ℕ) (bs : List Byte) : File :=
  file.take offset ++ bs ++ file.drop (offset + bs.length)

/-- A failed write has written some but not all of the bytes. -/
def write (ω : Faults) (a : Access) (e : DatabaseResult) (offset : ℕ) (bs : List Byte) : Db Unit :=
  fun file =>
    match ω a with
    | none => (.ok (), writeAt file offset bs)
    | some k => (.error e, writeAt file offset (bs.take (min k (bs.length - 1))))

/-- The file grows by zero bytes, one after another, and shrinks by being written anew. -/
def truncate (ω : Faults) (at_ : TruncateAccess → Access) (newSize : ℕ) : Db Unit := fun file =>
  let ok (a : TruncateAccess) : Bool := ω (at_ a) = none
  let done (b : Bool) : Except DatabaseResult Unit := if b then .ok () else .error .truncateFailed
  if file.length = newSize then (done (ok .seekBack), file)
  else if newSize < file.length then
    if ok .alloc && ok .shrinkSeek && ok .shrinkRead && ok .shrinkOpen then
      match ω (at_ .shrinkWrite) with
      | none => (done (ok .reopen && ok .seekBack), file.take newSize)
      | some k => (done false, file.take (min k (newSize - 1)))
    else (done false, file)
  else if ok .growSeek then
    let zeros := newSize - file.length
    match ω (at_ .growWrite) with
    | none => (done (ok .seekBack), file ++ List.replicate zeros 0)
    | some k => (done false, file ++ List.replicate (min k (zeros - 1)) 0)
  else (done false, file)

/-! ### The layout -/

def dbVersion : Byte := 1

def flagDeleted : Byte := 0x01

def recordsStartOffset : ℕ := 4

def isRecordSlotDeleted (flags : Byte) : Bool := flags &&& flagDeleted ≠ 0

section

variable (recordSize : ℕ)

def recordSlotSize : ℕ := 1 + recordSize

def slotOffset (slot : ℕ) : ℕ := recordsStartOffset + slot * recordSlotSize recordSize

def recordPayloadOffset (offset : ℕ) : ℕ := offset + 1

def slotCount (file : File) : ℕ := (file.length - recordsStartOffset) / recordSlotSize recordSize

def slotFlags (file : File) (slot : ℕ) : Byte := readByte file (slotOffset recordSize slot)

def slotPayload (file : File) (slot : ℕ) : List Byte :=
  readAt file (recordPayloadOffset (slotOffset recordSize slot)) recordSize

/-- The slot is within the file and not deleted. -/
def IsLive (file : File) (slot : ℕ) : Prop :=
  slot < slotCount recordSize file ∧ isRecordSlotDeleted (slotFlags recordSize file slot) = false

instance (file : File) (slot : ℕ) : Decidable (IsLive recordSize file slot) :=
  inferInstanceAs (Decidable (_ ∧ _))

def liveSlots (file : File) : List ℕ :=
  (List.range (slotCount recordSize file)).filter (IsLive recordSize file ·)

def liveRecords (file : File) : List (List Byte) :=
  (liveSlots recordSize file).map (slotPayload recordSize file)

/-! ### Scans -/

/-- The live slots from `slot` on, of which `left` are left, each handed to the callback. -/
def foreachLoop {σ : Type} (ω : Faults) (file : File)
    (callback : ℕ → σ → Except DatabaseResult σ) : ℕ → ℕ → σ → Except DatabaseResult σ
  | 0, _, s => .ok s
  | left + 1, slot, s => do
    access ω (.scan (.flag slot)) .readFailed
    if isRecordSlotDeleted (slotFlags recordSize file slot) then
      access ω (.scan (.skip slot)) .seekFailed
      foreachLoop ω file callback left (slot + 1) s
    else
      let s ← callback slot s
      if left = 0 then .ok s
      else
        access ω (.scan (.next slot)) .seekFailed
        foreachLoop ω file callback left (slot + 1) s

def foreachLive {σ : Type} (ω : Faults) (file : File)
    (callback : ℕ → σ → Except DatabaseResult σ) (s : σ) : Except DatabaseResult σ := do
  failIf (file.length < recordsStartOffset) .fileTooShort
  access ω (.scan .start) .seekFailed
  foreachLoop recordSize ω file callback (slotCount recordSize file) 0 s

/-- The live slots counted so far; a failed access ends the count. -/
def liveCountLoop (ω : Faults) (file : File) : ℕ → ℕ → ℕ → ℕ
  | 0, _, live => live
  | left + 1, slot, live =>
    if ω (.scan (.flag slot)) ≠ none then live
    else
      let live := if isRecordSlotDeleted (slotFlags recordSize file slot) then live else live + 1
      if ω (.scan (.skip slot)) ≠ none then live
      else liveCountLoop ω file left (slot + 1) live

def liveCount (ω : Faults) (file : File) : ℕ :=
  if file.length < recordsStartOffset then 0
  else if ω (.scan .start) ≠ none then 0
  else liveCountLoop recordSize ω file (slotCount recordSize file) 0 0

/-- The first deleted slot. -/
def searchLoop (ω : Faults) (file : File) : ℕ → ℕ → Except DatabaseResult (Option ℕ)
  | 0, _ => .ok none
  | left + 1, slot => do
    access ω (.search (.flag slot)) .readFailed
    if isRecordSlotDeleted (slotFlags recordSize file slot) then .ok (some slot)
    else
      access ω (.search (.skip slot)) .seekFailed
      searchLoop ω file left (slot + 1)

def search (ω : Faults) (file : File) : Except DatabaseResult (Option ℕ) := do
  if file.length < recordsStartOffset then pure none
  else
    access ω (.search .start) .seekFailed
    searchLoop recordSize ω file (slotCount recordSize file) 0

/-! ### Reading and writing a slot -/

def readSlotFlagsAt (ω : Faults) (file : File) (slot : ℕ) : Except DatabaseResult Byte := do
  access ω .flagSeek .seekFailed
  access ω .flagRead .readFailed
  pure (slotFlags recordSize file slot)

def readRecordPayloadAt (ω : Faults) (file : File) (slot : ℕ) :
    Except DatabaseResult (List Byte) := do
  access ω .readSeek .seekFailed
  access ω .readRecord .readFailed
  pure (slotPayload recordSize file slot)

def writeSlotFlagsAt (ω : Faults) (offset : ℕ) (flags : Byte) : Db Unit := do
  ofExcept (access ω .slotSeek .seekFailed)
  write ω .slotWrite .writeFailed offset [flags]

def writeRecordPayloadAt (ω : Faults) (offset : ℕ) (record : List Byte) : Db Unit := do
  ofExcept (access ω .payloadSeek .seekFailed)
  write ω .payloadWrite .writeFailed (recordPayloadOffset offset) record

/-- The flag first, and then the record. -/
def writeLiveRecordSlot (ω : Faults) (offset : ℕ) (record : List Byte) : Db Unit := do
  writeSlotFlagsAt ω offset 0
  writeRecordPayloadAt ω offset record

def appendRecordSlot (ω : Faults) (offset : ℕ) (record : List Byte) : Db Unit := do
  truncate ω .grow (offset + recordSlotSize recordSize)
  writeLiveRecordSlot ω offset record

/-! ### Operations -/

def insertSerialized (ω : Faults) (record : List Byte) : Db Unit := do
  let file ← get
  match ← ofExcept (search recordSize ω file) with
  | some slot => writeLiveRecordSlot ω (slotOffset recordSize slot) record
  | none => appendRecordSlot recordSize ω (max file.length recordsStartOffset) record

/-- The flags of a slot that must be live. -/
def liveFlags (ω : Faults) (file : File) (slot : ℕ) : Except DatabaseResult Byte := do
  let flags ← readSlotFlagsAt recordSize ω file slot
  failIf (isRecordSlotDeleted flags) .recordDeleted
  pure flags

def replaceSerialized (ω : Faults) (slot : ℕ) (record : List Byte) : Db Unit := do
  let file ← get
  let _ ← ofExcept (liveFlags recordSize ω file slot)
  writeRecordPayloadAt ω (slotOffset recordSize slot) record

def remove (ω : Faults) (slot : ℕ) : Db Unit := do
  let file ← get
  let flags ← ofExcept (liveFlags recordSize ω file slot)
  writeSlotFlagsAt ω (slotOffset recordSize slot) (flags ||| flagDeleted)

def read (ω : Faults) (file : File) (slot : ℕ) : Except DatabaseResult (List Byte) := do
  let _ ← liveFlags recordSize ω file slot
  readRecordPayloadAt recordSize ω file slot

end

/-! ### Opening -/

def create (ω : Faults) (modelVersion : Byte) : Db Unit := do
  truncate ω .recreate recordsStartOffset
  ofExcept (access ω .newVersionSeek .versionWriteFailed)
  write ω .newVersionWrite .versionWriteFailed 0 [dbVersion]
  ofExcept (access ω .newHeaderSeek .headerWriteFailed)
  write ω .newHeaderWrite .headerWriteFailed 1 [modelVersion, 0, 0]

def openDatabase (ω : Faults) (modelVersion : Byte) (file : File) :
    Except DatabaseResult Unit := do
  failIf (file.length < recordsStartOffset) .fileTooShort
  access ω .versionSeek .versionReadFailed
  access ω .versionRead .versionReadFailed
  failIf (readByte file 0 ≠ dbVersion) .dbVersionMismatch
  access ω .headerSeek .headerReadFailed
  access ω .headerRead .headerReadFailed
  failIf (readByte file 1 ≠ modelVersion) .modelVersionMismatch

/-- The results of opening a database on which it is created anew. -/
def missingOrCorrupt : DatabaseResult → Bool
  | .fileTooShort | .versionReadFailed | .headerReadFailed | .dbVersionMismatch
  | .modelVersionMismatch => true
  | _ => false

/-- Open the database, or create it. -/
def ensureOpen (ω : Faults) (modelVersion : Byte) : Db Unit := do
  ofExcept (access ω .openFile .storageOpenFailed)
  let file ← get
  match openDatabase ω modelVersion file with
  | .ok () => pure ()
  | .error e => if missingOrCorrupt e then create ω modelVersion else throw e

end Lightnet.Storage
