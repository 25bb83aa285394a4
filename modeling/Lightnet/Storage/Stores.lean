import Lightnet.Storage.Writes
import Lightnet.Json.SimpleJson

/-!
# Stores

A store of many records finds them by a key within the record: scenes by their id, palettes by
their name. A store of a single record keeps it in the first slot. Every operation opens the file,
and closes it at its end, so that the file is all that is left between two operations.

Records are the bytes of the packed structures.
-/

namespace Lightnet.Storage

inductive StoreError where
  | hidden | invalidKey | keyChanged | keyExists | notFound | codec | db | fsOpen
  deriving DecidableEq

def mapDatabaseResult : DatabaseResult → StoreError
  | .storageOpenFailed => .fsOpen
  | _ => .db

abbrev Store := ExceptT StoreError (StateM File)

namespace Store

variable {α : Type}

def ofDb (m : Db α) : Store α := fun file =>
  match m file with
  | (.ok a, file') => (.ok a, file')
  | (.error e, file') => (.error (mapDatabaseResult e), file')

/-- The file is open, or the operation ends. -/
def session (ω : Faults) (modelVersion : Byte) : Store Unit := fun file =>
  match ensureOpen ω modelVersion file with
  | (.ok (), file') => (.ok (), file')
  | (.error _, file') => (.error .db, file')

/-- A check that is made before the file is opened. -/
def check : Option StoreError → Store Unit
  | none => pure ()
  | some e => throw e

/-- A computation that leaves the file as it is. -/
def ofFile (f : File → Except StoreError α) : Store α := fun file => (f file, file)

end Store

/-- A store of records that are found by a key. `storedKey` is the key of a record in the file,
and `wanted` what a key given by a caller is compared as. -/
structure KeyedStore where
  recordSize : ℕ
  modelVersion : Byte
  storedKey : List Byte → Option Text
  givenKey : List Byte → Text
  wanted : Text → Text
  checkCreate : List Byte → Option StoreError
  checkUpdate : Text → List Byte → Option StoreError
  checkRemove : Text → Option StoreError
  checkGet : Text → Option StoreError
  /-- What a get returns of a record in the file. -/
  readBack : List Byte → Except StoreError (List Byte)
  load : Faults → File → ℕ → Except StoreError (List Byte)
  shown : List Byte → Option (List Byte)
  list : Faults → File → Except StoreError (List (List Byte))
  /-- A list passes over a record that it cannot read. -/
  skipsUnread : Bool
  create_key : ∀ r, checkCreate r = none → storedKey r = some (wanted (givenKey r))
  update_key : ∀ k r, checkUpdate k r = none → storedKey r = some (wanted k)
  load_spec : ∀ ω file slot r, load ω file slot = .ok r →
    readBack (slotPayload recordSize file slot) = .ok r
  list_spec : ∀ ω file l, (skipsUnread → EveryRecordRead recordSize ω file) → list ω file = .ok l →
    l = (liveRecords recordSize file).filterMap shown

namespace KeyedStore

variable (c : KeyedStore)

/-- A record that cannot be read is taken for another one. -/
def findCallback (ω : Faults) (file : File) (key : Text) (slot : ℕ) (found : Option ℕ) :
    Except DatabaseResult (Option ℕ) :=
  if ω (.scan (.recordSeek slot)) ≠ none ∨ ω (.scan (.recordRead slot)) ≠ none then .ok found
  else if c.storedKey (slotPayload c.recordSize file slot) = some (c.wanted key) then
    .ok (some slot)
  else .ok found

def find (ω : Faults) (key : Text) (file : File) : Except StoreError ℕ :=
  match foreachLive c.recordSize ω file (c.findCallback ω file key) none with
  | .error e => .error (mapDatabaseResult e)
  | .ok none => .error .notFound
  | .ok (some slot) => .ok slot

def createImpl (ω : Faults) (record : List Byte) : Store Unit := do
  let file ← get
  match c.find ω (c.givenKey record) file with
  | .ok _ => throw .keyExists
  | .error _ => Store.ofDb (insertSerialized c.recordSize ω record)

def create (ω : Faults) (record : List Byte) : Store Unit := do
  Store.check (c.checkCreate record)
  Store.session ω c.modelVersion
  c.createImpl ω record

def update (ω : Faults) (key : Text) (record : List Byte) : Store Unit := do
  Store.check (c.checkUpdate key record)
  Store.session ω c.modelVersion
  let slot ← Store.ofFile (c.find ω key)
  Store.ofDb (replaceSerialized c.recordSize ω slot record)

def remove (ω : Faults) (key : Text) : Store Unit := do
  Store.check (c.checkRemove key)
  Store.session ω c.modelVersion
  let slot ← Store.ofFile (c.find ω key)
  Store.ofDb (Storage.remove c.recordSize ω slot)

def get (ω : Faults) (key : Text) : Store (List Byte) := do
  Store.check (c.checkGet key)
  Store.session ω c.modelVersion
  let slot ← Store.ofFile (c.find ω key)
  Store.ofFile fun file => c.load ω file slot

def listed (ω : Faults) : Store (List (List Byte)) := do
  Store.session ω c.modelVersion
  Store.ofFile (c.list ω)

/-! ### Lookups -/

section

variable {c} {ω : Faults} {file : File} {key : Text}

theorem foldl_last_mem {α : Type} (p : α → Prop) [DecidablePred p] {l : List α} {found : Option α}
    {a : α} (h : l.foldl (fun found a => if p a then some a else found) found = some a) :
    found = some a ∨ (a ∈ l ∧ p a) := by
  induction l generalizing found with
  | nil => exact Or.inl h
  | cons b l ih =>
      rcases ih h with h | ⟨hmem, hp⟩
      · change (if p b then some b else found) = some a at h
        by_cases hb : p b
        · rw [if_pos hb] at h
          cases h
          exact Or.inr ⟨List.mem_cons_self, hb⟩
        · rw [if_neg hb] at h
          exact Or.inl h
      · exact Or.inr ⟨List.mem_cons_of_mem _ hmem, hp⟩

theorem foldl_last_isSome {α : Type} (p : α → Prop) [DecidablePred p] {l : List α}
    {found : Option α} (h : found.isSome ∨ ∃ a ∈ l, p a) :
    (l.foldl (fun found a => if p a then some a else found) found).isSome := by
  induction l generalizing found with
  | nil => simpa using h
  | cons b l ih =>
      apply ih
      by_cases hb : p b
      · simp [hb]
      · simpa [hb] using h

/-- The slot is read by the lookup, and holds the key. -/
def Found (c : KeyedStore) (ω : Faults) (file : File) (key : Text) (slot : ℕ) : Prop :=
  (ω (.scan (.recordSeek slot)) = none ∧ ω (.scan (.recordRead slot)) = none) ∧
    c.storedKey (slotPayload c.recordSize file slot) = some (c.wanted key)

instance (slot : ℕ) : Decidable (c.Found ω file key slot) := inferInstanceAs (Decidable (_ ∧ _))

theorem findCallback_eq (slot : ℕ) (found : Option ℕ) :
    c.findCallback ω file key slot found =
      .ok (if c.Found ω file key slot then some slot else found) := by
  unfold findCallback
  by_cases hread : ω (.scan (.recordSeek slot)) ≠ none ∨ ω (.scan (.recordRead slot)) ≠ none
  · have hnot : ¬c.Found ω file key slot := fun h =>
      hread.elim (fun h' => h' h.1.1) (fun h' => h' h.1.2)
    rw [if_pos hread, if_neg hnot]
  · rw [if_neg hread]
    push Not at hread
    by_cases hkey : c.storedKey (slotPayload c.recordSize file slot) = some (c.wanted key)
    · have hfound : c.Found ω file key slot := ⟨hread, hkey⟩
      rw [if_pos hkey, if_pos hfound]
    · have hnot : ¬c.Found ω file key slot := fun h => hkey h.2
      rw [if_neg hkey, if_neg hnot]

theorem foldlM_findCallback (l : List ℕ) (found : Option ℕ) :
    l.foldlM (fun found slot => c.findCallback ω file key slot found) found =
      .ok (l.foldl (fun found slot => if c.Found ω file key slot then some slot else found)
        found) := by
  induction l generalizing found with
  | nil => rfl
  | cons slot l ih =>
      rw [List.foldlM_cons, findCallback_eq, List.foldl_cons, ← ih]
      rfl

/-- What a lookup finds is live and has the key. -/
theorem find_spec {slot : ℕ} (h : c.find ω key file = .ok slot) :
    ScanClean c.recordSize ω file ∧ IsLive c.recordSize file slot ∧ c.Found ω file key slot := by
  unfold find at h
  split at h
  · cases h
  · cases h
  · next _ found hscan =>
      cases h
      obtain ⟨hclean, hfold⟩ := foreachLive_ok _ hscan
      rw [foldlM_findCallback] at hfold
      rcases foldl_last_mem _ (Except.ok.inj hfold) with hnone | ⟨hmem, hfound⟩
      · cases hnone
      · exact ⟨hclean, mem_liveSlots.1 hmem, hfound⟩

/-- The key of a live record is found when that record is read. -/
theorem find_isOk {slot : ℕ} (hlen : recordsStartOffset ≤ file.length)
    (hclean : ScanClean c.recordSize ω file) (hlive : IsLive c.recordSize file slot)
    (hfound : c.Found ω file key slot) : ∃ slot', c.find ω key file = .ok slot' := by
  have hmatch : (none : Option ℕ).isSome ∨ ∃ slot ∈ liveSlots c.recordSize file,
      c.Found ω file key slot := Or.inr ⟨slot, mem_liveSlots.2 hlive, hfound⟩
  have hsome := foldl_last_isSome (c.Found ω file key) hmatch
  obtain ⟨slot', hslot'⟩ := Option.isSome_iff_exists.1 hsome
  refine ⟨slot', ?_⟩
  unfold find
  rw [foreachLive_clean _ hlen hclean, foldlM_findCallback, hslot']

end

end KeyedStore

end Lightnet.Storage
