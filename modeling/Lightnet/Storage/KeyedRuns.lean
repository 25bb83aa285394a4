import Lightnet.Storage.SceneStore
import Lightnet.Storage.PaletteStore
import Lightnet.Library.Transition
import Mathlib.Data.List.Nodup

/-!
# Runs of a store under faults

Along a run, the records that the store has acknowledged are kept next to the file. The file holds
exactly these records as long as no fault strikes where the store mistakes it for something else.
-/

namespace Lightnet.Storage.KeyedStore

variable (c : KeyedStore)

inductive Op where
  | create (record : List Byte) (h : record.length = c.recordSize)
  | update (key : Text) (record : List Byte) (h : record.length = c.recordSize)
  | remove (key : Text)
  | get (key : Text)
  | list

/-- The file, and for each key the record that has last been acknowledged. -/
structure State where
  file : File
  acknowledged : Text → Option (List Byte)

def State.empty : State := ⟨[], fun _ => none⟩

/-- What is acknowledged changes when the operation reports success. -/
def State.after {α : Type} (s : State) (result : Except StoreError α × File)
    (acknowledged : Text → Option (List Byte)) : State :=
  match result with
  | (.ok _, file) => ⟨file, acknowledged⟩
  | (.error _, file) => ⟨file, s.acknowledged⟩

def step (s : State) (e : Faults × c.Op) : State :=
  match e.2 with
  | .create record _ => s.after (c.create e.1 record s.file)
      (Function.update s.acknowledged (c.wanted (c.givenKey record)) (some record))
  | .update key record _ => s.after (c.update e.1 key record s.file)
      (Function.update s.acknowledged (c.wanted key) (some record))
  | .remove key => s.after (c.remove e.1 key s.file)
      (Function.update s.acknowledged (c.wanted key) none)
  | .get key => s.after (c.get e.1 key s.file) s.acknowledged
  | .list => s.after (c.listed e.1 s.file) s.acknowledged

/-! ### What is promised -/

/-- The file holds the acknowledged records and no others, and each key once. -/
structure Durable (s : State) : Prop where
  kept : ∀ key record, s.acknowledged key = some record ↔
    ∃ slot, Stores c.recordSize s.file slot record ∧ c.storedKey record = some key
  keyed : ∀ slot record, Stores c.recordSize s.file slot record → (c.storedKey record).isSome
  unique : ∀ i j r r', Stores c.recordSize s.file i r → Stores c.recordSize s.file j r' →
    c.storedKey r = c.storedKey r' → i = j

/-- A read that reports success reports what has been acknowledged. -/
def Reflects (s : State) (e : Faults × c.Op) : Prop :=
  match e.2 with
  | .get key => ∀ bs, (c.get e.1 key s.file).1 = .ok bs →
      ∃ record, s.acknowledged (c.wanted key) = some record ∧ c.readBack record = .ok bs
  | .list => ∀ shown, (c.listed e.1 s.file).1 = .ok shown →
      ∃ records : List (List Byte), records.Nodup ∧
        (∀ r, r ∈ records ↔ ∃ key, s.acknowledged key = some r) ∧
        shown = records.filterMap c.shown
  | _ => True

/-! ### Where faults do no harm -/

def HasKey (file : File) (key : Text) : Prop :=
  ∃ slot, IsLive c.recordSize file slot ∧
    c.storedKey (slotPayload c.recordSize file slot) = some (c.wanted key)

/-- A lookup meets no fault but in reading records of other keys. -/
def LookupClean (ω : Faults) (file : File) (key : Text) : Prop :=
  ScanClean c.recordSize ω file ∧ ∀ slot, IsLive c.recordSize file slot →
    c.storedKey (slotPayload c.recordSize file slot) = some (c.wanted key) →
    ω (.scan (.recordSeek slot)) = none ∧ ω (.scan (.recordRead slot)) = none

/-- No fault strikes an operation where it is mistaken for a missing database or an absent record,
or where a record is half written. -/
def Spared (s : State) (e : Faults × c.Op) : Prop :=
  match e.2 with
  | .create record _ => c.checkCreate record = none →
      OpenSpared e.1 c.modelVersion s.file ∧ (SessionClean e.1 c.modelVersion s.file →
        (c.HasKey s.file (c.givenKey record) →
          c.LookupClean e.1 s.file (c.givenKey record)) ∧
        (¬c.HasKey s.file (c.givenKey record) → InsertSpared c.recordSize e.1 s.file))
  | .update key record _ => c.checkUpdate key record = none →
      OpenSpared e.1 c.modelVersion s.file ∧ (SessionClean e.1 c.modelVersion s.file →
        c.HasKey s.file key → c.LookupClean e.1 s.file key → ReplaceSpared e.1)
  | .remove key => c.checkRemove key = none → OpenSpared e.1 c.modelVersion s.file
  | .get key => c.checkGet key = none → OpenSpared e.1 c.modelVersion s.file
  | .list => OpenSpared e.1 c.modelVersion s.file ∧ (SessionClean e.1 c.modelVersion s.file →
      c.skipsUnread → EveryRecordRead c.recordSize e.1 s.file)

/-! ### One operation -/

variable {c} {ω : Faults} {file file' : File}

section

variable {α : Type}

theorem ends_check_bind {o : Option StoreError} {f : Unit → Store α} {r : Except StoreError α}
    (h : Ends (Store.check o >>= f) file r file') :
    (o = none ∧ Ends (f ()) file r file') ∨ (∃ e, r = .error e) ∧ o ≠ none ∧ file' = file := by
  cases o with
  | none =>
      rcases h.bind with ⟨_, mid, hcheck, h⟩ | ⟨e, hcheck, -⟩
      · cases hcheck
        exact Or.inl ⟨rfl, h⟩
      · cases hcheck
  | some e =>
      rcases h.bind with ⟨_, mid, hcheck, h⟩ | ⟨e', hcheck, rfl⟩
      · cases hcheck
      · cases hcheck
        exact Or.inr ⟨⟨_, rfl⟩, nofun, rfl⟩

theorem ends_ofFile_bind {g : File → Except StoreError ℕ} {f : ℕ → Store α}
    {r : Except StoreError α} (h : Ends (Store.ofFile g >>= f) file r file') :
    (∃ slot, g file = .ok slot ∧ Ends (f slot) file r file') ∨
      (∃ e, r = .error e) ∧ file' = file := by
  rcases h.bind with ⟨slot, mid, hg, h⟩ | ⟨e, hg, rfl⟩
  · obtain ⟨hslot, rfl⟩ := Prod.ext_iff.1 hg
    exact Or.inl ⟨slot, hslot, h⟩
  · obtain ⟨-, rfl⟩ := Prod.ext_iff.1 hg
    exact Or.inr ⟨⟨e, rfl⟩, rfl⟩

theorem ends_ofDb {m : Db α} {r : Except StoreError α} (h : Ends (Store.ofDb m) file r file') :
    ∃ r', Ends m file r' file' ∧ ((∃ a, r = .ok a ∧ r' = .ok a) ∨
      ∃ e e', r = .error e ∧ r' = .error e') := by
  unfold Ends Store.ofDb at h
  rcases hm : m file with ⟨e | a, mid⟩
  · rw [hm] at h
    cases h
    exact ⟨_, hm, Or.inr ⟨_, _, rfl, rfl⟩⟩
  · rw [hm] at h
    cases h
    exact ⟨_, hm, Or.inl ⟨_, rfl, rfl⟩⟩

/-- An operation opens the file and goes on, or ends with an error. -/
theorem ends_session_bind {n : ℕ} {modelVersion : Byte} {f : Unit → Store α}
    {r : Except StoreError α} (hsane : Sane n modelVersion file)
    (hspared : OpenSpared ω modelVersion file)
    (h : Ends (Store.session ω modelVersion >>= f) file r file') :
    ∃ opened, Sane n modelVersion opened ∧ SameSlots n file opened ∧
      ((Opens modelVersion opened ∧ SessionClean ω modelVersion file ∧
        Ends (f ()) opened r file') ∨ (∃ e, r = .error e) ∧ file' = opened) := by
  rcases hopen : ensureOpen ω modelVersion file with ⟨e | a, opened⟩
  · obtain ⟨hopened, hsame, -⟩ := ends_ensureOpen hsane hspared hopen
    refine ⟨opened, hopened, hsame, Or.inr ?_⟩
    rcases h.bind with ⟨_, mid, hsession, -⟩ | ⟨e', hsession, rfl⟩
    · simp only [Ends, Store.session, hopen] at hsession
      cases hsession
    · simp only [Ends, Store.session, hopen] at hsession
      cases hsession
      exact ⟨⟨_, rfl⟩, rfl⟩
  · obtain ⟨hopened, hsame, hok⟩ := ends_ensureOpen hsane hspared hopen
    obtain ⟨hopens, hclean⟩ := hok rfl
    refine ⟨opened, hopened, hsame, Or.inl ⟨hopens, hclean, ?_⟩⟩
    rcases h.bind with ⟨_, mid, hsession, h⟩ | ⟨e', hsession, rfl⟩
    · simp only [Ends, Store.session, hopen] at hsession
      cases hsession
      exact h
    · simp only [Ends, Store.session, hopen] at hsession
      cases hsession

end

/-! ### What the file holds -/

section

variable {acknowledged : Text → Option (List Byte)} {slot : ℕ}

theorem Durable.of_stores (h : c.Durable ⟨file, acknowledged⟩)
    (hsame : ∀ slot r, Stores c.recordSize file' slot r ↔ Stores c.recordSize file slot r) :
    c.Durable ⟨file', acknowledged⟩ := by
  refine ⟨fun key r => ?_, fun i r hr => h.keyed i r ((hsame i r).1 hr), fun i j r r' hr hr' => ?_⟩
  · rw [h.kept key r]
    exact exists_congr fun i => and_congr_left' (hsame i r).symm
  · exact h.unique i j r r' ((hsame i r).1 hr) ((hsame j r').1 hr')

theorem Durable.put (h : c.Durable ⟨file, acknowledged⟩) {record : List Byte} {key : Text}
    (hbecame : Became c.recordSize file file' slot (some record))
    (hkey : c.storedKey record = some key)
    (hslot : ∀ r, Stores c.recordSize file slot r → c.storedKey r = some key)
    (honly : ∀ i r, Stores c.recordSize file i r → c.storedKey r = some key → i = slot) :
    c.Durable ⟨file', Function.update acknowledged key (some record)⟩ := by
  have hself : ∀ r, Stores c.recordSize file' slot r ↔ record = r := fun r =>
    (hbecame.self r).trans Option.some_inj
  refine ⟨fun key' r => ?_, fun i r hr => ?_, fun i j r r' hr hr' heq => ?_⟩
  · have hkept : acknowledged key' = some r ↔ _ := h.kept key' r
    dsimp only at hkept ⊢
    by_cases hkeys : key' = key
    · subst hkeys
      rw [Function.update_self, Option.some_inj]
      constructor
      · rintro rfl
        exact ⟨slot, (hself _).2 rfl, hkey⟩
      · rintro ⟨i, hi, hr⟩
        by_cases hslots : i = slot
        · rw [hslots] at hi
          exact (hself r).1 hi
        · exact absurd (honly i r ((hbecame.others i hslots r).1 hi) hr) hslots
    · rw [Function.update_of_ne hkeys, hkept]
      constructor
      · rintro ⟨i, hi, hr⟩
        have hslots : i ≠ slot := by
          rintro rfl
          rw [hslot r hi] at hr
          exact hkeys (Option.some_inj.1 hr).symm
        exact ⟨i, (hbecame.others i hslots r).2 hi, hr⟩
      · rintro ⟨i, hi, hr⟩
        have hslots : i ≠ slot := by
          rintro rfl
          rw [← (hself r).1 hi, hkey] at hr
          exact hkeys (Option.some_inj.1 hr).symm
        exact ⟨i, (hbecame.others i hslots r).1 hi, hr⟩
  · by_cases hslots : i = slot
    · rw [hslots] at hr
      rw [← (hself r).1 hr, hkey]
      rfl
    · exact h.keyed i r ((hbecame.others i hslots r).1 hr)
  · by_cases hi : i = slot
    · by_cases hj : j = slot
      · rw [hi, hj]
      · rw [hi] at hr
        rw [← (hself r).1 hr, hkey] at heq
        exact absurd (honly j r' ((hbecame.others j hj r').1 hr') heq.symm) hj
    · by_cases hj : j = slot
      · rw [hj] at hr'
        rw [← (hself r').1 hr', hkey] at heq
        exact absurd (honly i r ((hbecame.others i hi r).1 hr) heq) hi
      · exact h.unique i j r r' ((hbecame.others i hi r).1 hr)
          ((hbecame.others j hj r').1 hr') heq

theorem Durable.drop (h : c.Durable ⟨file, acknowledged⟩) {record : List Byte} {key : Text}
    (hbecame : Became c.recordSize file file' slot none)
    (hslot : Stores c.recordSize file slot record) (hkey : c.storedKey record = some key) :
    c.Durable ⟨file', Function.update acknowledged key none⟩ := by
  have hother : ∀ {i r}, Stores c.recordSize file' i r →
      i ≠ slot ∧ Stores c.recordSize file i r := by
    intro i r hi
    have hslots : i ≠ slot := by
      rintro rfl
      cases (hbecame.self r).1 hi
    exact ⟨hslots, (hbecame.others i hslots r).1 hi⟩
  refine ⟨fun key' r => ?_, fun i r hr => h.keyed i r (hother hr).2, fun i j r r' hr hr' =>
    h.unique i j r r' (hother hr).2 (hother hr').2⟩
  have hkept : acknowledged key' = some r ↔ _ := h.kept key' r
  dsimp only at hkept ⊢
  by_cases hkeys : key' = key
  · subst hkeys
    rw [Function.update_self]
    refine iff_of_false nofun ?_
    rintro ⟨i, hi, hr⟩
    exact (hother hi).1 (h.unique i slot r record (hother hi).2 hslot (hr.trans hkey.symm))
  · rw [Function.update_of_ne hkeys, hkept]
    constructor
    · rintro ⟨i, hi, hr⟩
      have hslots : i ≠ slot := by
        rintro rfl
        rw [← hi.2, hslot.2, hkey] at hr
        exact hkeys (Option.some_inj.1 hr).symm
      exact ⟨i, (hbecame.others i hslots r).2 hi, hr⟩
    · rintro ⟨i, hi, hr⟩
      exact ⟨i, (hother hi).2, hr⟩

theorem stores_payload {n : ℕ} (h : IsLive n file slot) :
    Stores n file slot (slotPayload n file slot) := ⟨h, rfl⟩

theorem Durable.nodup_liveRecords (h : c.Durable ⟨file, acknowledged⟩) :
    (liveRecords c.recordSize file).Nodup := by
  apply List.Nodup.map_on
  · intro i hi j hj heq
    exact h.unique i j _ _ (stores_payload (mem_liveSlots.1 hi)) (stores_payload (mem_liveSlots.1 hj))
      (congrArg c.storedKey heq)
  · exact List.nodup_range.filter _

theorem Durable.mem_liveRecords (h : c.Durable ⟨file, acknowledged⟩) (r : List Byte) :
    r ∈ liveRecords c.recordSize file ↔ ∃ key, acknowledged key = some r := by
  rw [liveRecords, List.mem_map]
  constructor
  · rintro ⟨i, hi, rfl⟩
    have hstores := stores_payload (mem_liveSlots.1 hi)
    obtain ⟨key, hkey⟩ := Option.isSome_iff_exists.1 (h.keyed i _ hstores)
    exact ⟨key, (h.kept key _).2 ⟨i, hstores, hkey⟩⟩
  · rintro ⟨key, hkey⟩
    obtain ⟨i, hi, -⟩ := (h.kept key r).1 hkey
    exact ⟨i, mem_liveSlots.2 hi.1, hi.2⟩

end

/-! ### One step -/

structure Inv (c : KeyedStore) (s : State) : Prop where
  sane : Sane c.recordSize c.modelVersion s.file
  durable : c.Durable s

theorem inv_empty : c.Inv State.empty := by
  have hnone : ∀ slot r, ¬Stores c.recordSize State.empty.file slot r := fun slot r h =>
    not_isLive_of_slotCount (slotCount_of_length_le (Nat.zero_le _)) slot h.1
  refine ⟨sane_of_length_le (Nat.zero_le _), fun key r => ?_, fun i r h => absurd h (hnone i r),
    fun i j r r' h => absurd h (hnone i r)⟩
  refine iff_of_false nofun ?_
  rintro ⟨i, hi, -⟩
  exact hnone i r hi

theorem Inv.of_sameSlots {s : State} (h : c.Inv s) (hsane : Sane c.recordSize c.modelVersion file')
    (hsame : SameSlots c.recordSize s.file file') : c.Inv ⟨file', s.acknowledged⟩ :=
  ⟨hsane, h.durable.of_stores hsame.stores_iff⟩

theorem hasKey_iff {key : Text} : c.HasKey file key ↔
    ∃ slot r, Stores c.recordSize file slot r ∧ c.storedKey r = some (c.wanted key) := by
  constructor
  · rintro ⟨slot, hlive, hkey⟩
    exact ⟨slot, _, stores_payload hlive, hkey⟩
  · rintro ⟨slot, r, ⟨hlive, rfl⟩, hkey⟩
    exact ⟨slot, hlive, hkey⟩

theorem sameSlots_hasKey {key : Text} (h : SameSlots c.recordSize file file') :
    c.HasKey file' key ↔ c.HasKey file key := by
  rw [hasKey_iff, hasKey_iff]
  exact exists_congr fun slot => exists_congr fun r => and_congr_left' (h.stores_iff slot r)

/-- There is a record only in a file that was not created anew. -/
theorem eq_of_isLive {n slot : ℕ} (h : SameSlots n file file') (hlive : IsLive n file' slot) :
    file' = file := by
  rcases h with heq | ⟨-, hnone⟩
  · exact heq
  · exact absurd hlive (not_isLive_of_slotCount hnone slot)

/-- The operation has been acknowledged and done, or it has not been acknowledged. -/
def Settles (c : KeyedStore) {α : Type} (s : State) (acknowledged : Text → Option (List Byte))
    (r : Except StoreError α) (file' : File) : Prop :=
  ((∃ a, r = .ok a) ∧ c.Inv ⟨file', acknowledged⟩) ∨
    ((∃ e, r = .error e) ∧ c.Inv ⟨file', s.acknowledged⟩)

theorem inv_after {α : Type} {s : State} {m : Store α} {acknowledged : Text → Option (List Byte)}
    (h : ∀ r file', Ends m s.file r file' → c.Settles s acknowledged r file') :
    c.Inv (s.after (m s.file) acknowledged) := by
  rcases hm : m s.file with ⟨e | a, file'⟩
  · rcases h _ _ hm with ⟨⟨a, ha⟩, -⟩ | ⟨-, hinv⟩
    · cases ha
    · exact hinv
  · rcases h _ _ hm with ⟨-, hinv⟩ | ⟨⟨e, he⟩, -⟩
    · exact hinv
    · cases he

theorem settles_session {α : Type} {s : State} {m : Unit → Store α}
    {acknowledged : Text → Option (List Byte)} (hinv : c.Inv s)
    (hspared : OpenSpared ω c.modelVersion s.file)
    (hm : SessionClean ω c.modelVersion s.file → ∀ opened r file',
      c.Inv ⟨opened, s.acknowledged⟩ → SameSlots c.recordSize s.file opened →
      Opens c.modelVersion opened → Ends (m ()) opened r file' → c.Settles s acknowledged r file')
    {r : Except StoreError α} (h : Ends (Store.session ω c.modelVersion >>= m) s.file r file') :
    c.Settles s acknowledged r file' := by
  obtain ⟨opened, hsane, hsame, ⟨hopens, hclean, hrest⟩ | ⟨herror, rfl⟩⟩ :=
    ends_session_bind hinv.sane hspared h
  · exact hm hclean opened r file' (hinv.of_sameSlots hsane hsame) hsame hopens hrest
  · exact Or.inr ⟨herror, hinv.of_sameSlots hsane hsame⟩

theorem settles_checked {α : Type} {s : State} {o : Option StoreError} {m : Unit → Store α}
    {acknowledged : Text → Option (List Byte)} (hinv : c.Inv s)
    (hspared : o = none → OpenSpared ω c.modelVersion s.file)
    (hm : o = none → SessionClean ω c.modelVersion s.file → ∀ opened r file',
      c.Inv ⟨opened, s.acknowledged⟩ → SameSlots c.recordSize s.file opened →
      Opens c.modelVersion opened → Ends (m ()) opened r file' → c.Settles s acknowledged r file')
    {r : Except StoreError α}
    (h : Ends (Store.check o >>= fun _ => Store.session ω c.modelVersion >>= m) s.file r file') :
    c.Settles s acknowledged r file' := by
  rcases ends_check_bind h with ⟨ho, hrest⟩ | ⟨herror, -, rfl⟩
  · exact settles_session hinv (hspared ho) (hm ho) hrest
  · exact Or.inr ⟨herror, hinv⟩

theorem settles_find {α : Type} {s : State} {key : Text} {opened : File} {m : ℕ → Store α}
    {acknowledged : Text → Option (List Byte)} (hopened : c.Inv ⟨opened, s.acknowledged⟩)
    (hm : ∀ slot, ScanClean c.recordSize ω opened → IsLive c.recordSize opened slot →
      c.Found ω opened key slot → ∀ r file', Ends (m slot) opened r file' →
        c.Settles s acknowledged r file')
    {r : Except StoreError α} (h : Ends (Store.ofFile (c.find ω key) >>= m) opened r file') :
    c.Settles s acknowledged r file' := by
  rcases ends_ofFile_bind h with ⟨slot, hfind, hrest⟩ | ⟨herror, rfl⟩
  · obtain ⟨hclean, hlive, hfound⟩ := find_spec hfind
    exact hm slot hclean hlive hfound r file' hrest
  · exact Or.inr ⟨herror, hopened⟩

/-- A computation of the database that is done, or has changed nothing. -/
theorem settles_ofDb {s : State} {opened : File} {m : Db Unit}
    {acknowledged : Text → Option (List Byte)} (hopened : c.Inv ⟨opened, s.acknowledged⟩)
    (hm : ∀ r file', Ends m opened r file' →
      (r = .ok () ∧ c.Inv ⟨file', acknowledged⟩) ∨ (r ≠ .ok () ∧ file' = opened))
    {r : Except StoreError Unit} (h : Ends (Store.ofDb m) opened r file') :
    c.Settles s acknowledged r file' := by
  obtain ⟨r', hr', ⟨a, rfl, rfl⟩ | ⟨e, e', rfl, rfl⟩⟩ := ends_ofDb h
  · rcases hm _ _ hr' with ⟨-, hinv⟩ | ⟨hne, -⟩
    · exact Or.inl ⟨⟨a, rfl⟩, hinv⟩
    · exact absurd rfl hne
  · rcases hm _ _ hr' with ⟨heq, -⟩ | ⟨-, rfl⟩
    · cases heq
    · exact Or.inr ⟨⟨e, rfl⟩, hopened⟩

theorem inv_create {s : State} {record : List Byte} (hlen : record.length = c.recordSize)
    (hinv : c.Inv s) (hspared : c.Spared s (ω, .create record hlen)) :
    c.Inv (c.step s (ω, .create record hlen)) := by
  refine inv_after fun r file' h => settles_checked hinv (fun ho => (hspared ho).1) ?_ h
  intro ho hclean opened r file' hopened hsame hopens hrest
  obtain ⟨hlookup, hinsert⟩ := (hspared ho).2 hclean
  have hwrite := hrest.get_bind
  cases hfind : c.find ω (c.givenKey record) opened with
  | ok slot =>
      rw [hfind] at hwrite
      cases hwrite
      exact Or.inr ⟨⟨_, rfl⟩, hopened⟩
  | error e =>
      rw [hfind] at hwrite
      have hno : ¬c.HasKey s.file (c.givenKey record) := by
        rintro hkey
        obtain ⟨hscan, hreads⟩ := hlookup hkey
        obtain ⟨slot, hlive, hstored⟩ := hkey
        have heq : opened = s.file := by
          rcases hsame with heq | ⟨hnone, -⟩
          · exact heq
          · exact absurd hlive (not_isLive_of_slotCount hnone slot)
        subst heq
        obtain ⟨slot', hslot'⟩ := find_isOk hopens.1 hscan hlive
          ⟨hreads slot hlive hstored, hstored⟩
        rw [hfind] at hslot'
        cases hslot'
      refine settles_ofDb hopened (fun r file' hdb => ?_) hwrite
      rcases ends_insertSerialized (hopened.sane.aligned hopens) hlen hdb
        (hsame.insertSpared (hinsert hno)) with ⟨hr, slot, hfree, hbecame⟩ | hfail
      · refine Or.inl ⟨hr, hbecame.sane hopens, ?_⟩
        refine hopened.durable.put hbecame (c.create_key record ho) (fun r hr => absurd hr.1 hfree) ?_
        intro i r hi hkey
        exact absurd ((sameSlots_hasKey hsame).1 (hasKey_iff.2 ⟨i, r, hi, hkey⟩)) hno
      · exact Or.inr hfail

theorem inv_update {s : State} {key : Text} {record : List Byte}
    (hlen : record.length = c.recordSize) (hinv : c.Inv s)
    (hspared : c.Spared s (ω, .update key record hlen)) :
    c.Inv (c.step s (ω, .update key record hlen)) := by
  refine inv_after fun r file' h => settles_checked hinv (fun ho => (hspared ho).1) ?_ h
  intro ho hclean opened r file' hopened hsame hopens hrest
  refine settles_find hopened ?_ hrest
  intro slot hscan hlive hfound r file' hwrite
  obtain rfl := eq_of_isLive hsame hlive
  have hslot := stores_payload hlive
  have honly : ∀ i r, Stores c.recordSize s.file i r → c.storedKey r = some (c.wanted key) →
      i = slot := fun i r hi hkey => hinv.durable.unique i slot r _ hi hslot (hkey.trans hfound.2.symm)
  have hreplace : ReplaceSpared ω := by
    apply (hspared ho).2 hclean ⟨slot, hlive, hfound.2⟩
    refine ⟨hscan, fun i hi hkey => ?_⟩
    rw [honly i _ (stores_payload hi) hkey]
    exact hfound.1
  refine settles_ofDb hopened (fun r file' hdb => ?_) hwrite
  rcases ends_replaceSerialized (hopened.sane.aligned hopens) hlive.1 hlen hdb hreplace with
    ⟨hr, hbecame⟩ | hfail
  · refine Or.inl ⟨hr, hbecame.sane hopens, ?_⟩
    refine hinv.durable.put hbecame (c.update_key key record ho) (fun r hr => ?_) honly
    rw [← hr.2]
    exact hfound.2
  · exact Or.inr hfail

theorem inv_remove {s : State} {key : Text} (hinv : c.Inv s)
    (hspared : c.Spared s (ω, .remove key)) : c.Inv (c.step s (ω, .remove key)) := by
  refine inv_after fun r file' h => settles_checked hinv hspared ?_ h
  intro ho hclean opened r file' hopened hsame hopens hrest
  refine settles_find hopened ?_ hrest
  intro slot hscan hlive hfound r file' hwrite
  refine settles_ofDb hopened (fun r file' hdb => ?_) hwrite
  rcases ends_remove (hopened.sane.aligned hopens) hlive.1 hdb with ⟨hr, hbecame⟩ | hfail
  · exact Or.inl ⟨hr, hbecame.sane hopens,
      hopened.durable.drop hbecame (stores_payload hlive) hfound.2⟩
  · exact Or.inr hfail

theorem ends_ofFile {α : Type} {g : File → Except StoreError α} {r : Except StoreError α}
    (h : Ends (Store.ofFile g) file r file') : g file = r ∧ file' = file := by
  obtain ⟨hr, rfl⟩ := Prod.ext_iff.1 h
  exact ⟨hr, rfl⟩

theorem settles_ofFile {α : Type} {s : State} {opened : File} {g : File → Except StoreError α}
    (hopened : c.Inv ⟨opened, s.acknowledged⟩) {r : Except StoreError α}
    (h : Ends (Store.ofFile g) opened r file') : c.Settles s s.acknowledged r file' := by
  obtain ⟨-, rfl⟩ := ends_ofFile h
  cases r with
  | ok a => exact Or.inl ⟨⟨a, rfl⟩, hopened⟩
  | error e => exact Or.inr ⟨⟨e, rfl⟩, hopened⟩

theorem inv_get {s : State} {key : Text} (hinv : c.Inv s) (hspared : c.Spared s (ω, .get key)) :
    c.Inv (c.step s (ω, .get key)) := by
  refine inv_after fun r file' h => settles_checked hinv hspared ?_ h
  intro ho hclean opened r file' hopened hsame hopens hrest
  exact settles_find hopened (fun slot _ _ _ r file' hread => settles_ofFile hopened hread) hrest

theorem inv_list {s : State} (hinv : c.Inv s) (hspared : c.Spared s (ω, .list)) :
    c.Inv (c.step s (ω, .list)) := by
  refine inv_after fun r file' h => settles_session hinv hspared.1 ?_ h
  intro hclean opened r file' hopened hsame hopens hrest
  exact settles_ofFile hopened hrest

theorem inv_step {s : State} {e : Faults × c.Op} (hinv : c.Inv s) (hspared : c.Spared s e) :
    c.Inv (c.step s e) := by
  obtain ⟨ω, op⟩ := e
  cases op with
  | create record h => exact inv_create h hinv hspared
  | update key record h => exact inv_update h hinv hspared
  | remove key => exact inv_remove hinv hspared
  | get key => exact inv_get hinv hspared
  | list => exact inv_list hinv hspared

/-! ### Reads -/

theorem reflects_get {s : State} {key : Text} (hinv : c.Inv s)
    (hspared : c.Spared s (ω, .get key)) : c.Reflects s (ω, .get key) := by
  intro bs hok
  obtain ⟨file', h⟩ : ∃ file', Ends (c.get ω key) s.file (.ok bs) file' :=
    ⟨_, Prod.ext hok rfl⟩
  rcases ends_check_bind h with ⟨ho, h⟩ | ⟨⟨e, he⟩, -⟩
  swap
  · cases he
  obtain ⟨opened, -, hsame, ⟨-, -, h⟩ | ⟨⟨e, he⟩, -⟩⟩ :=
    ends_session_bind hinv.sane (hspared ho) h
  swap
  · cases he
  rcases ends_ofFile_bind h with ⟨slot, hfind, h⟩ | ⟨⟨e, he⟩, -⟩
  swap
  · cases he
  obtain ⟨-, hlive, hfound⟩ := find_spec hfind
  obtain ⟨hload, -⟩ := ends_ofFile h
  refine ⟨slotPayload c.recordSize opened slot, ?_, c.load_spec ω opened slot bs hload⟩
  exact (hinv.durable.kept _ _).2
    ⟨slot, (hsame.stores_iff slot _).1 (stores_payload hlive), hfound.2⟩

theorem reflects_list {s : State} (hinv : c.Inv s) (hspared : c.Spared s (ω, .list)) :
    c.Reflects s (ω, .list) := by
  intro shown hok
  obtain ⟨file', h⟩ : ∃ file', Ends (c.listed ω) s.file (.ok shown) file' :=
    ⟨_, Prod.ext hok rfl⟩
  obtain ⟨opened, hsane, hsame, ⟨-, hclean, h⟩ | ⟨⟨e, he⟩, -⟩⟩ :=
    ends_session_bind hinv.sane hspared.1 h
  swap
  · cases he
  have hdurable := (hinv.of_sameSlots hsane hsame).durable
  obtain ⟨hlist, -⟩ := ends_ofFile h
  exact ⟨liveRecords c.recordSize opened, hdurable.nodup_liveRecords, hdurable.mem_liveRecords,
    c.list_spec ω opened shown (fun hskips => hsame.everyRecordRead (hspared.2 hclean hskips)) hlist⟩

theorem reflects_of_spared {s : State} {e : Faults × c.Op} (hinv : c.Inv s)
    (hspared : c.Spared s e) : c.Reflects s e := by
  obtain ⟨ω, op⟩ := e
  cases op with
  | get key => exact reflects_get hinv hspared
  | list => exact reflects_list hinv hspared
  | create record h => trivial
  | update key record h => trivial
  | remove key => trivial

end Lightnet.Storage.KeyedStore
