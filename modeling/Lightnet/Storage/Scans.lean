import Lightnet.Storage.Records

/-!
# Scans of a database file

When a scan ends well, it has met no fault in going from slot to slot. The reads that a callback makes
on its own are another matter.
-/

namespace Lightnet.Storage

theorem access_ok_iff {ω : Faults} {a : Access} {e : DatabaseResult} :
    access ω a e = .ok () ↔ ω a = none := by
  unfold access
  split_ifs with h
  · simp [h]
  · simp [h]

theorem failIf_ok_iff {p : Prop} [Decidable p] {e : DatabaseResult} :
    failIf p e = .ok () ↔ ¬p := by
  unfold failIf
  split_ifs with h
  · simp [h]
  · simp [h]

theorem except_bind_eq_ok {ε α β : Type} {x : Except ε α} {f : α → Except ε β} {b : β} :
    x >>= f = .ok b ↔ ∃ a, x = .ok a ∧ f a = .ok b := by
  cases x with
  | error e => simp [bind, Except.bind]
  | ok a => simp [bind, Except.bind]

variable {n : ℕ} {ω : Faults} {file : File}

/-! ### The slots of a scan -/

/-- The accesses by which a scan of the live records passes the slot. -/
def PassesLive (n : ℕ) (ω : Faults) (file : File) (slot : ℕ) : Prop :=
  ω (.scan (.flag slot)) = none ∧
    if isRecordSlotDeleted (slotFlags n file slot) then ω (.scan (.skip slot)) = none
    else slot + 1 < slotCount n file → ω (.scan (.next slot)) = none

def ScanClean (n : ℕ) (ω : Faults) (file : File) : Prop :=
  ω (.scan .start) = none ∧ ∀ slot, slot < slotCount n file → PassesLive n ω file slot

/-- Where the scan goes over all slots, it reads all live records. -/
def EveryRecordRead (n : ℕ) (ω : Faults) (file : File) : Prop :=
  ScanClean n ω file → ∀ slot, IsLive n file slot → ω (.scan (.recordRead slot)) = none

section

variable {σ : Type} (callback : ℕ → σ → Except DatabaseResult σ)

def liveFrom (n : ℕ) (file : File) (slot left : ℕ) : List ℕ :=
  (List.range' slot left).filter (IsLive n file ·)

theorem liveFrom_succ {slot left : ℕ} (h : slot < slotCount n file) :
    liveFrom n file slot (left + 1) =
      if isRecordSlotDeleted (slotFlags n file slot) then liveFrom n file (slot + 1) left
      else slot :: liveFrom n file (slot + 1) left := by
  unfold liveFrom
  rw [List.range'_succ, List.filter_cons]
  cases hdel : isRecordSlotDeleted (slotFlags n file slot) with
  | true => simp [IsLive, hdel]
  | false => simp [IsLive, hdel, h]

theorem foreachLoop_clean {slot left : ℕ} (h : slot + left = slotCount n file)
    (hclean : ∀ i, slot ≤ i → i < slotCount n file → PassesLive n ω file i) (s : σ) :
    foreachLoop n ω file callback left slot s =
      (liveFrom n file slot left).foldlM (fun s slot => callback slot s) s := by
  induction left generalizing slot s with
  | zero => rfl
  | succ left ih =>
      have hslot : slot < slotCount n file := by omega
      obtain ⟨hflag, hpass⟩ := hclean slot le_rfl hslot
      have hrest : ∀ s, foreachLoop n ω file callback left (slot + 1) s =
          (liveFrom n file (slot + 1) left).foldlM (fun s slot => callback slot s) s :=
        ih (by omega) fun i hi => hclean i (by omega)
      rw [foreachLoop, access_ok_iff.2 hflag, liveFrom_succ hslot]
      cases hdel : isRecordSlotDeleted (slotFlags n file slot) with
      | true =>
          rw [if_pos hdel] at hpass
          simp only [if_true, access_ok_iff.2 hpass, hrest]
          rfl
      | false =>
          rw [hdel] at hpass
          change (callback slot s >>= _) = (callback slot s >>= _)
          congr 1
          funext s'
          by_cases hleft : left = 0
          · subst hleft
            rfl
          · rw [if_neg hleft, access_ok_iff.2 (hpass (by omega)), ← hrest]
            rfl

theorem foreachLoop_ok {slot left : ℕ} (h : slot + left = slotCount n file) {s s' : σ}
    (hok : foreachLoop n ω file callback left slot s = .ok s') :
    ∀ i, slot ≤ i → i < slotCount n file → PassesLive n ω file i := by
  induction left generalizing slot s with
  | zero =>
      intro i hlow hhigh
      omega
  | succ left ih =>
      rw [foreachLoop] at hok
      obtain ⟨_, hflag, hok⟩ := except_bind_eq_ok.1 hok
      rw [access_ok_iff] at hflag
      suffices hhere : PassesLive n ω file slot ∧
          (left ≠ 0 → ∀ i, slot + 1 ≤ i → i < slotCount n file → PassesLive n ω file i) by
        intro i hlow hhigh
        rcases Nat.eq_or_lt_of_le hlow with rfl | hlow
        · exact hhere.1
        · exact hhere.2 (by omega) i hlow hhigh
      cases hdel : isRecordSlotDeleted (slotFlags n file slot) with
      | true =>
          rw [if_pos hdel] at hok
          obtain ⟨_, hskip, hok⟩ := except_bind_eq_ok.1 hok
          rw [access_ok_iff] at hskip
          refine ⟨⟨hflag, by rwa [if_pos hdel]⟩, fun _ => ih (by omega) hok⟩
      | false =>
          rw [hdel] at hok
          obtain ⟨s₁, _, hok⟩ := except_bind_eq_ok.1 hok
          by_cases hleft : left = 0
          · refine ⟨⟨hflag, ?_⟩, fun h => absurd hleft h⟩
            rw [hdel]
            intro hlt
            omega
          · rw [if_neg hleft] at hok
            obtain ⟨_, hnext, hok⟩ := except_bind_eq_ok.1 hok
            rw [access_ok_iff] at hnext
            refine ⟨⟨hflag, ?_⟩, fun _ => ih (by omega) hok⟩
            rw [hdel]
            exact fun _ => hnext

theorem liveFrom_zero : liveFrom n file 0 (slotCount n file) = liveSlots n file := by
  rw [liveFrom, liveSlots, List.range_eq_range']

/-- A scan without a fault of its own hands over the live slots, one after another. -/
theorem foreachLive_clean (hlen : recordsStartOffset ≤ file.length) (h : ScanClean n ω file)
    (s : σ) : foreachLive n ω file callback s =
      (liveSlots n file).foldlM (fun s slot => callback slot s) s := by
  rw [foreachLive, failIf_ok_iff.2 (Nat.not_lt_of_le hlen), access_ok_iff.2 h.1, ← liveFrom_zero]
  exact foreachLoop_clean callback (Nat.zero_add _) (fun i _ => h.2 i) s

theorem foreachLive_ok {s s' : σ} (h : foreachLive n ω file callback s = .ok s') :
    ScanClean n ω file ∧ (liveSlots n file).foldlM (fun s slot => callback slot s) s = .ok s' := by
  obtain ⟨_, hlen, hscan⟩ := except_bind_eq_ok.1 h
  obtain ⟨_, hstart, hloop⟩ := except_bind_eq_ok.1 hscan
  have hclean : ScanClean n ω file := ⟨access_ok_iff.1 hstart, fun i =>
    foreachLoop_ok callback (Nat.zero_add _) hloop i (Nat.zero_le i)⟩
  refine ⟨hclean, ?_⟩
  rwa [← foreachLive_clean callback (Nat.le_of_not_lt (failIf_ok_iff.1 hlen)) hclean]

end

theorem mem_liveSlots {slot : ℕ} : slot ∈ liveSlots n file ↔ IsLive n file slot := by
  rw [liveSlots, List.mem_filter, List.mem_range, decide_eq_true_iff]
  exact ⟨And.right, fun h => ⟨h.1, h⟩⟩

/-- A scan that adds what is shown of each record ends with what is shown of all records. -/
theorem foldlM_shown {α : Type} {callback : ℕ → List α → Except DatabaseResult (List α)}
    {shown : List Byte → Option α} {slots : List ℕ}
    (hcallback : ∀ slot ∈ slots, ∀ l l', callback slot l = .ok l' →
      l' = l ++ (shown (slotPayload n file slot)).toList) {l l' : List α}
    (h : slots.foldlM (fun l slot => callback slot l) l = .ok l') :
    l' = l ++ (slots.map (slotPayload n file)).filterMap shown := by
  induction slots generalizing l with
  | nil =>
      cases h
      simp
  | cons slot slots ih =>
      rw [List.foldlM_cons] at h
      obtain ⟨mid, hmid, h⟩ := except_bind_eq_ok.1 h
      rw [ih (fun slot' hslot' => hcallback slot' (List.mem_cons_of_mem _ hslot')) h,
        hcallback slot List.mem_cons_self l mid hmid, List.map_cons]
      cases hshown : shown (slotPayload n file slot) with
      | none => simp [hshown]
      | some a => simp [hshown]

/-! ### The search for a deleted slot -/

/-- The search meets no fault up to the first deleted slot. -/
def SearchClean (n : ℕ) (ω : Faults) (file : File) : Prop :=
  ω (.search .start) = none ∧ ∀ slot, slot < slotCount n file →
    (∀ i, i < slot → isRecordSlotDeleted (slotFlags n file i) = false) →
    ω (.search (.flag slot)) = none ∧
      (isRecordSlotDeleted (slotFlags n file slot) = false → ω (.search (.skip slot)) = none)

/-- Where a search ends: at the first deleted slot, if there is one. -/
def FirstDeleted (n : ℕ) (file : File) : Option ℕ → Prop
  | some slot => slot < slotCount n file ∧ isRecordSlotDeleted (slotFlags n file slot) = true ∧
      ∀ i, i < slot → isRecordSlotDeleted (slotFlags n file i) = false
  | none => ∀ i, i < slotCount n file → isRecordSlotDeleted (slotFlags n file i) = false

theorem searchLoop_ok {slot left : ℕ} (h : slot + left = slotCount n file) {found : Option ℕ}
    (hbefore : ∀ i, i < slot → isRecordSlotDeleted (slotFlags n file i) = false ∧
      ω (.search (.flag i)) = none ∧ ω (.search (.skip i)) = none)
    (hok : searchLoop n ω file left slot = .ok found) :
    FirstDeleted n file found ∧ ∀ i, i < slotCount n file →
      (∀ j, j < i → isRecordSlotDeleted (slotFlags n file j) = false) →
      ω (.search (.flag i)) = none ∧
        (isRecordSlotDeleted (slotFlags n file i) = false → ω (.search (.skip i)) = none) := by
  induction left generalizing slot with
  | zero =>
      cases hok
      refine ⟨fun i hi => (hbefore i (by omega)).1, fun i hi _ => ?_⟩
      obtain ⟨_, hflag, hskip⟩ := hbefore i (by omega)
      exact ⟨hflag, fun _ => hskip⟩
  | succ left ih =>
      rw [searchLoop] at hok
      obtain ⟨_, hflag, hok⟩ := except_bind_eq_ok.1 hok
      rw [access_ok_iff] at hflag
      cases hdel : isRecordSlotDeleted (slotFlags n file slot) with
      | true =>
          rw [if_pos hdel] at hok
          cases hok
          refine ⟨⟨by omega, hdel, fun i hi => (hbefore i hi).1⟩, fun i hi hlive => ?_⟩
          rcases Nat.lt_trichotomy i slot with hlt | rfl | hgt
          · obtain ⟨_, hflag, hskip⟩ := hbefore i hlt
            exact ⟨hflag, fun _ => hskip⟩
          · refine ⟨hflag, fun h => ?_⟩
            rw [hdel] at h
            cases h
          · have hdead := hlive slot hgt
            rw [hdel] at hdead
            cases hdead
      | false =>
          rw [hdel] at hok
          obtain ⟨_, hskip, hok⟩ := except_bind_eq_ok.1 hok
          rw [access_ok_iff] at hskip
          apply ih (by omega) _ hok
          intro i hi
          rcases Nat.eq_or_lt_of_le (Nat.le_of_lt_succ hi) with rfl | hlt
          · exact ⟨hdel, hflag, hskip⟩
          · exact hbefore i hlt

theorem search_ok (hlen : recordsStartOffset ≤ file.length) {found : Option ℕ}
    (h : search n ω file = .ok found) : FirstDeleted n file found ∧ SearchClean n ω file := by
  rw [search, if_neg (by omega)] at h
  obtain ⟨_, hstart, h⟩ := except_bind_eq_ok.1 h
  obtain ⟨hfirst, hclean⟩ := searchLoop_ok (Nat.zero_add _) (fun i hi => absurd hi (by omega)) h
  exact ⟨hfirst, access_ok_iff.1 hstart, hclean⟩

end Lightnet.Storage
