import Lightnet.Json.Value

/-!
# Compact texts

A document can be written without white space, and that text can stand wherever the document can
stand at all.
-/

namespace Lightnet

mutual

def Json.compact : Json → Text
  | .literal t => t
  | .string s => ch '"' :: (s ++ [ch '"'])
  | .array as => ch '[' :: (compactItems as ++ [ch ']'])
  | .object ms => ch '{' :: (compactMembers ms ++ [ch '}'])

def compactItems : List Json → Text
  | [] => []
  | a :: as => a.compact ++ if as.isEmpty then [] else ch ',' :: compactItems as

def compactMembers : List (Text × Json) → Text
  | [] => []
  | m :: ms => compactMember m ++ if ms.isEmpty then [] else ch ',' :: compactMembers ms

def compactMember : Text × Json → Text
  | (name, j) => ch '"' :: (name ++ ch '"' :: ch ':' :: j.compact)

end

/-- The compact text is one of the document, whatever may follow it. -/
def Writable (j : Json) : Prop :=
  ∀ rest, Delimited rest → Written j (j.compact ++ rest) rest

theorem delimited_cons {c : Byte} (h : isScalar c = false) (rest : Text) :
    Delimited (c :: rest) := by
  intro d hd
  cases hd
  exact h

theorem items_compact {as : List Json} (hne : as ≠ []) (h : ∀ a ∈ as, Writable a)
    (rest : Text) : Items Written as (compactItems as ++ ch ']' :: rest) rest := by
  induction as with
  | nil => exact absurd rfl hne
  | cons a as ih =>
      have ha := h a List.mem_cons_self
      rw [compactItems]
      cases as with
      | nil =>
          rw [List.isEmpty_nil, if_pos rfl, List.append_nil]
          exact .last (.refl _) (ha _ (delimited_cons (by decide) rest)) (.refl _)
      | cons b as =>
          rw [List.isEmpty_cons, if_neg (by decide), List.append_assoc, List.cons_append]
          refine .cons (.refl _) (ha _ (delimited_cons (by decide) _)) (.refl _) ?_
          exact ih (List.cons_ne_nil b as) fun c hc => h c (List.mem_cons_of_mem a hc)

theorem members_compact {ms : List (Text × Json)} (hne : ms ≠ [])
    (h : ∀ m ∈ ms, RawString m.1 ∧ Writable m.2) (rest : Text) :
    Members Written ms (compactMembers ms ++ ch '}' :: rest) rest := by
  induction ms with
  | nil => exact absurd rfl hne
  | cons m ms ih =>
      obtain ⟨name, j⟩ := m
      obtain ⟨hname, hj⟩ := h (name, j) List.mem_cons_self
      have hm : ∀ rest, Delimited rest →
          Member Written (name, j) (compactMember (name, j) ++ rest) rest := by
        intro rest hrest
        rw [compactMember, List.cons_append, List.append_assoc, List.cons_append, List.cons_append]
        exact .mk hname (.refl _) (.refl _) (hj rest hrest)
      rw [compactMembers]
      cases ms with
      | nil =>
          rw [List.isEmpty_nil, if_pos rfl, List.append_nil]
          exact .last (.refl _) (hm _ (delimited_cons (by decide) rest)) (.refl _)
      | cons m' ms =>
          rw [List.isEmpty_cons, if_neg (by decide), List.append_assoc, List.cons_append]
          refine .cons (.refl _) (hm _ (delimited_cons (by decide) _)) (.refl _) ?_
          exact ih (List.cons_ne_nil m' ms) fun c hc => h c (List.mem_cons_of_mem _ hc)

namespace Writable

theorem literal {t : Text} (h : IsLiteral t) : Writable (.literal t) := by
  intro rest hrest
  rw [Json.compact]
  exact .literal h hrest

theorem string {s : Text} (h : RawString s) : Writable (.string s) := by
  intro rest _
  rw [Json.compact, List.cons_append, List.append_assoc]
  exact .string h

theorem array {as : List Json} (h : ∀ a ∈ as, Writable a) : Writable (.array as) := by
  intro rest _
  rw [Json.compact, List.cons_append, List.append_assoc]
  by_cases hnil : as = []
  · subst hnil
    exact .noItems (.refl _)
  · exact .items (items_compact hnil h rest)

theorem object {ms : List (Text × Json)} (h : ∀ m ∈ ms, RawString m.1 ∧ Writable m.2) :
    Writable (.object ms) := by
  intro rest _
  rw [Json.compact, List.cons_append, List.append_assoc]
  by_cases hnil : ms = []
  · subst hnil
    exact .noMembers (.refl _)
  · exact .members (members_compact hnil h rest)

theorem objectText {ms : List (Text × Json)} (h : Writable (.object ms)) :
    ObjectText ms (Json.object ms).compact := by
  have hwritten := h [] fun c hc => by cases hc
  rw [List.append_nil] at hwritten
  exact ⟨_, [], .refl _, hwritten⟩

end Writable

/-! ### Documents that stand somewhere -/

theorem Items.elements {as : List Json} {t rest : Text} (h : Items Written as t rest) :
    ∀ a ∈ as, ∃ u v, Written a u v := by
  induction h with
  | last _ ha _ =>
      intro a hmem
      rw [List.mem_singleton.mp hmem]
      exact ⟨_, _, ha⟩
  | cons _ ha _ _ ih =>
      intro a hmem
      rcases List.mem_cons.mp hmem with rfl | hmem
      · exact ⟨_, _, ha⟩
      · exact ih a hmem

theorem Member.parts {m : Text × Json} {t rest : Text} (h : Member Written m t rest) :
    RawString m.1 ∧ ∃ u v, Written m.2 u v := by
  cases h with
  | mk hname _ _ ha => exact ⟨hname, _, _, ha⟩

theorem Members.elements {ms : List (Text × Json)} {t rest : Text}
    (h : Members Written ms t rest) :
    ∀ m ∈ ms, RawString m.1 ∧ ∃ u v, Written m.2 u v := by
  induction h with
  | last _ hm _ =>
      intro m hmem
      rw [List.mem_singleton.mp hmem]
      exact hm.parts
  | cons _ hm _ _ ih =>
      intro m hmem
      rcases List.mem_cons.mp hmem with rfl | hmem
      · exact hm.parts
      · exact ih m hmem

/-- A document that is written somewhere can be written anywhere. -/
theorem Written.writable {j : Json} {t rest : Text} (h : Written j t rest) : Writable j := by
  induction j generalizing t rest with
  | literal t =>
      cases h with
      | literal h _ => exact .literal h
  | string s =>
      cases h with
      | string h => exact .string h
  | array as ih =>
      refine .array fun a ha => ?_
      cases h with
      | noItems _ => exact absurd ha List.not_mem_nil
      | items h =>
          obtain ⟨u, v, hwritten⟩ := h.elements a ha
          exact ih a ha hwritten
  | object ms ih =>
      refine .object fun m hm => ?_
      cases h with
      | noMembers _ => exact absurd hm List.not_mem_nil
      | members h =>
          obtain ⟨hname, u, v, hwritten⟩ := h.elements m hm
          exact ⟨hname, ih m hm hwritten⟩

/-- The members of an object can be written in any order. -/
theorem Written.permuted {ms ms' : List (Text × Json)} {t rest : Text}
    (h : Written (.object ms) t rest) (hperm : ms'.Perm ms) : Writable (.object ms') := by
  refine .object fun m hm => ?_
  have hm := hperm.mem_iff.mp hm
  cases h with
  | noMembers _ => exact absurd hm List.not_mem_nil
  | members h =>
      obtain ⟨hname, u, v, hwritten⟩ := h.elements m hm
      exact ⟨hname, hwritten.writable⟩

/-! ### Documents without escapes -/

def isPlainText (s : Text) : Bool :=
  s.all fun c => c ≠ ch '"' ∧ c ≠ ch '\\' ∧ 0x20 ≤ c.toNat

mutual

/-- The strings need no escapes, and the literals are numbers without a sign. -/
def Json.ordinary : Json → Bool
  | .literal t => decide (Digits t ∧ t.head? ≠ some (ch '0'))
  | .string s => isPlainText s
  | .array as => ordinaryItems as
  | .object ms => ordinaryMembers ms

def ordinaryItems : List Json → Bool
  | [] => true
  | a :: as => a.ordinary && ordinaryItems as

def ordinaryMembers : List (Text × Json) → Bool
  | [] => true
  | m :: ms => ordinaryMember m && ordinaryMembers ms

def ordinaryMember : Text × Json → Bool
  | (name, j) => isPlainText name && j.ordinary

end

theorem rawString_of_isPlainText {s : Text} (h : isPlainText s = true) : RawString s :=
  rawString_of_plain fun c hc => of_decide_eq_true (List.all_eq_true.mp h c hc)

theorem ordinary_items {as : List Json} (h : ordinaryItems as = true) :
    ∀ a ∈ as, a.ordinary = true := by
  induction as with
  | nil => simp
  | cons a as ih =>
      rw [ordinaryItems, Bool.and_eq_true] at h
      exact List.forall_mem_cons.mpr ⟨h.1, ih h.2⟩

theorem ordinary_members {ms : List (Text × Json)} (h : ordinaryMembers ms = true) :
    ∀ m ∈ ms, RawString m.1 ∧ m.2.ordinary = true := by
  induction ms with
  | nil => simp
  | cons m ms ih =>
      obtain ⟨name, j⟩ := m
      rw [ordinaryMembers, ordinaryMember, Bool.and_eq_true, Bool.and_eq_true] at h
      exact List.forall_mem_cons.mpr ⟨⟨rawString_of_isPlainText h.1.1, h.1.2⟩, ih h.2⟩

theorem Json.writable_of_ordinary {j : Json} (h : j.ordinary = true) : Writable j := by
  induction j with
  | literal t =>
      rw [ordinary] at h
      have hdigits := of_decide_eq_true h
      exact .literal (hdigits.1.isLiteral hdigits.2)
  | string s =>
      rw [ordinary] at h
      exact .string (rawString_of_isPlainText h)
  | array as ih =>
      rw [ordinary] at h
      exact .array fun a ha => ih a ha (ordinary_items h a ha)
  | object ms ih =>
      rw [ordinary] at h
      refine .object fun m hm => ?_
      obtain ⟨hname, hj⟩ := ordinary_members h m hm
      exact ⟨hname, ih m hm hj⟩

end Lightnet
