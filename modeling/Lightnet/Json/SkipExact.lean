import Lightnet.Json.Document

/-!
# Skipping a document

On a text that a document stands in front of, skipping ends just behind the document. The fuel
comes from the walk, so it is enough to find some.
-/

namespace Lightnet

/-- With some fuel the value is skipped. -/
def Skips (t rest : Text) : Prop := ∃ n, jsonSkipValue n t = .ok (true, rest)

/-- With some fuel the rest of the container is skipped. -/
def Leaves (k : Container) (t rest : Text) : Prop := ∃ n, skipContainer k n t = .ok (true, rest)

theorem skipContainer_mono {k : Container} {n m : ℕ} {p : Text} {x : Bool × Text}
    (h : skipContainer k n p = .ok x) (hle : n ≤ m) : skipContainer k m p = .ok x := by
  induction m, hle using Nat.le_induction with
  | base => exact h
  | succ m _ ih =>
      cases k with
      | object => exact (skip_succ m).1 p x ih
      | array => exact (skip_succ m).2.1 p x ih

/-- A value that is skipped with some fuel is skipped with the fuel its text needs. -/
theorem Skips.enough {t rest : Text} (h : Skips t rest) {n : ℕ} (hn : 2 * t.length + 2 ≤ n) :
    jsonSkipValue n t = .ok (true, rest) := by
  obtain ⟨m, hm⟩ := h
  have hmore := jsonSkipValue_mono hm (Nat.le_max_left m n)
  have hnot := (jsonSkipValue_ok_iff (hn.trans (Nat.le_max_right m n))).mp ⟨_, hmore⟩
  obtain ⟨x, hx⟩ := (jsonSkipValue_ok_iff hn).mpr hnot
  have hsame := jsonSkipValue_mono hx (Nat.le_max_right m n)
  rw [hx, ← Except.ok.inj (hsame.symm.trans hmore)]

theorem Blank.ne_nil {t u : Text} {c : Byte} (h : Blank t (c :: u)) : t ≠ [] := by
  obtain ⟨d, t', rfl, _⟩ := h.head
  exact List.cons_ne_nil d t'

/-! ### One round of a container -/

theorem jsonSkipArray_round {t q : Text} {c : Byte} (ht : t ≠ []) (hws : jsonSkipWs t = c :: q)
    (n : ℕ) : jsonSkipArray (n + 1) t =
      if c = ch ']' then .ok (true, q)
      else if c = ch ',' then jsonSkipArray n q
      else goOn (jsonSkipValue n (c :: q)) (jsonSkipArray n) := by
  cases t with
  | nil => exact absurd rfl ht
  | cons d t =>
      rw [jsonSkipArray, hws]
      rfl

theorem jsonSkipObject_round {t q : Text} {c : Byte} (ht : t ≠ []) (hws : jsonSkipWs t = c :: q)
    (n : ℕ) : jsonSkipObject (n + 1) t =
      if c = ch '}' then .ok (true, q)
      else if c = ch ',' then jsonSkipObject n q
      else if c = ch '"' then jsonSkipObject n (jsonSkipQuotedString (c :: q))
      else if c ≠ ch ':' then .ok (false, c :: q)
      else goOn (jsonSkipValue n q) (jsonSkipObject n) := by
  cases t with
  | nil => exact absurd rfl ht
  | cons d t =>
      rw [jsonSkipObject, hws]
      rfl

theorem Leaves.close {t rest : Text} {k : Container} (h : Blank t (k.closer :: rest)) :
    Leaves k t rest := by
  refine ⟨1, ?_⟩
  cases k with
  | object =>
      change jsonSkipObject 1 t = _
      rw [jsonSkipObject_round h.ne_nil (h.skipWs (by decide))]
      exact if_pos rfl
  | array =>
      change jsonSkipArray 1 t = _
      rw [jsonSkipArray_round h.ne_nil (h.skipWs (by decide))]
      exact if_pos rfl

theorem Leaves.comma {t u rest : Text} {k : Container} (h : Blank t (ch ',' :: u))
    (hu : Leaves k u rest) : Leaves k t rest := by
  obtain ⟨n, hn⟩ := hu
  refine ⟨n + 1, ?_⟩
  cases k with
  | object =>
      change jsonSkipObject (n + 1) t = _
      rw [jsonSkipObject_round h.ne_nil (h.skipWs (by decide)), if_neg (by decide), if_pos rfl]
      exact hn
  | array =>
      change jsonSkipArray (n + 1) t = _
      rw [jsonSkipArray_round h.ne_nil (h.skipWs (by decide)), if_neg (by decide), if_pos rfl]
      exact hn

theorem goOn_skips {k : Container} {t u rest : Text} (ht : Skips t u) (hu : Leaves k u rest) :
    ∃ n, goOn (jsonSkipValue n t) (skipContainer k n) = .ok (true, rest) := by
  obtain ⟨n, hn⟩ := ht
  obtain ⟨m, hm⟩ := hu
  refine ⟨max n m, ?_⟩
  rw [jsonSkipValue_mono hn (Nat.le_max_left n m)]
  exact skipContainer_mono hm (Nat.le_max_right n m)

theorem Leaves.element {t u v rest : Text} {c : Byte} (ht : Blank t (c :: u))
    (hc : isScalar c = true) (hu : Skips (c :: u) v) (hv : Leaves .array v rest) :
    Leaves .array t rest := by
  obtain ⟨n, hn⟩ := goOn_skips hu hv
  obtain ⟨hspace, hcomma, hbracket, _⟩ := isScalar_facts hc
  refine ⟨n + 1, ?_⟩
  change jsonSkipArray (n + 1) t = _
  rw [jsonSkipArray_round ht.ne_nil (ht.skipWs hspace), if_neg hbracket, if_neg hcomma]
  exact hn

theorem Leaves.member {t u v w rest name : Text} (hname : RawString name)
    (ht : Blank t (ch '"' :: (name ++ ch '"' :: u))) (hu : Blank u (ch ':' :: v))
    (hv : Skips v w) (hw : Leaves .object w rest) : Leaves .object t rest := by
  obtain ⟨n, hn⟩ := goOn_skips hv hw
  refine ⟨n + 2, ?_⟩
  change jsonSkipObject (n + 2) t = _
  rw [jsonSkipObject_round ht.ne_nil (ht.skipWs (by decide)), if_neg (by decide),
    if_neg (by decide), if_pos rfl]
  have hskip : jsonSkipQuotedString (ch '"' :: (name ++ ch '"' :: u)) = u := by
    rw [jsonSkipQuotedString, if_pos rfl]
    exact hname.skipQuotedRest u
  rw [hskip, jsonSkipObject_round hu.ne_nil (hu.skipWs (by decide)), if_neg (by decide),
    if_neg (by decide), if_neg (by decide), if_neg (not_not.mpr rfl)]
  exact hn

/-! ### The whole document -/

theorem Skips.blank {t u rest : Text} {c : Byte} (ht : Blank t (c :: u))
    (hc : isSpace c = false) (h : Skips (c :: u) rest) : Skips t rest := by
  obtain ⟨n, hn⟩ := h
  refine ⟨n, ?_⟩
  rw [← hn]
  exact jsonSkipValue_congr n ((ht.skipWs hc).trans ((Blank.refl _).skipWs hc).symm)

theorem Items.leaves {as : List Json} {t rest : Text} (h : Items Written as t rest)
    (ih : ∀ a ∈ as, ∀ u v, Written a u v → Skips u v) : Leaves .array t rest := by
  induction h with
  | last hu ha hv =>
      obtain ⟨c, u, rfl, hc⟩ := ha.start
      exact .element hu hc (ih _ List.mem_cons_self _ _ ha) (.close hv)
  | cons hu ha hv _ ihs =>
      obtain ⟨c, u, rfl, hc⟩ := ha.start
      exact .element hu hc (ih _ List.mem_cons_self _ _ ha)
        (.comma hv (ihs fun a ha => ih a (List.mem_cons_of_mem _ ha)))

theorem Member.leaves {m : Text × Json} {t u v rest : Text} (h : Member Written m u v)
    (ht : Blank t u) (ih : ∀ u v, Written m.2 u v → Skips u v) (hv : Leaves .object v rest) :
    Leaves .object t rest := by
  cases h with
  | mk hname hcolon hvalue ha =>
      have hskips := ih _ _ ha
      obtain ⟨c, w, rfl, hc⟩ := ha.start
      exact .member hname ht hcolon (.blank hvalue (isScalar_facts hc).1 hskips) hv

theorem Members.leaves {ms : List (Text × Json)} {t rest : Text} (h : Members Written ms t rest)
    (ih : ∀ m ∈ ms, ∀ u v, Written m.2 u v → Skips u v) : Leaves .object t rest := by
  induction h with
  | last hu hm hv => exact hm.leaves hu (ih _ List.mem_cons_self) (.close hv)
  | cons hu hm hv _ ihs =>
      exact hm.leaves hu (ih _ List.mem_cons_self)
        (.comma hv (ihs fun m hm => ih m (List.mem_cons_of_mem _ hm)))

theorem Leaves.skips {k : Container} {t rest : Text} (h : Leaves k t rest) :
    Skips ((match k with | .object => ch '{' | .array => ch '[') :: t) rest := by
  obtain ⟨n, hn⟩ := h
  refine ⟨n + 1, ?_⟩
  cases k with
  | object =>
      change jsonSkipValue (n + 1) (ch '{' :: t) = _
      rw [jsonSkipValue, (Blank.refl _).skipWs (by decide)]
      exact hn
  | array =>
      change jsonSkipValue (n + 1) (ch '[' :: t) = _
      rw [jsonSkipValue, (Blank.refl _).skipWs (by decide)]
      exact hn

/-- Over a number or a word the scalar loop runs to its end. -/
theorem skips_literal {t rest : Text} (h : IsLiteral t) (hend : Delimited rest) :
    Skips (t ++ rest) rest := by
  have hscalar : ∀ c ∈ t, isScalar c = true := fun c hc =>
    (isLiteralByte_scalar c (h.literalByte c hc)).1
  have hdrop : (t ++ rest).dropWhile isScalar = rest := by
    rw [List.dropWhile_append_of_pos hscalar]
    cases rest with
    | nil => rfl
    | cons d rest => exact List.dropWhile_cons_of_neg (by simp [hend d rfl])
  cases t with
  | nil => exact absurd rfl h.ne_nil
  | cons c t =>
      obtain ⟨hc, hquote, hobject, harray⟩ :=
        isLiteralByte_scalar c (h.literalByte c List.mem_cons_self)
      refine ⟨1, ?_⟩
      rw [List.cons_append] at hdrop ⊢
      rw [jsonSkipValue, (Blank.refl _).skipWs (isScalar_facts hc).1]
      dsimp only
      rw [if_neg hquote, if_neg hobject, if_neg harray, hdrop]

theorem Written.skips {j : Json} {t rest : Text} (h : Written j t rest) : Skips t rest := by
  induction j generalizing t rest with
  | literal t =>
      cases h with
      | literal h hend => exact skips_literal h hend
  | string s =>
      cases h with
      | string h =>
          refine ⟨1, ?_⟩
          rw [jsonSkipValue, (Blank.refl _).skipWs (by decide)]
          dsimp only
          rw [if_pos rfl, jsonSkipQuotedString, if_pos rfl, h.skipQuotedRest]
  | array as ih =>
      cases h with
      | noItems h => exact Leaves.skips (k := .array) (.close h)
      | items h => exact Leaves.skips (k := .array) (h.leaves fun a ha u v => ih a ha)
  | object ms ih =>
      cases h with
      | noMembers h => exact Leaves.skips (k := .object) (.close h)
      | members h => exact Leaves.skips (k := .object) (h.leaves fun m hm u v => ih m hm)

theorem Written.skipValue {j : Json} {t u rest : Text} (ht : Blank t u) (h : Written j u rest)
    {n : ℕ} (hn : 2 * t.length + 2 ≤ n) : jsonSkipValue n t = .ok (true, rest) := by
  refine Skips.enough ?_ hn
  have hskips := h.skips
  obtain ⟨c, v, rfl, hc⟩ := h.start
  exact hskips.blank ht (isScalar_facts hc).1

theorem Written.length_le {j : Json} {t rest : Text} (h : Written j t rest) :
    rest.length ≤ t.length :=
  (follows_jsonSkipValue_ws _ t le_rfl).length_le (h.skipValue (.refl t) le_rfl)

end Lightnet
