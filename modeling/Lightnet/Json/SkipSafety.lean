import Lightnet.Json.SimpleJson
import Mathlib.Data.List.DropRight
import Mathlib.Data.List.TakeWhile
import Mathlib.Logic.Relation

/-!
# Where skipping a value goes wrong

The nested calls of the skip functions are flattened to a walk over the text with a stack of the
containers it is in. The walk is trapped where the rest of the text is white space, which a
container is read past, and at a closing brace in an array, which the array never gets past.
-/

namespace Lightnet

/-! ### Lengths -/

theorem length_jsonSkipWs_le (p : Text) : (jsonSkipWs p).length ≤ p.length :=
  List.length_dropWhile_le isSpace p

theorem length_of_jsonSkipWs_eq {p q : Text} {c : Byte} (h : jsonSkipWs p = c :: q) :
    q.length < p.length := by
  have hle := length_jsonSkipWs_le p
  rw [h, List.length_cons] at hle
  exact hle

theorem jsonSkipWs_eq_self {p q : Text} {c : Byte} (h : jsonSkipWs p = c :: q) :
    jsonSkipWs (c :: q) = c :: q := by
  have hidem := List.dropWhile_idempotent (p := isSpace) p
  unfold jsonSkipWs at h ⊢
  rwa [h] at hidem

theorem length_jsonSkipQuotedRest_le (n : ℕ) :
    ∀ p : Text, p.length ≤ n → (jsonSkipQuotedRest p).length ≤ p.length := by
  induction n with
  | zero =>
      intro p hp
      rw [List.length_eq_zero_iff.mp (Nat.le_zero.mp hp)]
      exact le_rfl
  | succ n ih =>
      intro p hp
      match p with
      | [] => exact le_rfl
      | [c] =>
        simp only [jsonSkipQuotedRest]
        split_ifs <;> simp
      | c :: d :: q =>
        simp only [List.length_cons] at hp
        have hq := ih q (by omega)
        have hd := ih (d :: q) (by simp only [List.length_cons]; omega)
        rw [jsonSkipQuotedRest]
        split_ifs
        · simp
        · simp only [List.length_cons]
          omega
        · simp only [List.length_cons] at hd ⊢
          omega

theorem length_jsonSkipQuotedString_le (q : Text) :
    (jsonSkipQuotedString (ch '"' :: q)).length ≤ q.length := by
  simp only [jsonSkipQuotedString, if_true]
  exact length_jsonSkipQuotedRest_le q.length q le_rfl

/-! ### The walk -/

inductive Container where
  | object | array
  deriving DecidableEq

def Container.closer : Container → Byte
  | object => ch '}'
  | array => ch ']'

/-- The containers the walk is in, the innermost first, and the rest of the text. -/
abbrev Place := List Container × Text

/-- The place after a scalar, or inside the container that is opened. -/
def openValue (outer : List Container) : Text → Place
  | [] => (outer, [])
  | c :: q =>
    if c = ch '"' then (outer, jsonSkipQuotedString (c :: q))
    else if c = ch '{' then (.object :: outer, q)
    else if c = ch '[' then (.array :: outer, q)
    else (outer, (c :: q).dropWhile isScalar)

/-- The next place, if the walk is in a container and not at a byte that ends it. -/
def walk : Place → Option Place
  | ([], _) => none
  | (k :: outer, p) =>
    match jsonSkipWs p with
    | [] => none
    | c :: q =>
      if c = k.closer then some (outer, q)
      else if c = ch ',' then some (k :: outer, q)
      else
        match k with
        | .array => if c = ch '}' then none else some (openValue (.array :: outer) (c :: q))
        | .object =>
          if c = ch '"' then some (.object :: outer, jsonSkipQuotedString (c :: q))
          else if c = ch ':' then
            match jsonSkipWs q with
            | [] => none
            | d :: r => some (openValue (.object :: outer) (d :: r))
          else none

/-- Only white space is left of a container, or an array meets a closing brace. -/
def AtTrap : Place → Prop
  | ([], _) => False
  | (k :: _, p) => (p ≠ [] ∧ jsonSkipWs p = []) ∨
      (k = .array ∧ (jsonSkipWs p).head? = some (ch '}'))

def Walks : Place → Place → Prop := Relation.ReflTransGen fun x y => walk x = some y

def Trapped (x : Place) : Prop := ∃ y, Walks x y ∧ AtTrap y

/-- The walk ends at a byte no container expects or at the end of the text. -/
def GivesUp (x : Place) : Prop := ∃ y, Walks x y ∧ walk y = none ∧ ¬AtTrap y

theorem walk_of_atTrap {x : Place} (h : AtTrap x) : walk x = none := by
  match x with
  | ([], _) => rfl
  | (k :: outer, p) =>
    rcases h with ⟨_, hp⟩ | ⟨rfl, hp⟩
    · simp only [walk, hp]
    · obtain ⟨q, hq⟩ : ∃ q, jsonSkipWs p = ch '}' :: q := by
        cases hs : jsonSkipWs p with
        | nil => rw [hs] at hp; contradiction
        | cons c q =>
            rw [hs, List.head?_cons, Option.some.injEq] at hp
            exact ⟨q, by rw [hp]⟩
      simp only [walk, hq]
      rfl

theorem trapped_of_walks {x y : Place} (h : Walks x y) (hx : Trapped x) : Trapped y := by
  induction h with
  | refl => exact hx
  | tail _ hstep ih =>
      obtain ⟨z, hz, htrap⟩ := ih
      rcases hz.cases_head with rfl | ⟨w, hw, hwz⟩
      · rw [walk_of_atTrap htrap] at hstep
        contradiction
      · rw [hstep, Option.some.injEq] at hw
        exact ⟨z, hw ▸ hwz, htrap⟩

theorem atTrap_of_trapped {x : Place} (hx : Trapped x) (h : walk x = none) : AtTrap x := by
  obtain ⟨y, hy, htrap⟩ := hx
  rcases hy.cases_head with rfl | ⟨w, hw, _⟩
  · exact htrap
  · rw [h] at hw
    contradiction

theorem GivesUp.not_trapped {x : Place} (h : GivesUp x) : ¬Trapped x := by
  obtain ⟨y, hy, hnone, htrap⟩ := h
  exact fun hx => htrap (atTrap_of_trapped (trapped_of_walks hy hx) hnone)

theorem not_trapped_of_walks_out {x : Place} {r : Text} (h : Walks x ([], r)) : ¬Trapped x :=
  GivesUp.not_trapped ⟨([], r), h, rfl, fun h => h⟩

/-! ### Skipping follows the walk -/

def skipContainer : Container → ℕ → Text → Except Fault (Bool × Text)
  | .object => jsonSkipObject
  | .array => jsonSkipArray

/-- What skipping has to do with the walk from a place on: it succeeds where the walk comes back
to the outer containers, fails where the walk gives up, and faults where it is trapped. -/
def Follows (res : Except Fault (Bool × Text)) (bound : ℕ) (start : List Container → Place) :
    Prop :=
  match res with
  | .ok (true, r) => r.length ≤ bound ∧ ∀ outer, Walks (start outer) (outer, r)
  | .ok (false, r) => r.length ≤ bound ∧ ∀ outer, GivesUp (start outer)
  | .error _ => ∀ outer, Trapped (start outer)

theorem Follows.of_walks {res : Except Fault (Bool × Text)} {bound bound' : ℕ}
    {start start' : List Container → Place} (h : Follows res bound start) (hle : bound ≤ bound')
    (hwalks : ∀ outer, Walks (start' outer) (start outer)) : Follows res bound' start' := by
  match res, h with
  | .ok (true, r), h => exact ⟨h.1.trans hle, fun outer => (hwalks outer).trans (h.2 outer)⟩
  | .ok (false, r), h =>
    refine ⟨h.1.trans hle, fun outer => ?_⟩
    obtain ⟨y, hy, hend⟩ := h.2 outer
    exact ⟨y, (hwalks outer).trans hy, hend⟩
  | .error f, h =>
    intro outer
    obtain ⟨y, hy, htrap⟩ := h outer
    exact ⟨y, (hwalks outer).trans hy, htrap⟩

theorem Follows.of_walk {res : Except Fault (Bool × Text)} {bound bound' : ℕ}
    {start start' : List Container → Place} (h : Follows res bound start) (hle : bound ≤ bound')
    (hwalk : ∀ outer, walk (start' outer) = some (start outer)) : Follows res bound' start' :=
  h.of_walks hle fun outer => Relation.ReflTransGen.single (hwalk outer)

theorem givesUp_of_walk {x : Place} (h : walk x = none) (htrap : ¬AtTrap x) : GivesUp x :=
  ⟨x, .refl, h, htrap⟩

theorem trapped_of_atTrap {x : Place} (h : AtTrap x) : Trapped x := ⟨x, .refl, h⟩

/-- The array stands still at a closing brace. -/
theorem jsonSkipArray_brace (q : Text) (n : ℕ) :
    jsonSkipArray n (ch '}' :: q) = .error .unfinished := by
  have hws : jsonSkipWs (ch '}' :: q) = ch '}' :: q := List.dropWhile_cons_of_neg (by decide)
  induction n with
  | zero => rfl
  | succ n ih =>
      have hvalue : ∀ m, jsonSkipValue (m + 1) (ch '}' :: q) = .ok (true, ch '}' :: q) := by
        intro m
        have hd : (ch '}' :: q).dropWhile isScalar = ch '}' :: q :=
          List.dropWhile_cons_of_neg (by decide)
        simp only [jsonSkipValue, hws, hd]
        rfl
      simp only [jsonSkipArray, hws]
      cases n with
      | zero => rfl
      | succ m =>
          rw [hvalue]
          exact ih

theorem isScalar_of_ne {c : Byte} {p q : Text} (hws : jsonSkipWs p = c :: q)
    (hcomma : c ≠ ch ',') (hbrace : c ≠ ch '}') (hbracket : c ≠ ch ']') : isScalar c = true := by
  have hspace : isSpace c = false := by
    have h := List.head?_dropWhile_not isSpace p
    unfold jsonSkipWs at hws
    rw [hws] at h
    simpa using h
  simp [isScalar, hcomma, hbrace, hbracket, hspace]

/-- A value is skipped along the walk if the containers of shorter texts are. -/
theorem follows_jsonSkipValue {c : Byte} {q : Text} {n : ℕ} (hws : jsonSkipWs (c :: q) = c :: q)
    (hscalar : isScalar c = true) (hn : 2 * q.length + 3 ≤ n)
    (ih : ∀ k m, 2 * q.length + 2 ≤ m →
      Follows (skipContainer k m q) q.length fun outer => (k :: outer, q)) :
    Follows (jsonSkipValue n (c :: q)) q.length fun outer => openValue outer (c :: q) := by
  obtain ⟨m, rfl⟩ : ∃ m, n = m + 1 := ⟨n - 1, by omega⟩
  simp only [jsonSkipValue, hws, openValue]
  split_ifs with hquote hobject harray
  · subst hquote
    exact ⟨length_jsonSkipQuotedString_le q, fun outer => .refl⟩
  · exact ih .object m (by omega)
  · exact ih .array m (by omega)
  · rw [List.dropWhile_cons_of_pos hscalar]
    exact ⟨List.length_dropWhile_le isScalar q, fun outer => .refl⟩

theorem Follows.mono {res : Except Fault (Bool × Text)} {bound bound' : ℕ}
    {start : List Container → Place} (h : Follows res bound start) (hle : bound ≤ bound') :
    Follows res bound' start := h.of_walks hle fun _ => .refl

/-- In an object a value may also be empty. -/
theorem follows_jsonSkipValue' {c : Byte} {q : Text} {n : ℕ}
    (hws : jsonSkipWs (c :: q) = c :: q) (hn : 2 * q.length + 3 ≤ n)
    (ih : ∀ k m, 2 * q.length + 2 ≤ m →
      Follows (skipContainer k m q) q.length fun outer => (k :: outer, q)) :
    Follows (jsonSkipValue n (c :: q)) (c :: q).length fun outer => openValue outer (c :: q) := by
  by_cases hscalar : isScalar c = true
  · exact (follows_jsonSkipValue hws hscalar hn ih).mono (Nat.le_succ _)
  · obtain ⟨m, rfl⟩ : ∃ m, n = m + 1 := ⟨n - 1, by omega⟩
    have hquote : c ≠ ch '"' := fun h => hscalar (h ▸ by decide)
    have hobject : c ≠ ch '{' := fun h => hscalar (h ▸ by decide)
    have harray : c ≠ ch '[' := fun h => hscalar (h ▸ by decide)
    simp only [jsonSkipValue, hws, openValue, hquote, hobject, harray, if_false,
      List.dropWhile_cons_of_neg hscalar]
    exact ⟨le_rfl, fun outer => .refl⟩

theorem jsonSkipValue_congr (n : ℕ) {p q : Text} (h : jsonSkipWs p = jsonSkipWs q) :
    jsonSkipValue n p = jsonSkipValue n q := by
  cases n with
  | zero => rfl
  | succ m => simp only [jsonSkipValue, h]

/-- How a container goes on after a value. -/
def goOn (res : Except Fault (Bool × Text)) (next : Text → Except Fault (Bool × Text)) :
    Except Fault (Bool × Text) :=
  match res with
  | .ok (true, r) => next r
  | other => other

theorem Follows.andThen {k : Container} {p : Text} {n bound : ℕ}
    {res : Except Fault (Bool × Text)} {inside : List Container → Place}
    (h : Follows res bound inside) (hle : bound ≤ p.length)
    (hwalk : ∀ outer, walk (k :: outer, p) = some (inside (k :: outer)))
    (ih : ∀ r : Text, r.length ≤ bound →
      Follows (skipContainer k n r) r.length fun outer => (k :: outer, r)) :
    Follows (goOn res (skipContainer k n)) p.length fun outer => (k :: outer, p) := by
  match res, h with
  | .ok (true, r), h =>
    refine (ih r h.1).of_walks (h.1.trans hle) fun outer => ?_
    exact Relation.ReflTransGen.head (hwalk outer) (h.2 (k :: outer))
  | .ok (false, r), h =>
    refine ⟨h.1.trans hle, fun outer => ?_⟩
    obtain ⟨y, hy, hend⟩ := h.2 (k :: outer)
    exact ⟨y, .head (hwalk outer) hy, hend⟩
  | .error f, h =>
    intro outer
    obtain ⟨y, hy, htrap⟩ := h (k :: outer)
    exact ⟨y, .head (hwalk outer) hy, htrap⟩

/-- A container that is at its end or at white space to the end. -/
theorem follows_blank {k : Container} {p : Text} (hp : p ≠ []) (hws : jsonSkipWs p = [])
    (f : Fault) (bound : ℕ) : Follows (.error f) bound fun outer => (k :: outer, p) :=
  fun _ => trapped_of_atTrap (Or.inl ⟨hp, hws⟩)

theorem follows_end (k : Container) : Follows (.ok (false, [])) 0 fun outer => (k :: outer, []) := by
  refine ⟨le_rfl, fun outer => givesUp_of_walk rfl ?_⟩
  rintro (⟨h, _⟩ | ⟨_, h⟩)
  · exact h rfl
  · simp [jsonSkipWs] at h

theorem walk_array {p q : Text} {c : Byte} (hws : jsonSkipWs p = c :: q)
    (outer : List Container) :
    walk (.array :: outer, p) =
      if c = ch ']' then some (outer, q)
      else if c = ch ',' then some (.array :: outer, q)
      else if c = ch '}' then none
      else some (openValue (.array :: outer) (c :: q)) := by
  simp only [walk, hws, Container.closer]

theorem walk_object {p q : Text} {c : Byte} (hws : jsonSkipWs p = c :: q)
    (outer : List Container) :
    walk (.object :: outer, p) =
      if c = ch '}' then some (outer, q)
      else if c = ch ',' then some (.object :: outer, q)
      else if c = ch '"' then some (.object :: outer, jsonSkipQuotedString (c :: q))
      else if c = ch ':' then
        match jsonSkipWs q with
        | [] => none
        | d :: r => some (openValue (.object :: outer) (d :: r))
      else none := by
  simp only [walk, hws, Container.closer]

theorem follows_skipArray {p : Text} {n : ℕ} (hn : 2 * p.length + 2 ≤ n)
    (ih : ∀ k m (q : Text), q.length < p.length → 2 * q.length + 2 ≤ m →
      Follows (skipContainer k m q) q.length fun outer => (k :: outer, q)) :
    Follows (jsonSkipArray n p) p.length fun outer => (.array :: outer, p) := by
  obtain ⟨m, rfl⟩ : ∃ m, n = m + 1 := ⟨n - 1, by omega⟩
  match p with
  | [] => exact follows_end .array
  | d :: p' =>
    rw [jsonSkipArray]
    cases hws : jsonSkipWs (d :: p') with
    | nil => exact follows_blank (List.cons_ne_nil d p') hws .overread _
    | cons c q =>
        simp only
        have hlt := length_of_jsonSkipWs_eq hws
        have hidem := jsonSkipWs_eq_self hws
        have hwalk := walk_array hws
        by_cases hclose : c = ch ']'
        · rw [if_pos hclose]
          refine ⟨hlt.le, fun outer => .single ?_⟩
          rw [hwalk, if_pos hclose]
        by_cases hcomma : c = ch ','
        · rw [if_neg hclose, if_pos hcomma]
          refine (ih .array m q hlt (by omega)).of_walk hlt.le fun outer => ?_
          rw [hwalk, if_neg hclose, if_pos hcomma]
        rw [if_neg hclose, if_neg hcomma]
        by_cases hbrace : c = ch '}'
        · have hstuck : jsonSkipArray (m + 1) (c :: q) = .error .unfinished :=
            hbrace ▸ jsonSkipArray_brace q (m + 1)
          simp only [jsonSkipArray, hidem] at hstuck
          rw [if_neg hclose, if_neg hcomma] at hstuck
          rw [hstuck]
          exact fun outer => trapped_of_atTrap (Or.inr ⟨rfl, by rw [hws, hbrace]; rfl⟩)
        · have hvalue := follows_jsonSkipValue (n := m) hidem
            (isScalar_of_ne hws hcomma hbrace hclose) (by omega) fun k l hl => ih k l q hlt hl
          refine hvalue.andThen hlt.le (fun outer => ?_)
            fun r hr => ih .array m r (by omega) (by omega)
          rw [hwalk, if_neg hclose, if_neg hcomma, if_neg hbrace]

theorem follows_skipObject {p : Text} {n : ℕ} (hn : 2 * p.length + 2 ≤ n)
    (ih : ∀ k m (q : Text), q.length < p.length → 2 * q.length + 2 ≤ m →
      Follows (skipContainer k m q) q.length fun outer => (k :: outer, q)) :
    Follows (jsonSkipObject n p) p.length fun outer => (.object :: outer, p) := by
  obtain ⟨m, rfl⟩ : ∃ m, n = m + 1 := ⟨n - 1, by omega⟩
  match p with
  | [] => exact follows_end .object
  | d :: p' =>
    rw [jsonSkipObject]
    cases hws : jsonSkipWs (d :: p') with
    | nil => exact follows_blank (List.cons_ne_nil d p') hws .overread _
    | cons c q =>
        simp only
        have hlt := length_of_jsonSkipWs_eq hws
        have hwalk := walk_object hws
        have hnotTrap : ∀ outer, ¬AtTrap (.object :: outer, d :: p') := by
          rintro outer (⟨_, h⟩ | ⟨h, _⟩)
          · rw [hws] at h
            contradiction
          · contradiction
        by_cases hclose : c = ch '}'
        · rw [if_pos hclose]
          refine ⟨hlt.le, fun outer => .single ?_⟩
          rw [hwalk, if_pos hclose]
        by_cases hcomma : c = ch ','
        · rw [if_neg hclose, if_pos hcomma]
          refine (ih .object m q hlt (by omega)).of_walk hlt.le fun outer => ?_
          rw [hwalk, if_neg hclose, if_pos hcomma]
        by_cases hquote : c = ch '"'
        · rw [if_neg hclose, if_neg hcomma, if_pos hquote]
          have hle : (jsonSkipQuotedString (c :: q)).length ≤ q.length :=
            hquote ▸ length_jsonSkipQuotedString_le q
          refine (ih .object m _ (by omega) (by omega)).of_walk (hle.trans hlt.le) fun outer => ?_
          rw [hwalk, if_neg hclose, if_neg hcomma, if_pos hquote]
        simp only [hclose, hcomma, hquote, if_false] at hwalk
        rw [if_neg hclose, if_neg hcomma, if_neg hquote]
        by_cases hcolon : c = ch ':'
        · rw [if_neg (not_not.mpr hcolon)]
          simp only [hcolon, if_true] at hwalk
          cases hwsq : jsonSkipWs q with
          | nil =>
              obtain ⟨l, rfl⟩ : ∃ l, m = l + 1 := ⟨m - 1, by omega⟩
              simp only [jsonSkipValue, hwsq] at hwalk ⊢
              exact ⟨Nat.zero_le _, fun outer => givesUp_of_walk (hwalk outer) (hnotTrap outer)⟩
          | cons e r =>
              have hle := length_jsonSkipWs_le q
              rw [hwsq] at hle
              have hr : r.length < q.length := length_of_jsonSkipWs_eq hwsq
              have hidem := jsonSkipWs_eq_self hwsq
              have hvalue := follows_jsonSkipValue' (n := m) hidem (by omega)
                fun k l hl => ih k l r (by omega) hl
              rw [jsonSkipValue_congr m (hwsq.trans hidem.symm)]
              simp only [hwsq] at hwalk
              exact hvalue.andThen (hle.trans hlt.le) hwalk
                fun s hs => ih .object m s (by omega) (by omega)
        · rw [if_pos hcolon]
          refine ⟨hlt, fun outer => givesUp_of_walk ?_ (hnotTrap outer)⟩
          rw [hwalk, if_neg hcolon]

/-- Skipping a container follows the walk that starts in it. -/
theorem follows_skipContainer (k : Container) (n : ℕ) (p : Text) (hn : 2 * p.length + 2 ≤ n) :
    Follows (skipContainer k n p) p.length fun outer => (k :: outer, p) := by
  induction hl : p.length using Nat.strong_induction_on generalizing k n p with
  | _ l ih =>
    have ih' : ∀ k m (q : Text), q.length < p.length → 2 * q.length + 2 ≤ m →
        Follows (skipContainer k m q) q.length fun outer => (k :: outer, q) :=
      fun k m q hq hm => ih q.length (hl ▸ hq) k m q hm rfl
    rw [← hl]
    cases k with
    | object => exact follows_skipObject hn ih'
    | array => exact follows_skipArray hn ih'

theorem follows_jsonSkipValue_ws (n : ℕ) (p : Text) (hn : 2 * p.length + 2 ≤ n) :
    Follows (jsonSkipValue n p) p.length fun outer => openValue outer (jsonSkipWs p) := by
  cases hws : jsonSkipWs p with
  | nil =>
      obtain ⟨m, rfl⟩ : ∃ m, n = m + 1 := ⟨n - 1, by omega⟩
      simp only [jsonSkipValue, hws]
      refine ⟨Nat.zero_le _, fun outer => ?_⟩
      cases outer with
      | nil => exact givesUp_of_walk rfl fun h => h
      | cons k outer => exact (follows_end k).2 outer
  | cons c q =>
      have hlt := length_of_jsonSkipWs_eq hws
      have hidem := jsonSkipWs_eq_self hws
      rw [jsonSkipValue_congr n (hws.trans hidem.symm)]
      exact (follows_jsonSkipValue' hidem (by omega)
        fun k m hm => follows_skipContainer k m q hm).mono hlt

theorem Follows.ok_iff {res : Except Fault (Bool × Text)} {bound : ℕ}
    {start : List Container → Place} (h : Follows res bound start) :
    (∃ x, res = .ok x) ↔ ¬Trapped (start []) := by
  match res, h with
  | .ok (true, r), h => exact iff_of_true ⟨_, rfl⟩ (not_trapped_of_walks_out (h.2 []))
  | .ok (false, r), h => exact iff_of_true ⟨_, rfl⟩ (h.2 []).not_trapped
  | .error f, h => exact iff_of_false (by rintro ⟨x, hx⟩; contradiction) (not_not.mpr (h []))

/-- More fuel does not change an answer. -/
theorem skip_succ (n : ℕ) :
    (∀ p x, jsonSkipObject n p = .ok x → jsonSkipObject (n + 1) p = .ok x) ∧
      (∀ p x, jsonSkipArray n p = .ok x → jsonSkipArray (n + 1) p = .ok x) ∧
      ∀ p x, jsonSkipValue n p = .ok x → jsonSkipValue (n + 1) p = .ok x := by
  induction n with
  | zero => exact ⟨fun _ _ h => by contradiction, fun _ _ h => by contradiction,
      fun _ _ h => by contradiction⟩
  | succ n ih =>
      obtain ⟨ihObject, ihArray, ihValue⟩ := ih
      have hgoOn : ∀ (k : Container) q x,
          (∀ p x, skipContainer k n p = .ok x → skipContainer k (n + 1) p = .ok x) →
          goOn (jsonSkipValue n q) (skipContainer k n) = .ok x →
          goOn (jsonSkipValue (n + 1) q) (skipContainer k (n + 1)) = .ok x := by
        intro k q x ihk h
        match hv : jsonSkipValue n q with
        | .error f => simp [goOn, hv] at h
        | .ok (true, r) =>
          rw [hv] at h
          rw [ihValue q _ hv]
          exact ihk r x h
        | .ok (false, r) =>
          rw [hv] at h
          rw [ihValue q _ hv]
          exact h
      refine ⟨fun p x h => ?_, fun p x h => ?_, fun p x h => ?_⟩
      · match p with
        | [] => exact h
        | d :: p =>
          rw [jsonSkipObject] at h ⊢
          cases hws : jsonSkipWs (d :: p) with
          | nil => simp [hws] at h
          | cons c q =>
              simp only [hws] at h ⊢
              split_ifs at h ⊢
              · exact h
              · exact ihObject _ x h
              · exact ihObject _ x h
              · exact h
              · exact hgoOn .object q x ihObject h
      · match p with
        | [] => exact h
        | d :: p =>
          rw [jsonSkipArray] at h ⊢
          cases hws : jsonSkipWs (d :: p) with
          | nil => simp [hws] at h
          | cons c q =>
              simp only [hws] at h ⊢
              split_ifs at h ⊢
              · exact h
              · exact ihArray _ x h
              · exact hgoOn .array (c :: q) x ihArray h
      · rw [jsonSkipValue] at h ⊢
        cases hws : jsonSkipWs p with
        | nil => simpa only [hws] using h
        | cons c q =>
            simp only [hws] at h ⊢
            split_ifs at h ⊢
            · exact h
            · exact ihObject q x h
            · exact ihArray q x h
            · exact h

theorem jsonSkipValue_mono {n m : ℕ} {p : Text} {x : Bool × Text}
    (h : jsonSkipValue n p = .ok x) (hle : n ≤ m) : jsonSkipValue m p = .ok x := by
  induction m, hle using Nat.le_induction with
  | base => exact h
  | succ m _ ih => exact (skip_succ m).2.2 p x ih

theorem Follows.length_le {res : Except Fault (Bool × Text)} {bound : ℕ}
    {start : List Container → Place} (h : Follows res bound start) {b : Bool} {r : Text}
    (hres : res = .ok (b, r)) : r.length ≤ bound := by
  subst hres
  cases b with
  | true => exact h.1
  | false => exact h.1

/-- Skipping the value at the cursor goes wrong. -/
def ValueTrapped (p : Text) : Prop := Trapped (openValue [] (jsonSkipWs p))

theorem jsonSkipValue_ok_iff {n : ℕ} {p : Text} (hn : 2 * p.length + 2 ≤ n) :
    (∃ x, jsonSkipValue n p = .ok x) ↔ ¬ValueTrapped p :=
  (follows_jsonSkipValue_ws n p hn).ok_iff

end Lightnet
