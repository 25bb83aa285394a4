import Lightnet.Json.SkipExact

/-!
# Finding a key

The scan counts brackets and braces byte by byte. It passes over a string as a whole only outside
of nested values, so inside of them the brackets and braces of strings and names count as well.
-/

namespace Lightnet

def isOpener (c : Byte) : Bool := c = ch '{' || c = ch '['

def isCloser (c : Byte) : Bool := c = ch '}' || c = ch ']'

/-- The text behind the colon, if the key stands behind the quote and is followed by its own quote
and a colon. -/
def jsonKeyAt (key p : Text) : Option Text :=
  if key ++ [ch '"'] <+: p then
    match jsonSkipWs (p.drop (key.length + 1)) with
    | [] => none
    | c :: q => if c = ch ':' then some (jsonSkipWs q) else none
  else none

/-- Every round takes a byte, so the first argument need not exceed the length of the text. -/
def jsonFindFrom (key : Text) : ℕ → ℤ → Text → Option Text
  | 0, _, _ => none
  | _ + 1, _, [] => none
  | n + 1, depth, c :: p =>
    if isOpener c then jsonFindFrom key n (depth + 1) p
    else if isCloser c then jsonFindFrom key n (depth - 1) p
    else if depth ≠ 0 ∨ c ≠ ch '"' then jsonFindFrom key n depth p
    else
      match jsonKeyAt key p with
      | some q => some q
      | none => jsonFindFrom key n depth (jsonSkipQuotedRest p)

def jsonFindKey (body key : Text) : Option Text :=
  let p := match jsonSkipWs body with
    | [] => []
    | c :: q => if c = ch '{' then q else c :: q
  jsonFindFrom key p.length 0 p

/-! ### Where the value of a key stands -/

/-- The value of the first member with the name starts at the second text. -/
inductive FirstValue (key : Text) : List (Text × Json) → Text → Text → Prop
  | here {j : Json} {ms : List (Text × Json)} {t u w v rest : Text}
      (ht : Blank t (ch '"' :: (key ++ ch '"' :: u))) (hu : Blank u (ch ':' :: w))
      (hw : Blank w v) (hv : Written j v rest) : FirstValue key ((key, j) :: ms) t v
  | later {m : Text × Json} {ms : List (Text × Json)} {t u v w x : Text} (hne : m.1 ≠ key)
      (ht : Blank t u) (hm : Member Written m u v) (hv : Blank v (ch ',' :: w))
      (hms : FirstValue key ms w x) : FirstValue key (m :: ms) t x

/-- The value of the first member with the key is found, and nothing where there is none. -/
structure FindsMember (body key : Text) (ms : List (Text × Json)) (t : Text) : Prop where
  stands : key ∈ ms.map Prod.fst → ∃ v, FirstValue key ms t v
  found : ∀ v, FirstValue key ms t v → jsonFindKey body key = some v
  missing : key ∉ ms.map Prod.fst → jsonFindKey body key = none

/-! ### Brackets -/

def isBracket (c : Byte) : Bool := isOpener c || isCloser c

def weigh (c : Byte) : ℤ := if isOpener c then 1 else if isCloser c then -1 else 0

mutual

/-- The brackets and braces of a document in their order, with those in its strings and names. -/
def Json.brackets : Json → Text
  | .literal _ => []
  | .string s => s.filter isBracket
  | .array items => ch '[' :: (itemBrackets items ++ [ch ']'])
  | .object members => ch '{' :: (memberBrackets members ++ [ch '}'])

def itemBrackets : List Json → Text
  | [] => []
  | a :: as => a.brackets ++ itemBrackets as

def memberBrackets : List (Text × Json) → Text
  | [] => []
  | (name, a) :: ms => name.filter isBracket ++ (a.brackets ++ memberBrackets ms)

end

/-- The count comes to zero with the last bracket and not before. -/
def ComesLevel : ℤ → Text → Prop
  | d, [] => d = 0
  | d, c :: b => d ≠ 0 ∧ ComesLevel (d + weigh c) b

instance ComesLevel.decide : ∀ (d : ℤ) (b : Text), Decidable (ComesLevel d b)
  | d, [] => inferInstanceAs (Decidable (d = 0))
  | d, c :: b =>
    have := ComesLevel.decide (d + weigh c) b
    inferInstanceAs (Decidable (d ≠ 0 ∧ ComesLevel (d + weigh c) b))

/-- In an array or an object the count comes back to zero only where the value ends. -/
def Json.Level : Json → Prop
  | .literal _ => True
  | .string _ => True
  | .array items => ComesLevel 1 (itemBrackets items ++ [ch ']'])
  | .object members => ComesLevel 1 (memberBrackets members ++ [ch '}'])

/-! ### The scan -/

/-- The answer of the scan from a depth on. -/
def ScansTo (key : Text) (depth : ℤ) (t : Text) (answer : Option Text) : Prop :=
  ∀ n, t.length ≤ n → jsonFindFrom key n depth t = answer

theorem ScansTo.nil (key : Text) (depth : ℤ) : ScansTo key depth [] none := by
  intro n _
  cases n with
  | zero => rfl
  | succ n => rfl

theorem ScansTo.step {key : Text} {depth : ℤ} {c : Byte} {p : Text} {answer : Option Text}
    (h : ScansTo key (depth + weigh c) p answer) (hc : depth ≠ 0 ∨ c ≠ ch '"') :
    ScansTo key depth (c :: p) answer := by
  intro n hn
  cases n with
  | zero => exact absurd hn (by simp)
  | succ n =>
      have hp := h n (Nat.le_of_succ_le_succ hn)
      rw [weigh] at hp
      rw [jsonFindFrom]
      split_ifs at hp ⊢ with hopen hclose
      · exact hp
      · exact hp
      · rw [add_zero] at hp
        exact hp

theorem ScansTo.string {key p : Text} {answer : Option Text} (hkey : jsonKeyAt key p = none)
    (h : ScansTo key 0 (jsonSkipQuotedRest p) answer) : ScansTo key 0 (ch '"' :: p) answer := by
  intro n hn
  cases n with
  | zero => exact absurd hn (by simp)
  | succ n =>
      have hlen := length_jsonSkipQuotedRest_le p.length p le_rfl
      have hp := h n (hlen.trans (Nat.le_of_succ_le_succ hn))
      rw [jsonFindFrom, if_neg (by decide), if_neg (by decide), if_neg (by simp), hkey]
      exact hp

theorem ScansTo.here {key p v : Text} (hkey : jsonKeyAt key p = some v) :
    ScansTo key 0 (ch '"' :: p) (some v) := by
  intro n hn
  cases n with
  | zero => exact absurd hn (by simp)
  | succ n => rw [jsonFindFrom, if_neg (by decide), if_neg (by decide), if_neg (by simp), hkey]

theorem isSpace_cases {c : Byte} (h : isSpace c = true) :
    c = ch ' ' ∨ c = ch '\t' ∨ c = ch '\n' ∨ c = ch '\r' := by
  simpa [isSpace, or_assoc] using h

theorem isLiteralByte_bracket {c : Byte} (h : isLiteralByte c = true) : isBracket c = false := by
  obtain ⟨hscalar, _, hbrace, hbracket⟩ := isLiteralByte_scalar c h
  obtain ⟨_, _, hcloseBracket, hcloseBrace⟩ := isScalar_facts hscalar
  simp [isBracket, isOpener, isCloser, hbrace, hbracket, hcloseBracket, hcloseBrace]

theorem weigh_of_not_bracket {c : Byte} (h : isBracket c = false) : weigh c = 0 := by
  rw [isBracket, Bool.or_eq_false_iff] at h
  rw [weigh, h.1, h.2]
  rfl

theorem weigh_plain (c : Byte) (h : isSpace c = true ∨ isLiteralByte c = true ∨ c = ch ':' ∨
    c = ch ',') : weigh c = 0 ∧ c ≠ ch '"' := by
  rcases h with h | h | rfl | rfl
  · rcases isSpace_cases h with rfl | rfl | rfl | rfl
    · decide
    · decide
    · decide
    · decide
  · exact ⟨weigh_of_not_bracket (isLiteralByte_bracket h), (isLiteralByte_scalar c h).2.1⟩
  · decide
  · decide

theorem ScansTo.plain {key : Text} {x t : Text} {answer : Option Text}
    (hx : ∀ c ∈ x, weigh c = 0 ∧ c ≠ ch '"') (h : ScansTo key 0 t answer) :
    ScansTo key 0 (x ++ t) answer := by
  induction x with
  | nil => exact h
  | cons c x ih =>
      obtain ⟨hweigh, hquote⟩ := hx c List.mem_cons_self
      have hrest := ih fun d hd => hx d (List.mem_cons_of_mem c hd)
      refine ScansTo.step ?_ (.inr hquote)
      rw [hweigh, zero_add]
      exact hrest

theorem ScansTo.blank {key t u : Text} {answer : Option Text} (ht : Blank t u)
    (h : ScansTo key 0 u answer) : ScansTo key 0 t answer := by
  obtain ⟨w, hw, rfl⟩ := ht
  exact h.plain fun c hc => weigh_plain c (.inl (hw c hc))

/-! ### Names and strings -/

theorem not_prefix_escape {key p : Text} (hslash : ch '\\' ∉ key) :
    ¬key ++ [ch '"'] <+: ch '\\' :: p := by
  intro hp
  cases key with
  | nil => exact absurd (List.cons_prefix_cons.mp hp).1 (by decide)
  | cons d key =>
      rw [(List.cons_prefix_cons.mp hp).1] at hslash
      exact hslash List.mem_cons_self

/-- A key that ends with a quote in front of the text is all that stands between the quotes. -/
theorem RawString.eq_of_prefix {s key rest : Text} (h : RawString s) (hquote : ch '"' ∉ key)
    (hslash : ch '\\' ∉ key) ( hprefix : key ++ [ch '"'] <+: s ++ ch '"' :: rest) : key = s := by
  induction h generalizing key with
  | nil =>
      cases key with
      | nil => rfl
      | cons d key =>
          rw [(List.cons_prefix_cons.mp hprefix).1] at hquote
          exact absurd List.mem_cons_self hquote
  | plain hc _ _ _ ih =>
      cases key with
      | nil => exact absurd (List.cons_prefix_cons.mp hprefix).1.symm hc
      | cons d key =>
          obtain ⟨rfl, hrest⟩ := List.cons_prefix_cons.mp hprefix
          exact congrArg (List.cons d) (ih (fun hd => hquote (List.mem_cons_of_mem _ hd))
            (fun hd => hslash (List.mem_cons_of_mem _ hd)) hrest)
  | escape _ _ _ => exact absurd hprefix (not_prefix_escape hslash)
  | unicode _ _ _ _ _ _ => exact absurd hprefix (not_prefix_escape hslash)

theorem jsonKeyAt_self {key u w v : Text} {c : Byte} (hu : Blank u (ch ':' :: w))
    (hw : Blank w (c :: v)) (hc : isSpace c = false) :
    jsonKeyAt key (key ++ ch '"' :: u) = some (c :: v) := by
  have hdrop : (key ++ ch '"' :: u).drop (key.length + 1) = u := by
    rw [← List.drop_drop, List.drop_left]
    rfl
  rw [jsonKeyAt, if_pos ⟨u, by simp⟩, hdrop, hu.skipWs (by decide)]
  dsimp only
  rw [if_pos rfl, hw.skipWs hc]

/-- Neither another name nor a string that no colon follows is taken for the key. -/
theorem RawString.keyAt_eq_none {s key rest : Text} (h : RawString s) (hquote : ch '"' ∉ key)
    (hslash : ch '\\' ∉ key) (hrest : s ≠ key ∨ (jsonSkipWs rest).head? ≠ some (ch ':')) :
    jsonKeyAt key (s ++ ch '"' :: rest) = none := by
  rw [jsonKeyAt]
  split_ifs with hprefix
  · have hs := h.eq_of_prefix hquote hslash hprefix
    subst hs
    have hdrop : (key ++ ch '"' :: rest).drop (key.length + 1) = rest := by
      rw [← List.drop_drop, List.drop_left]
      rfl
    rw [hdrop]
    rcases hrest with hne | hhead
    · exact absurd rfl hne
    · cases hws : jsonSkipWs rest with
      | nil => rfl
      | cons c q =>
          rw [hws] at hhead
          exact if_neg fun hc => hhead (by rw [hc]; rfl)
  · rfl

/-! ### Values -/

theorem ComesLevel.ne_zero {d : ℤ} {b : Text} {c : Byte} (h : ComesLevel d (b ++ [c])) : d ≠ 0 := by
  cases b with
  | nil => exact h.1
  | cons e b => exact h.1

/-- Inside of a value that comes level the scan sees nothing but the count. -/
theorem ScansTo.level {key z t : Text} {d : ℤ} {closer : Byte} {answer : Option Text}
    (h : ScansTo key 0 t answer) (hlevel : ComesLevel d (z.filter isBracket ++ [closer])) :
    ScansTo key d (z ++ closer :: t) answer := by
  induction z generalizing d with
  | nil =>
      refine ScansTo.step ?_ (.inl hlevel.1)
      rw [show d + weigh closer = 0 from hlevel.2]
      exact h
  | cons c z ih =>
      refine ScansTo.step (ih ?_) (.inl hlevel.ne_zero)
      by_cases hc : isBracket c = true
      · rw [List.filter_cons_of_pos hc] at hlevel
        exact hlevel.2
      · rw [List.filter_cons_of_neg hc] at hlevel
        have hweigh : weigh c = 0 := by
          simp only [isBracket, Bool.or_eq_true, not_or, Bool.not_eq_true] at hc
          rw [weigh, if_neg (by simp [hc.1]), if_neg (by simp [hc.2])]
        rw [hweigh, add_zero]
        exact hlevel

/-- The text of a document, with the brackets in it. -/
def Bracketed (b t rest : Text) : Prop := ∃ x, t = x ++ rest ∧ x.filter isBracket = b

theorem Bracketed.cons {b t rest : Text} {c : Byte} (h : Bracketed b t rest)
    (hc : isBracket c = true) : Bracketed (c :: b) (c :: t) rest := by
  obtain ⟨x, rfl, rfl⟩ := h
  exact ⟨c :: x, rfl, List.filter_cons_of_pos hc⟩

theorem Bracketed.append {b b' t u rest : Text} (h : Bracketed b t u) (h' : Bracketed b' u rest) :
    Bracketed (b ++ b') t rest := by
  obtain ⟨x, rfl, rfl⟩ := h
  obtain ⟨y, rfl, rfl⟩ := h'
  exact ⟨x ++ y, (List.append_assoc x y rest).symm, List.filter_append x y⟩

theorem bracketed_blank {t rest : Text} (h : Blank t rest) : Bracketed [] t rest := by
  obtain ⟨w, hw, rfl⟩ := h
  refine ⟨w, rfl, List.filter_eq_nil_iff.mpr fun c hc => ?_⟩
  rcases isSpace_cases (hw c hc) with rfl | rfl | rfl | rfl
  · decide
  · decide
  · decide
  · decide

theorem bracketed_quoted (s rest : Text) :
    Bracketed (s.filter isBracket) (ch '"' :: (s ++ ch '"' :: rest)) rest := by
  refine ⟨ch '"' :: (s ++ [ch '"']), by simp, ?_⟩
  rw [List.filter_cons_of_neg (by decide), List.filter_append]
  simp [show isBracket (ch '"') = false by decide]

theorem Bracketed.skip {b t u rest : Text} {c : Byte} (ht : Blank t (c :: u))
    (hc : isBracket c = false) (h : Bracketed b u rest) : Bracketed b t rest := by
  obtain ⟨x, rfl, rfl⟩ := h
  have hcons : (c :: x).filter isBracket = x.filter isBracket :=
    List.filter_cons_of_neg (by simp [hc])
  exact (bracketed_blank ht).append ⟨c :: x, rfl, hcons⟩

theorem Items.bracketed {as : List Json} {t rest : Text} (h : Items Written as t rest)
    (ih : ∀ a ∈ as, ∀ u v, Written a u v → Bracketed a.brackets u v) :
    Bracketed (itemBrackets as) t (ch ']' :: rest) := by
  induction h with
  | last hu ha hv =>
      have hitem := ih _ List.mem_cons_self _ _ ha
      exact (bracketed_blank hu).append (hitem.append (bracketed_blank hv))
  | cons hu ha hv _ ihs =>
      have hs := ihs fun a ha => ih a (List.mem_cons_of_mem _ ha)
      have hitem := ih _ List.mem_cons_self _ _ ha
      exact (bracketed_blank hu).append (hitem.append (.skip hv (by decide) hs))

theorem Member.bracketed {m : Text × Json} {t rest : Text} (h : Member Written m t rest)
    (ih : ∀ u v, Written m.2 u v → Bracketed m.2.brackets u v) :
    Bracketed (m.1.filter isBracket ++ m.2.brackets) t rest := by
  cases h with
  | mk _ hcolon hvalue ha =>
      refine (bracketed_quoted _ _).append (.skip hcolon (by decide) ?_)
      exact (bracketed_blank hvalue).append (ih _ _ ha)

theorem Members.bracketed {ms : List (Text × Json)} {t rest : Text} (h : Members Written ms t rest)
    (ih : ∀ m ∈ ms, ∀ u v, Written m.2 u v → Bracketed m.2.brackets u v) :
    Bracketed (memberBrackets ms) t (ch '}' :: rest) := by
  induction h with
  | @last m _ _ _ _ hu hm hv =>
      have hmember := hm.bracketed (ih _ List.mem_cons_self)
      obtain ⟨name, a⟩ := m
      rw [memberBrackets, memberBrackets, ← List.append_assoc]
      exact (bracketed_blank hu).append (hmember.append (bracketed_blank hv))
  | @cons m _ _ _ _ _ _ hu hm hv _ ihs =>
      have hs := ihs fun m hm => ih m (List.mem_cons_of_mem _ hm)
      have hmember := hm.bracketed (ih _ List.mem_cons_self)
      obtain ⟨name, a⟩ := m
      rw [memberBrackets, ← List.append_assoc]
      exact (bracketed_blank hu).append (hmember.append (.skip hv (by decide) hs))

theorem Bracketed.close {b t rest : Text} {c : Byte} (h : Bracketed b t (c :: rest))
    (hc : isBracket c = true) : Bracketed (b ++ [c]) t rest := by
  refine h.append ⟨[c], rfl, ?_⟩
  exact List.filter_cons_of_pos hc

theorem Written.bracketed {j : Json} {t rest : Text} (h : Written j t rest) :
    Bracketed j.brackets t rest := by
  induction j generalizing t rest with
  | literal t =>
      cases h with
      | literal h _ =>
          refine ⟨t, rfl, List.filter_eq_nil_iff.mpr fun c hc => ?_⟩
          simp [isLiteralByte_bracket (h.literalByte c hc)]
  | string s =>
      cases h with
      | string _ => exact bracketed_quoted s rest
  | array as ih =>
      cases h with
      | noItems h => exact ((bracketed_blank h).close (by decide)).cons (by decide)
      | items h =>
          exact ((h.bracketed fun a ha u v => ih a ha).close (by decide)).cons (by decide)
  | object ms ih =>
      cases h with
      | noMembers h => exact ((bracketed_blank h).close (by decide)).cons (by decide)
      | members h =>
          exact ((h.bracketed fun m hm u v => ih m hm).close (by decide)).cons (by decide)

theorem ScansTo.container {key b t rest : Text} {opener closer : Byte} {answer : Option Text}
    (h : ScansTo key 0 rest answer) (ht : Bracketed b t (closer :: rest))
    (hopen : isOpener opener = true) (hlevel : ComesLevel 1 (b ++ [closer])) :
    ScansTo key 0 (opener :: t) answer := by
  obtain ⟨z, rfl, rfl⟩ := ht
  refine ScansTo.step ?_ (.inr fun hc => ?_)
  · rw [weigh, if_pos hopen]
    exact h.level hlevel
  · rw [hc] at hopen
    exact absurd hopen (by decide)

/-- A value that comes level is passed over, if no colon follows it. -/
theorem Written.scansTo {j : Json} {key t rest : Text} {answer : Option Text}
    (h : Written j t rest) (hlevel : j.Level) (hquote : ch '"' ∉ key) (hslash : ch '\\' ∉ key)
    (hcolon : (jsonSkipWs rest).head? ≠ some (ch ':')) (hrest : ScansTo key 0 rest answer) :
    ScansTo key 0 t answer := by
  cases h with
  | literal h _ =>
      exact hrest.plain fun c hc => weigh_plain c (.inr (.inl (h.literalByte c hc)))
  | string h =>
      refine .string (h.keyAt_eq_none hquote hslash (.inr hcolon)) ?_
      rw [h.skipQuotedRest]
      exact hrest
  | noItems h => exact hrest.container (bracketed_blank h) (by decide) hlevel
  | items h =>
      exact hrest.container (h.bracketed fun a _ u v ha => ha.bracketed) (by decide) hlevel
  | noMembers h => exact hrest.container (bracketed_blank h) (by decide) hlevel
  | members h =>
      exact hrest.container (h.bracketed fun m _ u v hm => hm.bracketed) (by decide) hlevel

/-! ### Members -/

theorem Blank.no_colon {t rest : Text} {c : Byte} (h : Blank t (c :: rest))
    (hc : isSpace c = false) (hcolon : c ≠ ch ':') : (jsonSkipWs t).head? ≠ some (ch ':') := by
  rw [h.skipWs hc]
  exact fun heq => hcolon (Option.some.inj heq)

theorem Member.scansTo {m : Text × Json} {key t rest : Text} {answer : Option Text}
    (h : Member Written m t rest) (hne : m.1 ≠ key) (hlevel : m.2.Level) (hquote : ch '"' ∉ key)
    (hslash : ch '\\' ∉ key) (hcolon : (jsonSkipWs rest).head? ≠ some (ch ':'))
    (hrest : ScansTo key 0 rest answer) : ScansTo key 0 t answer := by
  cases h with
  | mk hname ht hu ha =>
      refine .string (hname.keyAt_eq_none hquote hslash (.inl hne)) ?_
      rw [hname.skipQuotedRest]
      refine .blank ht (.step ?_ (.inr (by decide)))
      refine .blank hu ?_
      exact ha.scansTo hlevel hquote hslash hcolon hrest

theorem FirstValue.scansTo {ms : List (Text × Json)} {key t v : Text} (h : FirstValue key ms t v)
    (hquote : ch '"' ∉ key) (hslash : ch '\\' ∉ key)
    (hlevel : ∀ m ∈ ms.takeWhile fun m => m.1 ≠ key, m.2.Level) :
    ScansTo key 0 t (some v) := by
  induction h with
  | here ht hu hw hv =>
      obtain ⟨c, w, rfl, hc⟩ := hv.start
      exact .blank ht (.here (jsonKeyAt_self hu hw (isScalar_facts hc).1))
  | later hne ht hm hv _ ih =>
      rw [List.takeWhile_cons_of_pos (by simpa using hne)] at hlevel
      refine .blank ht (hm.scansTo hne (hlevel _ List.mem_cons_self) hquote hslash
        (hv.no_colon (by decide) (by decide)) ?_)
      refine .blank hv (.step ?_ (.inr (by decide)))
      exact ih fun m hm => hlevel m (List.mem_cons_of_mem _ hm)

/-- Behind the object there is nothing to find. -/
theorem scansTo_end {key t rest : Text} (ht : Blank t (ch '}' :: rest)) (hrest : Blank rest []) :
    ScansTo key 0 t none := by
  obtain ⟨w, hw, rfl⟩ := hrest
  have hblank : ∀ x : Text, (∀ c ∈ x, isSpace c = true) → ScansTo key (-1) x none := by
    intro x hx
    induction x with
    | nil => exact .nil key (-1)
    | cons c x ih =>
        refine .step ?_ (.inl (by decide))
        rw [(weigh_plain c (.inl (hx c List.mem_cons_self))).1]
        exact ih fun d hd => hx d (List.mem_cons_of_mem c hd)
  refine .blank ht (.step ?_ (.inr (by decide)))
  rw [List.append_nil]
  exact hblank w hw

theorem Members.scansTo_none {ms : List (Text × Json)} {key t rest : Text}
    (h : Members Written ms t rest) (hrest : Blank rest []) (hmissing : key ∉ ms.map Prod.fst)
    (hquote : ch '"' ∉ key) (hslash : ch '\\' ∉ key) (hlevel : ∀ m ∈ ms, m.2.Level) :
    ScansTo key 0 t none := by
  induction h with
  | last hu hm hv =>
      have hne : _ ≠ key := fun hkey => hmissing (by rw [← hkey]; exact List.mem_cons_self)
      refine .blank hu (hm.scansTo hne (hlevel _ List.mem_cons_self) hquote hslash
        (hv.no_colon (by decide) (by decide)) ?_)
      exact scansTo_end hv hrest
  | cons hu hm hv _ ih =>
      have hne : _ ≠ key := fun hkey => hmissing (by rw [← hkey]; exact List.mem_cons_self)
      refine .blank hu (hm.scansTo hne (hlevel _ List.mem_cons_self) hquote hslash
        (hv.no_colon (by decide) (by decide)) ?_)
      refine .blank hv (.step ?_ (.inr (by decide)))
      exact ih hrest (fun hkey => hmissing (List.mem_cons_of_mem _ hkey))
          fun m hm => hlevel m (List.mem_cons_of_mem _ hm)

theorem Members.firstValue {ms : List (Text × Json)} {key t rest : Text}
    (h : Members Written ms t rest) (hkey : key ∈ ms.map Prod.fst) :
    ∃ v, FirstValue key ms t v := by
  have hhere : ∀ {m : Text × Json} {ms t u v}, Blank t u → Member Written m u v → m.1 = key →
      ∃ v, FirstValue key (m :: ms) t v := by
    intro m ms t u v ht hm hname
    cases hm with
    | mk _ hcolon hvalue ha =>
        cases hname
        exact ⟨_, .here ht hcolon hvalue ha⟩
  induction h with
  | last hu hm _ => exact hhere hu hm (List.mem_singleton.mp hkey).symm
  | @cons m _ _ _ _ _ _ hu hm hv _ ih =>
      by_cases hname : m.1 = key
      · exact hhere hu hm hname
      · have hlater := (List.mem_cons.mp hkey).resolve_left fun h => hname h.symm
        obtain ⟨v, hfirst⟩ := ih hlater
        exact ⟨v, .later hname hu hm hv hfirst⟩

/-- In a text that is an object, with a key without quotes and backslashes, the scan finds what it
is to find, if the arrays and objects in front of the member come level. -/
theorem jsonFindKey_finds {body t rest key : Text} {ms : List (Text × Json)}
    (hbody : Blank body (ch '{' :: t)) (h : Written (.object ms) (ch '{' :: t) rest)
    (hrest : Blank rest []) (hquote : ch '"' ∉ key) (hslash : ch '\\' ∉ key)
    (hlevel : ∀ m ∈ ms.takeWhile fun m => m.1 ≠ key, m.2.Level) : FindsMember body key ms t := by
  have hfind : ∀ answer, ScansTo key 0 t answer → jsonFindKey body key = answer := by
    intro answer hscan
    rw [jsonFindKey, hbody.skipWs (by decide)]
    exact hscan t.length le_rfl
  refine ⟨fun hkey => ?_, fun v hv => hfind _ (hv.scansTo hquote hslash hlevel), fun hkey => ?_⟩
  · cases h with
    | noMembers _ => exact absurd hkey List.not_mem_nil
    | members h => exact h.firstValue hkey
  · apply hfind
    have hall : ms.takeWhile (fun m => m.1 ≠ key) = ms := by
      refine List.takeWhile_eq_self_iff.mpr fun m hm => decide_eq_true fun hname => ?_
      exact hkey (hname ▸ List.mem_map_of_mem hm)
    rw [hall] at hlevel
    cases h with
    | noMembers h => exact scansTo_end h hrest
    | members h => exact h.scansTo_none hrest hkey hquote hslash hlevel

theorem isLiteral_digit {c : Byte} (h : isDigit c = true) : IsLiteral [c] := by
  by_cases hzero : c = ch '0'
  · exact .number ⟨[], [c], [], [], rfl, .inl rfl, .inl (by rw [hzero]), .inl rfl, .inl rfl⟩
  · refine .number ⟨[], [c], [], [], rfl, .inl rfl, .inr ⟨⟨List.cons_ne_nil c [], ?_⟩, ?_⟩,
      .inl rfl, .inl rfl⟩
    · exact fun d hd => List.mem_singleton.mp hd ▸ h
    · exact fun heq => hzero (Option.some.inj heq)

theorem jsonFindKey_finds_nested :
    FindsMember (bytes "\x7b\"a\":[\x7b\"b\":\"\\\"\"\x7d],\"b\":1\x7d") (bytes "b")
      [(bytes "a", .array [.object [(bytes "b", .string (bytes "\\\""))]]),
        (bytes "b", .literal (bytes "1"))]
      (bytes "\"a\":[\x7b\"b\":\"\\\"\"\x7d],\"b\":1\x7d") := by
  have hname : ∀ s : String, s ∈ ["a", "b"] → RawString (bytes s) := by
    intro s hs
    simp only [List.mem_cons, List.not_mem_nil, or_false] at hs
    rcases hs with rfl | rfl
    · exact .plain (by decide) (by decide) (by decide) .nil
    · exact .plain (by decide) (by decide) (by decide) .nil
  have hone : IsLiteral (bytes "1") := isLiteral_digit (by decide)
  have hinner : Written (.object [(bytes "b", .string (bytes "\\\""))])
      (bytes "\x7b\"b\":\"\\\"\"\x7d],\"b\":1\x7d") (bytes "],\"b\":1\x7d") :=
    .members (.last (.refl _) (.mk (hname "b" (by decide)) (.refl _) (.refl _)
      (.string (.escape (by rfl) .nil))) (.refl _))
  refine jsonFindKey_finds (.refl _) ?_ (Blank.refl []) (by decide) (by decide) ?_
  · refine .members (.cons (.refl _) (.mk (hname "a" (by decide)) (.refl _) (.refl _)
      (.items (.last (.refl _) hinner (.refl _)))) (.refl _) ?_)
    exact .last (.refl _) (.mk (hname "b" (by decide)) (.refl _) (.refl _)
      (.literal hone (by decide))) (.refl _)
  · intro m hm
    obtain rfl := List.mem_singleton.mp (show m ∈ [(bytes "a", _)] from hm)
    change ComesLevel 1 _
    decide +kernel

/-- A brace and an escaped quote in a nested string: the scan comes out in the nested value. -/
theorem jsonFindKey_nested_hit :
    ∃ ms t, Written (.object ms) (ch '{' :: t) [] ∧
      t = bytes "\"a\":\x7b\"x\":\"\x7d\\\"\",\"id\":7\x7d,\"id\":1\x7d" ∧
      FirstValue (bytes "id") ms t (bytes "1\x7d") ∧
      jsonFindKey (ch '{' :: t) (bytes "id") = some (bytes "7\x7d,\"id\":1\x7d") := by
  have hplain : ∀ s : Text, (∀ c ∈ s, c ≠ ch '"' ∧ c ≠ ch '\\' ∧ 0x20 ≤ c.toNat) → RawString s := by
    intro s hs
    induction s with
    | nil => exact .nil
    | cons c s ih =>
        obtain ⟨hquote, hslash, hcontrol⟩ := hs c List.mem_cons_self
        exact .plain hquote hslash hcontrol (ih fun d hd => hs d (List.mem_cons_of_mem c hd))
  have hid : RawString (bytes "id") := hplain _ (by decide)
  have hstring : RawString (bytes "\x7d\\\"") :=
    .plain (by decide) (by decide) (by decide) (.escape (by rfl) .nil)
  have hinner : Written
      (.object [(bytes "x", .string (bytes "\x7d\\\"")), (bytes "id", .literal (bytes "7"))])
      (bytes "\x7b\"x\":\"\x7d\\\"\",\"id\":7\x7d,\"id\":1\x7d") (bytes ",\"id\":1\x7d") := by
    refine .members (.cons (.refl _) (.mk (hplain (bytes "x") (by decide)) (.refl _) (.refl _)
      (.string hstring)) (.refl _) ?_)
    exact .last (.refl _) (.mk hid (.refl _) (.refl _) (.literal (isLiteral_digit (by decide))
      (by decide))) (.refl _)
  have hone : Written (.literal (bytes "1")) (bytes "1\x7d") (bytes "\x7d") :=
    .literal (isLiteral_digit (by decide)) (by decide)
  have ha : Member Written (bytes "a", _) (bytes
      "\"a\":\x7b\"x\":\"\x7d\\\"\",\"id\":7\x7d,\"id\":1\x7d") (bytes ",\"id\":1\x7d") :=
    .mk (hplain (bytes "a") (by decide)) (.refl _) (.refl _) hinner
  refine ⟨_, _, .members (.cons (.refl _) ha (.refl _) (.last (.refl _)
    (.mk hid (.refl _) (.refl _) hone) (.refl _))), rfl, ?_, by decide +kernel⟩
  exact .later (by decide) (.refl _) ha (.refl _) (.here (.refl _) (.refl _) (.refl _) hone)

end Lightnet
