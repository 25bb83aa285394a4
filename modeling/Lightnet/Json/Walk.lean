import Lightnet.Json.Grammar
import Lightnet.Json.Value

/-!
# Walking over a document

A parser that is started in front of a document and is to stop just behind it, unless it rejects
the text. The loops over the elements of a list and over the members of an object do so where
every round stops behind its own value; a property of what they have collected is carried along.
-/

namespace Lightnet

/-- The rest of a list behind its bracket. -/
def ElementsText (as : List Json) (t rest : Text) : Prop :=
  (as = [] ∧ Blank t (ch ']' :: rest)) ∨ Items Written as t rest

/-- The rest of an object behind its brace. -/
def MembersText (ms : List (Text × Json)) (t rest : Text) : Prop :=
  (ms = [] ∧ Blank t (ch '}' :: rest)) ∨ Members Written ms t rest

namespace Parse

variable {α β σ ω : Type}

/-- Started at the first text the parser stops at the second, with a value that has the property,
unless it rejects. -/
def Reads (c : Parse α) (t rest : Text) (P : α → Prop) : Prop :=
  ∀ a q, c t = .ok (a, q) → q = rest ∧ P a

namespace Reads

variable {t u rest : Text} {P : α → Prop}

theorem pure {a : α} (h : P a) : Reads (Pure.pure a) t t P := by
  intro b q hrun
  cases hrun
  exact ⟨rfl, h⟩

theorem reject (errMsg : Option Text) : Reads (Parse.reject errMsg) t rest P := by
  intro a q hrun
  cases hrun

theorem bind {c : Parse α} {f : α → Parse β} {Q : α → Prop} {P : β → Prop} (hc : Reads c t u Q)
    (hf : ∀ a, Q a → Reads (f a) u rest P) : Reads (c >>= f) t rest P := by
  intro b q hrun
  obtain ⟨x, hx, hrest⟩ := bind_eq_ok.mp hrun
  obtain ⟨hu, hQ⟩ := hc x.1 x.2 hx
  rw [hu] at hrest
  exact hf x.1 hQ b q hrest

theorem imp {c : Parse α} {Q : α → Prop} (h : Reads c t rest Q) (hQ : ∀ a, Q a → P a) :
    Reads c t rest P := by
  intro a q hrun
  obtain ⟨hq, ha⟩ := h a q hrun
  exact ⟨hq, hQ a ha⟩

theorem ite {c d : Parse α} {b : Prop} [Decidable b] (hc : b → Reads c t rest P)
    (hd : ¬b → Reads d t rest P) : Reads (if b then c else d) t rest P := by
  split_ifs with hb
  · exact hc hb
  · exact hd hb

theorem ensure (errMsg : Option Text) (b : Bool) :
    Reads (Parse.ensure errMsg b) t t fun _ => b = true := by
  intro a q hrun
  obtain ⟨hb, hx⟩ := ensure_eq_ok.mp hrun
  exact ⟨congrArg Prod.snd hx, hb⟩

theorem lift {e : Except (Option Text) α} (h : ∀ a, e = .ok a → P a) :
    Reads (Parse.lift e) t t P := by
  intro a q hrun
  obtain ⟨ha, hq⟩ := lift_eq_ok.mp hrun
  exact ⟨hq, h a ha⟩

end Reads

/-! ### Values -/

section

variable {j : Json} {t rest : Text}

theorem reads_peek (h : Written j t rest) : Reads peek t t fun c => c = t.head? := by
  obtain ⟨c, u, rfl, hc⟩ := h.start
  intro a q hrun
  have hws : jsonSkipWs (c :: u) = c :: u := (Blank.refl _).skipWs (isScalar_facts hc).1
  cases hrun
  exact ⟨hws, by rw [hws]⟩

/-- A string is read up to what fits into the buffer. -/
theorem reads_string (h : Written j t rest) (errMsg : Option Text) (outLen : ℕ) :
    Reads (readOr errMsg (jsonReadString outLen)) t rest fun s =>
      s = cString (j.text.take (outLen - 1)) := by
  intro s q hrun
  obtain ⟨raw, x, rfl, hx, hs, hq⟩ := h.readString (readOr_eq_ok.mp hrun)
  refine ⟨hq, hs.trans ?_⟩
  rw [Json.text, hx.decoded, Option.getD_some]

theorem reads_uint (h : Written j t rest) (hplain : j.Plain) (errMsg : Option Text) :
    Reads (readOr errMsg jsonReadUInt) t rest fun v => j.number = v ∧ v ≤ 65535 := by
  intro v q hrun
  obtain ⟨hv, hle, hq⟩ := h.readUInt_plain hplain (readOr_eq_ok.mp hrun)
  exact ⟨hq, hv, hle⟩

theorem reads_uintWhere (h : Written j t rest) (hplain : j.Plain) (errMsg : Option Text)
    (accept : ℕ → Bool) : Reads (uintWhere errMsg accept) t rest fun v =>
      j.number = v ∧ v ≤ 65535 ∧ accept v = true := by
  refine (reads_uint h hplain errMsg).bind fun v hv => (Reads.ensure _ _).bind fun _ haccept => ?_
  exact .pure ⟨hv.1, hv.2, haccept⟩

theorem reads_bool (h : Written j t rest) (errMsg : Option Text) :
    Reads (readOr errMsg jsonReadBool) t rest fun _ => True :=
  fun _ _ hrun => ⟨h.readBool (readOr_eq_ok.mp hrun), trivial⟩

theorem reads_float (h : Written j t rest) (hplain : j.NoExponent) (errMsg : Option Text) :
    Reads (readOr errMsg jsonReadFloat) t rest fun _ => True :=
  fun _ _ hrun => ⟨h.readFloat hplain (readOr_eq_ok.mp hrun), trivial⟩

/-- With any fuel that is enough a value is passed over. -/
theorem reads_skipUnknown (h : Written j t rest) (fuel : ℕ) :
    Reads (skipUnknown (jsonSkipValue fuel)) t rest fun _ => True := by
  intro a q hrun
  refine ⟨?_, trivial⟩
  unfold skipUnknown at hrun
  cases hskip : jsonSkipValue fuel t with
  | error f =>
      rw [hskip] at hrun
      cases hrun
  | ok x =>
      rw [hskip] at hrun
      cases hrun
      have hmore := jsonSkipValue_mono hskip (Nat.le_max_left fuel (2 * t.length + 2))
      have hexact := h.skipValue (.refl t) (Nat.le_max_right fuel (2 * t.length + 2))
      rw [hexact] at hmore
      cases hmore
      rfl

theorem reads_enter (h : Written j t rest) (errMsg : Option Text) (opener : Byte) :
    Reads (enter errMsg (jsonEnter opener)) t t.tail fun _ => t.head? = some opener := by
  obtain ⟨c, u, rfl, hc⟩ := h.start
  intro a q hrun
  have hopen := enter_eq_ok.mp hrun
  rw [jsonEnter, (Blank.refl _).skipWs (isScalar_facts hc).1] at hopen
  dsimp only at hopen
  split_ifs at hopen with heq
  · cases hopen
    exact ⟨rfl, congrArg some heq⟩
  · cases hopen

/-- White space in front of a value that is entered makes no difference. -/
theorem Reads.enterBlank {errMsg : Option Text} {opener : Byte} {f : Unit → Parse α} {u : Text}
    {P : α → Prop} (ht : Blank t u) (hj : Written j u rest)
    (h : Reads (enter errMsg (jsonEnter opener) >>= f) u rest P) :
    Reads (enter errMsg (jsonEnter opener) >>= f) t rest P := by
  have hopen : jsonEnter opener t = jsonEnter opener u := by
    rw [jsonEnter, jsonEnter, ht.skipWs_written hj, (Blank.refl u).skipWs_written hj]
  have hsame : enter errMsg (jsonEnter opener) t = enter errMsg (jsonEnter opener) u := by
    unfold enter
    change Parse.ensure errMsg (jsonEnter opener t).1 (jsonEnter opener t).2 = _
    rw [hopen]
    rfl
  intro a q hrun
  obtain ⟨x, hx, hrest⟩ := bind_eq_ok.mp hrun
  rw [hsame] at hx
  exact h a q (bind_eq_ok.mpr ⟨x, hx, hrest⟩)

/-- Only a list is entered as a list. -/
theorem reads_enterArray (h : Written j t rest) (errMsg : Option Text) :
    Reads (enter errMsg jsonEnterArray) t t.tail fun _ =>
      j = .array j.items ∧ ElementsText j.items t.tail rest := by
  refine (reads_enter h errMsg (ch '[')).imp fun _ hhead => ?_
  cases h with
  | @literal w rest h hend =>
      obtain ⟨c, w, rfl⟩ := List.exists_cons_of_ne_nil h.ne_nil
      obtain ⟨-, -, -, hne⟩ := isLiteralByte_scalar c (h.literalByte c List.mem_cons_self)
      exact absurd (Option.some.inj hhead) hne
  | string _ => exact absurd (Option.some.inj hhead) (by decide)
  | noItems h => exact ⟨rfl, .inl ⟨rfl, h⟩⟩
  | items h => exact ⟨rfl, .inr h⟩
  | noMembers _ => exact absurd (Option.some.inj hhead) (by decide)
  | members _ => exact absurd (Option.some.inj hhead) (by decide)

/-- Only an object is entered as an object. -/
theorem reads_enterObject (h : Written j t rest) (errMsg : Option Text) :
    Reads (enter errMsg jsonEnterObject) t t.tail fun _ =>
      j = .object j.members ∧ MembersText j.members t.tail rest := by
  refine (reads_enter h errMsg (ch '{')).imp fun _ hhead => ?_
  cases h with
  | @literal w rest h hend =>
      obtain ⟨c, w, rfl⟩ := List.exists_cons_of_ne_nil h.ne_nil
      obtain ⟨-, -, hne, -⟩ := isLiteralByte_scalar c (h.literalByte c List.mem_cons_self)
      exact absurd (Option.some.inj hhead) hne
  | string _ => exact absurd (Option.some.inj hhead) (by decide)
  | noItems _ => exact absurd (Option.some.inj hhead) (by decide)
  | items _ => exact absurd (Option.some.inj hhead) (by decide)
  | noMembers h => exact ⟨rfl, .inl ⟨rfl, h⟩⟩
  | members h => exact ⟨rfl, .inr h⟩

end

/-! ### Loops -/

theorem reads_unfinished {t rest : Text} {P : α → Prop} :
    Reads (unfinished : Parse α) t rest P := by
  intro a q hrun
  cases hrun

/-- One more element. -/
theorem reads_whileElement_value {body : σ → Parse σ} {j : Json} {t u v rest : Text} {s : σ}
    {P Q : σ → Prop} (ht : Separated t u) (hj : Written j u v) (hbody : Reads (body s) u v Q)
    {n : ℕ} (hnext : ∀ s', Q s' → Reads (whileElement body n s') v rest P) :
    Reads (whileElement body (n + 1) s) t rest P := by
  intro a q hrun
  rw [whileElement_succ, hj.nextElement ht] at hrun
  dsimp only at hrun
  cases hb : body s u with
  | error e =>
      rw [hb] at hrun
      cases hrun
  | ok y =>
      rw [hb] at hrun
      obtain ⟨hv, hQ⟩ := hbody y.1 y.2 hb
      change whileElement body n y.1 y.2 = _ at hrun
      rw [hv] at hrun
      exact hnext y.1 hQ a q hrun

theorem reads_whileElement_close {body : σ → Parse σ} {t rest : Text} {s : σ} {P : σ → Prop}
    (h : Blank t (ch ']' :: rest)) (hs : P s) (n : ℕ) : Reads (whileElement body n s) t rest P := by
  cases n with
  | zero => exact reads_unfinished
  | succ n =>
      intro a q hrun
      rw [whileElement_succ, nextElement_close h] at hrun
      cases hrun
      exact ⟨rfl, hs⟩

theorem reads_items {body : σ → Parse σ} {I : List Json → σ → Prop} {as : List Json}
    {t rest : Text} (h : Items Written as t rest)
    (hbody : ∀ done a s u v, a ∈ as → I done s → Written a u v →
      Reads (body s) u v (I (done ++ [a]))) (n : ℕ) {done : List Json} {s : σ} {t₀ : Text}
    (ht₀ : t₀ = t ∨ Blank t₀ (ch ',' :: t)) (hs : I done s) :
    Reads (whileElement body n s) t₀ rest (I (done ++ as)) := by
  induction h generalizing n done s t₀ with
  | last hu ha hv =>
      cases n with
      | zero => exact reads_unfinished
      | succ n =>
          refine reads_whileElement_value (hu.separated ht₀) ha
            (hbody done _ s _ _ List.mem_cons_self hs ha) fun s' hs' => ?_
          exact reads_whileElement_close hv hs' n
  | @cons a as t u v w rest hu ha hv _ ih =>
      cases n with
      | zero => exact reads_unfinished
      | succ n =>
          refine reads_whileElement_value (hu.separated ht₀) ha
            (hbody done _ s _ _ List.mem_cons_self hs ha) fun s' hs' => ?_
          have hrest := ih (fun done b s u v hb => hbody done b s u v (List.mem_cons_of_mem a hb)) n
            (.inr hv) hs'
          rw [List.append_assoc] at hrest
          exact hrest

/-- The loop over the elements of a list. -/
theorem reads_whileElement {body : σ → Parse σ} {I : List Json → σ → Prop} {as : List Json}
    {t rest : Text} (h : ElementsText as t rest)
    (hbody : ∀ done a s u v, a ∈ as → I done s → Written a u v →
      Reads (body s) u v (I (done ++ [a]))) (n : ℕ) {s : σ} (hs : I [] s) :
    Reads (whileElement body n s) t rest (I as) := by
  rcases h with ⟨rfl, h⟩ | h
  · exact reads_whileElement_close h hs n
  · exact reads_items h hbody n (.inl rfl) hs

theorem reads_whileKey_close {keyLen : ℕ} {body : Text → σ → Parse σ} {t rest : Text} {s : σ}
    {P : σ → Prop} (h : Blank t (ch '}' :: rest)) (hs : P s) (n : ℕ) :
    Reads (whileKey keyLen body n s) t rest P := by
  cases n with
  | zero => exact reads_unfinished
  | succ n =>
      intro a q hrun
      rw [whileKey_succ, nextKey_close keyLen h] at hrun
      cases hrun
      exact ⟨rfl, hs⟩

/-- One more member. -/
theorem reads_whileKey_member {keyLen : ℕ} {body : Text → σ → Parse σ} {m : Text × Json}
    {key t u v rest : Text} {s : σ} {P Q : σ → Prop} (ht : Separated t u)
    (hm : Member Written m u v) (hkey : decoded m.1 = some key)
    (hbody : ∀ u', Written m.2 u' v → Reads (body (cString (key.take (keyLen - 1))) s) u' v Q)
    {n : ℕ} (hnext : ∀ s', Q s' → Reads (whileKey keyLen body n s') v rest P) :
    Reads (whileKey keyLen body (n + 1) s) t rest P := by
  cases hm with
  | @mk name j u v w _ hraw hcolon hvalue hj =>
      intro a q hrun
      obtain ⟨c, x', rfl, hc⟩ := hj.start
      rw [whileKey_succ, (decoded_eq_some_iff.mp hkey).nextKey ht hcolon hvalue
        (isScalar_facts hc).1] at hrun
      dsimp only at hrun
      cases hb : body (cString (key.take (keyLen - 1))) s (c :: x') with
      | error e =>
          rw [hb] at hrun
          cases hrun
      | ok y =>
          rw [hb] at hrun
          obtain ⟨hv, hQ⟩ := hbody _ hj y.1 y.2 hb
          change whileKey keyLen body n y.1 y.2 = _ at hrun
          rw [hv] at hrun
          exact hnext y.1 hQ a q hrun

end Parse

/-- What is noted of the members of an object, one after the other. -/
def noteMembers {ω : Type} (note : ω → Text → Json → ω) (w : ω) (ms : List (Text × Json)) : ω :=
  ms.foldl (fun w m => (decoded m.1).elim w fun key => note w key m.2) w

namespace Parse

theorem reads_members {keyLen : ℕ} {body : Text → σ → Parse σ} {f : ω → Text → Json → ω}
    {I : ω → σ → Prop} {ms : List (Text × Json)} {t rest : Text} (h : Members Written ms t rest)
    (hnames : ∀ m ∈ ms, ∃ key, decoded m.1 = some key)
    (hbody : ∀ m ∈ ms, ∀ key w s u v, decoded m.1 = some key → I w s → Written m.2 u v →
      Reads (body (cString (key.take (keyLen - 1))) s) u v (I (f w key m.2)))
    (n : ℕ) {w : ω} {s : σ} {t₀ : Text} (ht₀ : t₀ = t ∨ Blank t₀ (ch ',' :: t)) (hs : I w s) :
    Reads (whileKey keyLen body n s) t₀ rest (I (noteMembers f w ms)) := by
  have hnoted : ∀ {m : Text × Json} {key : Text} (ms' : List (Text × Json)) (w : ω),
      decoded m.1 = some key →
        noteMembers f w (m :: ms') = noteMembers f (f w key m.2) ms' := by
    intro m key ms' w hkey
    rw [noteMembers, List.foldl_cons, hkey]
    rfl
  induction h generalizing n w s t₀ with
  | @last m t u v rest hu hm hv =>
      obtain ⟨key, hkey⟩ := hnames m List.mem_cons_self
      cases n with
      | zero => exact reads_unfinished
      | succ n =>
          refine reads_whileKey_member (hu.separated ht₀) hm hkey
            (fun u' hj => hbody m List.mem_cons_self key w s u' _ hkey hs hj) fun s' hs' => ?_
          rw [hnoted [] w hkey]
          exact reads_whileKey_close hv hs' n
  | @cons m ms t u v x rest hu hm hv _ ih =>
      obtain ⟨key, hkey⟩ := hnames m List.mem_cons_self
      cases n with
      | zero => exact reads_unfinished
      | succ n =>
          refine reads_whileKey_member (hu.separated ht₀) hm hkey
            (fun u' hj => hbody m List.mem_cons_self key w s u' _ hkey hs hj) fun s' hs' => ?_
          rw [hnoted ms w hkey]
          exact ih (fun m' hm' => hnames m' (List.mem_cons_of_mem m hm'))
            (fun m' hm' => hbody m' (List.mem_cons_of_mem m hm')) n (.inr hv) hs'

/-- The loop over the members of an object whose names have a value. -/
theorem reads_whileKey {keyLen : ℕ} {body : Text → σ → Parse σ} {f : ω → Text → Json → ω}
    {I : ω → σ → Prop} {ms : List (Text × Json)} {t rest : Text} (h : MembersText ms t rest)
    (hnames : ∀ m ∈ ms, ∃ key, decoded m.1 = some key)
    (hbody : ∀ m ∈ ms, ∀ key w s u v, decoded m.1 = some key → I w s → Written m.2 u v →
      Reads (body (cString (key.take (keyLen - 1))) s) u v (I (f w key m.2)))
    (n : ℕ) {w : ω} {s : σ} (hs : I w s) :
    Reads (whileKey keyLen body n s) t rest (I (noteMembers f w ms)) := by
  rcases h with ⟨rfl, h⟩ | h
  · exact reads_whileKey_close h hs n
  · exact reads_members h hnames hbody n (.inl rfl) hs

end Parse

end Lightnet
