import Lightnet.Json.Parse
import Lightnet.Json.Progress
import Lightnet.Library.OracleProgram

/-!
# Parsers as programs that ask how a value is skipped

Apart from skipping values a parser cannot fault: its loops end because every round takes a byte.
So a parser is a program whose questions are the texts it has skipped, and `Consumes` says so
together with the bytes it takes at least. The rules follow the constructs of the parsers.
-/

namespace Lightnet

open OracleProgram

abbrev Asking (α : Type) := OracleProgram Text (Bool × Text) (Except Stop (α × Text))

variable {α β σ : Type}

/-- Only texts up to the given length are asked for, and the program ends with a rest that is
shorter than this by `taken`, or rejects. -/
inductive Within (taken : ℕ) : ℕ → Asking α → Prop
  | ok {len : ℕ} {a : α} {q : Text} (h : q.length + taken ≤ len) : Within taken len (.done (.ok (a, q)))
  | rejected {len : ℕ} {errMsg : Option Text} :
      Within taken len (.done (.error (.rejected errMsg)))
  | call {len : ℕ} {v : Text} {next : Bool × Text → Asking α} (h : v.length ≤ len)
      (hnext : ∀ b r, r.length ≤ v.length → Within taken len (next (b, r))) :
      Within taken len (.call v next)

def collapse {γ : Type} : Except Fault (Except Stop γ) → Except Stop γ
  | .ok result => result
  | .error f => .error (.fault f)

/-- The skipper leaves no more than it was given. -/
def Shrinks (len : ℕ) (skip : Skipper) : Prop :=
  ∀ v b r, v.length ≤ len → skip v = .ok (b, r) → r.length ≤ v.length

/-- What a parser does at a text is, with enough fuel, the run of a program that asks how to skip
and that takes the given number of bytes. -/
def ConsumesAt (taken : ℕ) (p : Text) (need : ℕ) (res : Skipper → ℕ → Except Stop (α × Text)) :
    Prop :=
  ∃ c : Asking α, Within taken p.length c ∧
    ∀ skip n, need ≤ n → Shrinks p.length skip → res skip n = collapse (c.run skip)

/-- The loops of the parser need no more rounds than the text has bytes, and one. -/
def Consumes (taken : ℕ) (m : Skipper → ℕ → Parse α) : Prop :=
  ∀ p : Text, ConsumesAt taken p (p.length + 1) fun skip n => m skip n p

theorem Shrinks.mono {len len' : ℕ} {skip : Skipper} (h : Shrinks len skip) (hle : len' ≤ len) :
    Shrinks len' skip := fun v b r hv => h v b r (hv.trans hle)

theorem Within.mono {taken taken' len len' : ℕ} {c : Asking α} (h : Within taken len c)
    (hle : len + taken' ≤ len' + taken) (hlen : len ≤ len') : Within taken' len' c := by
  induction h with
  | ok h => exact .ok (by omega)
  | rejected => exact .rejected
  | call h _ ih => exact .call (h.trans hlen) ih

theorem Within.length_le {taken len : ℕ} {c : Asking α} (h : Within taken len c) {skip : Skipper}
    (hskip : Shrinks len skip) {a : α} {q : Text} (hrun : c.run skip = .ok (.ok (a, q))) :
    q.length + taken ≤ len := by
  induction h with
  | ok h =>
      simp only [run, Except.ok.injEq, Prod.mk.injEq] at hrun
      exact hrun.2 ▸ h
  | rejected => simp [run] at hrun
  | @call v next h _ ih =>
      simp only [run] at hrun
      cases hv : skip v with
      | error f => simp [hv] at hrun
      | ok x =>
          obtain ⟨b, r⟩ := x
          rw [hv] at hrun
          exact ih b r (hskip v b r h hv) hrun

/-- Every text the program comes to is within the bound. -/
theorem Within.length_of_comesTo {taken len : ℕ} {c : Asking α} (h : Within taken len c)
    {answers : Text → Bool × Text}
    (hanswers : ∀ v : Text, v.length ≤ len → (answers v).2.length ≤ v.length) {v : Text}
    (hv : c.ComesTo answers v) : v.length ≤ len := by
  induction h with
  | ok => exact hv.elim
  | rejected => exact hv.elim
  | @call u next h _ ih =>
      rcases hv with rfl | hv
      · exact h
      · exact ih (answers u).1 (answers u).2 (hanswers u h) hv

theorem Within.bind {d e len : ℕ} {c : Asking α} {go : Except Stop (α × Text) → Asking β}
    (hc : Within d len c) (hok : ∀ a q, q.length + d ≤ len → Within e len (go (.ok (a, q))))
    (hrejected : ∀ errMsg, Within e len (go (.error (.rejected errMsg)))) :
    Within e len (c.bind go) := by
  induction hc with
  | ok h => exact hok _ _ h
  | rejected => exact hrejected _
  | call h _ ih => exact .call h ih

theorem ConsumesAt.mono {taken taken' need need' : ℕ} {p : Text}
    {res : Skipper → ℕ → Except Stop (α × Text)} (h : ConsumesAt taken p need res)
    (hle : taken' ≤ taken) (hneed : need ≤ need') : ConsumesAt taken' p need' res := by
  obtain ⟨c, hc, hrun⟩ := h
  exact ⟨c, hc.mono (by omega) le_rfl, fun skip n hn => hrun skip n (hneed.trans hn)⟩

theorem ConsumesAt.congr {taken need need' : ℕ} {p q : Text}
    {res res' : Skipper → ℕ → Except Stop (α × Text)} (h : ConsumesAt taken q need res)
    (hq : q.length ≤ p.length) (hneed : need ≤ need')
    (heq : ∀ skip n, need' ≤ n → res' skip n = res skip n) : ConsumesAt taken p need' res' := by
  obtain ⟨c, hc, hrun⟩ := h
  refine ⟨c, hc.mono (by omega) hq, fun skip n hn hskip => ?_⟩
  rw [heq skip n hn]
  exact hrun skip n (hneed.trans hn) (hskip.mono hq)

theorem ConsumesAt.ok {need : ℕ} {p q : Text} (a : α) (hq : q.length ≤ p.length) :
    ConsumesAt 0 p need fun _ _ => .ok (a, q) :=
  ⟨.done (.ok (a, q)), .ok hq, fun _ _ _ _ => rfl⟩

theorem ConsumesAt.bind {d e need : ℕ} {p : Text} {res : Skipper → ℕ → Except Stop (α × Text)}
    {next : Skipper → ℕ → α → Text → Except Stop (β × Text)} (h : ConsumesAt d p need res)
    (hnext : ∀ a q, q.length + d ≤ p.length →
      ConsumesAt e q need fun skip n => next skip n a q) :
    ConsumesAt (d + e) p need fun skip n => (res skip n).bind fun x => next skip n x.1 x.2 := by
  obtain ⟨c, hc, hrun⟩ := h
  choose k hk hkrun using hnext
  let go : Except Stop (α × Text) → Asking β
    | .ok (a, q) => if hq : q.length + d ≤ p.length then k a q hq else .done (.error (.rejected none))
    | .error stop => .done (.error stop)
  have hgo : ∀ a q (hq : q.length + d ≤ p.length), go (.ok (a, q)) = k a q hq :=
    fun a q hq => dif_pos hq
  refine ⟨c.bind go, hc.bind (fun a q hq => ?_) fun _ => .rejected, fun skip n hn hskip => ?_⟩
  · rw [hgo a q hq]
    exact (hk a q hq).mono (by omega) (by omega)
  · change (res skip n).bind _ = _
    rw [hrun skip n hn hskip, run_bind]
    match hres : c.run skip with
    | .error f => rfl
    | .ok (.error stop) => rfl
    | .ok (.ok (a, q)) =>
      have hle := hc.length_le hskip hres
      change next skip n a q = collapse ((go (.ok (a, q))).run skip)
      rw [hgo a q hle]
      exact hkrun a q hle skip n hn (hskip.mono (by omega))

namespace Consumes

theorem weaken {taken taken' : ℕ} {m : Skipper → ℕ → Parse α} (h : Consumes taken m)
    (hle : taken' ≤ taken) : Consumes taken' m :=
  fun p => (h p).mono hle le_rfl

/-- A parser that does not skip. -/
theorem of_eq {taken : ℕ} {m : Skipper → ℕ → Parse α} (f : Text → Except Stop (α × Text))
    (heq : ∀ skip n p, m skip n p = f p)
    (hok : ∀ p a q, f p = .ok (a, q) → q.length + taken ≤ p.length)
    (hfault : ∀ p e, f p ≠ .error (.fault e)) : Consumes taken m := by
  intro p
  refine ⟨.done (f p), ?_, fun skip n _ _ => heq skip n p⟩
  match hp : f p with
  | .ok (a, q) => exact .ok (hok p a q hp)
  | .error (.rejected errMsg) => exact .rejected
  | .error (.fault e) => exact absurd hp (hfault p e)

theorem pure (a : α) : Consumes 0 fun _ _ => (Pure.pure a : Parse α) := by
  refine of_eq (fun p => .ok (a, p)) (fun _ _ _ => rfl) ?_ (fun _ _ h => by contradiction)
  rintro p a' q h
  simp only [Except.ok.injEq, Prod.mk.injEq] at h
  rw [h.2]
  exact le_rfl

theorem reject (taken : ℕ) (errMsg : Option Text) :
    Consumes taken fun _ _ => (Parse.reject errMsg : Parse α) :=
  of_eq (fun _ => .error (.rejected errMsg)) (fun _ _ _ => rfl) (fun _ _ _ h => by contradiction)
    (fun _ _ h => by simp at h)

theorem ensure (errMsg : Option Text) (b : Bool) : Consumes 0 fun _ _ => Parse.ensure errMsg b := by
  cases b with
  | true => exact Consumes.pure ()
  | false => exact Consumes.reject 0 errMsg

theorem lift (x : Except (Option Text) α) : Consumes 0 fun _ _ => Parse.lift x := by
  cases x with
  | ok a => exact Consumes.pure a
  | error errMsg => exact Consumes.reject 0 errMsg

theorem read (f : Text → α × Text) (hf : ∀ p, (f p).2.length ≤ p.length) :
    Consumes 0 fun _ _ => Parse.read f := by
  refine of_eq (fun p => .ok (f p)) (fun _ _ _ => rfl) ?_ (fun _ _ h => by contradiction)
  rintro p a q h
  rw [Except.ok.injEq] at h
  have hp := hf p
  rw [h] at hp
  exact hp

theorem readOr (errMsg : Option Text) {f : Text → Option α × Text} (hf : Advances f) :
    Consumes 1 fun _ _ => Parse.readOr errMsg f := by
  refine of_eq (Parse.readOr errMsg f) (fun _ _ _ => rfl) ?_ ?_
  · rintro p a q h
    have hsome := (hf p).2
    unfold Parse.readOr at h
    generalize f p = res at h hsome
    obtain ⟨o, r⟩ := res
    cases o with
    | none => contradiction
    | some b =>
        simp only [Except.ok.injEq, Prod.mk.injEq] at h
        exact h.2 ▸ hsome rfl
  · intro p e h
    unfold Parse.readOr at h
    generalize f p = res at h
    obtain ⟨o, r⟩ := res
    cases o with
    | none => simp at h
    | some b => contradiction

theorem skipUnknown : Consumes 0 fun skip _ => Parse.skipUnknown skip := by
  intro p
  refine ⟨.call p fun answer => .done (.ok ((), answer.2)), .call le_rfl fun b r hr => .ok hr, ?_⟩
  intro skip n _ _
  unfold Parse.skipUnknown
  simp only [run]
  cases skip p with
  | error f => rfl
  | ok x => rfl

theorem bind {d e : ℕ} {m : Skipper → ℕ → Parse α} {k : α → Skipper → ℕ → Parse β}
    (hm : Consumes d m) (hk : ∀ a, Consumes e (k a)) :
    Consumes (d + e) fun skip n => m skip n >>= fun a => k a skip n := by
  intro p
  have hnext : ∀ a q, q.length + d ≤ p.length →
      ConsumesAt e q (p.length + 1) fun skip n => k a skip n q :=
    fun a q hq => (hk a q).mono le_rfl (by omega)
  exact (hm p).bind hnext

theorem then_ {d e : ℕ} {m : Skipper → ℕ → Parse α} {k : α → Skipper → ℕ → Parse β}
    (hm : Consumes d m) (hk : ∀ a, Consumes e (k a)) {t : ℕ} (hle : t ≤ d + e) :
    Consumes t fun skip n => m skip n >>= fun a => k a skip n :=
  (hm.bind hk).weaken hle

theorem ite {taken : ℕ} {c : Prop} [Decidable c] {m m' : Skipper → ℕ → Parse α}
    (h : Consumes taken m) (h' : Consumes taken m') :
    Consumes taken fun skip n => if c then m skip n else m' skip n := by
  by_cases hc : c
  · simpa only [hc, if_true] using h
  · simpa only [hc, if_false] using h'

theorem peek : Consumes 0 fun _ _ => Parse.peek := read _ length_jsonSkipWs_le

theorem enter (errMsg : Option Text) (opener : Byte) :
    Consumes 1 fun _ _ => Parse.enter errMsg (jsonEnter opener) := by
  refine of_eq (fun p => if (jsonEnter opener p).1 then .ok ((), (jsonEnter opener p).2)
    else .error (.rejected errMsg)) ?_ ?_ ?_
  · intro skip n p
    change (Parse.ensure errMsg (jsonEnter opener p).1) (jsonEnter opener p).2 = _
    unfold Parse.ensure
    split_ifs <;> rfl
  · intro p a q h
    have hlt := (length_jsonEnter opener p).2
    split_ifs at h with hentered
    simp only [Except.ok.injEq, Prod.mk.injEq] at h
    exact h.2 ▸ hlt hentered
  · intro p e h
    split_ifs at h
    simp at h

theorem uintWhere (errMsg : Option Text) (accept : ℕ → Bool) :
    Consumes 1 fun _ _ => Parse.uintWhere errMsg accept :=
  (readOr errMsg advances_jsonReadUInt).bind fun v =>
    (ensure errMsg (accept v)).bind fun _ => pure v

theorem whileKey (keyLen : ℕ) {body : Skipper → ℕ → Text → σ → Parse σ}
    (hbody : ∀ key s, Consumes 0 fun skip n => body skip n key s) (s : σ) :
    Consumes 0 fun skip n => Parse.whileKey keyLen (body skip n) n s := by
  -- the rounds that are left when `used` of them are gone
  have hloop : ∀ (p : Text) used s, ConsumesAt 0 p (p.length + used + 1)
      fun skip n => Parse.whileKey keyLen (body skip n) (n - used) s p := by
    intro p
    induction hl : p.length using Nat.strong_induction_on generalizing p with
    | _ len ih =>
      intro used s
      have hround := fun (skip : Skipper) n (hn : len + used + 1 ≤ n) =>
        (congrArg (fun m => Parse.whileKey keyLen (body skip n) m s p)
          (show n - used = n - (used + 1) + 1 by omega)).trans
          (Parse.whileKey_succ keyLen (body skip n) (n - (used + 1)) s p)
      obtain ⟨hrest, hsome⟩ := advances_jsonNextKey keyLen p
      generalize jsonNextKey keyLen p = res at hround hrest hsome
      obtain ⟨o, q⟩ := res
      cases o with
      | none =>
          have hend : ConsumesAt 0 p (len + used + 1) fun _ _ => .ok (s, q) := ConsumesAt.ok s hrest
          exact hend.congr le_rfl le_rfl hround
      | some key =>
          have hq : q.length < p.length := hsome rfl
          have hneed : q.length + 1 ≤ len + used + 1 := by omega
          have hnext : ∀ s' r, r.length + 0 ≤ q.length → ConsumesAt 0 r (len + used + 1)
              fun skip n => Parse.whileKey keyLen (body skip n) (n - (used + 1)) s' r :=
            fun s' r hr => (ih r.length (by omega) r rfl (used + 1) s').mono le_rfl (by omega)
          exact (((hbody key s q).mono le_rfl hneed).bind hnext).congr hq.le le_rfl hround
  exact fun p => hloop p 0 s

/-- A round over the elements of an array ends where its body takes a byte. -/
theorem whileElement {body : Skipper → ℕ → σ → Parse σ}
    (hbody : ∀ s, Consumes 1 fun skip n => body skip n s) (s : σ) :
    Consumes 0 fun skip n => Parse.whileElement (body skip n) n s := by
  have hloop : ∀ (p : Text) used s, ConsumesAt 0 p (p.length + used + 1)
      fun skip n => Parse.whileElement (body skip n) (n - used) s p := by
    intro p
    induction hl : p.length using Nat.strong_induction_on generalizing p with
    | _ len ih =>
      intro used s
      have hround := fun (skip : Skipper) n (hn : len + used + 1 ≤ n) =>
        (congrArg (fun m => Parse.whileElement (body skip n) m s p)
          (show n - used = n - (used + 1) + 1 by omega)).trans
          (Parse.whileElement_succ (body skip n) (n - (used + 1)) s p)
      have hrest := length_jsonNextElement_le p
      generalize jsonNextElement p = res at hround hrest
      obtain ⟨b, q⟩ := res
      cases b with
      | false =>
          have hend : ConsumesAt 0 p (len + used + 1) fun _ _ => .ok (s, q) := ConsumesAt.ok s hrest
          exact hend.congr le_rfl le_rfl hround
      | true =>
          have hq : q.length ≤ p.length := hrest
          have hneed : q.length + 1 ≤ len + used + 1 := by omega
          have hnext : ∀ s' r, r.length + 1 ≤ q.length → ConsumesAt 0 r (len + used + 1)
              fun skip n => Parse.whileElement (body skip n) (n - (used + 1)) s' r :=
            fun s' r hr => (ih r.length (by omega) r rfl (used + 1) s').mono le_rfl (by omega)
          exact ((((hbody s q).mono le_rfl hneed).bind hnext).mono (Nat.zero_le _) le_rfl).congr hq
            le_rfl hround
  exact fun p => hloop p 0 s

end Consumes

end Lightnet
