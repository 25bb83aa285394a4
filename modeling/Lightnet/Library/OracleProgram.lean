import Mathlib.Tactic.Common

/-!
# Programs that question an oracle

A program asks questions, one after another, and every answer determines how it goes on. Run
against an oracle that breaks on some questions, it breaks exactly when it comes to one of those.
-/

variable {Q A F β γ : Type*}

inductive OracleProgram (Q A β : Type*) where
  | done (result : β)
  | call (question : Q) (next : A → OracleProgram Q A β)

namespace OracleProgram

def run (oracle : Q → Except F A) : OracleProgram Q A β → Except F β
  | done result => .ok result
  | call question next =>
    match oracle question with
    | .ok answer => (next answer).run oracle
    | .error fault => .error fault

/-- The program asks `q` when `answers` answers it. -/
def ComesTo (answers : Q → A) (q : Q) : OracleProgram Q A β → Prop
  | done _ => False
  | call question next => question = q ∨ (next (answers question)).ComesTo answers q

def bind (f : β → OracleProgram Q A γ) : OracleProgram Q A β → OracleProgram Q A γ
  | done b => f b
  | call question next => call question fun answer => (next answer).bind f

theorem run_bind (oracle : Q → Except F A) (f : β → OracleProgram Q A γ)
    (p : OracleProgram Q A β) :
    (p.bind f).run oracle = (p.run oracle).bind fun b => (f b).run oracle := by
  induction p with
  | done result => rfl
  | call question next ih =>
    simp only [bind, run]
    cases oracle question with
    | error fault => rfl
    | ok answer => exact ih answer

/-- An oracle that answers as `answers` does or breaks breaks the program exactly when it breaks
on a question the program comes to. -/
theorem run_breaks_iff (oracle : Q → Except F A) (answers : Q → A) (p : OracleProgram Q A β)
    (h : ∀ q, p.ComesTo answers q → oracle q = .ok (answers q) ∨ ∃ fault, oracle q = .error fault) :
    (∃ fault, p.run oracle = .error fault) ↔
      ∃ q, p.ComesTo answers q ∧ ∃ fault, oracle q = .error fault := by
  induction p with
  | done result => simp [run, ComesTo]
  | call question next ih =>
    rcases h question (Or.inl rfl) with hq | ⟨fault, hq⟩
    · have ih' := ih (answers question) fun q hc => h q (Or.inr hc)
      simp only [run, hq]
      rw [ih']
      constructor
      · rintro ⟨q, hc, hf⟩
        exact ⟨q, Or.inr hc, hf⟩
      · rintro ⟨q, hc | hc, fault, hf⟩
        · rw [← hc, hq] at hf
          contradiction
        · exact ⟨q, hc, fault, hf⟩
    · simp only [run, hq]
      exact ⟨fun _ => ⟨question, Or.inl rfl, fault, hq⟩, fun _ => ⟨fault, rfl⟩⟩

theorem run_breakAt_iff [DecidableEq Q] (answers : Q → A) (q : Q) (fault : F)
    (p : OracleProgram Q A β) :
    (p.run fun q' => if q' = q then .error fault else .ok (answers q')) = .error fault ↔
      p.ComesTo answers q := by
  induction p with
  | done result => simp [run, ComesTo]
  | call question next ih =>
    by_cases hq : question = q
    · simp [run, ComesTo, hq]
    · simp only [run, ComesTo, hq, if_false, false_or]
      exact ih (answers question)

end OracleProgram
