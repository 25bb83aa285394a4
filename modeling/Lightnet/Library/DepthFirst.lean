import Mathlib.Data.List.Basic
import Mathlib.Data.Finset.Card
import Mathlib.Logic.Relation

/-!
# Depth first visits with a stack

The visit takes the top of the stack and puts what is below it in its place. In a forest it comes
to everything below the stack, each once. When what is below every element is in order, so is the
visit.
-/

namespace DepthFirst

variable {α : Type*} (children : α → List α)

/-- The elements in the order they are taken from the stack, at most as many as the first argument
says. -/
def visit : ℕ → List α → List α
  | 0, _ => []
  | _ + 1, [] => []
  | n + 1, a :: stack => a :: visit n (children a ++ stack)

/-- Below an element or the element itself. -/
def Under : α → α → Prop := Relation.ReflTransGen fun a b => b ∈ children a

/-- An order in which everything comes before what is below it, and what is below an element
before what is below its later siblings. -/
structure InOrder (before : α → α → Prop) : Prop where
  irrefl : ∀ a, ¬before a a
  below : ∀ {a b x}, b ∈ children a → Under children b x → before a x
  siblings : ∀ a, (children a).Pairwise fun b c =>
    ∀ x y, Under children b x → Under children c y → before x y

variable {children}

theorem under_cases {a x : α} (h : Under children a x) :
    x = a ∨ ∃ b ∈ children a, Under children b x := by
  rcases Relation.ReflTransGen.cases_head h with rfl | ⟨b, hb, hx⟩
  · exact .inl rfl
  · exact .inr ⟨b, hb, hx⟩

/-- What is below the children of the top and the rest of the stack is below the stack. -/
theorem exists_under_of_pushed {a x : α} {stack : List α}
    (h : ∃ b ∈ children a ++ stack, Under children b x) :
    ∃ b ∈ a :: stack, Under children b x := by
  obtain ⟨b, hb, hx⟩ := h
  rcases List.mem_append.mp hb with hb | hb
  · exact ⟨a, List.mem_cons_self, .head hb hx⟩
  · exact ⟨b, List.mem_cons_of_mem a hb, hx⟩

theorem under_of_mem_visit {n : ℕ} {stack : List α} {x : α} (h : x ∈ visit children n stack) :
    ∃ a ∈ stack, Under children a x := by
  induction n generalizing stack with
  | zero => exact nomatch h
  | succ n ih =>
      cases stack with
      | nil => exact nomatch h
      | cons a stack =>
          rcases List.mem_cons.mp h with rfl | h
          · exact ⟨x, List.mem_cons_self, .refl⟩
          · exact exists_under_of_pushed (ih h)

section
variable {before : α → α → Prop} (ord : InOrder children before)
include ord

/-- The parts below the elements of the stack follow each other. -/
theorem InOrder.push {a : α} {stack : List α}
    (hstack : (a :: stack).Pairwise fun b c =>
      ∀ x y, Under children b x → Under children c y → before x y) :
    (children a ++ stack).Pairwise fun b c =>
      ∀ x y, Under children b x → Under children c y → before x y := by
  obtain ⟨hfirst, hrest⟩ := List.pairwise_cons.mp hstack
  refine List.pairwise_append.mpr ⟨ord.siblings a, hrest, fun b hb c hc x y hx hy => ?_⟩
  exact hfirst c hc x y (.head hb hx) hy

/-- The top of the stack comes before all that is still to be visited. -/
theorem InOrder.top {a x : α} {stack : List α}
    (hstack : (a :: stack).Pairwise fun b c =>
      ∀ x y, Under children b x → Under children c y → before x y)
    (hx : ∃ b ∈ children a ++ stack, Under children b x) : before a x := by
  obtain ⟨b, hb, hx⟩ := hx
  rcases List.mem_append.mp hb with hb | hb
  · exact ord.below hb hx
  · exact (List.pairwise_cons.mp hstack).1 b hb a x .refl hx

theorem InOrder.visit_pairwise {n : ℕ} {stack : List α}
    (hstack : stack.Pairwise fun b c =>
      ∀ x y, Under children b x → Under children c y → before x y) :
    (visit children n stack).Pairwise before := by
  induction n generalizing stack with
  | zero => exact .nil
  | succ n ih =>
      cases stack with
      | nil => exact .nil
      | cons a stack =>
          refine List.pairwise_cons.mpr ⟨fun x hx => ?_, ih (ord.push hstack)⟩
          exact ord.top hstack (under_of_mem_visit hx)

/-- As many rounds as there are elements are enough. -/
theorem InOrder.mem_visit [DecidableEq α] {n : ℕ} {stack : List α}
    (hstack : stack.Pairwise fun b c =>
      ∀ x y, Under children b x → Under children c y → before x y)
    {s : Finset α} (hs : ∀ x, (∃ a ∈ stack, Under children a x) → x ∈ s) (hn : s.card ≤ n) {x : α} :
    x ∈ visit children n stack ↔ ∃ a ∈ stack, Under children a x := by
  refine ⟨under_of_mem_visit, fun hx => ?_⟩
  induction n generalizing stack s with
  | zero =>
      have hempty : s = ∅ := Finset.card_eq_zero.mp (by omega)
      exact absurd (hs x hx) (by rw [hempty]; exact Finset.notMem_empty x)
  | succ n ih =>
      cases stack with
      | nil =>
          obtain ⟨a, ha, -⟩ := hx
          exact nomatch ha
      | cons a stack =>
          have hrest : ∀ y, (∃ b ∈ children a ++ stack, Under children b y) → y ∈ s.erase a := by
            intro y hy
            refine Finset.mem_erase.mpr ⟨?_, hs y (exists_under_of_pushed hy)⟩
            rintro rfl
            exact ord.irrefl y (ord.top hstack hy)
          have hcard : (s.erase a).card ≤ n := by
            rw [Finset.card_erase_of_mem (hs a ⟨a, List.mem_cons_self, .refl⟩)]
            omega
          obtain ⟨b, hb, hbx⟩ := hx
          rcases List.mem_cons.mp hb with rfl | hb
          · rcases under_cases hbx with rfl | ⟨c, hc, hcx⟩
            · exact List.mem_cons_self
            · refine List.mem_cons_of_mem b (ih (ord.push hstack) hrest hcard ?_)
              exact ⟨c, List.mem_append_left stack hc, hcx⟩
          · refine List.mem_cons_of_mem a (ih (ord.push hstack) hrest hcard ?_)
            exact ⟨b, List.mem_append_right _ hb, hbx⟩

end

/-- In a list in order the place of an element is the number of elements before it. -/
theorem idxOf_eq_card [DecidableEq α] {before : α → α → Prop} [DecidableRel before]
    (hirrefl : ∀ a, ¬before a a) (hasymm : ∀ a b, before a b → ¬before b a) {l : List α}
    (hl : l.Pairwise before) {x : α} (hx : x ∈ l) :
    l.idxOf x = (l.toFinset.filter fun y => before y x).card := by
  induction l with
  | nil => exact nomatch hx
  | cons a l ih =>
      obtain ⟨hfirst, hrest⟩ := List.pairwise_cons.mp hl
      rcases List.mem_cons.mp hx with rfl | hmem
      · rw [List.idxOf_cons_self, eq_comm, Finset.card_eq_zero, Finset.filter_eq_empty_iff]
        intro y hy
        rcases List.mem_cons.mp (List.mem_toFinset.mp hy) with rfl | hy
        · exact hirrefl y
        · exact hasymm x y (hfirst y hy)
      · have hne : a ≠ x := by
          rintro rfl
          exact hirrefl a (hfirst a hmem)
        have hnew : a ∉ l.toFinset.filter fun y => before y x := by
          intro ha
          have := List.mem_toFinset.mp (Finset.mem_filter.mp ha).1
          exact hirrefl a (hfirst a this)
        rw [List.idxOf_cons_ne l hne, ih hrest hmem, List.toFinset_cons,
          Finset.filter_insert, if_pos (hfirst x hmem), Finset.card_insert_of_notMem hnew]

end DepthFirst
