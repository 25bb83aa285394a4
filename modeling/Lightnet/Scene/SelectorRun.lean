import Lightnet.Topology.CanonicalOrder
import Lightnet.Scene.SelectorGrammar

/-!
# Running a selector

A selector program runs on a stack of at most `selStackMax` panel sets. A program that was compiled
from a selector leaves the set that the selector means, if it needs no more than that.
-/

namespace Lightnet

/-! ### The machine -/

def SelOp.ofByte : Byte → Option SelOp
  | 1 => some .all
  | 2 => some .root
  | 3 => some .leaves
  | 4 => some .branches
  | 5 => some .even
  | 6 => some .odd
  | 7 => some .depth
  | 8 => some .subtree
  | 9 => some .neighbors
  | 10 => some .fraction
  | 11 => some .first
  | 12 => some .last
  | 13 => some .indices
  | 15 => some .and
  | 16 => some .or
  | 17 => some .not
  | _ => none

section

variable (topo : TopologyIndex)

def slotsWhere (p : ℕ → Bool) : PanelSet := (Finset.range topo.count).filter fun x => p x

def selFraction (a b : Byte) : PanelSet :=
  if topo.count ≤ 1 then if a = 0 then {0} else ∅
  else
    let span := topo.count - 1
    slotsWhere topo fun x =>
      a.toNat * span ≤ topo.canonPos x * 255 && topo.canonPos x * 255 ≤ b.toNat * span

def selLast (k : Byte) : PanelSet :=
  let start := if topo.count ≤ k.toNat then 0 else topo.count - k.toNat
  slotsWhere topo fun x => start ≤ topo.canonPos x

/-- The slots of the panels that are there. -/
def selIndices (panels : List Byte) : PanelSet :=
  panels.foldl (fun s p =>
    match topo.graph.slotOf p.toNat with
    | some sl => insert sl s
    | none => s) ∅

/-- The set of an operator and the program behind its operands. -/
def selEvalLeaf (op : Byte) (rest : List Byte) : Option (PanelSet × List Byte) :=
  match SelOp.ofByte op, rest with
  | some .all, rest => some (slotsWhere topo fun _ => true, rest)
  | some .root, rest => some ({topo.rootSlot}, rest)
  | some .leaves, rest => some (slotsWhere topo topo.isLeaf, rest)
  | some .branches, rest => some (slotsWhere topo topo.isBranch, rest)
  | some .even, rest => some (slotsWhere topo fun x => topo.canonPos x % 2 = 0, rest)
  | some .odd, rest => some (slotsWhere topo fun x => topo.canonPos x % 2 = 1, rest)
  | some .depth, a :: b :: rest =>
    some (slotsWhere topo fun x => a.toNat ≤ topo.depth x && topo.depth x ≤ b.toNat, rest)
  | some .subtree, p :: rest =>
    match topo.graph.slotOf p.toNat with
    | some sl => some (topo.fillSubtree sl ∅, rest)
    | none => some (∅, rest)
  | some .neighbors, p :: rest =>
    match topo.graph.slotOf p.toNat with
    | some sl => some (((topo.graph.neighbors sl).map (·.slot)).toFinset, rest)
    | none => some (∅, rest)
  | some .fraction, a :: b :: rest => some (selFraction topo a b, rest)
  | some .first, k :: rest => some (slotsWhere topo fun x => topo.canonPos x < k.toNat, rest)
  | some .last, k :: rest => some (selLast topo k, rest)
  | some .indices, listLen :: rest =>
    if rest.length < listLen.toNat then none
    else some (selIndices topo (rest.take listLen.toNat), rest.drop listLen.toNat)
  | _, _ => none

/-- `while (i < sel.len)` on the rest of the program, at most as many rounds as the first argument
says. -/
def selRun : ℕ → List Byte → List PanelSet → Option (List PanelSet)
  | _, [], stack => some stack
  | 0, _ :: _, _ => none
  | n + 1, op :: rest, stack =>
    if op = SelOp.toByte .and ∨ op = SelOp.toByte .or then
      match stack with
      | b :: a :: stack =>
        selRun n rest ((if op = SelOp.toByte .and then a ∩ b else a ∪ b) :: stack)
      | _ => none
    else if op = SelOp.toByte .not then
      match stack with
      | a :: stack => selRun n rest (a.invert topo.count :: stack)
      | [] => none
    else if selStackMax ≤ stack.length then none
    else
      match selEvalLeaf topo op rest with
      | some (s, rest) => selRun n rest (s :: stack)
      | none => none

def resolveSelector (sel : PanelSelector) : Option PanelSet :=
  match selRun topo sel.ops.length sel.ops [] with
  | some [s] => some s
  | _ => none

end

/-! ### What selectors mean -/

/-- A bound of a fraction, in steps of 1/255. -/
def fractionBound (x : ℚ) : ℕ := (fractionByte (max 0 (min x 1))).toNat

section

variable (t : TreeTopology)

/-- The panel in the slot has the index. -/
def HasIndex (s n : ℕ) : Prop := t.panels[s]? = some n

def SelWord.meaning : SelWord → Set ℕ
  | all => {s | s < t.count}
  | root => {t.root}
  | leaves => {s | s < t.count ∧ ∀ v, ¬t.IsChild s v}
  | branches => {s | s < t.count ∧ ∃ v v', v ≠ v' ∧ t.IsChild s v ∧ t.IsChild s v'}
  | even => {s | s < t.count ∧ Even (t.position s)}
  | odd => {s | s < t.count ∧ Odd (t.position s)}

def SelToken.meaning : SelToken → Set ℕ
  | word w => w.meaning t
  | depth lo hi => {s | s < t.count ∧ lo.value ≤ t.depth s ∧ t.depth s ≤ (hi.getD lo).value}
  | subtree n => {s | ∃ u, HasIndex t u n.value ∧ t.Descendant u s}
  | neighbors n => {s | ∃ u, HasIndex t u n.value ∧ t.graph.Adj u s}
  | fraction lo hi => {s | s < t.count ∧
      (fractionBound lo.value : ℚ) / 255 ≤ (t.position s : ℚ) / (t.count - 1 : ℕ) ∧
      (t.position s : ℚ) / (t.count - 1 : ℕ) ≤ (fractionBound hi.value : ℚ) / 255}
  | first k => {s | s < t.count ∧ t.position s < k.value}
  | last k => {s | s < t.count ∧ t.count ≤ t.position s + k.value}

mutual

def SelExpr.meaning : SelExpr → Set ℕ
  | .token tok => tok.meaning t
  | .indices panels => {s | ∃ n ∈ panels, HasIndex t s n.value}
  | .exclude panels => {s | s < t.count ∧ ¬∃ n ∈ panels, HasIndex t s n.value}
  | .any es => anyMeaning es
  | .all es => allMeaning es
  | .not e => {s | s < t.count ∧ s ∉ e.meaning}

def anyMeaning : List SelExpr → Set ℕ
  | [] => ∅
  | e :: es => e.meaning ∪ anyMeaning es

def allMeaning : List SelExpr → Set ℕ
  | [] => {s | s < t.count}
  | e :: es => e.meaning ∩ allMeaning es

end

end

mutual

/-- How many sets the program puts on the stack. -/
def SelExpr.height : SelExpr → ℕ
  | .token _ => 1
  | .indices _ => 1
  | .exclude _ => 1
  | .any es => listHeight 0 es
  | .all es => listHeight 0 es
  | .not e => e.height

/-- The same of elements, with so many sets below the first. -/
def listHeight : ℕ → List SelExpr → ℕ
  | _, [] => 0
  | below, e :: es => max (below + e.height) (listHeight 1 es)

end

/-! ### Running code -/

theorem SelOp.ofByte_toByte (op : SelOp) : SelOp.ofByte op.toByte = some op := by
  cases op <;> rfl

theorem SelOp.toByte_injective : Function.Injective SelOp.toByte := by
  intro op op' h
  rw [← Option.some.injEq, ← ofByte_toByte op, ← ofByte_toByte op', h]

section

variable (topo : TopologyIndex) (n : ℕ) (rest : List Byte) (stack : List PanelSet)

theorem selRun_leaf {op : SelOp} (hop : op ≠ .and ∧ op ≠ .or ∧ op ≠ .not) :
    selRun topo (n + 1) (op.toByte :: rest) stack =
      if selStackMax ≤ stack.length then none
      else
        match selEvalLeaf topo op.toByte rest with
        | some (s, rest) => selRun topo n rest (s :: stack)
        | none => none := by
  have hbyte : ∀ op' : SelOp, op ≠ op' → op.toByte ≠ op'.toByte :=
    fun op' hne h => hne (SelOp.toByte_injective h)
  rw [selRun.eq_def]
  dsimp only
  rw [if_neg (not_or.mpr ⟨hbyte .and hop.1, hbyte .or hop.2.1⟩), if_neg (hbyte .not hop.2.2)]

theorem selRun_join {op : SelOp} (hop : op = .and ∨ op = .or) (a b : PanelSet) :
    selRun topo (n + 1) (op.toByte :: rest) (b :: a :: stack) =
      selRun topo n rest ((if op = .and then a ∩ b else a ∪ b) :: stack) := by
  rcases hop with rfl | rfl <;> rfl

end

/-- The code puts a set with the given elements on the stack, if there is room for `height` sets. -/
def Runs (t : TreeTopology) (code : List Byte) (height : ℕ) (elements : Set ℕ) : Prop :=
  ∃ s : PanelSet, (s : Set ℕ) = elements ∧ ∀ n rest stack, (code ++ rest).length ≤ n →
    ∃ n', rest.length ≤ n' ∧ selRun t.index n (code ++ rest) stack =
      if stack.length + height ≤ selStackMax then selRun t.index n' rest (s :: stack) else none

section

variable {t : TreeTopology} {code : List Byte} {height : ℕ} {elements : Set ℕ}

theorem Runs.leaf {op : SelOp} {operands : List Byte} {s : PanelSet}
    (hop : op ≠ .and ∧ op ≠ .or ∧ op ≠ .not) (hs : (s : Set ℕ) = elements)
    (h : ∀ rest, selEvalLeaf t.index op.toByte (operands ++ rest) = some (s, rest)) :
    Runs t (op.toByte :: operands) 1 elements := by
  refine ⟨s, hs, fun n rest stack hn => ?_⟩
  rw [List.length_append, List.length_cons] at hn
  cases n with
  | zero => omega
  | succ n =>
      refine ⟨n, by omega, ?_⟩
      rw [List.cons_append, selRun_leaf t.index n _ stack hop, h rest]
      by_cases hroom : stack.length + 1 ≤ selStackMax
      · rw [if_neg (by omega), if_pos hroom]
      · rw [if_pos (by omega), if_neg hroom]

theorem count_index : t.index.count = t.count := by
  rw [TreeTopology.index_eq]
  rfl

theorem Runs.not (hlt : ∀ x ∈ elements, x < t.count) (h : Runs t code height elements) :
    Runs t (code ++ [SelOp.toByte .not]) height {s | s < t.count ∧ s ∉ elements} := by
  obtain ⟨s, rfl, hrun⟩ := h
  refine ⟨s.invert t.index.count, ?_, fun n rest stack hn => ?_⟩
  · ext x
    have hx := hlt x
    rw [PanelSet.invert, count_index, Finset.mem_coe, Finset.mem_symmDiff, Finset.mem_range]
    change _ ↔ x < t.count ∧ x ∉ s
    tauto
  · rw [List.append_assoc] at hn ⊢
    obtain ⟨n', hn', hcode⟩ := hrun n _ stack hn
    rw [List.singleton_append, List.length_cons] at hn'
    cases n' with
    | zero => omega
    | succ n' => exact ⟨n', by omega, hcode⟩

/-- What two codes leave is joined. -/
theorem Runs.join {code' : List Byte} {height' : ℕ} {elements' : Set ℕ} {op : SelOp}
    (hop : op = .and ∨ op = .or) (h : Runs t code height elements)
    (h' : Runs t code' height' elements') :
    Runs t (code ++ (code' ++ [op.toByte])) (max height (1 + height'))
      (if op = .and then elements ∩ elements' else elements ∪ elements') := by
  obtain ⟨s, rfl, hrun⟩ := h
  obtain ⟨s', rfl, hrun'⟩ := h'
  refine ⟨if op = .and then s ∩ s' else s ∪ s', ?_, fun n rest stack hn => ?_⟩
  · split_ifs
    · exact Finset.coe_inter s s'
    · exact Finset.coe_union s s'
  · have hrest : rest.length ≤ n := by
      rw [List.length_append] at hn
      omega
    rw [List.append_assoc] at hn ⊢
    obtain ⟨n₁, hn₁, hfirst⟩ := hrun n _ stack hn
    rw [hfirst]
    by_cases hroom : stack.length + height ≤ selStackMax
    · rw [if_pos hroom]
      rw [List.append_assoc] at hn₁ ⊢
      obtain ⟨n₂, hn₂, hsecond⟩ := hrun' n₁ _ (s :: stack) hn₁
      rw [hsecond, List.length_cons]
      by_cases hroom' : stack.length + 1 + height' ≤ selStackMax
      · have hboth : stack.length + max height (1 + height') ≤ selStackMax := by omega
        rw [if_pos hroom']
        rw [List.singleton_append, List.length_cons] at hn₂
        cases n₂ with
        | zero => omega
        | succ n₂ =>
            refine ⟨n₂, by omega, ?_⟩
            rw [if_pos hboth]
            exact selRun_join t.index n₂ rest stack hop s s'
      · have hboth : ¬stack.length + max height (1 + height') ≤ selStackMax := by omega
        exact ⟨n, hrest, by rw [if_neg hroom', if_neg hboth]⟩
    · have hboth : ¬stack.length + max height (1 + height') ≤ selStackMax := by omega
      exact ⟨n, hrest, by rw [if_neg hroom, if_neg hboth]⟩

end

/-! ### Tokens -/

section

variable (t : TreeTopology)

theorem coe_slotsWhere (p : ℕ → Bool) :
    (slotsWhere t.index p : Set ℕ) = {s | s < t.count ∧ p s = true} := by
  ext s
  rw [slotsWhere, count_index, Finset.mem_coe, Finset.mem_filter, Finset.mem_range]
  rfl

theorem canonPos_index {s : ℕ} (hs : s < t.count) : t.index.canonPos s = t.position s := by
  rw [TreeTopology.index_eq]
  exact t.numberFrom_position hs

theorem depth_index {s : ℕ} (hs : s < t.count) : t.index.depth s = t.depth s := by
  rw [TreeTopology.index_eq]
  exact t.depth_searched hs

theorem toNat_u8 {n : ℕ} (hn : n ≤ 255) : (u8 n).toNat = n := by
  rw [u8, BitVec.toNat_ofNat, Nat.mod_eq_of_lt (by omega)]

theorem slotOf_index {n s : ℕ} (hn : n ≤ 255) :
    t.index.graph.slotOf (u8 n).toNat = some s ↔ HasIndex t s n := by
  have hslot : t.index.graph.slotOf n = PanelGraph.slotTable t.panels n := by
    rw [TreeTopology.index_eq]
    rfl
  rw [toNat_u8 hn, hslot, t.slotTable_eq_some]
  rfl

theorem HasIndex.lt {t : TreeTopology} {s n : ℕ} (h : HasIndex t s n) : s < t.count :=
  t.lt_of_getElem? h

/-- The slots of the children, counted by the search. -/
theorem childCount_index (s : ℕ) : t.index.childCount s =
    ((Finset.range t.count).filter fun v => t.searched.parent v = some s).card := by
  rw [TreeTopology.index_eq]
  exact t.sound_searched.1.childCount s

theorem mem_childSlots {s v : ℕ} :
    v ∈ (Finset.range t.count).filter (fun v => t.searched.parent v = some s) ↔ t.IsChild s v := by
  rw [Finset.mem_filter, Finset.mem_range, t.parent_searched]
  exact ⟨fun h => h.2, fun h => ⟨t.lt_of_adj h.1, h⟩⟩

theorem isLeaf_index {s : ℕ} : t.index.isLeaf s = true ↔ ∀ v, ¬t.IsChild s v := by
  rw [TopologyIndex.isLeaf, decide_eq_true_eq, childCount_index, Finset.card_eq_zero,
    Finset.eq_empty_iff_forall_notMem]
  exact forall_congr' fun v => (mem_childSlots t).not

theorem isBranch_index {s : ℕ} :
    t.index.isBranch s = true ↔ ∃ v v', v ≠ v' ∧ t.IsChild s v ∧ t.IsChild s v' := by
  rw [TopologyIndex.isBranch, decide_eq_true_eq, childCount_index, ← Nat.lt_iff_add_one_le,
    Finset.one_lt_card]
  constructor
  · rintro ⟨v, hv, v', hv', hne⟩
    exact ⟨v, v', hne, (mem_childSlots t).mp hv, (mem_childSlots t).mp hv'⟩
  · rintro ⟨v, v', hne, hv, hv'⟩
    exact ⟨v, (mem_childSlots t).mpr hv, v', (mem_childSlots t).mpr hv', hne⟩

theorem setOf_lt_congr {p q : ℕ → Prop} (h : ∀ s < t.count, (p s ↔ q s)) :
    {s | s < t.count ∧ p s} = {s | s < t.count ∧ q s} := by
  ext s
  exact and_congr_right (h s)

theorem runs_word (w : SelWord) : Runs t [w.op.toByte] 1 (w.meaning t) := by
  cases w with
  | all =>
      refine .leaf (s := slotsWhere t.index fun _ => true) (by decide) ?_ fun rest => rfl
      rw [coe_slotsWhere, SelWord.meaning]
      simp
  | root =>
      refine .leaf (s := {t.index.rootSlot}) (by decide) ?_ fun rest => rfl
      rw [TreeTopology.index_eq, SelWord.meaning]
      exact Finset.coe_singleton t.root
  | leaves =>
      refine .leaf (s := slotsWhere t.index t.index.isLeaf) (by decide) ?_ fun rest => rfl
      rw [coe_slotsWhere, SelWord.meaning]
      exact setOf_lt_congr t fun s _ => isLeaf_index t
  | branches =>
      refine .leaf (s := slotsWhere t.index t.index.isBranch) (by decide) ?_ fun rest => rfl
      rw [coe_slotsWhere, SelWord.meaning]
      exact setOf_lt_congr t fun s _ => isBranch_index t
  | even =>
      refine .leaf (s := slotsWhere t.index fun x => t.index.canonPos x % 2 = 0) (by decide) ?_
        fun rest => rfl
      rw [coe_slotsWhere, SelWord.meaning]
      refine setOf_lt_congr t fun s hs => ?_
      rw [decide_eq_true_eq, canonPos_index t hs, Nat.even_iff]
  | odd =>
      refine .leaf (s := slotsWhere t.index fun x => t.index.canonPos x % 2 = 1) (by decide) ?_
        fun rest => rfl
      rw [coe_slotsWhere, SelWord.meaning]
      refine setOf_lt_congr t fun s hs => ?_
      rw [decide_eq_true_eq, canonPos_index t hs, Nat.odd_iff]

theorem runs_depth {lo hi : ℕ} (hlo : lo ≤ 255) (hhi : hi ≤ 255) :
    Runs t [SelOp.toByte .depth, u8 lo, u8 hi] 1
      {s | s < t.count ∧ lo ≤ t.depth s ∧ t.depth s ≤ hi} := by
  refine .leaf (s := slotsWhere t.index fun x =>
    (u8 lo).toNat ≤ t.index.depth x && t.index.depth x ≤ (u8 hi).toNat) (by decide) ?_
    fun rest => rfl
  rw [coe_slotsWhere]
  refine setOf_lt_congr t fun s hs => ?_
  rw [Bool.and_eq_true, decide_eq_true_eq, decide_eq_true_eq, depth_index t hs, toNat_u8 hlo,
    toNat_u8 hhi]

/-- An operator on one panel; there is nothing where the panel is missing. -/
theorem runs_panel {op : SelOp} (hop : op ≠ .and ∧ op ≠ .or ∧ op ≠ .not) {f : ℕ → PanelSet}
    {M : ℕ → Set ℕ} (hf : ∀ u < t.count, (f u : Set ℕ) = M u) {n : ℕ}
    (hn : n ≤ 255)
    (heval : ∀ rest, selEvalLeaf t.index op.toByte (u8 n :: rest) =
      match t.index.graph.slotOf (u8 n).toNat with
      | some sl => some (f sl, rest)
      | none => some (∅, rest)) :
    Runs t [op.toByte, u8 n] 1 {s | ∃ u, HasIndex t u n ∧ s ∈ M u} := by
  cases hslot : t.index.graph.slotOf (u8 n).toNat with
  | some u =>
      have hu := (slotOf_index t hn).mp hslot
      refine .leaf (s := f u) hop ?_ fun rest => ?_
      · rw [hf u hu.lt]
        ext s
        refine ⟨fun hs => ⟨u, hu, hs⟩, ?_⟩
        rintro ⟨u', hu', hs⟩
        have hsame := (slotOf_index t hn).mpr hu'
        rw [hslot, Option.some.injEq] at hsame
        exact hsame ▸ hs
      · rw [List.singleton_append, heval, hslot]
  | none =>
      refine .leaf (s := ∅) hop ?_ fun rest => ?_
      · rw [Finset.coe_empty, eq_comm, Set.eq_empty_iff_forall_notMem]
        rintro s ⟨u, hu, -⟩
        rw [(slotOf_index t hn).mpr hu] at hslot
        cases hslot
      · rw [List.singleton_append, heval, hslot]

theorem runs_subtree {n : ℕ} (hn : n ≤ 255) :
    Runs t [SelOp.toByte .subtree, u8 n] 1 {s | ∃ u, HasIndex t u n ∧ t.Descendant u s} := by
  refine runs_panel t (by decide) (f := fun u => t.index.fillSubtree u ∅)
    (M := fun u => {s | t.Descendant u s}) (fun u hu => ?_) hn fun rest => rfl
  ext s
  rw [Finset.mem_coe, t.mem_fillSubtree hu]
  exact or_iff_right (Finset.notMem_empty s)

theorem runs_neighbors {n : ℕ} (hn : n ≤ 255) :
    Runs t [SelOp.toByte .neighbors, u8 n] 1 {s | ∃ u, HasIndex t u n ∧ t.graph.Adj u s} := by
  refine runs_panel t (by decide)
    (f := fun u => ((t.index.graph.neighbors u).map Neighbor.slot).toFinset)
    (M := fun u => {s | t.graph.Adj u s}) (fun u _ => ?_) hn fun rest => rfl
  ext s
  rw [Finset.mem_coe, List.mem_toFinset, TreeTopology.index_eq]
  exact t.mem_neighborSlots

theorem runs_first {k : ℕ} (hk : k ≤ 255) :
    Runs t [SelOp.toByte .first, u8 k] 1 {s | s < t.count ∧ t.position s < k} := by
  refine .leaf (s := slotsWhere t.index fun x => t.index.canonPos x < (u8 k).toNat) (by decide) ?_
    fun rest => rfl
  rw [coe_slotsWhere]
  refine setOf_lt_congr t fun s hs => ?_
  rw [decide_eq_true_eq, canonPos_index t hs, toNat_u8 hk]

theorem runs_last {k : ℕ} (hk : k ≤ 255) :
    Runs t [SelOp.toByte .last, u8 k] 1 {s | s < t.count ∧ t.count ≤ t.position s + k} := by
  refine .leaf (s := selLast t.index (u8 k)) (by decide) ?_ fun rest => rfl
  rw [selLast, coe_slotsWhere]
  refine setOf_lt_congr t fun s hs => ?_
  rw [decide_eq_true_eq, canonPos_index t hs, toNat_u8 hk, count_index]
  split_ifs <;> omega

theorem runs_fraction (a b : Byte) :
    Runs t [SelOp.toByte .fraction, a, b] 1 {s | s < t.count ∧
      (a.toNat : ℚ) / 255 ≤ (t.position s : ℚ) / (t.count - 1 : ℕ) ∧
      (t.position s : ℚ) / (t.count - 1 : ℕ) ≤ (b.toNat : ℚ) / 255} := by
  refine .leaf (s := selFraction t.index a b) (by decide) ?_ fun rest => rfl
  rw [selFraction, count_index]
  by_cases hone : t.count ≤ 1
  · have hpos := t.root_lt
    have hcount : t.count = 1 := by omega
    rw [if_pos hone, hcount]
    ext s
    simp only [Finset.mem_coe, Set.mem_ofPred_eq, Nat.sub_self, Nat.cast_zero, div_zero]
    have hb : (0 : ℚ) ≤ (b.toNat : ℚ) / 255 := by positivity
    have ha : (a.toNat : ℚ) / 255 ≤ 0 ↔ a = 0 := by
      rw [div_le_iff₀ (by norm_num), zero_mul]
      constructor
      · intro h
        exact BitVec.eq_of_toNat_eq (Nat.le_zero.mp (by exact_mod_cast h))
      · rintro rfl
        simp
    rw [ha]
    split_ifs with hzero
    · simp [hzero, hb]
    · refine iff_of_false (Finset.notMem_empty s) ?_
      rintro ⟨-, hle, -⟩
      exact hzero hle
  · have hspan : (0 : ℚ) < (t.count - 1 : ℕ) := by
      have : 0 < t.count - 1 := by omega
      exact_mod_cast this
    rw [if_neg hone]
    dsimp only
    rw [coe_slotsWhere]
    refine setOf_lt_congr t fun s hs => ?_
    rw [Bool.and_eq_true, decide_eq_true_eq, decide_eq_true_eq, canonPos_index t hs,
      div_le_div_iff₀ (by norm_num) hspan, div_le_div_iff₀ hspan (by norm_num)]
    norm_cast

theorem mem_foldl_insert (ps : List Byte) (acc : PanelSet) (x : ℕ) :
    (x ∈ ps.foldl (fun s p =>
      match t.index.graph.slotOf p.toNat with
      | some sl => insert sl s
      | none => s) acc) ↔ x ∈ acc ∨ ∃ p ∈ ps, t.index.graph.slotOf p.toNat = some x := by
  induction ps generalizing acc with
  | nil => simp
  | cons p ps ih =>
      rw [List.foldl_cons, ih]
      cases hp : t.index.graph.slotOf p.toNat with
      | none => simp [hp]
      | some sl => simp [hp, or_assoc, or_left_comm, eq_comm]

theorem runs_indices {panels : List Numeral} (hvalues : ∀ n ∈ panels, n.value ≤ 255)
    (hlen : panels.length ≤ selMaxIndexList) :
    Runs t (indicesCode panels) 1 {s | ∃ n ∈ panels, HasIndex t s n.value} := by
  change Runs t (SelOp.toByte .indices :: u8 panels.length :: panels.map fun n => u8 n.value) 1 _
  refine .leaf (s := selIndices t.index (panels.map fun n => u8 n.value)) (by decide) ?_
    fun rest => ?_
  · ext s
    rw [Finset.mem_coe, selIndices, mem_foldl_insert]
    constructor
    · rintro (hs | ⟨p, hp, hslot⟩)
      · exact absurd hs (Finset.notMem_empty s)
      · obtain ⟨n, hn, rfl⟩ := List.mem_map.mp hp
        exact ⟨n, hn, (slotOf_index t (hvalues n hn)).mp hslot⟩
    · rintro ⟨n, hn, hs⟩
      exact .inr ⟨u8 n.value, List.mem_map.mpr ⟨n, hn, rfl⟩,
        (slotOf_index t (hvalues n hn)).mpr hs⟩
  · have hnat : (u8 panels.length).toNat = (panels.map fun n => u8 n.value).length := by
      rw [toNat_u8 (hlen.trans (by decide)), List.length_map]
    change (if ((panels.map fun n => u8 n.value) ++ rest).length < (u8 panels.length).toNat then none
      else some (selIndices t.index
        (((panels.map fun n => u8 n.value) ++ rest).take (u8 panels.length).toNat),
        ((panels.map fun n => u8 n.value) ++ rest).drop (u8 panels.length).toNat)) = _
    rw [hnat, if_neg (by rw [List.length_append]; omega), List.take_left', List.drop_left']
    · rfl
    · rfl

/-! ### Fractions -/

theorem roundHalfEven_nonneg {x : ℚ} (hx : 0 ≤ x) : 0 ≤ Single.roundHalfEven x := by
  have hfloor : 0 ≤ ⌊x⌋ := Int.floor_nonneg.mpr hx
  rw [Single.roundHalfEven]
  split_ifs <;> omega

theorem twoPow_pos (e : ℤ) : 0 < Single.twoPow e := by
  rw [Single.twoPow]
  split_ifs <;> positivity

theorem round_nonneg {x : ℚ} (hx : 0 ≤ x) : 0 ≤ Single.round x := by
  rw [Single.round]
  split_ifs
  · exact le_rfl
  · have hulp := twoPow_pos (Single.exponent x - 23)
    have hnum : (0 : ℚ) ≤ Single.roundHalfEven (x / Single.twoPow (Single.exponent x - 23)) := by
      exact_mod_cast roundHalfEven_nonneg (by positivity)
    positivity

theorem addDigits_nonneg {sum divisor : ℚ} (hsum : 0 ≤ sum) (hdivisor : 0 ≤ divisor) (p : Text) :
    0 ≤ DecimalNumeral.addDigits sum divisor p := by
  induction p generalizing sum divisor with
  | nil => exact hsum
  | cons c p ih =>
      have hdigit : 0 ≤ Single.div (digitVal c : ℚ) divisor := round_nonneg (by positivity)
      exact ih (round_nonneg (by positivity)) (round_nonneg (by positivity))

theorem DecimalNumeral.value_nonneg (x : DecimalNumeral) : 0 ≤ x.value := by
  have hwhole : 0 ≤ Single.round (x.whole.value : ℚ) := round_nonneg (by positivity)
  rw [DecimalNumeral.value]
  cases x.frac with
  | none => exact hwhole
  | some f =>
      have hdigits := @addDigits_nonneg 0 10 le_rfl (by norm_num) f.digits
      exact round_nonneg (by positivity)

/-- A bound a little above 1 still becomes the last byte. -/
theorem fractionByte_of_one_le {x : ℚ} (hx : 1 ≤ x)
    (hsmall : Single.add (Single.mul x 255) (1 / 2) < 256) : fractionByte x = 255 := by
  have hmul : 255 * (1 - 1 / 2 ^ 24) ≤ Single.mul x 255 :=
    le_trans (by linarith) (Single.mul_le_round (by positivity : (0 : ℚ) ≤ x * 255))
  have hadd : 255 ≤ Single.add (Single.mul x 255) (1 / 2) := by
    refine le_trans ?_ (Single.mul_le_round (by linarith))
    linarith
  have hfloor : ⌊Single.add (Single.mul x 255) (1 / 2)⌋ = 255 := by
    rw [Int.floor_eq_iff]
    exact ⟨by exact_mod_cast hadd, by norm_num; exact hsmall⟩
  rw [fractionByte, Single.toNat, hfloor]
  rfl

/-! ### Expressions -/

theorem runs_token {tok : SelToken} (hrange : tok.InRange) (hord : tok.Ordinary) :
    Runs t tok.code 1 (tok.meaning t) := by
  cases tok with
  | word w => exact runs_word t w
  | depth lo hi => exact runs_depth t hrange.1 hrange.2
  | subtree n => exact runs_subtree t hrange
  | neighbors n => exact runs_neighbors t hrange
  | fraction lo hi =>
      have hlo : fractionByte (max 0 (min lo.value 1)) = fractionByte (max lo.value 0) := by
        rcases le_total lo.value 1 with hle | hge
        · rw [min_eq_left hle, max_comm]
        · rw [min_eq_right hge, max_eq_right zero_le_one, max_eq_left lo.value_nonneg,
            fractionByte_of_one_le hge hord.2]
          decide +kernel
      have hhi : max 0 (min hi.value 1) = min hi.value 1 :=
        max_eq_right (le_min hi.value_nonneg zero_le_one)
      rw [SelToken.code, SelToken.meaning, fractionBound, fractionBound, hlo, hhi]
      exact runs_fraction t _ _
  | first k => exact runs_first t hrange
  | last k => exact runs_last t hrange

end

/-- To prove something of all selectors. -/
theorem SelExpr.induct {P : SelExpr → Prop} (htoken : ∀ tok, P (.token tok))
    (hindices : ∀ panels, P (.indices panels)) (hexclude : ∀ panels, P (.exclude panels))
    (hany : ∀ es, (∀ e ∈ es, P e) → P (.any es)) (hall : ∀ es, (∀ e ∈ es, P e) → P (.all es))
    (hnot : ∀ e, P e → P (.not e)) : ∀ e, P e
  | .token tok => htoken tok
  | .indices panels => hindices panels
  | .exclude panels => hexclude panels
  | .any es => hany es fun e _ => SelExpr.induct htoken hindices hexclude hany hall hnot e
  | .all es => hall es fun e _ => SelExpr.induct htoken hindices hexclude hany hall hnot e
  | .not e => hnot e (SelExpr.induct htoken hindices hexclude hany hall hnot e)

section

variable {t : TreeTopology}

theorem SelToken.meaning_lt {tok : SelToken} {x : ℕ} (hx : x ∈ tok.meaning t) : x < t.count := by
  cases tok with
  | word w =>
      cases w with
      | all => exact hx
      | root =>
          rw [SelToken.meaning, SelWord.meaning, Set.mem_singleton_iff] at hx
          rw [hx]
          exact t.root_lt
      | leaves => exact hx.1
      | branches => exact hx.1
      | even => exact hx.1
      | odd => exact hx.1
  | depth lo hi => exact hx.1
  | subtree n =>
      obtain ⟨u, hu, hdesc⟩ := hx
      exact hdesc.lt_count hu.lt
  | neighbors n =>
      obtain ⟨u, -, hadj⟩ := hx
      exact t.lt_of_adj hadj
  | fraction lo hi => exact hx.1
  | first k => exact hx.1
  | last k => exact hx.1

theorem SelExpr.meaning_lt {e : SelExpr} : ∀ {x : ℕ}, x ∈ e.meaning t → x < t.count := by
  induction e using SelExpr.induct with
  | htoken tok =>
      intro x hx
      rw [SelExpr.meaning] at hx
      exact tok.meaning_lt hx
  | hindices panels =>
      intro x hx
      rw [SelExpr.meaning] at hx
      obtain ⟨n, -, hn⟩ := hx
      exact hn.lt
  | hexclude panels =>
      intro x hx
      rw [SelExpr.meaning] at hx
      exact hx.1
  | hany es ih =>
      intro x hx
      rw [SelExpr.meaning] at hx
      induction es with
      | nil => exact absurd hx (by rw [anyMeaning]; exact Set.notMem_empty x)
      | cons e es ihes =>
          rw [anyMeaning] at hx
          rcases hx with hx | hx
          · exact ih e List.mem_cons_self hx
          · exact ihes (fun e' he' => ih e' (List.mem_cons_of_mem e he')) hx
  | hall es ih =>
      intro x hx
      rw [SelExpr.meaning] at hx
      cases es with
      | nil =>
          rw [allMeaning] at hx
          exact hx
      | cons e es =>
          rw [allMeaning] at hx
          exact ih e List.mem_cons_self hx.1
  | hnot e ih =>
      intro x hx
      rw [SelExpr.meaning] at hx
      exact hx.1

/-- The elements of a composition behind what is on the stack for those before them. -/
theorem Runs.list {op : SelOp} (hop : op = .and ∨ op = .or) {es : List SelExpr}
    (hes : ∀ e ∈ es, Runs t e.code e.height (e.meaning t)) {code : List Byte} {height : ℕ}
    {elements : Set ℕ} (hlt : ∀ x ∈ elements, x < t.count) (h : Runs t code height elements)
    {cnt : ℕ} (hcnt : 1 ≤ cnt) :
    Runs t (code ++ listCode op cnt es) (max height (listHeight 1 es))
      (if op = .and then elements ∩ allMeaning t es else elements ∪ anyMeaning t es) := by
  induction es generalizing code height elements cnt with
  | nil =>
      have hall : elements ∩ {s | s < t.count} = elements := Set.inter_eq_left.mpr hlt
      rw [listCode, listHeight, allMeaning, anyMeaning, List.append_nil, Nat.max_zero,
        Set.union_empty, hall, ite_self]
      exact h
  | cons e es ih =>
      have hjoin := h.join hop (hes e List.mem_cons_self)
      have hboth : ∀ x ∈ (if op = .and then elements ∩ e.meaning t else elements ∪ e.meaning t),
          x < t.count := by
        intro x hx
        split_ifs at hx
        · exact hlt x hx.1
        · rcases hx with hx | hx
          · exact hlt x hx
          · exact e.meaning_lt hx
      have hrest := ih (fun e' he' => hes e' (List.mem_cons_of_mem e he')) hboth hjoin
        (hcnt.trans (Nat.le_succ cnt))
      rw [listCode, listHeight, if_pos hcnt, ← List.append_assoc, ← Nat.max_assoc]
      convert hrest using 1
      rw [allMeaning, anyMeaning]
      rcases hop with rfl | rfl
      · simp only [if_true, Set.inter_assoc]
      · simp only [reduceCtorEq, if_false, Set.union_assoc]

theorem mem_listInRange {es : List SelExpr} (h : listInRange es) : ∀ e ∈ es, e.InRange := by
  induction es with
  | nil => exact nofun
  | cons e es ih =>
      rw [listInRange] at h
      intro e' he'
      rcases List.mem_cons.mp he' with rfl | he'
      · exact h.1
      · exact ih h.2 e' he'

theorem mem_listTokens {es : List SelExpr} {e : SelExpr} (he : e ∈ es) {tok : SelToken}
    (htok : tok ∈ e.tokens) : tok ∈ listTokens es := by
  induction es with
  | nil => exact nomatch he
  | cons e' es ih =>
      rw [listTokens]
      rcases List.mem_cons.mp he with rfl | he
      · exact List.mem_append_left _ htok
      · exact List.mem_append_right _ (ih he)

/-- The code of a composition. -/
theorem runs_composition {op : SelOp} (hop : op = .and ∨ op = .or) {es : List SelExpr}
    (hne : es ≠ []) (hes : ∀ e ∈ es, Runs t e.code e.height (e.meaning t)) :
    Runs t (listCode op 0 es) (listHeight 0 es)
      (if op = .and then allMeaning t es else anyMeaning t es) := by
  cases es with
  | nil => exact absurd rfl hne
  | cons e es =>
      have h := Runs.list hop (fun e' he' => hes e' (List.mem_cons_of_mem e he'))
        (fun x hx => e.meaning_lt hx) (hes e List.mem_cons_self) (le_refl 1)
      rw [listCode, listHeight, if_neg (by decide), List.append_nil, allMeaning, anyMeaning,
        Nat.zero_add, Nat.zero_add]
      exact h

theorem runs_code {e : SelExpr} (hrange : e.InRange) (hord : ∀ tok ∈ e.tokens, tok.Ordinary) :
    Runs t e.code e.height (e.meaning t) := by
  induction e using SelExpr.induct with
  | htoken tok =>
      rw [SelExpr.InRange] at hrange
      rw [SelExpr.tokens] at hord
      rw [SelExpr.code, SelExpr.height, SelExpr.meaning]
      exact runs_token t hrange (hord tok List.mem_cons_self)
  | hindices panels =>
      rw [SelExpr.InRange] at hrange
      rw [SelExpr.code, SelExpr.height, SelExpr.meaning]
      exact runs_indices t hrange.1 hrange.2
  | hexclude panels =>
      rw [SelExpr.InRange] at hrange
      rw [SelExpr.code, SelExpr.height, SelExpr.meaning]
      exact (runs_indices t hrange.1 hrange.2).not fun x hx => by
        obtain ⟨n, _, hn⟩ := hx
        exact hn.lt
  | hany es ih =>
      rw [SelExpr.InRange] at hrange
      rw [SelExpr.tokens] at hord
      rw [SelExpr.code, SelExpr.height, SelExpr.meaning]
      exact runs_composition (.inr rfl) hrange.1 fun e he =>
        ih e he (mem_listInRange hrange.2 e he) fun tok htok => hord tok (mem_listTokens he htok)
  | hall es ih =>
      rw [SelExpr.InRange] at hrange
      rw [SelExpr.tokens] at hord
      rw [SelExpr.code, SelExpr.height, SelExpr.meaning]
      exact runs_composition (.inl rfl) hrange.1 fun e he =>
        ih e he (mem_listInRange hrange.2 e he) fun tok htok => hord tok (mem_listTokens he htok)
  | hnot e ih =>
      rw [SelExpr.InRange] at hrange
      rw [SelExpr.tokens] at hord
      rw [SelExpr.code, SelExpr.height, SelExpr.meaning]
      exact (ih hrange hord).not fun x hx => e.meaning_lt hx

end

/-! ### Six selectors within each other -/

/-- A union of all panels and another such union, so many within each other. -/
def nested : ℕ → SelExpr
  | 0 => .token (.word .all)
  | k + 1 => .any [.token (.word .all), nested k]

def nestedText : ℕ → Text
  | 0 => bytes "\"all\""
  | k + 1 => bytes "\x7b\"any\":[\"all\"," ++ (nestedText k ++ bytes "]\x7d")

theorem quoted_all (rest : Text) : Quoted (SelToken.text (.word .all)) (bytes "all\"" ++ rest) rest :=
  .plain (by decide) (by decide) (.plain (by decide) (by decide)
    (.plain (by decide) (by decide) (.done rest)))

theorem selText_nested (k : ℕ) (rest : Text) : SelText (nested k) (nestedText k ++ rest) rest := by
  induction k generalizing rest with
  | zero => exact .token (quoted_all rest)
  | succ k ih =>
      have hall := SelText.token (quoted_all (ch ',' :: (nestedText k ++ bytes "]\x7d" ++ rest)))
      have hlast := ih (bytes "]\x7d" ++ rest)
      rw [← List.append_assoc] at hlast
      refine @SelText.any _ _ (bytes "\"all\"," ++ (nestedText k ++ bytes "]\x7d" ++ rest))
        (ch '\x7d' :: rest) _ ⟨⟨_, _, _, .refl _, ?_, .refl _, .refl _⟩, .refl _⟩
        (.cons (.refl _) hall (.refl _) (.last (.refl _) hlast (.refl _)))
      exact .plain (by decide) (by decide) (.plain (by decide) (by decide)
        (.plain (by decide) (by decide) (.done _)))

/-- Two panels. -/
def pairTopology : TreeTopology where
  panels := [1, 2]
  links := [⟨1, 0, 2, 1⟩]
  logicalRoot := 1
  ne_nil := by decide
  length_le := by decide
  nodup := by decide
  panel_le := by decide
  ends_mem := by decide
  no_loop := by decide
  once := List.pairwise_singleton _ _
  connectors := by decide
  connector_lt := by decide
  connected := by
    have hadj : (linkGraph [1, 2] [⟨1, 0, 2, 1⟩]).Adj 0 1 :=
      ⟨by decide, ⟨1, 0, 2, 1⟩, List.mem_cons_self, 1, 2, rfl, rfl, .inl ⟨rfl, rfl⟩⟩
    intro a ha b hb
    change a < 2 at ha
    change b < 2 at hb
    obtain rfl | rfl : a = 0 ∨ a = 1 := by omega
    · obtain rfl | rfl : b = 0 ∨ b = 1 := by omega
      · exact .refl _
      · exact hadj.reachable
    · obtain rfl | rfl : b = 0 ∨ b = 1 := by omega
      · exact hadj.symm.reachable
      · exact .refl _
  acyclic := by
    have hle : linkGraph [1, 2] [⟨1, 0, 2, 1⟩] ≤ ⊥ ⊔ SimpleGraph.edge 0 1 := by
      rintro a b ⟨hne, l, -, p, q, hp, hq, -⟩
      have ha : a < 2 := (List.getElem?_eq_some_iff.mp hp).1
      have hb : b < 2 := (List.getElem?_eq_some_iff.mp hq).1
      refine .inr ((SimpleGraph.edge_adj 0 1 a b).mpr ⟨?_, hne⟩)
      omega
    refine .anti hle (SimpleGraph.isAcyclic_bot.sup_edge_of_not_reachable ?_)
    rw [SimpleGraph.reachable_bot]
    decide

theorem ordinary_nested (k : ℕ) : ∀ tok ∈ (nested k).tokens, tok.Ordinary := by
  have hall : ∀ tok ∈ SelExpr.tokens (.token (.word .all)), tok.Ordinary := by
    intro tok htok
    rw [SelExpr.tokens] at htok
    rw [List.mem_singleton.mp htok]
    exact ⟨⟨by decide, trivial⟩, trivial⟩
  induction k with
  | zero => exact hall
  | succ k ih =>
      intro tok htok
      rw [nested, SelExpr.tokens, listTokens, listTokens, listTokens, List.append_nil] at htok
      rcases List.mem_append.mp htok with htok | htok
      · exact hall tok htok
      · exact ih tok htok

/-- A selector that is accepted finds the panels that it means if and only if its program needs no
more than the stack has room for. -/
theorem resolveSelector_parsed_iff (t : TreeTopology) {skip : Skipper} {fuel : ℕ} {e : SelExpr}
    {text written rest : Text} (htext : Blank text written) (he : SelText e written rest)
    (hord : ∀ tok ∈ e.tokens, tok.Ordinary) {x : PanelSelector × Text}
    (hok : parsePanelSelector skip fuel text = .ok x) :
    (∃ s, resolveSelector t.index x.1 = some s ∧ (s : Set ℕ) = e.meaning t) ↔
      e.height ≤ selStackMax := by
  obtain ⟨hrange, hops, -⟩ := parsePanelSelector_code he htext (fun tok h => (hord tok h).1) hok
  obtain ⟨s, hs, hrun⟩ := runs_code (t := t) hrange hord
  obtain ⟨n, -, hcode⟩ := hrun e.code.length [] [] (by rw [List.append_nil])
  rw [List.append_nil, List.length_nil, Nat.zero_add] at hcode
  have hresolve : resolveSelector t.index x.1 = if e.height ≤ selStackMax then some s else none := by
    rw [resolveSelector, hops, hcode]
    split_ifs
    · cases n <;> rfl
    · rfl
  rw [hresolve]
  split_ifs with hroom
  · exact iff_of_true ⟨s, rfl, hs⟩ hroom
  · exact iff_of_false (fun ⟨_, h, _⟩ => nomatch h) hroom

theorem nested_resolved : ∃ s, resolveSelector pairTopology.index ⟨[1, 1, 16], by decide⟩ = some s ∧
    (s : Set ℕ) = (nested 1).meaning pairTopology := by
  have htext := selText_nested 1 []
  rw [List.append_nil] at htext
  have hparse : parsePanelSelector (jsonSkipValue 100) 100 (nestedText 1) =
      .ok (⟨[1, 1, 16], by decide⟩, []) := by
    decide +kernel
  exact (resolveSelector_parsed_iff pairTopology (.refl _) htext (ordinary_nested 1) hparse).mpr
    (by decide)

/-- The parser lets seven sets through, the stack has room for six. -/
theorem nested_rejected : SelText (nested 6) (nestedText 6) [] ∧
    parsePanelSelector (jsonSkipValue 1000) 1000 (nestedText 6) =
      .ok (⟨[1, 1, 1, 1, 1, 1, 1, 16, 16, 16, 16, 16, 16], by decide⟩, []) ∧
    resolveSelector pairTopology.index
      ⟨[1, 1, 1, 1, 1, 1, 1, 16, 16, 16, 16, 16, 16], by decide⟩ = none := by
  refine ⟨?_, by decide +kernel, by decide +kernel⟩
  have h := selText_nested 6 []
  rwa [List.append_nil] at h

end Lightnet
