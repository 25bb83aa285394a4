import Lightnet.Library.CyclicCounter
import Lightnet.Playback.GroupPools

/-!
# Groups in turn

The cursor of a pool is a free-running number of sixteen bits. The groups take turns by it until it
wraps; where the size of the pool does not divide its range, some are then drawn out of turn.
-/

namespace Lightnet

open CyclicCounter

/-- The groups of a number of draws, one after the other. -/
def poolDraws (base size : Byte) : ℕ → Ticks → List Byte
  | 0, _ => []
  | n + 1, cursor =>
    let (g, cursor) := spawnPoolNext cursor base size
    g :: poolDraws base size n cursor

theorem length_poolDraws (base size : Byte) (n : ℕ) (cursor : Ticks) :
    (poolDraws base size n cursor).length = n := by
  induction n generalizing cursor with
  | zero => rfl
  | succ n ih => exact congrArg (· + 1) (ih _)

/-- The draws of a run from the one of this number on. -/
def LayerSpawnState.draws (st : LayerSpawnState) (drawn n : ℕ) : List Byte :=
  (poolDraws st.poolBase st.poolSize (drawn + n) st.cursor).drop drawn

/-- The draws are of all groups of the pool, each once. -/
def LayerSpawnState.InTurn (st : LayerSpawnState) (gs : List Byte) : Prop :=
  gs.Nodup ∧ ∀ g, g ∈ gs ↔ st.InPool g

def cursorRange : ℕ := 65536

section
variable {base size : Byte}

theorem poolDraws_eq (hsize : size ≠ 0) (n : ℕ) (cursor : Ticks) :
    poolDraws base size n cursor =
      (List.range n).map fun j => base + u8 (slot cursorRange size.toNat cursor.toNat j) := by
  induction n generalizing cursor with
  | zero => rfl
  | succ n ih =>
      have hcursor : (cursor + 1).toNat = (cursor.toNat + 1) % cursorRange :=
        BitVec.toNat_add cursor 1
      rw [poolDraws, spawnPoolNext, if_neg hsize, List.range_succ_eq_map, List.map_cons,
        List.map_map]
      dsimp only
      rw [ih, hcursor]
      congr 1
      · have hlt : cursor.toNat % cursorRange = cursor.toNat := Nat.mod_eq_of_lt cursor.isLt
        rw [slot, Nat.add_zero, hlt]
      · refine List.map_congr_left fun j _ => ?_
        rw [slot_succ]
        rfl

end

namespace LayerSpawnState

variable {st : LayerSpawnState}

theorem draws_eq (hsize : st.poolSize ≠ 0) (hcursor : st.cursor = 0) (drawn n : ℕ) :
    st.draws drawn n = (List.range n).map fun j =>
      st.poolBase + u8 (slot cursorRange st.poolSize.toNat drawn j) := by
  rw [draws, poolDraws_eq hsize, hcursor, ← List.map_drop, List.range_add, List.drop_left',
    List.map_map]
  · refine List.map_congr_left fun j _ => ?_
    have hzero : (0 : Ticks).toNat + (drawn + j) = drawn + j := Nat.zero_add _
    simp only [Function.comp, slot, hzero]
  · exact List.length_range

/-- The group at a slot of the pool. -/
theorem toNat_group (hfits : st.poolBase.toNat + st.poolSize.toNat ≤ 256) {t : ℕ}
    (ht : t < st.poolSize.toNat) : (st.poolBase + u8 t).toNat = st.poolBase.toNat + t := by
  rw [BitVec.toNat_add, ScenePlayer.toNat_u8, Nat.mod_eq_of_lt (by omega : t < 256),
    Nat.mod_eq_of_lt (by omega)]

theorem inTurn_draws_iff (hsize : st.poolSize ≠ 0) (hcursor : st.cursor = 0)
    (hfits : st.poolBase.toNat + st.poolSize.toNat ≤ 256) (drawn : ℕ) :
    st.InTurn (st.draws drawn st.poolSize.toNat) ↔
      cursorRange % st.poolSize.toNat = 0 ∨
        drawn % cursorRange + st.poolSize.toNat ≤ cursorRange := by
  have hpos : 0 < st.poolSize.toNat := Nat.pos_of_ne_zero fun h =>
    hsize (BitVec.eq_of_toNat_eq h)
  have hbyte := st.poolSize.isLt
  have hlt (j : ℕ) := slot_lt (n := cursorRange) (k := drawn) hpos j
  have hgroup (j : ℕ) := toNat_group hfits (hlt j)
  have hle : st.poolSize.toNat ≤ cursorRange := by
    unfold cursorRange
    omega
  rw [← slot_injOn_iff hle, InTurn, draws_eq hsize hcursor, List.nodup_map_iff_inj_on List.nodup_range]
  constructor
  · rintro ⟨hinj, -⟩ a ha b hb heq
    exact hinj a (List.mem_range.mpr ha) b (List.mem_range.mpr hb) (by rw [heq])
  · intro hinj
    refine ⟨fun a ha b hb heq => hinj (List.mem_range.mp ha) (List.mem_range.mp hb) ?_, ?_⟩
    · have hnat := congrArg BitVec.toNat heq
      rw [hgroup, hgroup] at hnat
      exact Nat.add_left_cancel hnat
    · intro g
      rw [List.mem_map]
      constructor
      · rintro ⟨j, -, rfl⟩
        have hj := hlt j
        rw [InPool, hgroup]
        omega
      · rintro ⟨hlow, hhigh⟩
        obtain ⟨j, hj, heq⟩ := slot_surj hinj
          (show g.toNat - st.poolBase.toNat < st.poolSize.toNat by omega)
        refine ⟨j, List.mem_range.mpr hj, BitVec.eq_of_toNat_eq ?_⟩
        rw [hgroup, heq]
        omega

end LayerSpawnState

namespace ScenePlayer

theorem poolOf_cursor (p : ScenePlayer) (i : ℕ) : (p.poolOf i).cursor = 0 := by
  unfold poolOf
  split_ifs <;> rfl

/-- The draws of a pool take turns if its size divides the range of the cursor, or else as long as
the cursor does not wrap among them. -/
theorem poolOf_draws_inTurn_iff (p : ScenePlayer) (i drawn : ℕ) :
    (p.poolOf i).InTurn ((p.poolOf i).draws drawn (p.poolOf i).poolSize.toNat) ↔
      cursorRange % (p.poolOf i).poolSize.toNat = 0 ∨
        drawn % cursorRange + (p.poolOf i).poolSize.toNat ≤ cursorRange := by
  by_cases hsize : (p.poolOf i).poolSize = 0
  · have hdrawn : drawn % cursorRange < cursorRange := Nat.mod_lt _ (by decide)
    have hnone : (p.poolOf i).draws drawn (p.poolOf i).poolSize.toNat = [] := by
      apply List.drop_of_length_le
      rw [length_poolDraws, hsize]
      exact le_rfl
    refine iff_of_true ?_ (.inr ?_)
    · rw [hnone]
      refine ⟨List.nodup_nil, fun g => iff_of_false List.not_mem_nil fun hg => ?_⟩
      rw [LayerSpawnState.InPool, hsize] at hg
      exact absurd hg.2 (Nat.not_lt.mpr hg.1)
    · rw [hsize]
      exact hdrawn.le
  · exact LayerSpawnState.inTurn_draws_iff hsize (p.poolOf_cursor i) (p.poolOf_fits i) drawn

/-- A player with one layer, of waves that are launched twice in a step. -/
def poolWaves : ScenePlayer :=
  { init pairScene with
    layers := fun _ =>
      { SceneLayer.blank with
        groupId := 1
        steps := [{ SceneStep.zero with
          animType := .wave
          durationMs := 1000
          params := fun p => if p = .count then 2 else 0 }] }
    lCount := 1 }

/-- Group 2 is drawn by the last draw before the wrap and by the first one behind it. -/
theorem poolWaves_draws_repeat : (poolWaves.poolOf 0).poolSize = 3 ∧
    (poolWaves.poolOf 0).draws 65535 3 = [2, 2, 3] ∧
    ¬ (poolWaves.poolOf 0).InTurn ((poolWaves.poolOf 0).draws 65535 3) := by
  have hsize : (poolWaves.poolOf 0).poolSize = 3 := by decide
  have hdraws : (poolWaves.poolOf 0).draws 65535 3 = [2, 2, 3] := by
    rw [LayerSpawnState.draws_eq (by rw [hsize]; decide) (poolWaves.poolOf_cursor 0)]
    decide
  refine ⟨hsize, hdraws, fun h => ?_⟩
  rw [hdraws] at h
  exact absurd h.1 (by decide)

end ScenePlayer

end Lightnet
