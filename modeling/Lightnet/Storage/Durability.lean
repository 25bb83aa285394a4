import Lightnet.Storage.KeyedRuns
import Lightnet.Storage.SingleRecordStore

/-!
# Acknowledged writes are durable where faults are told apart

A fault in reading the start of a database counts as a missing database, and the database is
created anew; a fault in a lookup counts as an absent record; a slot is live before its record is
written. In a run without these faults every acknowledged record stays until it is replaced or
removed, whatever other faults there are.
-/

namespace Lightnet.Storage

open Transition

/-- In a run whose steps are spared, the stores hold what they have acknowledged, and reads that
succeed report it. -/
theorem acknowledged_durable (c : KeyedStore) (d : SingleRecordStore) {s : KeyedStore.State}
    {t : SingleRecordStore.State} (hs : Reachable c.step c.Spared KeyedStore.State.empty s)
    (ht : Reachable d.step d.Spared SingleRecordStore.State.empty t) :
    (c.Durable s ∧ ∀ e, c.Spared s e → c.Reflects s e) ∧
      (d.Durable t ∧ ∀ e, d.Spared t e → d.Reflects t e) := by
  have hinv : c.Inv s := hs.invariant c.Inv (fun _ _ => KeyedStore.inv_step) KeyedStore.inv_empty
  have hinv' : d.Inv t := ht.invariant d.Inv (fun _ _ => SingleRecordStore.inv_step)
    SingleRecordStore.inv_empty
  exact ⟨⟨hinv.durable, fun e => KeyedStore.reflects_of_spared hinv⟩,
    hinv'.durable, fun e => SingleRecordStore.reflects_of_spared hinv'⟩

/-! ### Runs without faults, and a run with one -/

section

variable (modelVersion : Byte) (n : ℕ) (file : File)

theorem openSpared_noFaults : OpenSpared noFaults modelVersion file :=
  fun _ _ => ⟨rfl, rfl, rfl, rfl⟩

theorem insertSpared_noFaults : InsertSpared n noFaults file :=
  fun _ => ⟨fun _ _ _ => ⟨rfl, rfl⟩, fun _ _ _ => ⟨rfl, rfl, rfl, rfl, rfl, rfl⟩⟩

theorem replaceSpared_noFaults : ReplaceSpared noFaults := fun _ _ _ _ => nofun

end

theorem KeyedStore.spared_noFaults_create (c : KeyedStore) (s : KeyedStore.State)
    (record : List Byte) (h : record.length = c.recordSize) :
    c.Spared s (noFaults, .create record h) := by
  refine fun _ => ⟨openSpared_noFaults _ _, fun _ => ⟨fun _ => ⟨⟨rfl, fun slot _ => ⟨rfl, ?_⟩⟩,
    fun _ _ _ => ⟨rfl, rfl⟩⟩, fun _ => insertSpared_noFaults _ _⟩⟩
  split_ifs
  · rfl
  · exact fun _ => rfl

theorem SingleRecordStore.spared_noFaults (c : SingleRecordStore) (s : SingleRecordStore.State)
    (op : c.Op) : c.Spared s (noFaults, op) := by
  refine ⟨openSpared_noFaults _ _, ?_⟩
  cases op with
  | load => trivial
  | save record h =>
      exact fun _ _ => ⟨fun _ => ⟨⟨rfl, rfl⟩, replaceSpared_noFaults⟩,
        fun _ => insertSpared_noFaults _ _⟩

def redPalette : List Byte := bytes "red" ++ List.replicate 29 0 ++ [1] ++ List.replicate 64 0

theorem length_redPalette : redPalette.length = paletteStore.recordSize := by decide

/-- The palette has been created. -/
def withRedPalette : KeyedStore.State :=
  paletteStore.step .empty (noFaults, .create redPalette length_redPalette)

def withConfiguration : SingleRecordStore.State :=
  configurationStore.step .empty (noFaults, .save [2] rfl)

theorem acknowledged_durable_redPalette :
    paletteStore.Durable withRedPalette ∧ configurationStore.Durable withConfiguration := by
  have h := acknowledged_durable paletteStore configurationStore
    (.tail _ .refl (paletteStore.spared_noFaults_create _ redPalette length_redPalette))
    (.tail _ .refl (configurationStore.spared_noFaults _ (.save [2] rfl)))
  exact ⟨h.1.1, h.2.1⟩

/-- One failed read of the version byte. -/
def versionFault : Faults := fun a => if a = .versionRead then some 0 else none

/-- A get that fails to read the version byte erases the palette. -/
theorem not_durable_versionFault :
    ¬∀ s, Reachable paletteStore.step (fun _ _ => True) KeyedStore.State.empty s →
      paletteStore.Durable s := by
  intro h
  have hdurable := h (paletteStore.step withRedPalette (versionFault, .get (bytes "red")))
    (.tail _ (.tail _ .refl trivial) trivial)
  have hkept : (paletteStore.step withRedPalette
      (versionFault, .get (bytes "red"))).acknowledged (bytes "red") = some redPalette := by
    decide +kernel
  have hlength : (paletteStore.step withRedPalette
      (versionFault, .get (bytes "red"))).file.length ≤ recordsStartOffset := by decide +kernel
  obtain ⟨slot, hstores, -⟩ := (hdurable.kept _ _).1 hkept
  exact not_isLive_of_slotCount (slotCount_of_length_le hlength) slot hstores.1

end Lightnet.Storage
