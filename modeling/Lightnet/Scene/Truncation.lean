import Lightnet.Json.Cut
import Lightnet.Scene.Parser

/-!
# Scenes without their last brace

Every parser of the scenes reads the same from a text that is cut in front of its last brace. The
end of the text then stands for the brace, and what is left is accepted as the same scene.
-/

namespace Lightnet

namespace Cuts

/-! ### Selectors and colours -/

theorem selEmitIndexArray (fuel : ℕ) (complement : Bool) (out : PanelSelector) :
    Cuts (Lightnet.selEmitIndexArray fuel complement out) := by
  refine bind (whileElement (fun tmp => ?_) (fun tmp => ?_) _ _) fun tmp => ?_
  · exact (uintWhere _ _).bind fun v => (ensure _ _).bind fun _ => pure _
  · exact (RefusesBrace.uintWhere _ _).bind _
  · exact (ensure _ _).bind fun _ => lift _

theorem selAppend_refuses (skip : Skipper) (fuel levels : ℕ) (out : PanelSelector) :
    RefusesBrace (Lightnet.selAppend skip fuel levels out) := by
  cases levels with
  | zero => exact .reject _
  | succ levels => exact .peek (.reject _)

theorem selAppend (fuel levels : ℕ) (out : PanelSelector) :
    Cuts (Lightnet.selAppend (jsonSkipValue fuel) fuel levels out) := by
  induction levels generalizing out with
  | zero => exact reject _
  | succ levels ih =>
      refine peek (fun c => ?_) ?_
      · cases c with
        | none => exact reject _
        | some c =>
            refine ite ?_ (ite ?_ (ite ?_ (reject _)))
            · exact (readOr _ fun _ _ h => h.readString 40).bind fun tok => lift _
            · exact (enter _ (by decide)).bind fun _ => selEmitIndexArray fuel false out
            · refine (enter _ (by decide)).bind fun _ => ?_
              refine (whileKey 12 (fun key s => ?_) _ _).bind fun s => ?_
              · refine ite ?_ (ite ?_ (ite ?_ ?_))
                · refine (ensure _ _).bind fun _ => (enter _ (by decide)).bind fun _ => ?_
                  refine (whileElement (fun t => ?_) (fun t => ?_) _ _).bind fun t => ?_
                  · exact (ih t.2).bind fun out => (lift _).bind fun out => pure _
                  · exact (selAppend_refuses _ _ _ _).bind _
                  · exact (ensure _ _).bind fun _ => pure _
                · refine (ensure _ _).bind fun _ => (ih s.2).bind fun out => ?_
                  exact (lift _).bind fun out => pure _
                · refine (ensure _ _).bind fun _ => (enter _ (by decide)).bind fun _ => ?_
                  exact (selEmitIndexArray fuel true s.2).bind fun out => pure _
                · exact (skipUnknown fuel).bind fun _ => pure _
              · exact (ensure _ _).bind fun _ => pure _
      · exact .reject _

theorem parseColorRef (fuel : ℕ) (errMsg : Option Text) :
    Cuts (Lightnet.parseColorRef (jsonSkipValue fuel) fuel errMsg) := by
  refine peek (fun c => ?_) ?_
  · cases c with
    | none => exact reject _
    | some c =>
        refine ite ?_ ?_
        · refine (readOr _ fun _ _ h => h.readString 16).bind fun s => ?_
          cases jsonParseHexColor s with
          | none => exact reject _
          | some rgb => exact pure _
        · refine (enter _ (by decide)).bind fun _ => ?_
          refine (whileKey 12 (fun key out => ?_) _ _).bind fun out => ?_
          · refine ite ?_ (ite ?_ (ite ?_ ?_))
            · exact (uintWhere _ _).bind fun v => pure _
            · exact (uintWhere _ _).bind fun v => pure _
            · exact (uintWhere _ _).bind fun v => pure _
            · exact (skipUnknown fuel).bind fun _ => pure _
          · cases out with
            | none => exact reject _
            | some ref => exact pure _
  · exact (RefusesBrace.enter _ (by decide)).bind _

/-! ### Steps -/

theorem parseStepType (len : ℕ) (notString : Option Text) (unknown : String)
    (parse : Text → Option AnimationType) (draft : StepDraft) :
    Cuts (Lightnet.parseStepType len notString unknown parse draft) := by
  refine (readOr _ fun _ _ h => h.readString len).bind fun s => ?_
  cases parse s with
  | none => exact reject _
  | some t => exact (ensure _ _).bind fun _ => pure _

theorem stepUInt (errMsg : Option Text) (accept : ℕ → Bool) (set : SceneStep → ℕ → SceneStep)
    (draft : StepDraft) : Cuts (Lightnet.stepUInt errMsg accept set draft) :=
  (uintWhere _ _).bind fun _ => pure _

theorem stepBool (errMsg : Option Text) (set : SceneStep → SceneStep) (draft : StepDraft) :
    Cuts (Lightnet.stepBool errMsg set draft) :=
  (readOr _ fun _ _ h => h.readBool).bind fun _ => pure _

theorem stepColor (fuel : ℕ) (errMsg : Option Text) (set : SceneStep → ColorRef → SceneStep)
    (draft : StepDraft) : Cuts (Lightnet.stepColor (jsonSkipValue fuel) fuel errMsg set draft) :=
  (parseColorRef fuel errMsg).bind fun _ => pure _

theorem stepWord (errMsg : Option Text) (unknown : String)
    (set : SceneStep → Text → Except (Option Text) SceneStep) (draft : StepDraft) :
    Cuts (Lightnet.stepWord errMsg unknown set draft) :=
  (readOr _ fun _ _ h => h.readString 16).bind fun _ => (lift _).bind fun _ => pure _

theorem parseParams (fuel : ℕ) (draft : StepDraft) : Cuts (Lightnet.parseParams fuel draft) := by
  refine (enter _ (by decide)).bind fun _ => ?_
  refine (whileElement (fun s => ?_) (fun s => ?_) _ _).bind fun s => pure _
  · refine (uintWhere _ _).bind fun v => ?_
    by_cases h : s.2 < 5
    · simp only [h, dite_true]
      exact pure _
    · simp only [h, dite_false]
      exact reject _
  · exact (RefusesBrace.uintWhere _ _).bind _

theorem handleStepField (fuel : ℕ) (key : Text) (draft : StepDraft) :
    Cuts (Lightnet.handleStepField (jsonSkipValue fuel) fuel key draft) := by
  refine ite (parseStepType _ _ _ _ _) ?_
  refine ite (parseStepType _ _ _ _ _) ?_
  refine ite (stepColor _ _ _ _) ?_
  refine ite (stepColor _ _ _ _) ?_
  refine ite (stepUInt _ _ _ _) ?_
  refine ite (stepBool _ _ _) ?_
  refine ite (stepBool _ _ _) ?_
  refine ite (parseParams _ _) ?_
  refine ite (stepUInt _ _ _ _) ?_
  refine ite (stepUInt _ _ _ _) ?_
  refine ite (stepUInt _ _ _ _) ?_
  refine ite (stepUInt _ _ _ _) ?_
  refine ite (stepUInt _ _ _ _) ?_
  refine ite (stepWord _ _ _ _) ?_
  refine ite (stepWord _ _ _ _) ?_
  refine ite (stepBool _ _ _) ?_
  refine ite (stepUInt _ _ _ _) ?_
  refine ite (stepUInt _ _ _ _) ?_
  refine ite (stepUInt _ _ _ _) ?_
  refine ite (stepUInt _ _ _ _) ?_
  refine ite (stepUInt _ _ _ _) ?_
  refine ite (stepWord _ _ _ _) ?_
  refine ite (stepUInt _ _ _ _) ?_
  exact (skipUnknown fuel).bind fun _ => pure _

theorem parseStep (fuel : ℕ) : Cuts (Lightnet.parseStep (jsonSkipValue fuel) fuel) := by
  refine (whileKey 20 (fun key s => ?_) _ _).bind fun s => ?_
  · refine ite ?_ ?_
    · refine (readOr _ fun _ _ h => h.readString _).bind fun s => ?_
      exact (ensure _ _).bind fun _ => (ensure _ _).bind fun _ => pure _
    · exact (handleStepField fuel key s.1).bind fun _ => pure _
  · exact (lift _).bind fun _ => pure _

/-! ### Layers and scenes -/

theorem parseGroup (d : LayerDraft) : Cuts (Lightnet.parseGroup d) := by
  refine peek (fun c => ite ?_ ?_) ?_
  · refine (readOr _ fun _ _ h => h.readString _).bind fun gname => ?_
    exact (ensure _ _).bind fun _ => (ensure _ _).bind fun _ => pure _
  · exact (uintWhere _ _).bind fun _ => pure _
  · rw [if_neg (by decide)]
    exact (RefusesBrace.uintWhere _ _).bind _

theorem parseAsync : Cuts Lightnet.parseAsync := by
  refine peek (fun c => ite ?_ ?_) ?_
  · refine (readOr _ fun _ _ h => h.readString _).bind fun s => ?_
    exact ite (pure _) (ite (pure _) (reject _))
  · exact (readOr _ fun _ _ h => h.readBool).bind fun _ => pure _
  · rw [if_neg (by decide)]
    refine (RefusesBrace.readOr _ fun w => ?_).bind _
    rw [jsonReadBool, (Blank.refl _).skipWs (by decide), if_neg, if_neg]
    · exact fun h => absurd (List.cons_prefix_cons.mp h).1 (by decide)
    · exact fun h => absurd (List.cons_prefix_cons.mp h).1 (by decide)

theorem parseSequence (fuel : ℕ) (d : LayerDraft) :
    Cuts (Lightnet.parseSequence (jsonSkipValue fuel) fuel d) := by
  refine (enter _ (by decide)).bind fun _ => whileElement (fun d => ?_) (fun d => ?_) _ _
  · refine (enter _ (by decide)).bind fun _ => (ensure _ _).bind fun _ => ?_
    exact (parseStep fuel).bind fun _ => (ensure _ _).bind fun _ => pure _
  · exact (RefusesBrace.enter _ (by decide)).bind _

theorem handleLayerField (fuel : ℕ) (key : Text) (d : LayerDraft) :
    Cuts (Lightnet.handleLayerField (jsonSkipValue fuel) fuel key d) := by
  refine ite (parseGroup d) ?_
  refine ite (parseAsync.bind fun _ => pure _) ?_
  refine ite ((readOr _ fun _ _ h => h.readString _).bind fun s => ?_) ?_
  · cases parseBlend s with
    | none => exact reject _
    | some blend => exact pure _
  refine ite ((readOr _ fun _ _ h => h.readBool).bind fun _ => pure _) ?_
  refine ite ((readOr _ fun _ _ h => h.readString _).bind
    fun _ => (ensure _ _).bind fun _ => pure _) ?_
  refine ite ((selAppend _ _ _).bind fun _ => pure _) ?_
  refine ite ((readOr _ fun _ _ h => h.readString _).bind fun _ => pure _) ?_
  refine ite (parseSequence fuel d) ?_
  exact (skipUnknown fuel).bind fun _ => pure _

theorem parseLayer (fuel : ℕ) (names : NameTable) :
    Cuts (Lightnet.parseLayer (jsonSkipValue fuel) fuel names) :=
  (whileKey 16 (handleLayerField fuel) _ _).bind fun _ =>
    (ensure _ _).bind fun _ => (ensure _ _).bind fun _ => pure _

theorem parseColors (fuel : ℕ) (baseColors : Fin baseColorsCount → ColorRGB) :
    Cuts (Lightnet.parseColors fuel baseColors) := by
  refine (enter _ (by decide)).bind fun _ => whileKey 12 (fun key s => ?_) _ _
  refine (readOr _ fun _ _ h => h.readString _).bind fun hex => ?_
  cases jsonParseHexColor hex with
  | none => exact reject _
  | some c =>
      cases baseColorSlot key with
      | none => exact pure _
      | some slot => exact pure _

theorem parseLayers (fuel : ℕ) (d : SceneDraft) :
    Cuts (Lightnet.parseLayers (jsonSkipValue fuel) fuel d) := by
  refine (enter _ (by decide)).bind fun _ => whileElement (fun d => ?_) (fun d => ?_) _ _
  · refine (enter _ (by decide)).bind fun _ => (ensure _ _).bind fun _ => ?_
    exact (parseLayer fuel _).bind fun _ => pure _
  · exact (RefusesBrace.enter _ (by decide)).bind _

theorem handleSceneField (fuel : ℕ) (key : Text) (d : SceneDraft) :
    Cuts (Lightnet.handleSceneField (jsonSkipValue fuel) fuel key d) := by
  refine ite ((readOr _ fun _ _ h => h.readUInt).bind fun _ => pure _) ?_
  refine ite ((readOr _ fun _ _ h => h.readString _).bind fun _ => pure _) ?_
  refine ite ((readOr _ fun _ _ h => h.readBool).bind fun _ => pure _) ?_
  refine ite ((readOr _ fun _ _ h => h.readFloat).bind fun _ => pure _) ?_
  refine ite ((readOr _ fun _ _ h => h.readString _).bind fun _ => pure _) ?_
  refine ite ((parseColors _ _).bind fun _ => pure _) ?_
  refine ite ((parseColorRef _ _).bind fun _ => (ensure _ _).bind fun _ => pure _) ?_
  refine ite (parseLayers fuel d) ?_
  exact (skipUnknown fuel).bind fun _ => pure _

theorem parseFields (fuel : ℕ) : Cuts (Lightnet.parseFields (jsonSkipValue fuel) fuel) :=
  (enter _ (by decide)).bind fun _ => whileKey 20 (handleSceneField fuel) _ _

end Cuts

/-! ### Accepted texts -/

theorem parseScene_cut {fuel : ℕ} {t t' : Text} {r : SceneRecord} (h : Cut t t')
    (hok : parseScene fuel t = .ok r) : parseScene fuel t' = .ok r := by
  rw [parseScene, parseSceneWith] at hok ⊢
  cases hfields : parseFields (jsonSkipValue fuel) fuel t with
  | error stop =>
      rw [hfields] at hok
      exact nomatch hok
  | ok x =>
      obtain ⟨d, q⟩ := x
      obtain ⟨q', hfields', _⟩ := Cuts.parseFields fuel t t' d q h hfields
      rw [hfields] at hok
      rw [hfields']
      exact hok

/-- The text ends somewhere in front of the brace that closes the other one. -/
def StopsShort (t json : Text) : Prop := ∃ y w, json = t ++ (y ++ ch '}' :: w) ∧ Blank w []

/-- The text without the last brace and the white space around it. -/
theorem exists_cut {y w : Text} (hw : Blank w []) :
    ∃ t, Cut (y ++ ch '}' :: w) t ∧ StopsShort t (y ++ ch '}' :: w) := by
  induction y with
  | nil => exact ⟨[], cut_brace hw, [], w, rfl, hw⟩
  | cons c y ih =>
      obtain ⟨t, hcut, z, w', hjson, hw'⟩ := ih
      by_cases hblank : t = [] ∧ isSpace c = true
      · obtain ⟨rfl, hc⟩ := hblank
        exact ⟨[], .tail (.cons hc hcut.of_nil), c :: z, w', congrArg (List.cons c) hjson, hw'⟩
      · refine ⟨c :: t, .cons hcut fun hnil => ?_, z, w', congrArg (List.cons c) hjson, hw'⟩
        simpa [hnil] using hblank

/-- An accepted text that is closed by a brace is accepted without it as well. -/
theorem parseScene_accepts_unclosed {fuel : ℕ} {y w : Text} {r : SceneRecord} (hw : Blank w [])
    (hok : parseScene fuel (y ++ ch '}' :: w) = .ok r) :
    ¬∀ t, StopsShort t (y ++ ch '}' :: w) → ∀ r', parseScene fuel t ≠ .ok r' := by
  obtain ⟨t, hcut, hshort⟩ := exists_cut (y := y) hw
  intro hrejects
  exact hrejects t hshort r (parseScene_cut hcut hok)

/-- A scene of one layer, up to its only step. -/
def openScene : Text :=
  bytes "\x7b\"name\":\"a\",\"layers\":[\x7b\"group\":1,\"sequence\":[\x7b\"duration\":16"

theorem parseScene_accepts_unclosed_step :
    ¬∀ t, StopsShort t (openScene ++ bytes "\x7d]\x7d]" ++ bytes "\x7d") →
      ∀ r', parseScene 100 t ≠ .ok r' := by
  have hok : (parseScene 100 (openScene ++ bytes "\x7d]\x7d]" ++ bytes "\x7d")).isOk = true := by
    decide +kernel
  cases hrun : parseScene 100 (openScene ++ bytes "\x7d]\x7d]" ++ bytes "\x7d") with
  | error stop =>
      rw [hrun] at hok
      exact nomatch hok
  | ok r => exact parseScene_accepts_unclosed (.refl []) hrun

/-- Cut behind the last number of its step, with no bracket closed, the scene is still accepted. -/
theorem parseScene_accepts_openScene :
    StopsShort openScene (openScene ++ bytes "\x7d]\x7d]" ++ bytes "\x7d") ∧
      (parseScene 100 (openScene ++ bytes "\x7d]\x7d]" ++ bytes "\x7d")).isOk = true ∧
      (parseScene 100 openScene).isOk = true := by
  refine ⟨⟨bytes "\x7d]\x7d]", [], ?_, .refl []⟩, by decide +kernel, by decide +kernel⟩
  exact List.append_assoc _ _ _

end Lightnet
