import Lightnet.Json.Consumes
import Lightnet.Scene.Parser

/-!
# The scene parser and the end of the buffer

All loops of the scene parser end, and none reads the end of the buffer, except where a value of a
key that it does not know is skipped. So the parser ends inside the buffer exactly when no value
it comes to in this way is one that skipping is trapped in.
-/

namespace Lightnet

namespace Consumes

theorem selEmitIndexArray (complement : Bool) (out : PanelSelector) :
    Consumes 0 fun _ n => Lightnet.selEmitIndexArray n complement out := by
  refine Consumes.bind (d := 0) (e := 0) (Consumes.whileElement (fun tmp => ?_) _) fun tmp => ?_
  · exact (Consumes.uintWhere _ _).bind fun v => (Consumes.ensure _ _).bind fun _ => Consumes.pure _
  · exact (Consumes.ensure _ _).bind fun _ => Consumes.lift _

theorem selAppend (levels : ℕ) (out : PanelSelector) :
    Consumes 1 fun skip n => Lightnet.selAppend skip n levels out := by
  induction levels generalizing out with
  | zero => exact Consumes.reject 1 _
  | succ levels ih =>
      refine Consumes.peek.bind (e := 1) fun c => ?_
      cases c with
      | none => exact Consumes.reject 1 _
      | some c =>
          refine Consumes.ite ?_ (Consumes.ite ?_ (Consumes.ite ?_ (Consumes.reject 1 _)))
          · exact (Consumes.readOr _ (advances_jsonReadString 40)).bind fun tok => Consumes.lift _
          · exact (Consumes.enter _ _).bind fun _ => Consumes.selEmitIndexArray false out
          · refine (Consumes.enter _ _).bind (e := 0) fun _ => ?_
            refine (Consumes.whileKey 12 (fun key s => ?_) _).bind (e := 0) fun s => ?_
            · refine Consumes.ite ?_ (Consumes.ite ?_ (Consumes.ite ?_ ?_))
              · refine (Consumes.ensure _ _).bind (e := 0) fun _ => ?_
                refine then_ (Consumes.enter _ _) (e := 0) (fun _ => ?_) (Nat.zero_le _)
                refine (Consumes.whileElement (fun t => ?_) _).bind (e := 0) fun t => ?_
                · exact (ih t.2).bind fun out => (Consumes.lift _).bind fun out => Consumes.pure _
                · exact (Consumes.ensure _ _).bind fun _ => Consumes.pure _
              · refine (Consumes.ensure _ _).bind (e := 0) fun _ => ?_
                refine then_ (ih s.2) (e := 0) (fun out => ?_) (Nat.zero_le _)
                exact (Consumes.lift _).bind fun out => Consumes.pure _
              · refine (Consumes.ensure _ _).bind (e := 0) fun _ => ?_
                refine then_ (Consumes.enter _ _) (e := 0) (fun _ => ?_) (Nat.zero_le _)
                exact (Consumes.selEmitIndexArray true s.2).bind fun out => Consumes.pure _
              · exact Consumes.skipUnknown.bind fun _ => Consumes.pure _
            · exact (Consumes.ensure _ _).bind fun _ => Consumes.pure _

theorem parseColorRef (errMsg : Option Text) :
    Consumes 0 fun skip n => Lightnet.parseColorRef skip n errMsg := by
  refine Consumes.peek.bind (e := 0) fun c => ?_
  cases c with
  | none => exact Consumes.reject 0 _
  | some c =>
      refine Consumes.ite ?_ ?_
      · refine then_ (Consumes.readOr _ (advances_jsonReadString 16)) (e := 0) (fun s => ?_)
          (Nat.zero_le _)
        cases jsonParseHexColor s with
        | none => exact Consumes.reject 0 _
        | some rgb => exact Consumes.pure _
      · refine then_ (Consumes.enter _ _) (e := 0) (fun _ => ?_) (Nat.zero_le _)
        refine (Consumes.whileKey 12 (fun key out => ?_) _).bind (e := 0) fun out => ?_
        · refine Consumes.ite ?_ (Consumes.ite ?_ (Consumes.ite ?_ ?_))
          · exact then_ (Consumes.uintWhere _ _) (fun v => Consumes.pure _) (Nat.zero_le _)
          · exact then_ (Consumes.uintWhere _ _) (fun v => Consumes.pure _) (Nat.zero_le _)
          · exact then_ (Consumes.uintWhere _ _) (fun v => Consumes.pure _) (Nat.zero_le _)
          · exact Consumes.skipUnknown.bind fun _ => Consumes.pure _
        · cases out with
          | none => exact Consumes.reject 0 _
          | some ref => exact Consumes.pure _

/-! ### Steps -/

theorem parseStepType (len : ℕ) (notString : Option Text) (unknown : String)
    (parse : Text → Option AnimationType) (draft : StepDraft) :
    Consumes 0 fun _ _ => Lightnet.parseStepType len notString unknown parse draft := by
  refine then_ (Consumes.readOr _ (advances_jsonReadString len)) (e := 0) (fun s => ?_)
    (Nat.zero_le _)
  cases parse s with
  | none => exact Consumes.reject 0 _
  | some t => exact (Consumes.ensure _ _).bind fun _ => Consumes.pure _

theorem stepUInt (errMsg : Option Text) (accept : ℕ → Bool) (set : SceneStep → ℕ → SceneStep)
    (draft : StepDraft) : Consumes 0 fun _ _ => Lightnet.stepUInt errMsg accept set draft :=
  then_ (Consumes.uintWhere _ _) (fun _ => Consumes.pure _) (Nat.zero_le _)

theorem stepBool (errMsg : Option Text) (set : SceneStep → SceneStep) (draft : StepDraft) :
    Consumes 0 fun _ _ => Lightnet.stepBool errMsg set draft :=
  then_ (Consumes.readOr _ advances_jsonReadBool) (fun _ => Consumes.pure _) (Nat.zero_le _)

theorem stepColor (errMsg : Option Text) (set : SceneStep → ColorRef → SceneStep)
    (draft : StepDraft) : Consumes 0 fun skip n => Lightnet.stepColor skip n errMsg set draft :=
  (Consumes.parseColorRef errMsg).bind fun _ => Consumes.pure _

theorem stepWord (errMsg : Option Text) (unknown : String)
    (set : SceneStep → Text → Except (Option Text) SceneStep) (draft : StepDraft) :
    Consumes 0 fun _ _ => Lightnet.stepWord errMsg unknown set draft :=
  then_ (Consumes.readOr _ (advances_jsonReadString 16))
    (fun _ => (Consumes.lift _).bind fun _ => Consumes.pure _) (Nat.zero_le _)

theorem parseParams (draft : StepDraft) :
    Consumes 0 fun _ n => Lightnet.parseParams n draft := by
  refine then_ (Consumes.enter _ _) (e := 0) (fun _ => ?_) (Nat.zero_le _)
  refine (Consumes.whileElement (fun s => ?_) _).bind fun s => Consumes.pure _
  refine (Consumes.uintWhere _ _).bind (e := 0) fun v => ?_
  by_cases h : s.2 < 5
  · simp only [h, dite_true]
    exact Consumes.pure _
  · simp only [h, dite_false]
    exact Consumes.reject 0 _

theorem handleStepField (key : Text) (draft : StepDraft) :
    Consumes 0 fun skip n => Lightnet.handleStepField skip n key draft := by
  refine Consumes.ite (Consumes.parseStepType _ _ _ _ _) ?_
  refine Consumes.ite (Consumes.parseStepType _ _ _ _ _) ?_
  refine Consumes.ite (Consumes.stepColor _ _ _) ?_
  refine Consumes.ite (Consumes.stepColor _ _ _) ?_
  refine Consumes.ite (Consumes.stepUInt _ _ _ _) ?_
  refine Consumes.ite (Consumes.stepBool _ _ _) ?_
  refine Consumes.ite (Consumes.stepBool _ _ _) ?_
  refine Consumes.ite (Consumes.parseParams _) ?_
  refine Consumes.ite (Consumes.stepUInt _ _ _ _) ?_
  refine Consumes.ite (Consumes.stepUInt _ _ _ _) ?_
  refine Consumes.ite (Consumes.stepUInt _ _ _ _) ?_
  refine Consumes.ite (Consumes.stepUInt _ _ _ _) ?_
  refine Consumes.ite (Consumes.stepUInt _ _ _ _) ?_
  refine Consumes.ite (Consumes.stepWord _ _ _ _) ?_
  refine Consumes.ite (Consumes.stepWord _ _ _ _) ?_
  refine Consumes.ite (Consumes.stepBool _ _ _) ?_
  refine Consumes.ite (Consumes.stepUInt _ _ _ _) ?_
  refine Consumes.ite (Consumes.stepUInt _ _ _ _) ?_
  refine Consumes.ite (Consumes.stepUInt _ _ _ _) ?_
  refine Consumes.ite (Consumes.stepUInt _ _ _ _) ?_
  refine Consumes.ite (Consumes.stepUInt _ _ _ _) ?_
  refine Consumes.ite (Consumes.stepWord _ _ _ _) ?_
  refine Consumes.ite (Consumes.stepUInt _ _ _ _) ?_
  exact Consumes.skipUnknown.bind fun _ => Consumes.pure _

theorem parseStep : Consumes 0 fun skip n => Lightnet.parseStep skip n := by
  refine (Consumes.whileKey 20 (fun key s => ?_) _).bind (e := 0) fun s => ?_
  · refine Consumes.ite ?_ ?_
    · refine then_ (Consumes.readOr _ (advances_jsonReadString _)) (e := 0) (fun s => ?_)
        (Nat.zero_le _)
      exact (Consumes.ensure _ _).bind fun _ => (Consumes.ensure _ _).bind fun _ => Consumes.pure _
    · exact (Consumes.handleStepField key s.1).bind fun _ => Consumes.pure _
  · exact (Consumes.lift _).bind fun _ => Consumes.pure _

/-! ### Layers and scenes -/

theorem parseGroup (d : LayerDraft) : Consumes 0 fun _ _ => Lightnet.parseGroup d := by
  refine Consumes.peek.bind (e := 0) fun c => Consumes.ite ?_ ?_
  · refine then_ (Consumes.readOr _ (advances_jsonReadString _)) (e := 0) (fun gname => ?_)
      (Nat.zero_le _)
    exact (Consumes.ensure _ _).bind fun _ => (Consumes.ensure _ _).bind fun _ => Consumes.pure _
  · exact then_ (Consumes.uintWhere _ _) (fun _ => Consumes.pure _) (Nat.zero_le _)

theorem parseAsync : Consumes 0 fun _ _ => Lightnet.parseAsync := by
  refine Consumes.peek.bind (e := 0) fun c => Consumes.ite ?_ ?_
  · refine then_ (Consumes.readOr _ (advances_jsonReadString _)) (e := 0) (fun s => ?_)
      (Nat.zero_le _)
    exact Consumes.ite (Consumes.pure _) (Consumes.ite (Consumes.pure _) (Consumes.reject 0 _))
  · exact then_ (Consumes.readOr _ advances_jsonReadBool) (fun _ => Consumes.pure _)
      (Nat.zero_le _)

theorem parseSequence (d : LayerDraft) :
    Consumes 0 fun skip n => Lightnet.parseSequence skip n d := by
  refine then_ (Consumes.enter _ _) (e := 0) (fun _ => ?_) (Nat.zero_le _)
  refine Consumes.whileElement (fun d => ?_) _
  refine (Consumes.enter _ _).bind (e := 0) fun _ => ?_
  refine (Consumes.ensure _ _).bind (e := 0) fun _ => ?_
  exact Consumes.parseStep.bind fun _ => (Consumes.ensure _ _).bind fun _ => Consumes.pure _

theorem handleLayerField (key : Text) (d : LayerDraft) :
    Consumes 0 fun skip n => Lightnet.handleLayerField skip n key d := by
  refine Consumes.ite (Consumes.parseGroup d) ?_
  refine Consumes.ite (Consumes.parseAsync.bind fun _ => Consumes.pure _) ?_
  refine Consumes.ite (then_ (Consumes.readOr _ (advances_jsonReadString _)) (e := 0)
    (fun s => ?_) (Nat.zero_le _)) ?_
  · cases parseBlend s with
    | none => exact Consumes.reject 0 _
    | some blend => exact Consumes.pure _
  refine Consumes.ite (then_ (Consumes.readOr _ advances_jsonReadBool)
    (fun _ => Consumes.pure _) (Nat.zero_le _)) ?_
  refine Consumes.ite (then_ (Consumes.readOr _ (advances_jsonReadString _))
    (fun _ => (Consumes.ensure _ _).bind fun _ => Consumes.pure _) (Nat.zero_le _)) ?_
  refine Consumes.ite (then_ (Consumes.selAppend _ _) (fun _ => Consumes.pure _)
    (Nat.zero_le _)) ?_
  refine Consumes.ite (then_ (Consumes.readOr _ (advances_jsonReadString _))
    (fun _ => Consumes.pure _) (Nat.zero_le _)) ?_
  refine Consumes.ite (Consumes.parseSequence d) ?_
  exact Consumes.skipUnknown.bind fun _ => Consumes.pure _

theorem parseLayer (names : NameTable) :
    Consumes 0 fun skip n => Lightnet.parseLayer skip n names :=
  (Consumes.whileKey 16 handleLayerField _).bind fun _ =>
    (Consumes.ensure _ _).bind fun _ => (Consumes.ensure _ _).bind fun _ => Consumes.pure _

theorem parseColors (baseColors : Fin baseColorsCount → ColorRGB) :
    Consumes 0 fun _ n => Lightnet.parseColors n baseColors := by
  refine then_ (Consumes.enter _ _) (e := 0) (fun _ => ?_) (Nat.zero_le _)
  refine Consumes.whileKey 12 (fun key s => ?_) _
  refine then_ (Consumes.readOr _ (advances_jsonReadString _)) (e := 0) (fun hex => ?_)
    (Nat.zero_le _)
  cases jsonParseHexColor hex with
  | none => exact Consumes.reject 0 _
  | some c =>
      cases baseColorSlot key with
      | none => exact Consumes.pure _
      | some slot => exact Consumes.pure _

theorem parseLayers (d : SceneDraft) : Consumes 0 fun skip n => Lightnet.parseLayers skip n d := by
  refine then_ (Consumes.enter _ _) (e := 0) (fun _ => ?_) (Nat.zero_le _)
  refine Consumes.whileElement (fun d => ?_) _
  refine (Consumes.enter _ _).bind (e := 0) fun _ => ?_
  exact (Consumes.ensure _ _).bind fun _ => (Consumes.parseLayer _).bind fun _ => Consumes.pure _

theorem handleSceneField (key : Text) (d : SceneDraft) :
    Consumes 0 fun skip n => Lightnet.handleSceneField skip n key d := by
  refine Consumes.ite (then_ (Consumes.readOr _ advances_jsonReadUInt)
    (fun _ => Consumes.pure _) (Nat.zero_le _)) ?_
  refine Consumes.ite (then_ (Consumes.readOr _ (advances_jsonReadString _))
    (fun _ => Consumes.pure _) (Nat.zero_le _)) ?_
  refine Consumes.ite (then_ (Consumes.readOr _ advances_jsonReadBool)
    (fun _ => Consumes.pure _) (Nat.zero_le _)) ?_
  refine Consumes.ite (then_ (Consumes.readOr _ advances_jsonReadFloat)
    (fun _ => Consumes.pure _) (Nat.zero_le _)) ?_
  refine Consumes.ite (then_ (Consumes.readOr _ (advances_jsonReadString _))
    (fun _ => Consumes.pure _) (Nat.zero_le _)) ?_
  refine Consumes.ite ((Consumes.parseColors _).bind fun _ => Consumes.pure _) ?_
  refine Consumes.ite ((Consumes.parseColorRef _).bind
    fun _ => (Consumes.ensure _ _).bind fun _ => Consumes.pure _) ?_
  refine Consumes.ite (Consumes.parseLayers d) ?_
  exact Consumes.skipUnknown.bind fun _ => Consumes.pure _

theorem parseFields : Consumes 0 fun skip n => Lightnet.parseFields skip n :=
  then_ (Consumes.enter _ _) (fun _ => Consumes.whileKey 20 handleSceneField _) (Nat.zero_le _)

end Consumes

/-! ### The values that are skipped -/

theorem Within.run_ne_fault {α : Type} {taken len : ℕ} {c : Asking α} (h : Within taken len c)
    {skip : Skipper} (hskip : Shrinks len skip) (f : Fault) :
    c.run skip ≠ .ok (.error (.fault f)) := by
  induction h with
  | ok => simp [OracleProgram.run]
  | rejected => simp [OracleProgram.run]
  | @call v next h _ ih =>
      simp only [OracleProgram.run]
      cases hv : skip v with
      | error f => simp
      | ok x => exact ih x.1 x.2 (hskip v x.1 x.2 h hv)

/-- Where skipping leaves the cursor, and the cursor itself where skipping goes wrong. -/
def skipAnswer (v : Text) : Bool × Text :=
  match jsonSkipValue (2 * v.length + 2) v with
  | .ok x => x
  | .error _ => (false, v)

/-- Skipping breaks at one text and nowhere else. -/
def breakAt (v : Text) : Skipper := fun w =>
  if w = v then .error .unfinished else .ok (skipAnswer w)

/-- The parser skips `v` as the value of a key it does not know: it breaks if skipping breaks
there. -/
def ComesTo (json v : Text) : Prop :=
  parseSceneWith (breakAt v) (json.length + 1) json = .error (.fault .unfinished)

instance (json v : Text) : Decidable (ComesTo json v) :=
  inferInstanceAs (Decidable (_ = Except.error (Stop.fault .unfinished)))

theorem length_skipAnswer_le (v : Text) : (skipAnswer v).2.length ≤ v.length := by
  unfold skipAnswer
  split
  next x hx => exact (follows_jsonSkipValue_ws _ v le_rfl).length_le (b := x.1) (r := x.2) hx
  next => exact le_rfl

theorem shrinks_breakAt (len : ℕ) (v : Text) : Shrinks len (breakAt v) := by
  intro w b r _ h
  unfold breakAt at h
  split_ifs at h
  rw [Except.ok.injEq] at h
  have hle := length_skipAnswer_le w
  rwa [h] at hle

theorem shrinks_jsonSkipValue {len n : ℕ} (hn : 2 * len + 2 ≤ n) : Shrinks len (jsonSkipValue n) :=
  fun v _ _ hv h => (follows_jsonSkipValue_ws n v (by omega)).length_le h

theorem jsonSkipValue_eq_skipAnswer {n : ℕ} {v : Text} (hn : 2 * v.length + 2 ≤ n) :
    jsonSkipValue n v = .ok (skipAnswer v) ∨ ∃ f, jsonSkipValue n v = .error f := by
  cases h : jsonSkipValue n v with
  | error f => exact Or.inr ⟨f, rfl⟩
  | ok x =>
      left
      obtain ⟨y, hy⟩ := (jsonSkipValue_ok_iff le_rfl).mpr ((jsonSkipValue_ok_iff hn).mp ⟨x, h⟩)
      have hxy := (jsonSkipValue_mono hy hn).symm.trans h
      simp only [skipAnswer, hy]
      exact hxy.symm

theorem jsonSkipValue_error_iff {n : ℕ} {v : Text} (hn : 2 * v.length + 2 ≤ n) :
    (∃ f, jsonSkipValue n v = .error f) ↔ ValueTrapped v := by
  rw [← not_iff_not, ← jsonSkipValue_ok_iff hn]
  cases jsonSkipValue n v with
  | error f => simp
  | ok x => simp

theorem parseSceneWith_fault_iff (skip : Skipper) (n : ℕ) (json : Text) (f : Fault) :
    parseSceneWith skip n json = .error (.fault f) ↔ parseFields skip n json = .error (.fault f) := by
  unfold parseSceneWith
  match parseFields skip n json with
  | .error stop => simp
  | .ok (d, q) =>
    simp only [reduceCtorEq, iff_false]
    split <;> simp

/-- The parser faults exactly when it comes to a value that traps skipping. -/
theorem parseScene_fault_iff {n : ℕ} {json : Text} (hn : 2 * json.length + 2 ≤ n) :
    (∃ f, parseScene n json = .error (.fault f)) ↔ ∃ v, ComesTo json v ∧ ValueTrapped v := by
  obtain ⟨c, hc, hrun⟩ := Consumes.parseFields json
  simp only at hrun
  have hfault : ∀ skip m f, json.length + 1 ≤ m → Shrinks json.length skip →
      (parseSceneWith skip m json = .error (.fault f) ↔ c.run skip = .error f) := by
    intro skip m f hm hskip
    rw [parseSceneWith_fault_iff, hrun skip m hm hskip]
    match hres : c.run skip with
    | .error g => simp [collapse]
    | .ok result =>
      have hne := hc.run_ne_fault hskip f
      rw [hres] at hne
      simpa [collapse] using hne
  have hcomes : ∀ v, ComesTo json v ↔ c.ComesTo skipAnswer v := by
    intro v
    rw [ComesTo, hfault _ _ _ le_rfl (shrinks_breakAt _ v)]
    exact OracleProgram.run_breakAt_iff skipAnswer v Fault.unfinished c
  have hlen : ∀ v, c.ComesTo skipAnswer v → 2 * v.length + 2 ≤ n := by
    intro v hv
    have hle := hc.length_of_comesTo (fun w _ => length_skipAnswer_le w) hv
    omega
  simp only [parseScene, hfault _ n _ (by omega) (shrinks_jsonSkipValue hn), hcomes]
  rw [OracleProgram.run_breaks_iff (jsonSkipValue n) skipAnswer c
    fun v hv => jsonSkipValue_eq_skipAnswer (hlen v hv)]
  refine exists_congr fun v => and_congr_right fun hv => ?_
  exact jsonSkipValue_error_iff (hlen v hv)

/-! ### Parsing ends inside the buffer -/

/-- With fuel for two calls a byte, or less, the run ends, and it has not read past the end. -/
def StaysInside (ends : ℕ → Prop) (text : Text) : Prop :=
  ∃ enough ≤ 2 * text.length + 2, ∀ fuel, enough ≤ fuel → ends fuel

theorem staysInside_iff {ends : ℕ → Prop} {text : Text} {c : Prop}
    (h : ∀ fuel, 2 * text.length + 2 ≤ fuel → (ends fuel ↔ c)) : StaysInside ends text ↔ c := by
  constructor
  · rintro ⟨enough, hle, hends⟩
    exact (h _ le_rfl).mp (hends _ hle)
  · exact fun hc => ⟨_, le_rfl, fun fuel hfuel => (h fuel hfuel).mpr hc⟩

/-- Skipping an object, an array or a value stays inside the buffer exactly on the texts that are
no trap, and the scene parser exactly on the texts that lead it to none. -/
theorem parsing_staysInside_iff (text : Text) :
    (StaysInside (fun fuel => ∃ x, jsonSkipObject fuel text = .ok x) text ↔
        ¬Trapped ([.object], text)) ∧
      (StaysInside (fun fuel => ∃ x, jsonSkipArray fuel text = .ok x) text ↔
        ¬Trapped ([.array], text)) ∧
      (StaysInside (fun fuel => ∃ x, jsonSkipValue fuel text = .ok x) text ↔
        ¬ValueTrapped text) ∧
      (StaysInside (fun fuel => ∀ f, parseScene fuel text ≠ .error (.fault f)) text ↔
        ∀ v, ComesTo text v → ¬ValueTrapped v) := by
  refine ⟨?_, ?_, ?_, ?_⟩
  · exact staysInside_iff fun n hn => (follows_skipContainer .object n text hn).ok_iff
  · exact staysInside_iff fun n hn => (follows_skipContainer .array n text hn).ok_iff
  · exact staysInside_iff fun n hn => jsonSkipValue_ok_iff hn
  · refine staysInside_iff fun n hn => ?_
    have h := not_congr (parseScene_fault_iff hn)
    simpa only [not_exists, not_and] using h

/-- A closing brace in an array of an unknown key: seven bytes on which the parser does not end. -/
theorem not_staysInside_brace :
    ¬∀ text, StaysInside (fun fuel => ∀ f, parseScene fuel text ≠ .error (.fault f)) text := by
  intro h
  obtain ⟨enough, hle, hends⟩ := h (bytes "\x7b\"x\":[\x7d")
  have htrap : ∃ v, ComesTo (bytes "\x7b\"x\":[\x7d") v ∧ ValueTrapped v :=
    ⟨bytes "[\x7d", by decide +kernel, ([.array], bytes "\x7d"), .refl, Or.inr ⟨rfl, by decide⟩⟩
  obtain ⟨f, hf⟩ := (parseScene_fault_iff le_rfl).mpr htrap
  exact hends _ hle f hf

example : parseScene 20 (bytes "\x7b\"x\":[ ") = .error (.fault .overread) := by decide +kernel

end Lightnet
