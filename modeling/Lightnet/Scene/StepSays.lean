import Lightnet.Scene.SceneText
import Lightnet.Scene.UnknownKeys

/-!
# What is stored of a step

The loops of the parser go over a legible document value by value. The numbers of a step are stored
as they are written, and its id is cut to the buffer.
-/

namespace Lightnet

open Parse

/-- What a buffer holds of a string, next to the NUL at its end. -/
def cut (n : ℕ) (s : Text) : Text := cString (s.take n)

/-! ### Legible documents -/

section

variable {j : Json} {k : DocKind}

theorem Json.legible_uint (h : j.legible .uint = true) : j.Plain := by
  cases j with
  | literal t =>
      have hdigits : Digits t := of_decide_eq_true h
      exact hdigits
  | string s => trivial
  | array as => trivial
  | object ms => trivial

theorem Json.legible_decimal (h : j.legible .decimal = true) : j.NoExponent := by
  cases j with
  | literal t =>
      have hplain : ch 'e' ∉ t ∧ ch 'E' ∉ t := of_decide_eq_true h
      exact hplain
  | string s => trivial
  | array as => trivial
  | object ms => trivial

theorem legible_of_itemsLegible {as : List Json} (h : itemsLegible k as = true) :
    ∀ a ∈ as, a.legible k = true := by
  induction as with
  | nil => simp
  | cons a as ih =>
      rw [itemsLegible, Bool.and_eq_true] at h
      intro b hb
      rcases List.mem_cons.mp hb with rfl | hb
      · exact h.1
      · exact ih h.2 b hb

theorem Json.legible_items (h : j.legible k = true) : ∀ a ∈ j.items, a.legible k.item = true := by
  cases j with
  | array as =>
      rw [Json.legible] at h
      exact legible_of_itemsLegible h
  | literal t => simp [Json.items]
  | string s => simp [Json.items]
  | object ms => simp [Json.items]

theorem legible_of_membersLegible {ms : List (Text × Json)} (h : membersLegible k ms = true) :
    ∀ m ∈ ms, ∃ key, decoded m.1 = some key ∧ k.sees key = true ∧
      m.2.legible (k.member key) = true := by
  induction ms with
  | nil => simp
  | cons m ms ih =>
      rw [membersLegible, Bool.and_eq_true] at h
      intro b hb
      rcases List.mem_cons.mp hb with rfl | hb
      · obtain ⟨name, a⟩ := b
        have hm := h.1
        rw [memberLegible] at hm
        cases hname : decoded name with
        | none =>
            rw [hname] at hm
            cases hm
        | some key =>
            rw [hname, Option.elim_some, Bool.and_eq_true] at hm
            exact ⟨key, rfl, hm⟩
      · exact ih h.2 b hb

theorem Json.legible_members (hk : k.fields.isEmpty = false) (h : j.legible k = true) :
    ∀ m ∈ j.members, ∃ key, decoded m.1 = some key ∧ k.sees key = true ∧
      m.2.legible (k.member key) = true := by
  cases j with
  | object ms =>
      rw [Json.legible, hk, Bool.false_or] at h
      exact legible_of_membersLegible h
  | literal t => simp [Json.members]
  | string s => simp [Json.members]
  | array as => simp [Json.members]

theorem cString_of_not_mem {s : Text} (h : 0 ∉ s) : cString s = s := by
  rw [cString, List.takeWhile_eq_self_iff]
  intro c hc
  have hne : c ≠ 0 := fun h0 => h (h0 ▸ hc)
  simpa using hne

/-- A known name is read as it is, and any other as none of the known ones. -/
theorem DocKind.read_name {keyLen : ℕ} {key : Text}
    (hshort : ∀ name ∈ k.names, name.length < keyLen - 1) (hnul : ∀ name ∈ k.names, 0 ∉ name)
    (hsees : k.sees key = true) :
    cut (keyLen - 1) key = key ∧ key ∈ k.names ∨
      cut (keyLen - 1) key ∉ k.names ∧ key ∉ k.names := by
  by_cases hkey : key ∈ k.names
  · have hplain := cString_of_not_mem (hnul key hkey)
    refine .inl ⟨?_, hkey⟩
    rw [cut, cString_take_of_length (by rw [hplain]; exact hshort key hkey), hplain]
  · refine .inr ⟨fun hcut => ?_, hkey⟩
    have hsame : cut (keyLen - 1) key = cString key := cString_take (hshort _ hcut)
    rw [hsame] at hcut
    rcases of_decide_eq_true hsees with hplain | hunknown
    · rw [cString_of_not_mem hplain] at hcut
      exact hkey hcut
    · exact hunknown hcut

/-- The loop over the members of a legible object, whose unknown ones are passed over. -/
theorem ObjectLoop.Regular.reads {loop : ObjectLoop} (hloop : loop.Regular)
    (hknown : loop.known = k.names) (hnul : ∀ name ∈ k.names, 0 ∉ name) {ω : Type}
    {note : ω → Text → Json → ω} {I : ω → loop.State → Prop} {ms : List (Text × Json)}
    {fuel : ℕ} {t rest : Text} (h : MembersText ms t rest)
    (hlegible : ∀ m ∈ ms, ∃ key, decoded m.1 = some key ∧ k.sees key = true ∧
      m.2.legible (k.member key) = true)
    (hunknown : ∀ key ∉ k.names, ∀ w j, note w key j = w)
    (hbody : ∀ key ∈ k.names, ∀ j w s u v, j.legible (k.member key) = true → I w s →
      Written j u v → Reads (loop.body (jsonSkipValue fuel) fuel key s) u v (I (note w key j)))
    (n : ℕ) {w : ω} {s : loop.State} (hs : I w s) :
    Reads (whileKey loop.keyLen (loop.body (jsonSkipValue fuel) fuel) n s) t rest
      (I (noteMembers note w ms)) := by
  refine reads_whileKey h (fun m hm => ?_) (fun m hm key w s u v hkey hs hj => ?_) n hs
  · obtain ⟨key, hkey, -⟩ := hlegible m hm
    exact ⟨key, hkey⟩
  · obtain ⟨key', hkey', hsees, hvalue⟩ := hlegible m hm
    rw [hkey] at hkey'
    cases hkey'
    have hshort : ∀ name ∈ k.names, name.length < loop.keyLen - 1 := by
      rw [← hknown]
      exact hloop.short
    rcases DocKind.read_name hshort hnul hsees with ⟨hcut, hmem⟩ | ⟨hcut, hmem⟩
    · change Reads (loop.body _ _ (cut (loop.keyLen - 1) key) s) u v _
      rw [hcut]
      exact hbody key hmem m.2 w s u v hvalue hs hj
    · rw [hunknown key hmem, hloop.skips _ (by rw [hknown]; exact hcut)]
      exact (reads_skipUnknown hj fuel).bind fun _ _ => .pure hs

end

/-! ### Numbers of steps -/

theorem toNat_u8_of_le {v : ℕ} (hv : v ≤ 255) : (u8 v).toNat = v := by
  change v % 256 = v
  omega

/-- The step holds the numbers that are written for it. -/
def StepText.Says (w : StepText) (step : SceneStep) : Prop :=
  ∀ i v, w.nums i = some v → (i.of step : ℚ) = v

namespace StepText.Says

variable {w : StepText} {step step' : SceneStep}

theorem put (h : w.Says step) {i : StepNum} {v : ℕ} (hi : i.of step' = v)
    (hother : ∀ j, j ≠ i → j.of step' = j.of step) : (w.put i v).Says step' := by
  intro j u hj
  by_cases hji : j = i
  · rw [hji] at hj ⊢
    simp only [StepText.put, Function.update_self, Option.some_inj] at hj
    rw [← hj, hi]
  · simp only [StepText.put, Function.update_of_ne hji] at hj
    rw [hother j hji]
    exact h j u hj

theorem forget (h : w.Says step) {i : StepNum} (hother : ∀ j, j ≠ i → j.of step' = j.of step) :
    (w.forget i).Says step' := by
  intro j u hj
  by_cases hji : j = i
  · simp only [hji, StepText.forget, Function.update_self] at hj
    cases hj
  · simp only [StepText.forget, Function.update_of_ne hji] at hj
    rw [hother j hji]
    exact h j u hj

theorem congr (h : w.Says step) (hsame : ∀ j : StepNum, j.of step' = j.of step) :
    w.Says step' := by
  intro j u hj
  rw [hsame j]
  exact h j u hj

end StepText.Says

theorem StepNum.of_setParam (step : SceneStep) (i : RunnerParam) (b : Byte) :
    (StepNum.param i).of (step.setParam i b) = b.toNat := by
  change ((Function.update step.params i b) i).toNat = b.toNat
  rw [Function.update_self]

theorem StepNum.of_setParam_of_ne (step : SceneStep) {i : RunnerParam} (b : Byte) {j : StepNum}
    (hj : j ≠ .param i) : j.of (step.setParam i b) = j.of step := by
  cases j with
  | param k =>
      have hk : k ≠ i := fun hki => hj (congrArg StepNum.param hki)
      change ((Function.update step.params i b) k).toNat = (step.params k).toNat
      rw [Function.update_of_ne hk]
  | _ => rfl

theorem StepText.Says.setParam {w : StepText} {step : SceneStep} (h : w.Says step)
    (i : RunnerParam) {v : ℕ} (hv : v ≤ 255) :
    (w.put (.param i) v).Says (step.setParam i (u8 v)) := by
  refine h.put ?_ fun _ hj => StepNum.of_setParam_of_ne step (u8 v) hj
  rw [StepNum.of_setParam]
  exact toNat_u8_of_le hv

theorem StepText.Says.forgetParam {w : StepText} {step : SceneStep} (h : w.Says step)
    (i : RunnerParam) (b : Byte) : (w.forget (.param i)).Says (step.setParam i b) :=
  h.forget fun _ hj => StepNum.of_setParam_of_ne step b hj

theorem StepText.Says.forgetMore {w : StepText} {step : SceneStep} (h : w.Says step)
    (i : StepNum) : (w.forget i).Says step := h.forget fun _ _ => rfl

theorem StepText.Says.of_type {w : StepText} {step step' : SceneStep} (h : w.Says step)
    (htype : ∃ t, step' = { step with animType := t }) : w.Says step' := by
  obtain ⟨t, rfl⟩ := htype
  exact h.congr fun j => by cases j <;> rfl

theorem StepText.Says.of_bool {w : StepText} {step step' changed : SceneStep}
    (h : w.Says step) (hsame : ∀ j : StepNum, j.of changed = j.of step)
    (hstep : step' = changed ∨ step' = step) : w.Says step' := by
  rcases hstep with rfl | rfl
  · exact h.congr hsame
  · exact h

theorem says_parseSource {w : StepText} {step step' : SceneStep} {s : Text} (h : w.Says step)
    (hok : parseSource step s = .ok step') :
    (((w.forget (.param .srcKind)).forget (.param .srcArg)).forget (.param .flags)).Says step' := by
  unfold parseSource at hok
  dsimp only at hok
  split_ifs at hok
  · cases hok
    exact ((h.forgetParam .srcKind _).forgetMore _).forgetMore _
  · cases hok
    exact ((h.forgetParam .srcKind _).forgetMore _).forgetMore _
  · cases hok
    exact ((h.forgetParam .srcKind _).forgetMore _).forgetMore _
  · cases hok
    exact ((h.forgetMore _).forgetMore _).forgetParam .flags _
  · cases hok
    exact ((h.forgetParam .srcKind _).forgetParam .srcArg _).forgetMore _

theorem says_parseDirectionality {w : StepText} {step step' : SceneStep} {s : Text}
    (h : w.Says step) (hok : parseDirectionality step s = .ok step') :
    (w.forget (.param .flags)).Says step' := by
  unfold parseDirectionality at hok
  split_ifs at hok
  · cases hok
    exact h.forgetParam .flags _
  · cases hok
    exact h.forgetParam .flags _

theorem says_parseAnimates {w : StepText} {step step' : SceneStep} {s : Text} (h : w.Says step)
    (hok : parseAnimates step s = .ok step') : w.Says step' := by
  unfold parseAnimates at hok
  split at hok
  · cases hok
    exact h.congr fun j => by cases j <;> rfl
  · cases hok

/-! ### Fields of steps -/

section

variable {errMsg : Option Text} {draft : StepDraft} {j : Json} {t rest : Text}

theorem reads_stepUInt (h : Written j t rest) (hlegible : j.legible .uint = true)
    (accept : ℕ → Bool) (set : SceneStep → ℕ → SceneStep) :
    Reads (stepUInt errMsg accept set draft) t rest fun x =>
      ∃ v : ℕ, j.number = v ∧ v ≤ 65535 ∧ accept v = true ∧ x.1 = set draft.1 v := by
  refine (reads_uintWhere h (Json.legible_uint hlegible) errMsg accept).bind fun v hv => ?_
  exact .pure ⟨v, hv.1, hv.2.1, hv.2.2, rfl⟩

/-- A field that is stored as its number. -/
theorem reads_stepNum {w : StepText} (h : Written j t rest) (hlegible : j.legible .uint = true)
    {accept : ℕ → Bool} {set : SceneStep → ℕ → SceneStep} (hsay : w.Says draft.1) (i : StepNum)
    (hi : ∀ v, v ≤ 65535 → accept v = true → i.of (set draft.1 v) = v)
    (hother : ∀ v k, k ≠ i → k.of (set draft.1 v) = k.of draft.1) :
    Reads (stepUInt errMsg accept set draft) t rest fun x => (w.put i j.number).Says x.1 := by
  refine (reads_stepUInt h hlegible accept set).imp fun x hx => ?_
  obtain ⟨v, hv, hle, haccept, hx⟩ := hx
  rw [hv, hx]
  exact hsay.put (hi v hle haccept) (hother v)

theorem reads_stepParam {w : StepText} (h : Written j t rest) (hlegible : j.legible .uint = true)
    {accept : ℕ → Bool} (haccept : ∀ v, accept v = true → v ≤ 255) (hsay : w.Says draft.1)
    (i : RunnerParam) :
    Reads (stepUInt errMsg accept (fun step v => step.setParam i (u8 v)) draft) t rest fun x =>
      (w.put (.param i) j.number).Says x.1 := by
  refine reads_stepNum h hlegible hsay (.param i) (fun v _ hv => ?_) fun v k hk =>
    StepNum.of_setParam_of_ne draft.1 (u8 v) hk
  rw [StepNum.of_setParam]
  exact toNat_u8_of_le (haccept v hv)

theorem reads_stepBool (h : Written j t rest) (set : SceneStep → SceneStep) :
    Reads (stepBool errMsg set draft) t rest fun x => x.1 = set draft.1 ∨ x.1 = draft.1 := by
  refine (reads_bool h errMsg).bind fun b _ => .pure ?_
  dsimp only
  split_ifs
  · exact .inl rfl
  · exact .inr rfl

theorem reads_stepWord (h : Written j t rest) (unknown : String)
    (set : SceneStep → Text → Except (Option Text) SceneStep) :
    Reads (stepWord errMsg unknown set draft) t rest fun x => ∃ s, set draft.1 s = .ok x.1 := by
  refine (reads_string h errMsg 16).bind fun s _ => ?_
  refine Reads.bind (Q := fun step => set draft.1 s = .ok step) (.lift fun step hset => ?_)
    fun step hset => .pure ⟨s, hset⟩
  cases hres : set draft.1 s with
  | ok step' =>
      rw [hres] at hset
      exact hset
  | error e =>
      rw [hres] at hset
      cases e with
      | none => cases hset
      | some e => cases hset

theorem reads_parseStepType (h : Written j t rest) (len : ℕ) (unknown : String)
    (parse : Text → Option AnimationType) :
    Reads (parseStepType len errMsg unknown parse draft) t rest fun x =>
      ∃ a, x.1 = { draft.1 with animType := a } := by
  refine (reads_string h errMsg len).bind fun s _ => ?_
  cases parse s with
  | none => exact .reject _
  | some a => exact (Reads.ensure _ _).bind fun _ _ => .pure ⟨a, rfl⟩

end

/-! ### Colours -/

theorem Written.string_of_head {j : Json} {t rest : Text} (h : Written j t rest)
    (hhead : t.head? = some (ch '"')) : ∃ s, j = .string s := by
  cases h with
  | @literal w rest h hend =>
      obtain ⟨c, w, rfl⟩ := List.exists_cons_of_ne_nil h.ne_nil
      obtain ⟨-, hne, -⟩ := isLiteralByte_scalar c (h.literalByte c List.mem_cons_self)
      exact absurd (Option.some.inj hhead) hne
  | @string s rest h => exact ⟨s, rfl⟩
  | noItems _ => exact absurd (Option.some.inj hhead) (by decide)
  | items _ => exact absurd (Option.some.inj hhead) (by decide)
  | noMembers _ => exact absurd (Option.some.inj hhead) (by decide)
  | members _ => exact absurd (Option.some.inj hhead) (by decide)

/-- The colour holds the numbers that are written for its bytes. -/
def ChannelSays (cs : ChannelText) (c : ColorRGB) : Prop :=
  ∀ i v, cs i = some v → ((c.channel i).toNat : ℚ) = v

theorem channelSays_none (c : ColorRGB) : ChannelSays (fun _ => none) c := by
  intro i v hi
  cases hi

theorem channelSays_position {v : ℕ} (hv : v ≤ 255) :
    ChannelSays ![some (v : ℚ), none, none] ⟨u8 v, 0, 0⟩ := by
  intro i u hi
  match i with
  | 0 =>
      cases hi
      exact congrArg Nat.cast (toNat_u8_of_le hv)
  | 1 => cases hi
  | 2 => cases hi

theorem ChannelSays.update {cs : ChannelText} {c c' : ColorRGB} (h : ChannelSays cs c) {i : Fin 3}
    {v : ℕ} (hv : v ≤ 255) (hc : c'.channel = Function.update c.channel i (u8 v)) :
    ChannelSays (Function.update cs i (some (v : ℚ))) c' := by
  intro k u hk
  rw [hc]
  by_cases hki : k = i
  · rw [hki, Function.update_self] at hk ⊢
    rw [toNat_u8_of_le hv]
    exact Option.some.inj hk
  · rw [Function.update_of_ne hki] at hk ⊢
    exact h k u hk

theorem channel_setChannel (out : Option ColorRef) (i : Fin 3) (b : Byte) :
    (setChannel out (![bytes "r", bytes "g", bytes "b"] i) b).raw.channel =
      Function.update (out.getD (.rgb .white)).raw.channel i b := by
  funext k
  match i, k with
  | 0, 0 | 0, 1 | 0, 2 | 1, 0 | 1, 1 | 1, 2 | 2, 0 | 2, 1 | 2, 2 => rfl

theorem noteChannel_unknown {key : Text} (h : key ∉ DocKind.color.names) (cs : ChannelText)
    (j : Json) : noteChannel cs key j = cs := by
  simp only [DocKind.names, DocKind.fields, List.map_cons, List.map_nil, List.mem_cons,
    List.not_mem_nil, or_false, not_or] at h
  simp only [noteChannel, h, or_self, if_false]

section

variable {j : Json} {t rest : Text}

theorem reads_colorRefMember {errMsg : Option Text} (fuel : ℕ) {key : Text} {cs : ChannelText}
    {out : Option ColorRef} (h : Written j t rest)
    (hlegible : j.legible (DocKind.color.member key) = true)
    (hcs : ChannelSays cs (out.getD (.rgb .white)).raw) :
    Reads (colorRefMember errMsg (jsonSkipValue fuel) fuel key out) t rest fun out' =>
      ChannelSays (noteChannel cs key j) (out'.getD (.rgb .white)).raw := by
  unfold colorRefMember
  refine .ite (fun hkey => ?_) fun kpalette => .ite (fun hkey => ?_) fun kuse =>
    .ite (fun hkey => ?_) fun kchannel => ?_
  · subst hkey
    refine (reads_uintWhere h (Json.legible_uint hlegible) errMsg _).bind fun v hv => .pure ?_
    change ChannelSays ![some j.number, none, none] ⟨u8 v, 0, 0⟩
    rw [hv.1]
    exact channelSays_position (of_decide_eq_true hv.2.2)
  · subst hkey
    refine (reads_uintWhere h (Json.legible_uint hlegible) errMsg _).bind fun v hv => .pure ?_
    have hle : v ≤ 2 := of_decide_eq_true hv.2.2
    change ChannelSays ![some j.number, none, none] ⟨u8 v, 0, 0⟩
    rw [hv.1]
    exact channelSays_position (hle.trans (by decide))
  · have hplain : j.Plain := by
      rcases hkey with rfl | rfl | rfl <;> exact Json.legible_uint hlegible
    refine (reads_uintWhere h hplain errMsg _).bind fun v hv => .pure ?_
    have hle : v ≤ 255 := of_decide_eq_true hv.2.2
    rcases hkey with rfl | rfl | rfl
    · change ChannelSays (Function.update cs 0 (some j.number)) _
      rw [hv.1]
      exact hcs.update hle (channel_setChannel out 0 _)
    · change ChannelSays (Function.update cs 1 (some j.number)) _
      rw [hv.1]
      exact hcs.update hle (channel_setChannel out 1 _)
    · change ChannelSays (Function.update cs 2 (some j.number)) _
      rw [hv.1]
      exact hcs.update hle (channel_setChannel out 2 _)
  · have hunknown : key ∉ DocKind.color.names := by
      simpa [DocKind.names, DocKind.fields, kpalette, kuse] using kchannel
    rw [noteChannel_unknown hunknown]
    exact (reads_skipUnknown h fuel).bind fun _ _ => .pure hcs

theorem reads_parseColorRef (h : Written j t rest) (hlegible : j.legible .color = true)
    (fuel : ℕ) (errMsg : Option Text) :
    Reads (parseColorRef (jsonSkipValue fuel) fuel errMsg) t rest fun ref =>
      ChannelSays (channelText j) ref.raw := by
  rw [parseColorRef_loop]
  refine (reads_peek h).bind fun c hc => ?_
  cases c with
  | none => exact .reject _
  | some c =>
      refine .ite (fun hquote => ?_) fun _ => ?_
      · subst hquote
        obtain ⟨s, rfl⟩ := h.string_of_head hc.symm
        refine (reads_string h errMsg 16).bind fun hex _ => ?_
        cases jsonParseHexColor hex with
        | none => exact .reject _
        | some rgb => exact .pure (channelSays_none rgb)
      · refine (reads_enterObject h errMsg).bind fun _ hmembers => ?_
        refine Reads.bind (u := rest) (Q := fun out : Option ColorRef =>
          ChannelSays (channelText j) (out.getD (.rgb .white)).raw) ?_ fun out hout => ?_
        · exact (regular_colorRefLoop errMsg).reads (k := .color)
            (I := fun cs out => ChannelSays cs (out.getD (.rgb .white)).raw) rfl (by decide)
            hmembers.2 (Json.legible_members rfl hlegible)
            (fun _ hkey _ _ => noteChannel_unknown hkey _ _)
            (fun key _ a cs out u v ha hcs hw => reads_colorRefMember fuel hw ha hcs) fuel
            (channelSays_none _)
        · cases out with
          | none => exact .reject _
          | some ref => exact .pure hout

theorem reads_stepColor (h : Written j t rest) (hlegible : j.legible .color = true) (fuel : ℕ)
    (errMsg : Option Text) (set : SceneStep → ColorRef → SceneStep) (draft : StepDraft) :
    Reads (stepColor (jsonSkipValue fuel) fuel errMsg set draft) t rest fun x =>
      ∃ ref : ColorRef, ChannelSays (channelText j) ref.raw ∧ x.1 = set draft.1 ref := by
  refine (reads_parseColorRef h hlegible fuel errMsg).bind fun ref href => ?_
  exact .pure ⟨ref, href, rfl⟩

end

/-! ### Steps -/

theorem StepText.putParams_nil (w : StepText) : w.putParams [] = w := by
  have hnums : (w.putParams []).nums = w.nums := by
    funext i
    cases i <;> rfl
  exact congrArg (StepText.mk w.id) hnums

theorem StepText.putParams_append (w : StepText) (vs : List ℚ) (v : ℚ) (hlt : vs.length < 6) :
    w.putParams (vs ++ [v]) = (w.putParams vs).put (.param ⟨vs.length, hlt⟩) v := by
  have hnums : (w.putParams (vs ++ [v])).nums =
      ((w.putParams vs).put (.param ⟨vs.length, hlt⟩) v).nums := by
    funext i
    cases i with
    | param i =>
        by_cases hi : i = ⟨vs.length, hlt⟩
        · subst hi
          simp [StepText.putParams, StepText.put]
        · have hne : StepNum.param i ≠ .param ⟨vs.length, hlt⟩ := fun h => hi (StepNum.param.inj h)
          have hval : i.val ≠ vs.length := fun h => hi (Fin.ext h)
          simp only [StepText.putParams, StepText.put, Function.update_of_ne hne,
            List.length_append, List.length_singleton]
          by_cases hlt : i.val < vs.length
          · rw [dif_pos (by omega), dif_pos hlt, List.getElem_append_left hlt]
          · rw [dif_neg (by omega), dif_neg hlt]
    | _ => simp [StepText.putParams, StepText.put]
  exact congrArg (StepText.mk w.id) hnums

theorem StepText.Says.putColorFrom {w : StepText} {step : SceneStep} (h : w.Says step)
    {cs : ChannelText} {ref : ColorRef} (hcs : ChannelSays cs ref.raw) :
    (w.putColorFrom cs).Says { step with colorFrom := ref } := by
  intro i v hi
  cases i with
  | colorFrom i => exact hcs i v hi
  | duration => exact h .duration v hi
  | speed => exact h .speed v hi
  | valueFrom => exact h .valueFrom v hi
  | valueTo => exact h .valueTo v hi
  | param i => exact h (.param i) v hi
  | colorTo i => exact h (.colorTo i) v hi

theorem StepText.Says.putColorTo {w : StepText} {step : SceneStep} (h : w.Says step)
    {cs : ChannelText} {ref : ColorRef} (hcs : ChannelSays cs ref.raw) :
    (w.putColorTo cs).Says { step with colorTo := ref } := by
  intro i v hi
  cases i with
  | colorTo i => exact hcs i v hi
  | duration => exact h .duration v hi
  | speed => exact h .speed v hi
  | valueFrom => exact h .valueFrom v hi
  | valueTo => exact h .valueTo v hi
  | param i => exact h (.param i) v hi
  | colorFrom i => exact h (.colorFrom i) v hi

theorem StepText.note_id (w : StepText) {key : Text} (hid : key ≠ bytes "id") (j : Json) :
    (w.note key j).id = w.id := by
  rw [StepText.note, if_neg hid]
  split_ifs <;> rfl

theorem StepText.noteNum_unknown {key : Text} (h : key ∉ stepLoop.known) (w : StepText)
    (v : ℚ) : w.noteNum key v = w := by
  simp only [stepLoop, List.map_cons, List.map_nil, List.mem_cons, List.not_mem_nil, or_false,
    not_or] at h
  unfold StepText.noteNum
  simp only [h, or_self, if_false]

theorem StepText.note_unknown {key : Text} (h : key ∉ stepLoop.known) (w : StepText)
    (j : Json) : w.note key j = w := by
  have hnum := StepText.noteNum_unknown h w j.number
  simp only [stepLoop, List.map_cons, List.map_nil, List.mem_cons, List.not_mem_nil, or_false,
    not_or] at h
  unfold StepText.note
  simp only [h, or_self, if_false, hnum]

/-- An angle is kept in steps of two degrees. -/
theorem halfDegrees (v : ℕ) : ((⌊(v : ℚ)⌋ % 360 / 2 : ℤ) : ℚ) = ((v % 360 / 2 : ℕ) : ℚ) := by
  rw [Int.floor_natCast]
  exact_mod_cast rfl

section

variable {j : Json} {t rest : Text} {w : StepText} {draft : StepDraft}

theorem reads_parseParams (h : Written j t rest) (hlegible : j.legible .uints = true) (fuel : ℕ)
    (hsay : w.Says draft.1) : Reads (parseParams fuel draft) t rest fun x =>
      (w.putParams (j.items.map Json.number)).Says x.1 := by
  refine (reads_enterArray h _).bind fun _ hentered => ?_
  obtain ⟨-, helements⟩ := hentered
  refine Reads.bind (u := rest) (Q := fun x : SceneStep × ℕ =>
    x.2 = j.items.length ∧ (w.putParams (j.items.map Json.number)).Says x.1) ?_ fun x hx => ?_
  · refine reads_whileElement (I := fun done (x : SceneStep × ℕ) =>
      x.2 = done.length ∧ (w.putParams (done.map Json.number)).Says x.1) helements ?_ fuel ?_
    · rintro done a ⟨step, pi⟩ u v ha ⟨hpi, hstep⟩ hw
      have hplain := Json.legible_uint (Json.legible_items hlegible a ha)
      refine (reads_uintWhere hw hplain _ _).bind fun n hn => ?_
      dsimp only at hpi hstep ⊢
      split_ifs with hlt
      · refine .pure ⟨?_, ?_⟩
        · rw [List.length_append, List.length_singleton]
          exact congrArg (· + 1) hpi
        · have hlen : (done.map Json.number).length = pi := by rw [List.length_map, hpi]
          have hle : n ≤ 255 := of_decide_eq_true hn.2.2
          rw [List.map_append, List.map_singleton, hn.1,
            StepText.putParams_append w _ _ (by omega)]
          have hput := hstep.setParam ⟨(done.map Json.number).length, by omega⟩ hle
          simp only [hlen] at hput ⊢
          exact hput
      · exact .reject _
    · refine ⟨rfl, ?_⟩
      rw [List.map_nil, StepText.putParams_nil]
      exact hsay
  · exact .pure hx.2

/-- The value of one field of a step. -/
theorem reads_handleStepField {key : Text} (h : Written j t rest)
    (hlegible : j.legible (DocKind.step.member key) = true) (hkey : key ∈ stepLoop.known)
    (hid : key ≠ bytes "id") (fuel : ℕ) (hsay : w.Says draft.1) :
    Reads (handleStepField (jsonSkipValue fuel) fuel key draft) t rest fun x =>
      (w.note key j).Says x.1 := by
  unfold handleStepField
  refine .ite (fun heq => ?_) fun ktype => ?_
  · subst heq
    exact (reads_parseStepType h _ _ _).imp fun x hx => hsay.of_type hx
  refine .ite (fun heq => ?_) fun krunner => ?_
  · subst heq
    exact (reads_parseStepType h _ _ _).imp fun x hx => hsay.of_type hx
  refine .ite (fun heq => ?_) fun kcolorFrom => ?_
  · subst heq
    refine (reads_stepColor h hlegible fuel _ _ draft).imp fun x hx => ?_
    obtain ⟨ref, href, hx⟩ := hx
    rw [hx]
    exact hsay.putColorFrom href
  refine .ite (fun heq => ?_) fun kcolorTo => ?_
  · have hcolor : j.legible .color = true := by
      rcases heq with rfl | rfl <;> exact hlegible
    refine (reads_stepColor h hcolor fuel _ _ draft).imp fun x hx => ?_
    obtain ⟨ref, href, hx⟩ := hx
    rw [hx]
    rcases heq with rfl | rfl <;> exact hsay.putColorTo href
  refine .ite (fun heq => ?_) fun kduration => ?_
  · subst heq
    refine reads_stepNum h hlegible hsay .duration (fun v hv _ => ?_) fun v i hi => ?_
    · change v % 65536 = v
      omega
    · cases i with
      | duration => exact absurd rfl hi
      | _ => rfl
  refine .ite (fun heq => ?_) fun kloop => ?_
  · subst heq
    refine (reads_stepBool h _).imp fun x hx => hsay.of_bool (fun i => ?_) hx
    cases i <;> rfl
  refine .ite (fun heq => ?_) fun kpingpong => ?_
  · subst heq
    refine (reads_stepBool h _).imp fun x hx => hsay.of_bool (fun i => ?_) hx
    cases i <;> rfl
  refine .ite (fun heq => ?_) fun kparams => ?_
  · subst heq
    exact reads_parseParams h hlegible fuel hsay
  refine .ite (fun heq => ?_) fun kfrom => ?_
  · subst heq
    refine reads_stepNum h hlegible hsay .valueFrom
      (fun v _ hv => toNat_u8_of_le (of_decide_eq_true hv)) fun v i hi => ?_
    cases i with
    | valueFrom => exact absurd rfl hi
    | _ => rfl
  refine .ite (fun heq => ?_) fun kto => ?_
  · subst heq
    refine reads_stepNum h hlegible hsay .valueTo
      (fun v _ hv => toNat_u8_of_le (of_decide_eq_true hv)) fun v i hi => ?_
    cases i with
    | valueTo => exact absurd rfl hi
    | _ => rfl
  refine .ite (fun heq => ?_) fun kwidth => ?_
  · have huint : j.legible .uint = true := by
      rcases heq with rfl | rfl | rfl <;> exact hlegible
    rcases heq with rfl | rfl | rfl <;>
      exact reads_stepParam h huint (fun _ => of_decide_eq_true) hsay .width
  refine .ite (fun heq => ?_) fun kthickness => ?_
  · subst heq
    exact reads_stepParam h hlegible (fun _ => of_decide_eq_true) hsay .width
  refine .ite (fun heq => ?_) fun klines => ?_
  · subst heq
    refine reads_stepParam h hlegible (fun v hv => ?_) hsay .lines
    have hle : 1 ≤ v ∧ v ≤ 6 := by simpa using hv
    exact hle.2.trans (by decide)
  refine .ite (fun heq => ?_) fun ksource => ?_
  · subst heq
    refine (reads_stepWord h _ _).imp fun x hx => ?_
    obtain ⟨s, hx⟩ := hx
    exact says_parseSource hsay hx
  refine .ite (fun heq => ?_) fun kdirectionality => ?_
  · subst heq
    refine (reads_stepWord h _ _).imp fun x hx => ?_
    obtain ⟨s, hx⟩ := hx
    exact says_parseDirectionality hsay hx
  refine .ite (fun heq => ?_) fun kreverse => ?_
  · subst heq
    refine (reads_stepBool h _).imp fun x hx => ?_
    change (w.forget (.param .flags)).Says x.1
    rcases hx with hx | hx
    · rw [hx]
      exact hsay.forgetParam .flags _
    · rw [hx]
      exact hsay.forgetMore _
  refine .ite (fun heq => ?_) fun kcount => ?_
  · subst heq
    refine reads_stepParam h hlegible (fun v hv => ?_) hsay .count
    have hle : 1 ≤ v ∧ v ≤ 30 := by simpa using hv
    exact hle.2.trans (by decide)
  refine .ite (fun heq => ?_) fun kwaves => ?_
  · have huint : j.legible .uint = true := by
      rcases heq with rfl | rfl <;> exact hlegible
    rcases heq with rfl | rfl <;>
      exact reads_stepParam h huint (fun _ => of_decide_eq_true) hsay .waves
  refine .ite (fun heq => ?_) fun kspeed => ?_
  · subst heq
    refine reads_stepNum h hlegible hsay .speed (fun v hv _ => ?_) fun v i hi => ?_
    · change v % 65536 = v
      omega
    · cases i with
      | speed => exact absurd rfl hi
      | _ => rfl
  refine .ite (fun heq => ?_) fun kangle => ?_
  · subst heq
    refine (reads_stepUInt h hlegible _ _).imp fun x hx => ?_
    obtain ⟨v, hv, -, -, hx⟩ := hx
    change (w.put (.param .srcArg) ((⌊j.number⌋ % 360 / 2 : ℤ) : ℚ)).Says x.1
    rw [hv, halfDegrees, hx]
    exact hsay.setParam .srcArg (by omega)
  refine .ite (fun heq => ?_) fun korigin => ?_
  · subst heq
    refine (reads_stepUInt h hlegible _ _).imp fun x hx => ?_
    obtain ⟨v, hv, -, hle, hx⟩ := hx
    have hle : v ≠ 0 ∧ v ≤ 255 := by simpa using hle
    change ((w.forget (.param .srcKind)).put (.param .srcArg) j.number).Says x.1
    rw [hv, hx]
    exact (hsay.forgetParam .srcKind _).setParam .srcArg hle.2
  refine .ite (fun heq => ?_) fun kanimates => ?_
  · subst heq
    refine (reads_stepWord h _ _).imp fun x hx => ?_
    obtain ⟨s, hx⟩ := hx
    exact says_parseAnimates hsay hx
  refine .ite (fun heq => ?_) fun kamount => ?_
  · subst heq
    exact reads_stepParam h hlegible (fun _ => of_decide_eq_true) hsay .amount
  · simp only [not_or] at kcolorTo kwidth kwaves
    simp only [stepLoop, List.map_cons, List.map_nil, List.mem_cons, List.not_mem_nil, or_false,
      hid, ktype, krunner, kcolorFrom, kcolorTo, kduration, kloop, kpingpong, kparams, kfrom, kto,
      kwidth, kthickness, klines, ksource, kdirectionality, kreverse, kcount, kwaves, kspeed,
      kangle, korigin, kanimates, kamount] at hkey

end

/-- The step holds the numbers that are written for it, except those it has no use for. -/
def StepText.SaysUsed (w : StepText) (step : SceneStep) : Prop :=
  ∀ i v, w.nums i = some v → step.Uses i → (i.of step : ℚ) = v

theorem StepText.Says.invert {w : StepText} {step : SceneStep} (h : w.Says step)
    (hinvert : step.animates = .invert) :
    w.SaysUsed { step with valueFrom := 0, valueTo := 0 } := by
  intro i v hi huses
  cases i with
  | valueFrom => exact absurd hinvert huses
  | valueTo => exact absurd hinvert huses.1
  | duration => exact h .duration v hi
  | speed => exact h .speed v hi
  | param i => exact h (.param i) v hi
  | colorFrom i => exact h (.colorFrom i) v hi
  | colorTo i => exact h (.colorTo i) v hi

/-- The second value of a step is zero where it has no use for it. -/
theorem StepText.SaysUsed.solid {w : StepText} {step : SceneStep} (h : w.SaysUsed step)
    (hsolid : step.animType = .solid ∧ step.animates ≠ .color) :
    w.SaysUsed { step with valueTo := 0 } := by
  intro i v hi huses
  cases i with
  | valueTo => exact absurd hsolid huses.2
  | valueFrom => exact h .valueFrom v hi huses
  | duration => exact h .duration v hi huses
  | speed => exact h .speed v hi huses
  | param i => exact h (.param i) v hi huses
  | colorFrom i => exact h (.colorFrom i) v hi huses
  | colorTo i => exact h (.colorTo i) v hi huses

theorem says_finishStep {draft : StepDraft} {w : StepText} {step : SceneStep}
    (h : w.Says draft.1) (hok : finishStep draft = .ok step) : w.SaysUsed step := by
  unfold finishStep at hok
  dsimp only at hok
  have htyped : w.Says (if draft.2 = true then draft.1 else { draft.1 with animType := .gap }) := by
    split_ifs
    · exact h
    · exact h.of_type ⟨_, rfl⟩
  generalize (if draft.2 = true then draft.1 else { draft.1 with animType := .gap }) = t
    at hok htyped
  have hinverted : w.SaysUsed
      (if t.animates = .invert then { t with valueFrom := 0, valueTo := 0 } else t) := by
    split_ifs with hinvert
    · exact htyped.invert hinvert
    · exact fun i v hi _ => htyped i v hi
  generalize (if t.animates = .invert then { t with valueFrom := 0, valueTo := 0 } else t) = t'
    at hok hinverted
  split_ifs at hok with hhue hsolid
  · cases hok
    exact hinverted.solid hsolid
  · cases hok
    exact hinverted

/-- What is stored of a step next to what the text says. -/
structure StepSays (step : SceneStep) (stepId : Text) (w : StepText) : Prop where
  id : stepId = cut 15 w.id
  nums : w.SaysUsed step

section

variable {j : Json} {t rest : Text}

theorem reads_stepMember {key : Text} {w : StepText} {d : StepDraft × Text} (h : Written j t rest)
    (hlegible : j.legible (DocKind.step.member key) = true) (hkey : key ∈ stepLoop.known)
    (fuel : ℕ) (hid : d.2 = cut 15 w.id) (hsay : w.Says d.1.1) :
    Reads (stepMember (jsonSkipValue fuel) fuel key d) t rest fun d' =>
      d'.2 = cut 15 (w.note key j).id ∧ (w.note key j).Says d'.1.1 := by
  obtain ⟨draft, stepId⟩ := d
  unfold stepMember
  refine .ite (fun heq => ?_) fun hne => ?_
  · subst heq
    refine (reads_string h _ stepNameLen).bind fun s hs => ?_
    exact (Reads.ensure _ _).bind fun _ _ => (Reads.ensure _ _).bind fun _ _ => .pure ⟨hs, hsay⟩
  · refine (reads_handleStepField h hlegible hkey hne fuel hsay).bind fun x hx => .pure ⟨?_, hx⟩
    rw [w.note_id hne]
    exact hid

/-- The members of a step object are read as what they say. -/
theorem reads_parseStep {ms : List (Text × Json)} (h : MembersText ms t rest)
    (hlegible : ∀ m ∈ ms, ∃ key, decoded m.1 = some key ∧ DocKind.step.sees key = true ∧
      m.2.legible (DocKind.step.member key) = true) (fuel : ℕ) :
    Reads (parseStep (jsonSkipValue fuel) fuel) t rest fun x => StepSays x.1 x.2 (stepText ms) := by
  rw [parseStep_loop]
  refine Reads.bind (u := rest) (Q := fun x : StepDraft × Text =>
    x.2 = cut 15 (stepText ms).id ∧ (stepText ms).Says x.1.1) ?_ ?_
  · refine regular_stepLoop.reads (k := .step)
      (I := fun (w : StepText) (x : StepDraft × Text) => x.2 = cut 15 w.id ∧ w.Says x.1.1) rfl
      (by decide) h hlegible (fun _ hkey w a => w.note_unknown hkey a) ?_ fuel ?_
    · exact fun key hkey a w s u v ha hs hw => reads_stepMember hw ha hkey fuel hs.1 hs.2
    · exact ⟨rfl, fun i v hi => by cases hi⟩
  · rintro ⟨draft, stepId⟩ ⟨hid, hsay⟩
    refine Reads.bind (Q := fun step => (stepText ms).SaysUsed step)
      (.lift fun step hok => says_finishStep hsay hok) fun step hstep => .pure ⟨hid, hstep⟩

end

end Lightnet
