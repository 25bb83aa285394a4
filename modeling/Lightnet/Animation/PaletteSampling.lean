import Lightnet.Animation.IntegerWidths

/-!
# Sampling a palette

Between two neighbouring stops of a palette each channel moves from the one to the other by an
amount that grows with the position, from nothing at the first to all of it at the second.
-/

namespace Lightnet

/-! ### Mixing two channels -/

theorem toNat_s8 {n : ℕ} (h : n < 256) : (s8 n).toNat = n := by
  change (BitVec.ofInt 8 n).toNat = n
  rw [BitVec.ofInt_natCast, BitVec.toNat_ofNat, Nat.mod_eq_of_lt h]

theorem toNat_mix_of_le {x y : Byte} (h : x.toNat ≤ y.toNat) (value : Byte) :
    (mix x y value).toNat = x.toNat + (y.toNat - x.toNat) * value.toNat / 255 := by
  have hy := y.isLt
  have hvalue := value.isLt
  have hquotient : ((((y.toNat - x.toNat : ℕ) : ℤ)) * value.toNat).tdiv 255 =
      ((y.toNat - x.toNat) * value.toNat / 255 : ℕ) := by
    rw [← Int.natCast_mul]
    exact (Int.ofNat_tdiv _ 255).symm
  have hle : (y.toNat - x.toNat) * value.toNat / 255 ≤ y.toNat - x.toNat :=
    Nat.div_le_of_le_mul (by rw [Nat.mul_comm]; exact Nat.mul_le_mul_right _ (by omega))
  rw [mix, ← Int.ofNat_sub h, hquotient, ← Int.natCast_add, toNat_s8 (by omega)]

theorem toNat_mix_of_ge {x y : Byte} (h : y.toNat ≤ x.toNat) (value : Byte) :
    (mix x y value).toNat = x.toNat - (x.toNat - y.toNat) * value.toNat / 255 := by
  have hx := x.isLt
  have hvalue := value.isLt
  have hneg : (y.toNat : ℤ) - x.toNat = -((x.toNat - y.toNat : ℕ) : ℤ) := by omega
  have hquotient : (-((x.toNat - y.toNat : ℕ) : ℤ) * value.toNat).tdiv 255 =
      -((x.toNat - y.toNat) * value.toNat / 255 : ℕ) := by
    rw [Int.neg_mul, Int.neg_tdiv, ← Int.natCast_mul]
    exact congrArg Neg.neg (Int.ofNat_tdiv _ 255).symm
  have hle : (x.toNat - y.toNat) * value.toNat / 255 ≤ x.toNat - y.toNat :=
    Nat.div_le_of_le_mul (by rw [Nat.mul_comm]; exact Nat.mul_le_mul_right _ (by omega))
  have hsum : (x.toNat : ℤ) + -((x.toNat - y.toNat) * value.toNat / 255 : ℕ) =
      (x.toNat - (x.toNat - y.toNat) * value.toNat / 255 : ℕ) := by omega
  rw [mix, hneg, hquotient, hsum, toNat_s8 (by omega)]

theorem mix_zero (x y : Byte) : mix x y 0 = x := by
  apply BitVec.eq_of_toNat_eq
  have hnone : (0 : Byte).toNat = 0 := rfl
  rcases Nat.le_total x.toNat y.toNat with h | h
  · rw [toNat_mix_of_le h, hnone, Nat.mul_zero, Nat.zero_div, Nat.add_zero]
  · rw [toNat_mix_of_ge h, hnone, Nat.mul_zero, Nat.zero_div, Nat.sub_zero]

theorem mix_full (x y : Byte) : mix x y 255 = y := by
  apply BitVec.eq_of_toNat_eq
  have hfull : (255 : Byte).toNat = 255 := rfl
  rcases Nat.le_total x.toNat y.toNat with h | h
  · rw [toNat_mix_of_le h, hfull, Nat.mul_div_cancel _ (by decide)]
    omega
  · rw [toNat_mix_of_ge h, hfull, Nat.mul_div_cancel _ (by decide)]
    omega

/-- The number lies between two others. -/
def Between (x y z : ℕ) : Prop := min x y ≤ z ∧ z ≤ max x y

/-- From `p` to `q` it goes the way from `x` to `y`. -/
def Towards (x y p q : ℕ) : Prop := (x ≤ y → p ≤ q) ∧ (y ≤ x → q ≤ p)

theorem mix_between (x y value : Byte) : Between x.toNat y.toNat (mix x y value).toNat := by
  have hvalue := value.isLt
  have hle (d : ℕ) : d * value.toNat / 255 ≤ d :=
    Nat.div_le_of_le_mul (by rw [Nat.mul_comm]; exact Nat.mul_le_mul_right _ (by omega))
  rcases Nat.le_total x.toNat y.toNat with h | h
  · have hd := hle (y.toNat - x.toNat)
    rw [toNat_mix_of_le h, Between]
    omega
  · have hd := hle (x.toNat - y.toNat)
    rw [toNat_mix_of_ge h, Between]
    omega

theorem mix_towards (x y : Byte) {u v : Byte} (huv : u.toNat ≤ v.toNat) :
    Towards x.toNat y.toNat (mix x y u).toNat (mix x y v).toNat := by
  have hle (d : ℕ) : d * u.toNat / 255 ≤ d * v.toNat / 255 :=
    Nat.div_le_div_right (Nat.mul_le_mul_left d huv)
  constructor
  · intro h
    have hd := hle (y.toNat - x.toNat)
    rw [toNat_mix_of_le h, toNat_mix_of_le h]
    omega
  · intro h
    have hd := hle (x.toNat - y.toNat)
    rw [toNat_mix_of_ge h, toNat_mix_of_ge h]
    omega

/-! ### Segments -/

/-- How far the position is from the first stop on the way to the second. -/
def amountAt (a b pos : Byte) : Byte :=
  u8 ((pos.toNat - a.toNat) * 255 / (b.toNat - a.toNat))

section
variable {a b pos : Byte}

theorem toNat_amountAt (hab : a.toNat < b.toNat) (hpos : pos.toNat ≤ b.toNat) :
    (amountAt a b pos).toNat = (pos.toNat - a.toNat) * 255 / (b.toNat - a.toNat) := by
  have hle : (pos.toNat - a.toNat) * 255 / (b.toNat - a.toNat) ≤ 255 :=
    Nat.div_le_of_le_mul (Nat.mul_le_mul_right _ (by omega))
  rw [amountAt, BitVec.toNat_ofNat, Nat.mod_eq_of_lt (by omega)]

theorem amountAt_first : amountAt a b a = 0 := by
  rw [amountAt, Nat.sub_self, Nat.zero_mul, Nat.zero_div]
  rfl

theorem amountAt_second (hab : a.toNat < b.toNat) : amountAt a b b = 255 := by
  rw [amountAt, Nat.mul_comm, Nat.mul_div_cancel _ (by omega)]
  rfl

theorem amountAt_mono (hab : a.toNat < b.toNat) {p q : Byte} (hpq : p.toNat ≤ q.toNat)
    (hq : q.toNat ≤ b.toNat) : (amountAt a b p).toNat ≤ (amountAt a b q).toNat := by
  rw [toNat_amountAt hab (hpq.trans hq), toNat_amountAt hab hq]
  exact Nat.div_le_div_right (Nat.mul_le_mul_right 255 (by omega))

end

/-- The stops have strictly increasing positions. -/
def Ascending (stops : List GradientStop) : Prop :=
  stops.Pairwise fun a b => a.pos.toNat < b.pos.toNat

theorem paletteSegment_eq {pos : Byte} {a b : GradientStop} {before after : List GradientStop}
    {first : GradientStop} (hsorted : Ascending (first :: before ++ a :: b :: after))
    (hlow : a.pos.toNat ≤ pos.toNat) (hhigh : pos.toNat < b.pos.toNat) :
    paletteSegment pos first (before ++ a :: b :: after) = (a, b) := by
  have hb : ¬ b.pos ≤ pos := by
    rw [BitVec.le_def]
    omega
  have ha : a.pos ≤ pos := BitVec.le_def.mpr hlow
  induction before generalizing first with
  | nil => rw [List.nil_append, paletteSegment, if_pos ha, paletteSegment, if_neg hb]
  | cons c before ih =>
      have hrest := (List.pairwise_cons.mp hsorted).2
      have hc := (List.pairwise_cons.mp hrest).1 a (by simp)
      have hcpos : c.pos ≤ pos := BitVec.le_def.mpr (by omega)
      rw [List.cons_append, paletteSegment, if_pos hcpos]
      exact ih hrest

theorem paletteSegment_head {pos : Byte} {a b : GradientStop} {after : List GradientStop}
    (hhigh : pos.toNat < b.pos.toNat) : paletteSegment pos a (b :: after) = (a, b) := by
  have hb : ¬ b.pos ≤ pos := by
    rw [BitVec.le_def]
    omega
  rw [paletteSegment, if_neg hb]

theorem Ascending.le_getLast {stops : List GradientStop} (h : Ascending stops) {s : GradientStop}
    (hs : s ∈ stops) (hne : stops ≠ []) : s.pos.toNat ≤ (stops.getLast hne).pos.toNat := by
  rw [← List.dropLast_append_getLast hne] at h hs
  rcases List.mem_append.mp hs with hs | hs
  · exact ((List.pairwise_append.mp h).2.2 s hs _ List.mem_cons_self).le
  · rw [List.mem_singleton.mp hs]

theorem samplePalette_inner {first a b : GradientStop} {rest : List GradientStop} {pos : Byte}
    (hrest : rest ≠ []) (hfirst : first.pos.toNat < pos.toNat)
    (hlast : pos.toNat < (rest.getLast hrest).pos.toNat)
    (hsegment : paletteSegment pos first rest = (a, b)) (hlow : a.pos.toNat ≤ pos.toNat)
    (hhigh : pos.toNat < b.pos.toNat) : samplePalette (first :: rest) pos =
      a.color.map₂ (mix · · (amountAt a.pos b.pos pos)) b.color := by
  have hin : ¬ (rest = [] ∨ pos ≤ first.pos) := by
    rw [BitVec.le_def]
    exact not_or.mpr ⟨hrest, by omega⟩
  have hbefore : ¬ (rest.getLast?.getD first).pos ≤ pos := by
    rw [List.getLast?_eq_getLast_of_ne_nil hrest, Option.getD_some, BitVec.le_def]
    omega
  have hspan : (b.pos - a.pos).toNat = b.pos.toNat - a.pos.toNat := by
    have hb := b.pos.isLt
    rw [BitVec.toNat_sub]
    omega
  have hne : b.pos - a.pos ≠ 0 := by
    intro hzero
    rw [hzero] at hspan
    have hspan : 0 = b.pos.toNat - a.pos.toNat := hspan
    omega
  rw [samplePalette]
  dsimp only
  rw [if_neg hin, if_neg hbefore, hsegment]
  dsimp only
  rw [if_neg hne, hspan]
  rfl

theorem samplePalette_first {first : GradientStop} {rest : List GradientStop} {pos : Byte}
    (h : pos.toNat ≤ first.pos.toNat) : samplePalette (first :: rest) pos = first.color := by
  rw [samplePalette]
  exact if_pos (.inr (BitVec.le_def.mpr h))

theorem samplePalette_last {stops : List GradientStop} (hsorted : Ascending stops)
    (hne : stops ≠ []) {pos : Byte} (h : (stops.getLast hne).pos.toNat ≤ pos.toNat) :
    samplePalette stops pos = (stops.getLast hne).color := by
  cases stops with
  | nil => exact absurd rfl hne
  | cons first rest =>
      by_cases hin : rest = [] ∨ pos ≤ first.pos
      · rw [samplePalette]
        dsimp only
        rw [if_pos hin]
        rcases hin with rfl | hpos
        · rfl
        · cases rest with
          | nil => rfl
          | cons b rest =>
              have hlt := (List.pairwise_cons.mp hsorted).1 _ (List.getLast_mem (l := b :: rest)
                (List.cons_ne_nil _ _))
              rw [BitVec.le_def] at hpos
              rw [List.getLast_cons (List.cons_ne_nil _ _)] at h
              omega
      · have hrest : rest ≠ [] := fun h => hin (.inl h)
        rw [List.getLast_cons hrest] at h ⊢
        have hlast : rest.getLast?.getD first = rest.getLast hrest := by
          rw [List.getLast?_eq_getLast_of_ne_nil hrest, Option.getD_some]
        rw [samplePalette]
        dsimp only
        rw [if_neg hin, hlast, if_pos (BitVec.le_def.mpr h)]

theorem map₂_mix_zero (c d : ColorRGB) : c.map₂ (mix · · 0) d = c := by
  simp only [ColorRGB.map₂, mix_zero]

theorem map₂_mix_full (c d : ColorRGB) : c.map₂ (mix · · 255) d = d := by
  simp only [ColorRGB.map₂, mix_full]

/-- The colour at a position from a stop up to the next one. -/
theorem samplePalette_segment {before after : List GradientStop} {a b : GradientStop}
    (hsorted : Ascending (before ++ a :: b :: after)) {pos : Byte}
    (hlow : a.pos.toNat ≤ pos.toNat) (hhigh : pos.toNat < b.pos.toNat) :
    samplePalette (before ++ a :: b :: after) pos =
      a.color.map₂ (mix · · (amountAt a.pos b.pos pos)) b.color := by
  cases before with
  | nil =>
      by_cases hfirst : pos.toNat ≤ a.pos.toNat
      · have heq : pos = a.pos := BitVec.eq_of_toNat_eq (by omega)
        rw [List.nil_append, samplePalette_first hfirst, heq, amountAt_first, map₂_mix_zero]
      · have htail : Ascending (b :: after) := (List.pairwise_cons.mp hsorted).2
        have hlast := htail.le_getLast List.mem_cons_self (List.cons_ne_nil b after)
        exact samplePalette_inner (List.cons_ne_nil b after) (by omega) (hhigh.trans_le hlast)
          (paletteSegment_head hhigh) hlow hhigh
  | cons first before =>
      have hfirst := (List.pairwise_cons.mp hsorted).1 a (by simp)
      have hrest : before ++ a :: b :: after ≠ [] := by simp
      have htail : Ascending (before ++ a :: b :: after) := (List.pairwise_cons.mp hsorted).2
      have hlast := htail.le_getLast (s := b) (by simp) hrest
      exact samplePalette_inner hrest (by omega) (hhigh.trans_le hlast)
        (paletteSegment_eq hsorted hlow hhigh) hlow hhigh

/-- The same up to and with the position of the next stop. -/
theorem samplePalette_between {before after : List GradientStop} {a b : GradientStop}
    (hsorted : Ascending (before ++ a :: b :: after)) {pos : Byte}
    (hlow : a.pos.toNat ≤ pos.toNat) (hhigh : pos.toNat ≤ b.pos.toNat) :
    samplePalette (before ++ a :: b :: after) pos =
      a.color.map₂ (mix · · (amountAt a.pos b.pos pos)) b.color := by
  rcases Nat.lt_or_eq_of_le hhigh with hlt | heq
  · exact samplePalette_segment hsorted hlow hlt
  · have hab : a.pos.toNat < b.pos.toNat :=
      (List.pairwise_cons.mp (List.pairwise_append.mp hsorted).2.1).1 b List.mem_cons_self
    obtain rfl := BitVec.eq_of_toNat_eq heq
    rw [amountAt_second hab, map₂_mix_full]
    cases after with
    | nil =>
        rw [samplePalette_last hsorted (by simp) (by simp)]
        simp
    | cons c after =>
        have hbc : b.pos.toNat < c.pos.toNat :=
          (List.pairwise_cons.mp (List.pairwise_cons.mp
            (List.pairwise_append.mp hsorted).2.1).2).1 c List.mem_cons_self
        have happend : before ++ a :: b :: c :: after = (before ++ [a]) ++ b :: c :: after := by
          simp
        rw [happend] at hsorted ⊢
        rw [samplePalette_segment hsorted le_rfl hbc, amountAt_first, map₂_mix_zero]

/-! ### Sampling -/

inductive Channel where
  | r | g | b

def ColorRGB.component (c : ColorRGB) : Channel → ℕ
  | .r => c.r.toNat
  | .g => c.g.toNat
  | .b => c.b.toNat

theorem channel_mix_between (c d : ColorRGB) (value : Byte) (i : Channel) :
    Between (c.component i) (d.component i) ((c.map₂ (mix · · value) d).component i) := by
  cases i <;> exact mix_between _ _ value

theorem channel_mix_towards (c d : ColorRGB) {u v : Byte} (huv : u.toNat ≤ v.toNat)
    (i : Channel) : Towards (c.component i) (d.component i) ((c.map₂ (mix · · u) d).component i)
      ((c.map₂ (mix · · v) d).component i) := by
  cases i <;> exact mix_towards _ _ huv

/-- The palette gives the colour of each stop there, the outermost colours beyond the outermost
stops, and between neighbours each channel goes from the one colour to the other. -/
structure Interpolates (stops : List GradientStop) (f : Byte → ColorRGB) : Prop where
  stop : ∀ s ∈ stops, f s.pos = s.color
  first : ∀ s ∈ stops.head?, ∀ pos : Byte, pos.toNat ≤ s.pos.toNat → f pos = s.color
  last : ∀ s ∈ stops.getLast?, ∀ pos : Byte, s.pos.toNat ≤ pos.toNat → f pos = s.color
  between : ∀ before a b after, stops = before ++ a :: b :: after → ∀ (pos : Byte) (i : Channel),
    a.pos.toNat ≤ pos.toNat → pos.toNat ≤ b.pos.toNat →
      Between (a.color.component i) (b.color.component i) ((f pos).component i)
  towards : ∀ before a b after, stops = before ++ a :: b :: after → ∀ (p q : Byte) (i : Channel),
    a.pos.toNat ≤ p.toNat → p.toNat ≤ q.toNat → q.toNat ≤ b.pos.toNat →
      Towards (a.color.component i) (b.color.component i) ((f p).component i) ((f q).component i)

theorem samplePalette_stop {stops : List GradientStop} (hsorted : Ascending stops)
    {s : GradientStop} (hs : s ∈ stops) : samplePalette stops s.pos = s.color := by
  obtain ⟨before, after, rfl⟩ := List.append_of_mem hs
  cases after with
  | nil =>
      rw [samplePalette_last hsorted (by simp) (by simp)]
      simp
  | cons b after =>
      have hb : s.pos.toNat < b.pos.toNat :=
        (List.pairwise_cons.mp (List.pairwise_append.mp hsorted).2.1).1 b List.mem_cons_self
      rw [samplePalette_segment hsorted le_rfl hb, amountAt_first, map₂_mix_zero]

theorem samplePalette_interpolates {stops : List GradientStop} (hsorted : Ascending stops) :
    Interpolates stops (samplePalette stops) where
  stop _ hs := samplePalette_stop hsorted hs
  first s hs pos hpos := by
    cases stops with
    | nil => cases hs
    | cons first rest =>
        obtain rfl := Option.some.inj hs
        exact samplePalette_first hpos
  last s hs pos hpos := by
    have hne : stops ≠ [] := by
      rintro rfl
      cases hs
    rw [List.getLast?_eq_getLast_of_ne_nil hne] at hs
    obtain rfl := Option.some.inj hs
    exact samplePalette_last hsorted hne hpos
  between before a b after heq pos i hlow hhigh := by
    subst heq
    rw [samplePalette_between hsorted hlow hhigh]
    exact channel_mix_between _ _ _ i
  towards before a b after heq p q i hlow hpq hhigh := by
    subst heq
    have hab : a.pos.toNat < b.pos.toNat :=
      (List.pairwise_cons.mp (List.pairwise_append.mp hsorted).2.1).1 b List.mem_cons_self
    rw [samplePalette_between hsorted hlow (hpq.trans hhigh),
      samplePalette_between hsorted (hlow.trans hpq) hhigh]
    exact channel_mix_towards _ _ (amountAt_mono hab hpq hhigh) i

theorem samplePalette_interpolates_gray :
    Interpolates [⟨0, .black⟩, ⟨255, .white⟩] (samplePalette [⟨0, .black⟩, ⟨255, .white⟩]) :=
  samplePalette_interpolates (by simp [Ascending])

end Lightnet
