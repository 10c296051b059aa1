import PinnedMap.Picture.Source
import PinnedMap.Proofs.Decimal.Range
import PinnedMap.Proofs.ImageMap.Sizing

/-! How large a scale can get. An image is never shown wider than it is by nature, so with lengths of 32 bits the
ratio of both widths is a double from zero to one. The ratio of the heights comes from a product and two quotients,
each of which is rounded, and can be a little more than one. -/
namespace PinnedMap

open Decimal Decimal.Binary

theorem Decimal.IsWithin.greater {value : Float} {x : ℚ} (within : IsWithin x value) :
    IsWithin x (greater value 0) := by
  obtain ⟨magnitude,canonical,rfl,most⟩ := within
  exact (isWithin_greater canonical (.inl rfl)).mono most

section Sizes

variable {width height : Nat}

private theorem isWithin_fittedWidth (fits : width < 2 ^ 32) (available : Float) (cap : Option Float) :
    IsWithin width (fittedWidth lesser greater (nearest width 1) available cap) := by
  obtain ⟨limit,canonical,isWidth,same⟩ := exists_whole (by omega : width < 2 ^ 53)
  obtain ⟨hundred,isCanonical,isHundred,same'⟩ := exists_whole (by norm_num : 100 < 2 ^ 53)
  obtain ⟨most,isMost,isProduct,_⟩ := exists_whole (by omega : width * 100 < 2 ^ 53)
  have literal : nearest 100 1 = 100 := by decide +kernel
  rw [literal] at same'
  have wanted : IsBelow limit (lesser (nearest width 1) available) := by
    rw [same]
    exact isBelow_lesser canonical (.inl rfl) available
  have room : IsWithin limit.number (greater (cap.elim (lesser (nearest width 1) available)
      (lesser (lesser (nearest width 1) available))) 0) := by
    cases cap with
    | none => exact isWithin_greater canonical wanted
    | some other => exact isWithin_greater_lesser canonical wanted other
  have product := room.mul ⟨hundred,isCanonical,same',isHundred.le⟩ isMost (by rw [isWidth,isProduct]; push_cast; rfl)
  have some : 0 < hundred.mantissa := mantissa_pos (by rw [isHundred]; norm_num)
  have quotient := product.div isCanonical some canonical (by rw [isWidth,isProduct,isHundred]; push_cast; linarith)
  rw [← same',isWidth] at quotient
  exact quotient.greater

private theorem isWithin_fittedHeight (fits : width < 2 ^ 32) (fits' : height < 2 ^ 32) (some : 0 < width)
    {shown : Float}
    (within : IsWithin width shown) : IsWithin (2 * height) (shown * nearest height 1 / nearest width 1) := by
  obtain ⟨divisor,canonical,isWidth,same⟩ := exists_whole (by omega : width < 2 ^ 53)
  obtain ⟨factor,canonical',isHeight,same'⟩ := exists_whole (by omega : height < 2 ^ 53)
  obtain ⟨most,isMost,isDouble,_⟩ := exists_whole (by omega : 2 * height < 2 ^ 53)
  have positive : (0 : ℚ) < width := by exact_mod_cast some
  rw [same,same']
  -- A power of two between the exact product and its double.
  obtain ⟨bound,isBound,above,below⟩ : ∃ bound : Binary, bound.IsCanonical ∧ (width * height : ℚ) ≤ bound.number ∧
      bound.number ≤ 2 * (width * height) := by
    rcases Nat.eq_zero_or_pos height with rfl | some'
    · exact ⟨none,isCanonical_none,by simp [number_none],by simp [number_none]⟩
    · have area : 0 < width * height := Nat.mul_pos some some'
      have small : (width * height).log2 + 1 ≤ 900 := by
        have log : (width * height).log2 < 64 := (Nat.log2_lt area.ne').mpr (by nlinarith)
        omega
      obtain ⟨bound,isBound,_,number⟩ := exists_exact Nat.one_pos (by norm_num) small
      have least : 2 ^ (width * height).log2 ≤ width * height := Nat.log2_self_le area.ne'
      have more : width * height < 2 ^ ((width * height).log2 + 1) := Nat.lt_log2_self
      refine ⟨bound,isBound,?_,?_⟩ <;> rw [number,Nat.cast_one,one_mul]
      · exact_mod_cast more.le
      · rw [pow_succ]
        have least : (2 : ℚ) ^ (width * height).log2 ≤ width * height := by exact_mod_cast least
        linarith
  have product := within.mul ⟨factor,canonical',rfl,isHeight.le⟩ isBound above
  have quotient := product.div canonical (mantissa_pos (isWidth ▸ positive)) isMost (by
    rw [isWidth,isDouble,div_le_iff₀ positive]
    push_cast
    linarith)
  rw [isDouble] at quotient
  exact quotient.mono (by push_cast; rfl)

private theorem isWithin_quotient {n most : Nat} (fits : n < 2 ^ 53) (fits' : most < 2 ^ 53) (some : 0 < n)
    {shown : Float} (within : IsWithin (most * n) shown) : IsWithin most (shown / nearest n 1) := by
  obtain ⟨divisor,canonical,isNumber,same⟩ := exists_whole fits
  obtain ⟨bound,isBound,isMost,_⟩ := exists_whole fits'
  have positive : (0 : ℚ) < n := by exact_mod_cast some
  rw [same,← isMost]
  refine within.div canonical (mantissa_pos (isNumber ▸ positive)) isBound ?_
  rw [isNumber,isMost,mul_div_cancel_right₀ _ positive.ne']

private theorem pos_of_isUsable_nearest {n : Nat} (usable : isUsable (nearest n 1) = true) : 0 < n := by
  refine Nat.pos_of_ne_zero fun zero => ?_
  rw [zero] at usable
  exact absurd usable (by decide +kernel)

end Sizes

/-- The size of a picture: whole lengths of 32 bits. -/
def Size.IsPictured (size : Size) : Prop :=
  ∃ width height, width < 2 ^ 32 ∧ height < 2 ^ 32 ∧ size = ImageSource.size (width,height)

theorem Size.IsPictured.isFinite {size : Size} (pictured : size.IsPictured) :
    Decimal.IsFinite size.width ∧ Decimal.IsFinite size.height := by
  obtain ⟨width,height,fits,fits',rfl⟩ := pictured
  obtain ⟨magnitude,canonical,_,same⟩ := exists_whole (by omega : width < 2 ^ 53)
  obtain ⟨magnitude',canonical',_,same'⟩ := exists_whole (by omega : height < 2 ^ 53)
  unfold ImageSource.size
  dsimp only
  rw [same,same']
  exact ⟨⟨magnitude,kind_double canonical⟩,⟨magnitude',kind_double canonical'⟩⟩

def ScaleMode.most : ScaleMode → ℚ
  | .uniform => 1
  | .perAxis => 2

/-- The scale of a picture that is fitted in, or that is not shown at all. -/
theorem Ratio.isWithin_of_between {natural rendered : Size} {mode : ScaleMode} {ratio : Ratio}
    (pictured : natural.IsPictured) (between : Ratio.between rendered natural mode = .ok ratio)
    (shown : rendered = Size.zero ∨ ∃ available maxWidth, rendered = fittedSize natural available maxWidth) :
    IsWithin 1 ratio.x ∧ IsWithin mode.most ratio.y := by
  obtain ⟨width,height,fits,fits',rfl⟩ := pictured
  obtain ⟨usable,usable',x,y⟩ := Ratio.between_eq_ok.mp between
  have some : 0 < width := pos_of_isUsable_nearest usable
  obtain ⟨wide,high⟩ : IsWithin width rendered.width ∧ IsWithin (2 * height) rendered.height := by
    rcases shown with rfl | ⟨available,maxWidth,rfl⟩
    · exact ⟨.zero (Nat.cast_nonneg width),.zero (by positivity)⟩
    · have within := isWithin_fittedWidth fits available (widthCap maxWidth)
      exact ⟨within,isWithin_fittedHeight fits fits' some within⟩
  have one : IsWithin 1 (rendered.width / nearest width 1) := by
    have quotient := isWithin_quotient (by omega) (by norm_num : 1 < 2 ^ 53) some (by rwa [Nat.cast_one,one_mul])
    rwa [Nat.cast_one] at quotient
  cases mode with
  | uniform =>
    rw [if_neg (by decide)] at y
    rw [x,y]
    exact ⟨one,one⟩
  | perAxis =>
    rw [if_pos rfl] at y
    rw [x,y]
    exact ⟨one,isWithin_quotient (by omega) (by norm_num : 2 < 2 ^ 53) (pos_of_isUsable_nearest (usable' rfl)) high⟩

end PinnedMap
