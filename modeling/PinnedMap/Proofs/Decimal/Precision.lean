import PinnedMap.Proofs.Decimal.Positional

/-! How long shortest decimals are: of seventeen digits, or on the grid of `10^-324`, one of the two neighbours of a
double reads back. -/
namespace PinnedMap.Decimal

namespace Binary

variable {value : Binary}

private theorem number_eq_ratio (value : Binary) : value.number =
    (value.mantissa * Nat.pow 2 value.exponent.toNat : ℕ) / (Nat.pow 2 (-value.exponent).toNat : ℕ) := by
  rw [number,zpow_eq_div (by norm_num),mul_div_assoc']
  push_cast [Nat.pow_eq]
  rfl

private theorem digitCount_div {numerator denominator : Nat} (positive : 0 < denominator)
    (large : denominator ≤ numerator) : 0 < digitCount (numerator / denominator) ∧
      10 ^ (digitCount (numerator / denominator) - 1) * denominator ≤ numerator ∧
      numerator < 10 ^ digitCount (numerator / denominator) * denominator := by
  have some : numerator / denominator ≠ 0 := (Nat.div_pos large positive).ne'
  obtain ⟨low,high⟩ := digitCount_spec some
  exact ⟨digitCount_pos some,(Nat.le_div_iff_mul_le positive).mp low,(Nat.div_lt_iff_lt_mul positive).mp high⟩

private theorem scale_spec (some : 0 < value.mantissa) :
    10 ^ (value.scale - 1) ≤ value.number ∧ value.number < 10 ^ value.scale := by
  rw [number_eq_ratio]
  unfold scale
  have numeratorPos : 0 < value.mantissa * Nat.pow 2 value.exponent.toNat := Nat.mul_pos some (Nat.pow_pos (by simp))
  have denominatorPos : 0 < Nat.pow 2 (-value.exponent).toNat := Nat.pow_pos (by simp)
  generalize value.mantissa * Nat.pow 2 value.exponent.toNat = numerator at *
  generalize Nat.pow 2 (-value.exponent).toNat = denominator at *
  have numeratorPos' : (0 : ℚ) < numerator := by exact_mod_cast numeratorPos
  have denominatorPos' : (0 : ℚ) < denominator := by exact_mod_cast denominatorPos
  dsimp only
  split_ifs with large
  · obtain ⟨positive,low,high⟩ := digitCount_div denominatorPos large
    generalize digitCount (numerator / denominator) = count at *
    have less : (count : ℤ) - 1 = (count - 1 : ℕ) := by omega
    rw [less,zpow_natCast,zpow_natCast,le_div_iff₀ denominatorPos',div_lt_iff₀ denominatorPos']
    exact ⟨by exact_mod_cast low,by exact_mod_cast high⟩
  · obtain ⟨positive,low,high⟩ := digitCount_div numeratorPos (show numerator ≤ denominator - 1 by omega)
    generalize digitCount ((denominator - 1) / numerator) = count at *
    have below : numerator * 10 ^ (count - 1) < denominator := by
      rw [Nat.mul_comm]
      omega
    have above : denominator ≤ numerator * 10 ^ count := by
      rw [Nat.mul_comm]
      omega
    have least : 1 - (count : ℤ) - 1 = -(count : ℤ) := by omega
    have most : 1 - (count : ℤ) = -((count - 1 : ℕ) : ℤ) := by omega
    rw [least,most,zpow_neg,zpow_neg,zpow_natCast,zpow_natCast,inv_eq_one_div,inv_eq_one_div,
      div_le_div_iff₀ (by positivity) denominatorPos',div_lt_div_iff₀ denominatorPos' (by positivity),one_mul]
    exact ⟨by exact_mod_cast above,by exact_mod_cast below⟩

private theorem floorAt_spec (value : Binary) (exponent : ℤ) :
    value.floorAt exponent * 10 ^ exponent ≤ value.number ∧
      value.number < (value.floorAt exponent + 1) * 10 ^ exponent := by
  have tens : (0 : ℚ) < 10 ^ exponent := by positivity
  have divides : 0 < Nat.pow 2 (-value.exponent).toNat * Nat.pow 10 exponent.toNat :=
    Nat.mul_pos (Nat.pow_pos (by simp)) (Nat.pow_pos (by simp))
  have divides' : (0 : ℚ) < (Nat.pow 2 (-value.exponent).toNat * Nat.pow 10 exponent.toNat : ℕ) := by
    exact_mod_cast divides
  have ratio : value.number / 10 ^ exponent =
      (value.mantissa * Nat.pow 2 value.exponent.toNat * Nat.pow 10 (-exponent).toNat : ℕ) /
        (Nat.pow 2 (-value.exponent).toNat * Nat.pow 10 exponent.toNat : ℕ) := by
    rw [number_eq_ratio,zpow_eq_div (by norm_num) exponent]
    push_cast [Nat.pow_eq]
    field_simp
  unfold floorAt
  rw [← le_div_iff₀ tens,← div_lt_iff₀ tens,ratio,le_div_iff₀ divides',div_lt_iff₀ divides']
  constructor
  · exact_mod_cast Nat.div_mul_le_self _ _
  · exact_mod_cast Nat.lt_mul_of_div_lt (Nat.lt_succ_self _) divides

private theorem of_neighbour_eq_none {tie : Tie} {exponent : ℤ} (miss : value.neighbour tie exponent = none) :
    value.readsBack ⟨value.floorAt exponent,exponent⟩ = false ∧
      value.readsBack ⟨value.floorAt exponent + 1,exponent⟩ = false := by
  unfold neighbour at miss
  dsimp only at miss
  split at miss
  next => cases miss
  next => cases miss
  next lower upper => exact ⟨lower,upper⟩
  next =>
    split at miss
    · cases miss
    · cases miss
    · split_ifs at miss

private theorem exists_neighbour (some : 0 < value.mantissa) (tie : Tie) {exponent : ℤ}
    (fine : 10 ^ exponent < (if value.narrowBelow then 1 / 2 else 1) * (2 : ℚ) ^ value.exponent) :
    ∃ decimal, value.neighbour tie exponent = Option.some decimal := by
  obtain ⟨below,above⟩ := value.floorAt_spec exponent
  have unit := two_zpow_pos value.exponent
  have lowIs : value.low = value.number - (if value.narrowBelow then 1 / 4 else 1 / 2) * 2 ^ value.exponent :=
    sub_mul _ _ _
  have highIs : value.high = value.number + 1 / 2 * 2 ^ value.exponent := add_mul _ _ _
  cases found : value.neighbour tie exponent with
  | some decimal => exact ⟨decimal,rfl⟩
  | none =>
    obtain ⟨missLower,missUpper⟩ := of_neighbour_eq_none found
    have lower := (readsBack_iff some ⟨value.floorAt exponent,exponent⟩).not.mp (by simp [missLower])
    have upper := (readsBack_iff some ⟨value.floorAt exponent + 1,exponent⟩).not.mp (by simp [missUpper])
    simp only [Digits.number] at lower upper
    push_cast at upper
    rcases le_total (value.number - value.floorAt exponent * 10 ^ exponent) (10 ^ exponent / 2) with near | far
    · refine absurd ⟨.inl ?_,.inl ?_⟩ lower
      · rw [lowIs]
        split_ifs at fine ⊢ <;> linarith
      · rw [highIs]
        linarith
    · refine absurd ⟨.inl ?_,.inl ?_⟩ upper
      · rw [lowIs]
        split_ifs at fine ⊢ <;> linarith
      · rw [highIs]
        split_ifs at fine <;> linarith

private theorem ten_zpow_lt_least : (10 : ℚ) ^ (-324 : ℤ) < 2 ^ (-1074 : ℤ) := by
  have powers : 2 ^ 1074 < 10 ^ 324 := by decide +kernel
  rw [zpow_neg,zpow_neg]
  exact inv_strictAnti₀ (by positivity) (by exact_mod_cast powers)

private theorem fine_max (canonical : value.IsCanonical) (some : 0 < value.mantissa) :
    10 ^ max (value.scale - 17) (-324) < (if value.narrowBelow then 1 / 2 else 1) * (2 : ℚ) ^ value.exponent := by
  have unit := two_zpow_pos value.exponent
  rcases le_total (value.scale - 17) (-324) with finest | coarser
  · rw [max_eq_right finest]
    refine ten_zpow_lt_least.trans_le ?_
    split_ifs with narrow
    · have above := (canonical.narrow_iff.mp narrow).2
      have half : (2 : ℚ) ^ value.exponent = 2 * 2 ^ (value.exponent - 1) := by
        rw [← two_zpow_succ,sub_add_cancel]
      calc (2 : ℚ) ^ (-1074 : ℤ) ≤ 2 ^ (value.exponent - 1) := two_zpow_le_iff.mpr (by omega)
        _ = 1 / 2 * 2 ^ value.exponent := by
          rw [half]
          ring
    · rw [one_mul]
      exact two_zpow_le_iff.mpr canonical.exponent_ge
  · rw [max_eq_left coarser]
    have low := (scale_spec some).1
    have parts : (10 : ℚ) ^ (value.scale - 1) = 10 ^ (value.scale - 17) * 10 ^ 16 := by
      rw [← zpow_natCast,← zpow_add₀ (by norm_num)]
      congr 1
      omega
    rw [parts,number] at low
    split_ifs with narrow
    · rw [(canonical.narrow_iff.mp narrow).1] at low
      push_cast at low
      linarith
    · have fits : (value.mantissa : ℚ) * 2 ^ value.exponent ≤ 2 ^ 53 * 2 ^ value.exponent := by
        have := canonical.mantissa_lt.le
        gcongr
        exact_mod_cast this
      linarith

private theorem scale_ge (canonical : value.IsCanonical) (some : 0 < value.mantissa) : -323 ≤ value.scale := by
  have one : (1 : ℚ) ≤ value.mantissa := by exact_mod_cast some
  have least := two_zpow_le_iff.mpr canonical.exponent_ge
  have large : (10 : ℚ) ^ (-324 : ℤ) < 10 ^ value.scale := by
    calc (10 : ℚ) ^ (-324 : ℤ) < 2 ^ (-1074 : ℤ) := ten_zpow_lt_least
      _ ≤ 2 ^ value.exponent := least
      _ ≤ value.number := le_mul_of_one_le_left (two_zpow_pos _).le one
      _ < 10 ^ value.scale := (scale_spec some).2
  have := (zpow_lt_zpow_iff_right₀ (by norm_num : (1 : ℚ) < 10)).mp large
  omega

private theorem floorAt_lt {count : Nat} (some : 0 < value.mantissa) :
    value.floorAt (value.scale - count) < 10 ^ count := by
  have below := (floorAt_spec value (value.scale - count)).1.trans_lt (scale_spec some).2
  have parts : (10 : ℚ) ^ value.scale = 10 ^ count * 10 ^ (value.scale - count) := by
    rw [← zpow_natCast,← zpow_add₀ (by norm_num)]
    congr 1
    omega
  rw [parts] at below
  exact_mod_cast lt_of_mul_lt_mul_right below (by positivity)

private theorem findSome?_range {α : Type} {f : Nat → Option α} {bound least : Nat} {hit : α}
    (hits : f least = some hit) (within : least < bound) :
    ∃ first ≤ least, ∃ found, (List.range bound).findSome? f = some found ∧ f first = some found := by
  induction bound with
  | zero => contradiction
  | succ bound ih =>
    rw [List.range_succ,List.findSome?_append]
    by_cases earlier : least < bound
    · obtain ⟨first,le,found,isFound,firstHits⟩ := ih earlier
      exact ⟨first,le,found,by rw [isFound,Option.some_or],firstHits⟩
    · have last : least = bound := by omega
      cases isFound : (List.range bound).findSome? f with
      | some found =>
        obtain ⟨first,listed,firstHits⟩ := List.exists_of_findSome?_eq_some isFound
        have := List.mem_range.mp listed
        exact ⟨first,by omega,found,rfl,firstHits⟩
      | none => exact ⟨least,le_rfl,hit,by simp [← last,hits],hits⟩

end Binary

private theorem stripZeros_spec {digits : Nat} (nonzero : digits ≠ 0) (exponent : ℤ) :
    (stripZeros digits exponent).digits ≤ digits ∧ exponent ≤ (stripZeros digits exponent).exponent := by
  fun_induction stripZeros digits exponent with
  | case1 exponent => contradiction
  | case2 digits exponent _ round ih =>
    obtain ⟨less,more⟩ := ih (by omega)
    omega
  | case3 digits exponent => exact ⟨le_rfl,le_rfl⟩

namespace Binary

/-- Seventeen digits tell any double, and no double needs digits beyond `10^-324`. -/
theorem shortest_spec {value : Binary} (canonical : value.IsCanonical) (some : 0 < value.mantissa) (tie : Tie) :
    (value.shortest tie).digits ≤ 10 ^ 17 ∧ -324 ≤ (value.shortest tie).exponent := by
  have range := scale_ge canonical some
  obtain ⟨count,isCount⟩ : ∃ count : Nat, (count : ℤ) = value.scale - max (value.scale - 17) (-324) - 1 :=
    ⟨(value.scale - max (value.scale - 17) (-324) - 1).toNat,by omega⟩
  have grid : value.scale - ((count : ℤ) + 1) = max (value.scale - 17) (-324) := by omega
  obtain ⟨tries,isTries⟩ : ∃ tries : Nat → Option Digits,
    tries = fun count : Nat => value.neighbour tie (value.scale - (count + 1)) := ⟨_,rfl⟩
  obtain ⟨hit,hits⟩ : ∃ hit, tries count = Option.some hit := by
    rw [isTries]
    dsimp only
    rw [grid]
    exact exists_neighbour some tie (fine_max canonical some)
  have within : count < 17 := by omega
  obtain ⟨first,le,found,isFound,firstHits⟩ := findSome?_range hits within
  rw [isTries] at firstHits isFound
  obtain ⟨reads,isNeighbour⟩ := of_neighbour firstHits
  have atScale : value.scale - ((first : ℤ) + 1) = value.scale - (first + 1 : ℕ) := by omega
  have exponent : found.exponent = value.scale - (first + 1 : ℕ) := by
    rcases isNeighbour with rfl | rfl <;> exact atScale
  have digits : found.digits ≤ 10 ^ 17 := by
    have below : value.floorAt (value.scale - (first + 1 : ℕ)) < 10 ^ (first + 1) := floorAt_lt some
    have short : 10 ^ (first + 1) ≤ 10 ^ 17 := Nat.pow_le_pow_right (by simp) (by omega)
    rw [← atScale] at below
    rcases isNeighbour with rfl | rfl
    · exact (below.trans_le short).le
    · exact Nat.succ_le_of_lt (below.trans_le short)
  have nonzero := digits_ne_zero_of_covers canonical some ((readsBack_iff some found).mp reads)
  obtain ⟨fewer,coarser⟩ := stripZeros_spec nonzero found.exponent
  unfold shortest
  rw [isFound]
  exact ⟨fewer.trans digits,show -324 ≤ (stripZeros found.digits found.exponent).exponent by omega⟩

end Binary
end PinnedMap.Decimal
