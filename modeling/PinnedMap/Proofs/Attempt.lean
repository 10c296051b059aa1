import Mathlib.Tactic.Common

/-! What it takes for steps that can fail to succeed one after the other. -/
namespace PinnedMap.Attempt

variable {ε α β : Type}

theorem bind_eq_ok {first : Except ε α} {rest : α → Except ε β} {result : β} :
    (first >>= rest) = .ok result ↔ ∃ value, first = .ok value ∧ rest value = .ok result := by
  cases first with
  | error fault => simp [bind,Except.bind]
  | ok value => simp [bind,Except.bind]

theorem map_eq_ok {found : Except ε α} {change : α → β} {result : β} :
    found.map change = .ok result ↔ ∃ value, found = .ok value ∧ change value = result := by
  cases found <;> simp [Except.map]

theorem mapError_eq_ok {found : Except ε α} {change : ε → β} {result : α} :
    found.mapError change = .ok result ↔ found = .ok result := by
  cases found <;> simp [Except.mapError]

theorem mapM_eq_ok {found : Option α} {step : α → Except ε β} {result : Option β} :
    found.mapM step = .ok result ↔ Option.Rel (fun value changed => step value = .ok changed) found result := by
  cases found with
  | none => cases result <;> simp [pure,Except.pure]
  | some value =>
    rw [Option.mapM_some]
    cases changed : step value <;> cases result <;> simp [changed,Functor.map,Except.map]

theorem unless_eq_ok {refused : Prop} [Decidable refused] {fault : ε} {rest : PUnit → Except ε α} {result : α} :
    (if refused then throw fault >>= rest else rest ()) = .ok result ↔ ¬ refused ∧ rest () = .ok result := by
  split_ifs with wrong
  · exact iff_of_false nofun fun both => both.1 wrong
  · exact (and_iff_right wrong).symm

variable {step : α → Except ε β} {values before after : List α} {results : List β}

end PinnedMap.Attempt
