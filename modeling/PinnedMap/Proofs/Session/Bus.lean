import Mathlib.Algebra.Group.Nat.Defs
import Mathlib.Order.Bounds.Defs
import Mathlib.Tactic.Common
import PinnedMap.Session.Bus

/-! What a listener can rely on: as long as it is behind, it finds a resize or is told of a lag, and a lag
never takes it past the last resize. -/
namespace PinnedMap.Bus

variable {bus : Bus} {place : Nat}

inductive Use where
  | announce (resize : Resize)
  | subscribe
  | unsubscribe
  | share
  | release
deriving Repr, DecidableEq

def use (bus : Bus) : Use → Bus
  | .announce resize => bus.announce resize
  | .subscribe => bus.subscribe.2
  | .unsubscribe => bus.unsubscribe
  | .share => bus.share
  | .release => bus.release

def Use.isAnnouncement : Use → Bool
  | .announce _ => true
  | _ => false

/-- A ring that has room, and is empty only before the first announcement. -/
structure IsSound (bus : Bus) : Prop where
  roomy : 0 < bus.slots
  kept_le : bus.kept.length ≤ bus.sent
  kept_pos : 0 < bus.sent → 0 < bus.kept.length

theorem isSound_ofCapacity (capacity : Nat) : (ofCapacity capacity).IsSound :=
  ⟨Nat.pos_of_isPowerOfTwo (Nat.isPowerOfTwo_nextPowerOfTwo _),by simp [ofCapacity],by simp [ofCapacity]⟩

theorem announce_sent (resize : Resize) (listened : 0 < bus.listeners) :
    (bus.announce resize).sent = bus.sent + 1 := by
  unfold announce
  rw [if_neg (by omega)]

theorem announce_listeners (bus : Bus) (resize : Resize) :
    (bus.announce resize).listeners = bus.listeners := by
  unfold announce
  split_ifs <;> rfl

theorem sent_use_announcement {use : Use} (announcing : use.isAnnouncement = true) (listened : 0 < bus.listeners) :
    (bus.use use).sent = bus.sent + 1 := by
  cases use with
  | announce resize => exact announce_sent resize listened
  | subscribe | unsubscribe | share | release => cases announcing

private theorem sent_le_announce (bus : Bus) (resize : Resize) : bus.sent ≤ (bus.announce resize).sent := by
  unfold announce
  split_ifs
  · exact Nat.le_refl _
  · exact Nat.le_succ _

theorem IsSound.announce (sound : bus.IsSound) (resize : Resize) : (bus.announce resize).IsSound := by
  have roomy := sound.roomy
  have kept := sound.kept_le
  unfold Bus.announce
  split_ifs
  · exact sound
  · refine ⟨roomy,?_,fun _ => ?_⟩ <;> simp only [List.length_drop,List.length_append,List.length_singleton] <;> omega

theorem IsSound.use (sound : bus.IsSound) (use : Use) : (bus.use use).IsSound := by
  cases use with
  | announce resize => exact sound.announce resize
  | subscribe | unsubscribe | share | release => exact ⟨sound.roomy,sound.kept_le,sound.kept_pos⟩

theorem receive_of_lost (lost : place < bus.oldest) :
    bus.receive place = (.lagged (bus.oldest - place),bus.oldest) :=
  if_pos lost

theorem receive_of_kept (kept : bus.oldest ≤ place) (behind : place < bus.sent) :
    ∃ resize, bus.receive place = (.resized resize,place + 1) := by
  have inside : place - bus.oldest < bus.kept.length := by
    unfold oldest at kept ⊢
    omega
  refine ⟨bus.kept[place - bus.oldest],?_⟩
  rw [receive,if_neg (Nat.not_lt.mpr kept),List.getElem?_eq_getElem inside]

theorem oldest_lt_sent (sound : bus.IsSound) (behind : place < bus.sent) : bus.oldest < bus.sent := by
  have some := sound.kept_pos (by omega)
  unfold oldest
  omega

theorem receive_of_done (kept_le : bus.kept.length ≤ bus.sent) (done : bus.sent ≤ place) :
    (bus.receive place).1 = .empty ∨ (bus.receive place).1 = .closed := by
  have nothing : bus.kept[place - bus.oldest]? = none := by
    rw [List.getElem?_eq_none_iff]
    unfold oldest
    omega
  unfold receive
  rw [if_neg (by unfold oldest; omega),nothing]
  by_cases closed : bus.handles = 0 <;> simp [closed]

theorem receive_eq_lagged {missed later : Nat} (received : bus.receive place = (.lagged missed,later)) :
    place < bus.oldest ∧ later = bus.oldest := by
  rcases Nat.lt_or_ge place bus.oldest with lost | kept
  · exact ⟨lost,congrArg Prod.snd (received.symm.trans (receive_of_lost lost))⟩
  · rw [receive,if_neg (Nat.not_lt.mpr kept)] at received
    split at received
    · cases received
    · split_ifs at received <;> cases received

theorem receive_eq_resized (kept_le : bus.kept.length ≤ bus.sent) {resize : Resize} {later : Nat}
    (received : bus.receive place = (.resized resize,later)) :
    bus.oldest ≤ place ∧ place < bus.sent ∧ later = place + 1 := by
  rcases Nat.lt_or_ge place bus.oldest with lost | kept
  · cases received.symm.trans (receive_of_lost lost)
  · rcases Nat.lt_or_ge place bus.sent with behind | done
    · obtain ⟨_,found⟩ := receive_of_kept kept behind
      exact ⟨kept,behind,congrArg Prod.snd (received.symm.trans found)⟩
    · rcases receive_of_done kept_le done with nothing | nothing <;> cases (congrArg Prod.fst received).symm.trans nothing

open private Nat.nextPowerOfTwo.go from Init.Data.Nat.Power2.Basic

private theorem doubling_spec {count power : Nat} (positive : 0 < power) (doublings : Nat)
    (enough : count ≤ power * 2 ^ doublings) :
    count ≤ Nat.nextPowerOfTwo.go count power positive ∧
      Nat.nextPowerOfTwo.go count power positive ≤ power * 2 ^ doublings := by
  induction doublings generalizing power with
  | zero =>
    rw [Nat.pow_zero,Nat.mul_one] at enough ⊢
    rw [Nat.nextPowerOfTwo.go,if_neg (Nat.not_lt.mpr enough)]
    exact ⟨enough,Nat.le_refl _⟩
  | succ doublings ih =>
    have double : power * 2 ^ (doublings + 1) = power * 2 * 2 ^ doublings := by
      rw [Nat.pow_succ',Nat.mul_assoc]
    rw [double] at enough ⊢
    rw [Nat.nextPowerOfTwo.go]
    split_ifs with small
    · exact ih _ enough
    · refine ⟨Nat.le_of_not_lt small,?_⟩
      rw [← double]
      exact Nat.le_mul_of_pos_right power (Nat.two_pow_pos _)

/-- The ring has the least power of two of slots that the capacity leaves. -/
theorem isLeast_slots (capacity : Nat) :
    IsLeast {power : Nat | power.isPowerOfTwo ∧ max capacity 1 ≤ power} (ofCapacity capacity).slots := by
  have spec (doublings : Nat) (enough : max capacity 1 ≤ 2 ^ doublings) :=
    @doubling_spec (max capacity 1) 1 Nat.one_pos doublings (by rwa [Nat.one_mul])
  refine ⟨⟨Nat.isPowerOfTwo_nextPowerOfTwo _,?_⟩,?_⟩
  · exact (spec (max capacity 1) (Nat.le_of_lt Nat.lt_two_pow_self)).1
  · rintro _ ⟨⟨doublings,rfl⟩,enough⟩
    have least := (spec doublings enough).2
    rwa [Nat.one_mul] at least

theorem slots_of_between {capacity doublings : Nat} (above : 2 ^ doublings < max capacity 1)
    (enough : max capacity 1 ≤ 2 ^ (doublings + 1)) : (ofCapacity capacity).slots = 2 ^ (doublings + 1) := by
  obtain ⟨⟨⟨power,slots⟩,roomy⟩,least⟩ := isLeast_slots capacity
  refine Nat.le_antisymm (least ⟨⟨_,rfl⟩,enough⟩) ?_
  rw [slots] at roomy ⊢
  have grown : doublings < power := (Nat.pow_lt_pow_iff_right Nat.one_lt_two).mp (Nat.lt_of_lt_of_le above roomy)
  exact Nat.pow_le_pow_right Nat.two_pos grown

/-- A ring that keeps as many of the resizes as it has slots for. -/
structure IsFilled (bus : Bus) : Prop where
  roomy : 0 < bus.slots
  kept_eq : bus.kept.length = min bus.sent bus.slots

theorem IsFilled.isSound (filled : bus.IsFilled) : bus.IsSound := by
  have roomy := filled.roomy
  have kept := filled.kept_eq
  refine ⟨roomy,?_,fun _ => ?_⟩ <;> omega

theorem isFilled_ofCapacity (capacity : Nat) : (ofCapacity capacity).IsFilled :=
  ⟨(isSound_ofCapacity capacity).roomy,(Nat.zero_min _).symm⟩

theorem IsFilled.use (filled : bus.IsFilled) (use : Use) : (bus.use use).IsFilled := by
  have roomy := filled.roomy
  have kept := filled.kept_eq
  cases use with
  | announce resize =>
    change (bus.announce resize).IsFilled
    unfold announce
    split_ifs
    · exact filled
    · refine ⟨roomy,?_⟩
      simp only [List.length_drop,List.length_append,List.length_singleton]
      omega
  | subscribe | unsubscribe | share | release => exact ⟨roomy,kept⟩

theorem use_slots (bus : Bus) (use : Use) : (bus.use use).slots = bus.slots := by
  cases use with
  | announce resize =>
    change (bus.announce resize).slots = _
    unfold announce
    split_ifs <;> rfl
  | subscribe | unsubscribe | share | release => rfl

theorem useAll_slots (bus : Bus) (uses : List Use) : (uses.foldl Bus.use bus).slots = bus.slots := by
  induction uses generalizing bus with
  | nil => rfl
  | cons use uses ih => exact (ih _).trans (use_slots bus use)

theorem IsFilled.useAll (filled : bus.IsFilled) (uses : List Use) : (uses.foldl Bus.use bus).IsFilled := by
  induction uses generalizing bus with
  | nil => exact filled
  | cons use uses ih => exact ih (filled.use use)

theorem sent_le_use (bus : Bus) (use : Use) : bus.sent ≤ (bus.use use).sent := by
  cases use with
  | announce resize => exact bus.sent_le_announce resize
  | subscribe | unsubscribe | share | release => exact Nat.le_refl _

/-- How many resizes a listener at a place still finds: those that it is behind by, as far as the ring keeps them. -/
def due (bus : Bus) (place : Nat) : Nat := min (bus.sent - place) bus.slots

theorem IsFilled.due_oldest (filled : bus.IsFilled) (lost : place < bus.oldest) :
    bus.due bus.oldest = bus.due place := by
  have kept := filled.kept_eq
  unfold due
  unfold oldest at lost ⊢
  omega

theorem IsFilled.due_succ (filled : bus.IsFilled) (kept : bus.oldest ≤ place) (behind : place < bus.sent) :
    bus.due (place + 1) + 1 = bus.due place := by
  have length := filled.kept_eq
  unfold due
  unfold oldest at kept
  omega

theorem due_of_done (done : bus.sent ≤ place) : bus.due place = 0 := by
  unfold due
  omega

def effort (bus : Bus) (place : Nat) : Nat := 3 * bus.due place + if place < bus.oldest then 1 else 0

theorem IsFilled.effort_oldest (filled : bus.IsFilled) (lost : place < bus.oldest) :
    bus.effort bus.oldest + 1 = bus.effort place := by
  rw [effort,effort,filled.due_oldest lost,if_pos lost,if_neg (Nat.lt_irrefl _)]

theorem IsFilled.effort_succ (filled : bus.IsFilled) (kept : bus.oldest ≤ place) (behind : place < bus.sent) :
    bus.effort (place + 1) + 3 = bus.effort place := by
  have due := filled.due_succ kept behind
  rw [effort,effort,if_neg (by omega),if_neg (by omega)]
  omega

theorem IsFilled.effort_eq_zero (filled : bus.IsFilled) : bus.effort place = 0 ↔ bus.sent ≤ place := by
  have roomy := filled.roomy
  refine ⟨fun none => ?_,fun done => ?_⟩
  · have nothing : bus.due place = 0 := by
      unfold effort at none
      omega
    unfold due at nothing
    omega
  · rw [effort,due_of_done done,if_neg]
    unfold oldest
    omega

structure SameRing (bus other : Bus) : Prop where
  slots : other.slots = bus.slots
  sent : other.sent = bus.sent
  kept : other.kept = bus.kept

theorem use_sameRing (bus : Bus) {use : Use} (quiet : use.isAnnouncement = false) : bus.SameRing (bus.use use) := by
  cases use with
  | announce resize => cases quiet
  | subscribe | unsubscribe | share | release => exact ⟨rfl,rfl,rfl⟩

section Same
variable {other : Bus} (same : bus.SameRing other)
include same

theorem SameRing.isFilled (filled : bus.IsFilled) : other.IsFilled := by
  refine ⟨same.slots ▸ filled.roomy,?_⟩
  rw [same.kept,same.sent,same.slots]
  exact filled.kept_eq

theorem SameRing.due_eq (place : Nat) : other.due place = bus.due place := by
  rw [due,due,same.sent,same.slots]

theorem SameRing.effort_eq (place : Nat) : other.effort place = bus.effort place := by
  rw [effort,effort,same.due_eq,oldest,oldest,same.sent,same.kept]

end Same
end PinnedMap.Bus
