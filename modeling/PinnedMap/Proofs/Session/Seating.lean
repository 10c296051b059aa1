import PinnedMap.Proofs.Session.Chronicle

/-! Where a session is while its chronicle goes on. The bus counts it while it listens, it is never ahead of the bus, and
its pins are on the page once its map is attached. -/
namespace PinnedMap

namespace Session

variable {session : Session} {scene : Scene} {next : Session × Scene} {now : Timestamp}

def ownListeners (session : Session) : Nat := if session.place.isSome then 1 else 0

/-- By what the session is at: whether it has a place on the bus, and that its pins are there once its map is attached. -/
def IsSeated (session : Session) (page : Page) : Prop :=
  match session.activity with
  | .loading | .loaded _ => session.place = none
  | .joining .. => session.place = none ∧ ∀ pin ∈ session.map.pins, (page.element? pin).isSome
  | .sending _ _ .listen | .listening | .resized =>
    session.place.isSome = true ∧ ∀ pin ∈ session.map.pins, (page.element? pin).isSome
  | .sending _ _ .stop | .leaving | .ended => True

theorem IsSeated.perform {page : Page} (seated : session.IsSeated page) (operation : Page.Operation) :
    session.IsSeated (page.perform operation) := by
  have known (found : ∀ pin ∈ session.map.pins, (page.element? pin).isSome) :
      ∀ pin ∈ session.map.pins, ((page.perform operation).element? pin).isSome :=
    fun pin member => Page.isSome_element?_perform (found pin member) operation
  unfold IsSeated at seated ⊢
  cases activity : session.activity with
  | sending event others sequel =>
    rw [activity] at seated
    cases sequel with
    | listen => exact ⟨seated.1,known seated.2⟩
    | stop => trivial
  | joining | listening | resized =>
    rw [activity] at seated
    exact ⟨seated.1,known seated.2⟩
  | loading | loaded =>
    rw [activity] at seated
    exact seated
  | leaving | ended => trivial

theorem IsSeated.apart {page : Page} {natural : Size} {update : Reposition} (seated : session.IsSeated page)
    (activity : session.activity = .joining natural update) : session.place = none := by
  unfold IsSeated at seated
  rw [activity] at seated
  exact seated.1

theorem Stepped.isSeated (stepped : Stepped now session scene next) (seated : session.IsSeated scene.page) :
    next.1.IsSeated next.2.page := by
  unfold IsSeated at seated
  cases stepped with
  | hears activity =>
    rw [activity] at seated
    exact seated
  | attaches activity outcome =>
    rw [activity] at seated
    exact ⟨seated,ImageMap.attachLoaded_known outcome⟩
  | joins activity =>
    rw [activity] at seated
    exact ⟨rfl,seated.2⟩
  | @tells event other others sequel activity =>
    rw [activity] at seated
    cases sequel with
    | listen =>
      unfold IsSeated
      dsimp only
      rw [noting_place,noting_map]
      exact seated
    | stop => trivial
  | listens activity =>
    rw [activity] at seated
    unfold IsSeated
    dsimp only
    rw [noting_place,noting_map]
    exact seated
  | lags activity | wakes activity =>
    rw [activity] at seated
    unfold IsSeated
    simp only [activity]
    exact ⟨rfl,seated.2⟩
  | repositions activity pass =>
    rw [activity] at seated
    obtain ⟨listening,known⟩ := seated
    have alike := ImageMap.reposition_looksAlike known
    rw [pass] at alike
    refine ⟨listening,fun pin member => ?_⟩
    rw [← alike.isSome_eq]
    exact known pin member
  | misses | refuses | ends | leaves => trivial

private theorem freed_listeners (session : Session) (bus : Bus) : (session.freed bus).listeners = bus.listeners := by
  unfold freed
  split_ifs <;> rfl

private theorem ownListeners_of_place {session other : Session} (same : session.place = other.place) :
    session.ownListeners = other.ownListeners := by
  unfold ownListeners
  rw [same]

/-- The session begins to listen once and stops once, and the bus counts it in between. -/
theorem Stepped.counted (stepped : Stepped now session scene next) {others : Nat}
    (counted : scene.bus.listeners = others + session.ownListeners)
    (apart : ∀ natural update, session.activity = .joining natural update → session.place = none) :
    next.2.bus.listeners = others + next.1.ownListeners := by
  cases stepped with
  | joins activity =>
    rw [ownListeners,apart _ _ activity] at counted
    exact (freed_listeners ..).trans (congrArg Nat.succ counted)
  | ends activity =>
    change (session.left scene.bus).listeners = others
    unfold left
    unfold ownListeners at counted
    split_ifs at counted ⊢
    · change (freed _ _).listeners - 1 = _
      rw [freed_listeners,counted]
      rfl
    · exact (freed_listeners ..).trans counted
  | refuses => exact (freed_listeners ..).trans counted
  | tells | listens => exact counted.trans (congrArg (others + ·) (ownListeners_of_place (noting_place ..).symm))
  | lags activity listening | wakes activity listening =>
    rw [ownListeners,listening] at counted
    exact counted
  | hears | misses | attaches | repositions | leaves => exact counted

theorem Stepped.trails (stepped : Stepped now session scene next) (sound : scene.bus.IsSound)
    (trails : ∀ own, session.place = some own → own ≤ scene.bus.sent) :
    ∀ own, next.1.place = some own → own ≤ next.2.bus.sent := by
  intro own at_
  rw [stepped.sameRing.sent]
  cases stepped with
  | joins => exact Nat.le_of_eq (Option.some.inj at_).symm
  | ends => cases at_
  | tells | listens => exact trails own ((noting_place ..).symm.trans at_)
  | lags activity listening received =>
    obtain ⟨_,rfl⟩ := Bus.receive_eq_lagged received
    obtain rfl := Option.some.inj at_
    exact Nat.sub_le ..
  | wakes activity listening received =>
    obtain ⟨_,behind,rfl⟩ := Bus.receive_eq_resized sound.kept_le received
    obtain rfl := Option.some.inj at_
    exact behind
  | hears | misses | refuses | attaches | repositions | leaves => exact trails own at_

end Session

namespace Chronicle

variable {chronicle later : Chronicle} {next : Session × Scene} {now : Timestamp} {ring : Nat}

theorem used_counted (counted : chronicle.scene.bus.listeners = chronicle.others + chronicle.session.ownListeners)
    {use : Bus.Use} (listened : use = .unsubscribe → chronicle.others ≠ 0) :
    (chronicle.scene.bus.use use).listeners = use.counted chronicle.others + chronicle.session.ownListeners := by
  cases use with
  | announce resize => exact (Bus.announce_listeners ..).trans counted
  | subscribe =>
    change chronicle.scene.bus.listeners + 1 = chronicle.others + 1 + _
    omega
  | unsubscribe =>
    have some := listened rfl
    change chronicle.scene.bus.listeners - 1 = chronicle.others - 1 + _
    omega
  | share | release => exact counted

/-- The bus counts its listeners and keeps as many resizes as its ring has slots for, and the session is where it
should be. -/
structure IsTuned (ring : Nat) (chronicle : Chronicle) : Prop where
  slots : chronicle.scene.bus.slots = ring
  filled : chronicle.scene.bus.IsFilled
  counted : chronicle.scene.bus.listeners = chronicle.others + chronicle.session.ownListeners
  seated : chronicle.session.IsSeated chronicle.scene.page
  trails : ∀ own, chronicle.session.place = some own → own ≤ chronicle.scene.bus.sent

theorem isTuned_start (map : ImageMap) (page : Page) (capacity : Nat) (uses : List Bus.Use) :
    (start map page capacity uses).IsTuned (Bus.ofCapacity capacity).slots :=
  ⟨Bus.useAll_slots _ uses,((Bus.isFilled_ofCapacity capacity).useAll uses).use .share,rfl,rfl,nofun⟩

theorem IsTuned.stepped (tuned : chronicle.IsTuned ring)
    (step : Session.Stepped now chronicle.session chronicle.scene next) : (chronicle.stepped next).IsTuned ring :=
  ⟨step.sameRing.slots.trans tuned.slots,step.sameRing.isFilled tuned.filled,
    step.counted tuned.counted fun _ _ => tuned.seated.apart,step.isSeated tuned.seated,
    step.trails tuned.filled.isSound tuned.trails⟩

theorem IsTuned.moved (tuned : chronicle.IsTuned ring) (moved : Moved chronicle later) : later.IsTuned ring := by
  obtain ⟨slots,filled,counted,seated,trails⟩ := tuned
  cases moved with
  | stepped step => exact IsTuned.stepped ⟨slots,filled,counted,seated,trails⟩ step
  | heeded => exact ⟨slots,filled,counted,trivial,trails⟩
  | changed operation => exact ⟨slots,filled,counted,seated.perform operation,trails⟩
  | @used use listened =>
    exact ⟨(Bus.use_slots ..).trans slots,filled.use use,used_counted counted listened,seated,
      fun own at_ => Nat.le_trans (trails own at_) (Bus.sent_le_use ..)⟩
  | idle | answered | read | ignored | disposed | locked => exact ⟨slots,filled,counted,seated,trails⟩

theorem IsTuned.after (tuned : chronicle.IsTuned ring) (move : Move) : (chronicle.after move).IsTuned ring :=
  tuned.moved (moved_after chronicle move)

end Chronicle
end PinnedMap
