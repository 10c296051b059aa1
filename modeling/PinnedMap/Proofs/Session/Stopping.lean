import PinnedMap.Proofs.Session.Stepping

/-! What a session does that was told to stop. It waits for no reader, and takes notice where it waits for anything
else; so a turn is open to it wherever it is, and each turn brings it closer to its end. -/
namespace PinnedMap.Session

variable {session : Session} {scene : Scene} {next : Session × Scene} {now : Timestamp}

def isStopping (session : Session) : Bool :=
  match session.activity with
  | .leaving | .sending _ _ .stop | .ended => true
  | _ => false

def stepsLeft (session : Session) : Nat :=
  match session.activity with
  | .loading => 8
  | .loaded _ => 7
  | .joining .. => 6
  | .resized => 5
  | .listening => 3
  | .leaving => 2
  | .sending _ others .listen => others.length + 4
  | .sending _ others .stop => others.length + 1
  | .ended => 0

/-- The session was told to stop, and waits for no reader. -/
structure IsReleased (session : Session) : Prop where
  unread : session.isRead = false
  told : session.isCancelled = true ∨ session.isStopping = true

theorem isEnded_iff (session : Session) : session.isEnded = true ↔ session.activity = .ended := by
  simp [isEnded]

theorem Stepped.isStopping_of (stepped : Stepped now session scene next) (stopping : session.isStopping = true) :
    next.1.isStopping = true := by
  cases stepped with
  | @tells event other others sequel activity =>
    rw [isStopping,activity] at stopping
    cases sequel with
    | listen => cases stopping
    | stop => rfl
  | misses | refuses | ends | leaves => rfl
  | hears activity | attaches activity | joins activity | listens activity | lags activity | wakes activity
  | repositions activity =>
    rw [isStopping,activity] at stopping
    cases stopping

theorem Stepped.isReleased (stepped : Stepped now session scene next) (released : session.IsReleased) :
    next.1.IsReleased := by
  refine ⟨stepped.events_eq.1.trans released.unread,released.told.imp (fun cancelled => ?_) stepped.isStopping_of⟩
  rw [stepped.isCancelled_eq]
  exact cancelled

theorem Stepped.stepsLeft_lt (stepped : Stepped now session scene next) (awake : session.activity ≠ .listening) :
    next.1.stepsLeft < session.stepsLeft := by
  cases stepped with
  | @tells event other others sequel activity => cases sequel <;> simp [stepsLeft,activity]
  | lags activity | wakes activity => exact absurd activity awake
  | hears activity | misses activity | refuses activity | attaches activity | joins activity | listens activity
  | ends activity | repositions activity | leaves activity => simp [stepsLeft,fail,activity]

theorem IsReleased.of_leaving (released : session.IsReleased) :
    IsReleased { session with activity := .leaving, isCancelled := false } :=
  ⟨released.unread,.inr rfl⟩

/-- A turn is open to a session that was told to stop, and brings it closer to its end. -/
theorem IsReleased.turn (released : session.IsReleased) (running : session.activity ≠ .ended) (now : Timestamp)
    (scene : Scene) :
    (∃ next, session.cancel? = some next ∧ next.IsReleased ∧ next.stepsLeft < session.stepsLeft) ∨
      session.cancel? = none ∧ ∃ next, session.step? now scene = some next ∧ next.1.IsReleased ∧
        next.1.stepsLeft < session.stepsLeft := by
  have waits (waiting : session.activity = .loading ∨ session.activity = .listening) :
      session.cancel? = some { session with activity := .leaving, isCancelled := false } := by
    have cancelled := released.told.resolve_right (by rcases waiting with at_ | at_ <;> simp [isStopping,at_])
    unfold cancel?
    rw [if_pos cancelled]
    rcases waiting with at_ | at_ <;> rw [at_]
  have steps (awake : session.activity ≠ .loading ∧ session.activity ≠ .listening)
      (free : (session.step? now scene).isSome = true) :
      session.cancel? = none ∧ ∃ next, session.step? now scene = some next ∧ next.1.IsReleased ∧
        next.1.stepsLeft < session.stepsLeft := by
    obtain ⟨next,step⟩ := Option.isSome_iff_exists.mp free
    have stepped := stepped_of_step? step
    refine ⟨?_,next,step,stepped.isReleased released,stepped.stepsLeft_lt awake.2⟩
    unfold cancel?
    split_ifs
    · split
      · exact absurd ‹_› awake.1
      · exact absurd ‹_› awake.2
      · rfl
    · rfl
  -- Waiting for the image and for a resize is broken off; everything else goes on by a step.
  cases activity : session.activity with
  | loading | listening =>
    refine .inl ⟨_,waits (by simp [activity]),released.of_leaving,?_⟩
    simp [stepsLeft,activity]
  | sending event others sequel =>
    refine .inr (steps (by simp [activity]) ?_)
    rw [step?,activity]
    dsimp only
    rw [send_eq,if_neg (by simp [released.unread])]
    rfl
  | loaded | joining | resized | leaving => exact .inr (steps (by simp [activity]) (by simp [step?,activity]))
  | ended => exact absurd activity running

private theorem run_of_ended (ended : session.activity = .ended) (now : Timestamp) (steps : Nat) (scene : Scene) :
    session.run now steps scene = (session,scene) := by
  cases steps with
  | zero => rfl
  | succ steps => simp [run,cancel?,step?,ended]

private theorem fault_of_cancel {heeding : Session} (told : session.cancel? = some heeding) :
    heeding.fault = session.fault := by
  unfold cancel? at told
  split_ifs at told
  split at told
  · obtain rfl := Option.some.inj told
    rfl
  · obtain rfl := Option.some.inj told
    rfl
  · cases told

/-- Left to itself, a session that was told to stop ends. -/
theorem IsReleased.run (released : session.IsReleased) {steps : Nat} (enough : session.stepsLeft ≤ steps)
    (now : Timestamp) (scene : Scene) : (session.run now steps scene).1.activity = .ended := by
  induction steps generalizing session scene with
  | zero =>
    by_contra running
    rcases released.turn running now scene with ⟨_,_,_,less⟩ | ⟨_,_,_,_,less⟩ <;> omega
  | succ steps ih =>
    by_cases ended : session.activity = .ended
    · rw [run_of_ended ended]
      exact ended
    · rcases released.turn ended now scene with ⟨next,heeds,still,less⟩ | ⟨busy,next,step,still,less⟩
      · rw [Session.run,heeds]
        exact ih still (by omega) scene
      · rw [Session.run,busy,step]
        exact ih still (by omega) next.2

theorem fault_run (now : Timestamp) (steps : Nat) (session : Session) (scene : Scene) :
    (session.run now steps scene).1.fault = session.fault := by
  induction steps generalizing session scene with
  | zero => rfl
  | succ steps ih =>
    rw [Session.run]
    split
    · rw [ih,fault_of_cancel ‹_›]
    · split
      · rename_i step
        exact (ih _ _).trans (stepped_of_step? step).fault_eq
      · rfl

private theorem isReleased_dispose (session : Session) : session.dispose.IsReleased := ⟨rfl,.inl rfl⟩

/-- A session that is told to stop ends and gives back its map. -/
theorem settle_dispose (unbroken : session.fault = none) (near : session.stepsLeft ≤ 12) (now : Timestamp)
    (scene : Scene) :
    (session.dispose.settle now scene).1.isEnded = true ∧ ∃ map, (session.dispose.settle now scene).1.result = .ok map := by
  have enough : session.dispose.stepsLeft ≤ stepLimit scene := Nat.le_add_left_of_le near
  refine ⟨(isEnded_iff _).mpr ((isReleased_dispose session).run enough now scene),_,result_of_unbroken ?_⟩
  exact (fault_run now (stepLimit scene) session.dispose scene).trans unbroken

end PinnedMap.Session
