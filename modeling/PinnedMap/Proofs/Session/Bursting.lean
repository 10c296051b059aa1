import PinnedMap.Proofs.Session.Owing
import PinnedMap.Proofs.Session.Parting

/-! Resizes that come faster than a session can see to them. The bus keeps the last of them, as many as its ring has
slots for, and the session sees to each that it still finds: one pass and one event, and nothing for those that are
lost. -/
namespace PinnedMap

namespace Chronicle

variable {chronicle later idle : Chronicle} {next : Session × Scene} {now : Timestamp} {move : Move} {ring : Nat}

def Move.isOthers : Move → Bool
  | .act _ | .heed | .dispose => false
  | _ => true

def Move.announces : Move → Bool
  | .use announced => announced.isAnnouncement
  | _ => false

def Move.isCalm : Move → Bool
  | .dispose => false
  | move => !move.announces

/-- The session was left as it was, but for its events. -/
structure Rests (chronicle later : Chronicle) : Prop where
  activity : later.session.activity = chronicle.session.activity
  place : later.session.place = chronicle.session.place
  map : later.session.map = chronicle.session.map
  isCancelled : later.session.isCancelled = chronicle.session.isCancelled
  passes : later.passes = chronicle.passes
  told : later.told = chronicle.told

theorem Rests.refl (chronicle : Chronicle) : chronicle.Rests chronicle := ⟨rfl,rfl,rfl,rfl,rfl,rfl⟩

theorem Rests.trans {middle : Chronicle} (first : chronicle.Rests middle) (second : middle.Rests later) :
    chronicle.Rests later :=
  ⟨second.activity.trans first.activity,second.place.trans first.place,second.map.trans first.map,
    second.isCancelled.trans first.isCancelled,second.passes.trans first.passes,second.told.trans first.told⟩

private theorem rests_after (others : move.isOthers = true) :
    chronicle.Rests (chronicle.after move) ∧
      ((chronicle.after move).scene = chronicle.scene ∨
        (∃ operation, move = .change operation ∧
          (chronicle.after move).scene = ⟨chronicle.scene.page.perform operation,chronicle.scene.bus⟩) ∨
        ∃ use, move = .use use ∧
          (chronicle.after move).scene = ⟨chronicle.scene.page,chronicle.scene.bus.use use⟩) := by
  cases move with
  | act | heed | dispose => cases others
  | read =>
    rw [after,read,Session.next?]
    cases chronicle.session.events <;> exact ⟨⟨rfl,rfl,rfl,rfl,rfl,rfl⟩,.inl rfl⟩
  | change operation =>
    rw [after,change]
    split_ifs
    · exact ⟨⟨rfl,rfl,rfl,rfl,rfl,rfl⟩,.inl rfl⟩
    · exact ⟨⟨rfl,rfl,rfl,rfl,rfl,rfl⟩,.inr (.inl ⟨operation,rfl,rfl⟩)⟩
  | use use =>
    rw [after,Chronicle.use]
    split_ifs
    · exact ⟨⟨rfl,rfl,rfl,rfl,rfl,rfl⟩,.inl rfl⟩
    · exact ⟨⟨rfl,rfl,rfl,rfl,rfl,rfl⟩,.inr (.inr ⟨use,rfl,rfl⟩)⟩
  | answer | ignore | take | free => exact ⟨⟨rfl,rfl,rfl,rfl,rfl,rfl⟩,.inl rfl⟩

private theorem sameRing_after (others : move.isOthers = true) (quiet : move.announces = false) :
    chronicle.scene.bus.SameRing (chronicle.after move).scene.bus := by
  rcases (@rests_after chronicle move others).2 with same | ⟨operation,rfl,changed⟩ | ⟨use,rfl,used⟩
  · rw [same]
    exact ⟨rfl,rfl,rfl⟩
  · rw [changed]
    exact ⟨rfl,rfl,rfl⟩
  · rw [used]
    exact Bus.use_sameRing _ quiet

private theorem sent_after (listened : 0 < chronicle.scene.bus.listeners) (others : move.isOthers = true) :
    (chronicle.after move).scene.bus.sent = chronicle.scene.bus.sent + if move.announces then 1 else 0 := by
  cases announces : move.announces with
  | false => exact (sameRing_after others announces).sent
  | true =>
    cases move with
    | use use =>
      cases use with
      | announce resize => exact Bus.announce_sent resize listened
      | subscribe | unsubscribe | share | release => cases announces
    | act | heed | answer | read | ignore | dispose | take | free | change => cases announces

theorem IsTuned.gathers (tuned : idle.IsTuned ring) (listening : idle.session.place.isSome = true) {burst : List Move}
    (others : ∀ move ∈ burst, move.isOthers = true) :
    idle.Rests (idle.afterAll burst) ∧ (idle.afterAll burst).IsTuned ring ∧
      (idle.afterAll burst).scene.bus.sent = idle.scene.bus.sent + burst.countP Move.announces := by
  induction burst generalizing idle with
  | nil => exact ⟨.refl idle,tuned,rfl⟩
  | cons move burst ih =>
    have quiet := others move (List.mem_cons_self ..)
    have listened : 0 < idle.scene.bus.listeners := by
      rw [tuned.counted,Session.ownListeners,if_pos listening]
      omega
    have rests : idle.Rests (idle.after move) := (rests_after quiet).1
    obtain ⟨still,tuned,sent⟩ := ih (tuned.after move) (rests.place ▸ listening)
      fun other member => others other (List.mem_cons_of_mem move member)
    refine ⟨rests.trans still,tuned,?_⟩
    rw [List.countP_cons]
    change ((idle.after move).afterAll burst).scene.bus.sent = _
    rw [sent,sent_after listened quiet]
    omega

def isAtRest (chronicle : Chronicle) : Bool := chronicle.session.isAtRest chronicle.scene

/-- What a layout pass would come to. -/
def prospect (chronicle : Chronicle) : Except MapFault Reposition :=
  (chronicle.session.map.reposition chronicle.scene.page).1

def isFree (chronicle : Chronicle) : Bool :=
  !chronicle.isBarred && (!chronicle.session.isRead || chronicle.session.events.length < Session.eventRoom)

def isTurn (chronicle : Chronicle) : Move → Bool
  | .act _ => chronicle.isFree
  | _ => false

def turns : Chronicle → List Move → Nat
  | _, [] => 0
  | chronicle, move :: moves => (chronicle.isTurn move).toNat + (chronicle.after move).turns moves

def isSteady (chronicle : Chronicle) : Move → Bool
  | .change operation =>
    chronicle.session.map.ratio (chronicle.scene.page.perform operation) =
      chronicle.session.map.ratio chronicle.scene.page
  | _ => true

def staysSteady : Chronicle → List Move → Bool
  | _, [] => true
  | chronicle, move :: moves => chronicle.isSteady move && (chronicle.after move).staysSteady moves

/-- A session that goes from resize to resize, and that nobody told to stop. -/
structure Follows (ring : Nat) (chronicle : Chronicle) : Prop where
  tuned : chronicle.IsTuned ring
  following : chronicle.session.isFollowing = true
  going : chronicle.session.isCancelled = false

/-- What the session does in some moves: its passes are of those that were owed, each is told by one event, and as
long as the scale stays the same they all come to the same. -/
structure WorksOff (chronicle later : Chronicle) (new : List Pass) (news : List MapEvent) (turns : Nat)
    (steady : Bool) : Prop where
  map : later.session.map = chronicle.session.map
  passes : later.passes = chronicle.passes ++ new
  told : later.told = chronicle.told ++ news
  each : ∃ events, List.Forall₂ (Pass.IsToldBy chronicle.session.map.id) new events ∧
    chronicle.session.pending ++ events = news ++ later.session.pending
  owed : later.session.owed later.scene.bus + new.length = chronicle.session.owed chronicle.scene.bus
  work : later.session.workLeft later.scene.bus ≤ chronicle.session.workLeft chronicle.scene.bus - turns
  results : steady = true → later.prospect = chronicle.prospect ∧ ∀ pass ∈ new, pass.result = chronicle.prospect

theorem WorksOff.trans {middle : Chronicle} {new new' : List Pass} {news news' : List MapEvent} {turns turns' : Nat}
    {steady steady' : Bool} (first : chronicle.WorksOff middle new news turns steady)
    (second : middle.WorksOff later new' news' turns' steady') :
    chronicle.WorksOff later (new ++ new') (news ++ news') (turns + turns') (steady && steady') := by
  obtain ⟨events,each,pending⟩ := first.each
  obtain ⟨events',each',pending'⟩ := second.each
  have owed := first.owed
  have owed' := second.owed
  have work := first.work
  have work' := second.work
  refine ⟨second.map.trans first.map,?_,?_,⟨events ++ events',?_,?_⟩,?_,?_,fun both => ?_⟩
  · rw [second.passes,first.passes,List.append_assoc]
  · rw [second.told,first.told,List.append_assoc]
  · rw [first.map] at each'
    exact List.rel_append each each'
  · rw [← List.append_assoc,pending,List.append_assoc,pending',List.append_assoc]
  · rw [List.length_append]
    omega
  · omega
  · obtain ⟨kept,kept'⟩ := Bool.and_eq_true_iff.mp both
    obtain ⟨same,results⟩ := first.results kept
    obtain ⟨same',results'⟩ := second.results kept'
    rw [same] at same' results'
    exact ⟨same',fun pass member => (List.mem_append.mp member).elim (results pass) (results' pass)⟩

theorem Rests.worksOff (rests : chronicle.Rests later) (same : chronicle.scene.bus.SameRing later.scene.bus)
    {turns : Nat} (still : turns = 0 ∨ chronicle.session.workLeft chronicle.scene.bus = 0) {steady : Bool}
    (prospect : steady = true → later.prospect = chronicle.prospect) :
    chronicle.WorksOff later [] [] turns steady := by
  have work : later.session.workLeft later.scene.bus = chronicle.session.workLeft chronicle.scene.bus := by
    rw [Session.workLeft_eq same,Session.workLeft,Session.workLeft,rests.place,rests.activity]
  refine ⟨rests.map,?_,?_,⟨[],.nil,?_⟩,?_,?_,fun kept =>
    ⟨prospect kept,fun _ member => absurd member List.not_mem_nil⟩⟩
  · rw [rests.passes,List.append_nil]
  · rw [rests.told,List.append_nil]
  · rw [Session.pending,Session.pending,rests.activity,List.append_nil,List.nil_append]
  · rw [Session.owed_eq same,Session.owed,Session.owed,rests.place,rests.activity]
    rfl
  · omega

theorem Follows.listening (follows : chronicle.Follows ring) : chronicle.session.place.isSome = true :=
  (Session.isSeated_of_following follows.following follows.tuned.seated).1

private theorem worksOff_stepped (advances : chronicle.session.Advances chronicle.scene next)
    (same : chronicle.scene.bus.SameRing next.2.bus) {turns : Nat} (once : turns ≤ 1) :
    chronicle.WorksOff (chronicle.stepped next) (chronicle.session.passes chronicle.scene.page)
      chronicle.session.tells turns true := by
  have work := advances.workLeft
  refine ⟨advances.map,rfl,rfl,advances.told,?_,?_,fun _ => ⟨?_,advances.results⟩⟩
  · exact (congrArg (· + _) (Session.owed_eq same _)).trans advances.owed
  · change next.1.workLeft next.2.bus ≤ _
    rw [Session.workLeft_eq same]
    omega
  · change (next.1.map.reposition next.2.page).1 = _
    rw [advances.map]
    exact advances.steady

theorem Follows.act (follows : chronicle.Follows ring) (now : Timestamp) :
    (chronicle.act now).Follows ring ∧
      ∃ new news, chronicle.WorksOff (chronicle.act now) new news chronicle.isFree.toNat true := by
  have tuned : (chronicle.act now).IsTuned ring := follows.tuned.after (.act now)
  have filled := follows.tuned.filled
  unfold Chronicle.act at tuned ⊢
  cases barred : chronicle.isBarred with
  | true =>
    refine ⟨follows,[],[],(Rests.refl chronicle).worksOff ⟨rfl,rfl,rfl⟩ (.inl ?_) fun _ => rfl⟩
    simp [isFree,barred]
  | false =>
    rw [barred,if_neg Bool.false_ne_true] at tuned
    rw [if_neg Bool.false_ne_true]
    cases step : chronicle.session.step? now chronicle.scene with
    | none =>
      refine ⟨follows,[],[],(Rests.refl chronicle).worksOff ⟨rfl,rfl,rfl⟩ ?_ fun _ => rfl⟩
      by_cases free : chronicle.isFree = true
      · refine .inr ((Session.isAtRest_iff_workLeft filled follows.following follows.listening).mp ?_)
        by_contra busy
        have goes := Session.isSome_step?_of_following follows.following (by simpa using busy) ?_ now
        · simp [step] at goes
        · intro read
          simpa [isFree,barred,read] using free
      · exact .inl (by simp [free])
    | some next =>
      rw [step] at tuned
      have stepped := Session.stepped_of_step? step
      have advances := stepped.advances filled follows.following follows.listening
      exact ⟨⟨tuned,advances.following,stepped.isCancelled_eq.trans follows.going⟩,_,_,
        worksOff_stepped advances stepped.sameRing (Bool.toNat_le _)⟩

theorem Follows.prospect_after (follows : chronicle.Follows ring) (others : move.isOthers = true)
    (kept : chronicle.isSteady move = true) : (chronicle.after move).prospect = chronicle.prospect := by
  obtain ⟨rests,scene⟩ := @rests_after chronicle move others
  unfold prospect
  rw [rests.map]
  rcases scene with same | ⟨operation,rfl,changed⟩ | ⟨use,rfl,used⟩
  · rw [same]
  · have known := (Session.isSeated_of_following follows.following follows.tuned.seated).2
    rw [changed]
    exact ImageMap.reposition_result_eq (of_decide_eq_true kept) known fun pin member =>
      Page.isSome_element?_perform (known pin member) operation
  · rw [used]

theorem Follows.after (follows : chronicle.Follows ring) (calm : move.isCalm = true) :
    (chronicle.after move).Follows ring ∧ ∃ new news,
      chronicle.WorksOff (chronicle.after move) new news (chronicle.isTurn move).toNat (chronicle.isSteady move) := by
  have rests (others : move.isOthers = true) (quiet : move.announces = false) (idle : chronicle.isTurn move = false) :
      (chronicle.after move).Follows ring ∧ ∃ new news,
        chronicle.WorksOff (chronicle.after move) new news (chronicle.isTurn move).toNat (chronicle.isSteady move) := by
    have rests : chronicle.Rests (chronicle.after move) := (rests_after others).1
    refine ⟨⟨follows.tuned.after move,?_,rests.isCancelled.trans follows.going⟩,[],[],?_⟩
    · rw [Session.isFollowing,rests.activity]
      exact follows.following
    · exact rests.worksOff (sameRing_after others quiet) (.inl (by rw [idle]; rfl)) (follows.prospect_after others)
  cases move with
  | act now => exact follows.act now
  | heed =>
    -- Nobody told the session to stop, so there is nothing to take notice of.
    have same : chronicle.after .heed = chronicle := by
      rw [Chronicle.after,Session.cancel?,follows.going]
      rfl
    rw [same]
    exact ⟨follows,[],[],(Rests.refl chronicle).worksOff ⟨rfl,rfl,rfl⟩ (.inl rfl) fun _ => rfl⟩
  | dispose => cases calm
  | use use => exact rests rfl (by simpa [Move.isCalm] using calm) rfl
  | answer | read | ignore | take | free | change => exact rests rfl rfl rfl

theorem Follows.afterAll (follows : chronicle.Follows ring) {moves : List Move}
    (calm : ∀ move ∈ moves, move.isCalm = true) :
    (chronicle.afterAll moves).Follows ring ∧ ∃ new news,
      chronicle.WorksOff (chronicle.afterAll moves) new news (chronicle.turns moves) (chronicle.staysSteady moves) := by
  induction moves generalizing chronicle with
  | nil => exact ⟨follows,[],[],(Rests.refl chronicle).worksOff ⟨rfl,rfl,rfl⟩ (.inl rfl) fun _ => rfl⟩
  | cons move moves ih =>
    obtain ⟨still,new,news,first⟩ := follows.after (calm move (List.mem_cons_self ..))
    obtain ⟨last,new',news',rest⟩ := ih still fun other member => calm other (List.mem_cons_of_mem move member)
    exact ⟨last,new ++ new',news ++ news',first.trans rest⟩

private theorem place_of_atRest (tuned : chronicle.IsTuned ring) (rested : chronicle.isAtRest = true) :
    chronicle.session.activity = .listening ∧ chronicle.session.place = some chronicle.scene.bus.sent := by
  have activity : chronicle.session.activity = .listening := by
    unfold isAtRest Session.isAtRest at rested
    exact of_decide_eq_true (Bool.and_eq_true_iff.mp rested).1
  have following : chronicle.session.isFollowing = true := by rw [Session.isFollowing,activity]
  obtain ⟨own,place⟩ := Option.isSome_iff_exists.mp (Session.isSeated_of_following following tuned.seated).1
  have done := ((Session.isAtRest_iff tuned.filled place).mp rested).2
  exact ⟨activity,place.trans (congrArg some (Nat.le_antisymm (tuned.trails own place) done))⟩

/-- What is before a session that runs again after a burst. -/
theorem owed_of_burst {count : Nat} (slots : chronicle.scene.bus.slots = ring)
    (activity : chronicle.session.activity = .listening) {own : Nat} (place : chronicle.session.place = some own)
    (sent : chronicle.scene.bus.sent = own + count) :
    chronicle.session.owed chronicle.scene.bus = min count ring ∧
      chronicle.session.workLeft chronicle.scene.bus ≤ 3 * min count ring + 1 := by
  have due : chronicle.scene.bus.due own = min count ring := by
    rw [Bus.due,sent,slots,Nat.add_sub_cancel_left]
  refine ⟨by simp [Session.owed,activity,place,due],?_⟩
  simp only [Session.workLeft,activity,place,Option.elim_some,Bus.effort,due]
  split_ifs <;> omega

/-- A burst of resizes meets a session at rest: what the session makes of it until another resize comes. -/
theorem passes_of_burst (map : ImageMap) (page : Page) (capacity : Nat) (uses : List Bus.Use)
    (moves burst later : List Move) (rested : ((start map page capacity uses).afterAll moves).isAtRest = true)
    (wanted : ((start map page capacity uses).afterAll moves).isDisposed = false)
    (others : ∀ move ∈ burst, move.isOthers = true) (calm : ∀ move ∈ later, move.isCalm = true) :
    let ring := (Bus.ofCapacity capacity).slots
    let idle := (start map page capacity uses).afterAll moves
    let woken := idle.afterAll burst
    let done := woken.afterAll later
    let served := min (burst.countP Move.announces) ring
    IsLeast {power : Nat | power.isPowerOfTwo ∧ max capacity 1 ≤ power} ring ∧
      (1 ≤ burst.countP Move.announces → 1 ≤ served) ∧
      woken.passes = idle.passes ∧ woken.told = idle.told ∧
      (3 * served + 1 ≤ woken.turns later → done.isAtRest = true) ∧
      ∃ new news, done.passes = idle.passes ++ new ∧ done.told = idle.told ++ news ∧ new.length ≤ served ∧
        List.Forall₂ (Pass.IsToldBy map.id) new (news ++ done.session.pending) ∧
        (done.isAtRest = true → new.length = served ∧ List.Forall₂ (Pass.IsToldBy map.id) new news) ∧
        (woken.staysSteady later = true → ∀ pass ∈ new, pass.result = woken.prospect) := by
  intro ring idle woken done served
  have first := isTuned_start map page capacity uses
  have tuned : idle.IsTuned ring := afterAll_induction first (fun _ _ => IsTuned.moved) moves
  obtain ⟨activity,place⟩ := place_of_atRest tuned rested
  have listening : idle.session.place.isSome = true := by rw [place]; rfl
  obtain ⟨rests,tuned',sent⟩ := tuned.gathers listening others
  have name : woken.session.map.id = map.id :=
    (congrArg ImageMap.id rests.map).trans (speaks_afterAll map page capacity uses moves).name
  have going : idle.session.isCancelled = false := by
    have parts : idle.Parts := parts_afterAll map page capacity uses moves
    by_contra cancelled
    rw [Bool.not_eq_false] at cancelled
    cases wanted.symm.trans (parts.cancelled cancelled)
  have follows : woken.Follows ring :=
    ⟨tuned',by rw [Session.isFollowing,rests.activity,activity],rests.isCancelled.trans going⟩
  have before : woken.session.owed woken.scene.bus = served ∧
      woken.session.workLeft woken.scene.bus ≤ 3 * served + 1 :=
    owed_of_burst tuned'.slots (rests.activity.trans activity) (rests.place.trans place) sent
  obtain ⟨last,new,news,works⟩ := follows.afterAll calm
  have least := Bus.isLeast_slots capacity
  have counts := works.owed
  have ends := works.work
  rw [before.1] at counts
  obtain ⟨events,each,pending⟩ := works.each
  have silent : woken.session.pending = [] := by rw [Session.pending,rests.activity,activity]
  rw [silent,List.nil_append] at pending
  rw [name,pending] at each
  refine ⟨least,fun announced => ?_,rests.passes,rests.told,fun enough => ?_,new,news,?_,?_,?_,each,fun atRest => ?_,?_⟩
  · have roomy := least.1.2
    have positive : 1 ≤ ring := by omega
    exact Nat.le_min.mpr ⟨announced,positive⟩
  · exact (Session.isAtRest_iff_workLeft last.tuned.filled last.following last.listening).mpr (by
      have work := before.2
      omega)
  · rw [← rests.passes]
    exact works.passes
  · rw [← rests.told]
    exact works.told
  · omega
  · obtain ⟨nothing,told⟩ := Session.owed_of_atRest last.tuned.filled last.listening atRest
    rw [told,List.append_nil] at each
    exact ⟨by omega,each⟩
  · exact fun steady => (works.results steady).2

/-- Six resizes on a ring of four slots, with others about: two are lost, and the session sees to four. -/
theorem passes_of_burst_of_six :
    let page := (Page.ofViewport ⟨1000,600⟩).performAll
      [.create "div",.append Page.body ⟨1⟩,.create "button",.create "img",.setStyle ⟨3⟩ "width" "100%"]
    let map : ImageMap := ⟨⟨7⟩,⟨"plan.png",[⟨100,50,none⟩]⟩,{},[⟨2⟩],⟨1⟩,⟨3⟩,none,.loading⟩
    let moves : List Move := .answer (.ok ⟨1000,500⟩) :: List.replicate 5 (.act default)
    let burst : List Move := [.use .subscribe,.change (.setViewport ⟨500,600⟩)] ++
      List.replicate 6 (.use (.announce ⟨⟨500,600⟩,default⟩)) ++ [.read]
    let later : List Move := List.replicate 8 (.act default) ++
      [.take,.act default,.change (.setClass ⟨3⟩ "plan"),.free] ++ List.replicate 5 (.act default)
    let idle := (start map page 3 []).afterAll moves
    let woken := idle.afterAll burst
    let done := woken.afterAll later
    idle.isAtRest = true ∧ idle.isDisposed = false ∧ burst.countP Move.announces = 6 ∧ woken.turns later = 13 ∧
      done.isAtRest = true ∧
      ∃ new news, done.passes = idle.passes ++ new ∧ done.told = idle.told ++ news ∧ new.length = 4 ∧
        List.Forall₂ (Pass.IsToldBy ⟨7⟩) new news ∧
        ∀ pass ∈ new, pass.result = .ok ⟨⟨0.5,0.5⟩,[⟨0,⟨2⟩,50,25⟩]⟩ := by
  intro page map moves burst later idle woken done
  have slots : (Bus.ofCapacity 3).slots = 2 ^ 2 := Bus.slots_of_between (by decide) (by decide)
  have begun : start map page 3 [] = ⟨.ofMap map,⟨page,Bus.share { slots := 4 }⟩,0,none,false,[],[],[],false,false,
      false,none⟩ := by
    change start map page 3 [] = ⟨_,⟨page,Bus.share { slots := 2 ^ 2 }⟩,_,_,_,_,_,_,_,_,_,_⟩
    rw [← slots]
    rfl
  have rested : idle.isAtRest = true := by decide +kernel
  have wanted : idle.isDisposed = false := by decide +kernel
  have enough : woken.turns later = 13 := by
    change (((start map page 3 []).afterAll moves).afterAll burst).turns later = 13
    rw [begun]
    decide +kernel
  have steady : woken.staysSteady later = true := by
    change (((start map page 3 []).afterAll moves).afterAll burst).staysSteady later = true
    rw [begun]
    decide +kernel
  have half : woken.prospect = .ok ⟨⟨0.5,0.5⟩,[⟨0,⟨2⟩,50,25⟩]⟩ := by decide +kernel
  obtain ⟨_,_,_,_,rests,new,news,passes,told,_,_,counts,same⟩ :=
    passes_of_burst map page 3 [] moves burst later rested wanted (by decide) (by decide)
  rw [slots] at rests counts
  have atRest : done.isAtRest = true := rests (Nat.le_of_eq enough.symm)
  obtain ⟨length,each⟩ := counts atRest
  exact ⟨rested,wanted,by decide,enough,atRest,new,news,passes,told,length,each,
    fun pass member => (same steady pass member).trans half⟩

end Chronicle
end PinnedMap
