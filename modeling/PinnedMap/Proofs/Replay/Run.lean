import Mathlib.Data.List.Forall2
import PinnedMap.Program
import PinnedMap.Proofs.Json.Lines
import PinnedMap.Proofs.Replay.Stage
import PinnedMap.Proofs.Session.Settling
import PinnedMap.Proofs.Session.Stopping

/-! A replay from start to end. Between two sizes the session is idle and the page looks as it did when the map
was wrapped, up to the viewport and the places of the pins, so that no pass depends on those before it. -/
namespace PinnedMap.Replay

variable {map : ImageMap} {wrapped : Page} {replay : Replay}

/-- The first layout pass of a map that is newly attached to its stage, at a size of the viewport. -/
def laidOutAt (id : Uuid) (settings : Settings) (natural viewport : Size) : Except MapFault Reposition := do
  let (map,page) ← stage id settings
  let page ← (page.resolveImage map.image natural).mapError .page
  (map.attach (page.setViewport viewport)).result

structure IsReady (map : ImageMap) (wrapped : Page) (replay : Replay) : Prop where
  map : replay.session.map = map
  idle : replay.session.IsIdle replay.scene
  unbroken : replay.session.fault = none
  alike : ∀ viewport, (wrapped.setViewport viewport).LooksAlike (replay.scene.page.setViewport viewport)

/-- The step: one size makes one event, with the pass that the wrapped page would have at that size. -/
theorem IsReady.await_resize (ready : IsReady map wrapped replay) (can : map.CanPass wrapped) (size : Size)
    (announced now : Timestamp) :
    ∃ update next, (map.reposition (wrapped.setViewport size)).1 = .ok update ∧
      (replay.resize announced size).await now = ([.repositioned map.id update now],some .laidOut,next) ∧
      IsReady map wrapped next := by
  obtain ⟨rfl,idle,unbroken,alike⟩ := ready
  have same := (can.setViewport size).result_eq (alike size)
  obtain ⟨ratio,placed,_,pass,stays⟩ := ((can.setViewport size).of_alike (alike size)).exists_reposition
  rw [pass] at same
  have settled := idle.settle ⟨size,announced⟩ pass now
  let next : Replay :=
    ⟨{ replay.session with place := some (replay.scene.bus.sent + 1), events := [] },
      ⟨placed,replay.scene.bus.announce ⟨size,announced⟩⟩⟩
  refine ⟨_,next,same.symm,?_,?_⟩
  · unfold await resize
    dsimp only
    rw [settled]
    rfl
  · refine ⟨rfl,⟨idle.activity,?_,idle.bus.announce _,?_,idle.read,rfl,idle.going⟩,unbroken,fun viewport => ?_⟩
    · exact congrArg some (Bus.announce_sent _ idle.listened).symm
    · exact (Bus.announce_listeners _ _).symm ▸ idle.listened
    · exact (alike viewport).trans (stays.setViewport viewport)

private theorem exists_dispose (replay : Replay) (unbroken : replay.session.fault = none)
    (rests : replay.session.activity = .listening ∨ replay.session.activity = .ended) (now : Timestamp) :
    (replay.session.dispose.settle now replay.scene).1.isEnded = true ∧ ∃ map, replay.dispose now = .ok map := by
  have near : replay.session.stepsLeft ≤ 12 := by rcases rests with at_ | at_ <;> simp [Session.stepsLeft,at_]
  obtain ⟨ended,map,given⟩ := Session.settle_dispose unbroken near now replay.scene
  refine ⟨ended,map,?_⟩
  unfold dispose
  rw [given]
  rfl

/-- The run: one event follows for each size ahead, and then the map is given back. -/
theorem IsReady.walk (ready : IsReady map wrapped replay) (can : map.CanPass wrapped) (clock : Nat → Timestamp)
    (step : Nat) (ahead : List Size) :
    ∃ updates, replay.walk clock step ahead =
        ⟨(updates.zipIdx (step + 1)).map fun (update,index) => .repositioned map.id update (clock index),.ok ()⟩ ∧
      List.Forall₂ (fun size update => (map.reposition (wrapped.setViewport size)).1 = .ok update) ahead updates := by
  induction ahead generalizing replay step with
  | nil =>
    obtain ⟨_,given,disposed⟩ := exists_dispose _ ready.unbroken (.inl ready.idle.activity) (clock step)
    refine ⟨[],?_,.nil⟩
    unfold Replay.walk
    rw [disposed]
    rfl
  | cons size ahead ih =>
    obtain ⟨update,next,pass,awaited,still⟩ := ready.await_resize can size (clock step) (clock (step + 1))
    obtain ⟨updates,later,passes⟩ := ih still (step + 1)
    refine ⟨update :: updates,?_,.cons pass passes⟩
    unfold Replay.walk
    rw [awaited]
    dsimp only
    rw [later]
    rfl

def isUsableFor (natural : Size) (mode : ScaleMode) : Bool :=
  isUsable natural.width && (mode = .uniform || isUsable natural.height)

private theorem isUsableFor_iff (natural : Size) (mode : ScaleMode) :
    isUsableFor natural mode = true ↔ ∃ ratio, Ratio.between natural natural mode = .ok ratio := by
  unfold isUsableFor Ratio.between
  cases isUsable natural.width <;> cases mode <;> cases isUsable natural.height <;> simp

private theorem run_eq_report (files : Files) (root : String) (id : Uuid) (clock : Nat → Timestamp)
    (settings : Settings) {map : ImageMap} {page : Page} (staged : stage id settings = .ok (map,page)) :
    run files root id clock settings =
      report clock settings.viewport.steps
        ⟨(Session.ofMap map).answerWith (ImageSource.load files root settings.plan.image),⟨page,Bus.standard.share⟩⟩ := by
  unfold run start
  rw [staged]
  rfl

private theorem isSound_standard : Bus.standard.share.IsSound := (Bus.isSound_ofCapacity 100).use .share

theorem run_of_loaded (files : Files) (root : String) (id : Uuid) (clock : Nat → Timestamp)
    (settings : Settings) {natural : Size} (loaded : ImageSource.load files root settings.plan.image = .ok natural)
    (usable : isUsableFor natural settings.layout.scaleMode = true) :
    ∃ updates, run files root id clock settings =
        ⟨.attached id natural :: updates.zipIdx.map fun (update,index) =>
            .repositioned id update (clock index),.ok ()⟩ ∧
      List.Forall₂ (fun size update => laidOutAt id settings natural size = .ok update)
        (settings.viewport.initial :: settings.viewport.steps) updates := by
  obtain ⟨map,page,staged,rfl,_,options,isStaged,viewport⟩ := exists_stage id settings
  obtain ⟨resolved,resolves,isStaged,isLoaded,same⟩ := isStaged.resolveImage natural
  rw [← options,isUsableFor_iff] at usable
  obtain ⟨ratio,between⟩ := usable
  obtain ⟨attached,wrapped,sameId,can,attaches⟩ := isStaged.exists_attach isLoaded between
  have laid (size : Size) :
      laidOutAt map.id settings natural size = (attached.reposition (wrapped.setViewport size)).1 := by
    unfold laidOutAt
    rw [staged]
    change (do
      let page ← (page.resolveImage map.image natural).mapError MapFault.page
      (map.attach (page.setViewport size)).result) = _
    rw [resolves]
    change (map.attach (resolved.setViewport size)).result = _
    rw [attaches]
  obtain ⟨first,placed,_,pass,stays⟩ := (can.setViewport settings.viewport.initial).exists_reposition
  have attachedNow : map.attach resolved = ⟨attached,placed,.ok ⟨first,attached.placements first⟩⟩ := by
    have own : resolved.setViewport settings.viewport.initial = resolved := by
      rw [← viewport,← same]
      rfl
    rw [← own,attaches,pass]
  have settled := Session.settle_of_attached (clock 0) isSound_standard resolves attachedNow
  let rested : Replay :=
    ⟨{ Session.ofMap attached with
        answer := some (.ok natural)
        activity := .listening
        place := some Bus.standard.share.sent
        holdsBus := false },⟨placed,Bus.standard.share.subscribe.2.release⟩⟩
  have awaited : await (clock 0) ⟨(Session.ofMap map).answerWith (.ok natural),⟨page,Bus.standard.share⟩⟩ =
      ([.attached attached.id natural,.repositioned attached.id ⟨first,attached.placements first⟩ (clock 0)],
        some .laidOut,rested) := by
    unfold await
    dsimp only
    rw [settled]
    rfl
  have ready : IsReady attached wrapped rested :=
    ⟨rfl,⟨rfl,rfl,(isSound_standard.use .subscribe).use .release,Nat.succ_pos _,rfl,rfl,rfl⟩,rfl,
      fun size => stays.setViewport size⟩
  obtain ⟨updates,walked,passes⟩ := ready.walk can clock 0 settings.viewport.steps
  refine ⟨⟨first,attached.placements first⟩ :: updates,?_,.cons ?_ ?_⟩
  · rw [run_eq_report _ _ _ _ _ staged,loaded,report,awaited]
    dsimp only
    rw [walked,sameId]
    simp [Report.after]
  · rw [laid,pass]
  · apply passes.imp
    intro size update done
    rw [laid]
    exact done

private theorem report_of_failed {session : Session} {scene : Scene} {id : Uuid} {reason : String}
    (clock : Nat → Timestamp) (ahead : List Size) (unbroken : session.fault = none)
    (settled : ∃ ended after, session.settle (clock 0) scene = (ended,after) ∧ ended.activity = .ended ∧
      ended.events = [.loadFailed id session.url reason]) :
    report clock ahead ⟨session,scene⟩ =
      ⟨[.loadFailed id session.url reason],.error (.source (.notLoaded session.url))⟩ := by
  obtain ⟨ended,after,ran,last,events⟩ := settled
  have awaited : await (clock 0) ⟨session,scene⟩ =
      ([.loadFailed id session.url reason],some .unloaded,⟨{ ended with events := [] },after⟩) := by
    unfold await
    dsimp only
    rw [ran]
    dsimp only
    rw [events]
    rfl
  have still : ended.fault = none := by
    have kept := Session.fault_run (clock 0) (Session.stepLimit scene) session scene
    rw [← Session.settle,ran,unbroken] at kept
    exact kept
  obtain ⟨_,map,disposed⟩ := exists_dispose ⟨{ ended with events := [] },after⟩ still (.inr last) (clock 0)
  unfold report
  rw [awaited]
  dsimp only
  rw [disposed]
  rfl

/-- Without an image that can be scaled there is one event, and the replay fails. -/
theorem run_of_unloaded (files : Files) (root : String) (id : Uuid) (clock : Nat → Timestamp)
    (settings : Settings)
    (unusable : ∀ natural, ImageSource.load files root settings.plan.image = .ok natural →
      isUsableFor natural settings.layout.scaleMode = false) :
    ∃ reason, run files root id clock settings =
      ⟨[.loadFailed id settings.plan.image reason],.error (.source (.notLoaded settings.plan.image))⟩ := by
  obtain ⟨map,page,staged,rfl,plan,options,isStaged,_⟩ := exists_stage id settings
  rw [run_eq_report _ _ _ _ _ staged,← plan]
  rw [← plan] at unusable
  cases loaded : ImageSource.load files root map.plan.image with
  | error fault =>
    exact ⟨_,report_of_failed clock _ rfl (Session.settle_of_unloaded map _ fault (clock 0))⟩
  | ok natural =>
    obtain ⟨resolved,resolves,isStaged,isLoaded,_⟩ := isStaged.resolveImage natural
    cases between : Ratio.between natural natural map.options.scaleMode with
    | ok ratio =>
      have usable := (isUsableFor_iff natural settings.layout.scaleMode).mpr ⟨ratio,options ▸ between⟩
      rw [unusable natural loaded] at usable
      cases usable
    | error fault =>
      have refused := ImageMap.attach_of_unusable isStaged.loading isLoaded between
      exact ⟨_,report_of_failed clock _ rfl (Session.settle_of_refused (clock 0) resolves refused)⟩

theorem loaded_or_unloaded (files : Files) (root : String) (settings : Settings) :
    (∃ natural, ImageSource.load files root settings.plan.image = .ok natural ∧
        isUsableFor natural settings.layout.scaleMode = true) ∨
      ∀ natural, ImageSource.load files root settings.plan.image = .ok natural →
        isUsableFor natural settings.layout.scaleMode = false := by
  refine or_iff_not_imp_left.mpr fun none natural loaded => ?_
  by_contra other
  exact none ⟨natural,loaded,by simpa using other⟩

end PinnedMap.Replay
