import PinnedMap.Proofs.ImageMap.Staging
import PinnedMap.Proofs.Page.Operation

/-! The life of a map. It loads, is attached at most once, and ends failed or disposed, whatever is done to
its page between the calls. The point is that attaching cannot fail once it has come to the first layout pass: what
was asked of the image before the tree was touched is all that the pass needs. -/
namespace PinnedMap.ImageMap

variable {map : ImageMap} {page start : Page}

private theorem attachable_of_phase (phase : map.phase ≠ .loading) (page : Page) :
    map.attachable page = .error (.attachIn map.phase) := by
  unfold attachable
  rw [if_pos phase]
  rfl

theorem attachable_eq_ok {done : Unit} :
    map.attachable page = .ok done ↔ map.phase = .loading ∧
      ∃ natural ratio, page.natural map.image = some natural ∧
        Ratio.between natural natural map.options.scaleMode = .ok ratio := by
  by_cases loading : map.phase = .loading
  · cases loaded : page.natural map.image with
    | none => simp [attachable,naturalSize,loading,loaded,bind,Except.bind]
    | some natural =>
      rw [attachable_of_natural loading loaded]
      cases between : Ratio.between natural natural map.options.scaleMode <;>
        simp [loading,between,Except.mapError,Except.map]
  · rw [attachable_of_phase loading]
    simp [loading]

/-- Attaching is refused before the tree is touched, or while the wrapper is filled, or it succeeds with the first
layout pass. -/
theorem attach_cases (map : ImageMap) (page : Page) :
    (∃ fault, map.attachable page = .error fault ∧ map.attach page = ⟨map,page,.error fault⟩) ∨
      map.attachable page = .ok () ∧
        ((∃ fault edited, map.wrap (page.create "div").1 (page.create "div").2 = (.error fault,edited) ∧
            map.attach page = ⟨map,edited,.error fault⟩) ∨
          ∃ wrapped ratio, map.wrap (page.create "div").1 (page.create "div").2 = (.ok (),wrapped) ∧
            map.attach page =
              ⟨map.wrappedIn (page.create "div").1,wrapped.putAll (map.placements ratio),
                .ok ⟨ratio,map.placements ratio⟩⟩) := by
  cases ready : map.attachable page with
  | error fault =>
    refine .inl ⟨fault,rfl,?_⟩
    unfold attach
    rw [ready]
  | ok done =>
    refine .inr ⟨rfl,?_⟩
    cases wraps : map.wrap (page.create "div").1 (page.create "div").2 with
    | mk result edited =>
      cases result with
      | error fault =>
        refine .inl ⟨fault,edited,rfl,?_⟩
        unfold attach
        rw [ready]
        dsimp only
        rw [wraps]
      | ok done =>
        obtain ⟨_,natural,_,loaded,usable⟩ := attachable_eq_ok.mp ready
        have still : edited.natural map.image = some natural :=
          (natural_wrap wraps map.image).trans ((Page.natural_create page "div" map.image).trans loaded)
        obtain ⟨ratio,between⟩ := between_isOk usable (edited.renderedSize map.image)
        have found : map.ratio edited = .ok ratio := by
          rw [ratio_of_natural still,between]
          rfl
        have placed : (map.wrappedIn (page.create "div").1).reposition edited = _ :=
          reposition_of_ratio rfl found (wrap_known wraps)
        refine .inr ⟨edited,ratio,rfl,?_⟩
        rw [attach_of_wrap ready wraps,placed]
        rfl

private theorem attach_of_phase (phase : map.phase ≠ .loading) (page : Page) :
    map.attach page = ⟨map,page,.error (.attachIn map.phase)⟩ := by
  unfold attach
  rw [attachable_of_phase phase]

theorem attach_map_of_error {fault : MapFault} (failed : (map.attach page).result = .error fault) :
    (map.attach page).map = map := by
  rcases attach_cases map page with ⟨_,_,refused⟩ | ⟨_,⟨_,_,_,refused⟩ | ⟨_,_,_,attached⟩⟩
  · rw [refused]
  · rw [refused]
  · rw [attached] at failed
    cases failed

def unhung (map : ImageMap) (page : Page) : Page :=
  match map.wrapper with
  | some wrapper => if page.parent wrapper = some map.container then page.unlink wrapper else page
  | none => page

theorem unhung_cases (map : ImageMap) (page : Page) :
    map.unhung page = page ∨
      ∃ wrapper, page.parent wrapper = some map.container ∧ map.unhung page = page.unlink wrapper := by
  unfold unhung
  cases map.wrapper with
  | none => exact .inl rfl
  | some wrapper =>
    by_cases hung : page.parent wrapper = some map.container
    · exact .inr ⟨wrapper,hung,if_pos hung⟩
    · exact .inl (if_neg hung)

def disposed (map : ImageMap) : ImageMap := { map with wrapper := none, phase := .disposed }

theorem detach_eq (map : ImageMap) (page : Page) :
    map.detach page = ⟨map.disposed,map.unhung page,.ok ()⟩ := by
  unfold detach unhung
  cases map.wrapper with
  | none => rfl
  | some wrapper =>
    by_cases hung : page.parent wrapper = some map.container
    · have removed : page.remove map.container wrapper = .ok (page.unlink wrapper) :=
        Page.remove_eq_ok.mpr ⟨hung,rfl⟩
      simp only [hung,if_true,removed]
      rfl
    · simp only [hung,if_false]
      rfl

/-- The gates have their pins, and there is a wrapper just while the map is attached. -/
structure IsWhole (map : ImageMap) : Prop where
  paired : map.plan.gates.length = map.pins.length
  wrapped : map.wrapper.isSome = true ↔ map.phase = .attached

end ImageMap

/-- Where a map can go from a phase. -/
def MapPhase.ahead : MapPhase → List MapPhase
  | .loading => [.attached,.failed,.disposed]
  | .attached | .failed => [.disposed]
  | .disposed => []

structure ImageMap.Life where
  map : ImageMap
  page : Page

namespace ImageMap.Life

variable {life : Life}

inductive Call where
  | attach
  | reposition
  | markFailed
  | detach
  | edit (operation : Page.Operation)
deriving Repr, DecidableEq

def after (life : Life) : Call → Life
  | .attach => ⟨(life.map.attach life.page).map,(life.map.attach life.page).page⟩
  | .reposition => ⟨life.map,(life.map.reposition life.page).2⟩
  | .markFailed => ⟨life.map.markFailed,life.page⟩
  | .detach => ⟨(life.map.detach life.page).map,(life.map.detach life.page).page⟩
  | .edit operation => ⟨life.map,life.page.perform operation⟩

def afterAll (life : Life) (calls : List Call) : Life := calls.foldl after life

/-- How often attaching succeeds among the calls. -/
def attachments (life : Life) : List Call → Nat
  | [] => 0
  | call :: calls =>
    (if call = .attach && (life.map.attach life.page).result.isOk then 1 else 0) + (life.after call).attachments calls

theorem phase_after (life : Life) (call : Call) :
    (life.after call).map.phase = life.map.phase ∨ (life.after call).map.phase ∈ life.map.phase.ahead := by
  cases call with
  | attach =>
    rcases attach_cases life.map life.page with ⟨_,_,refused⟩ | ⟨ready,⟨_,_,_,refused⟩ | ⟨_,_,_,attached⟩⟩
    · exact .inl (by rw [after,refused])
    · exact .inl (by rw [after,refused])
    · have loading := (attachable_eq_ok.mp ready).1
      rw [after,attached,loading]
      exact .inr (by simp [wrappedIn,MapPhase.ahead])
  | reposition | edit => exact .inl rfl
  | markFailed =>
    unfold after markFailed
    split_ifs with loading
    · exact .inr (by simp [loading,MapPhase.ahead])
    · exact .inl rfl
  | detach =>
    rw [after,detach_eq]
    change MapPhase.disposed = _ ∨ MapPhase.disposed ∈ _
    cases life.map.phase <;> decide

theorem isWhole_after (whole : life.map.IsWhole) (call : Call) : (life.after call).map.IsWhole := by
  cases call with
  | attach =>
    rcases attach_cases life.map life.page with ⟨_,_,refused⟩ | ⟨_,⟨_,_,_,refused⟩ | ⟨_,_,_,attached⟩⟩
    · rwa [after,refused]
    · rwa [after,refused]
    · rw [after,attached]
      exact ⟨whole.paired,by simp [wrappedIn]⟩
  | reposition | edit => exact whole
  | markFailed =>
    unfold after markFailed
    split_ifs with loading
    · have unwrapped : ¬ life.map.wrapper.isSome = true := fun wrapped => by
        rw [whole.wrapped,loading] at wrapped
        cases wrapped
      exact ⟨whole.paired,by simpa using unwrapped⟩
    · exact whole
  | detach =>
    rw [after,detach_eq]
    exact ⟨whole.paired,by simp [disposed]⟩

theorem isWhole_afterAll (whole : life.map.IsWhole) (calls : List Call) : (life.afterAll calls).map.IsWhole := by
  induction calls generalizing life with
  | nil => exact whole
  | cons call calls ih => exact ih (isWhole_after whole call)

theorem attachments_le (life : Life) (calls : List Call) :
    life.attachments calls ≤ if life.map.phase = .loading then 1 else 0 := by
  induction calls generalizing life with
  | nil => exact Nat.zero_le _
  | cons call calls ih =>
    have later := ih (life.after call)
    by_cases loading : life.map.phase = .loading
    · rw [if_pos loading,attachments]
      by_cases succeeds : (call = .attach && (life.map.attach life.page).result.isOk) = true
      · obtain ⟨rfl,done⟩ : call = .attach ∧ (life.map.attach life.page).result.isOk = true := by
          simpa using succeeds
        rcases attach_cases life.map life.page with ⟨_,_,refused⟩ | ⟨_,⟨_,_,_,refused⟩ | ⟨_,_,_,attached⟩⟩
        · rw [refused] at done
          cases done
        · rw [refused] at done
          cases done
        · have gone : (life.after .attach).map.phase ≠ .loading := by
            rw [after,attached]
            simp [wrappedIn]
          rw [if_neg gone] at later
          rw [if_pos succeeds]
          omega
      · rw [if_neg succeeds]
        split_ifs at later <;> omega
    · have gone : (life.after call).map.phase ≠ .loading := by
        rcases phase_after life call with same | ahead
        · rwa [same]
        · intro back
          rw [back] at ahead
          cases phase : life.map.phase <;> simp [phase,MapPhase.ahead] at ahead
      have barred : (call = .attach && (life.map.attach life.page).result.isOk) = false := by
        rw [attach_of_phase loading]
        simp [Except.isOk,Except.toBool]
      rw [if_neg gone] at later
      rw [if_neg loading,attachments,barred]
      simpa using later

end ImageMap.Life

namespace ImageMap

theorem create_eq_ok {page start : Page} {id : Uuid} {plan : MapPlan} {pins : List ElementId}
    {container : ElementId} {options : LayoutOptions} {map : ImageMap}
    (created : create page id plan pins container options = .ok (map,start)) :
    plan.gates.length = pins.length ∧ map = { id, plan, options, pins, container, image := (page.create "img").1 } := by
  unfold create at created
  split_ifs at created with unpaired
  dsimp only at created
  split at created
  · obtain ⟨rfl,rfl⟩ := Prod.mk.inj (Except.ok.inj created)
    exact ⟨by simpa using unpaired,rfl⟩
  · cases created

/-- The life of a map that was created on a page: what holds after any calls, and of any call that follows. -/
theorem life_of_created {page start : Page} {id : Uuid} {plan : MapPlan} {pins : List ElementId}
    {container : ElementId} {options : LayoutOptions} {map : ImageMap}
    (created : create page id plan pins container options = .ok (map,start)) (calls : List Life.Call) :
    let life := (Life.mk map start).afterAll calls
    life.map.plan.gates.length = life.map.pins.length ∧
      (life.map.wrapper.isSome = true ↔ life.map.phase = .attached) ∧
      (∀ call, (life.after call).map.phase = life.map.phase ∨
        (life.after call).map.phase ∈ life.map.phase.ahead) ∧
      (Life.mk map start).attachments calls ≤ 1 ∧
      (∀ fault, (life.map.attach life.page).result = .error fault → (life.map.attach life.page).map = life.map ∧
        (life.map.phase = .loading → (life.map.attach life.page).map.markFailed.phase = .failed)) ∧
      (life.map.detach life.page).result = .ok () ∧
      (life.map.phase ≠ .loading →
        life.map.attach life.page = ⟨life.map,life.page,.error (.attachIn life.map.phase)⟩) ∧
      (life.map.phase ≠ .attached →
        life.map.reposition life.page = (.error (.positionIn life.map.phase),life.page)) := by
  intro life
  obtain ⟨paired,rfl⟩ := create_eq_ok created
  have whole : life.map.IsWhole := Life.isWhole_afterAll ⟨paired,by simp⟩ calls
  refine ⟨whole.paired,whole.wrapped,Life.phase_after life,Life.attachments_le _ calls,?_,?_,?_,?_⟩
  · intro fault failed
    have same := attach_map_of_error failed
    refine ⟨same,fun loading => ?_⟩
    rw [same,markFailed,if_pos loading]
  · rw [detach_eq]
  · exact fun phase => attach_of_phase phase life.page
  · exact fun phase => reposition_of_phase phase life.page

/-- The image is not there at first and is gone before the end, and the map is attached in between. -/
theorem life_of_created_attached_once :
    let page := (Page.ofViewport ⟨800,600⟩).performAll [.create "div",.append Page.body ⟨1⟩,.create "button"]
    let start := page.performAll [.create "img",.setStyle ⟨3⟩ "width" "100%",.setStyle ⟨3⟩ "height" "100%",
      .setStyle ⟨3⟩ "left" "0",.setStyle ⟨3⟩ "top" "0",.setSource ⟨3⟩ "plan.png"]
    let map : ImageMap := ⟨⟨7⟩,⟨"plan.png",[⟨100,50,none⟩]⟩,{},[⟨2⟩],⟨1⟩,⟨3⟩,none,.loading⟩
    let calls : List Life.Call := [.attach,.edit (.resolveImage ⟨3⟩ ⟨1000,500⟩),.attach,.attach,
      .edit (.setSource ⟨3⟩ "other.png"),.reposition,.markFailed,.detach]
    let life := (Life.mk map start).afterAll calls
    create page ⟨7⟩ map.plan [⟨2⟩] ⟨1⟩ {} = .ok (map,start) ∧ (Life.mk map start).attachments calls = 1 ∧
      life.map.phase = .disposed ∧ life.map.wrapper.isSome = false ∧
      life.map.attach life.page = ⟨life.map,life.page,.error (.attachIn life.map.phase)⟩ := by
  intro page start map calls life
  have created : create page ⟨7⟩ map.plan [⟨2⟩] ⟨1⟩ {} = .ok (map,start) := rfl
  obtain ⟨_,wrapped,_,_,_,_,barred,_⟩ := life_of_created created calls
  have phase : life.map.phase = .disposed := by decide +kernel
  have unwrapped : life.map.wrapper.isSome = false := by
    rw [Bool.eq_false_iff,ne_eq,wrapped,phase]
    decide
  exact ⟨created,by decide +kernel,phase,unwrapped,barred (by rw [phase]; decide)⟩

end ImageMap
end PinnedMap
