import PinnedMap.Proofs.Session.Chronicle

/-! The course of a layout beside its chronicle: whether a resize was announced after the last change that the map's
scale depends on, and the page as a layout pass would leave it. Others change the page as they like, but leave the
pins where the session put them. -/
namespace PinnedMap

/-- An operation that moves none of the pins itself. -/
def Page.Operation.spares (pins : List ElementId) : Operation → Bool
  | .setStyle id property _ => !(pins.contains id && ["left","top"].contains property)
  | _ => true

def Session.isWaiting (session : Session) : Bool :=
  match session.activity with
  | .listening | .sending _ _ .listen => true
  | _ => false

/-- The page as the last pass that succeeded left it. -/
def Pass.last? (passes : List Pass) : Option Page := (passes.filter (·.result.isOk)).getLast?.map (·.after)

structure Course extends Chronicle where
  /-- Whether a resize was announced after the last change of the page that the map's scale depends on. -/
  isAnnounced : Bool := true

namespace Course

open Chronicle (Move)

def start (map : ImageMap) (page : Page) (capacity : Nat) (uses : List Bus.Use) : Course :=
  { Chronicle.start map page capacity uses with }

/-- Nobody but the session moves its pins. -/
def spares (pins : List ElementId) : Move → Bool
  | .change operation => operation.spares pins
  | _ => true

def isAnnouncedAfter (course : Course) : Move → Bool
  | .change operation =>
    course.isAnnounced && course.session.map.ratio (course.toChronicle.change operation).scene.page =
      course.session.map.ratio course.scene.page
  | .use use => course.isAnnounced || use.isAnnouncement
  | _ => course.isAnnounced

def after (course : Course) (move : Move) : Course :=
  if spares course.session.map.pins move then
    { toChronicle := course.toChronicle.after move, isAnnounced := course.isAnnouncedAfter move }
  else course

def afterAll (course : Course) (moves : List Move) : Course := moves.foldl after course

/-- The page as a layout pass would leave it now; if it would fail, as the last that succeeded left it. -/
def laidOut (course : Course) : Option Page :=
  match course.session.map.reposition course.scene.page with
  | (.ok _,page) => some page
  | (.error _,_) => Pass.last? course.passes

end Course
end PinnedMap
