import PinnedMap.Geometry
import PinnedMap.Timestamp.Basic

/-! The bus that announces resizes. It keeps the last of them in a ring; a listener that falls further
behind is told how many it missed and goes on with the oldest that is kept. -/
namespace PinnedMap

structure Resize where
  size : Size
  time : Timestamp
deriving Repr, DecidableEq, Inhabited

structure Bus where
  slots : Nat
  sent : Nat := 0
  kept : List Resize := []
  listeners : Nat := 0
  handles : Nat := 1
deriving Repr, DecidableEq

inductive Delivery where
  | resized (resize : Resize)
  | lagged (missed : Nat)
  | empty
  | closed
deriving Repr, DecidableEq

namespace Bus

/-- Room for at least so many announcements, and a power of two. -/
def ofCapacity (capacity : Nat) : Bus := { slots := (max capacity 1).nextPowerOfTwo }

def standard : Bus := ofCapacity 100

/-- Announces a resize. Without listeners it leaves no trace. -/
def announce (bus : Bus) (resize : Resize) : Bus :=
  if bus.listeners = 0 then bus
  else
    let kept := bus.kept ++ [resize]
    { bus with sent := bus.sent + 1, kept := kept.drop (kept.length - bus.slots) }

def subscribe (bus : Bus) : Nat × Bus := (bus.sent,{ bus with listeners := bus.listeners + 1 })

def unsubscribe (bus : Bus) : Bus := { bus with listeners := bus.listeners - 1 }

def share (bus : Bus) : Bus := { bus with handles := bus.handles + 1 }

def release (bus : Bus) : Bus := { bus with handles := bus.handles - 1 }

def oldest (bus : Bus) : Nat := bus.sent - bus.kept.length

def receive (bus : Bus) (place : Nat) : Delivery × Nat :=
  if place < bus.oldest then (.lagged (bus.oldest - place),bus.oldest)
  else match bus.kept[place - bus.oldest]? with
    | some resize => (.resized resize,place + 1)
    | none => (if bus.handles = 0 then .closed else .empty,place)

end Bus
end PinnedMap
