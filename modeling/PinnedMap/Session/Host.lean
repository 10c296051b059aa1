import PinnedMap.Session.Basic

/-! A page with its buses and its mounted sessions. Sessions act when the host settles them, each in
turn until it waits. Their turns come in the order in which they woke; a resize wakes its listeners in the
order in which they began to wait for it. -/
namespace PinnedMap

structure Mounted where
  session : Session
  bus : Nat

structure Host where
  page : Page
  buses : Array Bus := #[]
  sessions : Array Mounted := #[]
  /-- Sessions that will act when the host settles, in the order of their turns. -/
  awake : List Nat := []
  /-- Sessions that wait for a resize, the one that has waited longest first. -/
  listening : List Nat := []

namespace Host

def ofViewport (viewport : Size) : Host := { page := Page.ofViewport viewport }

def addBus (host : Host) (bus : Bus) : Nat × Host := (host.buses.size,{ host with buses := host.buses.push bus })

def updateBus (host : Host) (bus : Nat) (change : Bus → Bus) : Host := { host with buses := host.buses.modify bus change }

def mount (host : Host) (session : Session) (bus : Nat) : Nat × Host :=
  (host.sessions.size,{ host.updateBus bus Bus.share with
    sessions := host.sessions.push ⟨session,bus⟩
    awake := host.awake ++ [host.sessions.size] })

def updateSession (host : Host) (index : Nat) (change : Session → Session) : Host :=
  { host with sessions := host.sessions.modify index fun mounted => { mounted with session := change mounted.session } }

/-- Wakes sessions; those that are awake keep their turns. -/
def wake (host : Host) (indices : List Nat) : Host :=
  { host with awake := host.awake ++ indices.filter fun index => !host.awake.contains index }

def wakeIf (host : Host) (index : Nat) (waits : Session → Bool) : Host :=
  if host.sessions[index]?.any (waits ·.session) then host.wake [index] else host

def answer (host : Host) (index : Nat) (answer : Except Fault Size) : Host :=
  (host.updateSession index (·.answerWith answer)).wakeIf index (·.activity = .loading)

def announce (host : Host) (bus : Nat) (resize : Resize) : Host :=
  let (called,others) := host.listening.partition fun index => host.sessions[index]?.any (·.bus = bus)
  { host.updateBus bus (·.announce resize) with listening := others }.wake called

def ignore (host : Host) (index : Nat) : Host :=
  (host.wakeIf index Session.isSending).updateSession index Session.ignore

def noteListening (host : Host) (index : Nat) (session : Session) : List Nat :=
  if session.activity ≠ .listening then host.listening.erase index
  else if host.listening.contains index then host.listening
  else host.listening ++ [index]

def settleOne (now : Timestamp) (host : Host) (index : Nat) : Host :=
  match host.sessions[index]? with
  | none => host
  | some ⟨session,bus⟩ =>
    let scene : Scene := ⟨host.page,host.buses[bus]?.getD Bus.standard⟩
    let (session,scene) := session.settle now scene
    { host with
      page := scene.page
      buses := host.buses.modify bus fun _ => scene.bus
      sessions := host.sessions.modify index fun _ => ⟨session,bus⟩
      listening := host.noteListening index session }

def settle (now : Timestamp) (host : Host) : Host :=
  host.awake.foldl (settleOne now) { host with awake := [] }

def next? (host : Host) (index : Nat) : Option (MapEvent × Host) := do
  let mounted ← host.sessions[index]?
  let (event,session) ← mounted.session.next?
  return (event,(host.wakeIf index Session.isSending).updateSession index fun _ => session)

def drain (now : Timestamp) (index : Nat) : (limit : Nat) → Host → List MapEvent × Host
  | 0, host => ([],host)
  | limit + 1, host =>
    let host := host.settle now
    match host.next? index with
    | none => ([],host)
    | some (event,host) =>
      let (events,host) := drain now index limit host
      (event :: events,host)

/-- No session has more events to give than wait unread or are called for by kept resizes. -/
def eventLimit (host : Host) (index : Nat) : Nat :=
  match host.sessions[index]? with
  | some ⟨session,bus⟩ => session.events.length + (host.buses[bus]?.getD Bus.standard).kept.length + 4
  | none => 0

def drainAll (now : Timestamp) (host : Host) (index : Nat) : List MapEvent × Host :=
  drain now index (host.eventLimit index) host

def dispose (now : Timestamp) (host : Host) (index : Nat) : Option ImageMap × Host :=
  let host := ((host.settle now).updateSession index Session.dispose).wake [index]
  let host := host.settle now
  ((host.sessions[index]?).map (·.session.map),host)

end Host
end PinnedMap
