import Djogi.Descriptor
import Djogi.Lib.Quoted

/-!
# Listeners and their subscribers

`notify.rs`: one listener a pool, with a connection of its own and a task that watches it, and any
number of calls of `subscribe` that look it up, start it or find it dead. Calls and watchers run
at the same time; what one lock or one atomic load covers is one step here.

* `step`: one step of a call, of a watcher, of the server or of a receiver;
* `Reached`: the worlds that any order of steps leads to.
-/

namespace Djogi.Notify

/-! ## The wire -/

inductive EventKind
  | created | updated | deleted
  deriving DecidableEq, Repr

structure RawEvent where
  kindStr : String
  idStr : String
  deriving DecidableEq, Repr

structure ModelEvent (κ : Type) where
  kind : EventKind
  id : κ
  deriving DecidableEq, Repr

inductive NotifyError
  | channelLagged (skipped : ℕ)
  | listenerStartFailed
  | payloadDecode (kind id : String)
  | invalidId (id : String)
  | listenerTerminated
  deriving DecidableEq, Repr

/-- The kind is looked at before the id. -/
def decodeEvent {κ : Type} (fromStr : String → Option κ) (raw : RawEvent) :
    Except NotifyError (ModelEvent κ) := do
  let kind ←
    if raw.kindStr = "create" then .ok .created
    else if raw.kindStr = "save" then .ok .updated
    else if raw.kindStr = "delete" then .ok .deleted
    else .error (.payloadDecode raw.kindStr raw.idStr)
  match fromStr raw.idStr with
  | some id => .ok ⟨kind, id⟩
  | none => .error (.invalidId raw.idStr)

/-! ## A broadcast channel -/

/-- How many events the channel keeps for a slow receiver. -/
def capacity : ℕ := 256

inductive Recv
  | event (raw : RawEvent)
  | lagged (skipped : ℕ)
  | closed
  deriving DecidableEq, Repr

/-- A receiver: its sender, where it began, where it stands, and what it was given. When `LISTEN`
was answered, the journal was of length `since`, `listened` events had been sent, and `ahead` was on
its way. -/
structure Rx where
  sender : ℕ
  start : ℕ
  next : ℕ
  got : List Recv
  since : ℕ
  listened : ℕ
  ahead : List (String × String)
  deriving DecidableEq, Repr

/-- A receiver of the sender made now sees what is sent from now on. -/
def Rx.new (sender : ℕ) (sent : List RawEvent) : Rx :=
  ⟨sender, sent.length, sent.length, [], 0, 0, []⟩

/-- One `recv`, over what was sent so far; none is a receiver that waits. -/
def Rx.recv (rx : Rx) (sent : List RawEvent) (isOpen : Bool) : Option Rx :=
  if capacity < sent.length - rx.next then
    some { rx with
      next := sent.length - capacity
      got := rx.got ++ [.lagged (sent.length - capacity - rx.next)] }
  else
    match sent[rx.next]? with
    | some raw => some { rx with next := rx.next + 1, got := rx.got ++ [.event raw] }
    | none => if isOpen then none else some { rx with got := rx.got ++ [.closed] }

/-! ## Listeners -/

/-- The watcher task: it polls the connection, has let go of it, has cleared the senders, and has
published that it failed. The connection goes first: it was declared after the exit guard. -/
inductive Watcher
  | polling | hungUp | cleared | exited
  deriving DecidableEq, Repr

/-- What is on the server for the connection is here as well: the channels it listens on, and what
it was sent and has not polled. -/
structure Listener where
  watcher : Watcher
  failed : Bool
  senders : String → Option ℕ
  channels : List String
  inbox : List (String × String)

def Listener.spawned : Listener := ⟨.polling, false, fun _ => none, [], []⟩

/-! ## Calls -/

/-- Where a call of `subscribe` is. From `lookup` to `install` it is in `get_or_start_listener`;
`receiving` is the receiver that the call returned. -/
inductive Pc
  | lookup
  | found (l : ℕ)
  | reap (l : ℕ)
  | spawn
  | install (l : ℕ)
  | obtained (l : ℕ)
  | insert (l : ℕ)
  | recheck (l : ℕ) (rx : Rx)
  | cleanup (l : ℕ)
  | listen (l : ℕ) (rx : Rx)
  | receiving (l : ℕ) (rx : Rx)
  | failed (e : NotifyError)
  | dropped
  deriving DecidableEq, Repr

/-- The listener that the call holds a strong reference to. -/
def Pc.holds : Pc → Option ℕ
  | .found l | .reap l | .install l | .obtained l | .insert l | .cleanup l => some l
  | .recheck l _ | .listen l _ | .receiving l _ => some l
  | .lookup | .spawn | .failed _ | .dropped => none

def Pc.rx : Pc → Option Rx
  | .recheck _ rx | .listen _ rx | .receiving _ rx => some rx
  | _ => none

structure Call where
  pool : ℕ
  channel : String
  pc : Pc
  deriving DecidableEq, Repr

/-! ## The world -/

/-- The registry, the listeners below `fresh`, what was sent through the senders below
`freshSender`, the calls, and all notifications that were committed. -/
structure World where
  registry : ℕ → Option ℕ
  listeners : ℕ → Listener
  fresh : ℕ
  sent : ℕ → List RawEvent
  freshSender : ℕ
  calls : List Call
  journal : List (String × String)

def World.initial : World where
  registry _ := none
  listeners _ := .spawned
  fresh := 0
  sent _ := []
  freshSender := 0
  calls := []
  journal := []

namespace World

/-- A weak reference can be upgraded. -/
def alive (w : World) (l : ℕ) : Bool := w.calls.any fun c => c.pc.holds = some l

/-- The slot of the registry, upgraded. -/
def upgrade (w : World) (pool : ℕ) : Option ℕ := (w.registry pool).filter w.alive

def setSlot (w : World) (pool : ℕ) (slot : Option ℕ) : World :=
  { w with registry := Function.update w.registry pool slot }

def setListener (w : World) (l : ℕ) (listener : Listener) : World :=
  { w with listeners := Function.update w.listeners l listener }

def setCall (w : World) (i : ℕ) (c : Call) : World := { w with calls := w.calls.set i c }

/-- A send with no receiver is not kept. -/
def send (w : World) (s : ℕ) (raw : RawEvent) : World :=
  if w.calls.any fun c => c.pc.rx.any fun rx => rx.sender = s then
    { w with sent := Function.update w.sent s (w.sent s ++ [raw]) }
  else w

end World

theorem World.setListener_self (w : World) (l : ℕ) (x : Listener) :
    (w.setListener l x).listeners l = x := Function.update_self ..

theorem World.setListener_of_ne (w : World) (l : ℕ) (x : Listener) {l' : ℕ} (h : l' ≠ l) :
    (w.setListener l x).listeners l' = w.listeners l' := Function.update_of_ne h ..

/-! ## The functions of the registry -/

/-- The listener, if it is alive; a dangling slot is emptied. -/
def upgradeExisting (w : World) (pool : ℕ) : World × Option ℕ :=
  match w.upgrade pool with
  | some l => (w, some l)
  | none => (w.setSlot pool none, none)

/-- Empties the slot if it points at `expected` or dangles. -/
def removeIfCurrent (w : World) (pool expected : ℕ) : World × Bool :=
  let shouldRemove := match w.upgrade pool with
    | some current => decide (current = expected)
    | none => (w.registry pool).isSome
  (if shouldRemove then w.setSlot pool none else w, shouldRemove)

/-- The candidate, or the one that came first. -/
def installOrLose (w : World) (pool candidate : ℕ) : World × ℕ :=
  match w.upgrade pool with
  | some existing => (w, existing)
  | none => (w.setSlot pool (some candidate), candidate)

/-! ## Steps -/

inductive Action
  | call (pool : ℕ) (channel : String)
  | run (i : ℕ) (ok : Bool)
  | drop (i : ℕ)
  | recv (i : ℕ)
  | hangUp (l : ℕ)
  | clear (l : ℕ)
  | publish (l : ℕ)
  | commit (notes : List (String × String))
  | poll (l : ℕ)
  deriving DecidableEq, Repr

/-- A new sender for the channel. -/
def World.addSender (w : World) (l : ℕ) (channel : String) : World :=
  { w.setListener l { w.listeners l with
      senders := Function.update (w.listeners l).senders channel (some w.freshSender) } with
    sent := Function.update w.sent w.freshSender []
    freshSender := w.freshSender + 1 }

/-- The sender of the channel, made if there is none. -/
def subscribeSender (w : World) (l : ℕ) (channel : String) : World × Rx :=
  match (w.listeners l).senders channel with
  | some s => (w, .new s (w.sent s))
  | none => (w.addSender l channel, .new w.freshSender [])

/-- The next step of a call; `ok` is what the connection answers, where it is asked. -/
def runCall (w : World) (c : Call) (ok : Bool) : Option (World × Pc) :=
  match c.pc with
  | .lookup =>
      match upgradeExisting w c.pool with
      | (w, some l) => some (w, .found l)
      | (w, none) => some (w, .spawn)
  | .found l => some (w, if (w.listeners l).failed then .reap l else .obtained l)
  | .reap l =>
      let (w, removed) := removeIfCurrent w c.pool l
      some (w, if removed then .spawn else .lookup)
  | .spawn =>
      if ok then
        some ({ w.setListener w.fresh .spawned with fresh := w.fresh + 1 },
          .install w.fresh)
      else some (w, .failed .listenerStartFailed)
  | .install l =>
      let (w, l) := installOrLose w c.pool l
      some (w, .obtained l)
  | .obtained l =>
      some (w, if !isPlainIdent (utf8 c.channel) then .failed .listenerStartFailed
        else if (w.listeners l).failed then .failed .listenerTerminated else .insert l)
  | .insert l =>
      let (w, rx) := subscribeSender w l c.channel
      some (w, .recheck l rx)
  | .recheck l rx => some (w, if (w.listeners l).failed then .cleanup l else .listen l rx)
  | .cleanup l =>
      let listener := w.listeners l
      some (w.setListener l { listener with
        senders := Function.update listener.senders c.channel none }, .failed .listenerTerminated)
  | .listen l rx =>
      let listener := w.listeners l
      -- A connection that is gone answers nothing; the name stands without quotes.
      if ok && listener.watcher = .polling then
        some (w.setListener l { listener with
            channels := Postgres.folded c.channel :: listener.channels },
          .receiving l { rx with
            since := w.journal.length
            listened := (w.sent rx.sender).length
            ahead := listener.inbox })
      else some (w, .failed .listenerStartFailed)
  | .receiving .. | .failed _ | .dropped => none

/-- A future is dropped where it waits, and a receiver at any time. -/
def Pc.droppable : Pc → Bool
  | .spawn | .listen .. | .receiving .. => true
  | _ => false

/-- What a connection is sent of a commit. -/
def Listener.heard (listener : Listener) (notes : List (String × String)) :
    List (String × String) :=
  notes.filter fun n => listener.channels.contains n.1

def step (parseRaw : String → Option RawEvent) (w : World) : Action → Option World
  | .call pool channel => some { w with calls := w.calls ++ [⟨pool, channel, .lookup⟩] }
  | .run i ok => do
      let c ← w.calls[i]?
      let (w, pc) ← runCall w c ok
      some (w.setCall i { c with pc })
  | .drop i => do
      let c ← w.calls[i]?
      if c.pc.droppable then some (w.setCall i { c with pc := .dropped }) else none
  | .recv i => do
      let c ← w.calls[i]?
      match c.pc with
      | .receiving l rx =>
          let isOpen := decide ((w.listeners l).senders c.channel = some rx.sender)
          let rx ← rx.recv (w.sent rx.sender) isOpen
          some (w.setCall i { c with pc := .receiving l rx })
      | _ => none
  | .hangUp l =>
      let listener := w.listeners l
      if listener.watcher = .polling then
        some (w.setListener l { listener with watcher := .hungUp, inbox := [] })
      else none
  | .clear l =>
      let listener := w.listeners l
      if listener.watcher = .hungUp then
        some (w.setListener l { listener with watcher := .cleared, senders := fun _ => none })
      else none
  | .publish l =>
      let listener := w.listeners l
      if listener.watcher = .cleared then
        some (w.setListener l { listener with watcher := .exited, failed := true })
      else none
  | .commit notes =>
      -- The server keeps one of several equal notifications of a transaction.
      let notes := notes.eraseDups
      some { w with
        journal := w.journal ++ notes
        listeners := fun l =>
          let listener := w.listeners l
          if listener.watcher = .polling then
            { listener with inbox := listener.inbox ++ listener.heard notes }
          else listener }
  | .poll l =>
      let listener := w.listeners l
      if listener.watcher = .polling then
        match listener.inbox with
        | [] => none
        | (channel, payload) :: rest =>
            let w := w.setListener l { listener with inbox := rest }
            match parseRaw payload, listener.senders channel with
            | some raw, some s => some (w.send s raw)
            | _, _ => some w
      else none

inductive Reached (parseRaw : String → Option RawEvent) : World → Prop
  | initial : Reached parseRaw .initial
  | step (w w' : World) (a : Action) (h : Reached parseRaw w)
      (hstep : step parseRaw w a = some w') : Reached parseRaw w'

def run (parseRaw : String → Option RawEvent) (w : World) (actions : List Action) : Option World :=
  actions.foldlM (step parseRaw) w

theorem reached_run {parseRaw : String → Option RawEvent} {w : World} (actions : List Action)
    (h : Reached parseRaw w) : Reached parseRaw ((run parseRaw w actions).getD w) := by
  have hreached (w' : World) (hrun : run parseRaw w actions = some w') : Reached parseRaw w' := by
    induction actions generalizing w with
    | nil =>
      obtain rfl := Option.some.inj hrun
      exact h
    | cons a actions ih =>
      obtain ⟨w₁, hstep, hrest⟩ := Option.bind_eq_some_iff.mp hrun
      exact ih (.step w w₁ a h hstep) hrest
  cases hrun : run parseRaw w actions with
  | none => exact h
  | some w' => exact hreached w' hrun

end Djogi.Notify
