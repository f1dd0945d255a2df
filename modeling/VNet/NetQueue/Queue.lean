import VNet.Lib.Exec
import VNet.Lib.Maps
import VNet.NetQueue.Process
import VNet.NetQueue.Write

namespace VNet.NetQueue
open Protocol

/-- Elements are known by the order of their allocation: an id stands for the
pointer, and is not given out twice. -/
abbrev ElemId := ℕ

/-- An entry of the epoll set. `EPOLLONESHOT` disarms it with every event. -/
structure Registration where
  ptr : ElemId
  interest : Interest
  armed : Bool
  deriving DecidableEq, Repr

/-- `NetQueue`, with the elements that are allocated and the epoll set. -/
structure Queue where
  elements : FiniteMap ElemId NetworkElement
  fdToNetworkElement : FiniteMap Fd ElemId
  epoll : FiniteMap Fd Registration
  nextId : ElemId

namespace Queue

def empty : Queue := ⟨∅, ∅, ∅, 0⟩

def setElement (q : Queue) (id : ElemId) (e : NetworkElement) : Queue :=
  { q with elements := q.elements.insert id e }

def epollMod (q : Queue) (fd : Fd) (id : ElemId) (interest : Interest) : Queue :=
  match q.epoll.lookup fd with
  | none => q
  | some _ => { q with epoll := q.epoll.insert fd ⟨id, interest, true⟩ }

/-- The end of `NetQueue::close`: out of the epoll set, deleted, out of the map. -/
def remove (q : Queue) (id : ElemId) (fd : Fd) : Queue :=
  { q with
    elements := q.elements.erase id
    fdToNetworkElement := q.fdToNetworkElement.erase fd
    epoll := q.epoll.erase fd }

/-- `NetQueue::put`. `added` and `stored` say whether `EPOLL_CTL_ADD` and the
insertion into the map go well; a registered descriptor is never added again. -/
def put (q : Queue) (fd : Fd) (ptr : ℕ) (state : FiniteStateMachine) (added stored : Bool) :
    Option ElemId × Queue :=
  if added ∧ q.epoll.lookup fd = none ∧ stored then
    (some q.nextId,
      { elements := q.elements.insert q.nextId (.new fd ptr state)
        fdToNetworkElement := q.fdToNetworkElement.insert fd q.nextId
        epoll := q.epoll.insert fd ⟨q.nextId, .epollin, true⟩
        nextId := q.nextId + 1 })
  else (none, { q with nextId := q.nextId + 1 })

end Queue

structure Events where
  epollin : Bool
  epollout : Bool
  epollerr : Bool
  epollhup : Bool
  deriving DecidableEq, Repr

def readable (hup : Bool) : Events := ⟨true, false, false, hup⟩

/-- `epoll_wait`: the descriptors an event is reported for, as far as they are
registered and armed; each is disarmed by its event. -/
def Queue.epollWait (q : Queue) : List (Fd × Events) → List (ElemId × Events) × Queue
  | [] => ([], q)
  | (fd, ev) :: rest =>
    match q.epoll.lookup fd with
    | some ⟨ptr, interest, true⟩ =>
      let r := ({ q with epoll := q.epoll.insert fd ⟨ptr, interest, false⟩ } : Queue).epollWait rest
      ((ptr, ev) :: r.1, r.2)
    | _ => q.epollWait rest

def epollMaxEvents : ℕ := 32

inductive CloseReason
  | closeError
  | closeEpoll
  | closeHangup
  deriving DecidableEq, Repr

structure CloseData where
  netElement : ElemId
  ptrData : ℕ
  fd : Fd
  reason : CloseReason
  deriving DecidableEq, Repr

/-- What a handler does to the queue before it returns: it may close
descriptors, and send on them and look at the result. -/
inductive Reaction (σ : Type)
  | done (user : σ)
  | close (fd : Fd) (next : Reaction σ)
  | send (fd : Fd) (data : Bytes) (next : Bool → Reaction σ)

structure NetworkQueueHandler (σ : Type) where
  onClose : σ → CloseData → Reaction σ
  onSocketReady : σ → SocketData → Reaction σ
  onTunReady : σ → TunData → Reaction σ

/-- The kernel: its answer to a `read()`, its answers to the writes of one call,
and whether an `EPOLL_CTL_MOD` of the loop goes well. -/
structure Kernel (κ : Type) where
  read : κ → Fd → ℕ → ReadResult × κ
  write : κ → Fd → List WriteResult × κ
  epollMod : κ → Fd → Bool × κ

inductive Called
  | onClose (data : CloseData)
  | onSocketReady (data : SocketData)
  | onTunReady (data : TunData)
  deriving DecidableEq, Repr

/-- A callback that was made: for which element, which elements had events
further on in the batch, and which elements the handler closed. -/
structure Callback where
  element : ElemId
  called : Called
  upcoming : List ElemId
  closed : List ElemId
  deriving DecidableEq, Repr

/-- A `send` refused because the bytes waiting would exceed `WRITE_BUFFER_MAX`:
on which element, in which callback if in any, and after how many callbacks. -/
structure Overflow where
  element : ElemId
  during : Option (ElemId × Called)
  callbacks : ℕ
  deriving DecidableEq, Repr

/-- The queue among the kernel and its user. `upcoming` are the elements of the
events still to be handled in the current batch, `calling` is the callback that
has not returned yet. -/
structure World (κ σ : Type) where
  queue : Queue
  kernel : κ
  user : σ
  upcoming : List ElemId
  log : List Callback
  calling : Option (ElemId × Called)
  overflows : List Overflow

/-- Why a call did not get to its end: it used an element that is not allocated
any more, or it has not returned yet. -/
inductive Fault
  | freed (id : ElemId)
  | pending
  deriving DecidableEq, Repr

variable {κ σ : Type}

abbrev Run (κ σ α : Type) := Exec (World κ σ) Fault α

def deref (id : ElemId) : Run κ σ NetworkElement := fun w =>
  match w.queue.elements.lookup id with
  | some e => (.ok e, w)
  | none => (.error (.freed id), w)

def assign (id : ElemId) (e : NetworkElement) : Run κ σ Unit := do
  let _ ← deref id
  Exec.change fun w => { w with queue := w.queue.setElement id e }

def closeElement (id : ElemId) : Run κ σ Unit := do
  let e ← deref id
  Exec.change fun w =>
    if w.queue.fdToNetworkElement.lookup e.fd = some id then
      { w with queue := w.queue.remove id e.fd }
    else w

def close (fd : Fd) : Run κ σ (Option ElemId) := do
  let found ← Exec.look fun w => w.queue.fdToNetworkElement.lookup fd
  match found with
  | none => pure none
  | some id => do
    closeElement id
    pure (some id)

/-- How a call on the write side leaves the element and the epoll set. -/
def settle (id : ElemId) (fd : Fd) (o : WriteOutcome) : Run κ σ Bool := do
  assign id o.element
  Exec.change fun w => { w with queue := match o.registered with
    | none => w.queue
    | some interest => w.queue.epollMod fd id interest }
  match o.returned with
  | none => Exec.fault .pending
  | some b => pure b

variable (kernel : Kernel κ) (handler : NetworkQueueHandler σ)

def writeAnswers (fd : Fd) : Run κ σ (List WriteResult) :=
  Exec.next fun w =>
    ((kernel.write w.kernel fd).1, { w with kernel := (kernel.write w.kernel fd).2 })

def noteOverflow (id : ElemId) (o : WriteOutcome) : Run κ σ Unit :=
  Exec.change fun w =>
    if o.Overflowed then
      { w with overflows := w.overflows ++ [⟨id, w.calling, w.log.length⟩] }
    else w

def sendOn (fd : Fd) (data : Bytes) : Run κ σ Bool := do
  let found ← Exec.look fun w => w.queue.fdToNetworkElement.lookup fd
  match found with
  | none => pure false
  | some id => do
    let e ← deref id
    let rs ← writeAnswers kernel fd
    noteOverflow id (send rs e data)
    settle id fd (send rs e data)

/-- A handler's calls, one after the other; gives the elements it closed, behind
those closed before. -/
def react : Reaction σ → List ElemId → Run κ σ (List ElemId)
  | .done user, closed => do
    Exec.change fun w => { w with user := user }
    pure closed
  | .close fd next, closed => do
    let found ← close fd
    react next (closed ++ found.toList)
  | .send fd data next, closed => do
    let b ← sendOn kernel fd data
    react (next b) closed

def callback (id : ElemId) (called : Called) (reaction : σ → Reaction σ) : Run κ σ Unit := do
  let user ← Exec.look World.user
  Exec.change fun w => { w with calling := some (id, called) }
  let closed ← react kernel (reaction user) []
  Exec.change fun w => { w with
    calling := none
    log := w.log ++ [⟨id, called, w.upcoming, closed⟩] }

def processOnce (id : ElemId) : Run κ σ Flow := do
  let e ← deref id
  match processPass e with
  | .read count resume => do
    let r ← Exec.next fun w =>
      ((kernel.read w.kernel e.fd count).1,
        { w with kernel := (kernel.read w.kernel e.fd count).2 })
    assign id (resume r).2
    pure (resume r).1
  | .socketReady data resume => do
    callback kernel id (.onSocketReady data) fun user => handler.onSocketReady user data
    let e' ← deref id
    assign id (resume e')
    pure .again
  | .tunReady data resume => do
    callback kernel id (.onTunReady data) fun user => handler.onTunReady user data
    let e' ← deref id
    assign id (resume e')
    pure .again
  | .stop => pure .stop

def process (id : ElemId) : ℕ → Run κ σ Unit
  | 0 => Exec.fault .pending
  | fuel + 1 => do
    let flow ← processOnce kernel handler id
    match flow with
    | .stop => pure ()
    | .again => process id fuel

def closeReason : FiniteStateMachine → Option CloseReason
  | .sckError => some .closeError
  | .tunError => some .closeError
  | .sckEof => some .closeHangup
  | .tunEof => some .closeHangup
  | _ => none

/-- `if (events & EPOLLIN)`. -/
def onInput (fuel : ℕ) (id : ElemId) (ev : Events) : Run κ σ (Option CloseReason) :=
  if ev.epollin then do
    process kernel handler id fuel
    let e ← deref id
    pure (closeReason e.state)
  else pure none

def onOutput (id : ElemId) (ev : Events) (reason : Option CloseReason) :
    Run κ σ (Option CloseReason) :=
  if ev.epollout then do
    let e ← deref id
    let rs ← writeAnswers kernel e.fd
    let flushed ← settle id e.fd (flushWriteBuffer rs e)
    pure (if flushed then reason else some .closeError)
  else pure reason

/-- `if (events & EPOLLERR)` and `if (events & EPOLLHUP)`. -/
def onErrors (ev : Events) (reason : Option CloseReason) : Option CloseReason :=
  if ev.epollhup then some .closeHangup
  else if ev.epollerr then some .closeError
  else reason

/-- The body of `if (!should_close)`: arm the descriptor again. -/
def rearm (id : ElemId) : Run κ σ (Option CloseReason) := do
  let e ← deref id
  let ok ← Exec.next fun w => ((kernel.epollMod w.kernel e.fd).1 &&
    (w.queue.epoll.lookup e.fd).isSome, { w with kernel := (kernel.epollMod w.kernel e.fd).2 })
  if ok then do
    let interest : Interest := if e.writeBuffer = [] then .epollin else .epollinEpollout
    Exec.change fun w => { w with queue := w.queue.epollMod e.fd id interest }
    pure none
  else pure (some .closeEpoll)

/-- The element is armed again unless it is to be closed already. -/
def rearmUnless (id : ElemId) : Option CloseReason → Run κ σ (Option CloseReason)
  | none => rearm kernel id
  | some reason => pure (some reason)

/-- `if (should_close)`: tell the user, then close. -/
def closeFor (id : ElemId) (reason : CloseReason) : Run κ σ Unit := do
  let e ← deref id
  callback kernel id (.onClose ⟨id, e.ptr, e.fd, reason⟩) fun user =>
    handler.onClose user ⟨id, e.ptr, e.fd, reason⟩
  closeElement id

/-- One event of the batch; `closed` is `elements_closed`. -/
def handleEvent (fuel : ℕ) (id : ElemId) (ev : Events) (closed : List ElemId) :
    Run κ σ (List ElemId) :=
  if id ∈ closed then pure closed
  else do
    let afterInput ← onInput kernel handler fuel id ev
    let afterOutput ← onOutput kernel id ev afterInput
    let reason ← rearmUnless kernel id (onErrors ev afterOutput)
    match reason with
    | none => pure closed
    | some reason => do
      closeFor kernel handler id reason
      pure (closed ++ [id])

def handleEvents (fuel : ℕ) : List (ElemId × Events) → List ElemId → Run κ σ Unit
  | [], _ => pure ()
  | (id, ev) :: batch, closed => do
    Exec.change fun w => { w with upcoming := batch.map (·.1) }
    let closed ← handleEvent kernel handler fuel id ev closed
    handleEvents fuel batch closed

/-- `NetQueue::wait_and_process`, with what `epoll_wait` reports. -/
def waitAndProcess (fuel : ℕ) (reported : List (Fd × Events)) : Run κ σ Unit := do
  let batch ← Exec.next fun w => ((w.queue.epollWait (reported.take epollMaxEvents)).1,
    { w with queue := (w.queue.epollWait (reported.take epollMaxEvents)).2 })
  handleEvents kernel handler fuel batch []

end VNet.NetQueue
