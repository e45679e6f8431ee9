import KernelRuntime.Foundations.Counting
import KernelRuntime.Foundations.Execution
import KernelRuntime.Foundations.Json

/-! # The local broker

`LocalDurableBroker` keeps a queue for each stream that was subscribed, the ids of the messages it
has handed out, and the messages it has given up. A consumer takes messages in a loop; between two of
its awaits nothing else runs, so a step of the model goes from one await to the next. -/

namespace KernelRuntime.LocalBroker
set_option autoImplicit false

inductive MessageStatus where
  | pending
  | processing
  | completed
  | failed
  | deadLetter
deriving DecidableEq

/-- A message. The id is the broker's counter; the source puts the time before it. -/
structure StreamMessage where
  id : ℕ
  stream : String
  data : Json
  consumerGroup : Option String
  status : MessageStatus
  attemptCount : ℕ
  error : Option String
  traceId : String
deriving DecidableEq

/-- Where the loop of `subscribe` stands. -/
inductive Activity where
  | waiting
  | handling (message : StreamMessage)
  | stopped
deriving DecidableEq

structure Consumer where
  stream : String
  group : String
  activity : Activity
deriving DecidableEq

/-- A subscriber of a channel, with its own queue. -/
structure Listener where
  channel : String
  inbox : List StreamMessage
deriving DecidableEq

/-- The broker and its consumers. The values of `_pending` are the messages themselves, which change
in place wherever they are, so the keys are kept. `published` and `handed` record what happened: the
streams and ids that `publish` returned, and the groups and ids for which a handler was called. -/
structure LocalDurableBroker where
  streams : List (String × List StreamMessage)
  listeners : List Listener
  pending : List ℕ
  completed : List ℕ
  dlq : List StreamMessage
  counter : ℕ
  consumers : List Consumer
  published : List (String × ℕ)
  handed : List (String × ℕ)
deriving DecidableEq

def start : LocalDurableBroker := ⟨[], [], [], [], [], 0, [], [], []⟩

/-! ## Publishing -/

/-- The arguments of `publish`. `freshTrace` is the uuid for a message without a trace. -/
structure Publication where
  stream : String
  data : Json
  traceId : Option String
  tenantId : Option Json
  freshTrace : String

/-- `key not in data` and then `data[key] = value`, for a dictionary. -/
def setDefault (key : String) (value : Json) : Json → Json
  | .obj fields => .obj (if (fields.lookup key).isSome then fields else assocSet key value fields)
  | data => data

def annotate (p : Publication) : Json :=
  let data := match p.traceId with
    | some traceId => if traceId = "" then p.data else setDefault "trace_id" (.str traceId) p.data
    | none => p.data
  match p.tenantId with
  | some tenantId => setDefault "tenant_id" tenantId data
  | none => data

/-- `if stream in self._streams: await self._streams[stream].put(message)`. -/
def enqueue (stream : String) (message : StreamMessage) (b : LocalDurableBroker) : LocalDurableBroker :=
  { b with
    streams := match b.streams.lookup stream with
      | some queue => assocSet stream (queue ++ [message]) b.streams
      | none => b.streams }

def newMessage (p : Publication) (b : LocalDurableBroker) : StreamMessage where
  id := b.counter + 1
  stream := p.stream
  data := annotate p
  consumerGroup := none
  status := .pending
  attemptCount := 0
  error := none
  traceId := match p.traceId with
    | some traceId => if traceId = "" then p.freshTrace else traceId
    | none => p.freshTrace

/-- `publish`: the message goes to the queue of the stream, when there is one, and to the listeners of
the channel. -/
def publish (p : Publication) (b : LocalDurableBroker) : LocalDurableBroker :=
  let message := newMessage p b
  let b := enqueue p.stream message b
  { b with
    counter := b.counter + 1
    listeners := b.listeners.map fun l =>
      if l.channel = p.stream then { l with inbox := l.inbox ++ [message] } else l
    published := b.published ++ [(p.stream, message.id)] }

/-! ## Consuming -/

/-- A consumer starts. -/
def subscribe (stream group : String) (b : LocalDurableBroker) : LocalDurableBroker :=
  { b with
    streams := if (b.streams.lookup stream).isSome then b.streams else assocSet stream [] b.streams
    consumers := b.consumers ++ [⟨stream, group, .waiting⟩] }

def addId (id : ℕ) (ids : List ℕ) : List ℕ := if id ∈ ids then ids else ids ++ [id]

def setConsumer (k : ℕ) (c : Consumer) (b : LocalDurableBroker) : LocalDurableBroker :=
  { b with consumers := b.consumers.set k c }

/-- The message as the handler of the consumer gets it. -/
def delivered (c : Consumer) (message : StreamMessage) : StreamMessage :=
  { message with consumerGroup := some c.group, status := .processing }

/-- `queue.get()` returns, and the handler is called, unless the message was completed before. -/
def take (k : ℕ) (b : LocalDurableBroker) : Option LocalDurableBroker :=
  match b.consumers[k]? with
  | none => none
  | some c =>
    match c.activity, b.streams.lookup c.stream with
    | .waiting, some (message :: queue) =>
      let b := { b with streams := assocSet c.stream queue b.streams }
      if message.id ∈ b.completed then some b
      else some (setConsumer k { c with activity := .handling (delivered c message) }
        { b with
          pending := addId message.id b.pending
          handed := b.handed ++ [(c.group, message.id)] })
    | _, _ => none

/-- The `except` clause: the message is tried again, or given up. -/
def retry (k : ℕ) (c : Consumer) (message : StreamMessage) (error : String) (b : LocalDurableBroker) :
    LocalDurableBroker :=
  let message := { message with attemptCount := message.attemptCount + 1 }
  let b := setConsumer k { c with activity := .waiting } b
  if 3 ≤ message.attemptCount then
    { b with dlq := b.dlq ++ [{ message with status := .deadLetter, error := some error }] }
  else enqueue c.stream message b

/-- The handler returns. `del self._pending[...]` raises for a key that is not there. -/
def complete (k : ℕ) (c : Consumer) (message : StreamMessage) (b : LocalDurableBroker) :
    LocalDurableBroker :=
  let b := { b with completed := addId message.id b.completed }
  if message.id ∈ b.pending then
    setConsumer k { c with activity := .waiting } { b with pending := b.pending.erase message.id }
  else retry k c { message with status := .completed } (toString message.id) b

/-- What the handler of a consumer does next. -/
def whileHandling (k : ℕ) (b : LocalDurableBroker)
    (f : Consumer → StreamMessage → LocalDurableBroker) : Option LocalDurableBroker :=
  match b.consumers[k]? with
  | none => none
  | some c =>
    match c.activity with
    | .handling message => some (f c message)
    | _ => none

/-- The task of a consumer is cancelled: the loop ends at the await where it stands. -/
def cancel (k : ℕ) (b : LocalDurableBroker) : Option LocalDurableBroker :=
  match b.consumers[k]? with
  | none => none
  | some c => if c.activity = .stopped then none
    else some (setConsumer k { c with activity := .stopped } b)

/-! ## Channels -/

def subscribeChannel (channel : String) (b : LocalDurableBroker) : LocalDurableBroker :=
  { b with listeners := b.listeners ++ [⟨channel, []⟩] }

/-- A listener takes its next message. -/
def hear (k : ℕ) (b : LocalDurableBroker) : Option LocalDurableBroker :=
  match b.listeners[k]? with
  | some ⟨channel, _ :: inbox⟩ => some { b with listeners := b.listeners.set k ⟨channel, inbox⟩ }
  | _ => none

/-! ## Steps -/

inductive Label where
  | publish (p : Publication)
  | subscribe (stream group : String)
  | take (k : ℕ)
  | succeed (k : ℕ)
  | fail (k : ℕ) (error : String)
  | cancel (k : ℕ)
  | subscribeChannel (channel : String)
  | hear (k : ℕ)

def step (b : LocalDurableBroker) : Label → Option LocalDurableBroker
  | .publish p => some (publish p b)
  | .subscribe stream group => some (subscribe stream group b)
  | .take k => take k b
  | .succeed k => whileHandling k b fun c message => complete k c message b
  | .fail k error => whileHandling k b fun c message => retry k c message error b
  | .cancel k => cancel k b
  | .subscribeChannel channel => some (subscribeChannel channel b)
  | .hear k => hear k b

/-! ## Where a message is -/

section Places
variable (b : LocalDurableBroker) (id : ℕ)

def hasId (m : StreamMessage) : Bool := decide (m.id = id)

def Consumer.handles (c : Consumer) : Bool :=
  match c.activity with
  | .handling message => hasId id message
  | _ => false

/-- How often the message is in a queue, in the hands of a consumer, among the completed, and among
the dead letters. -/
def queued : ℕ := countAll (hasId id) b.streams

def handled : ℕ := b.consumers.countP (Consumer.handles id)

def done : ℕ := b.completed.count id

def dead : ℕ := b.dlq.countP (hasId id)

def places : ℕ := queued b id + handled b id + done b id + dead b id

def wasTried (m : StreamMessage) : Bool := hasId id m && decide (0 < m.attemptCount)

/-- How often the message waits in a queue for another attempt. -/
def retrying : ℕ := countAll (wasTried id) b.streams

end Places

/-- Every message published on a work stream is in exactly one place, and the pending ones are being
handled or wait for another attempt. -/
structure Conserved (work : String → Prop) (b : LocalDurableBroker) : Prop where
  once : ∀ e ∈ b.published, work e.1 → places b e.2 = 1
  pending : ∀ id ∈ b.pending, 0 < handled b id + retrying b id

/-- A message of a work stream is published where a consumer has subscribed; a message does not fail
for the third time; and a consumer is not cancelled while its handler runs. -/
def StepOk (work : String → Prop) (b : LocalDurableBroker) : Label → Prop
  | .publish p => work p.stream → (b.streams.lookup p.stream).isSome = true
  | .fail k _ => ∀ c message, b.consumers[k]? = some c → c.activity = .handling message →
      message.attemptCount + 1 < 3
  | .cancel k => ∀ c message, b.consumers[k]? = some c → c.activity ≠ .handling message
  | _ => True

end KernelRuntime.LocalBroker
