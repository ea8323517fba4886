import Land.Lib.LossyFeed
import Land.Pubsub.Notification
import Land.Pubsub.WebSocket
import Land.Spsc.Queue

/-!
# The slot feed

Two threads bring the slots that a server announces to the leader tracker.  `slot-ws`
(`pubsub/src/subscriber.rs`) connects, subscribes, reads frames, answers pings and a close, and passes each
notification on through an SPSC channel; it drops the ones for which there is no room, and notes the last one in
`last_slot`.  `slot-subscriber` (`leader/src/slot_subscriber.rs`) polls the channel and stores each slot in
`SlotState`.

The threads are cut at their accesses to shared memory, as the channel is, and the operations of the channel are its
own steps.  The network decides the outcome of each connection attempt: `none`, or the bytes that the server sends
until the connection ends.
-/

namespace Land.Pubsub

open Channel (RingBuffer)

/-- `ConnectionState`. -/
structure ConnectionState where
  connected : Bool
  lastSlot : ℕ

/-- `SlotState`. -/
structure SlotState where
  slot : ℕ
  connected : Bool

/-- `SlotInfo::default`. -/
def SlotInfo.default : SlotInfo := ⟨0, 0, 0⟩

/-! ## Subscribing -/

/-- The `Err` of `connect_and_subscribe`, or the panic of `read_frame`. -/
inductive SubscribeError where
  | frame (e : Failure)
  | invalidJson (message : String)
  | invalidHandshake (message : String)

/-- The subscription request. -/
def subscribeRequest : List Char :=
  "\x7b\"jsonrpc\":\"2.0\",\"id\":1,\"method\":\"slotSubscribe\",\"params\":[]\x7d".toList

/-- `connect_and_subscribe` on a connection, after its request is written: the subscription and the bytes after
the response. -/
def connectAndSubscribe (stream : List UInt8) : Except SubscribeError (SubscriptionId × List UInt8) :=
  match readFrame.run.run stream with
  | (.ok (.text text), rest) =>
      match parseSubscriptionResponse text with
      | some subId => .ok (subId, rest)
      | none => .error (.invalidJson "failed to parse subscription response")
  | (.ok _, _) => .error (.invalidHandshake "expected text frame for subscription response")
  | (.error e, _) => .error (.frame e)

/-! ## The threads -/

/-- Where the thread `slot-ws` is. -/
inductive SocketPc where
  /-- the load of `running` in `websocket_thread` -/
  | loop
  | connect
  /-- after a failed attempt: `set_connected(false)` and the sleep -/
  | failed
  /-- `set_connected(true)` -/
  | connected
  /-- the load of `running` in `handle_messages` -/
  | messages
  | read
  /-- in `try_claim` for a notification -/
  | claiming (info : SlotInfo)
  | publish (info : SlotInfo)
  | setLastSlot (info : SlotInfo)
  /-- `set_connected(false)` after `handle_messages` -/
  | disconnected
  /-- the producer is being dropped -/
  | dropping
  | ended

/-- Where the thread `slot-subscriber` is. -/
inductive SubscriberPc where
  /-- the load of `running` -/
  | loop
  /-- in `poll`, up to the load of `connected` after it -/
  | polling
  | storeConnected (connected : Bool)
  /-- the consumer is being dropped -/
  | dropping
  | ended

/-- The two threads and what they share. -/
structure Feed where
  channel : Spsc.State SlotInfo
  socket : SocketPc
  /-- the bytes still to come on the connection -/
  stream : List UInt8
  /-- the bytes written to the connection -/
  written : List UInt8
  backoffMs : ℕ
  pubsubState : ConnectionState
  /-- `running` of the pubsub subscriber -/
  pubsubRunning : Bool
  subscriber : SubscriberPc
  state : SlotState
  /-- `running` of the leader's subscriber -/
  running : Bool

namespace Feed

def withChannel (f : Feed) (c : Spsc.State SlotInfo) : Feed := { f with channel := c }

/-- An action of the channel, and what the thread does after it. -/
def onChannel (f : Feed) (a : Spsc.Action SlotInfo) (k : Feed → Feed) : Option Feed :=
  (f.channel.next a).map fun c => k (f.withChannel c)

def setSocket (f : Feed) (pc : SocketPc) : Feed := { f with socket := pc }

def setSubscriber (f : Feed) (pc : SubscriberPc) : Feed := { f with subscriber := pc }

def setConnected (f : Feed) (connected : Bool) : Feed :=
  { f with pubsubState := { f.pubsubState with connected := connected } }

def maxBackoff : ℕ := 5000

/-- A frame in `handle_messages`, or what `read_frame` failed with. -/
def handleFrame (f : Feed) (mask : Mask) : Except Failure Frame → Option Feed
  | .ok (.text text) =>
      match parseSlotNotification text with
      | some info => f.onChannel (.producerCall (.start .tryClaim)) (·.setSocket (.claiming info))
      | none => some (f.setSocket .messages)
  | .ok (.ping data) =>
      some { f with written := f.written ++ writeFrame opcodePong mask data, socket := .messages }
  | .ok .close =>
      some { f with written := f.written ++ writeFrame opcodeClose mask [], socket := .disconnected }
  | .ok (.pong _) => some (f.setSocket .messages)
  | .error (.err _) => some (f.setSocket .disconnected)
  -- the panic unwinds the thread, which drops the producer
  | .error .capacityOverflow => f.onChannel (.producerCall .drop) (·.setSocket .dropping)

/-- A step of `slot-ws`, with the outcome of `WebSocket::connect` and the result of `generate_mask_key`. -/
def socketStep (network : Option (List UInt8)) (mask : Mask) (f : Feed) : Option Feed :=
  match f.socket with
  | .loop =>
      if f.pubsubRunning then some (f.setSocket .connect)
      else f.onChannel (.producerCall .drop) (·.setSocket .dropping)
  | .connect =>
      match network.map connectAndSubscribe with
      | some (.ok (_, rest)) =>
          some { f with
            socket := .connected
            stream := rest
            written := writeFrame opcodeText mask (Utf8.encode subscribeRequest)
            backoffMs := 100 }
      | some (.error (.frame .capacityOverflow)) =>
          f.onChannel (.producerCall .drop) (·.setSocket .dropping)
      | _ => some (f.setSocket .failed)
  | .failed =>
      some { f.setConnected false with socket := .loop, backoffMs := min (f.backoffMs * 2) maxBackoff }
  | .connected => some ((f.setConnected true).setSocket .messages)
  | .messages => some (f.setSocket (if f.pubsubRunning then .read else .disconnected))
  | .read =>
      let (frame, rest) := readFrame.run.run f.stream
      handleFrame { f with stream := rest } mask frame
  | .claiming info =>
      match f.channel.producer.pc with
      | .idle =>
          if f.channel.producer.claimed then
            f.onChannel (.producerCall (.setClaimed info)) (·.setSocket (.publish info))
          -- channel full or disconnected, drop update
          else some (f.setSocket .messages)
      | _ => f.onChannel .producerStep id
  | .publish info => f.onChannel (.producerCall .publish) (·.setSocket (.setLastSlot info))
  | .setLastSlot info =>
      some { f with pubsubState := { f.pubsubState with lastSlot := info.slot }, socket := .messages }
  | .disconnected => some ((f.setConnected false).setSocket .loop)
  | .dropping => f.onChannel .producerStep (·.setSocket .ended)
  | .ended => none

/-- A step of `slot-subscriber`. -/
def subscriberStep (f : Feed) : Option Feed :=
  match f.subscriber with
  | .loop =>
      if f.running then f.onChannel (.consumerCall (.start .poll)) (·.setSubscriber .polling)
      else f.onChannel (.consumerCall .drop) (·.setSubscriber .dropping)
  | .polling =>
      match f.channel.consumer.pc with
      | .idle => some (f.setSubscriber (.storeConnected f.pubsubState.connected))
      | .take _ count i =>
          if i < count then do
            -- the handler of `poll`
            let info ← f.channel.shared.buffer.get (f.channel.consumer.nextSequence + i)
            f.onChannel .consumerStep fun f => { f with state := { f.state with slot := info.slot } }
          else f.onChannel .consumerStep id
      | _ => f.onChannel .consumerStep id
  | .storeConnected connected =>
      some { f with state := { f.state with connected := connected }, subscriber := .loop }
  | .dropping => f.onChannel .consumerStep (·.setSubscriber .ended)
  | .ended => none

/-- The state after `start`, with the channel that `new` made. -/
def start (buffer : RingBuffer SlotInfo) (capacity : ℕ) : Feed where
  channel := Spsc.State.initial buffer capacity .spinLoopHintWait
  socket := .loop
  stream := []
  written := []
  backoffMs := 100
  pubsubState := ⟨false, 0⟩
  pubsubRunning := true
  subscriber := .loop
  state := ⟨0, false⟩
  running := true

end Feed

/-- A step of one of the threads, or a store of `stop`. -/
inductive FeedAction where
  | socket (network : Option (List UInt8)) (mask : Mask)
  | subscriber
  /-- `running.store(false)` of the leader's subscriber -/
  | stop
  /-- `running.store(false)` of the pubsub subscriber -/
  | stopPubsub

/-- One action. -/
def Feed.next (f : Feed) : FeedAction → Option Feed
  | .socket network mask => f.socketStep network mask
  | .subscriber => f.subscriberStep
  | .stop => some { f with running := false }
  | .stopPubsub => some { f with pubsubRunning := false }

namespace Feed

/-- The notification that the socket is about to pass on. -/
def waiting (f : Feed) : Option SlotInfo :=
  match f.socket with
  | .claiming info =>
      match f.channel.producer.pc with
      | .idle => if f.channel.producer.claimed then some info else none
      | _ => some info
  | .publish info => some info
  | _ => none

/-- The notification that is published and not noted. -/
def unnoted (f : Feed) : Option SlotInfo :=
  match f.socket with
  | .setLastSlot info => some info
  | _ => none

/-- How many events a poll has handled. -/
def handled : Spsc.ConsumerPc → ℕ
  | .take _ _ i => i
  | _ => 0

/-- The events that are handled and not released. -/
def held (f : Feed) : ℕ := handled f.channel.consumer.pc

/-- The events that are published and not handled. -/
def unread (f : Feed) : List SlotInfo := (f.channel.shared.queue.drop f.held).reduceOption

/-- The subscriber has dropped its handle. -/
def readerLeft (f : Feed) : Bool :=
  match f.subscriber with
  | .dropping => true
  | .ended => true
  | _ => false

/-- The feed without its threads. -/
def abs (f : Feed) : LossyFeed SlotInfo ℕ where
  waiting := f.waiting
  unnoted := f.unnoted
  noted := f.pubsubState.lastSlot
  unread := f.unread
  held := f.held
  shown := f.state.slot
  readerLeft := f.readerLeft

/-- The end of `try_claim` in a refusal. -/
def observeClaim (f : Feed) (info : SlotInfo) : List (FeedEvent SlotInfo) :=
  match f.channel.producer.pc with
  | .loadClosed _ _ =>
      if f.channel.producer.cachedDisconnected || f.channel.shared.closed then [.refused info] else []
  | .loadCount _ _ => if f.channel.shared.strongCount = 1 then [.refused info] else []
  | .reload op =>
      if f.channel.shared.consumerCursor ≥ f.channel.producer.wrapPoint op then [] else [.full info]
  | _ => []

/-- What the next frame announces. -/
def observeRead (f : Feed) : List (FeedEvent SlotInfo) :=
  match (readFrame.run.run f.stream).1 with
  | .ok (.text text) => (parseSlotNotification text).toList.map .offered
  | _ => []

/-- What an action does to the feed. -/
def observe (f : Feed) : FeedAction → List (FeedEvent SlotInfo)
  | .socket _ _ =>
      match f.socket with
      | .read => f.observeRead
      | .claiming info => f.observeClaim info
      | .publish info => [.accepted info]
      | .setLastSlot info => [.noted info]
      | _ => []
  | .subscriber =>
      match f.subscriber with
      | .loop => if f.running then [] else [.left]
      | .polling =>
          match f.channel.consumer.pc with
          | .take _ count i =>
              if i < count then
                (f.channel.shared.buffer.get (f.channel.consumer.nextSequence + i)).toList.map .taken
              else [.released]
          | _ => []
      | _ => []
  | .stop => []
  | .stopPubsub => []

end Feed

end Land.Pubsub
