/-
Channels, patterns and the clients that subscribed to them (`pubsub.c`).

* `Client`, `Server` — the subscriptions of a client, and the indexes of the server;
* `pubsubSubscribeChannel`, …, `pubsubUnsubscribeAllPatterns` — changes of subscriptions;
* `pubsubPublishMessage` — the delivery of a message;
* `process` — the commands, and clients that come and go.

Channels, patterns and messages are values of a type `K`; `stringmatch` stands for
`stringmatchlen`.
-/
import Mathlib.Data.Nat.Notation
import Mathlib.Data.List.Dedup
import Mathlib.Logic.Function.Basic
import RedisModel.Ensures

open Except

namespace PubSub

abbrev ClientId := ℕ

inductive Fault where
  /-- The assertions of `pubsubUnsubscribeChannel`. -/
  | assertion
  /-- `listDelNode` of a node that was not found. -/
  | null
  deriving DecidableEq

/-- What is sent to clients. -/
inductive Reply (K : Type) where
  | subscribe (channel : K) (count : ℕ)
  | unsubscribe (channel : Option K) (count : ℕ)
  | psubscribe (pattern : K) (count : ℕ)
  | punsubscribe (pattern : Option K) (count : ℕ)
  | message (channel message : K)
  | pmessage (pattern channel message : K)
  | integer (n : ℕ)
  deriving DecidableEq

/-- `redisClient`.  `pubsubChannels` has the keys of a table, `replies` all that was sent. -/
structure Client (K : Type) where
  pubsubChannels : List K
  pubsubPatterns : List K
  replies : List (Reply K)

/-- `redisServer`. -/
structure Server (K : Type) where
  clients : List ClientId
  client : ClientId → Client K
  pubsubChannels : K → Option (List ClientId)
  pubsubPatterns : List (ClientId × K)

variable {K : Type}

def createClient : Client K where
  pubsubChannels := []
  pubsubPatterns := []
  replies := []

/-- The number that subscription replies carry. -/
def Client.subscriptions (client : Client K) : ℕ :=
  client.pubsubChannels.length + client.pubsubPatterns.length

/-- A server without clients. -/
def initServer : Server K where
  clients := []
  client _ := createClient
  pubsubChannels _ := none
  pubsubPatterns := []

/-- Write to a client. -/
def Server.setClient (s : Server K) (c : ClientId) (client : Client K) : Server K :=
  { s with client := Function.update s.client c client }

def addReply (s : Server K) (c : ClientId) (r : Reply K) : Server K :=
  s.setClient c { s.client c with replies := (s.client c).replies ++ [r] }

section
variable [DecidableEq K]

/-! ### Subscriptions -/

def pubsubSubscribeChannel (s : Server K) (c : ClientId) (channel : K) : Server K :=
  let s := if channel ∈ (s.client c).pubsubChannels then s
    else
      let s := s.setClient c { s.client c with
        pubsubChannels := (s.client c).pubsubChannels ++ [channel] }
      let clients := (s.pubsubChannels channel).getD []
      { s with
        pubsubChannels := Function.update s.pubsubChannels channel (some (clients ++ [c])) }
  addReply s c (.subscribe channel (s.client c).subscriptions)

/-- The client leaves the list of a channel. -/
def removeClient (s : Server K) (c : ClientId) (channel : K) : Except Fault (Server K) :=
  match s.pubsubChannels channel with
  | none => .error .assertion
  | some clients =>
    if c ∉ clients then .error .assertion
    else
      let clients := clients.erase c
      .ok { s with
        pubsubChannels := Function.update s.pubsubChannels channel
          (if clients.length = 0 then none else some clients) }

def pubsubUnsubscribeChannel (s : Server K) (c : ClientId) (channel : K) (notify : Bool) :
    Except Fault (Server K × ℕ) := do
  let (s, retval) ← (if channel ∈ (s.client c).pubsubChannels then do
      let s := s.setClient c { s.client c with
        pubsubChannels := (s.client c).pubsubChannels.erase channel }
      let s ← removeClient s c channel
      .ok (s, 1)
    else .ok (s, 0))
  .ok (if notify then addReply s c (.unsubscribe (some channel) (s.client c).subscriptions) else s,
    retval)

def pubsubSubscribePattern (s : Server K) (c : ClientId) (pattern : K) : Server K :=
  let s := if pattern ∈ (s.client c).pubsubPatterns then s
    else
      { s.setClient c { s.client c with
          pubsubPatterns := (s.client c).pubsubPatterns ++ [pattern] } with
        pubsubPatterns := s.pubsubPatterns ++ [(c, pattern)] }
  addReply s c (.psubscribe pattern (s.client c).subscriptions)

def pubsubUnsubscribePattern (s : Server K) (c : ClientId) (pattern : K) (notify : Bool) :
    Except Fault (Server K × ℕ) := do
  let (s, retval) ← (if pattern ∈ (s.client c).pubsubPatterns then
      if (c, pattern) ∉ s.pubsubPatterns then .error .null
      else
        .ok ({ s.setClient c { s.client c with
            pubsubPatterns := (s.client c).pubsubPatterns.erase pattern } with
          pubsubPatterns := s.pubsubPatterns.erase (c, pattern) }, 1)
    else .ok (s, 0))
  .ok (if notify then addReply s c (.punsubscribe (some pattern) (s.client c).subscriptions) else s,
    retval)

/-- The keys of a table in the order of an iterator. -/
def iterate (order keys : List K) : List K :=
  order.dedup.filter (· ∈ keys) ++ keys.filter (· ∉ order)

def pubsubUnsubscribeAllChannels (s : Server K) (c : ClientId) (order : List K) (notify : Bool) :
    Except Fault (Server K × ℕ) := do
  let (s, count) ← (iterate order (s.client c).pubsubChannels).foldlM (fun p channel => do
    let (s, retval) ← pubsubUnsubscribeChannel p.1 c channel notify
    .ok (s, p.2 + retval)) (s, 0)
  .ok (if notify ∧ count = 0 then addReply s c (.unsubscribe none (s.client c).subscriptions) else s,
    count)

def pubsubUnsubscribeAllPatterns (s : Server K) (c : ClientId) (notify : Bool) :
    Except Fault (Server K × ℕ) := do
  let (s, count) ← (s.client c).pubsubPatterns.foldlM (fun p pattern => do
    let (s, retval) ← pubsubUnsubscribePattern p.1 c pattern notify
    .ok (s, p.2 + retval)) (s, 0)
  .ok (if notify ∧ count = 0 then addReply s c (.punsubscribe none (s.client c).subscriptions) else s,
    count)

/-! ### Messages -/

/-- `pubsubPublishMessage`, with the number of receivers. -/
def pubsubPublishMessage (stringmatch : K → K → Bool) (s : Server K) (channel message : K) :
    Server K × ℕ :=
  let p : Server K × ℕ := match s.pubsubChannels channel with
    | none => (s, 0)
    | some clients =>
      clients.foldl (fun p c => (addReply p.1 c (.message channel message), p.2 + 1)) (s, 0)
  s.pubsubPatterns.foldl (fun p pat =>
    if stringmatch pat.2 channel then
      (addReply p.1 pat.1 (.pmessage pat.2 channel message), p.2 + 1)
    else p) p

def publishCommand (stringmatch : K → K → Bool) (s : Server K) (c : ClientId)
    (channel message : K) : Server K :=
  let (s, receivers) := pubsubPublishMessage stringmatch s channel message
  addReply s c (.integer receivers)

/-! ### Commands -/

def subscribeCommand (s : Server K) (c : ClientId) (channels : List K) : Server K :=
  channels.foldl (fun s channel => pubsubSubscribeChannel s c channel) s

def unsubscribeCommand (s : Server K) (c : ClientId) (channels order : List K) :
    Except Fault (Server K) := do
  if channels.length = 0 then do
    let (s, _) ← pubsubUnsubscribeAllChannels s c order true
    .ok s
  else
    channels.foldlM (fun s channel => do
      let (s, _) ← pubsubUnsubscribeChannel s c channel true
      .ok s) s

def psubscribeCommand (s : Server K) (c : ClientId) (patterns : List K) : Server K :=
  patterns.foldl (fun s pattern => pubsubSubscribePattern s c pattern) s

def punsubscribeCommand (s : Server K) (c : ClientId) (patterns : List K) :
    Except Fault (Server K) := do
  if patterns.length = 0 then do
    let (s, _) ← pubsubUnsubscribeAllPatterns s c true
    .ok s
  else
    patterns.foldlM (fun s pattern => do
      let (s, _) ← pubsubUnsubscribePattern s c pattern true
      .ok s) s

def freeClient (s : Server K) (c : ClientId) (order : List K) : Except Fault (Server K) := do
  let (s, _) ← pubsubUnsubscribeAllChannels s c order false
  let (s, _) ← pubsubUnsubscribeAllPatterns s c false
  .ok { s with clients := s.clients.erase c }

inductive Event (K : Type) where
  | connect (c : ClientId)
  | disconnect (c : ClientId) (order : List K)
  | subscribe (c : ClientId) (channels : List K)
  | unsubscribe (c : ClientId) (channels order : List K)
  | psubscribe (c : ClientId) (patterns : List K)
  | punsubscribe (c : ClientId) (patterns : List K)
  | publish (c : ClientId) (channel message : K)

/-- Events that can happen: a client that connects is a new one, all others are connected. -/
def Possible (s : Server K) : Event K → Prop
  | .connect c => c ∉ s.clients
  | .disconnect c _ | .subscribe c _ | .unsubscribe c _ _ | .psubscribe c _ | .punsubscribe c _
  | .publish c _ _ => c ∈ s.clients

instance (s : Server K) : ∀ e, Decidable (Possible s e)
  | .connect c => inferInstanceAs (Decidable (c ∉ s.clients))
  | .disconnect c _ | .subscribe c _ | .unsubscribe c _ _ | .psubscribe c _ | .punsubscribe c _
  | .publish c _ _ => inferInstanceAs (Decidable (c ∈ s.clients))

/-- What an event does. -/
def process (stringmatch : K → K → Bool) (s : Server K) : Event K → Except Fault (Server K)
  | .connect c => .ok { s.setClient c createClient with clients := s.clients ++ [c] }
  | .disconnect c order => freeClient s c order
  | .subscribe c channels => .ok (subscribeCommand s c channels)
  | .unsubscribe c channels order => unsubscribeCommand s c channels order
  | .psubscribe c patterns => .ok (psubscribeCommand s c patterns)
  | .punsubscribe c patterns => punsubscribeCommand s c patterns
  | .publish c channel message => .ok (publishCommand stringmatch s c channel message)

/-- A step of a run; a failure ends the run. -/
def step (stringmatch : K → K → Bool) (s : Server K) (e : Event K) : Option (Server K) :=
  if Possible s e then (process stringmatch s e).toOption else none

end

end PubSub
