/-
Publish and subscribe, over whole runs.

* `told`, `Told` — the subscriptions as the replies tell them, with their number;
* `publishCommand_delivers` — `PUBLISH` sends what each client subscribed to, and replies with
  the total;
* `process_ensures`, `run_pubsub` — every event keeps all this, and none fails.
-/
import Mathlib.Algebra.BigOperators.Group.List.Basic
import Mathlib.Algebra.Ring.Nat
import RedisModel.PubSubIndex
import RedisModel.Runs

open Except Runs

namespace PubSub

variable {K : Type} {s s' : Server K} {c d : ClientId}

/-- The number in a reply to a change of subscriptions. -/
def Reply.count : Reply K → Option ℕ
  | .subscribe _ n | .unsubscribe _ n | .psubscribe _ n | .punsubscribe _ n => some n
  | .message _ _ | .pmessage _ _ _ | .integer _ => none

/-- Write replies to a client. -/
def Client.send (client : Client K) (replies : List (Reply K)) : Client K :=
  { client with replies := client.replies ++ replies }

theorem addReply_client (s : Server K) (c : ClientId) (r : Reply K) :
    (addReply s c r).client = Function.update s.client c ((s.client c).send [r]) := rfl

section
variable [DecidableEq K]

/-! ### What replies tell -/

/-- Channels and patterns after one more reply. -/
def acknowledge (own : List K × List K) : Reply K → List K × List K
  | .subscribe channel _ => (if channel ∈ own.1 then own.1 else own.1 ++ [channel], own.2)
  | .unsubscribe (some channel) _ => (own.1.erase channel, own.2)
  | .psubscribe pattern _ => (own.1, if pattern ∈ own.2 then own.2 else own.2 ++ [pattern])
  | .punsubscribe (some pattern) _ => (own.1, own.2.erase pattern)
  | .unsubscribe none _ | .punsubscribe none _ | .message _ _ | .pmessage _ _ _ | .integer _ => own

/-- Channels and patterns, as the replies tell them. -/
def told (replies : List (Reply K)) : List K × List K :=
  replies.foldl acknowledge ([], [])

/-- The replies tell the subscriptions of a client; each carries their number at that time. -/
structure Told (client : Client K) : Prop where
  own : told client.replies = (client.pubsubChannels, client.pubsubPatterns)
  count : ∀ before r after, client.replies = before ++ r :: after → ∀ n, r.count = some n →
    n = (told (before ++ [r])).1.length + (told (before ++ [r])).2.length

theorem told_append (replies replies' : List (Reply K)) :
    told (replies ++ replies') = replies'.foldl acknowledge (told replies) :=
  List.foldl_append

theorem createClient_told : Told (createClient : Client K) :=
  ⟨rfl, fun before _ _ h => absurd h.symm (by simp [createClient])⟩

theorem Told.reply {client client' : Client K} (h : Told client) {r : Reply K}
    (hreplies : client'.replies = client.replies ++ [r])
    (hown : acknowledge (client.pubsubChannels, client.pubsubPatterns) r
      = (client'.pubsubChannels, client'.pubsubPatterns))
    (hcount : ∀ n, r.count = some n → n = client'.subscriptions) : Told client' := by
  have htold : told (client.replies ++ [r])
      = (client'.pubsubChannels, client'.pubsubPatterns) := by
    rw [told_append, h.own]
    exact hown
  refine ⟨hreplies ▸ htold, fun before r' after hsplit n hn => ?_⟩
  rw [hreplies] at hsplit
  -- the reply is an old one or the one that was added
  rcases List.eq_nil_or_concat' after with rfl | ⟨after, last, rfl⟩
  · obtain ⟨rfl, hr⟩ := List.append_inj' hsplit rfl
    obtain rfl := (List.cons.inj hr).1
    rw [htold]
    exact hcount n hn
  · rw [← List.cons_append, ← List.append_assoc] at hsplit
    obtain ⟨hold, -⟩ := List.append_inj' hsplit rfl
    exact h.count before r' after hold n hn

theorem Told.answer {client client' : Client K} (h : Told client) {r : ℕ → Reply K}
    (hreplies : client'.replies = client.replies)
    (hown : ∀ n, acknowledge (client.pubsubChannels, client.pubsubPatterns) (r n)
      = (client'.pubsubChannels, client'.pubsubPatterns))
    (hcount : ∀ n, (r n).count = some n) : Told (client'.answer r) := by
  refine h.reply (r := r client'.subscriptions) ?_ (hown _) fun n hn => ?_
  · rw [Client.answer, hreplies]
  · rw [hcount] at hn
    exact (Option.some_inj.mp hn).symm

theorem Told.addChannel {client : Client K} (h : Told client) (channel : K) :
    Told ((client.addChannel channel).answer (.subscribe channel)) := by
  refine h.answer ?_ (fun n => ?_) fun n => rfl
  · rw [Client.addChannel]
    split <;> rfl
  · rw [acknowledge, Client.addChannel]
    split <;> rfl

theorem Told.dropChannel {client : Client K} (h : Told client) (channel : K) :
    Told ((client.dropChannel channel).answer (.unsubscribe (some channel))) :=
  h.answer rfl (fun _ => rfl) fun _ => rfl

theorem Told.addPattern {client : Client K} (h : Told client) (pattern : K) :
    Told ((client.addPattern pattern).answer (.psubscribe pattern)) := by
  refine h.answer ?_ (fun n => ?_) fun n => rfl
  · rw [Client.addPattern]
    split <;> rfl
  · rw [acknowledge, Client.addPattern]
    split <;> rfl

theorem Told.dropPattern {client : Client K} (h : Told client) (pattern : K) :
    Told ((client.dropPattern pattern).answer (.punsubscribe (some pattern))) :=
  h.answer rfl (fun _ => rfl) fun _ => rfl

theorem Told.send {client : Client K} (h : Told client) {replies : List (Reply K)}
    (hother : ∀ r ∈ replies, r.count = none) : Told (client.send replies) := by
  induction replies generalizing client with
  | nil => simpa [Client.send] using h
  | cons r replies ih =>
    obtain ⟨hr, hreplies⟩ := List.forall_mem_cons.mp hother
    have hsend : client.send (r :: replies) = (client.send [r]).send replies := by
      simp [Client.send]
    rw [hsend]
    refine ih (h.reply (r := r) rfl ?_ fun n hn => ?_) hreplies
    · cases r with
      | message _ _ | pmessage _ _ _ | integer _ => rfl
      | subscribe _ _ | unsubscribe _ _ | psubscribe _ _ | punsubscribe _ _ => cases hr
    · rw [hr] at hn
      cases hn

/-! ### Messages -/

/-- What a client receives of a message. -/
def Client.deliveries (client : Client K) (stringmatch : K → K → Bool) (channel message : K) :
    List (Reply K) :=
  (if channel ∈ client.pubsubChannels then [.message channel message] else []) ++
    (client.pubsubPatterns.filter fun pattern => stringmatch pattern channel).map
      fun pattern => .pmessage pattern channel message

/-- The number of receivers that `PUBLISH` has to return. -/
def Server.receivers (s : Server K) (stringmatch : K → K → Bool) (channel message : K) : ℕ :=
  (s.clients.map fun c => ((s.client c).deliveries stringmatch channel message).length).sum

end

/-- One delivery. -/
def deliver (p : Server K × ℕ) (m : ClientId × Reply K) : Server K × ℕ :=
  (addReply p.1 m.1 m.2, p.2 + 1)

theorem foldl_deliver (ms : List (ClientId × Reply K)) (s : Server K) (n : ℕ) :
    SameIndex s (ms.foldl deliver (s, n)).1 ∧
      (∀ d, (ms.foldl deliver (s, n)).1.client d
        = (s.client d).send ((ms.filter fun m => m.1 = d).map Prod.snd)) ∧
      (ms.foldl deliver (s, n)).2 = n + ms.length := by
  induction ms generalizing s n with
  | nil => exact ⟨.refl s, fun d => by simp [Client.send], rfl⟩
  | cons m ms ih =>
    rw [List.foldl_cons, deliver]
    obtain ⟨hsame, hclient, hn⟩ := ih (addReply s m.1 m.2) (n + 1)
    refine ⟨(addReply_sameIndex s m.1 m.2).trans hsame, fun d => ?_, ?_⟩
    · rw [hclient d, addReply_client]
      by_cases hd : m.1 = d
      · subst hd
        simp [Client.send]
      · rw [Function.update_of_ne (Ne.symm hd), List.filter_cons_of_neg (by simpa using hd)]
    · rw [hn, List.length_cons]
      omega

theorem sum_ite_eq_count (cs : List ClientId) (d : ClientId) :
    (cs.map fun c => if c = d then 1 else 0).sum = cs.count d := by
  induction cs with
  | nil => rfl
  | cons c cs ih =>
    rw [List.map_cons, List.sum_cons, ih, List.count_cons, Nat.add_comm]
    simp

theorem sum_length_filter {cs : List ClientId} (hnodup : cs.Nodup)
    (ms : List (ClientId × Reply K)) (hmem : ∀ m ∈ ms, m.1 ∈ cs) :
    (cs.map fun c => ((ms.filter fun m => m.1 = c).map Prod.snd).length).sum = ms.length := by
  induction ms with
  | nil => simp
  | cons m ms ih =>
    obtain ⟨hm, hms⟩ := List.forall_mem_cons.mp hmem
    -- the first message counts for exactly one client
    have hone : (cs.map fun c => if c = m.1 then 1 else 0).sum = 1 := by
      rw [sum_ite_eq_count, List.count_eq_one_of_mem hnodup hm]
    have hsplit : ∀ c, (((m :: ms).filter fun m => m.1 = c).map Prod.snd).length
        = (if c = m.1 then 1 else 0) + ((ms.filter fun m => m.1 = c).map Prod.snd).length := by
      intro c
      by_cases hc : c = m.1
      · simp [hc, Nat.add_comm]
      · simp [hc, Ne.symm hc]
    simp only [hsplit]
    rw [List.sum_map_add, hone, ih hms, List.length_cons, Nat.add_comm]

section
variable [DecidableEq K] {stringmatch : K → K → Bool}

/-- The messages of a `PUBLISH`, in the order in which they are sent. -/
def Server.messages (s : Server K) (stringmatch : K → K → Bool) (channel message : K) :
    List (ClientId × Reply K) :=
  (s.subscribers channel).map (fun c => (c, .message channel message)) ++
    (s.pubsubPatterns.filter fun pat => stringmatch pat.2 channel).map
      fun pat => (pat.1, .pmessage pat.2 channel message)

omit [DecidableEq K] in
theorem pubsubPublishMessage_eq [DecidableEq K] (s : Server K) (channel message : K) :
    pubsubPublishMessage stringmatch s channel message
      = (s.messages stringmatch channel message).foldl deliver (s, 0) := by
  rw [pubsubPublishMessage, Server.messages, List.foldl_append, List.foldl_map, List.foldl_map,
    List.foldl_filter, Server.subscribers]
  cases s.pubsubChannels channel <;> rfl

theorem Agrees.filter_messages (h : Agrees s) (channel message : K) (d : ClientId) :
    ((s.messages stringmatch channel message).filter fun m => m.1 = d).map Prod.snd
      = (s.client d).deliveries stringmatch channel message := by
  rw [Server.messages, List.filter_append, List.map_append, Client.deliveries]
  congr 1
  · -- the client is in the list of the channel once, or it did not subscribe
    have hrep : ((s.subscribers channel).map fun c => (c, Reply.message channel message)).filter
        (fun m => m.1 = d) = List.replicate ((s.subscribers channel).count d)
          (d, .message channel message) := by
      rw [List.filter_map, ← List.map_replicate (f := fun c => (c, Reply.message channel message)),
        ← List.filter_eq]
      rfl
    rw [hrep, h.count_subscribers]
    split <;> rfl
  · rw [← h.patterns d]
    induction s.pubsubPatterns with
    | nil => rfl
    | cons pat l ih =>
      by_cases hd : pat.1 = d <;> by_cases hmatch : stringmatch pat.2 channel = true <;>
        simp [hd, hmatch, ih]

theorem Agrees.mem_clients (h : Agrees s)
    (hc : (s.client c).pubsubChannels ≠ [] ∨ (s.client c).pubsubPatterns ≠ []) :
    c ∈ s.clients := by
  by_contra hnot
  obtain ⟨hchannels, hpatterns⟩ := h.not_connected c hnot
  exact hc.elim (absurd hchannels) (absurd hpatterns)

theorem Agrees.mem_clients_of_messages (h : Agrees s) (channel message : K) :
    ∀ m ∈ s.messages stringmatch channel message, m.1 ∈ s.clients := by
  intro m hm
  rw [Server.messages, List.mem_append, List.mem_map, List.mem_map] at hm
  rcases hm with ⟨c, hc, rfl⟩ | ⟨pat, hpat, rfl⟩
  · exact h.mem_clients (.inl (List.ne_nil_of_mem (h.mem_subscribers.mp hc)))
  · have hmem : (pat.1, pat.2) ∈ s.pubsubPatterns := (List.mem_filter.mp hpat).1
    exact h.mem_clients (.inr (List.ne_nil_of_mem (h.mem_patterns.mp hmem)))

theorem Agrees.length_messages (h : Agrees s) (channel message : K) :
    (s.messages stringmatch channel message).length
      = s.receivers stringmatch channel message := by
  rw [← sum_length_filter h.clients_nodup _ (h.mem_clients_of_messages channel message),
    Server.receivers]
  simp only [h.filter_messages channel message]

theorem publishCommand_delivers (h : Agrees s) (c : ClientId) (channel message : K) (d : ClientId) :
    (publishCommand stringmatch s c channel message).client d
      = (s.client d).send ((s.client d).deliveries stringmatch channel message ++
          if d = c then [.integer (s.receivers stringmatch channel message)] else []) := by
  obtain ⟨-, hclient, hn⟩ := foldl_deliver (s.messages stringmatch channel message) s 0
  rw [publishCommand, pubsubPublishMessage_eq, addReply_client]
  rw [hn, Nat.zero_add, h.length_messages]
  by_cases hd : d = c
  · subst hd
    rw [Function.update_self, hclient, h.filter_messages]
    simp [Client.send]
  · rw [Function.update_of_ne hd, hclient, h.filter_messages, if_neg hd, List.append_nil]

theorem publishCommand_sameIndex (s : Server K) (c : ClientId) (channel message : K) :
    SameIndex s (publishCommand stringmatch s c channel message) := by
  rw [publishCommand, pubsubPublishMessage_eq]
  exact (foldl_deliver _ s 0).1.trans (addReply_sameIndex ..)

theorem deliveries_count (client : Client K) (channel message : K) :
    ∀ r ∈ client.deliveries stringmatch channel message, r.count = none := by
  intro r hr
  rw [Client.deliveries, List.mem_append, List.mem_map] at hr
  rcases hr with hr | ⟨pattern, -, rfl⟩
  · split at hr
    · rw [List.mem_singleton.mp hr]
      rfl
    · cases hr
  · rfl

/-! ### Runs -/

/-- The indexes agree, and all clients know their subscriptions. -/
structure Good (s : Server K) : Prop where
  agrees : Agrees s
  told : ∀ c ∈ s.clients, Told (s.client c)

theorem initServer_good : Good (initServer : Server K) :=
  ⟨initServer_agrees, fun _ hc => absurd hc List.not_mem_nil⟩

theorem Good.writes {client : Client K} (h : Good s) (hwrites : Writes s s' c client)
    (htold : Told client) : Good s' := by
  refine ⟨hwrites.agrees, fun d hd => ?_⟩
  by_cases hdc : d = c
  · subst hdc
    rw [hwrites.self]
    exact htold
  · rw [hwrites.client, Function.update_of_ne hdc]
    exact h.told d (hwrites.clients ▸ hd)

theorem Agrees.setClients (h : Agrees s) {cs : List ClientId} (hnodup : cs.Nodup)
    (hcs : ∀ c, c ∉ cs → (s.client c).pubsubChannels = [] ∧ (s.client c).pubsubPatterns = []) :
    Agrees { s with clients := cs } where
  clients_nodup := hnodup
  channels_nodup := h.channels_nodup
  patterns_nodup := h.patterns_nodup
  count_subscribers := h.count_subscribers
  ne_nil := h.ne_nil
  patterns := h.patterns
  not_connected := hcs

theorem Good.connect (h : Good s) (hc : c ∉ s.clients) :
    Good { s.setClient c createClient with clients := s.clients ++ [c] } := by
  -- who was not connected had no subscriptions before
  obtain ⟨hchannels, hpatterns⟩ := h.agrees.not_connected c hc
  have hsame : SameIndex s (s.setClient c createClient) := by
    refine ⟨rfl, rfl, rfl, fun d => ?_, fun d => ?_⟩
    · by_cases hd : d = c
      · subst hd
        rw [setClient_self, hchannels]
        rfl
      · rw [setClient_of_ne hd]
    · by_cases hd : d = c
      · subst hd
        rw [setClient_self, hpatterns]
        rfl
      · rw [setClient_of_ne hd]
  have hagrees := h.agrees.sameIndex hsame
  refine ⟨hagrees.setClients ?_ fun d hd => ?_, fun d hd => ?_⟩
  · exact h.agrees.clients_nodup.append (List.nodup_singleton c) (by simpa using hc)
  · rw [List.mem_append, not_or] at hd
    exact hagrees.not_connected d hd.1
  · by_cases hdc : d = c
    · subst hdc
      rw [setClient_self]
      exact createClient_told
    · rw [setClient_of_ne hdc]
      refine h.told d ((List.mem_append.mp hd).resolve_right fun hd => ?_)
      exact hdc (List.mem_singleton.mp hd)

theorem Good.subscribeCommand (h : Good s) (hc : c ∈ s.clients) (channels : List K) :
    Good (subscribeCommand s c channels) := by
  rw [PubSub.subscribeCommand]
  induction channels generalizing s with
  | nil => exact h
  | cons channel channels ih =>
    have hwrites := pubsubSubscribeChannel_writes h.agrees hc channel
    rw [List.foldl_cons]
    exact ih (h.writes hwrites ((h.told c hc).addChannel channel)) (hwrites.clients ▸ hc)

theorem Good.psubscribeCommand (h : Good s) (hc : c ∈ s.clients) (patterns : List K) :
    Good (psubscribeCommand s c patterns) := by
  rw [PubSub.psubscribeCommand]
  induction patterns generalizing s with
  | nil => exact h
  | cons pattern patterns ih =>
    have hwrites := pubsubSubscribePattern_writes h.agrees hc pattern
    rw [List.foldl_cons]
    exact ih (h.writes hwrites ((h.told c hc).addPattern pattern)) (hwrites.clients ▸ hc)

theorem Good.unsubscribeCommand (h : Good s) (hc : c ∈ s.clients) (channels order : List K) :
    (unsubscribeCommand s c channels order).Ensures (fun _ => False) Good := by
  rw [PubSub.unsubscribeCommand]
  split
  next =>
    refine (pubsubUnsubscribeAllChannels_ensures (I := Told) h.agrees c order true
      (fun client channel hclient => hclient.dropChannel channel) (fun _ client hclient =>
        hclient.answer rfl (fun _ => rfl) fun _ => rfl) (h.told c hc)).bind ?_
    rintro ⟨s', n⟩ ⟨hwrites, htold, -⟩
    exact h.writes hwrites htold
  next =>
    refine (Ensures.foldlM (I := fun s' => Good s' ∧ c ∈ s'.clients) (fun s' channel _ hs' => ?_)
      ⟨h, hc⟩).imp fun s' hs' => hs'.1
    obtain ⟨hgood, hmem⟩ := hs'
    refine (pubsubUnsubscribeChannel_ensures hgood.agrees c channel true).bind ?_
    rintro ⟨s'', n⟩ hwrites
    exact ⟨hgood.writes hwrites ((hgood.told c hmem).dropChannel channel),
      hwrites.clients ▸ hmem⟩

theorem Good.punsubscribeCommand (h : Good s) (hc : c ∈ s.clients) (patterns : List K) :
    (punsubscribeCommand s c patterns).Ensures (fun _ => False) Good := by
  rw [PubSub.punsubscribeCommand]
  split
  next =>
    refine (pubsubUnsubscribeAllPatterns_ensures (I := Told) h.agrees c true
      (fun client pattern hclient => hclient.dropPattern pattern) (fun _ client hclient =>
        hclient.answer rfl (fun _ => rfl) fun _ => rfl) (h.told c hc)).bind ?_
    rintro ⟨s', n⟩ ⟨hwrites, htold, -⟩
    exact h.writes hwrites htold
  next =>
    refine (Ensures.foldlM (I := fun s' => Good s' ∧ c ∈ s'.clients) (fun s' pattern _ hs' => ?_)
      ⟨h, hc⟩).imp fun s' hs' => hs'.1
    obtain ⟨hgood, hmem⟩ := hs'
    refine (pubsubUnsubscribePattern_ensures hgood.agrees c pattern true).bind ?_
    rintro ⟨s'', n⟩ hwrites
    exact ⟨hgood.writes hwrites ((hgood.told c hmem).dropPattern pattern),
      hwrites.clients ▸ hmem⟩

theorem Good.publishCommand (h : Good s) (c : ClientId) (channel message : K) :
    Good (publishCommand stringmatch s c channel message) := by
  refine ⟨h.agrees.sameIndex (publishCommand_sameIndex ..), fun d hd => ?_⟩
  rw [publishCommand_delivers h.agrees]
  rw [(publishCommand_sameIndex s c channel message).clients] at hd
  refine (h.told d hd).send fun r hr => ?_
  rcases List.mem_append.mp hr with hr | hr
  · exact deliveries_count _ channel message r hr
  · split at hr
    · rw [List.mem_singleton.mp hr]
      rfl
    · cases hr

theorem Good.freeClient (h : Good s) (c : ClientId) (order : List K) :
    (freeClient s c order).Ensures (fun _ => False) Good := by
  rw [PubSub.freeClient]
  refine (pubsubUnsubscribeAllChannels_ensures (I := fun _ => True) h.agrees c order false
    (fun _ _ _ => trivial) (fun hnotify => absurd hnotify Bool.false_ne_true) trivial).bind ?_
  rintro ⟨s₁, n₁⟩ ⟨hwrites₁, -, hchannels₁⟩
  -- the channels stay empty while the patterns go
  refine (pubsubUnsubscribeAllPatterns_ensures (I := fun client => client.pubsubChannels = [])
    hwrites₁.agrees c false (fun client pattern hclient => hclient)
    (fun hnotify => absurd hnotify Bool.false_ne_true) hchannels₁).bind ?_
  rintro ⟨s₂, n₂⟩ ⟨hwrites₂, hchannels, hpatterns⟩
  have hwrites : Writes s s₂ c (s₂.client c) := hwrites₁.trans hwrites₂
  have hnodup := h.agrees.clients_nodup
  refine ⟨hwrites.agrees.setClients ?_ fun d hd => ?_, fun d hd => ?_⟩
  · rw [hwrites.clients]
    exact hnodup.erase c
  · by_cases hdc : d = c
    · subst hdc
      exact ⟨hchannels, hpatterns⟩
    · rw [List.mem_erase_of_ne hdc] at hd
      exact hwrites.agrees.not_connected d hd
  · dsimp only at hd
    rw [hwrites.clients, hnodup.mem_erase_iff] at hd
    rw [hwrites.client, Function.update_of_ne hd.1]
    exact h.told d hd.2

/-- No event that is possible fails, and all keep the indexes and the replies in order. -/
theorem Good.process (h : Good s) {e : Event K} (hpossible : Possible s e) :
    (process stringmatch s e).Ensures (fun _ => False) Good := by
  cases e with
  | connect c => exact h.connect hpossible
  | disconnect c order => exact h.freeClient c order
  | subscribe c channels => exact h.subscribeCommand hpossible channels
  | unsubscribe c channels order => exact h.unsubscribeCommand hpossible channels order
  | psubscribe c patterns => exact h.psubscribeCommand hpossible patterns
  | punsubscribe c patterns => exact h.punsubscribeCommand hpossible patterns
  | publish c channel message => exact h.publishCommand c channel message

theorem Good.step (h : Good s) {e : Event K} (hstep : step stringmatch s e = some s') :
    Good s' := by
  rw [PubSub.step] at hstep
  split at hstep
  next hpossible => exact (h.process hpossible).of_eq_ok (toOption_eq_some.mp hstep)
  next => cases hstep

/-- In every run the indexes agree, the assertions do not fail, the replies carry the number
of subscriptions, and messages go to those who subscribed. -/
theorem run_pubsub {es : List (Event K)} (hrun : run (step stringmatch) initServer es = some s) :
    Agrees s ∧ (∀ c ∈ s.clients, Told (s.client c)) ∧
      (∀ e, Possible s e → ∃ s', process stringmatch s e = .ok s') ∧
      ∀ c ∈ s.clients, ∀ channel message, ∃ s',
        process stringmatch s (.publish c channel message) = .ok s' ∧
          ∀ d, s'.client d = (s.client d).send ((s.client d).deliveries stringmatch channel message ++
            if d = c then [.integer (s.receivers stringmatch channel message)] else []) := by
  have hgood : Good s := run_invariant (fun s e s' hs hstep => hs.step hstep) initServer_good hrun
  refine ⟨hgood.agrees, hgood.told, fun e hpossible => ?_, fun c _ channel message => ?_⟩
  · cases hprocess : process stringmatch s e with
    | ok s' => exact ⟨s', rfl⟩
    | error e => exact ((hgood.process hpossible).of_eq_error hprocess).elim
  · exact ⟨_, rfl, publishCommand_delivers hgood.agrees c channel message⟩

/-- Two clients with a channel and patterns in common; one of them subscribes twice, and one
leaves. -/
def twoSubscribers : List (Event Bool) :=
  [.connect 1, .connect 2, .subscribe 1 [true, true], .psubscribe 1 [true, false],
    .subscribe 2 [false, true], .unsubscribe 2 [] [], .disconnect 2 [], .connect 3]

theorem run_pubsub_twoSubscribers : ∃ s : Server Bool,
    run (step fun pattern channel => pattern == channel) initServer twoSubscribers = some s ∧
      s.receivers (fun pattern channel => pattern == channel) true false = 2 ∧ Agrees s := by
  have hrun : (run (step fun pattern channel => pattern == channel) (initServer (K := Bool))
      twoSubscribers).map (fun s => s.receivers (fun pattern channel => pattern == channel) true
        false) = some 2 := by decide
  obtain ⟨s, hs, hreceivers⟩ := Option.map_eq_some_iff.mp hrun
  exact ⟨s, hs, hreceivers, (run_pubsub hs).1⟩

end

end PubSub
