/-
The indexes of the server agree with the subscriptions of the clients.

* `Agrees` — a client is in the list of a channel iff it subscribed to it, and then once;
  the list of patterns has one pair for each pattern of each client;
* `pubsubSubscribeChannel_agrees`, …, `pubsubUnsubscribeAllPatterns_ensures` — every change
  of subscriptions keeps this, and no assertion fails.
-/
import RedisModel.PubSub

open Except

namespace PubSub

variable {K : Type} {s s' : Server K} {c d : ClientId}

@[simp] theorem setClient_clients (client : Client K) :
    (s.setClient c client).clients = s.clients := rfl

@[simp] theorem setClient_pubsubChannels (client : Client K) :
    (s.setClient c client).pubsubChannels = s.pubsubChannels := rfl

@[simp] theorem setClient_pubsubPatterns (client : Client K) :
    (s.setClient c client).pubsubPatterns = s.pubsubPatterns := rfl

@[simp] theorem setClient_self (client : Client K) : (s.setClient c client).client c = client :=
  Function.update_self ..

theorem setClient_of_ne (h : d ≠ c) (client : Client K) :
    (s.setClient c client).client d = s.client d :=
  Function.update_of_ne h ..

/-- The clients in the list of a channel. -/
def Server.subscribers (s : Server K) (channel : K) : List ClientId :=
  (s.pubsubChannels channel).getD []

/-! ### Replies do not change subscriptions -/

/-- The same subscriptions, but for the replies. -/
structure SameIndex (s s' : Server K) : Prop where
  clients : s'.clients = s.clients
  channels : s'.pubsubChannels = s.pubsubChannels
  patterns : s'.pubsubPatterns = s.pubsubPatterns
  clientChannels : ∀ d, (s'.client d).pubsubChannels = (s.client d).pubsubChannels
  clientPatterns : ∀ d, (s'.client d).pubsubPatterns = (s.client d).pubsubPatterns

theorem SameIndex.refl (s : Server K) : SameIndex s s :=
  ⟨rfl, rfl, rfl, fun _ => rfl, fun _ => rfl⟩

theorem SameIndex.trans {s'' : Server K} (h : SameIndex s s') (h' : SameIndex s' s'') :
    SameIndex s s'' where
  clients := h'.clients.trans h.clients
  channels := h'.channels.trans h.channels
  patterns := h'.patterns.trans h.patterns
  clientChannels d := (h'.clientChannels d).trans (h.clientChannels d)
  clientPatterns d := (h'.clientPatterns d).trans (h.clientPatterns d)

theorem addReply_sameIndex (s : Server K) (c : ClientId) (r : Reply K) :
    SameIndex s (addReply s c r) := by
  refine ⟨rfl, rfl, rfl, fun d => ?_, fun d => ?_⟩
  · by_cases hd : d = c
    · subst hd
      rw [addReply, setClient_self]
    · rw [addReply, setClient_of_ne hd]
  · by_cases hd : d = c
    · subst hd
      rw [addReply, setClient_self]
    · rw [addReply, setClient_of_ne hd]

variable [DecidableEq K]

/-- The indexes of the server and the subscriptions of the clients are one relation. -/
structure Agrees (s : Server K) : Prop where
  clients_nodup : s.clients.Nodup
  channels_nodup : ∀ c, (s.client c).pubsubChannels.Nodup
  patterns_nodup : ∀ c, (s.client c).pubsubPatterns.Nodup
  count_subscribers : ∀ channel c, (s.subscribers channel).count c
    = if channel ∈ (s.client c).pubsubChannels then 1 else 0
  ne_nil : ∀ channel, s.pubsubChannels channel ≠ some []
  patterns : ∀ c, (s.pubsubPatterns.filter fun pat => pat.1 = c).map Prod.snd
    = (s.client c).pubsubPatterns
  not_connected : ∀ c, c ∉ s.clients →
    (s.client c).pubsubChannels = [] ∧ (s.client c).pubsubPatterns = []

theorem Agrees.mem_subscribers (h : Agrees s) {channel : K} :
    c ∈ s.subscribers channel ↔ channel ∈ (s.client c).pubsubChannels := by
  rw [← List.count_pos_iff, h.count_subscribers]
  by_cases hmem : channel ∈ (s.client c).pubsubChannels <;> simp [hmem]

theorem Agrees.count_patterns (h : Agrees s) (c : ClientId) (pattern : K) :
    s.pubsubPatterns.count (c, pattern)
      = if pattern ∈ (s.client c).pubsubPatterns then 1 else 0 := by
  rw [← (h.patterns_nodup c).count, ← h.patterns c]
  induction s.pubsubPatterns with
  | nil => rfl
  | cons pat l ih =>
    obtain ⟨a, p⟩ := pat
    by_cases ha : a = c
    · by_cases hp : p = pattern <;> simp [ha, hp, ih]
    · simp [ha, ih]

theorem Agrees.mem_patterns (h : Agrees s) {pattern : K} :
    (c, pattern) ∈ s.pubsubPatterns ↔ pattern ∈ (s.client c).pubsubPatterns := by
  rw [← List.count_pos_iff, h.count_patterns]
  by_cases hmem : pattern ∈ (s.client c).pubsubPatterns <;> simp [hmem]

theorem Agrees.sameIndex (h : Agrees s) (hsame : SameIndex s s') : Agrees s' where
  clients_nodup := hsame.clients ▸ h.clients_nodup
  channels_nodup c := hsame.clientChannels c ▸ h.channels_nodup c
  patterns_nodup c := hsame.clientPatterns c ▸ h.patterns_nodup c
  count_subscribers channel c := by
    rw [Server.subscribers, hsame.channels, hsame.clientChannels]
    exact h.count_subscribers channel c
  ne_nil := hsame.channels ▸ h.ne_nil
  patterns c := by
    rw [hsame.patterns, hsame.clientPatterns]
    exact h.patterns c
  not_connected c hc := by
    rw [hsame.clients] at hc
    rw [hsame.clientChannels, hsame.clientPatterns]
    exact h.not_connected c hc

theorem Agrees.addReply (h : Agrees s) (c : ClientId) (r : Reply K) : Agrees (addReply s c r) :=
  h.sameIndex (addReply_sameIndex s c r)

theorem initServer_agrees : Agrees (initServer : Server K) where
  clients_nodup := List.nodup_nil
  channels_nodup _ := List.nodup_nil
  patterns_nodup _ := List.nodup_nil
  count_subscribers _ _ := rfl
  ne_nil _ := (Option.some_ne_none _).symm
  patterns _ := rfl
  not_connected _ _ := ⟨rfl, rfl⟩

/-! ### Channels -/

theorem Agrees.setChannel (h : Agrees s) {channel : K} {channels : List K}
    {clients : Option (List ClientId)} (hc : channels ≠ [] → c ∈ s.clients)
    (hnodup : channels.Nodup)
    (hother : ∀ k ≠ channel, k ∈ channels ↔ k ∈ (s.client c).pubsubChannels)
    (hself : (clients.getD []).count c = if channel ∈ channels then 1 else 0)
    (hcount : ∀ d ≠ c, (clients.getD []).count d = (s.subscribers channel).count d)
    (hne : clients ≠ some []) :
    Agrees { s.setClient c { s.client c with pubsubChannels := channels } with
      pubsubChannels := Function.update s.pubsubChannels channel clients } where
  clients_nodup := h.clients_nodup
  channels_nodup d := by
    by_cases hd : d = c
    · subst hd
      simpa using hnodup
    · simpa only [setClient_of_ne hd] using h.channels_nodup d
  patterns_nodup d := by
    by_cases hd : d = c
    · subst hd
      simpa using h.patterns_nodup d
    · simpa only [setClient_of_ne hd] using h.patterns_nodup d
  count_subscribers k d := by
    have hold := h.count_subscribers k d
    by_cases hk : k = channel
    · subst hk
      simp only [Server.subscribers, Function.update_self]
      by_cases hd : d = c
      · subst hd
        simpa using hself
      · rw [hcount d hd, setClient_of_ne hd]
        exact hold
    · simp only [Server.subscribers, Function.update_of_ne hk]
      by_cases hd : d = c
      · subst hd
        rw [setClient_self]
        simp only [hother k hk]
        exact hold
      · rw [setClient_of_ne hd]
        exact hold
  ne_nil k := by
    by_cases hk : k = channel
    · subst hk
      simpa using hne
    · simpa only [Function.update_of_ne hk] using h.ne_nil k
  patterns d := by
    by_cases hd : d = c
    · subst hd
      simpa using h.patterns d
    · rw [setClient_of_ne hd]
      exact h.patterns d
  not_connected d hd := by
    by_cases hdc : d = c
    · subst hdc
      have hnil : channels = [] := by
        by_contra hne
        exact hd (hc hne)
      simpa [hnil] using (h.not_connected d hd).2
    · simpa only [setClient_of_ne hdc] using h.not_connected d hd

/-- Reply with the number of subscriptions. -/
def Client.answer (client : Client K) (r : ℕ → Reply K) : Client K :=
  { client with replies := client.replies ++ [r client.subscriptions] }

/-- One client was changed, and the indexes still agree. -/
structure Writes (s s' : Server K) (c : ClientId) (client : Client K) : Prop where
  agrees : Agrees s'
  clients : s'.clients = s.clients
  client : s'.client = Function.update s.client c client

theorem Writes.refl (h : Agrees s) (c : ClientId) : Writes s s c (s.client c) :=
  ⟨h, rfl, (Function.update_eq_self ..).symm⟩

theorem Writes.self {client : Client K} (h : Writes s s' c client) : s'.client c = client := by
  rw [h.client, Function.update_self]

theorem Writes.trans {s'' : Server K} {client client' : Client K} (h : Writes s s' c client)
    (h' : Writes s' s'' c client') : Writes s s'' c client' := by
  refine ⟨h'.agrees, h'.clients.trans h.clients, ?_⟩
  rw [h'.client, h.client, Function.update_idem]

theorem Writes.addReply {client : Client K} (h : Writes s s' c client) (r : ℕ → Reply K) :
    Writes s (addReply s' c (r (s'.client c).subscriptions)) c (client.answer r) := by
  refine ⟨h.agrees.addReply .., h.clients, ?_⟩
  rw [PubSub.addReply, Server.setClient, h.self, h.client, Function.update_idem]
  rfl

/-- Subscribe to a channel. -/
def Client.addChannel (client : Client K) (channel : K) : Client K :=
  if channel ∈ client.pubsubChannels then client
  else { client with pubsubChannels := client.pubsubChannels ++ [channel] }

theorem pubsubSubscribeChannel_writes (h : Agrees s) (hc : c ∈ s.clients) (channel : K) :
    Writes s (pubsubSubscribeChannel s c channel) c
      (((s.client c).addChannel channel).answer (.subscribe channel)) := by
  rw [pubsubSubscribeChannel, Client.addChannel]
  refine Writes.addReply ?_ _
  split
  next => exact .refl h c
  next hnew =>
    have hcount := h.count_subscribers channel c
    rw [if_neg hnew] at hcount
    refine ⟨?_, rfl, rfl⟩
    refine h.setChannel (fun _ => hc) ?_ (fun k hk => ?_) ?_ (fun d hd => ?_) ?_
    · exact (h.channels_nodup c).append (List.nodup_singleton _) (by simpa using hnew)
    · simp [hk]
    · simpa [Server.subscribers] using hcount
    · simp [Server.subscribers, Ne.symm hd]
    · simp

/-- Unsubscribe from a channel. -/
def Client.dropChannel (client : Client K) (channel : K) : Client K :=
  { client with pubsubChannels := client.pubsubChannels.erase channel }

theorem removeClient_ensures (h : Agrees s) {channel : K}
    (hmem : channel ∈ (s.client c).pubsubChannels) :
    (removeClient (s.setClient c ((s.client c).dropChannel channel)) c channel).Ensures
      (fun _ => False) fun s' => Writes s s' c ((s.client c).dropChannel channel) := by
  have hin := h.mem_subscribers.mpr hmem
  rw [removeClient, setClient_pubsubChannels]
  cases hclients : s.pubsubChannels channel with
  | none =>
    rw [Server.subscribers, hclients] at hin
    exact absurd hin List.not_mem_nil
  | some clients =>
    have hsub : s.subscribers channel = clients := by rw [Server.subscribers, hclients]; rfl
    rw [hsub] at hin
    dsimp only
    rw [if_neg (not_not.mpr hin)]
    have hcount := h.count_subscribers channel c
    rw [hsub, if_pos hmem] at hcount
    have hget : (if (clients.erase c).length = 0 then none else some (clients.erase c)).getD []
        = clients.erase c := by
      split
      next hnil => exact (List.eq_nil_of_length_eq_zero hnil).symm
      next => rfl
    refine ⟨?_, rfl, rfl⟩
    refine h.setChannel (fun _ => ?_) ?_ (fun k hk => ?_) ?_ (fun d hd => ?_) ?_
    · by_contra hnot
      rw [(h.not_connected c hnot).1] at hmem
      exact List.not_mem_nil hmem
    · exact (h.channels_nodup c).erase channel
    · exact List.mem_erase_of_ne hk
    · rw [hget, List.count_erase_self, hcount, if_neg]
      exact (h.channels_nodup c).not_mem_erase
    · rw [hget, List.count_erase_of_ne hd, hsub]
    · split
      next => exact (Option.some_ne_none _).symm
      next hlen =>
        intro heq
        rw [Option.some_inj.mp heq] at hlen
        exact hlen rfl

/-- The reply of an unsubscription, if there is one. -/
def Client.notified (client : Client K) (notify : Bool) (r : ℕ → Reply K) : Client K :=
  if notify then client.answer r else client

theorem Writes.notified {client : Client K} (h : Writes s s' c client) (notify : Bool)
    (r : ℕ → Reply K) :
    Writes s (if notify then PubSub.addReply s' c (r (s'.client c).subscriptions) else s') c
      (client.notified notify r) := by
  cases notify with
  | true => exact h.addReply r
  | false => exact h

/-- The assertions of `pubsubUnsubscribeChannel` do not fail. -/
theorem pubsubUnsubscribeChannel_ensures (h : Agrees s) (c : ClientId) (channel : K)
    (notify : Bool) :
    (pubsubUnsubscribeChannel s c channel notify).Ensures (fun _ => False) fun p =>
      Writes s p.1 c (((s.client c).dropChannel channel).notified notify
        (.unsubscribe (some channel))) := by
  rw [pubsubUnsubscribeChannel]
  refine Ensures.bind (Q := fun p => Writes s p.1 c ((s.client c).dropChannel channel)) ?_
    ?_
  swap
  · rintro ⟨s', n⟩ hs'
    have hwrites : Writes s s' c _ := hs'
    exact hwrites.notified notify (.unsubscribe (some channel))
  split
  next hmem =>
    refine (removeClient_ensures h hmem).bind fun s' hs' => ?_
    exact hs'
  next hnot =>
    rw [Client.dropChannel, List.erase_of_not_mem hnot]
    exact .refl h c

/-! ### Patterns -/

theorem Agrees.setPatterns (h : Agrees s) {clientPatterns : List K}
    {patterns : List (ClientId × K)} (hc : clientPatterns ≠ [] → c ∈ s.clients)
    (hnodup : clientPatterns.Nodup)
    (hself : (patterns.filter fun pat => pat.1 = c).map Prod.snd = clientPatterns)
    (hother : ∀ d ≠ c, (patterns.filter fun pat => pat.1 = d)
      = s.pubsubPatterns.filter fun pat => pat.1 = d) :
    Agrees { s.setClient c { s.client c with pubsubPatterns := clientPatterns } with
      pubsubPatterns := patterns } where
  clients_nodup := h.clients_nodup
  channels_nodup d := by
    by_cases hd : d = c
    · subst hd
      simpa using h.channels_nodup d
    · simpa only [setClient_of_ne hd] using h.channels_nodup d
  patterns_nodup d := by
    by_cases hd : d = c
    · subst hd
      simpa using hnodup
    · simpa only [setClient_of_ne hd] using h.patterns_nodup d
  count_subscribers k d := by
    have hold := h.count_subscribers k d
    by_cases hd : d = c
    · subst hd
      rw [setClient_self]
      exact hold
    · rw [setClient_of_ne hd]
      exact hold
  ne_nil := h.ne_nil
  patterns d := by
    by_cases hd : d = c
    · subst hd
      simpa using hself
    · rw [setClient_of_ne hd, hother d hd]
      exact h.patterns d
  not_connected d hd := by
    by_cases hdc : d = c
    · subst hdc
      have hnil : clientPatterns = [] := by
        by_contra hne
        exact hd (hc hne)
      simpa [hnil] using (h.not_connected d hd).1
    · simpa only [setClient_of_ne hdc] using h.not_connected d hd

/-- Subscribe to a pattern. -/
def Client.addPattern (client : Client K) (pattern : K) : Client K :=
  if pattern ∈ client.pubsubPatterns then client
  else { client with pubsubPatterns := client.pubsubPatterns ++ [pattern] }

theorem pubsubSubscribePattern_writes (h : Agrees s) (hc : c ∈ s.clients) (pattern : K) :
    Writes s (pubsubSubscribePattern s c pattern) c
      (((s.client c).addPattern pattern).answer (.psubscribe pattern)) := by
  rw [pubsubSubscribePattern, Client.addPattern]
  refine Writes.addReply ?_ _
  split
  next => exact .refl h c
  next hnew =>
    refine ⟨?_, rfl, rfl⟩
    refine h.setPatterns (fun _ => hc) ?_ ?_ (fun d hd => ?_)
    · exact (h.patterns_nodup c).append (List.nodup_singleton _) (by simpa using hnew)
    · rw [List.filter_append, List.map_append, h.patterns c]
      simp
    · simp [List.filter_append, Ne.symm hd]

/-- Unsubscribe from a pattern. -/
def Client.dropPattern (client : Client K) (pattern : K) : Client K :=
  { client with pubsubPatterns := client.pubsubPatterns.erase pattern }

theorem map_filter_erase (l : List (ClientId × K)) (c : ClientId) (pattern : K) :
    ((l.erase (c, pattern)).filter fun pat => pat.1 = c).map Prod.snd
      = ((l.filter fun pat => pat.1 = c).map Prod.snd).erase pattern := by
  induction l with
  | nil => rfl
  | cons pat l ih =>
    obtain ⟨a, p⟩ := pat
    by_cases ha : a = c
    · by_cases hp : p = pattern <;> simp [ha, hp, ih]
    · simp [ha, ih]

theorem filter_erase_of_ne (l : List (ClientId × K)) (h : d ≠ c) (pattern : K) :
    ((l.erase (c, pattern)).filter fun pat => pat.1 = d) = l.filter fun pat => pat.1 = d := by
  induction l with
  | nil => rfl
  | cons pat l ih =>
    by_cases hpat : pat = (c, pattern)
    · subst hpat
      simp [Ne.symm h]
    · rw [List.erase_cons_tail (by simpa using hpat), List.filter_cons, List.filter_cons, ih]

theorem pubsubUnsubscribePattern_ensures (h : Agrees s) (c : ClientId) (pattern : K)
    (notify : Bool) :
    (pubsubUnsubscribePattern s c pattern notify).Ensures (fun _ => False) fun p =>
      Writes s p.1 c (((s.client c).dropPattern pattern).notified notify
        (.punsubscribe (some pattern))) := by
  rw [pubsubUnsubscribePattern]
  refine Ensures.bind (Q := fun p => Writes s p.1 c ((s.client c).dropPattern pattern)) ?_
    ?_
  swap
  · rintro ⟨s', n⟩ hs'
    have hwrites : Writes s s' c _ := hs'
    exact hwrites.notified notify (.punsubscribe (some pattern))
  split
  next hmem =>
    rw [if_neg (not_not.mpr (h.mem_patterns.mpr hmem))]
    refine ⟨?_, rfl, rfl⟩
    refine h.setPatterns (fun _ => ?_) ?_ ?_ (fun d hd => filter_erase_of_ne _ hd _)
    · by_contra hnot
      rw [(h.not_connected c hnot).2] at hmem
      exact List.not_mem_nil hmem
    · exact (h.patterns_nodup c).erase pattern
    · rw [map_filter_erase, h.patterns c]
  next hnot =>
    rw [Client.dropPattern, List.erase_of_not_mem hnot]
    exact .refl h c

/-! ### All channels, all patterns -/

theorem mem_iterate {order keys : List K} {k : K} : k ∈ iterate order keys ↔ k ∈ keys := by
  rw [iterate, List.mem_append, List.mem_filter, List.mem_filter, List.mem_dedup]
  by_cases hk : k ∈ order <;> simp [hk]

omit [DecidableEq K] in
theorem notified_pubsubChannels (client : Client K) (notify : Bool) (r : ℕ → Reply K) :
    (client.notified notify r).pubsubChannels = client.pubsubChannels := by
  cases notify <;> rfl

omit [DecidableEq K] in
theorem notified_pubsubPatterns (client : Client K) (notify : Bool) (r : ℕ → Reply K) :
    (client.notified notify r).pubsubPatterns = client.pubsubPatterns := by
  cases notify <;> rfl

section
variable {I : Client K → Prop}

/-- In the middle of a mass unsubscription: `keys` has only what is not done. -/
structure Left (s : Server K) (c : ClientId) (keys : Client K → List K) (I : Client K → Prop)
    (done : List K) (p : Server K × ℕ) : Prop where
  writes : Writes s p.1 c (p.1.client c)
  keeps : I (p.1.client c)
  keys : ∀ k ∈ keys (p.1.client c), k ∈ keys (s.client c) ∧ k ∉ done

theorem foldlM_left {keys : Client K → List K} {drop : Client K → K → Client K}
    {f : Server K → K → Except Fault (Server K × ℕ)} (h : Agrees s)
    (hf : ∀ s' k, Agrees s' → (f s' k).Ensures (fun _ => False)
      fun p => Writes s' p.1 c (drop (s'.client c) k))
    (hdrop : ∀ client k, keys (drop client k) = (keys client).erase k)
    (hnodup : ∀ s' : Server K, Agrees s' → (keys (s'.client c)).Nodup)
    (hstep : ∀ client k, I client → I (drop client k)) (hI : I (s.client c)) (l : List K) :
    (l.foldlM (fun (p : Server K × ℕ) k => do
      let (s, retval) ← f p.1 k
      .ok (s, p.2 + retval)) (s, 0)).Ensures (fun _ => False) (Left s c keys I l) := by
  refine Ensures.foldlM_prefix (I := Left s c keys I) (fun done k rest p _ hp => ?_) ?_
  · refine (hf p.1 k hp.writes.agrees).bind fun ⟨s', n⟩ hs' => ?_
    have hself : s'.client c = drop (p.1.client c) k := hs'.self
    refine ⟨?_, ?_, fun k' hk' => ?_⟩
    · rw [hself]
      exact hp.writes.trans hs'
    · rw [hself]
      exact hstep _ k hp.keeps
    · rw [hself, hdrop, (hnodup p.1 hp.writes.agrees).mem_erase_iff] at hk'
      obtain ⟨hne, hmem⟩ := hk'
      obtain ⟨hold, hdone⟩ := hp.keys k' hmem
      refine ⟨hold, ?_⟩
      rw [List.mem_append, List.mem_singleton, not_or]
      exact ⟨hdone, hne⟩
  · exact ⟨.refl h c, hI, fun k hk => ⟨hk, List.not_mem_nil⟩⟩

theorem Left.finish {keys : Client K → List K} {l : List K} {p : Server K × ℕ}
    (hp : Left s c keys I l p) (hall : ∀ k ∈ keys (s.client c), k ∈ l) {notify : Bool}
    {r : ℕ → Reply K} (hkeys : ∀ client : Client K, keys (client.answer r) = keys client)
    (hnone : notify = true → ∀ client, I client → I (client.answer r)) (s' : Server K)
    (hs' : s' = if notify ∧ p.2 = 0 then addReply p.1 c (r (p.1.client c).subscriptions) else p.1) :
    Writes s s' c (s'.client c) ∧ I (s'.client c) ∧ keys (s'.client c) = [] := by
  have hnil : keys (p.1.client c) = [] := by
    refine List.eq_nil_iff_forall_not_mem.mpr fun k hk => ?_
    obtain ⟨hold, hdone⟩ := hp.keys k hk
    exact hdone (hall k hold)
  subst hs'
  split
  next hreply =>
    have hwrites := hp.writes.addReply r
    rw [hwrites.self]
    exact ⟨hwrites, hnone hreply.1 _ hp.keeps, (hkeys _).trans hnil⟩
  next => exact ⟨hp.writes, hp.keeps, hnil⟩

theorem pubsubUnsubscribeAllChannels_ensures (h : Agrees s) (c : ClientId) (order : List K)
    (notify : Bool) (hstep : ∀ client channel, I client →
      I ((client.dropChannel channel).notified notify (.unsubscribe (some channel))))
    (hnone : notify = true → ∀ client, I client → I (client.answer (.unsubscribe none)))
    (hI : I (s.client c)) :
    (pubsubUnsubscribeAllChannels s c order notify).Ensures (fun _ => False) fun p =>
      Writes s p.1 c (p.1.client c) ∧ I (p.1.client c) ∧
        (p.1.client c).pubsubChannels = [] := by
  rw [pubsubUnsubscribeAllChannels]
  refine (foldlM_left h (fun s' k hs' => pubsubUnsubscribeChannel_ensures hs' c k notify)
    (fun client k => notified_pubsubChannels ..) (fun s' hs' => hs'.channels_nodup c) hstep hI
    _).bind ?_
  rintro ⟨s', n⟩ hp
  exact hp.finish (fun k hk => mem_iterate.mpr hk) (r := .unsubscribe none) (fun _ => rfl) hnone _
    rfl

theorem pubsubUnsubscribeAllPatterns_ensures (h : Agrees s) (c : ClientId) (notify : Bool)
    (hstep : ∀ client pattern, I client →
      I ((client.dropPattern pattern).notified notify (.punsubscribe (some pattern))))
    (hnone : notify = true → ∀ client, I client → I (client.answer (.punsubscribe none)))
    (hI : I (s.client c)) :
    (pubsubUnsubscribeAllPatterns s c notify).Ensures (fun _ => False) fun p =>
      Writes s p.1 c (p.1.client c) ∧ I (p.1.client c) ∧
        (p.1.client c).pubsubPatterns = [] := by
  rw [pubsubUnsubscribeAllPatterns]
  refine (foldlM_left h (fun s' k hs' => pubsubUnsubscribePattern_ensures hs' c k notify)
    (fun client k => notified_pubsubPatterns ..) (fun s' hs' => hs'.patterns_nodup c) hstep hI
    _).bind ?_
  rintro ⟨s', n⟩ hp
  exact hp.finish (fun k hk => hk) (r := .punsubscribe none) (fun _ => rfl) hnone _ rfl

end

end PubSub
