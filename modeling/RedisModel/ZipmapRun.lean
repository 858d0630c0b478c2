/-
Runs of zipmap operations, beside a plain map.

* `get` — the map that entries store;
* `Exact` — lookup, iteration, lengths and flags of a zipmap are those of a map;
* `run_zipmap` — from `zipmapNew` on, as long as the total size is below 2^32.
-/
import RedisModel.Runs
import RedisModel.ZipmapRefine

open ByteBuffer Runs

namespace Zipmap

/-- The value of a key. -/
def get (es : List Entry) (key : Bytes) : Option Bytes :=
  (es.find? fun e => e.key = key).map Entry.value

section
variable {es : List Entry} {zm key val : Bytes}

/-! ### The map of the entries -/

theorem get_cons (e : Entry) (es : List Entry) (key : Bytes) :
    get (e :: es) key = if e.key = key then some e.value else get es key := by
  rw [get, List.find?_cons]
  by_cases h : e.key = key <;> simp [get, h]

theorem get_of_not_found (hno : ∀ e ∈ es, key ≠ e.key) : get es key = none := by
  induction es with
  | nil => rfl
  | cons e es ih =>
    obtain ⟨he, hes⟩ := List.forall_mem_cons.mp hno
    rw [get_cons, if_neg (Ne.symm he), ih hes]

theorem get_of_found {es₁ es₂ : List Entry} {e : Entry} (hno : ∀ e' ∈ es₁, e.key ≠ e'.key) :
    get (es₁ ++ e :: es₂) e.key = some e.value := by
  induction es₁ with
  | nil => rw [List.nil_append, get_cons, if_pos rfl]
  | cons e' es₁ ih =>
    obtain ⟨he', hes₁⟩ := List.forall_mem_cons.mp hno
    rw [List.cons_append, get_cons, if_neg (Ne.symm he'), ih hes₁]

theorem get_isSome : (get es key).isSome = decide (key ∈ es.map Entry.key) := by
  rcases exists_first key es with hno | ⟨es₁, e, es₂, rfl, rfl, hno⟩
  · rw [get_of_not_found hno, decide_eq_false]
    · rfl
    · intro hmem
      obtain ⟨e, he, heq⟩ := List.mem_map.mp hmem
      exact hno e he heq.symm
  · rw [get_of_found hno, decide_eq_true]
    · rfl
    · exact List.mem_map_of_mem (List.mem_append_right _ List.mem_cons_self)

theorem get_setEntry (key val k : Bytes) (es : List Entry) :
    get (setEntry key val es) k = Function.update (get es) key (some val) k := by
  induction es with
  | nil =>
    rw [setEntry, get_cons]
    by_cases hk : k = key
    · subst hk
      rw [Function.update_self]
      exact if_pos rfl
    · rw [Function.update_of_ne hk]
      exact if_neg (Ne.symm hk)
  | cons e es ih =>
    rw [setEntry]
    split
    next he =>
      rw [get_cons]
      by_cases hk : k = key
      · subst hk
        rw [Function.update_self]
        exact if_pos he
      · have hne : e.key ≠ k := fun h => hk (h.symm.trans he)
        rw [Function.update_of_ne hk, get_cons, if_neg hne]
        exact if_neg hne
    next he =>
      rw [get_cons, ih]
      by_cases hk : k = key
      · subst hk
        rw [Function.update_self, Function.update_self, if_neg he]
      · rw [Function.update_of_ne hk, Function.update_of_ne hk, get_cons]

theorem get_delEntry (hnodup : (es.map Entry.key).Nodup) (key k : Bytes) :
    get (delEntry key es) k = Function.update (get es) key none k := by
  rcases exists_first key es with hno | ⟨es₁, e, es₂, rfl, rfl, hno⟩
  · rw [delEntry_of_not_found hno]
    by_cases hk : k = key
    · subst hk
      rw [Function.update_self, get_of_not_found hno]
    · rw [Function.update_of_ne hk]
  · rw [delEntry_of_found rfl hno]
    rw [List.map_append, List.map_cons, List.nodup_append, List.nodup_cons] at hnodup
    by_cases hk : k = e.key
    · subst hk
      rw [Function.update_self]
      refine get_of_not_found fun e' he' => ?_
      rcases List.mem_append.mp he' with he' | he'
      · exact hno e' he'
      · intro heq
        exact hnodup.2.1.1 (heq ▸ List.mem_map_of_mem he')
    · rw [Function.update_of_ne hk]
      clear hnodup hno
      induction es₁ with
      | nil => rw [List.nil_append, List.nil_append, get_cons, if_neg (Ne.symm hk)]
      | cons e' es₁ ih => rw [List.cons_append, List.cons_append, get_cons, get_cons, ih]

theorem mem_iff_get (hnodup : (es.map Entry.key).Nodup) (key val : Bytes) :
    (key, val) ∈ es.map (fun e => (e.key, e.value)) ↔ get es key = some val := by
  induction es with
  | nil => simp [get]
  | cons e es ih =>
    rw [List.map_cons, List.nodup_cons] at hnodup
    rw [List.map_cons, List.mem_cons, get_cons, ih hnodup.2]
    split
    next he =>
      have hno : get es key = none := by
        refine get_of_not_found fun e' he' heq => ?_
        exact hnodup.1 (he.trans heq ▸ List.mem_map_of_mem he')
      rw [hno]
      simp [he, eq_comm]
    next he =>
      have hne : (key, val) ≠ (e.key, e.value) := fun h => he (Prod.mk.inj h).1.symm
      simp [hne]

/-! ### Reading -/

theorem zipmapGet_spec (h : Represents es zm) (key : Bytes) :
    zipmapGet zm key = some (get es key) := by
  rcases exists_first key es with hno | ⟨es₁, e, es₂, rfl, rfl, hno⟩
  · rw [zipmapGet, h.lookupRaw_of_not_found hno, get_of_not_found hno]
    rfl
  · have hreads := (h.loop_found true).1
    rw [zipmapGet, h.lookupRaw_of_found, get_of_found hno, Option.bind_eq_bind, Option.bind_some]
    dsimp only
    rw [hreads.rawKeyLength, Option.bind_eq_bind, Option.bind_some, hreads.vlen,
      Option.bind_some, hreads.value, Option.bind_eq_bind, Option.bind_some]

theorem zipmapExists_spec (h : Represents es zm) (key : Bytes) :
    zipmapExists zm key = some (get es key).isSome := by
  rcases exists_first key es with hno | ⟨es₁, e, es₂, rfl, rfl, hno⟩
  · rw [zipmapExists, h.lookupRaw_of_not_found hno, get_of_not_found hno]
    rfl
  · rw [zipmapExists, h.lookupRaw_of_found, get_of_found hno]
    rfl

theorem zipmapBlobLen_spec (h : Represents es zm) : zipmapBlobLen zm = some zm.length := by
  rw [zipmapBlobLen, h.lookupTotlen_of_not_found fun e _ => (Option.some_ne_none _).symm]
  rfl

theorem ReadsAs.zipmapNext {p : ℕ} {e : Entry} (h : ReadsAs zm p e) :
    zipmapNext zm p = some (some
      { key := p + zipmapLenBytes e.key.length
        klen := e.key.length
        value := p + (zipmapLenBytes e.key.length + e.key.length) + 1 +
          zipmapLenBytes e.value.length
        vlen := e.value.length
        next := p + e.size }) := by
  obtain ⟨b, hb, hne⟩ := h.first
  have hnext : p + (zipmapLenBytes e.key.length + e.key.length) +
      (zipmapLenBytes e.value.length + (e.value.length + 1 + e.free)) = p + e.size := by
    rw [Entry.size]
    omega
  rw [Zipmap.zipmapNext, hb, Option.bind_eq_bind, Option.bind_some, if_neg hne, h.klen,
    Option.bind_eq_bind, Option.bind_some]
  dsimp only
  rw [h.rawKeyLength, Option.bind_some, h.vlen, Option.bind_some, h.rawValueLength,
    Option.bind_some, hnext]

theorem zipmapIterate_eq {pre body : Bytes} {p : ℕ} (hbody : Images es body)
    (hzm : zm = pre ++ (body ++ [zipmapEnd])) (hp : p = pre.length) (hlt : sizes es < 2 ^ 32)
    (fuel : ℕ) :
    zipmapIterate zm (fuel + 1 + es.length) p = some (es.map fun e => (e.key, e.value)) := by
  induction es generalizing pre body p with
  | nil =>
    obtain rfl : body = [] := hbody
    have hend : zm[p]? = some zipmapEnd := by
      rw [hzm]
      exact getElem?_at hp
    have hnext : zipmapNext zm p = some none := by
      rw [zipmapNext, hend, Option.bind_eq_bind, Option.bind_some, if_pos rfl]
    rw [List.length_nil, Nat.add_zero, zipmapIterate, hnext]
    rfl
  | cons e es ih =>
    obtain ⟨pad, tail, hpad, rfl, htail⟩ := hbody
    rw [sizes] at hlt
    rw [List.append_assoc] at hzm
    have hreads : ReadsAs zm p e := readsAs_image hzm hp (by omega)
    have hp' : p + e.size = (pre ++ e.image pad).length := by
      rw [List.length_append, e.length_image hpad, hp]
    rw [← List.append_assoc] at hzm
    have hvalue := hreads.value
    rw [Nat.add_right_comm _ (zipmapLenBytes e.value.length) 1] at hvalue
    rw [List.length_cons, ← Nat.add_assoc, zipmapIterate, hreads.zipmapNext, Option.bind_eq_bind,
      Option.bind_some]
    dsimp only
    rw [hreads.key, Option.bind_eq_bind, Option.bind_some, hvalue, Option.bind_some,
      ih htail hzm hp' (by omega)]
    rfl

theorem zipmapIterate_spec (h : Represents es zm) :
    zipmapIterate zm zm.length zipmapRewind = some (es.map fun e => (e.key, e.value)) := by
  have hlen := h.length
  have hle := length_le_sizes es
  have hlt := h.size_lt
  obtain ⟨fuel, hfuel⟩ : ∃ fuel, zm.length = fuel + 1 + es.length :=
    ⟨zm.length - 1 - es.length, by omega⟩
  obtain ⟨count, body, hzm, hbody, -⟩ := h.image
  have hone : zipmapRewind = [count].length := rfl
  rw [hfuel]
  exact zipmapIterate_eq hbody hzm hone (by omega) fuel

theorem zipmapLen_spec (h : Represents es zm) :
    ∃ zm', zipmapLen zm = some (zm', es.length) ∧ Represents es zm' := by
  have hle := length_le_sizes es
  have hlt := h.size_lt
  have hiterate := zipmapIterate_spec h
  obtain ⟨count, body, hzm, hbody, hcount⟩ := h.image
  have hfirst : zm[0]? = some count := by
    rw [hzm]
    rfl
  rw [zipmapLen, hfirst, Option.bind_eq_bind, Option.bind_some]
  by_cases hsmall : count.toNat < zipmapBiglen
  · have hn : count.toNat = es.length := by
      rcases hcount with ⟨-, hn⟩ | hbig
      · exact hn
      · omega
    rw [if_pos hsmall, hn]
    exact ⟨zm, rfl, h⟩
  · rw [if_neg hsmall, hiterate, Option.bind_eq_bind, Option.bind_some]
    dsimp only
    rw [List.length_map, uint_of_lt (by omega)]
    by_cases hfew : es.length < zipmapBiglen
    · have hstore : store zm 0 [UInt8.ofNat es.length]
          = some (UInt8.ofNat es.length :: (body ++ [zipmapEnd])) := by
        rw [hzm]
        exact store_append (a := []) (b := [count]) rfl rfl
      have hval : (UInt8.ofNat es.length).toNat = es.length := by
        rw [UInt8.toNat_ofNat']
        rw [zipmapBiglen] at hfew
        omega
      rw [if_pos hfew, hstore]
      refine ⟨_, rfl, ⟨_, body, rfl, hbody, .inl ⟨?_, hval⟩⟩, h.nodup, hlt⟩
      rw [hval]
      exact hfew
    · rw [if_neg hfew]
      exact ⟨zm, rfl, h⟩

end

/-! ### Runs -/

inductive Event where
  | set (key val : Bytes)
  | del (key : Bytes)
  | len

/-- A step of a run. -/
def step (junk : ℕ → UInt8) (zm : Bytes) : Event → Option Bytes
  | .set key val => (zipmapSet junk zm key val).map Prod.fst
  | .del key => (zipmapDel junk zm key).map Prod.fst
  | .len => (zipmapLen zm).map Prod.fst

/-- What an event does to a map. -/
def plain (m : Bytes → Option Bytes) : Event → Bytes → Option Bytes
  | .set key val => Function.update m key (some val)
  | .del key => Function.update m key none
  | .len => m

/-- What an event does to the entries. -/
def entries (es : List Entry) : Event → List Entry
  | .set key val => setEntry key val es
  | .del key => delEntry key es
  | .len => es

/-- The total size stays below 2^32. -/
def Fits (events : List Event) : Prop :=
  ∀ done rest, events = done ++ rest → sizes (done.foldl entries []) + 2 < 2 ^ 32

/-- A zipmap that stores the map `m`. -/
structure Exact (junk : ℕ → UInt8) (m : Bytes → Option Bytes) (es : List Entry) (zm : Bytes) :
    Prop where
  represents : Represents es zm
  length : zipmapBlobLen zm = some zm.length
  get : ∀ key, zipmapGet zm key = some (m key)
  exists_iff : ∀ key, zipmapExists zm key = some (m key).isSome
  iterate : ∃ l, zipmapIterate zm zm.length zipmapRewind = some l ∧ (l.map Prod.fst).Nodup ∧
    (∀ key val, (key, val) ∈ l ↔ m key = some val) ∧ ∃ zm', zipmapLen zm = some (zm', l.length)
  update : ∀ key val, sizes (setEntry key val es) + 2 < 2 ^ 32 →
    ∃ zm', zipmapSet junk zm key val = some (zm', (m key).isSome)
  deleted : ∀ key, ∃ zm', zipmapDel junk zm key = some (zm', (m key).isSome)

section
variable {junk : ℕ → UInt8} {es : List Entry} {zm : Bytes}

theorem Represents.exact (h : Represents es zm) : Exact junk (get es) es zm where
  represents := h
  length := zipmapBlobLen_spec h
  get := zipmapGet_spec h
  exists_iff := zipmapExists_spec h
  iterate := by
    refine ⟨_, zipmapIterate_spec h, ?_, mem_iff_get h.nodup, ?_⟩
    · rw [List.map_map]
      exact h.nodup
    · obtain ⟨zm', hlen, -⟩ := zipmapLen_spec h
      rw [List.length_map]
      exact ⟨zm', hlen⟩
  update key val hsize := by
    obtain ⟨zm', hset, -⟩ := zipmapSet_spec junk h hsize
    rw [get_isSome]
    exact ⟨zm', hset⟩
  deleted key := by
    obtain ⟨zm', hdel, -⟩ := zipmapDel_spec junk h key
    rw [get_isSome]
    exact ⟨zm', hdel⟩

theorem step_spec {m : Bytes → Option Bytes} (h : Represents es zm) (hm : get es = m)
    (e : Event) (hsize : sizes (entries es e) + 2 < 2 ^ 32) :
    ∃ zm', step junk zm e = some zm' ∧ Represents (entries es e) zm' ∧
      get (entries es e) = plain m e := by
  subst hm
  cases e with
  | set key val =>
    obtain ⟨zm', hset, hrep⟩ := zipmapSet_spec junk h hsize
    exact ⟨zm', by rw [step, hset]; rfl, hrep, funext fun k => get_setEntry key val k es⟩
  | del key =>
    obtain ⟨zm', hdel, hrep⟩ := zipmapDel_spec junk h key
    exact ⟨zm', by rw [step, hdel]; rfl, hrep, funext (get_delEntry h.nodup key)⟩
  | len =>
    obtain ⟨zm', hlen, hrep⟩ := zipmapLen_spec h
    exact ⟨zm', by rw [step, hlen]; rfl, hrep, rfl⟩

theorem run_represents {m : Bytes → Option Bytes} (events : List Event) (h : Represents es zm)
    (hm : get es = m) (hfits : ∀ done rest, events = done ++ rest →
      sizes (done.foldl entries es) + 2 < 2 ^ 32) :
    ∃ zm', run (step junk) zm events = some zm' ∧ Represents (events.foldl entries es) zm' ∧
      get (events.foldl entries es) = events.foldl plain m := by
  induction events generalizing es zm m with
  | nil => exact ⟨zm, rfl, h, hm⟩
  | cons e events ih =>
    obtain ⟨zm₁, hstep, hrep, hget⟩ := step_spec h hm e (hfits [e] events rfl)
    obtain ⟨zm', hrun, hrep', hget'⟩ := ih hrep hget fun done rest heq =>
      hfits (e :: done) rest (by rw [heq]; rfl)
    exact ⟨zm', run_cons_of_step hstep hrun, hrep', hget'⟩

/-- Every run from `zipmapNew` on stores exactly the map, as long as it fits. -/
theorem run_zipmap (junk : ℕ → UInt8) {events : List Event} (hfits : Fits events) :
    ∃ zm, run (step junk) zipmapNew events = some zm ∧
      Exact junk (events.foldl plain fun _ => none) (events.foldl entries []) zm := by
  obtain ⟨zm, hrun, hrep, hget⟩ := run_represents events zipmapNew_represents rfl hfits
  refine ⟨zm, hrun, ?_⟩
  have hnone : get [] = fun _ => none := rfl
  rw [← hnone, ← hget]
  exact hrep.exact

theorem Fits.of_take {events : List Event}
    (h : ∀ n ≤ events.length, sizes ((events.take n).foldl entries []) + 2 < 2 ^ 32) :
    Fits events := by
  intro done rest heq
  have hdone := h done.length (by rw [heq, List.length_append]; omega)
  rw [heq, List.take_left] at hdone
  exact hdone

/-- A value that is replaced by a shorter one, in place, by a longer one and by a much shorter
one, beside a neighbour. -/
def overwrites : List Event :=
  [.set [97] [1, 1, 1, 1], .set [98] [2], .set [97] [3, 3], .set [97] [4, 4, 4, 4, 4], .len,
    .set [97] [], .set [99] [], .del [99]]

theorem run_zipmap_overwrites : ∃ zm, run (step noJunk) zipmapNew overwrites = some zm ∧
    zipmapGet zm [98] = some (some [2]) ∧ zipmapGet zm [97] = some (some []) := by
  have hfits : Fits overwrites := Fits.of_take (by decide)
  obtain ⟨zm, hrun, hexact⟩ := run_zipmap noJunk hfits
  exact ⟨zm, hrun, hexact.get [98], hexact.get [97]⟩

end

end Zipmap
