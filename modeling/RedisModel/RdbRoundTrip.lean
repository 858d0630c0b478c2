/-
What is saved in the RDB format is loaded again.

* `Fits` — lengths and counts below 2^32 - 1, which is what an encoded length can say;
* `reads_len`, `reads_string`, `reads_object` — lengths, strings and objects are read back with the
  same texts, and not without their ends;
* `loadLoop_pairs`, `loadLoop_dbs` — the keys of a database, and all databases;
* `rdb_round_trip` — a dataset that was saved is loaded, and a file that was cut is not.
-/
import RedisModel.RdbFormat
import RedisModel.CountersSpec

open ByteBuffer RedisServer StringNumber Counters StreamReader

namespace Rdb

section

variable {C F : Type} {fmt : Format F} {compression : Bool} {P : StringValue → Prop}

abbrev EofReads {α : Type} (p : Rio α) (a : Bytes) (P : α → Prop) : Prop := Reads Stop.eoferr p a P

/-- A length that `rdbSaveLen` can write. -/
def Fits (n : ℕ) : Prop := n < 2 ^ 32 - 1

instance (n : ℕ) : Decidable (Fits n) := inferInstanceAs (Decidable (n < 2 ^ 32 - 1))

theorem reads_type (c : UInt8) : EofReads rdbLoadType [c] (· = c) := by
  have htake : EofReads (rioRead 1) [c] (· = [c]) := Reads.take rfl
  refine (htake.imp fun bytes hbytes => ?_).map
  rw [hbytes, List.headD_cons]

theorem reads_len {n : ℕ} (h : Fits n) : EofReads rdbLoadLen (rdbSaveLen n) (· = (n, false)) := by
  unfold Fits at h
  have hmod : n % 2 ^ 32 = n := Nat.mod_eq_of_lt (by omega)
  unfold rdbSaveLen
  rw [hmod]
  dsimp only
  split
  · refine (reads_type _).bind (b := []) fun c hc => ?_
    have hnat : c.toNat = n := by rw [hc, UInt8.toNat_ofNat']; omega
    rw [hnat, if_neg (by omega), if_pos (by omega), Nat.mod_eq_of_lt (by omega)]
    exact Reads.pure rfl
  · split
    · refine (reads_type _).bind (b := [_]) fun c hc => ?_
      have hnat : c.toNat = 64 + n / 256 := by rw [hc, UInt8.toNat_ofNat']; omega
      rw [hnat, if_neg (by omega), if_neg (by omega), if_pos (by omega)]
      refine ((reads_type _).imp fun c' hc' => ?_).map
      have hnat' : c'.toNat = n % 256 := by rw [hc', UInt8.toNat_ofNat']; omega
      rw [hnat', show (64 + n / 256) % 64 * 256 + n % 256 = n by omega]
    · refine (reads_type 128).bind (b := (leBytes 4 n).reverse) fun c hc => ?_
      rw [hc, if_neg (by decide), if_neg (by decide), if_neg (by decide)]
      rw [← List.append_nil (leBytes 4 n).reverse]
      refine (Reads.take (by simp)).bind fun bytes hbytes => ?_
      have hval : leVal bytes.reverse = n := by
        rw [hbytes, List.reverse_reverse, leVal_leBytes_of_lt (by omega)]
      rw [hval, if_neg (by omega)]
      exact Reads.pure rfl

/-! ### Strings -/

/-- An integer of at most 32 bits. -/
theorem reads_integer {encode : Bool} {v : ℤ} {k : ℕ} (htype : k ≤ 2)
    (hmin : -((256 ^ 2 ^ k : ℕ) : ℤ) ≤ v * 2) (hmax : v * 2 < ((256 ^ 2 ^ k : ℕ) : ℤ))
    (hlong : IsLong v) :
    EofReads (rdbGenericLoadStringObject fmt encode)
      (UInt8.ofNat (192 + k) :: intBytes (2 ^ k) v) (·.text = ll2string v) := by
  have hlen : EofReads rdbLoadLen [UInt8.ofNat (192 + k)] (· = (k, true)) := by
    refine (reads_type _).bind (b := []) fun c hc => ?_
    have hnat : c.toNat = 192 + k := by rw [hc, UInt8.toNat_ofNat']; omega
    rw [hnat, if_pos (by omega), show (192 + k) % 64 = k by omega]
    exact Reads.pure rfl
  refine hlen.bind (b := intBytes (2 ^ k) v) fun len hlen => ?_
  rw [hlen, if_pos rfl, if_pos htype, rdbLoadIntegerObject, if_pos htype]
  refine ((Reads.take (length_intBytes _ _).symm).imp fun enc henc => ?_).map
  rw [henc, intVal_intBytes hmin hmax]
  cases encode with
  | true => exact text_createStringObject hlong
  | false => rfl

theorem reads_encodeInteger {encode : Bool} {v : ℤ} {enc : Bytes}
    (h : rdbEncodeInteger v = some enc) :
    EofReads (rdbGenericLoadStringObject fmt encode) enc (·.text = ll2string v) := by
  unfold rdbEncodeInteger at h
  split at h
  · obtain rfl := Option.some_inj.mp h
    exact reads_integer (k := 0) (by omega) (by omega) (by omega) ⟨by omega, by omega⟩
  · split at h
    · obtain rfl := Option.some_inj.mp h
      exact reads_integer (k := 1) (by omega) (by omega) (by omega) ⟨by omega, by omega⟩
    · split at h
      · obtain rfl := Option.some_inj.mp h
        exact reads_integer (k := 2) (by omega) (by omega) (by omega) ⟨by omega, by omega⟩
      · cases h

theorem reads_tryIntegerEncoding {encode : Bool} {s enc : Bytes}
    (h : rdbTryIntegerEncoding s = some enc) :
    EofReads (rdbGenericLoadStringObject fmt encode) enc (·.text = s) := by
  unfold rdbTryIntegerEncoding at h
  dsimp only at h
  split at h
  · cases h
  · split at h
    · cases h
    · rename_i hs
      rw [← not_not.mp hs]
      exact reads_encodeInteger h

theorem reads_verbatim {encode : Bool} {s : Bytes} (h : Fits s.length) :
    EofReads (rdbGenericLoadStringObject fmt encode) (rdbSaveLen s.length ++ s) (·.text = s) := by
  refine (reads_len h).bind fun len hlen => ?_
  rw [hlen, if_neg Bool.false_ne_true]
  exact ((Reads.take rfl).imp fun val hval => by rw [hval]; rfl).map

theorem reads_lzf {encode : Bool} {s enc : Bytes} (h : Fits s.length)
    (henc : rdbSaveLzfStringObject fmt s = some enc) :
    EofReads (rdbGenericLoadStringObject fmt encode) enc (·.text = s) := by
  unfold rdbSaveLzfStringObject at henc
  split at henc
  · cases henc
  · obtain ⟨out, hout, rfl⟩ := Option.map_eq_some_iff.mp henc
    have hle := fmt.lzf.length_compress _ _ _ hout
    have htype : EofReads rdbLoadLen [195] (· = (3, true)) :=
      (reads_type 195).bind (b := []) fun c hc => by rw [hc]; exact Reads.pure rfl
    refine htype.bind (b := _ ++ _) fun len hlen => ?_
    rw [hlen, if_pos rfl, if_neg (by decide), if_pos rfl, List.append_assoc]
    refine (reads_len (show Fits out.length from ?_)).bind fun clen hclen => ?_
    · unfold Fits at h ⊢
      omega
    · refine (reads_len h).bind fun len' hlen' => ?_
      have htake : EofReads (rioRead clen.1) out (· = out) := Reads.take (by rw [hclen])
      rw [← List.append_nil out]
      refine htake.bind fun c hc => ?_
      rw [hc, hlen', fmt.lzf.decompress_compress _ _ _ hout]
      exact Reads.pure rfl

theorem reads_rawString {encode : Bool} {s : Bytes} (h : Fits s.length) :
    EofReads (rdbGenericLoadStringObject fmt encode) (rdbSaveRawString fmt compression s)
      (·.text = s) := by
  unfold rdbSaveRawString
  split
  · rename_i enc henc
    split at henc
    · exact reads_tryIntegerEncoding henc
    · cases henc
  · split
    · rename_i enc henc
      split at henc
      · exact reads_lzf h henc
      · cases henc
    · exact reads_verbatim h

/-- A string is read back with the same text. -/
theorem reads_string {encode : Bool} {o : StringValue} (h : Fits o.text.length) :
    EofReads (rdbGenericLoadStringObject fmt encode) (rdbSaveStringObject fmt compression o)
      (·.text = o.text) := by
  cases o with
  | raw s => exact reads_rawString h
  | int value hlong =>
    show EofReads _ (rdbSaveLongLongAsStringObject value) _
    unfold rdbSaveLongLongAsStringObject
    split
    · rename_i enc henc
      exact reads_encodeInteger henc
    · exact reads_verbatim h

/-! ### Objects -/

theorem reads_double (x : F) :
    EofReads (rdbLoadDoubleValue fmt) (rdbSaveDoubleValue fmt x) (· = x) := by
  have hscan := fmt.scores.scan_print x
  unfold rdbSaveDoubleValue
  split
  · rename_i hx
    rw [hx] at hscan
    exact (reads_type 253).bind (b := []) fun c hc => by rw [hc]; exact Reads.pure hscan
  · rename_i hx
    rw [hx] at hscan
    exact (reads_type 254).bind (b := []) fun c hc => by rw [hc]; exact Reads.pure hscan
  · rename_i hx
    rw [hx] at hscan
    exact (reads_type 255).bind (b := []) fun c hc => by rw [hc]; exact Reads.pure hscan
  · rename_i s hx
    rw [hx] at hscan
    have hlt := fmt.scores.length_print x s hx
    refine (reads_type _).bind (b := s) fun c hc => ?_
    have hnat : c.toNat = s.length := by rw [hc, UInt8.toNat_ofNat']; omega
    have hne : ∀ k : ℕ, 128 ≤ k → k < 256 → c ≠ UInt8.ofNat k := by
      rintro k hk hk' rfl
      rw [UInt8.toNat_ofNat'] at hnat
      omega
    have h255 : c ≠ 255 := hne 255 (by omega) (by omega)
    have h254 : c ≠ 254 := hne 254 (by omega) (by omega)
    have h253 : c ≠ 253 := hne 253 (by omega) (by omega)
    rw [if_neg h255, if_neg h254, if_neg h253]
    exact ((Reads.take hnat).imp fun buf hbuf => by rw [hbuf]; exact hscan).map

/-- The lengths and counts of an object. -/
def Object.Fits : Object StringValue F → Prop
  | .string o => Rdb.Fits o.text.length
  | .list l => Rdb.Fits l.length ∧ ∀ e ∈ l, Rdb.Fits e.text.length
  | .dictSet l => Rdb.Fits l.length ∧ ∀ e ∈ l, Rdb.Fits e.text.length
  | .zset l => Rdb.Fits l.length ∧ ∀ p ∈ l, Rdb.Fits p.1.text.length
  | .hash l => Rdb.Fits l.length ∧ ∀ p ∈ l, Rdb.Fits p.1.text.length ∧ Rdb.Fits p.2.text.length
  | .blob _ bytes => Rdb.Fits bytes.length

/-- As many elements as the length in front of them says. -/
theorem reads_elements {α γ δ : Type} {p : Rio α} {write : γ → Bytes} {f : α → δ} {g : γ → δ}
    {l : List γ} (hl : Fits l.length) (h : ∀ c ∈ l, EofReads p (write c) fun x => f x = g c)
    {make : List α → Object StringValue F} {o : Object Bytes F}
    (hmake : ∀ xs, xs.map f = l.map g → (make xs).texts = o) :
    EofReads (do
      let len ← rdbLoadLen
      let xs ← times p len.1
      return make xs) (rdbSaveLen l.length ++ l.flatMap write) (·.texts = o) := by
  refine (reads_len hl).bind fun len hlen => ?_
  rw [hlen]
  exact ((Reads.times h).imp hmake).map

theorem reads_member {p : StringValue × F} (h : Fits p.1.text.length) :
    EofReads (loadMember fmt)
      (rdbSaveStringObject fmt compression p.1 ++ rdbSaveDoubleValue fmt p.2)
      fun x => (x.1.text, x.2) = (p.1.text, p.2) := by
  refine (reads_string h).bind fun ele hele => ((reads_double p.2).imp fun score hscore => ?_).map
  rw [hele, hscore]

theorem reads_field {p : StringValue × StringValue} (h : Fits p.1.text.length)
    (h' : Fits p.2.text.length) :
    EofReads (loadField fmt)
      (rdbSaveStringObject fmt compression p.1 ++ rdbSaveStringObject fmt compression p.2)
      fun x => (x.1.text, x.2.text) = (p.1.text, p.2.text) := by
  refine (reads_string h).bind fun field hfield => ((reads_string h').imp fun value hvalue => ?_).map
  rw [hfield, hvalue]

theorem reads_blob {type : BlobType} {bytes : Bytes} (h : Fits bytes.length) :
    EofReads (do return (.blob type (← rdbGenericLoadStringObject fmt false).text :
      Object StringValue F)) (rdbSaveRawString fmt compression bytes)
      (·.texts = .blob type bytes) :=
  ((reads_rawString h).imp fun _ haux => congrArg (Object.blob type) haux).map

/-- An object is read back with the same texts. -/
theorem reads_object {o : Object StringValue F} (h : o.Fits) :
    EofReads (rdbLoadObject fmt (rdbSaveObjectType o)) (rdbSaveObject fmt compression o)
      (·.texts = o.texts) := by
  cases o with
  | string o => exact ((reads_string h).imp fun x hx => congrArg Object.string hx).map
  | list l =>
    exact reads_elements h.1 (fun e he => reads_string (h.2 e he))
      fun xs hxs => congrArg Object.list hxs
  | dictSet l =>
    exact reads_elements h.1 (fun e he => reads_string (h.2 e he))
      fun xs hxs => congrArg Object.dictSet hxs
  | zset l =>
    exact reads_elements h.1 (fun p hp => reads_member (h.2 p hp))
      fun xs hxs => congrArg Object.zset hxs
  | hash l =>
    exact reads_elements h.1 (fun p hp => reads_field (h.2 p hp).1 (h.2 p hp).2)
      fun xs hxs => congrArg Object.hash hxs
  | blob type bytes =>
    cases type <;> exact reads_blob h

/-! ### Datasets -/

variable {s t t' : RedisServer C (Object StringValue F)} {saved loaded : ℤ} {d m : ℕ} {a : Bytes}
variable {Q : RedisServer C (Object StringValue F) → Prop}

/-- A key as it can be seen: the texts of its object, and its expire. -/
def shown (t : RedisServer C (Object StringValue F)) (d : ℕ) (key : Bytes) :
    Option (Object Bytes F × Option ℤ) :=
  ((t.db d).dict key).map fun o => (o.texts, (t.db d).expires key)

/-- What is left of a pair that was saved at the time `saved` and loaded at the time `loaded`, by
a master or by a slave. -/
def restored (master : Bool) (saved loaded : ℤ) (expiretime : ℤ) (val : Object StringValue F) :
    Option (Object Bytes F × Option ℤ) :=
  if expiretime ≠ -1 ∧ (expiretime < saved ∨ (master = true ∧ expiretime < loaded)) then none
  else some (val.texts, if expiretime = -1 then none else some expiretime)

/-- `t'` has what `t` has, and the pairs `l` as far as they are restored. -/
structure Gains (e : ℕ → Bytes → ℤ) (saved loaded : ℤ) (t : RedisServer C (Object StringValue F))
    (l : List ((ℕ × Bytes) × Object StringValue F)) (t' : RedisServer C (Object StringValue F)) :
    Prop where
  indexed : Indexed t'
  rest : Rest t t'
  gained : ∀ i ∈ l, shown t' i.1.1 i.1.2 =
    restored (!t.masterhost) saved loaded (e i.1.1 i.1.2) i.2
  kept : ∀ d key, (d, key) ∉ l.map Prod.fst → shown t' d key = shown t d key

variable {e : ℕ → Bytes → ℤ} {l l' : List ((ℕ × Bytes) × Object StringValue F)}

theorem shown_eq_none {key : Bytes} : shown t d key = none ↔ (t.db d).dict key = none :=
  Option.map_eq_none_iff

theorem Gains.nil (h : Indexed t) : Gains e saved loaded t [] t where
  indexed := h
  rest := Rest.refl t
  gained _ hi := absurd hi List.not_mem_nil
  kept _ _ _ := rfl

theorem Gains.append (h : Gains e saved loaded t l t') {t₂ : RedisServer C (Object StringValue F)}
    (h' : Gains e saved loaded t' l' t₂)
    (hdisjoint : ∀ i ∈ l, i.1 ∉ l'.map Prod.fst) : Gains e saved loaded t (l ++ l') t₂ where
  indexed := h'.indexed
  rest := h.rest.trans h'.rest
  gained i hi := by
    rcases List.mem_append.mp hi with hi | hi
    · rw [h'.kept _ _ (hdisjoint i hi), h.gained i hi]
    · rw [h'.gained i hi, h.rest.masterhost]
  kept d key hkey := by
    rw [List.map_append, List.mem_append, not_or] at hkey
    rw [h'.kept d key hkey.2, h.kept d key hkey.1]

/-- Other keys are still free. -/
theorem Gains.fresh (h : Gains e saved loaded t l t') (hdisjoint : ∀ i ∈ l, i.1 ∉ l'.map Prod.fst)
    (hfresh : ∀ i ∈ l', (t.db i.1.1).dict i.1.2 = none) :
    ∀ i ∈ l', (t'.db i.1.1).dict i.1.2 = none := by
  intro i hi
  rw [← shown_eq_none, h.kept, shown_eq_none]
  · exact hfresh i hi
  · intro hmem
    obtain ⟨i', hi', heq⟩ := List.mem_map.mp hmem
    exact hdisjoint i' hi' (heq ▸ List.mem_map_of_mem hi)

/-- A pair that was not saved. -/
theorem gains_skipped (h : Indexed t) {key : Bytes} (hkey : (t.db d).dict key = none)
    {val : Object StringValue F} (hsaved : e d key ≠ -1 ∧ e d key < saved) :
    Gains e saved loaded t [((d, key), val)] t where
  indexed := h
  rest := Rest.refl t
  gained i hi := by
    rw [List.mem_singleton.mp hi, restored, if_pos ⟨hsaved.1, .inl hsaved.2⟩]
    exact shown_eq_none.mpr hkey
  kept _ _ _ := rfl

theorem shown_setDb {key : Bytes} {val : Object StringValue F} {ex : Bytes → Option ℤ}
    (hex : ∀ k, k ≠ key → ex k = (t.db d).expires k)
    (hdb : t'.db = (t.setDb d { t.db d with
      dict := Function.update (t.db d).dict key (some val), expires := ex }).db) :
    shown t' d key = some (val.texts, ex key) ∧
      ∀ d' k, (d', k) ≠ (d, key) → shown t' d' k = shown t d' k := by
  constructor
  · rw [shown, hdb, setDb_self]
    dsimp only
    rw [Function.update_self, Option.map_some]
  · intro d' k hne
    by_cases hd : d' = d
    · subst hd
      have hk : k ≠ key := fun heq => hne (by rw [heq])
      rw [shown, hdb, setDb_self]
      dsimp only
      rw [Function.update_of_ne hk, hex k hk, shown]
    · rw [shown, hdb, setDb_of_ne t hd, shown]

theorem gains_added {key : Bytes} {val val' : Object StringValue F} {ex : Bytes → Option ℤ}
    (hval : val'.texts = val.texts) (hindexed : Indexed t') (hrest : Rest t t')
    (hself : some (val.texts, ex key) = restored (!t.masterhost) saved loaded (e d key) val)
    (hex : ∀ k, k ≠ key → ex k = (t.db d).expires k)
    (hdb : t'.db = (t.setDb d { t.db d with
      dict := Function.update (t.db d).dict key (some val'), expires := ex }).db) :
    Gains e saved loaded t [((d, key), val)] t' := by
  obtain ⟨hshown, hkept⟩ := shown_setDb hex hdb
  refine ⟨hindexed, hrest, fun i hi => ?_, fun d' key' hne => hkept d' key' fun heq => hne ?_⟩
  · rw [List.mem_singleton.mp hi, hshown, hval, hself]
  · rw [heq]
    exact List.mem_singleton_self _

/-- A pair that was read. -/
theorem addPair_spec (h : Indexed t) (hd : t.clusterEnabled = true → d = 0) {key : Bytes}
    (hkey : (t.db d).dict key = none) {val val' : Object StringValue F}
    (hval : val'.texts = val.texts) (hsaved : ¬ (e d key ≠ -1 ∧ e d key < saved)) :
    (addPair t d loaded key val' (e d key)).Ensures (fun _ => False)
      (Gains e saved loaded t [((d, key), val)]) := by
  unfold addPair
  by_cases hexpired : t.masterhost = false ∧ e d key ≠ -1 ∧ e d key < loaded
  · rw [if_pos hexpired]
    refine ⟨h, Rest.refl t, fun i hi => ?_, fun _ _ _ => rfl⟩
    rw [List.mem_singleton.mp hi, restored, if_pos ⟨hexpired.2.1, .inr ⟨by
      rw [hexpired.1, Bool.not_false], hexpired.2.2⟩⟩]
    exact shown_eq_none.mpr hkey
  · rw [if_neg hexpired]
    have hnone : (t.db d).expires key = none := by
      rw [← Option.not_isSome_iff_eq_none]
      intro hsome
      have := h.expires d key hsome
      rw [hkey] at this
      cases this
    have hrestored : restored (!t.masterhost) saved loaded (e d key) val =
        some (val.texts, if e d key = -1 then none else some (e d key)) := by
      rw [restored, if_neg]
      rintro ⟨hne, hlt | ⟨hmaster, hlt⟩⟩
      · exact hsaved ⟨hne, hlt⟩
      · exact hexpired ⟨by rwa [Bool.not_eq_true'] at hmaster, hne, hlt⟩
    refine (dbAdd_spec h hd hkey val').bind fun t₁ ht₁ => ?_
    obtain ⟨hindexed, hrest, hdb⟩ := ht₁
    have hone : t₁.db d = { t.db d with dict := Function.update (t.db d).dict key (some val') } := by
      rw [hdb, setDb_self]
    by_cases hexpire : e d key = -1
    · rw [if_neg (not_not.mpr hexpire)]
      rw [if_pos hexpire, ← hnone] at hrestored
      exact gains_added hval hindexed hrest hrestored.symm (fun _ _ => rfl) hdb
    · rw [if_pos hexpire]
      have hsome : ((t₁.db d).dict key).isSome := by
        rw [hone]
        exact Option.isSome_iff_exists.mpr ⟨val', Function.update_self _ _ _⟩
      refine (setExpire_spec hindexed hsome (e d key)).imp fun t₂ ht₂ => ?_
      have hself : (Function.update (t.db d).expires key (some (e d key)) : Bytes → Option ℤ) key =
          some (e d key) := Function.update_self _ _ _
      rw [if_neg hexpire, ← hself] at hrestored
      refine gains_added hval ht₂.1 (hrest.trans ht₂.2.1) hrestored.symm
        (fun k hk => Function.update_of_ne hk _ _) ?_
      rw [ht₂.2.2, hone]
      show Function.update t₁.db d _ = _
      rw [hdb]
      exact Function.update_idem _ _ _

/-! ### The loop of `rdbLoad` -/

/-- An opcode that is none of those of an expire. -/
theorem reads_opcode {c : UInt8} (h253 : c ≠ 253) (h252 : c ≠ 252) :
    EofReads loadExpire [c] (· = (c, -1)) :=
  (reads_type c).bind (b := []) fun type htype => by
    rw [htype, if_neg h253, if_neg h252]
    exact Reads.pure rfl

theorem reads_expire {c : UInt8} {when : ℤ} (hwhen : when ≠ -1) (hlong : IsLong when) :
    EofReads loadExpire ([252] ++ (intBytes 8 when ++ [c])) (· = (c, when)) := by
  have hval : intVal (intBytes 8 when) = when := by
    have hmin := hlong.1
    have hmax := hlong.2
    exact intVal_intBytes (by omega) (by omega)
  refine (reads_type 252).bind fun type htype => ?_
  rw [htype, if_neg (by decide), if_pos rfl]
  have htake : EofReads (rioRead 8) (intBytes 8 when) (· = intBytes 8 when) :=
    Reads.take (length_intBytes _ _).symm
  refine htake.bind fun bytes hbytes => ?_
  rw [hbytes, hval, if_neg hwhen]
  exact ((reads_type c).imp fun type htype => by rw [htype]).map

/-- The types of objects; opcodes are greater. -/
theorem objectType_ok (o : Object StringValue F) :
    rdbSaveObjectType o ≤ 4 ∨ (9 ≤ rdbSaveObjectType o ∧ rdbSaveObjectType o ≤ 13) := by
  cases o with
  | blob type bytes => cases type <;> exact of_decide_eq_true rfl
  | _ => exact of_decide_eq_true rfl

/-- The opcode in front of a pair that is saved, with its expire. -/
theorem reads_pair {n : ℕ} {key : Bytes} {val : Object StringValue F} (hkey : Fits key.length)
    (hval : val.Fits) (hlong : IsLong (e d key)) (hsaved : ¬ (e d key ≠ -1 ∧ e d key < saved))
    (h : Indexed t) (hd : t.clusterEnabled = true → d = 0) (hfree : (t.db d).dict key = none)
    (hnext : ∀ t', Gains e saved loaded t [((d, key), val)] t' →
      EofReads (loadLoop fmt loaded n t' d) a Q) :
    EofReads (loadLoop fmt loaded (n + 1) t d)
      (rdbSaveKeyValuePair fmt compression key val (e d key) saved ++ a) Q := by
  have hne : ∀ c : UInt8, 252 ≤ c → rdbSaveObjectType val ≠ c := by
    rintro c hc rfl
    rcases objectType_ok val with hle | ⟨-, hle⟩
    · exact absurd (UInt8.le_trans hc hle) (by decide)
    · exact absurd (UInt8.le_trans hc hle) (by decide)
  have hopcode : ∃ pre, rdbSaveKeyValuePair fmt compression key val (e d key) saved =
      (pre ++ [rdbSaveObjectType val]) ++ (rdbSaveRawString fmt compression key ++
        rdbSaveObject fmt compression val) ∧
      EofReads loadExpire (pre ++ [rdbSaveObjectType val])
        (· = (rdbSaveObjectType val, e d key)) := by
    unfold rdbSaveKeyValuePair
    by_cases hexpire : e d key = -1
    · refine ⟨[], by rw [if_pos hexpire]; rfl, ?_⟩
      rw [hexpire]
      exact reads_opcode (hne _ (by decide)) (hne _ (by decide))
    · refine ⟨[252] ++ intBytes 8 (e d key), ?_, ?_⟩
      · rw [if_neg hexpire, if_neg fun hlt => hsaved ⟨hexpire, hlt⟩]
        simp
      · rw [List.append_assoc]
        exact reads_expire hexpire hlong
  obtain ⟨pre, htext, hread⟩ := hopcode
  rw [htext, List.append_assoc]
  refine hread.bind fun op hop => ?_
  rw [hop, if_neg (hne 255 (by decide)), if_neg (hne 254 (by decide)), List.append_assoc]
  refine (reads_rawString hkey).bind fun key' hkey' => (reads_object hval).bind fun val' hval' => ?_
  rw [hkey']
  obtain ⟨t', ht', hgains⟩ := (addPair_spec h hd hfree hval' hsaved).returns
  rw [ht']
  exact Reads.bind (a := []) (P := (· = t')) (Reads.pure rfl) fun t₁ ht₁ => by
    rw [ht₁]
    exact hnext t' hgains

/-- The keys of a database. -/
theorem loadLoop_pairs {ps : List (Bytes × Object StringValue F)}
    (hnodup : (ps.map Prod.fst).Nodup)
    (hfits : ∀ p ∈ ps, Fits p.1.length ∧ p.2.Fits ∧ IsLong (e d p.1))
    (h : Indexed t) (hd : t.clusterEnabled = true → d = 0)
    (hfree : ∀ p ∈ ps, (t.db d).dict p.1 = none)
    (hnext : ∀ t', Gains e saved loaded t (ps.map fun p => ((d, p.1), p.2)) t' →
      ∀ n ≥ m, EofReads (loadLoop fmt loaded n t' d) a Q) :
    ∀ n ≥ ps.length + m, EofReads (loadLoop fmt loaded n t d)
      ((ps.flatMap fun p => rdbSaveKeyValuePair fmt compression p.1 p.2 (e d p.1) saved) ++ a) Q := by
  induction ps generalizing t with
  | nil => exact fun n hn => hnext t (Gains.nil h) n (by rwa [List.length_nil, Nat.zero_add] at hn)
  | cons p ps ih =>
    intro n hn
    rw [List.length_cons] at hn
    rw [List.map_cons, List.nodup_cons] at hnodup
    rw [List.forall_mem_cons] at hfits hfree
    have hdisjoint : ∀ i ∈ [((d, p.1), p.2)],
        i.1 ∉ (ps.map fun p => ((d, p.1), p.2)).map Prod.fst := by
      intro i hi hmem
      rw [List.mem_singleton.mp hi, List.map_map] at hmem
      obtain ⟨p', hp', heq⟩ := List.mem_map.mp hmem
      exact hnodup.1 (List.mem_map.mpr ⟨p', hp', congrArg Prod.snd heq⟩)
    have hrest : ∀ t', Gains e saved loaded t [((d, p.1), p.2)] t' → ∀ n ≥ ps.length + m,
        EofReads (loadLoop fmt loaded n t' d) ((ps.flatMap fun p =>
          rdbSaveKeyValuePair fmt compression p.1 p.2 (e d p.1) saved) ++ a) Q := by
      intro t' ht'
      refine ih hnodup.2 hfits.2 ht'.indexed (fun hc => hd (by rwa [ht'.rest.clusterEnabled] at hc))
        (fun p' hp' => ?_) fun t₂ ht₂ => hnext t₂ (ht'.append ht₂ hdisjoint)
      refine ht'.fresh hdisjoint (fun i hi => ?_) ((d, p'.1), p'.2)
        (List.mem_map.mpr ⟨p', hp', rfl⟩)
      obtain ⟨p₁, hp₁, rfl⟩ := List.mem_map.mp hi
      exact hfree.2 p₁ hp₁
    rw [List.flatMap_cons, List.append_assoc]
    by_cases hsaved : e d p.1 ≠ -1 ∧ e d p.1 < saved
    · rw [rdbSaveKeyValuePair, if_neg hsaved.1, if_pos hsaved.2]
      exact hrest t (gains_skipped h hfree.1 hsaved) n (by omega)
    · obtain ⟨n, rfl⟩ : ∃ k, n = k + 1 := ⟨n - 1, by omega⟩
      exact reads_pair hfits.1.1 hfits.1.2.1 hfits.1.2.2 hsaved h hd hfree.1
        fun t' ht' => hrest t' ht' n (by omega)

/-! ### Files -/

variable {pairs : ℕ → List (Bytes × Object StringValue F)} {js : List ℕ}

/-- The pairs of the database `j`, with the keys of the whole server. -/
def entries (pairs : ℕ → List (Bytes × Object StringValue F)) (j : ℕ) :
    List ((ℕ × Bytes) × Object StringValue F) := (pairs j).map fun p => ((j, p.1), p.2)

/-- The rounds of the loop for the databases `js`. -/
def rounds (pairs : ℕ → List (Bytes × Object StringValue F)) (js : List ℕ) : ℕ :=
  (js.map fun j => (pairs j).length + 1).sum + 1

/-- The databases `js` can be loaded into `t`. -/
structure Loadable (s t : RedisServer C (Object StringValue F))
    (pairs : ℕ → List (Bytes × Object StringValue F)) (js : List ℕ) : Prop where
  indexed : Indexed t
  nodup : js.Nodup
  keys : ∀ j ∈ js, ((pairs j).map Prod.fst).Nodup
  fits : ∀ j ∈ js, ∀ p ∈ pairs j, Fits p.1.length ∧ p.2.Fits ∧ IsLong (expireOf s j p.1)
  db : ∀ j ∈ js, Fits j ∧ j < t.dbnum
  free : ∀ i ∈ js.flatMap (entries pairs), (t.db i.1.1).dict i.1.2 = none
  cluster : t.clusterEnabled = true → ∀ j ∈ js, pairs j ≠ [] → j = 0

theorem mem_entries {i : (ℕ × Bytes) × Object StringValue F} {j : ℕ} :
    i ∈ entries pairs j ↔ i.1.1 = j ∧ (i.1.2, i.2) ∈ pairs j := by
  constructor
  · intro h
    obtain ⟨p, hp, rfl⟩ := List.mem_map.mp h
    exact ⟨rfl, hp⟩
  · rintro ⟨rfl, h⟩
    exact List.mem_map.mpr ⟨_, h, rfl⟩

theorem entries_disjoint {j : ℕ} (hj : j ∉ js) :
    ∀ i ∈ entries pairs j, i.1 ∉ (js.flatMap (entries pairs)).map Prod.fst := by
  intro i hi hmem
  obtain ⟨i', hi', heq⟩ := List.mem_map.mp hmem
  obtain ⟨j', hj', hi'⟩ := List.mem_flatMap.mp hi'
  have hfst : i'.1.1 = i.1.1 := congrArg Prod.fst heq
  rw [(mem_entries.mp hi).1, (mem_entries.mp hi').1] at hfst
  exact hj (hfst ▸ hj')

/-- What is left after the first database. -/
theorem Loadable.tail {j : ℕ} (h : Loadable s t pairs (j :: js))
    (hgains : Gains e saved loaded t (entries pairs j) t') : Loadable s t' pairs js where
  indexed := hgains.indexed
  nodup := h.nodup.of_cons
  keys k hk := h.keys k (List.mem_cons_of_mem _ hk)
  fits k hk := h.fits k (List.mem_cons_of_mem _ hk)
  db k hk := by
    rw [hgains.rest.dbnum]
    exact h.db k (List.mem_cons_of_mem _ hk)
  free := hgains.fresh (entries_disjoint (List.nodup_cons.mp h.nodup).1) fun i hi =>
    h.free i (by rw [List.flatMap_cons]; exact List.mem_append_right _ hi)
  cluster hc k hk := by
    rw [hgains.rest.clusterEnabled] at hc
    exact h.cluster hc k (List.mem_cons_of_mem _ hk)

/-- All databases, and the end of the file. -/
theorem loadLoop_dbs (h : Loadable s t pairs js) :
    ∀ n ≥ rounds pairs js, EofReads (loadLoop fmt loaded n t d)
      (js.flatMap (saveDb fmt compression s saved pairs) ++ [255])
      (Gains (expireOf s) saved loaded t (js.flatMap (entries pairs))) := by
  induction js generalizing t d with
  | nil =>
    intro n hn
    obtain ⟨n, rfl⟩ : ∃ k, n = k + 1 := ⟨n - 1, by unfold rounds at hn; omega⟩
    refine (reads_opcode (by decide) (by decide)).bind (b := []) fun op hop => ?_
    rw [hop, if_pos rfl]
    exact Reads.pure (Gains.nil h.indexed)
  | cons j js ih =>
    intro n hn
    have hj := List.mem_cons_self (a := j) (l := js)
    have hcount : rounds pairs (j :: js) = (pairs j).length + 1 + rounds pairs js := by
      rw [rounds, rounds, List.map_cons, List.sum_cons]
      omega
    rw [hcount] at hn
    have hdisjoint : ∀ i ∈ entries pairs j, i.1 ∉ (js.flatMap (entries pairs)).map Prod.fst :=
      entries_disjoint (List.nodup_cons.mp h.nodup).1
    rw [List.flatMap_cons, List.flatMap_cons, List.append_assoc, saveDb]
    by_cases hnil : pairs j = []
    · have hsame : Gains (expireOf s) saved loaded t (entries pairs j) t := by
        rw [entries, hnil]
        exact Gains.nil h.indexed
      rw [if_pos hnil, List.nil_append, entries, hnil, List.map_nil, List.nil_append]
      exact ih (h.tail hsame) n (by omega)
    · rw [if_neg hnil]
      obtain ⟨n, rfl⟩ : ∃ k, n = k + 1 := ⟨n - 1, by omega⟩
      refine (reads_opcode (c := 254) (by decide) (by decide)).bind (b := _ ++ _) fun op hop => ?_
      rw [hop, if_neg (by decide), if_pos rfl, List.append_assoc]
      refine (reads_len (h.db j hj).1).bind fun dbid hdbid => ?_
      rw [hdbid, if_neg (by have := (h.db j hj).2; omega)]
      refine loadLoop_pairs (m := rounds pairs js) (h.keys j hj) (h.fits j hj) h.indexed
        (fun hc => h.cluster hc j hj hnil) (fun p hp => ?_) (fun t' ht' k hk => ?_) n (by omega)
      · refine h.free ((j, p.1), p.2) (List.mem_flatMap.mpr ⟨j, hj, ?_⟩)
        exact mem_entries.mpr ⟨rfl, hp⟩
      · exact (ih (h.tail ht') k hk).imp fun t₂ ht₂ => Gains.append ht' ht₂ hdisjoint

/-- `pairs` are the keys and objects of the databases, and they can be saved. -/
structure Snapshot (s : RedisServer C (Object StringValue F))
    (pairs : ℕ → List (Bytes × Object StringValue F)) : Prop where
  nodup : ∀ d < s.dbnum, ((pairs d).map Prod.fst).Nodup
  mem : ∀ d < s.dbnum, ∀ key val, (key, val) ∈ pairs d ↔ (s.db d).dict key = some val
  fits : ∀ d < s.dbnum, ∀ p ∈ pairs d, Fits p.1.length ∧ p.2.Fits ∧ IsLong (expireOf s d p.1)

/-- The version and the dataset. -/
theorem loadBody_spec (h : Loadable s t pairs (List.range s.dbnum)) {n : ℕ}
    (hn : rounds pairs (List.range s.dbnum) ≤ n) :
    EofReads (loadBody fmt n loaded t) (saveBody fmt compression s saved pairs) fun r => r.1 = 6 ∧
      Gains (expireOf s) saved loaded t ((List.range s.dbnum).flatMap (entries pairs)) r.2 := by
  have htake : EofReads (rioRead 9) signature (· = signature) := Reads.take rfl
  refine htake.bind fun buf hbuf => ?_
  have hmagic : signature.take 5 = RedisCommands.ascii "REDIS".toList := rfl
  have hversion : RedisCommands.atoi (signature.drop 5) = 6 := rfl
  rw [hbuf, hversion, if_neg (not_not.mpr hmagic), if_neg (by omega)]
  exact ((loadLoop_dbs h n hn).imp fun t' ht' => ⟨rfl, ht'⟩).map

/-- What a key of the loaded dataset is. -/
theorem Gains.shown_restored (hs : Snapshot s pairs)
    (hempty : ∀ d key, (t.db d).dict key = none)
    (h : Gains (expireOf s) saved loaded t ((List.range s.dbnum).flatMap (entries pairs)) t')
    (d : ℕ) (key : Bytes) : shown t' d key = if d < s.dbnum then ((s.db d).dict key).bind
      (restored (!t.masterhost) saved loaded (expireOf s d key)) else none := by
  have hkept : (∀ val, d < s.dbnum → (s.db d).dict key ≠ some val) → shown t' d key = none := by
    intro hnone
    rw [h.kept, shown_eq_none.mpr (hempty d key)]
    intro hmem
    obtain ⟨i, hi, heq⟩ := List.mem_map.mp hmem
    obtain ⟨j, hj, hi⟩ := List.mem_flatMap.mp hi
    obtain ⟨rfl, hi⟩ := mem_entries.mp hi
    rw [heq] at hj hi
    have hlt := List.mem_range.mp hj
    exact hnone i.2 hlt ((hs.mem d hlt key i.2).mp hi)
  split
  · rename_i hd
    cases hval : (s.db d).dict key with
    | none => exact hkept fun val _ => by rw [hval]; exact Option.some_ne_none val ∘ Eq.symm
    | some val =>
      refine h.gained ((d, key), val) (List.mem_flatMap.mpr ⟨d, List.mem_range.mpr hd, ?_⟩)
      exact mem_entries.mpr ⟨rfl, (hs.mem d hd key val).mpr hval⟩
  · rename_i hd
    exact hkept fun _ hlt => absurd hlt hd

theorem reads_cksum {sum expected : UInt64} (h : sum = 0 ∨ sum = expected) :
    EofReads (checkCksum true 6 expected) (leBytes 8 sum.toNat) fun _ => True := by
  have htake : EofReads (rioRead 8) (leBytes 8 sum.toNat) (· = leBytes 8 sum.toNat) :=
    Reads.take (length_leBytes _ _).symm
  rw [checkCksum, if_pos ⟨by decide, rfl⟩, ← List.append_nil (leBytes 8 sum.toNat)]
  refine htake.bind fun bytes hbytes => ?_
  rw [hbytes, leVal_leBytes_of_lt sum.toNat_lt]
  by_cases hzero : sum.toNat = 0
  · rw [if_pos hzero]
    exact Reads.pure trivial
  · have hsum : sum = expected := h.resolve_left fun hsum => hzero (by rw [hsum]; rfl)
    rw [if_neg hzero, hsum, if_neg (not_not.mpr rfl)]
    exact Reads.pure trivial

theorem rdbLoad_of_ok {checksum : Bool} {n : ℕ} {file rest : Bytes}
    (h : loadBody fmt n loaded t file = .ok ((6, t'), rest)) :
    rdbLoad fmt checksum n loaded t file =
      (checkCksum checksum 6 (crc64 0 (file.take (file.length - rest.length))) rest).map
        fun _ => t' := by
  show (loadBody fmt n loaded t file).bind _ = _
  rw [h]
  show (checkCksum checksum 6 _ rest).bind _ = _
  cases checkCksum checksum 6 _ rest <;> rfl

theorem rdbLoad_of_error {checksum : Bool} {n : ℕ} {file : Bytes}
    (h : loadBody fmt n loaded t file = .error .eoferr) :
    rdbLoad fmt checksum n loaded t file = .error .eoferr := by
  show (loadBody fmt n loaded t file).bind _ = _
  rw [h]
  rfl

/-- A dataset that was saved is loaded, but for the keys that expired; a file that was cut before
what is read of it ends is not loaded. -/
theorem rdb_round_trip (fmt : Format F) (compression checksum checksum' : Bool)
    {s t : RedisServer C (Object StringValue F)}
    {pairs : ℕ → List (Bytes × Object StringValue F)} (hs : Snapshot s pairs)
    (hdbnum : s.dbnum ≤ t.dbnum) (hint : t.dbnum < 2 ^ 31) (ht : Indexed t)
    (hempty : ∀ d key, (t.db d).dict key = none)
    (hcluster : t.clusterEnabled = true → ∀ d < s.dbnum, pairs d ≠ [] → d = 0)
    (saved loaded : ℤ) : ∃ m, ∀ fuel ≥ m,
      (∃ t', rdbLoad fmt checksum' fuel loaded t (rdbSave fmt compression s checksum saved pairs) =
          .ok t' ∧
        ∀ d key, shown t' d key = if d < s.dbnum then ((s.db d).dict key).bind
          (restored (!t.masterhost) saved loaded (expireOf s d key)) else none) ∧
      ∀ u, u <+: rdbSave fmt compression s checksum saved pairs →
        u.length + (if checksum' then 0 else 8) <
          (rdbSave fmt compression s checksum saved pairs).length →
        rdbLoad fmt checksum' fuel loaded t u = .error .eoferr := by
  have hload : Loadable s t pairs (List.range s.dbnum) := by
    refine ⟨ht, List.nodup_range, fun j hj => hs.nodup j (List.mem_range.mp hj),
      fun j hj => hs.fits j (List.mem_range.mp hj), fun j hj => ?_, fun i _ => hempty _ _,
      fun hc j hj => hcluster hc j (List.mem_range.mp hj)⟩
    have hlt := List.mem_range.mp hj
    exact ⟨show j < 2 ^ 32 - 1 by omega, by omega⟩
  refine ⟨rounds pairs (List.range s.dbnum), fun fuel hfuel => ?_⟩
  have hbody : EofReads (loadBody fmt fuel loaded t) (saveBody fmt compression s saved pairs) _ :=
    loadBody_spec hload hfuel
  obtain ⟨⟨version, t'⟩, ⟨hversion, hgains⟩, hread⟩ := hbody.whole
  obtain rfl : version = 6 := hversion
  generalize hgen : saveBody fmt compression s saved pairs = body at hbody hread
  obtain ⟨sum, hsum, hfile⟩ : ∃ sum : UInt64, (sum = 0 ∨ sum = crc64 0 body) ∧
      rdbSave fmt compression s checksum saved pairs = body ++ leBytes 8 sum.toNat := by
    rw [← hgen]
    cases checksum with
    | true => exact ⟨_, .inr rfl, rfl⟩
    | false => exact ⟨_, .inl rfl, rfl⟩
  have htake : ∀ v : Bytes, (body ++ v).take ((body ++ v).length - v.length) = body := fun v => by
    rw [List.length_append, Nat.add_sub_cancel, List.take_left]
  rw [hfile]
  refine ⟨⟨t', ?_, hgains.shown_restored hs hempty⟩, fun u hu hlt => ?_⟩
  · rw [rdbLoad_of_ok (hread _), htake]
    cases checksum' with
    | true =>
      obtain ⟨_, -, hcheck⟩ := (reads_cksum hsum).whole
      rw [← List.append_nil (leBytes 8 sum.toNat), hcheck []]
      rfl
    | false => rfl
  · rw [List.length_append, length_leBytes] at hlt
    have hbodypre := List.prefix_append body (leBytes 8 sum.toNat)
    by_cases hshort : u.length < body.length
    · refine rdbLoad_of_error (hbody.cut u ?_ fun heq => ?_)
      · exact List.prefix_of_prefix_length_le hu hbodypre hshort.le
      · exact absurd hshort (by rw [heq]; exact lt_irrefl _)
    · -- Only a part of the checksum is missing.
      obtain ⟨v, rfl⟩ := List.prefix_of_prefix_length_le hbodypre hu (not_lt.mp hshort)
      rw [rdbLoad_of_ok (hread v), htake]
      rw [List.prefix_append_right_inj] at hu
      rw [List.length_append] at hlt
      cases checksum' with
      | true =>
        have hcut := (reads_cksum hsum).cut v hu fun heq => by
          rw [heq, length_leBytes, if_pos rfl] at hlt
          exact absurd hlt (lt_irrefl _)
        rw [hcut]
        rfl
      | false =>
        rw [if_neg Bool.false_ne_true] at hlt
        omega

end

/-- Nothing can be compressed, and the only score is 0. -/
def plainFormat : Format Unit where
  lzf.compress _ _ := none
  lzf.decompress _ _ := none
  lzf.length_compress _ _ _ h := nomatch h
  lzf.decompress_compress _ _ _ h := nomatch h
  scores.print _ := .digits [48]
  scores.scan _ := ()
  scores.length_print x s h := by cases h; decide
  scores.scan_print _ := rfl

def freshServer : RedisServer Unit (Object StringValue Unit) := initServer 15 false [()] fun _ => 0

/-- A list with one element, for the key `a` of the first database. -/
def oneList : ℕ → List (Bytes × Object StringValue Unit)
  | 0 => [([97], .list [.raw [120]])]
  | _ + 1 => []

def oneListServer : RedisServer Unit (Object StringValue Unit) :=
  { freshServer with db := fun d => { freshServer.db d with dict := fun key => (oneList d).lookup key } }

theorem rdb_round_trip_list : ∃ m, ∀ fuel ≥ m, ∃ t',
    rdbLoad plainFormat true fuel 7 freshServer
      (rdbSave plainFormat true oneListServer true 5 oneList) = .ok t' ∧
    shown t' 0 [97] = some (.list [[120]], none) := by
  have hs : Snapshot oneListServer oneList := by
    refine ⟨fun d _ => ?_, fun d _ key val => ?_, fun d _ p hp => ?_⟩
    · cases d with
      | zero => exact List.nodup_singleton _
      | succ d => exact List.nodup_nil
    · cases d with
      | zero =>
        by_cases hkey : key = [97]
        · simp [oneListServer, oneList, hkey, eq_comm]
        · simp [oneListServer, oneList, List.lookup_cons, beq_eq_false_iff_ne.mpr hkey, hkey]
      | succ d => simp [oneListServer, oneList]
    · cases d with
      | zero =>
        rw [List.mem_singleton.mp hp]
        refine ⟨by decide, ⟨by decide, fun e he => ?_⟩, by decide⟩
        rw [List.mem_singleton.mp he]
        decide
      | succ d => exact absurd hp List.not_mem_nil
  obtain ⟨m, hm⟩ := rdb_round_trip (t := freshServer) plainFormat true true true hs
    (by decide) (by decide) (sound_initServer 15 false [()] fun _ => 0).indexed (fun _ _ => rfl)
    (fun h => nomatch h) 5 7
  refine ⟨m, fun fuel hfuel => ?_⟩
  obtain ⟨t', hload, hshown⟩ := (hm fuel hfuel).1
  exact ⟨t', hload, hshown 0 [97]⟩

end Rdb
