/-
Walking a ziplist in both directions, and counting its entries.

Going forward relies on the encodings of the entries, going backward on their
prevlen fields and on the tail offset; `Traversal zl n` says that both visit the
same `n` places and that `ziplistLen` counts them.

* `visitNext_eq`, `visitPrev_eq` — the two walks over a well-formed ziplist;
* `IsZiplist.traversal` — every well-formed ziplist can be traversed;
* `run_traversal` — so can every ziplist that insertions, deletions and calls of
  `ziplistLen` produce, as long as it stays below `2 ^ 32` bytes and no insertion
  clobbers it;
* `run_traversal_clobbered` — a run with an insertion that does.
-/
import RedisModel.ZiplistRead

open ByteBuffer StringNumber

namespace Ziplist

/-! ### The walks -/

/-- The entries visited by `ziplistNext`, from `p` on. -/
def visitNext (zl : Bytes) : ℕ → Option ℕ → Option (List ℕ)
  | 0, _ => none
  | _ + 1, none => some []
  | fuel + 1, some p => do
    let next ← ziplistNext zl p
    let rest ← visitNext zl fuel next
    some (p :: rest)

/-- The entries visited by `ziplistPrev`, from `p` on. -/
def visitPrev (zl : Bytes) : ℕ → Option ℕ → Option (List ℕ)
  | 0, _ => none
  | _ + 1, none => some []
  | fuel + 1, some p => do
    let prev ← ziplistPrev zl p
    let rest ← visitPrev zl fuel prev
    some (p :: rest)

/-- `ziplistNext` again and again, starting with the entry at the head. -/
def iterateNext (zl : Bytes) : Option (List ℕ) := do
  let b ← zl[ziplistHeaderSize]?
  visitNext zl (zl.length + 1) (if b = zipEnd then none else some ziplistHeaderSize)

/-- `ziplistPrev` again and again, starting at the end marker. -/
def iteratePrev (zl : Bytes) : Option (List ℕ) := do
  let bytes ← ziplistBytes zl
  let last ← ziplistPrev zl (bytes - 1)
  visitPrev zl (zl.length + 1) last

/-- The offsets of the entries `es`, the first of which is at `p`. -/
def places : ℕ → List Entry → List ℕ
  | _, [] => []
  | p, e :: es => p :: places (p + e.raw) es

theorem length_places (p : ℕ) (es : List Entry) : (places p es).length = es.length := by
  induction es generalizing p with
  | nil => rfl
  | cons e es ih => rw [places, List.length_cons, List.length_cons, ih]

theorem places_append (p : ℕ) (a b : List Entry) :
    places p (a ++ b) = places p a ++ places (p + size a) b := by
  induction a generalizing p with
  | nil => rfl
  | cons e a ih =>
    rw [List.cons_append, places, places, ih, size_cons, Nat.add_assoc, List.cons_append]

theorem getElem?_places {p i : ℕ} {es : List Entry} (hi : i < es.length) :
    (places p es)[i]? = some (p + size (es.take i)) := by
  induction es generalizing p i with
  | nil => exact absurd hi (Nat.not_lt_zero i)
  | cons e es ih =>
    rcases i with _ | i
    · rfl
    · rw [places, List.getElem?_cons_succ, ih (by simpa using hi), List.take_succ_cons, size_cons,
        Nat.add_assoc]

section
variable {zl : Bytes} {a b es : List Entry}

theorem visitNext_eq {fuel : ℕ} (h : IsZiplist zl (a ++ b)) (hfuel : b.length < fuel) :
    visitNext zl fuel (if b = [] then none else some (size a + 10))
      = some (places (size a + 10) b) := by
  induction b generalizing a fuel with
  | nil =>
    obtain ⟨fuel, rfl⟩ : ∃ k, fuel = k + 1 := ⟨fuel - 1, by simp at hfuel; omega⟩
    rw [if_pos rfl, visitNext, places]
  | cons e b ih =>
    obtain ⟨fuel, rfl⟩ : ∃ k, fuel = k + 1 := ⟨fuel - 1, by simp at hfuel; omega⟩
    have hnext := ziplistNext_mid h
    have hpos : size a + 10 + e.raw = size (a ++ [e]) + 10 := by
      rw [size_append, size_cons, size_nil]
      omega
    rw [List.append_cons] at h
    have hrest := ih h (by simpa using hfuel)
    rw [if_neg (by simp), visitNext, hnext, Option.bind_eq_bind, Option.bind_some, hrest,
      Option.bind_eq_bind, Option.bind_some, places, hpos]

theorem iterateNext_eq (h : IsZiplist zl es) : iterateNext zl = some (places 10 es) := by
  have hlen := h.length_eq
  have hle := length_le_size es
  have hvisit : visitNext zl (zl.length + 1) (if es = [] then none else some (size [] + 10))
      = some (places (size [] + 10) es) := visitNext_eq h (by omega)
  have hhead : size ([] : List Entry) + 10 = ziplistHeaderSize := rfl
  rw [hhead] at hvisit
  rw [iterateNext]
  rcases es with _ | ⟨e, es⟩
  · have hend : zl[ziplistHeaderSize]? = some zipEnd := h.getElem?_end
    rw [hend, Option.bind_eq_bind, Option.bind_some, if_pos rfl]
    exact hvisit
  · rw [← List.nil_append (e :: es)] at h
    obtain ⟨c, hc, hne⟩ := h.getElem?_mid
    rw [hhead] at hc
    rw [hc, Option.bind_eq_bind, Option.bind_some, if_neg hne]
    rw [if_neg (by simp)] at hvisit
    exact hvisit

theorem ziplistPrev_end (h : IsZiplist zl es) : ziplistPrev zl (size es + 10)
    = some (if es = [] then none else some (tailSize es + 10)) := by
  have htail := h.header.2.1
  simp only [ziplistPrev, h.getElem?_end, htail, Option.bind_eq_bind, Option.bind_some, if_true]
  rcases List.eq_nil_or_concat' es with rfl | ⟨a, e, rfl⟩
  · have hend : zl[tailSize [] + 10]? = some zipEnd := h.getElem?_end
    rw [hend, Option.bind_some, if_pos rfl, if_pos rfl]
  · have hsize : tailSize (a ++ [e]) = size a := by simp [tailSize]
    obtain ⟨c, hc, hne⟩ := h.getElem?_mid
    rw [hsize, hc, Option.bind_some, if_neg hne, if_neg (by simp)]

theorem visitPrev_eq {fuel : ℕ} (h : IsZiplist zl (a ++ b)) (hfuel : a.length < fuel) :
    visitPrev zl fuel (if a = [] then none else some (tailSize a + 10))
      = some (places 10 a).reverse := by
  induction fuel generalizing a b with
  | zero => exact absurd hfuel (Nat.not_lt_zero _)
  | succ fuel ih =>
    rcases List.eq_nil_or_concat' a with rfl | ⟨a, e, rfl⟩
    · rw [if_pos rfl, visitPrev]
      rfl
    · have hsize : tailSize (a ++ [e]) = size a := by simp [tailSize]
      rw [List.append_assoc, List.singleton_append] at h
      -- the entry before the current one is the last of `a`
      have hprev : ziplistPrev zl (size a + 10)
          = some (if a = [] then none else some (tailSize a + 10)) := by
        rcases List.eq_nil_or_concat' a with rfl | ⟨a, d, rfl⟩
        · exact ziplistPrev_head h
        · have htail : tailSize (a ++ [d]) = size a := by simp [tailSize]
          rw [List.append_assoc, List.singleton_append] at h
          rw [ziplistPrev_mid h, if_neg (by simp), htail]
      have hrest := ih h (by simpa using hfuel)
      rw [if_neg (by simp), visitPrev, hsize, hprev, Option.bind_eq_bind, Option.bind_some, hrest,
        Option.bind_eq_bind, Option.bind_some, places_append, List.reverse_append, Nat.add_comm]
      rfl

theorem iteratePrev_eq (h : IsZiplist zl es) : iteratePrev zl = some (places 10 es).reverse := by
  have hlen := h.length_eq
  have hle := length_le_size es
  have hlast : zl.length - 1 = size es + 10 := by omega
  have hwhole := h
  rw [← List.append_nil es] at hwhole
  rw [iteratePrev, h.header.1, Option.bind_eq_bind, Option.bind_some, hlast, ziplistPrev_end h,
    Option.bind_eq_bind, Option.bind_some]
  exact visitPrev_eq hwhole (by omega)

end

/-! ### Traversals -/

/-- A ziplist of `n` entries can be walked in both directions, indexed from both
ends and counted: `ziplistLen` leaves the number of entries in the header, or
65535 where the number does not fit. -/
structure Traversal (zl : Bytes) (n : ℕ) : Prop where
  intro ::
  walks : ∃ ps : List ℕ, ps.length = n ∧ iterateNext zl = some ps ∧
    iteratePrev zl = some ps.reverse ∧
    ∀ i < n, ∃ p ∈ ps[i]?, ziplistIndex zl i = some (some p) ∧
      ziplistIndex zl ((i : ℤ) - n) = some (some p)
  beyond : ∀ i : ℤ, n ≤ i ∨ i < -n → ziplistIndex zl i = some none
  len : ∃ zl', ziplistLen zl = some (n, zl') ∧
    ziplistLength zl' = some (if n < 65535 then n else 65535)

theorem ziplistLen_counter {zl : Bytes} {es : List Entry} (h : IsZiplist zl es) :
    ∃ zl', ziplistLen zl = some (es.length, zl') ∧ IsZiplist zl' es ∧
      ziplistLength zl' = some (if es.length < 65535 then es.length else 65535) := by
  obtain ⟨zl', hlen, h'⟩ := ziplistLen_eq h
  refine ⟨zl', hlen, h', ?_⟩
  obtain ⟨C, ⟨hC, hor⟩, rfl⟩ := h.block
  obtain ⟨C', ⟨hC', hor'⟩, rfl⟩ := h'.block
  have hread : ∀ {c : ℕ}, c ≤ 65535 → ziplistLength (image c es) = some c := by
    intro c hc
    exact ziplistLength_layout (by omega)
  rw [hread hC', Option.some_inj]
  simp only [ziplistLen, hread hC, Option.bind_eq_bind, Option.bind_some] at hlen
  by_cases hlt : C < 65535
  · -- an exact count is left as it is
    rw [if_pos hlt, Option.some_inj, Prod.mk.injEq] at hlen
    have hsame := hread hC
    rw [hlen.2, hread hC', Option.some_inj] at hsame
    rw [if_pos (by omega)]
    omega
  · rw [if_neg hlt] at hlen
    obtain ⟨n, hn, hlen⟩ := Option.bind_eq_some_iff.mp hlen
    by_cases hsmall : n < 65535
    · -- the count is stored again
      rw [if_pos hsmall] at hlen
      obtain ⟨zl₁, hset, hlen⟩ := Option.bind_eq_some_iff.mp hlen
      obtain ⟨rfl, rfl⟩ := Prod.mk.inj (Option.some_inj.mp hlen)
      have hstored : ziplistLength (image C' es) = some es.length := by
        rw [image, setZiplistLength_layout rfl, Option.some_inj] at hset
        rw [← hset]
        exact ziplistLength_layout (by omega)
      rw [hread hC', Option.some_inj] at hstored
      rw [if_pos hsmall, hstored]
    · rw [if_neg hsmall] at hlen
      obtain ⟨rfl, hsame⟩ := Prod.mk.inj (Option.some_inj.mp hlen)
      have hstays := hread hC
      rw [hsame, hread hC', Option.some_inj] at hstays
      rw [if_neg hsmall]
      omega

theorem IsZiplist.traversal {zl : Bytes} {es : List Entry} (h : IsZiplist zl es) :
    Traversal zl es.length := by
  refine ⟨⟨places 10 es, length_places 10 es, iterateNext_eq h, iteratePrev_eq h, ?_⟩, ?_, ?_⟩
  · intro i hi
    refine ⟨size (es.take i) + 10, ?_, ?_, ?_⟩
    · rw [getElem?_places hi, Nat.add_comm]
      rfl
    · rw [ziplistIndex_nat h, if_pos hi]
    · have hcast : (i : ℤ) - es.length = -((es.length - i - 1 : ℕ) + 1 : ℕ) := by omega
      have htake : es.length - (es.length - i - 1 + 1) = i := by omega
      rw [hcast, ziplistIndex_neg h, if_pos (by omega), htake]
  · rintro i (hi | hi)
    · obtain ⟨k, rfl⟩ := Int.eq_ofNat_of_zero_le (by omega : 0 ≤ i)
      rw [ziplistIndex_nat h, if_neg (by omega)]
    · obtain ⟨k, rfl⟩ : ∃ k : ℕ, i = -(k + 1 : ℕ) := ⟨(-i - 1).toNat, by omega⟩
      rw [ziplistIndex_neg h, if_neg (by omega)]
  · obtain ⟨zl', hlen, -, hcounter⟩ := ziplistLen_counter h
    exact ⟨zl', hlen, hcounter⟩

/-! ### Runs -/

/-- A call: an insertion or deletion, with the content of the memory the allocator
adds, or `ziplistLen`, which may repair the counter. -/
inductive Call where
  | edit (junk : ℕ → UInt8) (op : Op)
  | len

namespace Call

/-- The block after a call. -/
def onZiplist : Call → Bytes → Option Bytes
  | edit junk op, zl => op.onZiplist junk zl
  | len, zl => (ziplistLen zl).map Prod.snd

/-- The insertions and deletions among the calls. -/
def edits (calls : List Call) : List Op :=
  calls.filterMap fun
    | edit _ op => some op
    | len => none

end Call

/-- The number of entries after an operation on `n` entries. -/
def Op.onCount : Op → ℕ → ℕ
  | .insert _ _, n => n + 1
  | .delete i num, n => n - min num (n - i)

theorem Op.length_onEntries {op : Op} {es : List Entry} (h : op.Valid es) :
    (op.onEntries es).length = op.onCount es.length := by
  cases op with
  | insert i s =>
    have : i ≤ es.length := h
    simp only [Op.onEntries, Op.onCount, List.length_append, List.length_cons, length_relink,
      List.length_take, List.length_drop]
    omega
  | delete i num =>
    obtain ⟨hi, hnum⟩ := h
    simp only [Op.onEntries, Op.onCount, List.length_append, length_relink, List.length_take,
      List.length_drop]
    omega

/-- Calls one after the other. -/
def runCalls (zl : Bytes) (calls : List Call) : Option Bytes :=
  calls.foldlM (fun zl call => call.onZiplist zl) zl

theorem run_isZiplist {zl : Bytes} {es : List Entry} (calls : List Call) (h : IsZiplist zl es)
    (hvalid : AllSteps Op.Valid es (Call.edits calls))
    (hroom : AllSteps Op.HasRoom es (Call.edits calls))
    (hsafe : AllSteps (fun op es => ¬ op.Clobbers es) es (Call.edits calls)) :
    ∃ zl' es', runCalls zl calls = some zl' ∧ IsZiplist zl' es' ∧
      es'.length = (Call.edits calls).foldl (fun n op => op.onCount n) es.length := by
  induction calls generalizing zl es with
  | nil => exact ⟨zl, es, rfl, h, rfl⟩
  | cons call calls ih =>
    cases call with
    | edit junk op =>
      obtain ⟨zl₁, hzl₁, h₁⟩ := onZiplist_isZiplist junk h hvalid.1 hroom.1 hsafe.1
      obtain ⟨zl', es', hrun, h', hcount⟩ := ih h₁ hvalid.2 hroom.2 hsafe.2
      refine ⟨zl', es', ?_, h', ?_⟩
      · rw [runCalls, List.foldlM_cons, Call.onZiplist, hzl₁]
        exact hrun
      · rw [hcount, Op.length_onEntries hvalid.1]
        rfl
    | len =>
      obtain ⟨zl₁, hzl₁, h₁⟩ := ziplistLen_eq h
      obtain ⟨zl', es', hrun, h', hcount⟩ := ih h₁ hvalid hroom hsafe
      refine ⟨zl', es', ?_, h', hcount⟩
      rw [runCalls, List.foldlM_cons, Call.onZiplist, hzl₁]
      exact hrun

/-- A well-formed ziplist can be traversed, and after any run of insertions,
deletions and calls of `ziplistLen` it still can, with as many entries as there
should be. -/
theorem run_traversal {zl : Bytes} {es : List Entry} (calls : List Call) (h : IsZiplist zl es)
    (hvalid : AllSteps Op.Valid es (Call.edits calls))
    (hroom : AllSteps Op.HasRoom es (Call.edits calls))
    (hsafe : AllSteps (fun op es => ¬ op.Clobbers es) es (Call.edits calls)) :
    ∃ zl', runCalls zl calls = some zl' ∧
      Traversal zl' ((Call.edits calls).foldl (fun n op => op.onCount n) es.length) := by
  obtain ⟨zl', es', hrun, h', hcount⟩ := run_isZiplist calls h hvalid hroom hsafe
  refine ⟨zl', hrun, ?_⟩
  rw [← hcount]
  exact h'.traversal

/-- Two pushes, a count and a deletion. -/
theorem run_traversal_push_push_delete :
    ∃ zl, runCalls ziplistNew [.edit noJunk (.insert 0 ⟨[97], by decide⟩),
        .edit noJunk (.insert 1 ⟨[98], by decide⟩), .len, .edit noJunk (.delete 0 1)] = some zl ∧
      Traversal zl 1 :=
  run_traversal [.edit noJunk (.insert 0 ⟨[97], by decide⟩),
    .edit noJunk (.insert 1 ⟨[98], by decide⟩), .len, .edit noJunk (.delete 0 1)]
    isZiplist_ziplistNew (by decide) (by decide) (by decide)

/-- The first two insertions are those of `clobberedSteps`, but the entry whose wide
field becomes narrow is the integer 100, and the one put in front of it has two bytes. -/
def overreadSteps : List Call :=
  ((clobberedSteps noJunk).take 2).map (fun step => .edit step.1 step.2) ++
    [.edit noJunk (.insert 2 ⟨[49, 48, 48], by decide⟩),
     .edit noJunk (.delete 0 1),
     .edit noJunk (.insert 1 ⟨[53], by decide⟩)]

/-- Without the condition on insertions the block is cut before its end was moved. -/
theorem run_traversal_clobbered :
    ¬ ∀ (zl : Bytes) (es : List Entry) (calls : List Call), IsZiplist zl es →
      AllSteps Op.Valid es (Call.edits calls) → AllSteps Op.HasRoom es (Call.edits calls) →
      ∃ zl', runCalls zl calls = some zl' ∧
        Traversal zl' ((Call.edits calls).foldl (fun n op => op.onCount n) es.length) := by
  intro h
  obtain ⟨zl, hzl, -⟩ := h ziplistNew [] overreadSteps isZiplist_ziplistNew
    (by decide +kernel) (by decide +kernel)
  have hnone : runCalls ziplistNew overreadSteps = none := by decide +kernel
  rw [hnone] at hzl
  cases hzl

end Ziplist
