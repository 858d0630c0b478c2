/-
Dynamic strings refine byte strings.

* `trimmed_eq_iff` — `sdstrim` also removes zero bytes at the ends;
* `plain` — the operations on byte strings;
* `right_iff`, `refines_iff` — when an operation on a dynamic string, and all those of a run, are
  the ones on byte strings.
-/
import RedisModel.DynamicStringTokens
import RedisModel.Runs

open ByteBuffer

namespace DynamicString

/-! ### Zero bytes at the ends -/

theorem dropWhile_congr {p q : UInt8 → Bool} (hle : ∀ x, q x = true → p x = true) {c : Bytes}
    (h : ∀ x ∈ (c.dropWhile q).head?, p x = false) : c.dropWhile p = c.dropWhile q := by
  induction c with
  | nil => rfl
  | cons a c ih =>
    by_cases ha : q a = true
    · rw [List.dropWhile_cons_of_pos ha] at h ⊢
      rw [List.dropWhile_cons_of_pos (hle a ha), ih h]
    · rw [List.dropWhile_cons_of_neg ha] at h ⊢
      have hp : ¬p a = true := Bool.eq_false_iff.mp (h a rfl)
      rw [List.dropWhile_cons_of_neg hp]

theorem rdropWhile_congr {p q : UInt8 → Bool} (hle : ∀ x, q x = true → p x = true) {c : Bytes}
    (h : ∀ x ∈ (c.rdropWhile q).getLast?, p x = false) : c.rdropWhile p = c.rdropWhile q := by
  rw [List.rdropWhile, List.getLast?_reverse] at h
  exact congrArg List.reverse (dropWhile_congr hle h)

theorem head_dropWhile {p : UInt8 → Bool} (c : Bytes) :
    ∀ x ∈ (c.dropWhile p).head?, p x = false := by
  induction c with
  | nil => exact fun x hx => by cases hx
  | cons a c ih =>
    by_cases ha : p a = true
    · rw [List.dropWhile_cons_of_pos ha]
      exact ih
    · rw [List.dropWhile_cons_of_neg ha]
      rintro x hx
      obtain rfl := Option.some_inj.mp hx
      exact Bool.eq_false_iff.mpr ha

theorem getLast_rdropWhile {p : UInt8 → Bool} (c : Bytes) :
    ∀ x ∈ (c.rdropWhile p).getLast?, p x = false := by
  rw [List.rdropWhile, List.getLast?_reverse]
  exact head_dropWhile _

theorem head_rdropWhile {p : UInt8 → Bool} {c : Bytes} {x : UInt8}
    (hx : x ∈ (c.rdropWhile p).head?) : x ∈ c.head? := by
  obtain ⟨tail, htail⟩ := c.rdropWhile_prefix p
  cases hr : c.rdropWhile p with
  | nil =>
    rw [hr] at hx
    cases hx
  | cons a l =>
    rw [hr] at hx htail
    rw [← htail]
    exact hx

theorem strchr_eq (cset : Bytes) (x : UInt8) :
    strchr cset x = ((cString cset).contains x || x == 0) := by
  rw [strchr, List.contains_append, List.contains_cons, List.contains_nil, Bool.or_false]

theorem trimmed_eq_iff (cset c : Bytes) :
    trimmed (strchr cset) c = trimmed (cString cset).contains c ↔
      (trimmed (cString cset).contains c).head? ≠ some 0 ∧
        (trimmed (cString cset).contains c).getLast? ≠ some 0 := by
  have hle : ∀ x, (cString cset).contains x = true → strchr cset x = true := fun x hx => by
    rw [strchr_eq, hx]
    rfl
  have hzero : strchr cset 0 = true := by
    rw [strchr_eq, Bool.or_eq_true]
    exact .inr rfl
  constructor
  · intro heq
    rw [← heq]
    constructor
    · intro hhead
      have hfalse := head_dropWhile c 0 (head_rdropWhile hhead)
      rw [hzero] at hfalse
      cases hfalse
    · intro hlast
      have hfalse := getLast_rdropWhile (c.dropWhile (strchr cset)) 0 hlast
      rw [hzero] at hfalse
      cases hfalse
  · rintro ⟨hhead, hlast⟩
    -- a byte that is not in the set and not zero
    have hother : ∀ x, (cString cset).contains x = false → x ≠ 0 → strchr cset x = false :=
      fun x hx hne => by
        rw [strchr_eq, hx, Bool.false_or]
        exact beq_false_of_ne hne
    have hright : ∀ x ∈ ((c.dropWhile (cString cset).contains).rdropWhile
        (cString cset).contains).getLast?, strchr cset x = false := fun x hx =>
      hother x (getLast_rdropWhile _ x hx) fun h => hlast (h ▸ hx)
    by_cases hnil : trimmed (cString cset).contains c = []
    · -- all bytes are in the set
      have hall : ∀ x ∈ c, (cString cset).contains x = true := by
        rw [trimmed, List.rdropWhile_eq_nil_iff] at hnil
        intro x hx
        rw [← List.takeWhile_append_dropWhile (p := (cString cset).contains) (l := c)] at hx
        obtain hx | hx := List.mem_append.mp hx
        · exact List.mem_takeWhile_imp hx
        · exact hnil x hx
      have hempty : c.dropWhile (strchr cset) = [] :=
        List.dropWhile_eq_nil_iff.mpr fun x hx => hle x (hall x hx)
      rw [hnil, trimmed, hempty]
      rfl
    · obtain ⟨x, l, hxl⟩ := List.exists_cons_of_ne_nil hnil
      rw [hxl] at hhead
      have hx : x ∈ (trimmed (cString cset).contains c).head? := by
        rw [hxl]
        rfl
      have hleft : ∀ y ∈ (c.dropWhile (cString cset).contains).head?, strchr cset y = false := by
        intro y hy
        have hxy := Option.some_inj.mp (hy.symm.trans (head_rdropWhile hx))
        refine hother y (head_dropWhile c y hy) fun h => hhead ?_
        rw [← hxy, h]
        rfl
      rw [trimmed, trimmed, dropWhile_congr hle hleft, rdropWhile_congr hle hright]

/-! ### Runs -/

inductive Op where
  | catlen (t : Bytes)
  /-- `sdsMakeRoomFor`, a write behind the string, and `sdsIncrLen`. -/
  | append (addlen : ℕ) (t : Bytes)
  /-- `sdsIncrLen` by a number that is not positive. -/
  | shrink (n : ℕ)
  | growzero (len : ℕ)
  | catfmt (fmt : Bytes) (args : List FmtArg)
  | trim (cset : Bytes)
  | range (start stop : Int32)

def exec (junk : ℕ → UInt8) (s : Sdshdr) : Op → Option Sdshdr
  | .catlen t => sdscatlen junk s t
  | .append addlen t => appendInPlace junk s addlen t
  | .shrink n => sdsIncrLen s (-n)
  | .growzero len => sdsgrowzero junk s len
  | .catfmt fmt args => sdscatfmt junk s fmt args
  | .trim cset => sdstrim s cset
  | .range start stop => sdsrange s start stop

/-- A string that is shorter than 2^31. -/
def short (c : Bytes) : Option Bytes := if c.length < 2 ^ 31 then some c else none

/-- The operation on byte strings: nothing when the string would become too long, more room is asked
for than an allocator can give, more bytes are removed than there are, or the format is not one for
its arguments. -/
def plain (c : Bytes) : Op → Option Bytes
  | .catlen t => short (c ++ t)
  | .append addlen t => if addlen < 2 ^ 63 then short (c ++ t) else none
  | .shrink n => if n ≤ c.length then some (c.take (c.length - n)) else none
  | .growzero len => short (c ++ List.replicate (len - c.length) 0)
  | .catfmt fmt args => do
    let text ← plainFmt (cString fmt) args
    short (c ++ text)
  | .trim cset => some (trimmed (cString cset).contains c)
  | .range start stop => some (plainRange c start.toInt stop.toInt)

/-- A step of a run: an operation that is possible for the string. -/
def step (junk : ℕ → UInt8) (s : Sdshdr) (op : Op) : Option Sdshdr :=
  if (plain (contents s) op).isSome then exec junk s op else none

/-- The operation stays in the allocation, its assertions hold, and it is the one on byte
strings. -/
def Right (junk : ℕ → UInt8) (s : Sdshdr) (op : Op) : Prop :=
  ∀ d, plain (contents s) op = some d → ∃ s', exec junk s op = some s' ∧ Represents s' d

/-- What is written is within the free space of the header, the header can count the bytes that are
removed, and a string that was trimmed has no zero byte at its ends. -/
def Fits (junk : ℕ → UInt8) (s : Sdshdr) : Op → Prop
  | .append addlen t => (plain (contents s) (.append addlen t)).isSome = true →
      t.length ≤ (sdsMakeRoomFor junk s addlen).free
  | .shrink n => n ≤ (contents s).length → -n ≤ s.free ∧ 0 ≤ toInt (s.free + n)
  | .trim cset => (trimmed (cString cset).contains (contents s)).head? ≠ some 0 ∧
      (trimmed (cString cset).contains (contents s)).getLast? ≠ some 0
  | _ => True

theorem short_eq_some {c d : Bytes} : short c = some d ↔ c.length < 2 ^ 31 ∧ c = d := by
  rw [short]
  split
  · rename_i h
    exact ⟨fun heq => ⟨h, Option.some_inj.mp heq⟩, fun heq => congrArg some heq.2⟩
  · rename_i h
    exact iff_of_false (fun heq => by cases heq) fun heq => h heq.1

section
variable (junk : ℕ → UInt8) {s : Sdshdr} {c : Bytes}

theorem right_iff_exec {op : Op} {d : Bytes} (h : plain (contents s) op = some d) :
    Right junk s op ↔ ∃ s', exec junk s op = some s' ∧ Represents s' d := by
  refine ⟨fun hright => hright d h, fun hexec d' hd' => ?_⟩
  rwa [← Option.some_inj.mp (h.symm.trans hd')]

theorem right_iff (h : Represents s c) (op : Op) : Right junk s op ↔ Fits junk s op := by
  have hcontents := h.contents
  cases op with
  | catlen t =>
    refine iff_of_true (fun d hd => ?_) trivial
    rw [hcontents] at hd
    obtain ⟨hshort, rfl⟩ := short_eq_some.mp hd
    rw [List.length_append] at hshort
    exact sdscatlen_spec junk h hshort
  | append addlen t =>
    rw [Fits]
    cases hplain : plain (contents s) (.append addlen t) with
    | none =>
      refine iff_of_true (fun d hd => ?_) fun hsome => by cases hsome
      rw [hplain] at hd
      cases hd
    | some d =>
      rw [right_iff_exec junk hplain]
      rw [hcontents, plain] at hplain
      split at hplain
      · rename_i hadd
        obtain ⟨hshort, rfl⟩ := short_eq_some.mp hplain
        rw [List.length_append] at hshort
        exact (appendInPlace_iff junk h hadd hshort).trans ⟨fun hle _ => hle, fun hle => hle rfl⟩
      · cases hplain
  | shrink n =>
    rw [Fits, hcontents]
    by_cases hn : n ≤ c.length
    · have hplain : plain (contents s) (.shrink n) = some (c.take (c.length - n)) := by
        rw [hcontents]
        exact if_pos hn
      rw [right_iff_exec junk hplain]
      exact (shrink_iff h hn).trans ⟨fun hfree _ => hfree, fun hfree => hfree hn⟩
    · refine iff_of_true (fun d hd => ?_) fun hle => absurd hle hn
      rw [hcontents, plain, if_neg hn] at hd
      cases hd
  | growzero len =>
    refine iff_of_true (fun d hd => ?_) trivial
    rw [hcontents] at hd
    obtain ⟨hshort, rfl⟩ := short_eq_some.mp hd
    rw [List.length_append, List.length_replicate] at hshort
    exact sdsgrowzero_spec junk h (by omega)
  | catfmt fmt args =>
    refine iff_of_true (fun d hd => ?_) trivial
    rw [hcontents] at hd
    obtain ⟨text, htext, hd⟩ := Option.bind_eq_some_iff.mp hd
    obtain ⟨hshort, rfl⟩ := short_eq_some.mp hd
    rw [List.length_append] at hshort
    exact sdscatfmt_spec junk h htext hshort
  | trim cset =>
    rw [right_iff_exec junk (d := trimmed (cString cset).contains (contents s)) rfl, Fits,
      ← trimmed_eq_iff, hcontents]
    obtain ⟨s', hexec, hs'⟩ := sdstrim_spec h cset
    constructor
    · rintro ⟨s'', hexec', hs''⟩
      obtain rfl := Option.some_inj.mp (hexec.symm.trans hexec')
      rw [← hs'.contents, hs''.contents]
    · intro heq
      exact ⟨s', hexec, heq ▸ hs'⟩
  | range start stop =>
    refine iff_of_true (fun d hd => ?_) trivial
    obtain rfl := Option.some_inj.mp hd
    rw [hcontents]
    exact sdsrange_spec h start stop

/-- Strings refine byte strings in a run if and only if every step meets the condition, and a text
is split into its tokens if and only if there are not too many of them. -/
theorem refines_iff (h : Represents s c) (ops : List Op) (text : Bytes) {sep : Bytes}
    (hsep : sep ≠ []) :
    (Runs.AllSteps (step junk) (Right junk) s ops ↔ Runs.AllSteps (step junk) (Fits junk) s ops) ∧
      (SplitRight text sep ↔ FewTokens sep 0 text) := by
  refine ⟨Runs.AllSteps.iff_of_kept (I := fun s => ∃ c, Represents s c) ?_ ?_ ⟨c, h⟩,
    splitRight_iff text hsep⟩
  · rintro s op ⟨c, hs⟩
    exact right_iff junk hs op
  · rintro s op s' - hright hstep
    rw [step] at hstep
    split at hstep
    · rename_i hsome
      obtain ⟨d, hd⟩ := Option.isSome_iff_exists.mp hsome
      obtain ⟨s'', hexec, hs''⟩ := hright d hd
      obtain rfl := Option.some_inj.mp (hexec.symm.trans hstep)
      exact ⟨d, hs''⟩
    · cases hstep

end

instance instDecidableFits (junk : ℕ → UInt8) (s : Sdshdr) (op : Op) :
    Decidable (Fits junk s op) := by
  cases op <;> unfold Fits <;> infer_instance

/-! ### Concrete strings -/

/-- A string without free space. -/
def newString (c : Bytes) : Sdshdr := ⟨c.length, 0, c ++ [0]⟩

theorem newString_represents {c : Bytes} (h : c.length < 2 ^ 31) : Represents (newString c) c :=
  ⟨[], rfl, h, show (-2 : ℤ) ^ 31 ≤ 0 ∧ (0 : ℤ) < 2 ^ 31 by decide, rfl,
    show (0 : ℤ) % 2 ^ 32 + 1 ≤ 1 by decide⟩

/-- `sdscatfmt(s,"-%i",-7)`, `sdsMakeRoomFor` and `sdsIncrLen`, `sdstrim(s," ")`, `sdsrange`, and
the tokens of a text. -/
theorem refines_someOps :
    Runs.AllSteps (step noJunk) (Right noJunk) (newString [32, 97, 98])
      [.catfmt [45, 37, 105] [.int (-7)], .append 4 [0, 32, 97], .trim [32], .range (-3) (-1)] ∧
    SplitRight [97, 44, 98] [44] := by
  have hiff := refines_iff noJunk (newString_represents (c := [32, 97, 98]) (by decide))
    [.catfmt [45, 37, 105] [.int (-7)], .append 4 [0, 32, 97], .trim [32], .range (-3) (-1)]
    [97, 44, 98] (show ([44] : Bytes) ≠ [] by decide)
  exact ⟨hiff.1.mpr (by decide +kernel), hiff.2.mpr (fewTokens_of_length (by decide) (by decide))⟩

/-- A zero byte at the start is removed, though it is not in the set. -/
theorem not_right_trim : Represents (newString [0, 97]) [0, 97] ∧
    ¬Runs.AllSteps (step noJunk) (Right noJunk) (newString [0, 97]) [.trim [32]] := by
  refine ⟨newString_represents (by decide), fun hall => ?_⟩
  obtain ⟨s', hexec, hs'⟩ := hall.1 [0, 97] (by decide)
  have hcontents : (exec noJunk (newString [0, 97]) (.trim [32])).map contents = some [97] := by
    decide +kernel
  rw [hexec, Option.map_some, hs'.contents] at hcontents
  cases hcontents

end DynamicString
