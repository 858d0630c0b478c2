/-
The operations on dynamic strings.

* `Room`, `Represents` — what the header and the allocation of a string agree on;
* `sdscatlen_spec`, `appendInPlace_iff`, `sdsgrowzero_spec`, `sdscatfmt_spec` — strings that grow;
* `shrink_iff` — `sdsIncrLen` by a negative number;
* `sdstrim_spec`, `sdsrange_spec` — parts of strings.

The field `free` counts modulo 2^32 what is free at least: it may be negative, which as a `size_t`
is more than any request.
-/
import RedisModel.DynamicString
import Mathlib.Data.List.DropRight
import Mathlib.Data.Nat.Digits.Lemmas

open ByteBuffer StringNumber

namespace DynamicString

/-! ### Numbers -/

theorem toInt_emod (v : ℤ) : toInt v % 2 ^ 32 = v % 2 ^ 32 := Int.bmod_emod

theorem toInt_range (v : ℤ) : -2 ^ 31 ≤ toInt v ∧ toInt v < 2 ^ 31 :=
  ⟨Int.le_bmod (by decide), Int.bmod_lt (by decide)⟩

theorem toInt_eq {v : ℤ} (hmin : -2 ^ 31 ≤ v) (hmax : v < 2 ^ 31) : toInt v = v := by
  have hemod := toInt_emod v
  have hrange := toInt_range v
  omega

theorem toInt_congr {v w : ℤ} (h : v % 2 ^ 32 = w % 2 ^ 32) : toInt v = toInt w := by
  have hv := toInt_emod v
  have hw := toInt_emod w
  have hvr := toInt_range v
  have hwr := toInt_range w
  omega

attribute [local irreducible] toInt

theorem toSize_natCast {n : ℕ} (h : n < 2 ^ 64) : toSize n = n := by
  rw [toSize, Int.emod_eq_of_lt (by omega) (by omega)]
  rfl

theorem toSize_cases {v : ℤ} (hmin : -2 ^ 31 ≤ v) (hmax : v < 2 ^ 31) :
    (0 ≤ v ∧ (toSize v : ℤ) = v) ∨ (v < 0 ∧ 2 ^ 63 ≤ toSize v) := by
  rw [toSize]
  omega

theorem le_prealloc (n : ℕ) : n ≤ prealloc n := by
  rw [prealloc]
  split <;> omega

theorem prealloc_le (n : ℕ) : prealloc n ≤ n + 2 ^ 20 := by
  rw [prealloc, maxPrealloc]
  split <;> omega

/-! ### What a string is -/

/-- The bytes of the string `c` are at the front of the allocation, and there is room for the free
bytes that the header counts, modulo 2^32, and for one more. -/
structure Room (s : Sdshdr) (c rest : Bytes) : Prop where
  len : s.len = c.length
  short : c.length < 2 ^ 31
  free : -2 ^ 31 ≤ s.free ∧ s.free < 2 ^ 31
  buf : s.buf = c ++ rest
  room : s.free % 2 ^ 32 + 1 ≤ rest.length

/-- `s` is the string `c`: it is shorter than 2^31, its bytes are followed by a zero byte, and
`len + free + 1` bytes are allocated. -/
def Represents (s : Sdshdr) (c : Bytes) : Prop := ∃ rest, Room s c (0 :: rest)

/-- The bytes of a string. -/
def contents (s : Sdshdr) : Bytes := s.buf.take (sdslen s)

section
variable {s : Sdshdr} {c rest : Bytes}

theorem Room.sdslen (h : Room s c rest) : sdslen s = c.length := by
  have hshort := h.short
  rw [DynamicString.sdslen, h.len, toSize_natCast (by omega)]

theorem Room.contents (h : Room s c rest) : contents s = c := by
  rw [DynamicString.contents, h.sdslen, h.buf, List.take_left]

theorem Represents.contents (h : Represents s c) : contents s = c := by
  obtain ⟨rest, h⟩ := h
  exact h.contents

theorem Room.shorter (h : Room s c rest) {d tail : Bytes} (hle : d.length ≤ c.length)
    (hlength : (d ++ tail).length = s.buf.length) :
    Room ⟨toInt d.length, toInt (s.free + (s.len - d.length)), d ++ tail⟩ d tail := by
  have hshort := h.short
  have hroom := h.room
  have hemod := toInt_emod (s.free + (s.len - d.length))
  have hd : d.length < 2 ^ 31 := lt_of_le_of_lt hle hshort
  have hlen : toInt d.length = d.length := toInt_eq (by omega) (by omega)
  rw [h.buf, List.length_append, List.length_append] at hlength
  have hfree := toInt_range (s.free + (s.len - d.length))
  rw [h.len] at hemod hfree ⊢
  rw [hlen]
  generalize toInt (s.free + (c.length - d.length)) = free at hemod hfree
  exact ⟨rfl, hd, hfree, rfl, by dsimp only; omega⟩

/-! ### Room -/

section
variable (junk : ℕ → UInt8)

theorem realloc_append {a b : Bytes} {n : ℕ} (h : a.length ≤ n) :
    ∃ rest, realloc junk (a ++ b) n = a ++ rest ∧ a.length + rest.length = n := by
  refine ⟨b.take (n - a.length) ++ (List.range' (a ++ b).length (n - (a ++ b).length)).map junk,
    ?_, ?_⟩
  · rw [realloc, List.take_append, List.take_of_length_le h, List.append_assoc]
  · rw [List.length_append, List.length_take, List.length_map, List.length_range',
      List.length_append]
    omega

theorem Room.makeRoom (front back : Bytes) (h : Room s c (front ++ back))
    (hfront : front.length ≤ 1) (addlen : ℕ) (hadd : addlen < 2 ^ 63) :
    ∃ back', Room (sdsMakeRoomFor junk s addlen) c (front ++ back') ∧
      (addlen < 2 ^ 31 → addlen ≤ (sdsMakeRoomFor junk s addlen).free % 2 ^ 32) := by
  have hshort := h.short
  have hfree := h.free
  have hcases := toSize_cases hfree.1 hfree.2
  rw [sdsMakeRoomFor, h.sdslen]
  split
  · rename_i havail
    refine ⟨back, h, fun hlt => ?_⟩
    rw [sdsavail] at havail
    omega
  · have hle := le_prealloc (c.length + addlen)
    have hge := prealloc_le (c.length + addlen)
    have hmod : prealloc ((c.length + addlen) % 2 ^ 64) % 2 ^ 64
        = prealloc (c.length + addlen) := by
      rw [Nat.mod_eq_of_lt (show c.length + addlen < 2 ^ 64 by omega), Nat.mod_eq_of_lt (by omega)]
    rename_i havail
    have hpos : addlen ≠ 0 := fun hzero => havail (by rw [hzero]; exact Nat.zero_le _)
    rw [hmod]
    generalize prealloc (c.length + addlen) = newlen at hle hge
    have hfits : (c ++ front).length ≤ newlen + 1 := by
      rw [List.length_append]
      omega
    obtain ⟨back', hrealloc, hlength⟩ := realloc_append junk (b := back) hfits
    have hemod := toInt_emod (newlen - c.length)
    have hbuf : realloc junk s.buf (newlen + 1) = c ++ (front ++ back') := by
      rw [h.buf, ← List.append_assoc, hrealloc, List.append_assoc]
    rw [List.length_append] at hlength
    refine ⟨back', ⟨h.len, h.short, toInt_range _, hbuf, ?_⟩, fun hlt => ?_⟩
    · dsimp only
      rw [hemod, List.length_append]
      omega
    · dsimp only
      rw [hemod]
      omega

theorem Room.writeBehind (h : Room s c rest) {t : Bytes} (ht : t.length ≤ s.free % 2 ^ 32) :
    ∃ rest', rest'.length + t.length = rest.length ∧
      store s.buf c.length t = some (c ++ (t ++ rest')) := by
  have hroom := h.room
  refine ⟨rest.drop t.length, ?_, ?_⟩
  · rw [List.length_drop]
    omega
  · have htake : (rest.take t.length).length = t.length := by
      rw [List.length_take]
      omega
    rw [h.buf, ← store_append rfl htake.symm, List.take_append_drop]

theorem Room.terminate (h : Room s c rest) :
    ∃ buf, store s.buf c.length [0] = some buf ∧ Represents { s with buf } c := by
  have hroom := h.room
  have hbuf := h.buf
  cases rest with
  | nil =>
    rw [List.length_nil] at hroom
    omega
  | cons x tail =>
    refine ⟨c ++ 0 :: tail, ?_, tail, ⟨h.len, h.short, h.free, rfl, hroom⟩⟩
    rw [hbuf]
    exact store_append (b := [x]) rfl rfl

theorem Room.written (h : Room s c rest) {t rest' : Bytes} (hshort : c.length + t.length < 2 ^ 31)
    (ht : t.length ≤ s.free % 2 ^ 32) (hrest : rest'.length + t.length = rest.length) {len : ℤ}
    (hlen : len = (c ++ t).length) :
    Room ⟨len, toInt (s.free - t.length), c ++ t ++ rest'⟩ (c ++ t) rest' := by
  have hroom := h.room
  have hemod := toInt_emod (s.free - t.length)
  have hlength : (c ++ t).length < 2 ^ 31 := by rwa [List.length_append]
  refine ⟨hlen, hlength, toInt_range _, rfl, ?_⟩
  dsimp only
  rw [hemod]
  omega

end
end

/-! ### Strings that grow -/

section
variable (junk : ℕ → UInt8) {s : Sdshdr} {c : Bytes}

theorem Represents.makeRoom (h : Represents s c) (addlen : ℕ) (hadd : addlen < 2 ^ 63) :
    ∃ rest, Room (sdsMakeRoomFor junk s addlen) c (0 :: rest) ∧
      (addlen < 2 ^ 31 → addlen ≤ (sdsMakeRoomFor junk s addlen).free % 2 ^ 32) := by
  obtain ⟨rest, h⟩ := h
  exact h.makeRoom junk [0] rest le_rfl addlen hadd

theorem sdscatlen_spec (h : Represents s c) {t : Bytes} (hshort : c.length + t.length < 2 ^ 31) :
    ∃ s', sdscatlen junk s t = some s' ∧ Represents s' (c ++ t) := by
  obtain ⟨old, hold⟩ := id h
  obtain ⟨rest, hroom, hfree⟩ := h.makeRoom junk t.length (by omega)
  have ht := hfree (by omega)
  obtain ⟨rest', hrest, hstore⟩ := hroom.writeBehind ht
  have hlen : toInt (c.length + t.length) = (c ++ t).length := by
    rw [List.length_append, toInt_eq (by omega) (by omega)]
    rfl
  obtain ⟨buf, hnul, hresult⟩ := (hroom.written hshort ht hrest hlen).terminate
  refine ⟨_, ?_, hresult⟩
  rw [sdscatlen, hold.sdslen, hstore]
  dsimp only [Option.bind_eq_bind, Option.bind_some]
  rw [← List.append_assoc, ← List.length_append, hnul]
  rfl

theorem sdsIncrLen_spec {rest rest' : Bytes} (h : Room s c rest) {t : Bytes}
    (hshort : c.length + t.length < 2 ^ 31) (ht : t.length ≤ s.free)
    (hrest : rest'.length + t.length = rest.length) :
    ∃ s', sdsIncrLen { s with buf := c ++ (t ++ rest') } t.length = some s' ∧
      Represents s' (c ++ t) := by
  have hfree := h.free
  have hlen : toInt (s.len + t.length) = (c ++ t).length := by
    rw [h.len, List.length_append, toInt_eq (by omega) (by omega)]
    rfl
  have hrem : 0 ≤ toInt (s.free - t.length) := by
    rw [toInt_eq (by omega) (by omega)]
    omega
  obtain ⟨buf, hnul, hresult⟩ := (h.written hshort (by omega) hrest hlen).terminate
  refine ⟨_, ?_, hresult⟩
  rw [sdsIncrLen, if_pos ht]
  dsimp only at hnul ⊢
  rw [if_pos hrem, hlen, writeAt, if_pos (Int.natCast_nonneg _), Int.toNat_natCast,
    ← List.append_assoc, hnul]
  rfl

theorem appendInPlace_iff (h : Represents s c) {addlen : ℕ} (hadd : addlen < 2 ^ 63) {t : Bytes}
    (hshort : c.length + t.length < 2 ^ 31) :
    (∃ s', appendInPlace junk s addlen t = some s' ∧ Represents s' (c ++ t)) ↔
      t.length ≤ (sdsMakeRoomFor junk s addlen).free := by
  obtain ⟨old, hold⟩ := id h
  obtain ⟨rest, hroom, -⟩ := h.makeRoom junk addlen hadd
  rw [appendInPlace, hold.sdslen]
  constructor
  · rintro ⟨s', happend, -⟩
    by_contra hfree
    cases hstore : store (sdsMakeRoomFor junk s addlen).buf c.length t with
    | none =>
      rw [hstore] at happend
      cases happend
    | some buf =>
      rw [hstore] at happend
      dsimp only [Option.bind_eq_bind, Option.bind_some] at happend
      rw [sdsIncrLen, if_neg (by exact hfree)] at happend
      cases happend
  · intro ht
    have hfree := hroom.free
    obtain ⟨rest', hrest, hstore⟩ := hroom.writeBehind (t := t) (by omega)
    rw [hstore]
    exact sdsIncrLen_spec hroom hshort ht hrest

theorem growzero_free {rest : Bytes} (h : Room s c rest) {len n : ℕ} (hlen : len < 2 ^ 31)
    (hn : c.length + n = len) :
    toInt (toSize (toInt (s.len + s.free)) - toInt len) = toInt (s.free - n) := by
  have hemod := toInt_emod (s.len + s.free)
  have hsize : (toSize (toInt (s.len + s.free)) : ℤ) % 2 ^ 32
      = toInt (s.len + s.free) % 2 ^ 32 := by
    rw [toSize]
    omega
  refine toInt_congr ?_
  rw [toInt_eq (v := (len : ℤ)) (by omega) (by omega)]
  generalize toInt (s.len + s.free) = v at hemod hsize ⊢
  rw [h.len] at hemod
  omega

theorem sdsgrowzero_spec (h : Represents s c) {len : ℕ} (hlen : len < 2 ^ 31) :
    ∃ s', sdsgrowzero junk s len = some s' ∧
      Represents s' (c ++ List.replicate (len - c.length) 0) := by
  obtain ⟨old, hold⟩ := id h
  have hcur : toSize s.len = c.length := hold.sdslen
  rw [sdsgrowzero, hcur]
  dsimp only
  split
  · rename_i hle
    refine ⟨s, rfl, ?_⟩
    rwa [Nat.sub_eq_zero_of_le hle, List.replicate_zero, List.append_nil]
  · obtain ⟨n, hn⟩ : ∃ n, len - c.length = n := ⟨_, rfl⟩
    have hsum : c.length + n = len := by omega
    rw [hn]
    obtain ⟨rest, hroom, hfree⟩ := h.makeRoom junk n (by omega)
    have hlength : (List.replicate n (0 : UInt8)).length = n := List.length_replicate
    have ht : (List.replicate n (0 : UInt8)).length ≤
        (sdsMakeRoomFor junk s n).free % 2 ^ 32 := by
      rw [hlength]
      exact hfree (by omega)
    have hnew : toInt len = (c ++ List.replicate n (0 : UInt8)).length := by
      rw [List.length_append, hlength, hsum, toInt_eq (by omega) (by omega)]
    obtain ⟨rest', hrest, hstore⟩ := hroom.writeBehind ht
    obtain ⟨buf, hnul, hresult⟩ := (hroom.written (by omega) ht hrest hnew).terminate
    refine ⟨_, ?_, hresult⟩
    rw [growzero_free hroom hlen hsum, List.replicate_succ', ← store_bind_store, hstore]
    dsimp only [Option.bind_eq_bind, Option.bind_some] at hnul ⊢
    rw [← List.append_assoc, ← List.length_append, hnul, hlength]
    rfl

theorem shrink_iff (h : Represents s c) {n : ℕ} (hn : n ≤ c.length) :
    (∃ s', sdsIncrLen s (-n) = some s' ∧ Represents s' (c.take (c.length - n))) ↔
      -n ≤ s.free ∧ 0 ≤ toInt (s.free + n) := by
  obtain ⟨rest, h⟩ := h
  have hfree : s.free - -(n : ℤ) = s.free + n := by omega
  rw [sdsIncrLen, hfree]
  constructor
  · rintro ⟨s', hincr, -⟩
    split at hincr
    · rename_i hle
      dsimp only at hincr
      split at hincr
      · exact ⟨hle, by assumption⟩
      · cases hincr
    · cases hincr
  · rintro ⟨hle, hpos⟩
    have hshort := h.short
    have htake : (c.take (c.length - n)).length = c.length - n := by
      rw [List.length_take]
      omega
    have hlen : toInt (s.len + -(n : ℤ)) = (c.take (c.length - n)).length := by
      rw [htake, h.len, toInt_eq (by omega) (by omega)]
      omega
    have hbuf : c.take (c.length - n) ++ (c.drop (c.length - n) ++ 0 :: rest) = s.buf := by
      rw [h.buf, ← List.append_assoc, List.take_append_drop]
    have hdiff : s.len - (c.take (c.length - n)).length = n := by
      rw [htake, h.len]
      omega
    have hnew : toInt (c.take (c.length - n)).length = (c.take (c.length - n)).length := by
      rw [htake, toInt_eq (by omega) (by omega)]
    obtain ⟨buf, hnul, hresult⟩ := (h.shorter (d := c.take (c.length - n)) (by omega)
      (congrArg List.length hbuf)).terminate
    rw [hdiff, hnew] at hresult
    dsimp only at hnul
    rw [hbuf] at hnul
    rw [if_pos hle]
    dsimp only
    rw [if_pos hpos, hlen, writeAt, if_pos (Int.natCast_nonneg _), Int.toNat_natCast, hnul]
    exact ⟨_, rfl, hresult⟩

end

/-! ### Formatted text -/

/-- The decimal form of a number. -/
def decimal (n : ℕ) : Bytes := if n = 0 then [48] else ((Nat.digits 10 n).map digitChar).reverse

def signedDecimal (v : ℤ) : Bytes := if v < 0 then 45 :: decimal v.natAbs else decimal v.natAbs

/-- The text of a format, unless it ends in a lone `%` or there are no arguments for it. -/
def plainFmt : Bytes → List FmtArg → Option Bytes
  | [], _ => some []
  | c :: f, args =>
    if c = 37 then
      match f with
      | [] => none
      | next :: f =>
        if isConversion next then do
          let (str, args) ← fmtArg (some ∘ signedDecimal) (some ∘ decimal) next args
          let text ← plainFmt f args
          some (str ++ text)
        else do
          let text ← plainFmt f args
          some (next :: text)
    else do
      let text ← plainFmt f args
      some (c :: text)

theorem reversedDigits_eq {fuel v : ℕ} (h : v ≤ fuel) :
    reversedDigits fuel v = if v = 0 then [48] else (Nat.digits 10 v).map digitChar := by
  induction fuel generalizing v with
  | zero =>
    obtain rfl := Nat.le_zero.mp h
    rfl
  | succ fuel ih =>
    rw [reversedDigits]
    by_cases hzero : v = 0
    · rw [hzero]
      rfl
    · rw [if_neg hzero, Nat.digits_def' (by decide) (Nat.pos_of_ne_zero hzero), List.map_cons]
      split
      · rename_i hsmall
        rw [hsmall, Nat.digits_zero]
        rfl
      · rename_i hlarge
        rw [ih (by omega), if_neg hlarge]

theorem reversedDigits_reverse (v : ℕ) : (reversedDigits v v).reverse = decimal v := by
  rw [reversedDigits_eq le_rfl, decimal]
  split <;> rfl

theorem decimal_length {n k : ℕ} (h : n < 10 ^ (k + 1)) : (decimal n).length ≤ k + 1 := by
  rw [decimal]
  split
  · exact Nat.succ_le_succ (Nat.zero_le k)
  · rw [List.length_reverse, List.length_map]
    exact (Nat.digits_length_le_iff (by decide) n).mpr h

theorem llstrBuf_unsigned {n : ℕ} (h : n < 2 ^ 64) :
    llstrBuf (sdsull2str n) = some (decimal n) := by
  have hlength := decimal_length (n := n) (k := 19) (lt_trans h (by decide))
  rw [sdsull2str, reversedDigits_reverse, llstrBuf, if_pos (Nat.succ_le_succ hlength)]

theorem llstrBuf_signed {v : ℤ} (hmin : -2 ^ 63 ≤ v) (hmax : v < 2 ^ 63) :
    llstrBuf (sdsll2str v) = some (signedDecimal v) := by
  have hnat : v.natAbs < 10 ^ 19 := by omega
  have hlength := decimal_length (n := v.natAbs) (k := 18) hnat
  have heq : sdsll2str v = signedDecimal v := by
    rw [sdsll2str, List.reverse_append, reversedDigits_reverse, signedDecimal]
    split <;> rfl
  rw [heq, llstrBuf, if_pos]
  rw [signedDecimal]
  split
  · rw [List.length_cons]
    omega
  · omega

theorem fmtArg_eq (next : UInt8) (args : List FmtArg) :
    fmtArg (llstrBuf ∘ sdsll2str) (llstrBuf ∘ sdsull2str) next args
      = fmtArg (some ∘ signedDecimal) (some ∘ decimal) next args := by
  cases args with
  | nil => rfl
  | cons arg args =>
    cases arg with
    | cstr s => rfl
    | sds s => rfl
    | int v =>
      have hmin := v.le_toInt
      have hmax := v.toInt_lt
      rw [fmtArg, fmtArg, Function.comp_apply, llstrBuf_signed (by omega) (by omega)]
      rfl
    | longLong v =>
      rw [fmtArg, fmtArg, Function.comp_apply, llstrBuf_signed v.le_toInt v.toInt_lt]
      rfl
    | uint v =>
      have hmax := v.toNat_lt
      rw [fmtArg, fmtArg, Function.comp_apply, llstrBuf_unsigned (by omega)]
      rfl
    | ulongLong v =>
      rw [fmtArg, fmtArg, Function.comp_apply, llstrBuf_unsigned v.toNat_lt]
      rfl

section
variable (junk : ℕ → UInt8) {s : Sdshdr} {c rest : Bytes}

theorem putString_spec (h : Room s c rest) (str : Bytes)
    (hshort : c.length + str.length < 2 ^ 31) :
    ∃ s' rest', putString junk s c.length str = some (s', ((c ++ str).length : ℤ)) ∧
      Room s' (c ++ str) rest' := by
  obtain ⟨back, hroom, hfree⟩ :=
    h.makeRoom junk [] rest (Nat.zero_le 1) str.length (by omega)
  have hstr := hfree (by omega)
  have hmake : (if toSize s.free < str.length then sdsMakeRoomFor junk s str.length else s)
      = sdsMakeRoomFor junk s str.length := by
    split
    · rfl
    · rename_i hge
      rw [sdsMakeRoomFor, if_pos (show sdsavail s ≥ str.length from not_lt.mp hge)]
  obtain ⟨rest', hrest, hstore⟩ := hroom.writeBehind hstr
  have hlen : toInt ((sdsMakeRoomFor junk s str.length).len + str.length) = (c ++ str).length := by
    rw [hroom.len, List.length_append, toInt_eq (by omega) (by omega)]
    rfl
  have hindex : toInt (c.length + str.length) = (c ++ str).length := by
    rw [← hlen, hroom.len]
  refine ⟨_, rest', ?_, hroom.written hshort hstr hrest hlen⟩
  rw [putString, hmake, writeAt, if_pos (Int.natCast_nonneg _), Int.toNat_natCast, hstore, hindex,
    List.append_assoc]
  rfl

theorem putByte_spec (h : Room s c rest) (b : UInt8) (hfree : 1 ≤ s.free % 2 ^ 32)
    (hshort : c.length + 1 < 2 ^ 31) :
    ∃ s' rest', putByte s c.length b = some (s', ((c ++ [b]).length : ℤ)) ∧
      Room s' (c ++ [b]) rest' := by
  obtain ⟨rest', hrest, hstore⟩ := h.writeBehind (t := [b]) hfree
  have hlen : toInt (s.len + 1) = (c ++ [b]).length := by
    rw [h.len, List.length_append, toInt_eq (by omega) (by omega)]
    rfl
  have hindex : toInt (c.length + 1) = (c ++ [b]).length := by rw [← hlen, h.len]
  refine ⟨_, rest', ?_, h.written (t := [b]) hshort hfree hrest hlen⟩
  rw [putByte, writeAt, if_pos (Int.natCast_nonneg _), Int.toNat_natCast, hstore, hindex,
    List.append_assoc]
  rfl

theorem Room.oneByte (h : Room s c rest) :
    ∃ rest', Room (if s.free = 0 then sdsMakeRoomFor junk s 1 else s) c rest' ∧
      1 ≤ (if s.free = 0 then sdsMakeRoomFor junk s 1 else s).free % 2 ^ 32 := by
  split
  · obtain ⟨back, hroom, hfree⟩ :=
      h.makeRoom junk [] rest (Nat.zero_le 1) 1 (by decide)
    exact ⟨back, hroom, hfree (by decide)⟩
  · have hfree := h.free
    exact ⟨rest, h, by omega⟩

theorem catfmtLoop_spec {f : Bytes} {args : List FmtArg} {text : Bytes} (h : Room s c rest)
    (htext : plainFmt f args = some text) (hshort : c.length + text.length < 2 ^ 31) :
    ∃ s' rest', catfmtLoop junk s c.length f args = some (s', ((c ++ text).length : ℤ)) ∧
      Room s' (c ++ text) rest' := by
  induction hn : f.length using Nat.strong_induction_on generalizing f args text s c rest with
  | _ n ih =>
    cases f with
    | nil =>
      obtain rfl := Option.some_inj.mp htext
      rw [List.append_nil]
      exact ⟨s, rest, rfl, h⟩
    | cons a f =>
      obtain ⟨rest₁, hroom, hfree⟩ := h.oneByte junk
      unfold plainFmt at htext
      unfold catfmtLoop
      dsimp only at htext ⊢
      generalize (if s.free = 0 then sdsMakeRoomFor junk s 1 else s) = s₁ at hroom hfree
      -- a byte of the format, or one after `%`
      have hbyte : ∀ {b : UInt8} {f' : Bytes}, f'.length < n →
          (do let text ← plainFmt f' args; some (b :: text)) = some text →
          ∃ s' rest', ((putByte s₁ c.length b).bind fun p => catfmtLoop junk p.1 p.2 f' args)
              = some (s', ((c ++ text).length : ℤ)) ∧ Room s' (c ++ text) rest' := by
        intro b f' hlt hplain
        obtain ⟨text', htext', hcons⟩ := Option.bind_eq_some_iff.mp hplain
        obtain rfl := Option.some_inj.mp hcons
        rw [List.length_cons] at hshort
        obtain ⟨s₂, rest₂, hput, hroom₂⟩ := putByte_spec hroom b hfree (by omega)
        rw [hput, List.append_cons c b text']
        exact ih _ hlt hroom₂ htext' (by rw [List.length_append, List.length_singleton]; omega) rfl
      split at htext
      · rename_i hpercent
        rw [if_pos hpercent]
        cases f with
        | nil => cases htext
        | cons next f =>
          dsimp only at htext ⊢
          split at htext
          · rename_i hconv
            rw [if_pos hconv, fmtArg_eq]
            obtain ⟨⟨str, args'⟩, harg, htext⟩ := Option.bind_eq_some_iff.mp htext
            obtain ⟨text', htext', happend⟩ := Option.bind_eq_some_iff.mp htext
            obtain rfl := Option.some_inj.mp happend
            dsimp only at hshort ⊢
            rw [List.length_append] at hshort
            obtain ⟨s₂, rest₂, hput, hroom₂⟩ := putString_spec junk hroom str (by omega)
            rw [harg]
            dsimp only [Option.bind_eq_bind, Option.bind_some]
            rw [hput, ← List.append_assoc]
            refine ih _ ?_ hroom₂ htext' (by rw [List.length_append]; omega) rfl
            rw [← hn, List.length_cons, List.length_cons]
            omega
          · rename_i hconv
            rw [if_neg hconv]
            exact hbyte (by rw [← hn, List.length_cons, List.length_cons]; omega) htext
      · rename_i hpercent
        rw [if_neg hpercent]
        exact hbyte (by rw [← hn, List.length_cons]; omega) htext

theorem sdscatfmt_spec (h : Represents s c) {fmt : Bytes} {args : List FmtArg} {text : Bytes}
    (htext : plainFmt (cString fmt) args = some text) (hshort : c.length + text.length < 2 ^ 31) :
    ∃ s', sdscatfmt junk s fmt args = some s' ∧ Represents s' (c ++ text) := by
  obtain ⟨rest, h⟩ := h
  have hlen : toInt c.length = c.length := toInt_eq (by omega) (by omega)
  obtain ⟨s', rest', hloop, hroom⟩ := catfmtLoop_spec junk h htext hshort
  obtain ⟨buf, hnul, hresult⟩ := hroom.terminate
  refine ⟨_, ?_, hresult⟩
  rw [sdscatfmt, h.sdslen, hlen, hloop]
  dsimp only [Option.bind_eq_bind, Option.bind_some]
  rw [writeAt, if_pos (Int.natCast_nonneg _), Int.toNat_natCast, hnul]
  rfl

end

/-! ### Parts of strings -/

/-- The maximal runs of bytes with `p` are removed from both ends. -/
def trimmed (p : UInt8 → Bool) (c : Bytes) : Bytes := (c.dropWhile p).rdropWhile p

theorem rdropWhile_cons {α : Type} (p : α → Bool) (a : α) (l : List α) :
    (a :: l).rdropWhile p =
      if l.rdropWhile p = [] then if p a then [] else [a] else a :: l.rdropWhile p := by
  induction l using List.reverseRecOn with
  | nil => simp [List.rdropWhile_singleton]
  | append_singleton l x ih =>
    rw [← List.cons_append]
    by_cases hx : p x = true
    · rw [List.rdropWhile_concat_pos _ _ _ hx, List.rdropWhile_concat_pos _ _ _ hx, ih]
    · rw [List.rdropWhile_concat_neg _ _ _ hx, List.rdropWhile_concat_neg _ _ _ hx, if_neg]
      · rfl
      · exact List.append_ne_nil_of_right_ne_nil _ (List.cons_ne_nil _ _)

theorem trimmed_eq_drop (p : UInt8 → Bool) (c : Bytes) :
    trimmed p c = (c.rdropWhile p).drop (c.takeWhile p).length := by
  induction c with
  | nil => rfl
  | cons a c ih =>
    rw [trimmed] at ih ⊢
    by_cases ha : p a = true
    · rw [List.dropWhile_cons_of_pos ha, List.takeWhile_cons_of_pos ha, ih, rdropWhile_cons,
        List.length_cons]
      split
      · rename_i hempty
        rw [hempty, List.drop_nil, List.drop_nil]
      · rfl
    · rw [List.dropWhile_cons_of_neg ha, List.takeWhile_cons_of_neg ha]
      rfl

theorem trimLeft_eq {cset : Bytes} (front c rest : Bytes) :
    trimLeft (front ++ c ++ rest) cset c.length front.length
      = some (front.length + (c.takeWhile (strchr cset)).length) := by
  induction c generalizing front with
  | nil => rfl
  | cons a c ih =>
    have hread : (front ++ a :: c ++ rest)[front.length]? = some a := by
      rw [List.append_assoc, List.getElem?_append_right le_rfl, Nat.sub_self]
      rfl
    rw [List.length_cons, trimLeft, hread]
    dsimp only [Option.bind_eq_bind, Option.bind_some]
    split
    · rename_i ha
      have hrec := ih (front ++ [a])
      rw [List.append_assoc front [a] c, List.length_append] at hrec
      rw [List.takeWhile_cons_of_pos ha, List.length_cons]
      refine hrec.trans (congrArg some ?_)
      rw [List.length_singleton, Nat.add_assoc, Nat.add_comm 1]
    · rename_i ha
      rw [List.takeWhile_cons_of_neg ha]
      rfl

theorem trimRight_eq {cset : Bytes} (a : UInt8) (l rest : Bytes) :
    trimRight (a :: l ++ rest) cset l.length = some (l.rdropWhile (strchr cset)).length := by
  induction l using List.reverseRecOn generalizing rest with
  | nil => rfl
  | append_singleton l x ih =>
    have hread : (a :: (l ++ [x]) ++ rest)[l.length + 1]? = some x := by
      rw [List.cons_append, List.getElem?_cons_succ, List.append_assoc,
        List.getElem?_append_right le_rfl, Nat.sub_self]
      rfl
    rw [List.length_append, List.length_singleton, trimRight, hread]
    dsimp only [Option.bind_eq_bind, Option.bind_some]
    split
    · rename_i hx
      rw [List.rdropWhile_concat_pos _ _ _ hx, ← List.cons_append, List.append_assoc]
      exact ih _
    · rename_i hx
      rw [List.rdropWhile_concat_neg _ _ _ hx, List.length_append, List.length_singleton]

section
variable {s : Sdshdr} {c rest : Bytes}

theorem Room.movePart (h : Room s c rest) {p n : ℕ} (hpart : p + n ≤ c.length) :
    ∃ m buf, (if p ≠ 0 then memmove s.buf 0 p n else some s.buf) = some m ∧
      store m n [0] = some buf ∧
      Represents ⟨toInt n, toInt (s.free + (s.len - n)), buf⟩ ((c.drop p).take n) := by
  have hlength : ((c.drop p).take n).length = n := by
    rw [List.length_take, List.length_drop]
    omega
  obtain ⟨m, hmove, tail, hm⟩ : ∃ m, (if p ≠ 0 then memmove s.buf 0 p n else some s.buf) = some m ∧
      ∃ tail, m = (c.drop p).take n ++ tail ∧ m.length = s.buf.length := by
    by_cases hp : p = 0
    · subst hp
      refine ⟨s.buf, rfl, c.drop n ++ rest, ?_, rfl⟩
      rw [List.drop_zero, ← List.append_assoc, List.take_append_drop, h.buf]
    · have hslice : slice s.buf p n = some ((c.drop p).take n) := by
        have hle : p + n ≤ s.buf.length := by
          rw [h.buf, List.length_append]
          omega
        rw [slice, if_pos hle, h.buf, List.drop_append_of_le_length (by omega),
          List.take_append_of_le_length (by rw [List.length_drop]; omega)]
      have hstore : store s.buf 0 ((c.drop p).take n)
          = some ((c.drop p).take n ++ s.buf.drop n) := by
        rw [store, if_pos, hlength, Nat.zero_add]
        · rfl
        · rw [hlength, h.buf, List.length_append]
          omega
      refine ⟨_, ?_, s.buf.drop n, rfl, length_of_store hstore⟩
      rw [if_pos hp, memmove, hslice]
      exact hstore
  obtain ⟨rfl, hm⟩ := hm
  obtain ⟨buf, hnul, hresult⟩ := (h.shorter (by omega) hm).terminate
  rw [hlength] at hnul hresult
  exact ⟨_, buf, hmove, hnul, hresult⟩

theorem sdstrim_spec (h : Represents s c) (cset : Bytes) :
    ∃ s', sdstrim s cset = some s' ∧ Represents s' (trimmed (strchr cset) c) := by
  obtain ⟨rest, h⟩ := h
  have hleft : trimLeft s.buf cset (sdslen s) 0
      = some (c.takeWhile (strchr cset)).length := by
    rw [h.sdslen, h.buf, ← List.nil_append (c ++ 0 :: rest), ← List.append_assoc]
    refine (trimLeft_eq [] c (0 :: rest)).trans ?_
    rw [List.length_nil, Nat.zero_add]
  -- the number of bytes that are left
  obtain ⟨ep, hright, hlen⟩ : ∃ ep : ℤ, trimEnd s.buf cset (sdslen s) = some ep ∧
      (if (c.takeWhile (strchr cset)).length > ep then 0
        else (ep - (c.takeWhile (strchr cset)).length + 1).toNat)
      = (c.rdropWhile (strchr cset)).length - (c.takeWhile (strchr cset)).length := by
    rw [h.sdslen, h.buf]
    cases c with
    | nil => exact ⟨-1, rfl, rfl⟩
    | cons a l =>
      refine ⟨(l.rdropWhile (strchr cset)).length, ?_, ?_⟩
      · rw [List.length_cons, trimEnd, trimRight_eq]
        rfl
      · rw [rdropWhile_cons]
        by_cases hnil : l.rdropWhile (strchr cset) = []
        · rw [if_pos hnil, hnil]
          by_cases ha : strchr cset a = true
          · rw [if_pos ha, List.takeWhile_cons_of_pos ha, List.length_cons, if_pos]
            · rw [List.length_nil, Nat.zero_sub]
            · rw [List.length_nil]
              omega
          · rw [if_neg ha, List.takeWhile_cons_of_neg ha]
            rfl
        · rw [if_neg hnil, List.length_cons]
          split <;> omega
  have hpart : (c.takeWhile (strchr cset)).length +
      ((c.rdropWhile (strchr cset)).length - (c.takeWhile (strchr cset)).length) ≤ c.length := by
    have htake := (c.takeWhile_prefix (strchr cset)).length_le
    have hdrop := (c.rdropWhile_prefix (strchr cset)).length_le
    omega
  have htrimmed : trimmed (strchr cset) c = (c.drop (c.takeWhile (strchr cset)).length).take
      ((c.rdropWhile (strchr cset)).length - (c.takeWhile (strchr cset)).length) := by
    obtain ⟨tail, htail⟩ := c.rdropWhile_prefix (strchr cset)
    rw [trimmed_eq_drop, ← List.drop_take]
    exact congrArg _ (List.prefix_iff_eq_take.mp ⟨tail, htail⟩)
  obtain ⟨m, buf, hmove, hnul, hresult⟩ := h.movePart hpart
  rw [← htrimmed] at hresult
  refine ⟨_, ?_, hresult⟩
  rw [sdstrim, hleft]
  dsimp only [Option.bind_eq_bind, Option.bind_some]
  rw [hright]
  dsimp only [Option.bind_eq_bind, Option.bind_some]
  rw [hlen, hmove]
  dsimp only [Option.bind_eq_bind, Option.bind_some]
  rw [hnul]
  rfl

/-! ### Ranges -/

/-- The bytes from `start` to `stop`, which count from the end if they are negative. -/
def plainRange (c : Bytes) (start stop : ℤ) : Bytes :=
  let first := max (if start < 0 then start + c.length else start) 0
  let last := min (max (if stop < 0 then stop + c.length else stop) 0) (c.length - 1)
  (c.take (last + 1).toNat).drop first.toNat

theorem rangeIndex_eq {len : ℕ} (hlen : len < 2 ^ 31) {i : ℤ} (hmin : -2 ^ 31 ≤ i) :
    rangeIndex len i = max (if i < 0 then i + len else i) 0 := by
  rw [rangeIndex]
  split
  · rw [toInt_eq (by omega) (by omega)]
    split <;> omega
  · omega

theorem rangeLength_cases {start : ℤ} (stop : ℤ) (hstart : 0 ≤ start) (hstop : stop < 2 ^ 31) :
    (start > stop ∧ rangeLength start stop = 0) ∨
      (start ≤ stop ∧ rangeLength start stop ≠ 0 ∧
        (stop < 2 ^ 31 - 1 → (rangeLength start stop : ℤ) = stop - start + 1)) := by
  rw [rangeLength]
  by_cases hgt : start > stop
  · exact .inl ⟨hgt, if_pos hgt⟩
  · refine .inr ⟨not_lt.mp hgt, ?_⟩
    have hemod := toInt_emod (stop - start + 1)
    have hrange := toInt_range (stop - start + 1)
    rw [if_neg hgt, toInt_eq (v := stop - start) (by omega) (by omega), toSize]
    omega

theorem rangePart_cases {len : ℕ} (hlen : len < 2 ^ 31) {start stop : ℤ}
    (hstart : 0 ≤ start) (hstop : 0 ≤ stop) (hmax : stop < 2 ^ 31) :
    ((rangePart len start stop).2 = 0 ∧ min stop (len - 1) < start) ∨
      ((rangePart len start stop).1 = start ∧ (rangePart len start stop).2 ≠ 0 ∧
        start + (rangePart len start stop).2 = min stop (len - 1) + 1) := by
  have hsigned : toInt len = len := toInt_eq (by omega) (by omega)
  have hend : toInt ((len : ℤ) - 1) = len - 1 := toInt_eq (by omega) (by omega)
  rw [rangePart, hsigned, hend]
  obtain ⟨hgt, hzero⟩ | ⟨hle, hne, hexact⟩ := rangeLength_cases stop hstart hmax
  · rw [hzero, if_neg (not_not_intro rfl)]
    exact .inl ⟨rfl, by omega⟩
  · rw [if_pos hne]
    split
    · exact .inl ⟨rfl, by omega⟩
    · rename_i hlt
      split
      · obtain ⟨hgt, -⟩ | ⟨-, hne', hexact'⟩ :=
          rangeLength_cases (len - 1) hstart (by omega)
        · omega
        · exact .inr ⟨rfl, hne', by have := hexact' (by omega); dsimp only; omega⟩
      · exact .inr ⟨rfl, hne, by have := hexact (by omega); dsimp only; omega⟩

theorem sdsrange_spec (h : Represents s c) (start stop : Int32) :
    ∃ s', sdsrange s start stop = some s' ∧
      Represents s' (plainRange c start.toInt stop.toInt) := by
  obtain ⟨rest, hroom⟩ := id h
  have hshort := hroom.short
  rw [sdsrange, hroom.sdslen]
  dsimp only
  split
  · rename_i hzero
    refine ⟨s, rfl, ?_⟩
    obtain rfl := List.length_eq_zero_iff.mp hzero
    rwa [plainRange, List.take_nil, List.drop_nil]
  · rw [rangeIndex_eq hshort start.le_toInt, rangeIndex_eq hshort stop.le_toInt, plainRange]
    have hfirstle : max (if start.toInt < 0 then start.toInt + c.length else start.toInt) 0
        < 2 ^ 31 := by
      have hmax := start.toInt_lt
      split <;> omega
    have hlastle : max (if stop.toInt < 0 then stop.toInt + c.length else stop.toInt) 0
        < 2 ^ 31 := by
      have hmax := stop.toInt_lt
      split <;> omega
    have hfirst := le_max_right (if start.toInt < 0 then start.toInt + c.length else start.toInt) 0
    have hlast := le_max_right (if stop.toInt < 0 then stop.toInt + c.length else stop.toInt) 0
    generalize max (if start.toInt < 0 then start.toInt + c.length else start.toInt) 0 = first
      at hfirst hfirstle
    generalize max (if stop.toInt < 0 then stop.toInt + c.length else stop.toInt) 0 = last
      at hlast hlastle
    obtain ⟨n, hn⟩ : ∃ n, (rangePart c.length first last).2 = n := ⟨_, rfl⟩
    obtain ⟨p, hp⟩ : ∃ p, (if n = 0 then 0 else first.toNat) = p := ⟨_, rfl⟩
    have hkept : p + n ≤ c.length ∧ (c.take (min last (c.length - 1) + 1).toNat).drop first.toNat
        = (c.drop p).take n ∧
        ((rangePart c.length first last).1 ≠ 0 ∧ n ≠ 0 ↔ p ≠ 0) ∧
        (p ≠ 0 → (rangePart c.length first last).1.toNat = p) := by
      rw [List.drop_take]
      obtain ⟨hzero, hempty⟩ | ⟨hkeep, hne, hexact⟩ :=
        rangePart_cases hshort hfirst hlast hlastle
      · rw [hn] at hzero
        rw [if_pos hzero] at hp
        rw [hzero, ← hp, show (min last (c.length - 1) + 1).toNat - first.toNat = 0 by omega]
        exact ⟨Nat.zero_le _, rfl, by omega, fun h => absurd rfl h⟩
      · rw [hn] at hne hexact
        rw [if_neg hne] at hp
        rw [hkeep, hp, show (min last (c.length - 1) + 1).toNat - p = n by omega]
        exact ⟨by omega, rfl, by omega, fun _ => rfl⟩
    obtain ⟨hpart, hplain, hiff, hindex⟩ := hkept
    obtain ⟨m, buf, hmove, hnul, hresult⟩ := hroom.movePart hpart
    have hmoved : (if (rangePart c.length first last).1 ≠ 0 ∧ n ≠ 0 then
        memmove s.buf 0 (rangePart c.length first last).1.toNat n else some s.buf) = some m := by
      rw [← hmove]
      by_cases hp0 : p = 0
      · rw [if_neg (fun h => hiff.mp h hp0), if_neg (not_not_intro hp0)]
      · rw [if_pos (hiff.mpr hp0), if_pos hp0, hindex hp0]
    rw [← hplain] at hresult
    refine ⟨_, ?_, hresult⟩
    rw [hn, hmoved]
    dsimp only [Option.bind_eq_bind, Option.bind_some]
    rw [hnul]
    rfl

end

end DynamicString
