/-
BITOP combines its sources byte by byte.

* `opWords_eq` — an operation on words is one on their bytes;
* `bitopResult_eq` — the fast path and the loop after it;
* `bitop_combines` — what BITOP stores.
-/
import RedisModel.Bitop
import RedisModel.BitopsCount
import RedisModel.KeyspaceRun

open ByteBuffer Except Lanes RedisServer

namespace Bitops

/-! ### Words -/

theorem leVal_eq_pack_bytes (s : Bytes) : leVal s = pack 8 (s.map UInt8.toNat) := by
  induction s with
  | nil => rfl
  | cons b s ih =>
    rw [leVal, ih]
    rfl

theorem leVal_bitwise {f : Bool → Bool → Bool} (hf : f false false = false)
    {g : UInt8 → UInt8 → UInt8} (hg : ∀ a b, (g a b).toNat = Nat.bitwise f a.toNat b.toNat)
    {a b : Bytes} (hlen : a.length = b.length) :
    Nat.bitwise f (leVal a) (leVal b) = leVal (List.zipWith g a b) := by
  have hlt : ∀ {s : Bytes}, ∀ n ∈ s.map UInt8.toNat, n < 2 ^ 8 := fun n hn => by
    obtain ⟨x, -, rfl⟩ := List.mem_map.mp hn
    exact x.toNat_lt
  rw [leVal_eq_pack_bytes, leVal_eq_pack_bytes, pack_bitwise hf
    (by rw [List.length_map, List.length_map, hlen]) hlt hlt, leVal_eq_pack_bytes, List.zipWith_map,
    List.map_zipWith]
  congr 2
  funext x y
  exact (hg x y).symm

theorem leVal_lt_word {a : Bytes} (ha : a.length = 8) : leVal a < 2 ^ 64 := by
  have h := leVal_lt a
  rw [ha] at h
  exact h.trans_eq (by norm_num)

theorem toNat_word {a : Bytes} (ha : a.length = 8) : (BitVec.ofNat 64 (leVal a)).toNat = leVal a := by
  rw [BitVec.toNat_ofNat, Nat.mod_eq_of_lt (leVal_lt_word ha)]

theorem opWord_eq (op : BitOp) {a b : Bytes} (ha : a.length = 8) (hb : b.length = 8) :
    leBytes 8 (opWord op (BitVec.ofNat 64 (leVal a)) (BitVec.ofNat 64 (leVal b))).toNat
      = List.zipWith (opByte op) a b := by
  have hlen : (List.zipWith (opByte op) a b).length = 8 := by
    rw [List.length_zipWith, ha, hb]
    rfl
  have hval : (opWord op (BitVec.ofNat 64 (leVal a)) (BitVec.ofNat 64 (leVal b))).toNat
      = leVal (List.zipWith (opByte op) a b) := by
    cases op with
    | and =>
      rw [opWord, BitVec.toNat_and, toNat_word ha, toNat_word hb]
      exact leVal_bitwise rfl (fun x y => UInt8.toNat_and x y) (ha.trans hb.symm)
    | or =>
      rw [opWord, BitVec.toNat_or, toNat_word ha, toNat_word hb]
      exact leVal_bitwise rfl (fun x y => UInt8.toNat_or x y) (ha.trans hb.symm)
    | xor =>
      rw [opWord, BitVec.toNat_xor, toNat_word ha, toNat_word hb]
      exact leVal_bitwise rfl (fun x y => UInt8.toNat_xor x y) (ha.trans hb.symm)
    | not =>
      rw [opWord, toNat_word ha]
      congr 1
      refine List.ext_getElem (by rw [hlen, ha]) fun i hi hi' => ?_
      rw [List.getElem_zipWith]
      rfl
  have hback := leBytes_leVal (List.zipWith (opByte op) a b)
  rw [hlen] at hback
  rw [hval, hback]

theorem not_eq_xor (b : UInt8) : ~~~ b = b ^^^ 255 := by
  rw [← UInt8.toBitVec_inj, UInt8.toBitVec_not, UInt8.toBitVec_xor]
  exact BitVec.xor_allOnes.symm

theorem notWord_eq {a : Bytes} (ha : a.length = 8) :
    leBytes 8 (~~~ BitVec.ofNat 64 (leVal a)).toNat = a.map fun b => ~~~ b := by
  have hones : BitVec.allOnes 64 = BitVec.ofNat 64 (leVal (List.replicate 8 255)) := by decide
  have hxor : ~~~ BitVec.ofNat 64 (leVal a)
      = opWord .xor (BitVec.ofNat 64 (leVal a)) (BitVec.ofNat 64 (leVal (List.replicate 8 255))) := by
    rw [opWord, ← hones, BitVec.xor_allOnes]
  rw [hxor, opWord_eq .xor ha (List.length_replicate ..)]
  refine List.ext_getElem (by simp [ha]) fun i hi hi' => ?_
  rw [List.getElem_zipWith, List.getElem_map, List.getElem_replicate, not_eq_xor]
  rfl

theorem opWords_eq (op : BitOp) {src : Bytes} {n : ℕ} {a b c d : Bytes} (hb : b.length = 8 * n)
    (hd : slice src a.length (8 * n) = some d) :
    opWords op src n a.length (a ++ (b ++ c)) = some (a ++ (List.zipWith (opByte op) b d ++ c)) := by
  induction n generalizing a b d with
  | zero =>
    obtain rfl := List.length_eq_zero_iff.mp hb
    rfl
  | succ n ih =>
    obtain ⟨hle, hdlen⟩ := slice_eq_some hd
    have hd' : d = (src.drop a.length).take (8 * (n + 1)) := by
      rw [slice, if_pos hle] at hd
      exact (Option.some_inj.mp hd).symm
    obtain ⟨b₁, b₂, rfl, hb₁⟩ : ∃ b₁ b₂, b = b₁ ++ b₂ ∧ b₁.length = 8 :=
      ⟨b.take 8, b.drop 8, (List.take_append_drop 8 b).symm, by rw [List.length_take]; omega⟩
    rw [List.length_append] at hb
    have hfirst : slice src a.length 8 = some (d.take 8) := by
      rw [slice, if_pos (by omega), hd', List.take_take]
      congr 2
    have hrest : slice src (a.length + 8) (8 * n) = some (d.drop 8) := by
      rw [slice, if_pos (by omega), hd', List.drop_take, List.drop_drop]
      congr 2
    have hdtake : (d.take 8).length = 8 := by
      rw [List.length_take]
      omega
    have hzip : (List.zipWith (opByte op) b₁ (d.take 8)).length = 8 := by
      rw [List.length_zipWith, hb₁, hdtake]
      rfl
    have hread : slice (a ++ ((b₁ ++ b₂) ++ c)) a.length 8 = some b₁ := by
      rw [List.append_assoc b₁]
      exact slice_append rfl hb₁.symm
    have hwrite : store (a ++ ((b₁ ++ b₂) ++ c)) a.length (List.zipWith (opByte op) b₁ (d.take 8))
        = some ((a ++ List.zipWith (opByte op) b₁ (d.take 8)) ++ (b₂ ++ c)) := by
      rw [List.append_assoc b₁, store_append rfl (hzip.trans hb₁.symm), List.append_assoc a]
    have hlen : (a ++ List.zipWith (opByte op) b₁ (d.take 8)).length = a.length + 8 := by
      rw [List.length_append, hzip]
    rw [opWords]
    dsimp only [Option.bind_eq_bind]
    rw [hread, Option.bind_some, hfirst, Option.bind_some, opWord_eq op hb₁ hdtake, hwrite,
      Option.bind_some, ← hlen, ih (by omega) (by rw [hlen]; exact hrest), List.append_assoc,
      ← List.append_assoc (List.zipWith _ b₁ _)]
    congr 3
    rw [← List.zipWith_append (hb₁.trans hdtake.symm), List.take_append_drop]

theorem notWords_eq {n : ℕ} {a b c : Bytes} (hb : b.length = 8 * n) :
    notWords n a.length (a ++ (b ++ c)) = some (a ++ (b.map (fun x => ~~~ x) ++ c)) := by
  induction n generalizing a b with
  | zero =>
    obtain rfl := List.length_eq_zero_iff.mp hb
    rfl
  | succ n ih =>
    obtain ⟨b₁, b₂, rfl, hb₁⟩ : ∃ b₁ b₂, b = b₁ ++ b₂ ∧ b₁.length = 8 :=
      ⟨b.take 8, b.drop 8, (List.take_append_drop 8 b).symm, by rw [List.length_take]; omega⟩
    rw [List.length_append] at hb
    have hread : slice (a ++ ((b₁ ++ b₂) ++ c)) a.length 8 = some b₁ := by
      rw [List.append_assoc b₁]
      exact slice_append rfl hb₁.symm
    have hwrite : store (a ++ ((b₁ ++ b₂) ++ c)) a.length (b₁.map fun x => ~~~ x)
        = some ((a ++ b₁.map fun x => ~~~ x) ++ (b₂ ++ c)) := by
      rw [List.append_assoc b₁, store_append rfl (List.length_map _), List.append_assoc a]
    have hlen : (a ++ b₁.map fun x => ~~~ x).length = a.length + 8 := by
      rw [List.length_append, List.length_map, hb₁]
    rw [notWords]
    dsimp only [Option.bind_eq_bind]
    rw [hread, Option.bind_some, notWord_eq hb₁, hwrite, Option.bind_some, ← hlen,
      ih (by omega), List.append_assoc, ← List.append_assoc (b₁.map _), ← List.map_append]

/-! ### The fast path -/

section
variable {op : BitOp} {s₀ : Bytes} {srcs : List Bytes} {j : ℕ}

theorem outputByte_some (op : BitOp) (s₀ : Bytes) (srcs : List Bytes) (i : ℕ) :
    outputByte op ((s₀ :: srcs).map some) i
      = srcs.foldl (fun output s => opByte op output (s.getD i 0))
          (if op = .not then ~~~ s₀.getD i 0 else s₀.getD i 0) := by
  show ((srcs.map some).foldl _ _) = _
  rw [List.foldl_map]
  rfl

theorem outputBytes_getElem? {b : Bytes} (out : ℕ → UInt8) (hlen : b.length = 32)
    (h : ∀ t < 32, b.getD t 0 = out (j + t)) : b = (List.range 32).map fun t => out (j + t) := by
  refine List.ext_getElem (by rw [hlen, List.length_map, List.length_range]) fun t ht ht' => ?_
  rw [List.getElem_map, List.getElem_range, ← h t (by omega), List.getD_eq_getElem _ _ ht]

theorem foldlM_opWords {a b c : Bytes} (hb : b.length = 32) (hsrcs : ∀ s ∈ srcs, a.length + 32 ≤ s.length) :
    ∃ b', (srcs.map some).foldlM (fun res src => do
        let s ← src
        opWords op s 4 a.length res) (a ++ (b ++ c)) = some (a ++ (b' ++ c)) ∧ b'.length = 32 ∧
      ∀ t < 32, b'.getD t 0 = srcs.foldl (fun output s => opByte op output (s.getD (a.length + t) 0))
        (b.getD t 0) := by
  induction srcs generalizing b with
  | nil => exact ⟨b, rfl, hb, fun _ _ => rfl⟩
  | cons s srcs ih =>
    have hs := hsrcs s List.mem_cons_self
    have hd : slice s a.length (8 * 4) = some ((s.drop a.length).take 32) := by
      rw [slice, if_pos hs]
    have hdlen : ((s.drop a.length).take 32).length = 32 := by
      rw [List.length_take, List.length_drop]
      omega
    have hzip : (List.zipWith (opByte op) b ((s.drop a.length).take 32)).length = 32 := by
      rw [List.length_zipWith, hb, hdlen]
      rfl
    obtain ⟨b', hfold, hb', hout⟩ := ih hzip fun s' hs' => hsrcs s' (List.mem_cons_of_mem s hs')
    refine ⟨b', ?_, hb', fun t ht => ?_⟩
    · rw [List.map_cons, List.foldlM_cons]
      dsimp only [Option.bind_eq_bind, Option.bind_some]
      rw [opWords_eq op hb hd, Option.bind_some]
      exact hfold
    · rw [hout t ht, List.foldl_cons]
      congr 1
      rw [List.getD_eq_getElem _ _ (by omega), List.getElem_zipWith, List.getElem_take,
        List.getElem_drop, List.getD_eq_getElem _ _ (by omega), List.getD_eq_getElem _ _ (by omega)]

theorem fastRound_eq (hnot : op = .not → srcs = []) {a c : Bytes}
    (hs₀ : a.length + 32 ≤ s₀.length) (hsrcs : ∀ s ∈ srcs, a.length + 32 ≤ s.length) :
    fastRound op ((s₀ :: srcs).map some) a.length (a ++ ((s₀.drop a.length).take 32 ++ c))
      = some (a ++ ((List.range 32).map
          (fun t => outputByte op ((s₀ :: srcs).map some) (a.length + t)) ++ c)) := by
  have hlen : ((s₀.drop a.length).take 32).length = 32 := by
    rw [List.length_take, List.length_drop]
    omega
  have hseed : ∀ t < 32, ((s₀.drop a.length).take 32).getD t 0 = s₀.getD (a.length + t) 0 :=
    fun t ht => by
      rw [List.getD_eq_getElem _ _ (by omega), List.getElem_take, List.getElem_drop,
        List.getD_eq_getElem _ _ (by omega)]
  by_cases hop : op = .not
  · obtain rfl := hnot hop
    subst hop
    have hround : fastRound .not ([s₀].map some) a.length (a ++ ((s₀.drop a.length).take 32 ++ c))
        = notWords 4 a.length (a ++ ((s₀.drop a.length).take 32 ++ c)) := rfl
    rw [hround, notWords_eq hlen]
    congr 3
    refine outputBytes_getElem? _ (by rw [List.length_map, hlen]) fun t ht => ?_
    rw [outputByte_some, if_pos rfl, ← hseed t ht, List.getD_eq_getElem _ _ (by
      rw [List.length_map, hlen]; exact ht), List.getElem_map, List.getD_eq_getElem _ _ (by omega)]
    rfl
  · obtain ⟨b', hfold, hb', hout⟩ := @foldlM_opWords op srcs a _ c hlen hsrcs
    have hround : fastRound op ((s₀ :: srcs).map some) a.length
        (a ++ ((s₀.drop a.length).take 32 ++ c)) = some (a ++ (b' ++ c)) := by
      rw [← hfold]
      cases op with
      | not => exact absurd rfl hop
      | and => rfl
      | or => rfl
      | xor => rfl
    rw [hround]
    congr 3
    refine outputBytes_getElem? _ hb' fun t ht => ?_
    rw [hout t ht, hseed t ht, outputByte_some, if_neg hop]

theorem fastLoop_eq (hnot : op = .not → srcs = []) (m : ℕ) {a c : Bytes}
    (ha : a = (List.range a.length).map (outputByte op ((s₀ :: srcs).map some)))
    (hs₀ : a.length + m ≤ s₀.length) (hsrcs : ∀ s ∈ srcs, a.length + m ≤ s.length) :
    ∃ a' c', fastLoop op ((s₀ :: srcs).map some) m a.length (a ++ ((s₀.drop a.length).take m ++ c))
        = some (a' ++ c', a'.length) ∧
      a' = (List.range a'.length).map (outputByte op ((s₀ :: srcs).map some)) ∧
      a'.length + c'.length = a.length + m + c.length := by
  induction m using Nat.strong_induction_on generalizing a with
  | _ m ih =>
    have hlen : ((s₀.drop a.length).take m).length = m := by
      rw [List.length_take, List.length_drop]
      omega
    rw [fastLoop]
    by_cases hm : 32 ≤ m
    · obtain ⟨k, rfl⟩ : ∃ k, m = 32 + k := ⟨m - 32, by omega⟩
      have hsplit : (s₀.drop a.length).take (32 + k)
          = (s₀.drop a.length).take 32 ++ (s₀.drop (a.length + 32)).take k := by
        rw [List.take_add, List.drop_drop]
      set out := (List.range 32).map
        (fun t => outputByte op ((s₀ :: srcs).map some) (a.length + t)) with hout
      have hround := fastRound_eq (c := (s₀.drop (a.length + 32)).take k ++ c) hnot
        (show a.length + 32 ≤ s₀.length by omega)
        (fun s hs => by have := hsrcs s hs; omega)
      have houtlen : (a ++ out).length = a.length + 32 := by
        rw [List.length_append, hout, List.length_map, List.length_range]
      have hanew : a ++ out
          = (List.range (a ++ out).length).map (outputByte op ((s₀ :: srcs).map some)) := by
        rw [houtlen, List.range_add, List.map_append, ← ha, List.map_map]
        rfl
      obtain ⟨a', c', hloop, ha', hlen'⟩ := ih k (by omega) hanew (by omega)
        (fun s hs => by have := hsrcs s hs; omega)
      rw [houtlen] at hloop hlen'
      refine ⟨a', c', ?_, ha', by omega⟩
      rw [if_pos hm, hsplit, List.append_assoc, hround]
      dsimp only
      rw [Nat.add_sub_cancel_left, ← hout, ← List.append_assoc a]
      exact hloop
    · refine ⟨a, (s₀.drop a.length).take m ++ c, by rw [if_neg hm], ha, ?_⟩
      rw [List.length_append, hlen, Nat.add_assoc]

end

theorem byteLoop_eq (op : BitOp) (src : List (Option Bytes)) (n : ℕ) {a c : Bytes}
    (ha : a = (List.range a.length).map (outputByte op src)) (hc : c.length = n) :
    byteLoop op src n a.length (a ++ c)
      = some ((List.range (a.length + n)).map (outputByte op src)) := by
  induction n generalizing a c with
  | zero =>
    obtain rfl := List.length_eq_zero_iff.mp hc
    rw [byteLoop, List.append_nil, Nat.add_zero, ← ha]
  | succ n ih =>
    cases c with
    | nil => exact absurd hc (Nat.succ_ne_zero n).symm
    | cons x c =>
      have hwrite : store (a ++ x :: c) a.length [outputByte op src a.length]
          = some ((a ++ [outputByte op src a.length]) ++ c) := by
        rw [List.append_assoc]
        exact store_append (b := [x]) rfl rfl
      have hlen : (a ++ [outputByte op src a.length]).length = a.length + 1 := List.length_append
      rw [byteLoop]
      dsimp only [Option.bind_eq_bind]
      rw [hwrite, Option.bind_some, ← hlen, ih ?_ (Nat.succ.inj hc), hlen,
        Nat.add_assoc, Nat.add_comm 1 n]
      rw [hlen, List.range_succ, List.map_append, ← ha]
      rfl

/-! ### The sources -/

/-- What is known of the sources: `minlen` is 0 if one of them is missing. -/
structure Sources.Measured (r : Sources) : Prop where
  maxlen : ∀ o ∈ r.src, (o.getD []).length ≤ r.maxlen
  reached : r.maxlen = 0 ∨ ∃ o ∈ r.src, (o.getD []).length = r.maxlen
  minlen : r.minlen = 0 ∨ ∃ srcs : List Bytes, r.src = srcs.map some ∧ ∀ s ∈ srcs, r.minlen ≤ s.length

theorem bitopResult_eq {op : BitOp} {r : Sources} (h : r.Measured) (hsrc : r.src ≠ [])
    (hnot : op = .not → r.src.length = 1) :
    bitopResult op r = some ((List.range r.maxlen).map (outputByte op r.src)) := by
  have hplain : byteLoop op r.src r.maxlen 0 (List.replicate r.maxlen 0)
      = some ((List.range r.maxlen).map (outputByte op r.src)) := by
    have h := byteLoop_eq op r.src r.maxlen (a := []) rfl (List.length_replicate (a := (0 : UInt8)))
    rwa [List.nil_append, List.length_nil, Nat.zero_add] at h
  rw [bitopResult]
  by_cases hfast : r.minlen ≠ 0 ∧ r.src.length ≤ 16
  · rcases h.minlen with hzero | ⟨srcs, hsome, hmin⟩
    · exact absurd hzero hfast.1
    · cases srcs with
      | nil => exact absurd hsome hsrc
      | cons s₀ srcs =>
        have hs₀ := hmin s₀ List.mem_cons_self
        have hle : r.minlen ≤ r.maxlen := by
          refine hs₀.trans (h.maxlen (some s₀) ?_)
          rw [hsome]
          exact List.mem_cons_self
        have hnot' : op = .not → srcs = [] := fun hop => by
          have hone := hnot hop
          rw [hsome, List.length_map, List.length_cons] at hone
          exact List.length_eq_zero_iff.mp (Nat.succ.inj hone)
        have hseed : slice s₀ 0 r.minlen = some (s₀.take r.minlen) := by
          rw [slice, if_pos (by omega), List.drop_zero]
        have hzeros : List.replicate r.maxlen (0 : UInt8)
            = [] ++ (List.replicate r.minlen 0 ++ List.replicate (r.maxlen - r.minlen) 0) := by
          rw [List.nil_append, List.replicate_append_replicate]
          congr 1
          omega
        have hcopy : store (List.replicate r.maxlen 0) 0 (s₀.take r.minlen)
            = some ([] ++ ((s₀.drop 0).take r.minlen ++ List.replicate (r.maxlen - r.minlen) 0)) := by
          rw [hzeros, List.drop_zero]
          exact store_append rfl (by rw [List.length_take, List.length_replicate]; omega)
        obtain ⟨a, c, hloop, ha, hlen⟩ := @fastLoop_eq op s₀ srcs hnot' r.minlen []
          (List.replicate (r.maxlen - r.minlen) 0) rfl (by rw [List.length_nil]; omega)
          (fun s hs => by
            have := hmin s (List.mem_cons_of_mem s₀ hs)
            rw [List.length_nil]
            omega)
        rw [List.length_nil] at hloop
        rw [List.length_nil, Nat.zero_add, List.length_replicate] at hlen
        rw [if_pos hfast, hsome]
        dsimp only [Option.bind_eq_bind]
        rw [show ((s₀ :: srcs).map some).headD none = some s₀ from rfl, Option.bind_some, hseed,
          Option.bind_some, hcopy, Option.bind_some, hloop, Option.bind_some]
        dsimp only
        rw [byteLoop_eq op ((s₀ :: srcs).map some) (r.maxlen - a.length) ha (by omega)]
        congr 3
        omega
  · rw [if_neg hfast]
    exact hplain

/-- What the operation makes of the bytes of the sources at one position. -/
def combine : BitOp → List UInt8 → UInt8
  | .and, bytes => bytes.foldr (· &&& ·) 255
  | .or, bytes => bytes.foldr (· ||| ·) 0
  | .xor, bytes => bytes.foldr (· ^^^ ·) 0
  | .not, bytes => ~~~ bytes.headD 0

theorem foldl_eq_foldr {f : UInt8 → UInt8 → UInt8} (hassoc : ∀ a b c, f (f a b) c = f a (f b c))
    {e : UInt8} (he : ∀ a, f a e = a) (bytes : List UInt8) (x : UInt8) :
    bytes.foldl f x = f x (bytes.foldr f e) := by
  induction bytes generalizing x with
  | nil => exact (he x).symm
  | cons b bytes ih => rw [List.foldl_cons, ih, hassoc, List.foldr_cons]

theorem and_ones (a : UInt8) : a &&& 255 = a := by
  rw [← UInt8.toBitVec_inj, UInt8.toBitVec_and]
  exact BitVec.and_allOnes

theorem outputByte_combine {op : BitOp} {src : List (Option Bytes)} (hsrc : src ≠ [])
    (hnot : op = .not → src.length = 1) (i : ℕ) :
    outputByte op src i = combine op (src.map fun o => sourceByte o i) := by
  cases src with
  | nil => exact absurd rfl hsrc
  | cons o src =>
    have hfold : ∀ x, src.foldl (fun output s => opByte op output (sourceByte s i)) x
        = (src.map fun o => sourceByte o i).foldl (opByte op) x := fun x => List.foldl_map.symm
    show src.foldl _ _ = _
    rw [hfold]
    cases op with
    | and => exact foldl_eq_foldr UInt8.and_assoc and_ones _ _
    | or => exact foldl_eq_foldr UInt8.or_assoc (fun _ => UInt8.or_zero) _ _
    | xor => exact foldl_eq_foldr UInt8.xor_assoc (fun _ => UInt8.xor_zero) _ _
    | not =>
      obtain rfl : src = [] := List.length_eq_zero_iff.mp (Nat.succ.inj (hnot rfl))
      rfl

theorem Sources.Measured.add {r r' : Sources} (h : r.Measured) {o : Option Robj}
    (hadd : r.add o = some r') : r'.Measured ∧ r'.src = r.src ++ [o.bind Robj.text] := by
  cases o with
  | none =>
    obtain rfl := Option.some_inj.mp hadd
    refine ⟨⟨fun o ho => ?_, ?_, .inl rfl⟩, rfl⟩
    · rcases List.mem_append.mp ho with ho | ho
      · exact h.maxlen o ho
      · rw [List.mem_singleton.mp ho]
        exact Nat.zero_le _
    · exact h.reached.imp id fun ⟨o, ho, hlen⟩ => ⟨o, List.mem_append_left _ ho, hlen⟩
  | some o =>
    rw [Sources.add] at hadd
    cases htext : o.text with
    | none =>
      rw [htext] at hadd
      cases hadd
    | some s =>
      rw [htext] at hadd
      obtain rfl := Option.some_inj.mp hadd
      have hbind : (some o).bind Robj.text = some s := htext
      rw [hbind]
      refine ⟨⟨fun o ho => ?_, ?_, ?_⟩, rfl⟩
      · dsimp only
        rcases List.mem_append.mp ho with ho | ho
        · have := h.maxlen o ho
          split <;> omega
        · rw [List.mem_singleton.mp ho, Option.getD_some]
          split <;> omega
      · dsimp only
        split
        · exact .inr ⟨some s, List.mem_append_right _ (List.mem_singleton_self _), rfl⟩
        · exact h.reached.imp id fun ⟨o, ho, hlen⟩ => ⟨o, List.mem_append_left _ ho, hlen⟩
      · dsimp only
        rcases h.minlen with hzero | ⟨srcs, hsome, hmin⟩
        · by_cases hsrc : r.src = []
          · refine .inr ⟨[s], by rw [hsrc]; rfl, fun s' hs' => ?_⟩
            rw [if_pos (.inl hsrc), List.mem_singleton.mp hs']
          · exact .inl (by rw [if_neg (by rw [hzero]; exact fun h => h.elim hsrc (Nat.not_lt_zero _)),
              hzero])
        · refine .inr ⟨srcs ++ [s], by rw [hsome, List.map_append]; rfl, fun s' hs' => ?_⟩
          rcases List.mem_append.mp hs' with hs' | hs'
          · have hle := hmin s' hs'
            have hsrc : r.src ≠ [] := by
              rw [hsome]
              intro hnil
              rw [List.map_eq_nil_iff.mp hnil] at hs'
              exact List.not_mem_nil hs'
            split
            · rename_i hlt
              have := hlt.resolve_left hsrc
              omega
            · exact hle
          · rw [List.mem_singleton.mp hs']
            split <;> omega

theorem Sources.Measured.foldlM {r : Sources} (h : r.Measured) (objs : List (Option Robj)) :
    (∃ r', objs.foldlM Sources.add r = some r' ∧ r'.Measured ∧
        r'.src = r.src ++ objs.map (·.bind Robj.text) ∧ some Robj.other ∉ objs) ∨
      objs.foldlM Sources.add r = none ∧ some Robj.other ∈ objs := by
  induction objs generalizing r with
  | nil => exact .inl ⟨r, rfl, h, (List.append_nil _).symm, List.not_mem_nil⟩
  | cons o objs ih =>
    rw [List.foldlM_cons]
    dsimp only [Option.bind_eq_bind]
    cases hadd : r.add o with
    | none =>
      refine .inr ⟨rfl, ?_⟩
      cases o with
      | none => cases hadd
      | some o =>
        cases o with
        | other => exact List.mem_cons_self
        | raw s => cases hadd
        | int v => cases hadd
    | some r₁ =>
      obtain ⟨h₁, hsrc₁⟩ := h.add hadd
      have hne : some Robj.other ≠ o := by
        rintro rfl
        cases hadd
      rw [Option.bind_some]
      rcases ih h₁ with ⟨r', hfold, h', hsrc, hall⟩ | ⟨hfold, hother⟩
      · refine .inl ⟨r', hfold, h', ?_, ?_⟩
        · rw [hsrc, hsrc₁, List.append_assoc, List.map_cons, List.singleton_append]
        · rw [List.mem_cons, not_or]
          exact ⟨hne, hall⟩
      · exact .inr ⟨hfold, List.mem_cons_of_mem o hother⟩

/-! ### The command -/

section
variable {C : Type} {s : RedisServer C Robj} {d : ℕ}

theorem bitopSources_spec (now : ℤ) (keys : List Bytes) (h : Indexed s)
    (hd : s.clusterEnabled = true → d = 0) (r : Sources) :
    (bitopSources d now keys s r).Ensures (fun _ => False) fun res =>
      Indexed res.1 ∧ Rest s res.1 ∧ (∀ k, found res.1 d now k = found s d now k) ∧
      res.2 = (keys.map (found s d now)).foldlM Sources.add r := by
  induction keys generalizing s r with
  | nil => exact ⟨h, Rest.refl s, fun _ => rfl, rfl⟩
  | cons key keys ih =>
    rw [bitopSources]
    refine (lookupKeyWrite_found h hd key now).bind fun l hl => ?_
    obtain ⟨hindexed, hrest, hval, hfound⟩ := hl
    rw [hval, List.map_cons, List.foldlM_cons]
    cases r.add (found s d now key) with
    | none => exact ⟨hindexed, hrest, hfound, rfl⟩
    | some r' =>
      refine (ih hindexed (fun hc => hd (hrest.clusterEnabled ▸ hc)) r').imp fun res hres => ?_
      obtain ⟨hindexed', hrest', hfound', hsources⟩ := hres
      refine ⟨hindexed', hrest.trans hrest', fun k => (hfound' k).trans (hfound k), ?_⟩
      rw [hsources]
      congr 1
      exact List.map_congr_left fun k _ => hfound k

variable [DecidableEq C]

/-- The bytes of a source; there are none if it is missing. -/
def sourceText (o : Option Robj) : Bytes := (o.bind Robj.text).getD []

/-- The length of the longest source. -/
def longest (srcs : List Bytes) : ℕ := srcs.foldr (fun s n => max s.length n) 0

theorem longest_eq {n : ℕ} {srcs : List Bytes} (hle : ∀ s ∈ srcs, s.length ≤ n)
    (hmem : n = 0 ∨ ∃ s ∈ srcs, s.length = n) : longest srcs = n := by
  have hupper : longest srcs ≤ n := by
    clear hmem
    induction srcs with
    | nil => exact Nat.zero_le n
    | cons s srcs ih =>
      exact Nat.max_le.mpr ⟨hle s List.mem_cons_self,
        ih fun s' hs' => hle s' (List.mem_cons_of_mem s hs')⟩
  have hlower : ∀ s ∈ srcs, s.length ≤ longest srcs := by
    clear hle hmem hupper
    induction srcs with
    | nil => exact fun s hs => absurd hs List.not_mem_nil
    | cons s srcs ih =>
      intro s' hs'
      rcases List.mem_cons.mp hs' with rfl | hs'
      · exact Nat.le_max_left _ _
      · exact (ih s' hs').trans (Nat.le_max_right _ _)
  rcases hmem with rfl | ⟨s, hs, rfl⟩
  · exact Nat.le_zero.mp hupper
  · exact Nat.le_antisymm hupper (hlower s hs)

/-- What BITOP is for: the target becomes the combination of the bytes of all sources, filled up
with zeros, and is deleted if they are empty.  A source that is not a string is an error. -/
structure Combined (s : RedisServer C Robj) (d : ℕ) (op : BitOp) (targetkey : Bytes)
    (keys : List Bytes) (now : ℤ) (s' : RedisServer C Robj) (reply : StringReply) : Prop where
  other : some Robj.other ∈ keys.map (found s d now) → reply = .wrongtypeerr ∧
    found s' d now targetkey = found s d now targetkey
  strings : some Robj.other ∉ keys.map (found s d now) →
    reply = .integer (longest ((keys.map (found s d now)).map sourceText)) ∧
    (s'.db d).dict targetkey =
      if longest ((keys.map (found s d now)).map sourceText) = 0 then none
      else some (.raw ((List.range (longest ((keys.map (found s d now)).map sourceText))).map
        fun i => combine op (((keys.map (found s d now)).map sourceText).map (·.getD i 0))))

theorem bitopCommand_spec (h : Indexed s) (hd : s.clusterEnabled = true → d = 0)
    {opname : Bytes} {op : BitOp} (hop : parseOp opname = some op) (targetkey : Bytes)
    {keys : List Bytes} (hkeys : keys ≠ []) (hnot : op = .not → keys.length = 1) (now : ℤ) :
    (bitopCommand s d opname targetkey keys now).Ensures (fun _ => False) fun res =>
      Combined s d op targetkey keys now res.1 res.2 := by
  rw [bitopCommand, hop]
  dsimp only
  rw [if_neg fun h' => h'.2 (hnot h'.1)]
  refine (bitopSources_spec now keys h hd ⟨[], 0, 0⟩).bind fun res hres => ?_
  obtain ⟨hindexed, hrest, hfound, hsources⟩ := hres
  have hempty : (⟨[], 0, 0⟩ : Sources).Measured :=
    ⟨fun o ho => absurd ho List.not_mem_nil, .inl rfl, .inl rfl⟩
  have hd' : res.1.clusterEnabled = true → d = 0 := fun hc => hd (hrest.clusterEnabled ▸ hc)
  rcases hempty.foldlM (keys.map (found s d now)) with ⟨r, hfold, hr, hsrc, hall⟩ | ⟨hfold, hother⟩
  · rw [hsources, hfold]
    dsimp only
    rw [List.nil_append] at hsrc
    have hne : r.src ≠ [] := by
      rw [hsrc]
      exact fun hnil => hkeys (List.map_eq_nil_iff.mp (List.map_eq_nil_iff.mp hnil))
    have hone : op = .not → r.src.length = 1 := fun hop' => by
      rw [hsrc, List.length_map, List.length_map]
      exact hnot hop'
    have htexts : (keys.map (found s d now)).map sourceText = r.src.map (·.getD []) := by
      rw [hsrc, List.map_map, List.map_map, List.map_map]
      rfl
    have hlongest : longest ((keys.map (found s d now)).map sourceText) = r.maxlen := by
      rw [htexts]
      refine longest_eq (fun t ht => ?_) ?_
      · obtain ⟨o, ho, rfl⟩ := List.mem_map.mp ht
        exact hr.maxlen o ho
      · exact hr.reached.imp id fun ⟨o, ho, hlen⟩ => ⟨o.getD [], List.mem_map_of_mem ho, hlen⟩
    by_cases hmax : r.maxlen = 0
    · rw [if_neg fun hne => hne hmax]
      refine (dbDelete_spec hindexed hd' targetkey).bind fun del hdel => ?_
      have hgone : (del.1.db d).dict targetkey = none := by
        rw [hdel.2.2.1, setDb_self]
        exact Function.update_self _ _ _
      refine ⟨fun hmem => absurd hmem hall, fun _ => ?_⟩
      rw [hlongest, if_pos hmax]
      refine ⟨rfl, ?_⟩
      dsimp only
      split
      · exact hgone
      · exact hgone
    · rw [if_pos hmax, bitopResult_eq hr hne hone]
      dsimp only
      refine (setKey_spec hindexed hd' targetkey _ now).bind fun s' hs' => ?_
      refine ⟨fun hmem => absurd hmem hall, fun _ => ?_⟩
      rw [hlongest, if_neg hmax]
      refine ⟨rfl, ?_⟩
      rw [hs', setDb_self]
      refine (Function.update_self _ _ _).trans ?_
      congr 2
      refine List.map_congr_left fun i _ => ?_
      rw [outputByte_combine hne hone, htexts, List.map_map]
      rfl
  · rw [hsources, hfold]
    exact ⟨fun _ => ⟨rfl, hfound targetkey⟩, fun hmem => absurd hother hmem⟩

end

/-! ### Results -/

/-- In every reachable state BITOP combines its sources, whether or not it takes the fast path. -/
theorem bitop_combines {C : Type} [DecidableEq C] (dbs : ℕ) (clusterEnabled : Bool)
    (clients : List C) (levels : ℕ → Fin 32) {es : List (KeyspaceEvent C Robj)}
    {s : RedisServer C Robj} (hrun : Runs.run (fun s e => (keyspaceStep s e).toOption)
      (initServer dbs clusterEnabled clients levels) es = some s) (c : C) {opname : Bytes}
    {op : BitOp} (hop : parseOp opname = some op) (targetkey : Bytes) {keys : List Bytes}
    (hkeys : keys ≠ []) (hnot : op = .not → keys.length = 1) (now : ℤ) :
    ∃ s' reply, bitopCommand s (s.client c).db opname targetkey keys now = .ok (s', reply) ∧
      Combined s (s.client c).db op targetkey keys now s' reply := by
  obtain ⟨s₁, hrun₁, hsound⟩ :=
    run_sound (sound_initServer dbs clusterEnabled clients levels : Sound _) es
  obtain rfl := Option.some_inj.mp (hrun₁.symm.trans hrun)
  have hspec := bitopCommand_spec hsound.indexed (fun hc => hsound.zero hc c) hop targetkey hkeys
    hnot now
  cases hres : bitopCommand s₁ (s₁.client c).db opname targetkey keys now with
  | error e => exact (hspec.of_eq_error hres).elim
  | ok res => exact ⟨res.1, res.2, rfl, hspec.of_eq_ok hres⟩

/-- `BITOP or b a c` after `SET a`. -/
theorem bitop_combines_or : ∃ (s s' : RedisServer Unit Robj) (reply : StringReply),
    Runs.run (fun s e => (keyspaceStep s e).toOption) (initServer 15 false [()] fun _ => 0)
      [.call () 5 (.set [97] (.raw [1, 2]) false false none)] = some s ∧
    bitopCommand s (s.client ()).db [111, 114] [98] [[97], [99]] 6 = .ok (s', reply) ∧
    Combined s (s.client ()).db .or [98] [[97], [99]] 6 s' reply := by
  obtain ⟨s, hrun, -⟩ := run_sound (sound_initServer 15 false [()] fun _ => 0 :
    Sound (initServer 15 false [()] (fun _ => 0) : RedisServer Unit Robj))
    [.call () 5 (.set [97] (.raw [1, 2]) false false none)]
  obtain ⟨s', reply, hcommand, hcombined⟩ := bitop_combines 15 false [()] (fun _ => 0) hrun ()
    (show parseOp [111, 114] = some .or by decide) [98]
    (show ([[97], [99]] : List Bytes) ≠ [] by decide) (by decide) 6
  exact ⟨s, s', reply, hrun, hcommand, hcombined⟩

end Bitops
