/-
Inline requests: lines of text, read from a socket in any pieces.

* `processInlineBuffer`, `processInputBuffer`, `readQuery` — the functions; a request that is
  executed is appended to `executed`, and no request blocks or closes the client;
* `Line`, `requests` — lines and the requests they stand for;
* `processInlineBuffer_partial`, `processInlineBuffer_line` — a line that is not there yet, and
  one that is;
* `inputLoop_spec` — all lines in the buffer;
* `run_reads_requests` — all reads.
-/
import RedisModel.SplitArgs

namespace InlineClient

open RedisCommands (cString)
open Sds

/-! ### Strings -/

/-- `strchr`: the offset of the first occurrence. -/
def strchr (s : Bytes) (ch : UInt8) : Option ℕ := (cString s).idxOf? ch

def sdsrange (s : Bytes) (start last : ℤ) : Bytes :=
  let len : ℤ := s.length
  if len = 0 then s
  else
    let start := if start < 0 then max (len + start) 0 else start
    let last := if last < 0 then max (len + last) 0 else last
    let newlen := if start > last then 0
      else if start ≥ len then 0
      else if last ≥ len then len - 1 - start + 1
      else last - start + 1
    (s.drop start.toNat).take newlen.toNat

theorem sdsrange_drop (s : Bytes) (n : ℕ) : sdsrange s n (-1) = s.drop n := by
  cases s with
  | nil => simp [sdsrange]
  | cons c s =>
    have hlen : ((c :: s).length : ℤ) = s.length + 1 := by simp
    simp only [sdsrange, hlen]
    have hlast : (if (-1 : ℤ) < 0 then max ((s.length : ℤ) + 1 + -1) 0 else -1) = s.length := by
      rw [if_pos (by decide)]
      omega
    have hstart : (if (n : ℤ) < 0 then max ((s.length : ℤ) + 1 + n) 0 else n) = n :=
      if_neg (by omega)
    rw [if_neg (by omega), hlast, hstart]
    by_cases h : n ≤ s.length
    · rw [if_neg (by omega), if_neg (by omega), if_neg (by omega)]
      refine List.take_of_length_le ?_
      rw [Int.toNat_natCast, List.length_drop, List.length_cons]
      omega
    · rw [if_pos (by omega), Int.toNat_zero, List.take_zero]
      exact (List.drop_eq_nil_of_le (by rw [List.length_cons]; omega)).symm

/-! ### The client -/

inductive ReqType where
  | inline
  | multibulk
  deriving DecidableEq

/-- The fields of `redisClient` that are read or written here; `executed` are the requests
given to `processCommand`. -/
structure Client where
  querybuf : Bytes
  /-- `reqtype`, `none` for 0. -/
  reqtype : Option ReqType
  argv : List Bytes
  /-- The flag `REDIS_CLOSE_AFTER_REPLY`. -/
  closeAfterReply : Bool
  /-- The error replies. -/
  errors : List String
  executed : List (List Bytes)
  deriving DecidableEq

/-- A new client. -/
def createClient : Client where
  querybuf := []
  reqtype := none
  argv := []
  closeAfterReply := false
  errors := []
  executed := []

/-- `REDIS_INLINE_MAX_SIZE`. -/
def inlineMaxSize : ℕ := 1024 * 64

def setProtocolError (c : Client) (pos : ℤ) : Client :=
  { c with closeAfterReply := true, querybuf := sdsrange c.querybuf pos (-1) }

def addReplyError (c : Client) (err : String) : Client := { c with errors := c.errors ++ [err] }

/-- `processInlineBuffer`; `false` is `REDIS_ERR`. -/
def processInlineBuffer (c : Client) : Option (Client × Bool) :=
  match strchr c.querybuf 10 with
  | none =>
    if c.querybuf.length > inlineMaxSize then
      some (setProtocolError (addReplyError c "Protocol error: too big inline request") 0, false)
    else some (c, false)
  | some newline => do
    -- the `\r\n` case
    let querylen :=
      if newline ≠ 0 ∧ c.querybuf[newline - 1]? = some 13 then newline - 1 else newline
    let r ← sdssplitargs (c.querybuf.take querylen ++ [0])
    match r.vector with
    | none =>
      some (setProtocolError
        (addReplyError c "Protocol error: unbalanced quotes in request") 0, false)
    | some argv =>
      some ({ c with
        querybuf := sdsrange c.querybuf ((querylen : ℤ) + 2) (-1)
        argv := argv.filter (· ≠ []) }, true)

def resetClient (c : Client) : Client := { c with argv := [], reqtype := none }

def processCommand (c : Client) : Client := { c with executed := c.executed ++ [c.argv] }

section
variable (processMultibulkBuffer : Client → Option (Client × Bool))

/-- The loop of `processInputBuffer`. -/
def inputLoop : ℕ → Client → Option Client
  | 0, _ => none
  | fuel + 1, c =>
    if c.querybuf = [] then some c
    else if c.closeAfterReply then some c
    else do
      let reqtype := c.reqtype.getD (if c.querybuf.head? = some 42 then .multibulk else .inline)
      let c := { c with reqtype := some reqtype }
      let (c, ok) ← match reqtype with
        | .inline => processInlineBuffer c
        | .multibulk => processMultibulkBuffer c
      if !ok then some c
      else if c.argv = [] then inputLoop fuel (resetClient c)
      else inputLoop fuel (resetClient (processCommand c))

/-- `processInputBuffer`; every round takes at least a byte from the buffer. -/
def processInputBuffer (c : Client) : Option Client :=
  inputLoop processMultibulkBuffer (c.querybuf.length + 1) c

/-- `readQueryFromClient`, when `read` returns the bytes `bs`. -/
def readQuery (c : Client) (bs : Bytes) : Option Client :=
  processInputBuffer processMultibulkBuffer { c with querybuf := c.querybuf ++ bs }

/-- Several reads. -/
def readAll (c : Client) (reads : List Bytes) : Option Client :=
  reads.foldlM (readQuery processMultibulkBuffer) c

end

/-! ### Lines -/

/-- A line, ended by `\r\n` or by `\n`. -/
structure Line where
  text : Bytes
  crlf : Bool
  deriving DecidableEq

namespace Line

/-- The bytes of a line. -/
def bytes (l : Line) : Bytes := l.text ++ if l.crlf then [13, 10] else [10]

/-- A line that is not a multibulk request, in as many bytes as are allowed.  A line that ends
with `\n` does not end with `\r\n`. -/
structure Ok (l : Line) : Prop where
  no_null : 0 ∉ l.text
  no_newline : 10 ∉ l.text
  lf : l.crlf = false → l.text.getLast? ≠ some 13
  inline : l.text.head? ≠ some 42
  short : l.text.length < inlineMaxSize

end Line

/-- The bytes of several lines. -/
def encode (lines : List Line) : Bytes := lines.flatMap Line.bytes

/-- The tokens of a line; `none` for unbalanced quotes. -/
def tokens (l : Line) : Option (List Bytes) :=
  (sdssplitargs (l.text ++ [0])).bind SplitResult.vector

/-- The requests of the lines: the tokens that are not empty, where there are some, up to the
first line with unbalanced quotes. -/
def requests : List Line → List (List Bytes)
  | [] => []
  | l :: ls =>
    match tokens l with
    | none => []
    | some argv =>
      if argv.filter (· ≠ []) = [] then requests ls else argv.filter (· ≠ []) :: requests ls

theorem requests_append_of_accepted {d : List Line} (h : ∀ l ∈ d, tokens l ≠ none)
    (r : List Line) : requests (d ++ r) = requests d ++ requests r := by
  induction d with
  | nil => rfl
  | cons l d ih =>
    obtain ⟨hl, hd⟩ := List.forall_mem_cons.mp h
    obtain ⟨argv, hargv⟩ := Option.ne_none_iff_exists'.mp hl
    rw [List.cons_append, requests, requests, hargv]
    dsimp only
    split_ifs
    · exact ih hd
    · rw [ih hd, List.cons_append]

theorem requests_append_of_rejected {d : List Line} (h : ∃ l ∈ d, tokens l = none)
    (r : List Line) : requests (d ++ r) = requests d := by
  induction d with
  | nil =>
    obtain ⟨l, hl, -⟩ := h
    exact absurd hl List.not_mem_nil
  | cons l d ih =>
    rw [List.cons_append, requests, requests]
    cases hl : tokens l with
    | none => rfl
    | some argv =>
      have hd : ∃ l ∈ d, tokens l = none := by
        obtain ⟨m, hm, hnone⟩ := h
        rcases List.mem_cons.mp hm with rfl | hm
        · rw [hl] at hnone
          exact absurd hnone (by simp)
        · exact ⟨m, hm, hnone⟩
      dsimp only
      rw [ih hd]

@[simp] theorem encode_nil : encode [] = [] := rfl

@[simp] theorem encode_cons (l : Line) (ls : List Line) : encode (l :: ls) = l.bytes ++ encode ls :=
  rfl

@[simp] theorem encode_append (a b : List Line) : encode (a ++ b) = encode a ++ encode b :=
  List.flatMap_append

theorem Line.Ok.bytes_eq {l : Line} (h : l.Ok) : ∃ a, l.bytes = a ++ [10] ∧ 10 ∉ a ∧ 0 ∉ a ∧
    a = (if l.crlf then l.text ++ [13] else l.text) := by
  cases hcrlf : l.crlf with
  | true =>
    refine ⟨l.text ++ [13], ?_, ?_, ?_, rfl⟩
    · rw [Line.bytes, hcrlf, List.append_assoc]
      rfl
    · simpa using h.no_newline
    · simpa using h.no_null
  | false =>
    refine ⟨l.text, ?_, h.no_newline, h.no_null, rfl⟩
    rw [Line.bytes, hcrlf]
    rfl

theorem Line.bytes_ne_nil (l : Line) : l.bytes ≠ [] := by
  rw [Line.bytes]
  cases l.crlf <;> simp

theorem Line.Ok.head_ne {l : Line} (h : l.Ok) (rest : Bytes) :
    (l.bytes ++ rest).head? ≠ some 42 := by
  have hinline := h.inline
  rw [Line.bytes]
  cases htext : l.text with
  | nil => cases l.crlf <;> simp
  | cons c t =>
    rw [htext] at hinline
    exact hinline

theorem exists_pending {rest : List Line} (hok : ∀ l ∈ rest, l.Ok) {buf : Bytes}
    (h : buf <+: encode rest) :
    ∃ d r pending, rest = d ++ r ∧ buf = encode d ++ pending ∧ 10 ∉ pending ∧
      pending.length ≤ inlineMaxSize ∧ pending.head? ≠ some 42 := by
  induction rest generalizing buf with
  | nil =>
    rw [encode_nil, List.prefix_nil] at h
    exact ⟨[], [], [], rfl, h, List.not_mem_nil, Nat.zero_le _, by simp⟩
  | cons l rest ih =>
    obtain ⟨hl, hrest⟩ := List.forall_mem_cons.mp hok
    rw [encode_cons] at h
    -- either the first line is there or only a piece of it
    obtain ⟨buf', rfl⟩ | ⟨hshort, hnew⟩ : l.bytes <+: buf ∨
        (∃ t, l.bytes = buf ++ t ∧ buf.length ≤ inlineMaxSize) ∧ 10 ∉ buf := by
      obtain ⟨a, hbytes, hnew, -, ha⟩ := hl.bytes_eq
      rcases List.prefix_or_prefix_of_prefix h (List.prefix_append l.bytes _) with hbuf | hbuf
      · rw [hbytes, List.prefix_concat_iff] at hbuf
        rcases hbuf with rfl | ⟨t, rfl⟩
        · exact .inl (hbytes ▸ List.prefix_refl _)
        · refine .inr ⟨⟨t ++ [10], by rw [hbytes, List.append_assoc], ?_⟩, fun h => hnew ?_⟩
          · have hlen := congrArg List.length ha
            have hmax := hl.short
            rw [List.length_append] at hlen
            split_ifs at hlen
            · rw [List.length_append, List.length_singleton] at hlen
              omega
            · omega
          · exact List.mem_append_left t h
      · exact .inl hbuf
    · obtain ⟨d, r, pending, rfl, rfl, hp⟩ := ih hrest ((List.prefix_append_right_inj _).mp h)
      exact ⟨l :: d, r, pending, rfl, by rw [encode_cons, List.append_assoc], hp⟩
    · obtain ⟨t, ht, hlen⟩ := hshort
      refine ⟨[], l :: rest, buf, rfl, rfl, hnew, hlen, ?_⟩
      have hhead := hl.head_ne []
      rw [List.append_nil, ht] at hhead
      cases buf with
      | nil => simp
      | cons c buf => exact hhead

/-! ### The buffer -/

theorem idxOf?_eq_none {s : Bytes} {ch : UInt8} (h : ch ∉ s) : s.idxOf? ch = none := by
  induction s with
  | nil => rfl
  | cons c s ih =>
    have hne : c ≠ ch := fun heq => h (heq ▸ List.mem_cons_self)
    rw [List.idxOf?_cons, ih (List.not_mem_of_not_mem_cons h)]
    simp [hne]

theorem idxOf?_append {a t : Bytes} {ch : UInt8} (h : ch ∉ a) :
    (a ++ ch :: t).idxOf? ch = some a.length := by
  induction a with
  | nil => simp [List.idxOf?_cons]
  | cons c a ih =>
    have hne : c ≠ ch := fun heq => h (heq ▸ List.mem_cons_self)
    rw [List.cons_append, List.idxOf?_cons, ih (List.not_mem_of_not_mem_cons h)]
    simp [hne]

theorem strchr_eq_none {s : Bytes} (h : 10 ∉ s) : strchr s 10 = none :=
  idxOf?_eq_none fun hmem => h (List.takeWhile_subset _ hmem)

theorem strchr_append {a t : Bytes} (h : 10 ∉ a) (h0 : 0 ∉ a) :
    strchr (a ++ 10 :: t) 10 = some a.length := by
  have hall : ∀ c ∈ a, decide (c ≠ 0) = true := fun c hc =>
    decide_eq_true fun heq => h0 (heq ▸ hc)
  rw [strchr, cString, List.takeWhile_append_of_pos hall]
  exact idxOf?_append h

theorem processInlineBuffer_partial {c : Client} (hnew : 10 ∉ c.querybuf)
    (hlen : c.querybuf.length ≤ inlineMaxSize) : processInlineBuffer c = some (c, false) := by
  rw [processInlineBuffer, strchr_eq_none hnew]
  exact if_neg (Nat.not_lt.mpr hlen)

/-- A line is taken from the buffer, with its end.  Behind a line that ends with `\n` there
must be nothing. -/
theorem processInlineBuffer_line {l : Line} (hl : l.Ok) {c : Client} {rest : Bytes}
    (hbuf : c.querybuf = l.bytes ++ rest) (hlf : l.crlf = false → rest = []) :
    match tokens l with
    | none => ∃ c', processInlineBuffer c = some (c', false) ∧ c'.closeAfterReply = true ∧
        c'.executed = c.executed
    | some argv => processInlineBuffer c
        = some ({ c with querybuf := rest, argv := argv.filter (· ≠ []) }, true) := by
  obtain ⟨a, hbytes, hnew, hnull, ha⟩ := hl.bytes_eq
  have hcut : c.querybuf = a ++ 10 :: rest := by
    rw [hbuf, hbytes, List.append_assoc]
    rfl
  have hchr : strchr c.querybuf 10 = some a.length := by
    rw [hcut]
    exact strchr_append hnew hnull
  -- the text of the line is what comes before its end
  have hlen : (if a.length ≠ 0 ∧ c.querybuf[a.length - 1]? = some 13 then a.length - 1
      else a.length) = l.text.length := by
    cases hcrlf : l.crlf with
    | true =>
      rw [hcrlf, if_pos rfl] at ha
      have hlast : c.querybuf[a.length - 1]? = some 13 := by
        rw [hcut, ha]
        simp
      rw [if_pos ⟨by rw [ha]; simp, hlast⟩, ha, List.length_append, List.length_singleton,
        Nat.add_sub_cancel]
    | false =>
      rw [hcrlf, if_neg Bool.false_ne_true] at ha
      have hlast : ¬(a.length ≠ 0 ∧ c.querybuf[a.length - 1]? = some 13) := by
        rintro ⟨hne, hlast⟩
        rw [hcut, List.getElem?_append_left (by omega), ← List.getLast?_eq_getElem?, ha] at hlast
        exact hl.lf hcrlf hlast
      rw [if_neg hlast, ha]
  have htake : c.querybuf.take l.text.length = l.text := by
    rw [hbuf, Line.bytes, List.append_assoc, List.take_left]
  have hdrop : sdsrange c.querybuf ((l.text.length : ℤ) + 2) (-1) = rest := by
    have hcast : (l.text.length : ℤ) + 2 = ((l.text.length + 2 : ℕ) : ℤ) := by simp
    rw [hcast, sdsrange_drop, hbuf, Line.bytes]
    cases hcrlf : l.crlf with
    | true =>
      rw [if_pos rfl]
      exact List.drop_left' (by simp)
    | false =>
      rw [hlf hcrlf]
      exact List.drop_eq_nil_of_le (by simp)
  obtain ⟨r, hr, -⟩ := sdssplitargs_total hl.no_null
  have htokens : tokens l = r.vector := by
    rw [tokens, hr]
    rfl
  rw [htokens, processInlineBuffer, hchr]
  dsimp only
  rw [hlen, htake, hr]
  cases hvector : r.vector with
  | none =>
    refine ⟨setProtocolError
      (addReplyError c "Protocol error: unbalanced quotes in request") 0, ?_, rfl, rfl⟩
    simp only [Option.bind_eq_bind, Option.bind_some, hvector]
  | some argv => simp only [Option.bind_eq_bind, Option.bind_some, hvector, hdrop]

section
variable (processMultibulkBuffer : Client → Option (Client × Bool))

/-- The client waits for the piece `pending` to become a line, and has executed the requests of
the lines `d`; or it was closed at one of these. -/
def Reading (c : Client) (d : List Line) (pending : Bytes) : Prop :=
  c.executed = requests d ∧
    ((c.closeAfterReply = false ∧ c.querybuf = pending ∧ c.reqtype ≠ some .multibulk ∧
        ∀ l ∈ d, tokens l ≠ none) ∨
      (c.closeAfterReply = true ∧ ∃ l ∈ d, tokens l = none))

theorem inputLoop_inline {c : Client} (hopen : c.closeAfterReply = false)
    (htype : c.reqtype ≠ some .multibulk) (hne : c.querybuf ≠ [])
    (hhead : c.querybuf.head? ≠ some 42) (fuel : ℕ) : inputLoop processMultibulkBuffer (fuel + 1) c
      = (processInlineBuffer { c with reqtype := some .inline }).bind fun p =>
          if !p.2 then some p.1
          else if p.1.argv = [] then inputLoop processMultibulkBuffer fuel (resetClient p.1)
          else inputLoop processMultibulkBuffer fuel (resetClient (processCommand p.1)) := by
  have hreq : c.reqtype.getD (if c.querybuf.head? = some 42 then .multibulk else .inline)
      = ReqType.inline := by
    rw [if_neg hhead]
    cases hc : c.reqtype with
    | none => rfl
    | some t =>
      cases t with
      | inline => rfl
      | multibulk => exact absurd hc htype
  rw [inputLoop, if_neg hne, if_neg (by rw [hopen]; exact Bool.false_ne_true)]
  simp only [hreq]
  rfl

theorem inputLoop_spec {d : List Line} (hok : ∀ l ∈ d, l.Ok) {pending : Bytes}
    (hnew : 10 ∉ pending) (hlen : pending.length ≤ inlineMaxSize) (hhead : pending.head? ≠ some 42)
    (hlf : ∀ a l r, d = a ++ l :: r → l.crlf = false → r = [] ∧ pending = []) {before : List Line}
    {c : Client} (hc : Reading c before (encode d ++ pending)) {fuel : ℕ}
    (hfuel : (encode d ++ pending).length < fuel) :
    ∃ c', inputLoop processMultibulkBuffer fuel c = some c' ∧ Reading c' (before ++ d) pending := by
  obtain ⟨hexec, ⟨hopen, hbuf, htype, hbefore⟩ | ⟨hclosed, hrejected⟩⟩ := hc
  · induction d generalizing c before fuel with
    | nil =>
      obtain ⟨fuel, rfl⟩ := Nat.exists_eq_add_of_lt hfuel
      rw [encode_nil, List.nil_append] at hbuf
      rw [List.append_nil]
      by_cases hne : c.querybuf = []
      · exact ⟨c, if_pos hne, hexec, .inl ⟨hopen, hbuf, htype, hbefore⟩⟩
      · rw [← hbuf] at hnew hlen hhead
        have hpiece :=
          processInlineBuffer_partial (c := { c with reqtype := some .inline }) hnew hlen
        rw [inputLoop_inline _ hopen htype hne hhead, hpiece]
        exact ⟨_, rfl, hexec, .inl ⟨hopen, hbuf, by simp, hbefore⟩⟩
    | cons l d ih =>
      obtain ⟨fuel, rfl⟩ := Nat.exists_eq_add_of_lt hfuel
      obtain ⟨hl, hd⟩ := List.forall_mem_cons.mp hok
      rw [encode_cons, List.append_assoc] at hbuf
      have hne : c.querybuf ≠ [] := by
        rw [hbuf]
        exact List.append_ne_nil_of_left_ne_nil l.bytes_ne_nil _
      have hfirst : c.querybuf.head? ≠ some 42 := by
        rw [hbuf]
        exact hl.head_ne _
      have hrest : l.crlf = false → encode d ++ pending = [] := by
        intro hcrlf
        obtain ⟨hd, hp⟩ := hlf [] l d rfl hcrlf
        rw [hd, hp]
        rfl
      have hline := processInlineBuffer_line hl (c := { c with reqtype := some .inline }) hbuf hrest
      rw [inputLoop_inline _ hopen htype hne hfirst]
      cases htokens : tokens l with
      | none =>
        rw [htokens] at hline
        obtain ⟨c', hproc, hclosed, hsame⟩ := hline
        rw [hproc]
        refine ⟨c', rfl, ?_, .inr ⟨hclosed, l, by simp, htokens⟩⟩
        rw [hsame, requests_append_of_accepted hbefore, requests, htokens]
        exact hexec.trans (List.append_nil _).symm
      | some argv =>
        rw [htokens] at hline
        have haccepted : ∀ m ∈ before ++ [l], tokens m ≠ none := by
          intro m hm
          rcases List.mem_append.mp hm with hm | hm
          · exact hbefore m hm
          · rw [List.mem_singleton.mp hm, htokens]
            exact Option.some_ne_none argv
        have hone : requests (before ++ [l]) = c.executed ++
            if argv.filter (· ≠ []) = [] then [] else [argv.filter (· ≠ [])] := by
          rw [requests_append_of_accepted hbefore, hexec, requests, htokens]
          rfl
        have hlen' : (encode d ++ pending).length < (encode (l :: d) ++ pending).length + fuel := by
          have hpos := List.length_pos_iff.mpr l.bytes_ne_nil
          rw [encode_cons, List.length_append, List.length_append, List.length_append]
          omega
        have hlf' : ∀ a m r, d = a ++ m :: r → m.crlf = false → r = [] ∧ pending = [] :=
          fun a m r heq => hlf (l :: a) m r (by rw [heq]; rfl)
        rw [hline, Option.bind_some, List.append_cons before l d]
        simp only [Bool.not_true, Bool.false_eq_true, if_false]
        split_ifs with hargv
        · rw [if_pos hargv, List.append_nil] at hone
          exact ih hd hlf' hlen' hone.symm hopen rfl (by simp [resetClient]) haccepted
        · rw [if_neg hargv] at hone
          exact ih hd hlf' hlen' hone.symm hopen rfl (by simp [resetClient]) haccepted
  · obtain ⟨fuel, rfl⟩ := Nat.exists_eq_add_of_lt hfuel
    have hstop : inputLoop processMultibulkBuffer ((encode d ++ pending).length + fuel + 1) c
        = some c := by
      rw [inputLoop]
      split_ifs
      all_goals rfl
    refine ⟨c, hstop, ?_, .inr ⟨hclosed, ?_⟩⟩
    · rw [requests_append_of_rejected hrejected]
      exact hexec
    · obtain ⟨l, hl, hnone⟩ := hrejected
      exact ⟨l, List.mem_append_left d hl, hnone⟩

theorem readQuery_spec {d : List Line} (hok : ∀ l ∈ d, l.Ok) {pending : Bytes}
    (hnew : 10 ∉ pending) (hlen : pending.length ≤ inlineMaxSize) (hhead : pending.head? ≠ some 42)
    (hlf : ∀ a l r, d = a ++ l :: r → l.crlf = false → r = [] ∧ pending = []) {before : List Line}
    {c : Client} {piece bs : Bytes} (hc : Reading c before piece)
    (hbuf : piece ++ bs = encode d ++ pending) :
    ∃ c', readQuery processMultibulkBuffer c bs = some c' ∧ Reading c' (before ++ d) pending := by
  set c₁ : Client := { c with querybuf := c.querybuf ++ bs } with hc₁
  have hreading : Reading c₁ before (encode d ++ pending) := by
    refine ⟨hc.1, hc.2.imp ?_ id⟩
    rintro ⟨hopen, hpiece, htype, hbefore⟩
    refine ⟨hopen, ?_, htype, hbefore⟩
    rw [hc₁, ← hbuf, ← hpiece]
  obtain ⟨hexec, ⟨hopen, hquery, htype, hbefore⟩ | ⟨hclosed, hrejected⟩⟩ := hreading
  · rw [readQuery, processInputBuffer]
    refine inputLoop_spec _ hok hnew hlen hhead hlf ⟨hexec, .inl ⟨hopen, hquery, htype, hbefore⟩⟩ ?_
    rw [hquery]
    exact Nat.lt_succ_self _
  · -- nothing is read from a client that was closed
    have hstop : readQuery processMultibulkBuffer c bs = some c₁ := by
      rw [readQuery, processInputBuffer, ← hc₁, inputLoop]
      split_ifs
      all_goals rfl
    obtain ⟨l, hl, hnone⟩ := hrejected
    refine ⟨c₁, hstop, ?_, .inr ⟨hclosed, l, List.mem_append_left d hl, hnone⟩⟩
    rw [requests_append_of_rejected ⟨l, hl, hnone⟩]
    exact hexec

/-! ### All reads -/

/-- Every line that ends with `\n` is the last one of the read it comes with. -/
def LfEndsRead (lines : List Line) (reads : List Bytes) : Prop :=
  ∀ a l r, lines = a ++ l :: r → l.crlf = false → ∃ p, p <+: reads ∧ p.flatten = encode (a ++ [l])

theorem flatten_prefix {p q : List Bytes} (h : p <+: q) : p.flatten <+: q.flatten := by
  obtain ⟨t, rfl⟩ := h
  rw [List.flatten_append]
  exact List.prefix_append _ _

theorem encode_eq_nil {ls : List Line} (h : encode ls = []) : ls = [] := by
  cases ls with
  | nil => rfl
  | cons l ls =>
    rw [encode_cons, List.append_eq_nil_iff] at h
    exact absurd h.1 l.bytes_ne_nil

theorem mem_encode_concat (a : List Line) (l : Line) : 10 ∈ encode (a ++ [l]) := by
  rw [encode_append, encode_cons, Line.bytes]
  cases l.crlf <;> simp

theorem reads_reading {lines : List Line} (hok : ∀ l ∈ lines, l.Ok) {reads : List Bytes}
    (hstream : reads.flatten = encode lines) (hlf : LfEndsRead lines reads) {p : List Bytes}
    (hp : p <+: reads) : ∃ c d r pending, readAll processMultibulkBuffer createClient p = some c ∧
      lines = d ++ r ∧ p.flatten = encode d ++ pending ∧ 10 ∉ pending ∧ Reading c d pending := by
  induction p using List.reverseRecOn with
  | nil =>
    refine ⟨createClient, [], lines, [], rfl, rfl, rfl, List.not_mem_nil, rfl, .inl ?_⟩
    exact ⟨rfl, rfl, by simp [createClient], fun l hl => absurd hl List.not_mem_nil⟩
  | append_singleton p bs ih =>
    obtain ⟨c, d, r, piece, hrun, rfl, hflat, hnew, hc⟩ :=
      ih ((List.prefix_append p [bs]).trans hp)
    have hboth : (p ++ [bs]).flatten = encode d ++ (piece ++ bs) := by
      rw [List.flatten_append, hflat, List.append_assoc, List.flatten_cons, List.flatten_nil,
        List.append_nil]
    have hbuf : piece ++ bs <+: encode r := by
      have h := flatten_prefix hp
      rw [hstream, hboth, encode_append] at h
      exact (List.prefix_append_right_inj _).mp h
    obtain ⟨d', r', pending, rfl, hcut, hnew', hlen, hhead⟩ :=
      exists_pending (fun l hl => hok l (List.mem_append_right d hl)) hbuf
    have hlast : ∀ a l t, d' = a ++ l :: t → l.crlf = false → t = [] ∧ pending = [] := by
      rintro a l t rfl hcrlf
      obtain ⟨q, hq, hqflat⟩ := hlf (d ++ a) l (t ++ r') (by simp) hcrlf
      rw [List.append_assoc, encode_append] at hqflat
      rcases List.prefix_or_prefix_of_prefix hp hq with hle | hle
      · -- the line ends where this read does
        have h := flatten_prefix hle
        rw [hboth, hqflat, List.prefix_append_right_inj, hcut, encode_append, encode_append,
          encode_cons, encode_cons, encode_nil, List.append_nil, List.append_assoc,
          List.append_assoc, List.prefix_append_right_inj, ← List.append_nil l.bytes,
          List.append_assoc, List.prefix_append_right_inj, List.nil_append, List.prefix_nil] at h
        obtain ⟨ht, hpending⟩ := List.append_eq_nil_iff.mp h
        exact ⟨encode_eq_nil ht, hpending⟩
      · -- it ended before, and was not in the buffer any more
        rcases List.prefix_concat_iff.mp hle with rfl | hle
        · rw [hboth, hcut, List.append_cancel_left_eq] at hqflat
          rw [encode_append, encode_append, encode_cons, encode_cons, encode_nil, List.append_nil,
            List.append_assoc, List.append_assoc, List.append_cancel_left_eq] at hqflat
          have h := List.append_right_eq_self.mp hqflat
          obtain ⟨ht, hpending⟩ := List.append_eq_nil_iff.mp h
          exact ⟨encode_eq_nil ht, hpending⟩
        · have h := flatten_prefix hle
          rw [hqflat, hflat, List.prefix_append_right_inj] at h
          exact absurd (h.subset (mem_encode_concat a l)) hnew
    obtain ⟨c', hread, hc'⟩ := readQuery_spec processMultibulkBuffer
      (fun l hl => hok l (List.mem_append_right d (List.mem_append_left r' hl))) hnew' hlen hhead
      hlast hc hcut
    refine ⟨c', d ++ d', r', pending, ?_, (List.append_assoc d d' r').symm, ?_, hnew', hc'⟩
    · rw [readAll, List.foldlM_append]
      have hfold : p.foldlM (readQuery processMultibulkBuffer) createClient = some c := hrun
      rw [hfold]
      exact (Option.bind_some _ _).trans ((List.foldlM_cons).trans (by rw [hread]; rfl))
    · rw [hboth, hcut, encode_append, List.append_assoc]

/-- For every sequence of lines and every split of their bytes into reads: after each read the
requests of the lines that are there have been executed and the piece of the next line is what
is in the buffer; after the last one all requests have been executed. -/
theorem run_reads_requests {lines : List Line} (hok : ∀ l ∈ lines, l.Ok) {reads : List Bytes}
    (hstream : reads.flatten = encode lines) (hlf : LfEndsRead lines reads) :
    (∀ p, p <+: reads → ∃ c d pending, readAll processMultibulkBuffer createClient p = some c ∧
      d <+: lines ∧ p.flatten = encode d ++ pending ∧ 10 ∉ pending ∧ c.executed = requests d ∧
      (c.closeAfterReply = false → c.querybuf = pending)) ∧
    ∃ c, readAll processMultibulkBuffer createClient reads = some c ∧
      c.executed = requests lines ∧ (c.closeAfterReply = false → c.querybuf = []) := by
  have hbuffer : ∀ {c : Client} {d : List Line} {pending : Bytes}, Reading c d pending →
      c.closeAfterReply = false → c.querybuf = pending := by
    rintro c d pending ⟨-, ⟨-, hbuf, -⟩ | ⟨hclosed, -⟩⟩ hopen
    · exact hbuf
    · rw [hclosed] at hopen
      exact absurd hopen.symm Bool.false_ne_true
  constructor
  · intro p hp
    obtain ⟨c, d, r, pending, hrun, rfl, hflat, hnew, hc⟩ := reads_reading _ hok hstream hlf hp
    exact ⟨c, d, pending, hrun, List.prefix_append d r, hflat, hnew, hc.1, hbuffer hc⟩
  · obtain ⟨c, d, r, pending, hrun, rfl, hflat, hnew, hc⟩ :=
      reads_reading _ hok hstream hlf (List.prefix_refl reads)
    rw [hstream, encode_append, List.append_cancel_left_eq] at hflat
    -- no line is left without its newline
    obtain rfl : r = [] := by
      rcases List.eq_nil_or_concat' r with rfl | ⟨a, l, rfl⟩
      · rfl
      · exact absurd (hflat ▸ mem_encode_concat a l) hnew
    rw [List.append_nil]
    exact ⟨c, hrun, hc.1, fun hopen => (hbuffer hc hopen).trans hflat.symm⟩

end

/-- `SET k ""`. -/
def setLine : Line := ⟨[83, 69, 84, 32, 107, 32, doubleQuote, doubleQuote], true⟩

/-- `PING`. -/
def pingLine (crlf : Bool) : Line := ⟨[80, 73, 78, 71], crlf⟩

/-- Two lines in two reads, the second one ended by `\n`. -/
theorem run_reads_requests_two : ∃ c, readAll (fun _ => none) createClient
    [setLine.bytes.take 3, setLine.bytes.drop 3 ++ (pingLine false).bytes] = some c ∧
      c.executed = requests [setLine, pingLine false] ∧
      (c.closeAfterReply = false → c.querybuf = []) := by
  have hok : ∀ l ∈ [setLine, pingLine false], l.Ok := by
    intro l hl
    rcases List.mem_cons.mp hl with rfl | hl
    · exact ⟨by decide, by decide, by decide, by decide, by decide⟩
    · obtain rfl := List.mem_singleton.mp hl
      exact ⟨by decide, by decide, by decide, by decide, by decide⟩
  have hstream : [setLine.bytes.take 3, setLine.bytes.drop 3 ++ (pingLine false).bytes].flatten
      = encode [setLine, pingLine false] := by decide
  refine (run_reads_requests (fun _ => none) hok hstream ?_).2
  intro a l r heq hcrlf
  refine ⟨_, List.prefix_refl _, hstream.trans ?_⟩
  rcases a with _ | ⟨b, _ | ⟨b', a⟩⟩
  · obtain ⟨rfl, -⟩ := List.cons.inj heq
    exact absurd hcrlf (by decide)
  · obtain ⟨rfl, htail⟩ := List.cons.inj heq
    obtain ⟨rfl, -⟩ := List.cons.inj htail
    rfl
  · have hlen := congrArg List.length heq
    simp at hlen

/-- An empty token is no argument, nothing is executed behind a line with unbalanced quotes, and
of a line behind one that ends with `\n` in the same read the first byte is lost. -/
theorem reads_requests_differ :
    (tokens setLine = some [[83, 69, 84], [107], []] ∧
      (readAll (fun _ => none) createClient [setLine.bytes]).map Client.executed
        = some [[[83, 69, 84], [107]]]) ∧
    (tokens (pingLine true) = some [[80, 73, 78, 71]] ∧
      (readAll (fun _ => none) createClient
          [doubleQuote :: 13 :: 10 :: (pingLine true).bytes]).map Client.executed
        = some []) ∧
    (tokens (pingLine false) = some [[80, 73, 78, 71]] ∧
      (readAll (fun _ => none) createClient
          [(pingLine false).bytes ++ (pingLine false).bytes]).map Client.executed
        = some [[[80, 73, 78, 71]], [[73, 78, 71]]]) := by
  decide

end InlineClient
