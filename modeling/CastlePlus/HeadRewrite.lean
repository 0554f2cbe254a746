import CastlePlus.HeadGrammar
import CastlePlus.ProxyInvariant

/-! # The rewritten head is read back as what the client sent

    The smuggling defence of `process_head`.  The header loop is first described as
    list operations on the parsed headers (`scanHeaders_scanned`), then the head it
    writes is read back with the same grammar (`Faithful`), and the framings it refuses
    are shown to end in an error reply.

    * **`headVerdict_forward`** — a forwarded head is `Faithful`, and short.
    * **`headVerdict_ambiguous`** — an ambiguous framing is answered, never forwarded.
    * **`process_head_faithful`** — both, for `process_head` itself. -/

namespace CastlePlus

open PhrResult ScriptProg

/-! ## What the header loop computes -/

/-- The headers that have a name, in order; continuation lines drop out. -/
def namedHeaders (hs : List PhrHeader) : List (Bytes × Bytes) :=
  hs.filterMap fun h => h.name.map fun name => (name, h.value)

/-- The named headers without the hop-by-hop ones. -/
def keptHeaders (hs : List PhrHeader) : List (Bytes × Bytes) :=
  (namedHeaders hs).filter fun h => !isHopByHop h.1

/-- The values of a field, its name compared case-insensitively. -/
def valuesOf (field : Bytes) (hs : List PhrHeader) : List Bytes :=
  ((namedHeaders hs).filter fun h => iequals h.1 field).map (·.2)

/-- One to eighteen ASCII digits. -/
def isLength (v : Bytes) : Bool := 1 ≤ v.length && v.length ≤ 18 && v.all isDigit

theorem iequals_iff {a b : Bytes} : iequals a b = true ↔ a.map toLower = b.map toLower := by
  rw [iequals]
  induction a generalizing b with
  | nil => cases b <;> simp
  | cons x xs ih =>
      cases b with
      | nil => simp
      | cons y ys =>
          have := ih (b := ys)
          simp only [Bool.and_eq_true, beq_iff_eq] at this
          simp only [List.length_cons, List.zipWith_cons_cons, List.all_cons, id_eq,
            Bool.and_eq_true, beq_iff_eq, List.map_cons, List.cons.injEq, Nat.add_right_cancel_iff]
          tauto

/-- The digit loop, started with a value of at most `k` digits: the eighteen digits the
    caller allows never overflow. -/
theorem parseContentLengthLoop_eq {n k : Nat} {v : Bytes} (hn : n < 10 ^ k)
    (hk : k + v.length ≤ 18) :
    parseContentLengthLoop n v =
      if v.all isDigit then .value (v.foldl (fun n c => n * 10 + (c.toNat - 0x30)) n)
      else .invalid := by
  induction v generalizing n k with
  | nil => rfl
  | cons c cs ih =>
      simp only [List.length_cons] at hk
      rw [parseContentLengthLoop]
      by_cases hc : isDigit c
      · have hrange := hc
        simp only [isDigit, Bool.and_eq_true, decide_eq_true_eq] at hrange
        have hhi : c.toNat ≤ 0x39 := hrange.2
        have hpow : 10 ^ (k + 1) ≤ 10 ^ 18 := Nat.pow_le_pow_right (by decide) (by omega)
        have hsucc : 10 ^ (k + 1) = 10 ^ k * 10 := Nat.pow_succ ..
        have hmax : 10 ^ 18 ≤ longMax := by decide
        have hnext : n * 10 + (c.toNat - 0x30) < 10 ^ (k + 1) := by omega
        rw [if_neg (by simp [hrange]), if_neg (by omega), ih hnext (by omega)]
        simp [hc]
      · have hrange : c < 0x30 ∨ 0x39 < c := by
          simpa [isDigit, ← UInt8.not_le, imp_iff_not_or] using hc
        rw [if_pos (by simpa using hrange)]
        simp [hc]

/-- `parse_content_length` on every text. -/
theorem parseContentLength_eq (v : Bytes) :
    parseContentLength v =
      if isLength v then .value (decimalValue v) else .invalid := by
  rw [parseContentLength, isLength, decimalValue]
  by_cases hlen : v.length = 0 ∨ 18 < v.length
  · rw [if_pos hlen, if_neg]
    simp
    omega
  · rw [if_neg hlen, parseContentLengthLoop_eq (k := 0) (by decide) (by omega)]
    have h1 : 1 ≤ v.length := by omega
    have h2 : v.length ≤ 18 := by omega
    simp [h1, h2]

/-- The lengths a scan may end with: none seen, or exactly one, well formed. -/
def LengthOf (lengths : List Bytes) (saw : Bool) (len : Nat) : Prop :=
  (lengths = [] ∧ saw = false ∧ len = 0) ∨
    ∃ v, lengths = [v] ∧ saw = true ∧ isLength v = true ∧ len = decimalValue v

/-- The `content-length` block, when the loop goes on. -/
theorem scanContentLength_scanned {name value : Bytes} {acc acc' : HeadScan} {lengths : List Bytes}
    (h : scanContentLength name value acc = .scanned acc')
    (hl : LengthOf lengths acc.sawContentLength acc.contentLength) :
    acc'.head = acc.head ∧ acc'.chunked = acc.chunked ∧
      LengthOf (lengths ++ if iequals name (ascii "content-length") then [value] else [])
        acc'.sawContentLength acc'.contentLength := by
  rw [scanContentLength] at h
  split at h
  · rename_i hname
    split at h
    · cases h
    · rename_i hsaw
      rw [parseContentLength_eq] at h
      rcases hl with ⟨rfl, -, -⟩ | ⟨v, -, hsaw', -⟩
      · cases hval : isLength value with
        | false => simp [hval] at h
        | true =>
            simp only [hval, if_true, ScanResult.scanned.injEq] at h
            subst h
            exact ⟨rfl, rfl, .inr ⟨value, by simp [hname], rfl, hval, rfl⟩⟩
      · exact absurd hsaw' hsaw
  · rename_i hname
    cases h
    exact ⟨rfl, rfl, by simpa [hname] using hl⟩

/-- When it does not, it is a 400. -/
theorem scanContentLength_cases (name value : Bytes) (acc : HeadScan) :
    (∀ r, scanContentLength name value acc = .reply r → r.code = 400) ∧
      scanContentLength name value acc ≠ .overflow := by
  rw [scanContentLength]
  rw [parseContentLength_eq]
  cases iequals name (ascii "content-length") <;> cases acc.sawContentLength <;>
    cases isLength value <;>
    simp only [if_true, if_false, Bool.false_eq_true] <;>
    refine ⟨fun r h => ?_, (by rintro ⟨⟩)⟩ <;> cases h <;> rfl

theorem namedHeaders_cons_some (name value : Bytes) (hs : List PhrHeader) :
    namedHeaders (⟨some name, value⟩ :: hs) = (name, value) :: namedHeaders hs := rfl

theorem namedHeaders_cons_none (value : Bytes) (hs : List PhrHeader) :
    namedHeaders (⟨none, value⟩ :: hs) = namedHeaders hs := rfl

theorem valuesOf_cons_some (field name value : Bytes) (hs : List PhrHeader) :
    valuesOf field (⟨some name, value⟩ :: hs)
      = (if iequals name field then [value] else []) ++ valuesOf field hs := by
  unfold valuesOf
  rw [namedHeaders_cons_some, List.filter_cons]
  split <;> simp

/-- The header loop, when it reaches its end. -/
theorem scanHeaders_scanned {hs : List PhrHeader} {acc acc' : HeadScan} {lengths : List Bytes}
    (h : scanHeaders hs acc = .scanned acc')
    (hl : LengthOf lengths acc.sawContentLength acc.contentLength) :
    acc'.head = acc.head ++ (keptHeaders hs).flatMap (fun h => headerLine h.1 h.2) ∧
      acc'.chunked = (acc.chunked || !(valuesOf (ascii "transfer-encoding") hs).isEmpty) ∧
      LengthOf (lengths ++ valuesOf (ascii "content-length") hs)
        acc'.sawContentLength acc'.contentLength := by
  induction hs generalizing acc lengths with
  | nil =>
      cases h
      exact ⟨by simp [keptHeaders, namedHeaders], by simp [valuesOf, namedHeaders],
        by simpa [valuesOf, namedHeaders] using hl⟩
  | cons hd hs ih =>
      obtain ⟨_ | name, value⟩ := hd
      · have h' : scanHeaders hs acc = .scanned acc' := h
        exact ih h' hl
      · simp only [scanHeaders] at h
        generalize hhost : (if iequals name (ascii "host") then { acc with host := value }
          else acc) = acc₁ at h
        have hacc₁ : acc₁.head = acc.head ∧ acc₁.chunked = acc.chunked ∧
            LengthOf lengths acc₁.sawContentLength acc₁.contentLength := by
          rw [← hhost]
          split <;> exact ⟨rfl, rfl, hl⟩
        cases hscan : scanContentLength name value acc₁ with
        | reply r => rw [hscan] at h; cases h
        | overflow => rw [hscan] at h; cases h
        | scanned acc₂ =>
            rw [hscan] at h
            dsimp only at h
            obtain ⟨hhead, hchunked, hlen⟩ := scanContentLength_scanned hscan hacc₁.2.2
            rw [hacc₁.1] at hhead
            rw [hacc₁.2.1] at hchunked
            rw [valuesOf_cons_some, valuesOf_cons_some, ← List.append_assoc]
            rw [keptHeaders] at ih ⊢
            rw [namedHeaders_cons_some, List.filter_cons]
            -- the last two statements of a turn: chunked, and the forwarded line
            cases hte : iequals name (ascii "transfer-encoding") <;>
              cases hhop : isHopByHop name <;>
              simp only [hte, hhop, if_true, Bool.false_eq_true, if_false] at h <;>
              obtain ⟨h1, h2, h3⟩ := ih h hlen <;>
              exact ⟨by simpa [hhead, hhop] using h1, by simpa [hchunked, hte] using h2, h3⟩

/-- Leaving the loop early is a 400. -/
theorem scanHeaders_reply {hs : List PhrHeader} {acc : HeadScan} {r : Reply}
    (h : scanHeaders hs acc = .reply r) : r.code = 400 := by
  induction hs generalizing acc with
  | nil => cases h
  | cons hd hs ih =>
      obtain ⟨_ | name, value⟩ := hd
      · have h' : scanHeaders hs acc = .reply r := h
        exact ih h'
      · simp only [scanHeaders] at h
        split at h
        · rename_i r' hscan
          cases h
          exact (scanContentLength_cases name value _).1 r hscan
        · cases h
        · split at h <;> exact ih h

/-- No header list overflows `long`. -/
theorem scanHeaders_ne_overflow (hs : List PhrHeader) (acc : HeadScan) :
    scanHeaders hs acc ≠ .overflow := by
  induction hs generalizing acc with
  | nil => rintro ⟨⟩
  | cons hd hs ih =>
      obtain ⟨_ | name, value⟩ := hd
      · exact ih acc
      · simp only [scanHeaders]
        split
        · rintro ⟨⟩
        · rename_i hscan
          exact ((scanContentLength_cases name value _).2 hscan).elim
        · split <;> exact ih _

/-! ## The forwarded head -/

/-- A header list as the parser returns it. -/
def asParsed (hs : List (Bytes × Bytes)) : List PhrHeader := hs.map fun h => ⟨some h.1, h.2⟩

/-- What a backend should read off the rewritten head: the client's method, target and
    end-to-end headers in order, as HTTP/1.1 with `Connection: close`. -/
def forwarded (req : PhrRequest) : PhrRequest where
  method := req.method
  path := req.path
  minorVersion := 1
  headers := asParsed (keptHeaders req.headers ++ [(ascii "Connection", ascii "close")])

/-- The rewritten `head` with body length `len` carries `req`, and no second reading of
    its framing. -/
structure Faithful (maxBody : Nat) (req : PhrRequest) (head : Bytes) (len : Nat) : Prop where
  readBack : ∀ tail, phrParseRequest none (head ++ tail) = done (forwarded req) tail
  connection : valuesOf (ascii "connection") (forwarded req).headers = [ascii "close"]
  transferEncoding : valuesOf (ascii "transfer-encoding") (forwarded req).headers = []
  contentLength :
    (valuesOf (ascii "content-length") (forwarded req).headers = [] ∧ len = 0) ∨
    ∃ v, valuesOf (ascii "content-length") (forwarded req).headers = [v] ∧
      isLength v = true ∧ len = decimalValue v
  limit : maxBody ≠ 0 → len ≤ maxBody

/-- A framing castle refuses: any `Transfer-Encoding`, two `Content-Length`, or one that
    is not a plain number. -/
def Ambiguous (hs : List PhrHeader) : Prop :=
  valuesOf (ascii "transfer-encoding") hs ≠ [] ∨
  2 ≤ (valuesOf (ascii "content-length") hs).length ∨
  ∃ v ∈ valuesOf (ascii "content-length") hs, isLength v = false

theorem namedHeaders_asParsed (hs : List (Bytes × Bytes)) :
    namedHeaders (asParsed hs) = hs := by
  rw [namedHeaders, asParsed]
  rw [List.filterMap_map]
  exact List.filterMap_some

/-- A field that is not hop-by-hop keeps all its values. -/
theorem valuesOf_forwarded {field : Bytes} (req : PhrRequest)
    (hkept : ∀ name, iequals name field = true → isHopByHop name = false)
    (hconn : iequals (ascii "Connection") field = false) :
    valuesOf field (forwarded req).headers = valuesOf field req.headers := by
  rw [valuesOf, forwarded]
  rw [namedHeaders_asParsed, List.filter_append]
  simp only [List.filter_cons, hconn, List.filter_nil, Bool.false_eq_true, if_false,
    List.append_nil]
  congr 1
  rw [keptHeaders]
  rw [List.filter_filter]
  refine List.filter_congr fun h _ => ?_
  cases hf : iequals h.1 field with
  | false => rfl
  | true => simp [hkept h.1 hf]

/-- A hop-by-hop field is left with what castle appends. -/
theorem valuesOf_forwarded_hop {field : Bytes} (req : PhrRequest)
    (hhop : ∀ name, iequals name field = true → isHopByHop name = true) :
    valuesOf field (forwarded req).headers
      = if iequals (ascii "Connection") field then [ascii "close"] else [] := by
  have hnone : (keptHeaders req.headers).filter (fun h => iequals h.1 field) = [] := by
    rw [List.filter_eq_nil_iff]
    intro h hmem hf
    have := (List.mem_filter.mp hmem).2
    rw [hhop h.1 hf] at this
    cases this
  rw [valuesOf, forwarded]
  rw [namedHeaders_asParsed, List.filter_append, hnone, List.nil_append, List.filter_cons]
  split <;> rfl

/-- A field whose name is none of the dropped ones is kept, in any case. -/
theorem not_isHopByHop {field name : Bytes}
    (hall : ∀ d ∈ kDrop, field.map toLower ≠ d.map toLower) (h : iequals name field = true) :
    isHopByHop name = false := by
  have heq := iequals_iff.mp h
  rw [isHopByHop, List.any_eq_false]
  intro d hd hiq
  exact hall d hd (heq ▸ iequals_iff.mp hiq)

theorem isHopByHop_of_mem {d name : Bytes} (hd : d ∈ kDrop) (h : iequals name d = true) :
    isHopByHop name = true := List.any_eq_true.mpr ⟨d, hd, h⟩

/-- The verdict without its branches: what a forwarded request went through. -/
theorem headVerdict_forward_inv {routes : List Route} {maxBody len : Nat} {req : PhrRequest}
    {head : Bytes} {target : Backend}
    (h : headVerdict routes maxBody req = .forward head target len) :
    ∃ acc, scanHeaders req.headers { head := requestLine req.method req.path } = .scanned acc ∧
      acc.chunked = false ∧ ¬ (maxBody ≠ 0 ∧ maxBody < acc.contentLength) ∧
      head = acc.head ++ ascii "Connection: close\r\n\r\n" ∧ len = acc.contentLength ∧
      routerMatch routes acc.host req.path = some target := by
  rw [headVerdict] at h
  split at h
  · cases h
  · cases hscan : scanHeaders req.headers { head := requestLine req.method req.path } with
    | reply r => rw [hscan] at h; cases h
    | overflow => rw [hscan] at h; cases h
    | scanned acc =>
        rw [hscan] at h
        dsimp only at h
        split at h
        · cases h
        · rename_i hchunked
          split at h
          · cases h
          · rename_i hlimit
            split at h
            · cases h
            · rename_i hmatch
              cases h
              exact ⟨acc, rfl, by simpa using hchunked, hlimit, rfl, rfl, hmatch⟩

theorem lengthOf_start : LengthOf [] false 0 := .inl ⟨rfl, rfl, rfl⟩

theorem mem_keptHeaders {hs : List PhrHeader} {h : Bytes × Bytes} (hmem : h ∈ keptHeaders hs) :
    (⟨some h.1, h.2⟩ : PhrHeader) ∈ hs := by
  obtain ⟨⟨name, value⟩, hh, heq⟩ := List.mem_filterMap.mp (List.mem_filter.mp hmem).1
  obtain ⟨nm, rfl, rfl⟩ := Option.map_eq_some_iff.mp heq
  exact hh

theorem headVerdict_forward {routes : List Route} {maxBody len : Nat} {req : PhrRequest}
    {head : Bytes} {target : Backend} (hwf : req.WellFormed)
    (h : headVerdict routes maxBody req = .forward head target len) :
    Faithful maxBody req head len := by
  obtain ⟨acc, hscan, hchunked, hlimit, rfl, rfl, -⟩ := headVerdict_forward_inv h
  obtain ⟨hhead, hte, hlen⟩ := scanHeaders_scanned hscan lengthOf_start
  rw [List.nil_append] at hlen
  have hconn : iequals (ascii "Connection") (ascii "content-length") = false := by decide
  refine ⟨fun tail => ?_, ?_, ?_, ?_, ?_⟩
  · -- the appended line is one more header of the written list
    have hrender : acc.head ++ ascii "Connection: close\r\n\r\n" ++ tail
        = requestLine req.method req.path ++
          (keptHeaders req.headers ++ [(ascii "Connection", ascii "close")]).flatMap
            (fun h => headerLine h.1 h.2) ++ 0x0d :: 0x0a :: tail := by
      rw [hhead]
      simp [headerLine, ascii]
    rw [hrender]
    refine parseRequest_render tail hwf.method hwf.path fun h hmem => ?_
    rcases List.mem_append.mp hmem with hmem | hmem
    · exact hwf.named h.1 h.2 (mem_keptHeaders hmem)
    · have htoken : (ascii "Connection").all isTokenChar = true := by decide
      have htext : (ascii "close").all (fun c => !isCtl c) = true := by decide
      rw [List.mem_singleton.mp hmem]
      refine ⟨⟨by decide, List.all_eq_true.mp htoken⟩, ⟨fun c hc => ?_, ?_, by decide⟩⟩
      · simpa using List.all_eq_true.mp htext c hc
      · rintro c cs ⟨⟩
        decide
  · -- of the hop-by-hop fields `Connection` alone comes back, as the appended one
    rw [valuesOf_forwarded_hop req fun name => isHopByHop_of_mem (by decide)]
    rw [if_pos (by decide)]
  · rw [valuesOf_forwarded_hop req fun name => isHopByHop_of_mem (by decide)]
    rw [if_neg (by decide)]
  · -- `Content-Length` passes the filter
    rw [valuesOf_forwarded req (fun _ => not_isHopByHop (by decide)) hconn]
    rcases hlen with ⟨h1, -, h2⟩ | ⟨v, h1, -, h2, h3⟩
    · exact .inl ⟨h1, h2⟩
    · exact .inr ⟨v, h1, h2, h3⟩
  · intro hmax
    by_contra hlt
    exact hlimit ⟨hmax, by omega⟩

/-- No header text overflows the length computation. -/
theorem headVerdict_ne_overflow (routes : List Route) (maxBody : Nat) (req : PhrRequest) :
    headVerdict routes maxBody req ≠ .overflow := by
  rw [headVerdict]
  split
  · rintro ⟨⟩
  · split
    · rintro ⟨⟩
    · rename_i hscan
      exact absurd hscan (scanHeaders_ne_overflow _ _)
    · split
      · rintro ⟨⟩
      · split
        · rintro ⟨⟩
        · split <;> rintro ⟨⟩

/-- An ambiguous framing gets an error reply. -/
theorem headVerdict_ambiguous (routes : List Route) (maxBody : Nat) {req : PhrRequest}
    (hout : ¬ kInternalPrefix <+: req.path) (hamb : Ambiguous req.headers) :
    ∃ r, headVerdict routes maxBody req = .reply r ∧ (r.code = 400 ∨ r.code = 501) := by
  rw [headVerdict]
  rw [if_neg hout]
  cases hscan : scanHeaders req.headers { head := requestLine req.method req.path } with
  | reply r => exact ⟨r, rfl, .inl (scanHeaders_reply hscan)⟩
  | overflow => exact absurd hscan (scanHeaders_ne_overflow _ _)
  | scanned acc =>
      obtain ⟨-, hte, hlen⟩ := scanHeaders_scanned hscan lengthOf_start
      rw [List.nil_append] at hlen
      rcases hamb with hamb | hamb | ⟨v, hmem, hamb⟩
      · -- only the chunked test is left to catch it
        have hchunked : acc.chunked = true := by simpa [hte] using hamb
        refine ⟨.mk' 501 "Not Implemented" "chunked request body unsupported", ?_, .inr rfl⟩
        simp only [hchunked, if_true]
      · rcases hlen with ⟨h1, -, -⟩ | ⟨v, h1, -, -, -⟩ <;> rw [h1] at hamb <;>
          simp at hamb
      · rcases hlen with ⟨h1, -, -⟩ | ⟨v', h1, -, h2, -⟩ <;> rw [h1] at hmem
        · cases hmem
        · rw [List.mem_singleton.mp hmem, h2] at hamb
          cases hamb

/-- The rewritten head is at most twice the client's, up to the fixed texts. -/
theorem headVerdict_length {routes : List Route} {maxBody len : Nat} {req : PhrRequest}
    {head buf rest : Bytes} {target : Backend} {m : Option Nat}
    (hparse : phrParseRequest m buf = done req rest)
    (h : headVerdict routes maxBody req = .forward head target len) :
    head.length + 2 * rest.length ≤ 2 * buf.length + 33 := by
  obtain ⟨acc, hscan, -, -, rfl, -⟩ := headVerdict_forward_inv h
  obtain ⟨hhead, -, -⟩ := scanHeaders_scanned hscan lengthOf_start
  obtain ⟨-, hlen, -⟩ := phrParseRequest_done hparse
  have hlines : ((keptHeaders req.headers).flatMap fun h => headerLine h.1 h.2).length
      ≤ (req.headers.map lineLength).sum := by
    generalize req.headers = hs
    induction hs with
    | nil => exact Nat.le_refl _
    | cons hd hs ih =>
        obtain ⟨_ | name, value⟩ := hd
        · simpa [keptHeaders, namedHeaders_cons_none, lineLength] using ih
        · have hline : (headerLine name value).length = name.length + value.length + 4 := by
            simp [headerLine, ascii]
            omega
          rw [keptHeaders] at ih ⊢
          rw [namedHeaders_cons_some, List.filter_cons]
          simp only [List.map_cons, List.sum_cons, lineLength]
          split
          · rw [List.flatMap_cons, List.length_append, hline]
            omega
          · omega
  have hline : (requestLine req.method req.path).length
      = req.method.length + req.path.length + 12 := by
    simp [requestLine, ascii]
    omega
  have hclose : (ascii "Connection: close\r\n\r\n").length = 21 := rfl
  rw [hhead, List.length_append, List.length_append, hline, hclose]
  omega

/-! ## `process_head` -/

section ProcessHead

variable {cfg : Cfg} {s : Pair} {w : List Answer}

/-- Without a `BackendConnection` there is none after `pump_write`, nor while it waits. -/
theorem pumpWrite_noBackend (n : Nat) (hb : s.backend = none) :
    wp (pumpWrite cfg n) (fun _ s' _ => s'.backend = none) (fun _ s' => s'.backend = none)
      s w := by
  have hclose : ∀ s' : Pair, s'.backend = none → (closeBoth s').backend = none := by
    intro s' hb'
    cases hc : s'.client.closed with
    | true => rw [closeBoth_of_closed hc, hb']
    | false => rw [closeBoth_of_open hc]; simp [hb']
  induction n generalizing s w with
  | zero => exact hb
  | succ n ih =>
      simp only [pumpWrite, wp_bind, wp_get, wp_ite, wp_modify, wp_pure]
      have hend : (closeIfClosing s).backend = none := by
        rw [closeIfClosing]
        split
        · exact hclose s hb
        · exact hb
      refine ⟨fun _ => ⟨fun hp => ?_, fun _ => hend⟩, fun _ => ?_⟩
      · -- a resume without the object stops at once
        simp only [viaBackend, wp_bind, wp_get, wp_ite]
        refine ⟨fun _ => ?_, fun _ => hb⟩
        cases n with
        | zero => exact hb
        | succ n =>
            simp only [resumeReads, self, wp_bind, wp_get]
            rw [show (releaseBackend s).backend = none from hb]
            exact hb
      · refine wp_transportSend hb ?_
        intro a w' r _ _ _
        cases r with
        | ok k => exact ih hb
        | wouldBlockRead => exact hb
        | wouldBlockWrite => exact hb
        | closed => exact hclose _ hb
        | error => exact hclose _ hb

theorem sendResponse_noBackend (n : Nat) (r : Reply) (headOnly : Bool) (hb : s.backend = none) :
    wp (sendResponse cfg n r headOnly) (fun _ s' _ => s'.backend = none)
      (fun _ s' => s'.backend = none) s w := by
  cases n with
  | zero => exact hb
  | succ n =>
      simp only [sendResponse, wp_bind, wp_modify]
      refine wp_mono (pumpWrite_noBackend n hb) ?_ fun _ _ h => h
      intro st s' _ hb'
      obtain ⟨mask, mods, failed, heq, -, -⟩ := recomputeInterest_cases (setWriteBlock st s')
      rw [finishPump]
      rw [heq]
      split <;> exact hb'

/-- What `process_head` does with its verdict. -/
def obey (cfg : Cfg) (n : Nat) : HeadVerdict → M Unit
  | .handleInternal method target => handleInternal cfg n method target
  | .reply r => sendResponse cfg n r false
  | .overflow => halt .overflow
  | .forward head target contentLength => do
      modify (acceptHead head target contentLength)
      beginUpload cfg n

theorem processHead_done {buf rest : Bytes} {req : PhrRequest}
    (hparse : phrParseRequest (some kMaxHeaders) buf = done req rest) (n : Nat)
    (hin : s.client.inBuf = buf) :
    processHead cfg (n + 1) s w = obey cfg n (headVerdict cfg.routes cfg.maxBody req)
      (setHeadLen (buf.length - rest.length) s) w := by
  simp only [processHead]
  rw [show ∀ f : Pair → M Unit, (get >>= f) s w = f s s w from fun _ => rfl, hin, hparse]
  rfl

/-- `process_head` on a complete head.  A forwarded request is handed on with a faithful
    head and its exact body length; an ambiguous one outside castle's own prefix is
    answered with an error, and no backend is opened for it at any moment. -/
theorem process_head_faithful (cfg : Cfg) {buf rest : Bytes} {req : PhrRequest}
    (hparse : phrParseRequest (some kMaxHeaders) buf = done req rest) :
    headVerdict cfg.routes cfg.maxBody req ≠ .overflow ∧
    (∀ head target len, headVerdict cfg.routes cfg.maxBody req = .forward head target len →
      Faithful cfg.maxBody req head len ∧
      ∀ n s w, s.client.inBuf = buf → ∃ s₁ : Pair,
        processHead cfg (n + 1) s w = beginUpload cfg n s₁ w ∧
        s₁.client.upstream = head ∧ s₁.client.bodyRemaining = len ∧
        s₁.client.headLen = buf.length - rest.length) ∧
    (¬ kInternalPrefix <+: req.path → Ambiguous req.headers →
      ∃ r : Reply, (r.code = 400 ∨ r.code = 501) ∧
      ∀ n s w, s.client.inBuf = buf →
        processHead cfg (n + 1) s w
          = sendResponse cfg n r false (setHeadLen (buf.length - rest.length) s) w ∧
        (s.backend = none → wp (processHead cfg (n + 1)) (fun _ s' _ => s'.backend = none)
          (fun _ s' => s'.backend = none) s w)) := by
  refine ⟨headVerdict_ne_overflow _ _ _, fun head target len hv => ⟨?_, ?_⟩, ?_⟩
  · exact headVerdict_forward (phrParseRequest_done hparse).1 hv
  · intro n s w hin
    rw [processHead_done hparse n hin, hv]
    exact ⟨acceptHead head target len (setHeadLen (buf.length - rest.length) s), rfl, rfl, rfl,
      rfl⟩
  · intro hout hamb
    obtain ⟨r, hv, hcode⟩ := headVerdict_ambiguous cfg.routes cfg.maxBody hout hamb
    refine ⟨r, hcode, fun n s w hin => ?_⟩
    have heq : processHead cfg (n + 1) s w
        = sendResponse cfg n r false (setHeadLen (buf.length - rest.length) s) w := by
      rw [processHead_done hparse n hin, hv]
      rfl
    refine ⟨heq, fun hb => ?_⟩
    rw [wp]
    rw [heq]
    exact sendResponse_noBackend n r false hb

/-- A `POST` with a hop-by-hop header and a folded line. -/
def folded : PhrRequest where
  method := ascii "POST"
  path := ascii "/a"
  minorVersion := 0
  headers := [⟨some (ascii "te"), ascii "x"⟩, ⟨none, ascii " y"⟩,
    ⟨some (ascii "Content-Length"), ascii "2"⟩]

theorem process_head_faithful_folded :
    phrParseRequest (some kMaxHeaders)
        (ascii "POST /a HTTP/1.0\r\nte: x\n y\r\nContent-Length: 2\r\n\r\nok")
      = done folded (ascii "ok") ∧
    Faithful 10 folded
      (ascii "POST /a HTTP/1.1\r\nContent-Length: 2\r\nConnection: close\r\n\r\n") 2 :=
  ⟨by decide,
    ((process_head_faithful ⟨.plain, [{}], 0, 10⟩
      (show phrParseRequest (some kMaxHeaders)
        (ascii "POST /a HTTP/1.0\r\nte: x\n y\r\nContent-Length: 2\r\n\r\nok")
        = done folded (ascii "ok") by decide)).2.1 _ {} _ (by decide)).1⟩

end ProcessHead

end CastlePlus
