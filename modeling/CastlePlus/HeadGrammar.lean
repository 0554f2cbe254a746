import CastlePlus.RequestHead

/-! # The head grammar read both ways

    What `phr_parse_request` accepts, and that it accepts what castle writes.

    * Inversion: a function that returned consumed exactly the bytes it says, and
      what it returned has the shape the grammar demands (`PhrRequest.WellFormed`).
    * Reading back: on a well-formed piece followed by its delimiter each function
      returns that piece, whatever follows (`parseRequest_render`). -/

namespace CastlePlus

open PhrResult

/-! ## Shapes -/

/-- A non-empty run of token characters. -/
def IsToken (t : Bytes) : Prop := t ≠ [] ∧ ∀ c ∈ t, isTokenChar c = true

/-- A character `ADVANCE_TOKEN` passes over. -/
def isPathChar (c : UInt8) : Bool := c != 0x20 && !(c < 0x20 || c == 0x7f)

/-- A request target without blanks and controls. -/
def IsTarget (p : Bytes) : Prop := p ≠ [] ∧ ∀ c ∈ p, isPathChar c = true

/-- A header value as `parse_headers` leaves it: no line end or control, no blanks around
    it. -/
structure IsFieldValue (v : Bytes) : Prop where
  text : ∀ c ∈ v, isCtl c = false
  front : ∀ c cs, v = c :: cs → isBlank c = false
  back : v.rdropWhile isBlank = v

/-- What the grammar says about a parsed head. -/
structure PhrRequest.WellFormed (req : PhrRequest) : Prop where
  method : IsToken req.method
  path : IsTarget req.path
  named : ∀ name value, (⟨some name, value⟩ : PhrHeader) ∈ req.headers →
    IsToken name ∧ IsFieldValue value

/-! ## Inversion -/

theorem parseToken_done {ch : UInt8} {buf tok rest : Bytes}
    (h : parseToken ch buf = done tok rest) :
    buf = tok ++ rest ∧ (∃ r, rest = ch :: r) ∧ ∀ c ∈ tok, isTokenChar c = true := by
  induction buf generalizing tok with
  | nil => cases h
  | cons c cs ih =>
      rw [parseToken] at h
      split at h
      · rename_i hc
        cases h
        exact ⟨rfl, ⟨cs, by rw [hc]⟩, by simp⟩
      · split at h
        · rename_i htok
          obtain ⟨tok', h', rfl⟩ := map_eq_done.mp h
          obtain ⟨heq, hstop, hall⟩ := ih h'
          exact ⟨by rw [heq]; rfl, hstop, by simpa [htok] using hall⟩
        · cases h

theorem advanceToken_done {buf tok rest : Bytes} (h : advanceToken buf = done tok rest) :
    buf = tok ++ rest ∧ (∃ r, rest = 0x20 :: r) ∧ ∀ c ∈ tok, isPathChar c = true := by
  induction buf generalizing tok with
  | nil => cases h
  | cons c cs ih =>
      rw [advanceToken] at h
      split at h
      · rename_i hc
        cases h
        exact ⟨rfl, ⟨cs, by rw [hc]⟩, by simp⟩
      · rename_i hsp
        split at h
        · cases h
        · rename_i hctl
          obtain ⟨tok', h', rfl⟩ := map_eq_done.mp h
          obtain ⟨heq, hstop, hall⟩ := ih h'
          have hc : isPathChar c = true := by simpa [isPathChar, hsp] using hctl
          exact ⟨by rw [heq]; rfl, hstop, by simpa [hc] using hall⟩

theorem skipSpaces_done {buf rest : Bytes} (h : skipSpaces buf = done () rest) :
    rest.length ≤ buf.length := by
  induction buf with
  | nil => cases h
  | cons c cs ih =>
      rw [skipSpaces] at h
      split at h
      · exact Nat.le_succ_of_le (ih h)
      · cases h; exact Nat.le_refl _

theorem skipBlanks_done {buf rest : Bytes} (h : skipBlanks buf = done () rest) :
    rest.length ≤ buf.length ∧ ∀ c cs, rest = c :: cs → isBlank c = false := by
  induction buf with
  | nil => cases h
  | cons c cs ih =>
      rw [skipBlanks] at h
      split at h
      · obtain ⟨hlen, hfront⟩ := ih h
        exact ⟨Nat.le_succ_of_le hlen, hfront⟩
      · rename_i hb
        cases h
        refine ⟨Nat.le_refl _, fun c' cs' heq => ?_⟩
        rw [← (List.cons.inj heq).1]
        simpa using hb

theorem expectChar_done {ch : UInt8} {buf rest : Bytes} (h : expectChar ch buf = done () rest) :
    buf = ch :: rest := by
  cases buf with
  | nil => cases h
  | cons c cs =>
      simp only [expectChar] at h
      split at h
      · rename_i hc
        cases h
        rw [hc]
      · cases h

theorem getTokenToEol_done {buf tok rest : Bytes} (h : getTokenToEol buf = done tok rest) :
    (∃ eol, eol ≠ [] ∧ buf = tok ++ eol ++ rest) ∧ ∀ c ∈ tok, isCtl c = false := by
  induction buf generalizing tok with
  | nil => cases h
  | cons c cs ih =>
      rw [getTokenToEol] at h
      split at h
      · split at h
        · obtain ⟨u, h', rfl⟩ := map_eq_done.mp h
          rw [expectChar_done h']
          exact ⟨⟨[c, 0x0a], by simp, rfl⟩, by simp⟩
        · split at h
          · cases h
            exact ⟨⟨[c], by simp, rfl⟩, by simp⟩
          · cases h
      · rename_i hctl
        obtain ⟨tok', h', rfl⟩ := map_eq_done.mp h
        obtain ⟨⟨eol, hne, heq⟩, hall⟩ := ih h'
        exact ⟨⟨eol, hne, by rw [heq]; rfl⟩, by simpa [hctl] using hall⟩

/-- A header name takes its colon with it; a continuation line has none. -/
theorem parseHeaderName_done {k : Nat} {buf rest : Bytes} {name : Option Bytes}
    (h : parseHeaderName k buf = done name rest) :
    (name = none ∧ rest = buf) ∨
    ∃ nm, name = some nm ∧ IsToken nm ∧ nm.length + 1 + rest.length ≤ buf.length ∧
      ∀ c cs, rest = c :: cs → isBlank c = false := by
  cases buf with
  | nil => cases h
  | cons c cs =>
      simp only [parseHeaderName] at h
      split at h
      · cases h
        exact .inl ⟨rfl, rfl⟩
      · obtain ⟨nm, r, htok, hrest⟩ := andThen_eq_done.mp h
        split at hrest
        · cases hrest
        · rename_i hne
          obtain ⟨u, hskip, rfl⟩ := map_eq_done.mp hrest
          obtain ⟨heq, ⟨r', rfl⟩, hall⟩ := parseToken_done htok
          obtain ⟨hlen, hfront⟩ := skipBlanks_done hskip
          refine .inr ⟨nm, rfl, ⟨hne, hall⟩, ?_, hfront⟩
          rw [heq]
          simp only [List.drop_succ_cons, List.drop_zero] at hlen
          simp only [List.length_append, List.length_cons]
          omega

/-- The length of the line castle writes for a header. -/
def lineLength (h : PhrHeader) : Nat :=
  match h.name with
  | none => 0
  | some name => name.length + h.value.length + 4

/-- A value up to the line end, trimmed at its end. -/
theorem isFieldValue_trim {buf v rest : Bytes} (h : getTokenToEol buf = done v rest)
    (hfront : ∀ c cs, buf = c :: cs → isBlank c = false) :
    IsFieldValue (v.rdropWhile isBlank) := by
  obtain ⟨⟨eol, -, heq⟩, hall⟩ := getTokenToEol_done h
  have hpre : v.rdropWhile isBlank <+: v := List.rdropWhile_prefix _ _
  refine ⟨fun c hc => hall c (hpre.subset hc), ?_, List.rdropWhile_idempotent _ _⟩
  intro c cs hv
  obtain ⟨t, ht⟩ := hpre
  refine hfront c (cs ++ t ++ eol ++ rest) ?_
  rw [heq, ← ht, hv]
  simp

theorem parseHeadersLoop_done {m : Option Nat} {fuel k : Nat} {buf rest : Bytes}
    {hs : List PhrHeader} (h : parseHeadersLoop m fuel k buf = done hs rest) :
    (hs.map lineLength).sum + 2 * rest.length + 2 ≤ 2 * buf.length ∧
      ∀ name value, (⟨some name, value⟩ : PhrHeader) ∈ hs →
        IsToken name ∧ IsFieldValue value := by
  induction fuel generalizing k buf hs with
  | zero => cases h
  | succ fuel ih =>
      cases buf with
      | nil => cases h
      | cons c cs =>
          simp only [parseHeadersLoop] at h
          split at h
          · -- the empty line
            obtain ⟨u, h', rfl⟩ := map_eq_done.mp h
            rw [expectChar_done h']
            simp only [List.map_nil, List.sum_nil, List.length_cons]
            exact ⟨by omega, by simp⟩
          · split at h
            · -- the same as a bare LF
              cases h
              simp only [List.map_nil, List.sum_nil, List.length_cons]
              exact ⟨by omega, by simp⟩
            · split at h
              · -- one header too many
                cases h
              · obtain ⟨name, buf₁, hname, h⟩ := andThen_eq_done.mp h
                obtain ⟨v, buf₂, hval, h⟩ := andThen_eq_done.mp h
                obtain ⟨hs', h', rfl⟩ := map_eq_done.mp h
                obtain ⟨hsum, hshape⟩ := ih h'
                obtain ⟨⟨eol, hne, heq⟩, -⟩ := getTokenToEol_done hval
                have heol : 0 < eol.length := List.length_pos_iff.mpr hne
                have htrim : (v.rdropWhile isBlank).length ≤ v.length :=
                  (List.rdropWhile_prefix _ _).length_le
                have hbuf₁ : buf₁.length = v.length + eol.length + buf₂.length := by
                  rw [heq]
                  simp only [List.length_append]
                rcases parseHeaderName_done hname with
                  ⟨rfl, rfl⟩ | ⟨nm, rfl, hnm, hlen, hfront⟩
                · -- a continuation line is not written at all
                  refine ⟨?_, by simpa using hshape⟩
                  simp only [List.map_cons, List.sum_cons, lineLength]
                  omega
                · have hpos : 0 < nm.length := List.length_pos_iff.mpr hnm.1
                  refine ⟨?_, ?_⟩
                  · simp only [List.map_cons, List.sum_cons, lineLength]
                    omega
                  · intro name value hmem
                    rcases List.mem_cons.mp hmem with heq' | hmem
                    · cases heq'
                      exact ⟨hnm, isFieldValue_trim hval hfront⟩
                    · exact hshape name value hmem

/-- A header line consumes a byte: fuel beyond the buffer changes nothing. -/
theorem parseHeaders_fuel {m : Option Nat} {f g k : Nat} {buf : Bytes}
    (hf : buf.length < f) (hg : buf.length < g) :
    parseHeadersLoop m f k buf = parseHeadersLoop m g k buf := by
  induction f generalizing g k buf with
  | zero => cases hf
  | succ f ih =>
      obtain ⟨g, rfl⟩ : ∃ g', g = g' + 1 := ⟨g - 1, by omega⟩
      cases buf with
      | nil => rfl
      | cons c cs =>
          simp only [parseHeadersLoop]
          split_ifs with h₁ h₂ h₃
          · rfl
          · rfl
          · rfl
          cases hname : parseHeaderName k (c :: cs) with
          | incomplete => rfl
          | malformed => rfl
          | done name buf₁ =>
              simp only [andThen_done]
              cases hval : getTokenToEol buf₁ with
              | incomplete => rfl
              | malformed => rfl
              | done v buf₂ =>
                  obtain ⟨⟨eol, hne, heq⟩, -⟩ := getTokenToEol_done hval
                  have heol : 0 < eol.length := List.length_pos_iff.mpr hne
                  have hle : buf₁.length ≤ (c :: cs).length := by
                    rcases parseHeaderName_done hname with ⟨-, rfl⟩ | ⟨nm, -, -, hlen, -⟩
                    · exact Nat.le_refl _
                    · omega
                  have hlt : buf₂.length < cs.length + 1 := by
                    rw [heq] at hle
                    simp only [List.length_append, List.length_cons] at hle
                    omega
                  simp only [List.length_cons] at hf hg
                  simp only [andThen_done]
                  rw [ih (by omega) (show buf₂.length < g by omega)]

theorem parseHttpVersion_done {buf rest : Bytes} {v : UInt8}
    (h : parseHttpVersion buf = done v rest) : rest.length + 8 = buf.length := by
  rw [parseHttpVersion] at h
  split at h
  · cases h
  · split at h
    · cases hd : buf.drop 7 with
      | nil => rw [hd] at h; cases h
      | cons d r =>
          rw [hd] at h
          simp only at h
          split at h
          · cases h
            have := congrArg List.length hd
            simp only [List.length_drop, List.length_cons] at this
            omega
          · cases h
    · cases h

theorem skipEmptyLine_done {buf rest : Bytes} (h : skipEmptyLine buf = done () rest) :
    rest.length ≤ buf.length := by
  cases buf with
  | nil => cases h
  | cons c cs =>
      simp only [skipEmptyLine] at h
      split at h
      · rw [expectChar_done h]
        simp only [List.length_cons]
        omega
      · split at h <;> cases h <;> simp

theorem parseVersionEol_done {buf rest : Bytes} (h : parseVersionEol buf = done () rest) :
    rest.length + 1 ≤ buf.length := by
  cases buf with
  | nil => cases h
  | cons c cs =>
      simp only [parseVersionEol] at h
      split at h
      · rw [expectChar_done h]
        simp only [List.length_cons]
        omega
      · split at h
        · cases h; simp
        · cases h

/-- A parsed head is well formed, and what castle writes for it is at most twice as long,
    up to the fixed texts. -/
theorem phrParseRequest_done {m : Option Nat} {buf rest : Bytes} {req : PhrRequest}
    (h : phrParseRequest m buf = done req rest) :
    req.WellFormed ∧
      req.method.length + req.path.length + (req.headers.map lineLength).sum
        + 2 * rest.length ≤ 2 * buf.length ∧ rest.length ≤ buf.length := by
  rw [phrParseRequest, parseRequest] at h
  obtain ⟨_, buf₁, h₁, h⟩ := andThen_eq_done.mp h
  obtain ⟨method, buf₂, h₂, h⟩ := andThen_eq_done.mp h
  obtain ⟨_, buf₃, h₃, h⟩ := andThen_eq_done.mp h
  obtain ⟨path, buf₄, h₄, h⟩ := andThen_eq_done.mp h
  obtain ⟨_, buf₅, h₅, h⟩ := andThen_eq_done.mp h
  split at h
  · cases h
  · rename_i hne
    obtain ⟨hm, hp⟩ := not_or.mp hne
    obtain ⟨minor, buf₆, h₆, h⟩ := andThen_eq_done.mp h
    obtain ⟨_, buf₇, h₇, h⟩ := andThen_eq_done.mp h
    obtain ⟨hs, h₈, rfl⟩ := map_eq_done.mp h
    obtain ⟨heq₂, -, hall₂⟩ := parseToken_done h₂
    obtain ⟨heq₄, -, hall₄⟩ := advanceToken_done h₄
    obtain ⟨hsum, hshape⟩ := parseHeadersLoop_done h₈
    have l₁ := skipEmptyLine_done h₁
    have l₂ := congrArg List.length heq₂
    have l₃ := skipSpaces_done h₃
    have l₄ := congrArg List.length heq₄
    have l₅ := skipSpaces_done h₅
    have l₆ := parseHttpVersion_done h₆
    have l₇ := parseVersionEol_done h₇
    simp only [List.length_drop, List.length_append] at l₂ l₃ l₄ l₅
    refine ⟨⟨⟨hm, hall₂⟩, ⟨hp, hall₄⟩, hshape⟩, ?_, ?_⟩
    · dsimp only
      omega
    · omega

/-! ## Reading back -/

theorem isTokenChar_ne {c : UInt8} (h : isTokenChar c = true) :
    c ≠ 0x0a ∧ c ≠ 0x0d ∧ c ≠ 0x20 ∧ c ≠ 0x3a ∧ isBlank c = false := by
  refine ⟨?_, ?_, ?_, ?_, ?_⟩
  · rintro rfl; exact absurd h (by decide)
  · rintro rfl; exact absurd h (by decide)
  · rintro rfl; exact absurd h (by decide)
  · rintro rfl; exact absurd h (by decide)
  · cases hb : isBlank c with
    | false => rfl
    | true =>
        simp only [isBlank, Bool.or_eq_true, beq_iff_eq] at hb
        rcases hb with rfl | rfl <;> exact absurd h (by decide)

theorem parseToken_append {ch : UInt8} {tok : Bytes} (r : Bytes)
    (hall : ∀ c ∈ tok, isTokenChar c = true) (hch : isTokenChar ch = false) :
    parseToken ch (tok ++ ch :: r) = done tok (ch :: r) := by
  induction tok with
  | nil => simp [parseToken]
  | cons c cs ih =>
      have hc : isTokenChar c = true := hall c (by simp)
      have hne : c ≠ ch := by
        rintro rfl
        rw [hc] at hch
        cases hch
      rw [List.cons_append, parseToken, if_neg hne, if_pos hc,
        ih fun c' h => hall c' (by simp [h])]
      rfl

theorem advanceToken_append {tok : Bytes} (r : Bytes)
    (hall : ∀ c ∈ tok, isPathChar c = true) :
    advanceToken (tok ++ 0x20 :: r) = done tok (0x20 :: r) := by
  induction tok with
  | nil => simp [advanceToken]
  | cons c cs ih =>
      have hc := hall c (by simp)
      simp only [isPathChar, Bool.and_eq_true, bne_iff_ne, Bool.not_eq_true'] at hc
      rw [List.cons_append, advanceToken, if_neg hc.1, if_neg (by simp [hc.2]),
        ih fun c' h => hall c' (by simp [h])]
      rfl

theorem getTokenToEol_append {v : Bytes} (r : Bytes) (hall : ∀ c ∈ v, isCtl c = false) :
    getTokenToEol (v ++ 0x0d :: 0x0a :: r) = done v r := by
  induction v with
  | nil => rfl
  | cons c cs ih =>
      rw [List.cons_append, getTokenToEol, if_neg (by simp [hall c (by simp)]),
        ih fun c' h => hall c' (by simp [h])]
      rfl

theorem skipBlanks_value {v : Bytes} (r : Bytes) (hv : IsFieldValue v) :
    skipBlanks (0x20 :: (v ++ 0x0d :: r)) = done () (v ++ 0x0d :: r) := by
  rw [skipBlanks, if_pos (by decide)]
  cases v with
  | nil => rfl
  | cons c cs => rw [List.cons_append, skipBlanks, if_neg (by simp [hv.front c cs rfl])]

/-- A written header line is read back as it was, also as the first one. -/
theorem parseHeadersLoop_line {fuel k : Nat} {name value tail : Bytes} (hn : IsToken name)
    (hv : IsFieldValue value) :
    parseHeadersLoop none (fuel + 1) k (headerLine name value ++ tail)
      = (parseHeadersLoop none fuel (k + 1) tail).map (⟨some name, value⟩ :: ·) := by
  obtain ⟨c, cs, rfl⟩ := List.exists_cons_of_ne_nil hn.1
  obtain ⟨hlf, hcr, -, -, hblank⟩ := isTokenChar_ne (hn.2 c (by simp))
  have hline : headerLine (c :: cs) value ++ tail
      = c :: (cs ++ 0x3a :: 0x20 :: (value ++ 0x0d :: 0x0a :: tail)) := by
    simp [headerLine, ascii]
  have hname : parseHeaderName k (headerLine (c :: cs) value ++ tail)
      = done (some (c :: cs)) (value ++ 0x0d :: 0x0a :: tail) := by
    rw [hline]
    simp only [parseHeaderName]
    rw [if_neg (by simp [hblank]), ← List.cons_append, parseToken_append _ hn.2 (by decide)]
    simp only [andThen_done, List.drop_succ_cons, List.drop_zero]
    rw [if_neg (by simp), skipBlanks_value _ hv]
    rfl
  rw [hline] at hname ⊢
  simp only [parseHeadersLoop]
  rw [if_neg hcr, if_neg hlf, if_neg (by simp), hname, andThen_done,
    getTokenToEol_append _ hv.text, andThen_done, hv.back]

/-- Written header lines and the empty line are read back, whatever follows. -/
theorem parseHeadersLoop_lines {fuel k : Nat} {hs : List (Bytes × Bytes)} (tail : Bytes)
    (hshape : ∀ h ∈ hs, IsToken h.1 ∧ IsFieldValue h.2) (hfuel : hs.length < fuel) :
    parseHeadersLoop none fuel k
        (hs.flatMap (fun h => headerLine h.1 h.2) ++ 0x0d :: 0x0a :: tail)
      = done (hs.map fun h => ⟨some h.1, h.2⟩) tail := by
  induction hs generalizing fuel k with
  | nil =>
      obtain ⟨f, rfl⟩ := Nat.exists_eq_add_of_lt hfuel
      rfl
  | cons h hs ih =>
      obtain ⟨f, rfl⟩ := Nat.exists_eq_add_of_lt hfuel
      have hh := hshape h (by simp)
      rw [List.flatMap_cons, List.append_assoc, parseHeadersLoop_line hh.1 hh.2,
        ih (fun h' hmem => hshape h' (by simp [hmem])) (by simp; omega)]
      rfl

/-- Every written header line has a byte. -/
theorem length_le_lines (hs : List (Bytes × Bytes)) :
    hs.length ≤ (hs.flatMap fun h => headerLine h.1 h.2).length := by
  induction hs with
  | nil => exact Nat.le_refl _
  | cons h hs ih =>
      have hline : 1 ≤ (headerLine h.1 h.2).length := by simp [headerLine, ascii]; omega
      simp only [List.flatMap_cons, List.length_append, List.length_cons]
      omega

theorem skipSpaces_version (r : Bytes) :
    skipSpaces (ascii "HTTP/1.1" ++ r) = done () (ascii "HTTP/1.1" ++ r) := rfl

theorem parseHttpVersion_version (r : Bytes) :
    parseHttpVersion (ascii "HTTP/1.1" ++ 0x0d :: r) = done 1 (0x0d :: r) := by
  simp [parseHttpVersion, ascii]

/-- A written request line is read back; the headers follow. -/
theorem parseRequest_line {method path : Bytes} (m : Option Nat) (lines : Bytes)
    (hm : IsToken method) (hp : IsTarget path) :
    phrParseRequest m (requestLine method path ++ lines)
      = (parseHeaders m lines).map fun hs => ⟨method, path, 1, hs⟩ := by
  obtain ⟨c, cs, rfl⟩ := List.exists_cons_of_ne_nil hm.1
  obtain ⟨d, ds, rfl⟩ := List.exists_cons_of_ne_nil hp.1
  obtain ⟨hlf, hcr, -, -, -⟩ := isTokenChar_ne (hm.2 c (by simp))
  have hd : d ≠ 0x20 := by
    have := hp.2 d (by simp)
    simp only [isPathChar, Bool.and_eq_true, bne_iff_ne] at this
    exact this.1
  have hbuf : requestLine (c :: cs) (d :: ds) ++ lines
      = c :: (cs ++ 0x20 :: d :: (ds ++ 0x20 ::
          (ascii "HTTP/1.1" ++ 0x0d :: 0x0a :: lines))) := by
    simp [requestLine, ascii]
  rw [hbuf]
  rw [phrParseRequest, parseRequest]
  simp only [skipEmptyLine, if_neg hcr, if_neg hlf, andThen_done]
  rw [← List.cons_append, parseToken_append _ hm.2 (by decide)]
  simp only [andThen_done, List.drop_succ_cons, List.drop_zero, skipSpaces, if_neg hd]
  rw [← List.cons_append, advanceToken_append _ hp.2]
  simp only [andThen_done, List.drop_succ_cons, List.drop_zero, skipSpaces_version]
  rw [if_neg (by simp), parseHttpVersion_version, andThen_done,
    show parseVersionEol (0x0d :: 0x0a :: lines) = done () lines from rfl, andThen_done]

/-- A written head is read back, whatever follows it. -/
theorem parseRequest_render {method path : Bytes} {hs : List (Bytes × Bytes)} (tail : Bytes)
    (hm : IsToken method) (hp : IsTarget path)
    (hshape : ∀ h ∈ hs, IsToken h.1 ∧ IsFieldValue h.2) :
    phrParseRequest none (requestLine method path ++
        hs.flatMap (fun h => headerLine h.1 h.2) ++ 0x0d :: 0x0a :: tail)
      = done ⟨method, path, 1, hs.map fun h => ⟨some h.1, h.2⟩⟩ tail := by
  generalize hlines : hs.flatMap (fun h => headerLine h.1 h.2) ++ 0x0d :: 0x0a :: tail = lines
  have hlen : hs.length < lines.length + 1 := by
    have := length_le_lines hs
    rw [← hlines]
    simp only [List.length_append, List.length_cons]
    omega
  rw [List.append_assoc, hlines, parseRequest_line none lines hm hp, parseHeaders]
  rw [← hlines] at hlen ⊢
  rw [parseHeadersLoop_lines tail hshape hlen]
  rfl

end CastlePlus
