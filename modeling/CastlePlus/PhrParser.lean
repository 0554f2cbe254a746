import Mathlib.Algebra.Order.Ring.Int
import Mathlib.Data.List.DropRight

/-! # picohttpparser: the request-head grammar

    `third_party/picohttpparser/picohttpparser.c`, the part `phr_parse_request`
    runs.  The C code walks a pointer from `buf` to `buf_end`; here a parser takes
    the bytes still ahead of that pointer and returns the bytes after it.  The
    return code `*ret` is the constructor: `-2` is `incomplete`, `-1` is
    `malformed`, a returned pointer is `done`.

    The SSE4.2 scan `findchar_fast` only skips bytes that the scalar loop behind it
    would accept one by one, so the scalar loops are the model of both builds. -/

namespace CastlePlus

/-- A `std::string`, or a `(const char*, size_t)` range. -/
abbrev Bytes := List UInt8

/-- The bytes of a string literal of the source. -/
def ascii (s : String) : Bytes := s.toList.map fun c => c.toNat.toUInt8

/-- What a parsing function of picohttpparser.c hands back. -/
inductive PhrResult (α : Type) where
  | incomplete
  | malformed
  | done (a : α) (rest : Bytes)
  deriving DecidableEq

namespace PhrResult

variable {α β : Type}

/-- Continue with the rest, or hand the return code on. -/
def andThen (r : PhrResult α) (k : α → Bytes → PhrResult β) : PhrResult β :=
  match r with
  | incomplete => incomplete
  | malformed => malformed
  | done a rest => k a rest

/-- Change the parsed value only. -/
def map (f : α → β) (r : PhrResult α) : PhrResult β :=
  r.andThen fun a rest => done (f a) rest

@[simp] theorem andThen_done (a : α) (rest : Bytes) (k : α → Bytes → PhrResult β) :
    (done a rest).andThen k = k a rest := rfl

@[simp] theorem map_done (f : α → β) (a : α) (rest : Bytes) :
    (done a rest).map f = done (f a) rest := rfl

theorem andThen_eq_done {r : PhrResult α} {k : α → Bytes → PhrResult β} {b : β}
    {rest : Bytes} :
    r.andThen k = done b rest ↔ ∃ a r', r = done a r' ∧ k a r' = done b rest := by
  cases r <;> simp [andThen]

theorem map_eq_done {r : PhrResult α} {f : α → β} {b : β} {rest : Bytes} :
    r.map f = done b rest ↔ ∃ a, r = done a rest ∧ f a = b := by
  cases r <;> simp [map, andThen]
  tauto

end PhrResult

open PhrResult

/-- `token_char_map`: the characters RFC 7230 allows in a token. -/
def isTokenChar (c : UInt8) : Bool :=
  (0x30 ≤ c && c ≤ 0x39) || (0x41 ≤ c && c ≤ 0x5a) || (0x61 ≤ c && c ≤ 0x7a) ||
  c == 0x21 || (0x23 ≤ c && c ≤ 0x27) || c == 0x2a || c == 0x2b || c == 0x2d ||
  c == 0x2e || (0x5e ≤ c && c ≤ 0x60) || c == 0x7c || c == 0x7e

/-- SP or HTAB. -/
def isBlank (c : UInt8) : Bool := c == 0x20 || c == 0x09

/-- The bytes at which `get_token_to_eol` stops: controls other than HTAB, and DEL. -/
def isCtl (c : UInt8) : Bool := (c < 0x20 && c != 0x09) || c == 0x7f

/-- `parse_token`: token characters up to `nextChar`, which is left in place. -/
def parseToken (nextChar : UInt8) : Bytes → PhrResult Bytes
  | [] => incomplete
  | c :: cs =>
      if c = nextChar then done [] (c :: cs)
      else if isTokenChar c then (parseToken nextChar cs).map (c :: ·)
      else malformed

/-- `ADVANCE_TOKEN`: everything up to a space, controls and DEL refused. -/
def advanceToken : Bytes → PhrResult Bytes
  | [] => incomplete
  | c :: cs =>
      if c = 0x20 then done [] (c :: cs)
      else if c < 0x20 || c == 0x7f then malformed
      else (advanceToken cs).map (c :: ·)

/-- The tail of `do { ++buf; CHECK_EOF(); } while (*buf == ' ')`, after its `++buf`. -/
def skipSpaces : Bytes → PhrResult Unit
  | [] => incomplete
  | c :: cs => if c = 0x20 then skipSpaces cs else done () (c :: cs)

/-- The optional blanks between the colon and a header value. -/
def skipBlanks : Bytes → PhrResult Unit
  | [] => incomplete
  | c :: cs => if isBlank c then skipBlanks cs else done () (c :: cs)

/-- `EXPECT_CHAR`. -/
def expectChar (ch : UInt8) : Bytes → PhrResult Unit
  | [] => incomplete
  | c :: cs => if c = ch then done () cs else malformed

/-- `get_token_to_eol`: the bytes up to CRLF or LF, the line end consumed. -/
def getTokenToEol : Bytes → PhrResult Bytes
  | [] => incomplete
  | c :: cs =>
      if isCtl c then
        if c = 0x0d then (expectChar 0x0a cs).map fun _ => []
        else if c = 0x0a then done [] cs
        else malformed
      else (getTokenToEol cs).map (c :: ·)

/-- `parse_http_version`: nine bytes must be there before any of them is looked at. -/
def parseHttpVersion (buf : Bytes) : PhrResult UInt8 :=
  if buf.length < 9 then incomplete
  else if buf.take 7 = [0x48, 0x54, 0x54, 0x50, 0x2f, 0x31, 0x2e] then
    match buf.drop 7 with
    | d :: rest => if 0x30 ≤ d && d ≤ 0x39 then done (d - 0x30) rest else malformed
    | [] => incomplete
  else malformed

/-- `struct phr_header`; a null `name` is a continuation line. -/
structure PhrHeader where
  name : Option Bytes
  value : Bytes
  deriving DecidableEq

/-- The name part of one header line: absent on a continuation line, which the first
    line cannot be; non-empty otherwise. -/
def parseHeaderName (numHeaders : Nat) (buf : Bytes) : PhrResult (Option Bytes) :=
  match buf with
  | [] => incomplete
  | c :: _ =>
      if numHeaders ≠ 0 ∧ isBlank c then done none buf
      else
        (parseToken 0x3a buf).andThen fun name rest =>
          if name = [] then malformed
          else (skipBlanks (rest.drop 1)).map fun _ => some name

/-- The loop of `parse_headers`.  `maxHeaders` is the cap (`none`: no cap); each turn
    consumes at least one byte, so `fuel` larger than the buffer is never used up
    (`parseHeaders_fuel`). -/
def parseHeadersLoop (maxHeaders : Option Nat) :
    Nat → Nat → Bytes → PhrResult (List PhrHeader)
  | 0, _, _ => incomplete
  | fuel + 1, numHeaders, buf =>
      match buf with
      | [] => incomplete
      | c :: cs =>
          if c = 0x0d then (expectChar 0x0a cs).map fun _ => []
          else if c = 0x0a then done [] cs
          else if maxHeaders = some numHeaders then malformed
          else
            (parseHeaderName numHeaders (c :: cs)).andThen fun name buf₁ =>
            (getTokenToEol buf₁).andThen fun value buf₂ =>
            (parseHeadersLoop maxHeaders fuel (numHeaders + 1) buf₂).map fun hs =>
              ⟨name, value.rdropWhile isBlank⟩ :: hs

/-- `parse_headers`. -/
def parseHeaders (maxHeaders : Option Nat) (buf : Bytes) : PhrResult (List PhrHeader) :=
  parseHeadersLoop maxHeaders (buf.length + 1) 0 buf

/-- The out-parameters of `phr_parse_request`. -/
structure PhrRequest where
  method : Bytes
  path : Bytes
  minorVersion : UInt8
  headers : List PhrHeader
  deriving DecidableEq

/-- One empty line in front of the request line is skipped. -/
def skipEmptyLine (buf : Bytes) : PhrResult Unit :=
  match buf with
  | [] => incomplete
  | c :: cs =>
      if c = 0x0d then expectChar 0x0a cs
      else if c = 0x0a then done () cs
      else done () (c :: cs)

/-- The line end behind the version. -/
def parseVersionEol (buf : Bytes) : PhrResult Unit :=
  match buf with
  | [] => incomplete
  | c :: cs =>
      if c = 0x0d then expectChar 0x0a cs
      else if c = 0x0a then done () cs
      else malformed

/-- `parse_request`. -/
def parseRequest (maxHeaders : Option Nat) (buf : Bytes) : PhrResult PhrRequest :=
  (skipEmptyLine buf).andThen fun _ buf₁ =>
  (parseToken 0x20 buf₁).andThen fun method buf₂ =>
  (skipSpaces (buf₂.drop 1)).andThen fun _ buf₃ =>
  (advanceToken buf₃).andThen fun path buf₄ =>
  (skipSpaces (buf₄.drop 1)).andThen fun _ buf₅ =>
  if method = [] ∨ path = [] then malformed
  else
    (parseHttpVersion buf₅).andThen fun minorVersion buf₆ =>
    (parseVersionEol buf₆).andThen fun _ buf₇ =>
    (parseHeaders maxHeaders buf₇).map fun headers =>
      ⟨method, path, minorVersion, headers⟩

/-- `phr_parse_request` with `last_len = 0`.  On success the value it returns is
    `buf.length - rest.length`, the number of bytes consumed. -/
def phrParseRequest (maxHeaders : Option Nat) (buf : Bytes) : PhrResult PhrRequest :=
  parseRequest maxHeaders buf

end CastlePlus
