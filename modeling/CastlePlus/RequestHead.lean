import CastlePlus.PhrParser

/-! # The request head: routing and the rewritten head

    The pure part of `HttpConnection::process_head`
    (`src/http/http_connection.cpp`, lines 49–82 and 278–352) and the matcher of
    `src/http/router.cpp`.  Given the parsed head it decides between castle's own
    endpoints, an error reply and a head to forward; the connection then acts on
    that verdict. -/

namespace CastlePlus

/-- `std::tolower` in the C locale. -/
def toLower (c : UInt8) : UInt8 := if 0x41 ≤ c && c ≤ 0x5a then c + 0x20 else c

def isDigit (c : UInt8) : Bool := 0x30 ≤ c && c ≤ 0x39

/-- The number a digit string denotes. -/
def decimalValue (v : Bytes) : Nat := v.foldl (fun n c => n * 10 + (c.toNat - 0x30)) 0

/-- `iequals`: equal lengths, then byte by byte. -/
def iequals (a b : Bytes) : Bool :=
  a.length == b.length &&
    (List.zipWith (fun x y => toLower x == toLower y) a b).all id

/-- `kDrop` of `is_hop_by_hop`. -/
def kDrop : List Bytes :=
  [ascii "connection", ascii "keep-alive", ascii "proxy-connection",
   ascii "transfer-encoding", ascii "te", ascii "trailer", ascii "upgrade"]

/-- `is_hop_by_hop`. -/
def isHopByHop (name : Bytes) : Bool := kDrop.any (iequals name)

/-- What `parse_content_length` can do with a text.  `overflow` is a signed overflow
    of `long`, undefined behaviour in the source. -/
inductive ContentLength where
  | value (n : Nat)
  | invalid
  | overflow
  deriving DecidableEq

/-- `LONG_MAX` on x86-64 Linux. -/
def longMax : Nat := 2 ^ 63 - 1

/-- The digit loop of `parse_content_length`, with the multiplication and the addition
    both checked against `long`. -/
def parseContentLengthLoop : Nat → Bytes → ContentLength
  | n, [] => .value n
  | n, c :: cs =>
      if c < 0x30 || 0x39 < c then .invalid
      else if longMax < n * 10 ∨ longMax < n * 10 + (c.toNat - 0x30) then .overflow
      else parseContentLengthLoop (n * 10 + (c.toNat - 0x30)) cs

/-- `parse_content_length`. -/
def parseContentLength (v : Bytes) : ContentLength :=
  if v.length = 0 ∨ 18 < v.length then .invalid else parseContentLengthLoop 0 v

/-- `struct Backend` of router.h. -/
structure Backend where
  host : Bytes := []
  port : UInt16 := 0
  deriving DecidableEq

/-- `struct Route` of router.h. -/
structure Route where
  name : Bytes := []
  host : Bytes := []
  pathPrefix : Bytes := ascii "/"
  backend : Backend := {}
  deriving DecidableEq

/-- The host `Router::match` compares with: the `Host` text before its first colon,
    lower-cased. -/
def routeHost (host : Bytes) : Bytes := (host.takeWhile (· != 0x3a)).map toLower

/-- One turn of the loop in `Router::match`. -/
def matchStep (h path : Bytes) (best : Option Route) (r : Route) : Option Route :=
  if r.host ≠ [] ∧ r.host ≠ h then best
  else if ¬ r.pathPrefix <+: path then best
  else
    match best with
    | none => some r
    | some b =>
        if b.pathPrefix.length < r.pathPrefix.length ∨
            (r.pathPrefix.length = b.pathPrefix.length ∧ b.host = [] ∧ r.host ≠ [])
        then some r
        else some b

/-- `Router::match`. -/
def routerMatch (routes : List Route) (host path : Bytes) : Option Backend :=
  (routes.foldl (matchStep (routeHost host) path) none).map (·.backend)

/-- The arguments of `send_error`. -/
structure Reply where
  code : Nat
  status : Bytes
  body : Bytes
  deriving DecidableEq

/-- A reply built from the literals of the source. -/
def Reply.mk' (code : Nat) (status body : String) : Reply :=
  ⟨code, ascii status, ascii body⟩

/-- The locals of the header loop of `process_head`. -/
structure HeadScan where
  host : Bytes := []
  contentLength : Nat := 0
  sawContentLength : Bool := false
  chunked : Bool := false
  head : Bytes

/-- How the header loop leaves: at its end, with an early error reply, or with the
    undefined behaviour of `parse_content_length`. -/
inductive ScanResult where
  | scanned (acc : HeadScan)
  | reply (r : Reply)
  | overflow

/-- The `content-length` block of one turn of the header loop. -/
def scanContentLength (name value : Bytes) (acc : HeadScan) : ScanResult :=
  if iequals name (ascii "content-length") then
    if acc.sawContentLength then
      .reply (.mk' 400 "Bad Request" "duplicate content-length")
    else
      match parseContentLength value with
      | .value n => .scanned { acc with sawContentLength := true, contentLength := n }
      | .invalid => .reply (.mk' 400 "Bad Request" "invalid content-length")
      | .overflow => .overflow
  else .scanned acc

/-- `name: value` and the line end, as the loop appends it. -/
def headerLine (name value : Bytes) : Bytes := name ++ ascii ": " ++ value ++ ascii "\r\n"

/-- The header loop of `process_head`. -/
def scanHeaders : List PhrHeader → HeadScan → ScanResult
  | [], acc => .scanned acc
  | ⟨none, _⟩ :: hs, acc => scanHeaders hs acc      -- header continuation line
  | ⟨some name, value⟩ :: hs, acc =>
      let acc := if iequals name (ascii "host") then { acc with host := value } else acc
      match scanContentLength name value acc with
      | .reply r => .reply r
      | .overflow => .overflow
      | .scanned acc =>
          let acc :=
            if iequals name (ascii "transfer-encoding") then { acc with chunked := true }
            else acc
          if isHopByHop name then scanHeaders hs acc
          else scanHeaders hs { acc with head := acc.head ++ headerLine name value }

/-- `kInternalPrefix`. -/
def kInternalPrefix : Bytes := ascii "/_castle/"

/-- The rewritten request line. -/
def requestLine (method path : Bytes) : Bytes :=
  method ++ ascii " " ++ path ++ ascii " HTTP/1.1\r\n"

/-- What `process_head` does with a parsed head. -/
inductive HeadVerdict where
  /-- one of castle's own endpoints, the query cut off -/
  | handleInternal (method target : Bytes)
  | reply (r : Reply)
  /-- the rewritten head, the backend and `body_remaining_` -/
  | forward (head : Bytes) (target : Backend) (contentLength : Nat)
  | overflow
  deriving DecidableEq

/-- `process_head` from line 278 to the assignments of line 352. -/
def headVerdict (routes : List Route) (maxBody : Nat) (req : PhrRequest) : HeadVerdict :=
  if kInternalPrefix <+: req.path then
    .handleInternal req.method (req.path.takeWhile (· != 0x3f))
  else
    match scanHeaders req.headers { head := requestLine req.method req.path } with
    | .reply r => .reply r
    | .overflow => .overflow
    | .scanned acc =>
        if acc.chunked then
          .reply (.mk' 501 "Not Implemented" "chunked request body unsupported")
        else if maxBody ≠ 0 ∧ maxBody < acc.contentLength then
          .reply (.mk' 413 "Payload Too Large" "request body too large")
        else
          match routerMatch routes acc.host req.path with
          | none => .reply (.mk' 404 "Not Found" "no matching route")
          | some target =>
              .forward (acc.head ++ ascii "Connection: close\r\n\r\n") target
                acc.contentLength

end CastlePlus
