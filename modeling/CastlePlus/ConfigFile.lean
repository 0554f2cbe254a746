import CastlePlus.RequestHead
import CastlePlus.TextFormat

/-! # The configuration files

    The services manifest (`parse_services_file`, `config/service_config.cpp`) and the routes file
    (`Router::load`, `http/router.cpp`).  The two parsers have one shape: `getline`, `trim`, blank
    and comment lines, `[section]` headers that open a new record, and `key = value` lines for the
    last one; they differ in their keys and in the checks at the end.

    A parser returns its result and what it leaves in its two reference parameters. -/

namespace CastlePlus

open TextFormat

/-- The characters `trim` takes off. -/
def isTrimChar (c : UInt8) : Bool := c = 0x20 || c = 0x09 || c = 0x0d || c = 0x0a

/-- `trim`. -/
def trim (s : Bytes) : Bytes := strip isTrimChar s

/-- `isspace` in the C locale. -/
def isSpace (c : UInt8) : Bool := c = 0x20 || (0x09 ≤ c && c ≤ 0x0d)

/-- `strtol` in base 10: leading white space, a sign, and as many digits as there are, with the
    value clipped to `long`.  Without a digit it is 0. -/
def strtol (v : Bytes) : Int :=
  match v.dropWhile isSpace with
  | 0x2d :: ds => max (-(decimalValue (ds.takeWhile isDigit) : Int)) (-(longMax : Int) - 1)
  | 0x2b :: ds => min (decimalValue (ds.takeWhile isDigit) : Int) longMax
  | ds => min (decimalValue (ds.takeWhile isDigit) : Int) longMax

/-- `std::to_string` of a natural number. -/
def natText (n : Nat) : Bytes := ascii (toString n)

/-! ## The common loop -/

section Ini

variable {α : Type} (mk : Bytes → α) (setKey : α → Bytes → Bytes → Except Bytes α)

/-- One line.  `cur` of the source is the last record. -/
def parseLine (result : List α) (line : Bytes) : Except Bytes (List α) :=
  let t := trim line
  if t = [] ∨ t.head? = some 0x23 ∨ t.head? = some 0x3b then .ok result
  else if t.head? = some 0x5b then
    if t.getLast? ≠ some 0x5d then .error (ascii "malformed section header")
    else
      let name := trim ((t.drop 1).take (t.length - 2))
      if name = [] then .error (ascii "empty section name") else .ok (result ++ [mk name])
  else
    match splitFirst 0x3d t with
    | none => .error (ascii "expected 'key = value'")
    | some (key, val) =>
        match result.getLast? with
        | none => .error (ascii "key outside of any [section]")
        | some cur =>
            match setKey cur (trim key) (trim val) with
            | .ok cur => .ok (result.dropLast ++ [cur])
            | .error msg => .error msg

/-- The `getline` loop; an error comes with the number of its line. -/
def parseLines : Nat → List α → List Bytes → Except (Nat × Bytes) (List α)
  | _, result, [] => .ok result
  | lineno, result, line :: rest =>
      match parseLine mk setKey result line with
      | .ok result => parseLines (lineno + 1) result rest
      | .error msg => .error (lineno + 1, msg)

end Ini

/-- The lambda `fail`. -/
def failText (path : Bytes) (lineno : Nat) (msg : Bytes) : Bytes :=
  path ++ ascii ":" ++ natText lineno ++ ascii ": " ++ msg

/-- A parser: `parse` for the lines, `check` for the records at the end. -/
def loadFile {α : Type} (cannotOpen : Bytes) (parse : List Bytes → Except (Nat × Bytes) (List α))
    (check : α → Option Bytes) (path : Bytes) (file : Option Bytes) (out : List α) (err : Bytes) :
    Bool × List α × Bytes :=
  match file with
  | none => (false, out, cannotOpen ++ path)
  | some text =>
      match parse (lines 0x0a text) with
      | .error (lineno, msg) => (false, out, failText path lineno msg)
      | .ok result =>
          match result.findSome? check with
          | some msg => (false, out, msg)
          | none => (true, result, err)

/-! ## `parse_services_file` -/

/-- `struct ServiceConfig`, all of it.  `int` has 32 bits. -/
structure ServiceEntry where
  name : Bytes
  exec : Bytes := []
  args : List Bytes := []
  workdir : Bytes := []
  autorestart : Bool := true
  healthHost : Bytes := []
  healthPort : UInt16 := 0
  healthIntervalSec : Int32 := 5
  backoffMinSec : Int32 := 1
  backoffMaxSec : Int32 := 30
  deriving DecidableEq

/-- `parse_bool`. -/
def parseBool (v : Bytes) : Option Bool :=
  let s := v.map toLower
  if s = ascii "true" ∨ s = ascii "1" ∨ s = ascii "yes" ∨ s = ascii "on" then some true
  else if s = ascii "false" ∨ s = ascii "0" ∨ s = ascii "no" ∨ s = ascii "off" then some false
  else none

/-- The locals of `split_args`. -/
structure ArgScan where
  out : List Bytes := []
  cur : Bytes := []
  inQuotes : Bool := false
  have_ : Bool := false

/-- One turn of its loop. -/
def ArgScan.next (s : ArgScan) (c : UInt8) : ArgScan :=
  if c = 0x22 then { s with inQuotes := !s.inQuotes, have_ := true }
  else if !s.inQuotes && (c = 0x20 || c = 0x09) then
    if s.have_ then { s with out := s.out ++ [s.cur], cur := [], have_ := false } else s
  else { s with cur := s.cur ++ [c], have_ := true }

/-- The push after the loop. -/
def ArgScan.finish (s : ArgScan) : List Bytes := if s.have_ then s.out ++ [s.cur] else s.out

/-- `split_args`. -/
def splitArgs (v : Bytes) : List Bytes := (v.foldl ArgScan.next {}).finish

/-- `host:port` with a port between 1 and 65535, cut at the last colon; `name` is the key in the
    messages. -/
def parseHostPort (name : String) (val : Bytes) : Except Bytes (Bytes × UInt16) :=
  match splitLast 0x3a val with
  | none => .error (ascii (name ++ " must be host:port"))
  | some (host, port) =>
      let p := strtol port
      if p ≤ 0 ∨ 65535 < p then .error (ascii (name ++ " port out of range"))
      else .ok (trim host, p.toNat.toUInt16)

/-- The keys of the manifest. -/
def setServiceKey (cur : ServiceEntry) (key val : Bytes) : Except Bytes ServiceEntry :=
  if key = ascii "exec" then .ok { cur with exec := val }
  else if key = ascii "args" then .ok { cur with args := splitArgs val }
  else if key = ascii "workdir" then .ok { cur with workdir := val }
  else if key = ascii "autorestart" then
    match parseBool val with
    | some b => .ok { cur with autorestart := b }
    | none => .error (ascii "autorestart must be true/false")
  else if key = ascii "health_tcp" then
    match parseHostPort "health_tcp" val with
    | .ok (host, port) => .ok { cur with healthHost := host, healthPort := port }
    | .error msg => .error msg
  else if key = ascii "health_interval" then
    .ok { cur with healthIntervalSec := Int32.ofInt (strtol val) }
  else if key = ascii "backoff_min" then
    .ok { cur with backoffMinSec := Int32.ofInt (strtol val) }
  else if key = ascii "backoff_max" then
    .ok { cur with backoffMaxSec := Int32.ofInt (strtol val) }
  else .error (ascii "unknown key '" ++ key ++ ascii "'")

section

variable (cur : ServiceEntry) (val : Bytes)

theorem setServiceKey_exec : setServiceKey cur (ascii "exec") val = .ok { cur with exec := val } :=
  rfl

theorem setServiceKey_args :
    setServiceKey cur (ascii "args") val = .ok { cur with args := splitArgs val } := rfl

theorem setServiceKey_workdir :
    setServiceKey cur (ascii "workdir") val = .ok { cur with workdir := val } := rfl

theorem setServiceKey_autorestart {b : Bool} (h : parseBool val = some b) :
    setServiceKey cur (ascii "autorestart") val = .ok { cur with autorestart := b } := by
  rw [setServiceKey, if_neg (by decide), if_neg (by decide), if_neg (by decide), if_pos rfl, h]

theorem setServiceKey_healthTcp {host : Bytes} {port : UInt16}
    (h : parseHostPort "health_tcp" val = .ok (host, port)) :
    setServiceKey cur (ascii "health_tcp") val =
      .ok { cur with healthHost := host, healthPort := port } := by
  rw [setServiceKey, if_neg (by decide), if_neg (by decide), if_neg (by decide),
    if_neg (by decide), if_pos rfl, h]

theorem setServiceKey_healthTcp_error {msg : Bytes}
    (h : parseHostPort "health_tcp" val = .error msg) :
    setServiceKey cur (ascii "health_tcp") val = .error msg := by
  rw [setServiceKey, if_neg (by decide), if_neg (by decide), if_neg (by decide),
    if_neg (by decide), if_pos rfl, h]

theorem setServiceKey_healthInterval : setServiceKey cur (ascii "health_interval") val =
    .ok { cur with healthIntervalSec := Int32.ofInt (strtol val) } := rfl

theorem setServiceKey_backoffMin : setServiceKey cur (ascii "backoff_min") val =
    .ok { cur with backoffMinSec := Int32.ofInt (strtol val) } := rfl

theorem setServiceKey_backoffMax : setServiceKey cur (ascii "backoff_max") val =
    .ok { cur with backoffMaxSec := Int32.ofInt (strtol val) } := rfl

end

/-- The check at the end. -/
def checkService (c : ServiceEntry) : Option Bytes :=
  if c.exec = [] then some (ascii "service '" ++ c.name ++ ascii "' is missing 'exec'")
  else if c.exec.head? ≠ some 0x2f then
    some (ascii "service '" ++ c.name ++ ascii "' exec must be an absolute path")
  else none

/-- `parse_services_file`. -/
def parseServicesFile (path : Bytes) (file : Option Bytes) (out : List ServiceEntry)
    (err : Bytes) : Bool × List ServiceEntry × Bytes :=
  loadFile (ascii "cannot open services manifest: ")
    (parseLines (fun name => { name }) setServiceKey 0 []) checkService path file out err

/-! ## `Router::load` -/

/-- The keys of the routes file. -/
def setRouteKey (cur : Route) (key val : Bytes) : Except Bytes Route :=
  if key = ascii "host" then .ok { cur with host := val.map toLower }
  else if key = ascii "path" then
    .ok (if val = [] then cur else { cur with pathPrefix := val })
  else if key = ascii "backend" then
    match parseHostPort "backend" val with
    | .ok (host, port) => .ok { cur with backend := ⟨host, port⟩ }
    | .error msg => .error msg
  else .error (ascii "unknown key '" ++ key ++ ascii "'")

/-- The check at the end. -/
def checkRoute (r : Route) : Option Bytes :=
  if r.backend.host = [] ∨ r.backend.port = 0 then
    some (ascii "route '" ++ r.name ++ ascii "' is missing a valid backend")
  else none

/-- `Router::load`; `out` is `routes_`. -/
def routerLoad (path : Bytes) (file : Option Bytes) (out : List Route) (err : Bytes) :
    Bool × List Route × Bytes :=
  loadFile (ascii "cannot open routes file: ")
    (parseLines (fun name => { name }) setRouteKey 0 []) checkRoute path file out err

end CastlePlus
