import CastlePlus.ConfigText

/-! # Numbers in the configuration files

    The header of `service_config.cpp` says that a typo fails loudly.  The numeric keys go through
    `strtol` without a look at where it stopped and are then cast, so a value with junk after its
    digits, without a digit, or out of range is accepted.  For the accepted files of both parsers,
    the numbers are strict exactly when no value is of that kind
    (**`strict_numbers_iff`**). -/

namespace CastlePlus

open TextFormat

/-! ## The sections of a file -/

/-- A section as it stands in the file. -/
structure IniSection where
  name : Bytes
  entries : List (Bytes × Bytes) := []
  deriving DecidableEq

/-- An entry is only noted. -/
def IniSection.note (s : IniSection) (key val : Bytes) : Except Bytes IniSection :=
  .ok { s with entries := s.entries ++ [(key, val)] }

/-- The sections of a file: the common loop, with no key interpreted. -/
def sections (text : Bytes) : Except (Nat × Bytes) (List IniSection) :=
  parseLines (fun name => { name }) IniSection.note 0 [] (lines 0x0a text)

section Interpretation

variable {α : Type} (mk : Bytes → α) (setKey : α → Bytes → Bytes → Except Bytes α)

/-- A record after some entries. -/
def setKeys (cur : α) (entries : List (Bytes × Bytes)) : Except Bytes α :=
  entries.foldlM (fun cur e => setKey cur e.1 e.2) cur

/-- The record of a section. -/
def IniSection.interpret (s : IniSection) : Except Bytes α := setKeys setKey (mk s.name) s.entries

variable {mk setKey}

theorem setKeys_append {cur : α} {pre post : List (Bytes × Bytes)} :
    setKeys setKey cur (pre ++ post) =
      (setKeys setKey cur pre).bind fun mid => setKeys setKey mid post := by
  rw [setKeys, List.foldlM_append]
  rfl

/-- One line: the sections keep up with the records. -/
theorem parseLine_sections {secs : List IniSection} {result result' : List α} {line : Bytes}
    (hsim : secs.map (IniSection.interpret mk setKey) = result.map .ok)
    (h : parseLine mk setKey result line = .ok result') :
    ∃ secs', parseLine (fun name => { name }) IniSection.note secs line = .ok secs' ∧
      secs'.map (IniSection.interpret mk setKey) = result'.map .ok := by
  rcases parseLine_ok h with ⟨hread, rfl⟩ | ⟨name, hread, rfl⟩ |
    ⟨key, val, cur, next, hread, hcur, hset, rfl⟩
  · exact ⟨secs, by rw [parseLine_eq, hread]; rfl, hsim⟩
  · refine ⟨_, by rw [parseLine_eq, hread]; rfl, ?_⟩
    rw [List.map_append, List.map_append, hsim]
    rfl
  · have hlast := congrArg List.getLast? hsim
    rw [List.getLast?_map, List.getLast?_map, hcur, Option.map_some,
      Option.map_eq_some_iff] at hlast
    obtain ⟨sec, hsec, hint⟩ := hlast
    have hline : parseLine (fun name => { name }) IniSection.note secs line =
        .ok (secs.dropLast ++ [{ sec with entries := sec.entries ++ [(key, val)] }]) := by
      rw [parseLine_eq, hread]
      simp only [Except.bind, Option.elim_some, applyItem, hsec, IniSection.note]
    -- the entry is noted, and the record is set accordingly
    have hnext : IniSection.interpret mk setKey
        { sec with entries := sec.entries ++ [(key, val)] } = .ok next := by
      rw [IniSection.interpret] at hint
      rw [IniSection.interpret, setKeys_append, hint]
      show setKeys setKey cur [(key, val)] = .ok next
      rw [setKeys, List.foldlM_cons, hset]
      rfl
    refine ⟨_, hline, ?_⟩
    rw [List.map_append, List.map_append, List.map_dropLast, List.map_dropLast, hsim,
      List.map_singleton, List.map_singleton, hnext]

/-- The whole loop. -/
theorem parseLines_sections {ls : List Bytes} :
    ∀ {secs : List IniSection} {result result' : List α} {lineno : Nat},
      secs.map (IniSection.interpret mk setKey) = result.map .ok →
      parseLines mk setKey lineno result ls = .ok result' →
      ∃ secs', parseLines (fun name => { name }) IniSection.note lineno secs ls = .ok secs' ∧
        secs'.map (IniSection.interpret mk setKey) = result'.map .ok := by
  induction ls with
  | nil =>
      intro secs result result' lineno hsim h
      cases h
      exact ⟨secs, rfl, hsim⟩
  | cons line ls ih =>
      intro secs result result' lineno hsim h
      rw [parseLines] at h
      cases hline : parseLine mk setKey result line with
      | error msg =>
          rw [hline] at h
          cases h
      | ok next =>
          rw [hline] at h
          obtain ⟨secs', hsecs, hsim'⟩ := parseLine_sections hsim hline
          obtain ⟨final, hfinal, hmap⟩ := ih hsim' h
          refine ⟨final, ?_, hmap⟩
          rw [parseLines, hsecs]
          exact hfinal

end Interpretation

/-! ## Numeric keys -/

/-- A key with a number: where the number stands in the value, the field it goes to, and whether
    the number is cast to `int`. -/
structure NumberKey (α : Type) where
  key : Bytes
  text : Bytes → Option Bytes
  field : α → Int
  cast : Bool

/-- The port of `host:port`. -/
def portText (val : Bytes) : Option Bytes := (splitLast 0x3a val).map fun hp => trim hp.2

def serviceNumbers : List (NumberKey ServiceEntry) :=
  [⟨ascii "health_tcp", portText, fun c => c.healthPort.toNat, false⟩,
    ⟨ascii "health_interval", some, fun c => c.healthIntervalSec.toInt, true⟩,
    ⟨ascii "backoff_min", some, fun c => c.backoffMinSec.toInt, true⟩,
    ⟨ascii "backoff_max", some, fun c => c.backoffMaxSec.toInt, true⟩]

def routeNumbers : List (NumberKey Route) :=
  [⟨ascii "backend", portText, fun r => r.backend.port.toNat, false⟩]

/-- The kinds of value that nothing in the parsers looks for: a text that is not an integer from end
    to end, and for the keys cast to `int` an integer that does not fit. -/
def NumberKey.Loose {α : Type} (k : NumberKey α) (t : Bytes) : Prop :=
  decimalText t = none ∨ k.cast = true ∧ ∃ z, decimalText t = some z ∧ ¬(-2 ^ 31 ≤ z ∧ z < 2 ^ 31)

section Strict

variable {α : Type} (mk : Bytes → α) (setKey : α → Bytes → Bytes → Except Bytes α)

/-- The numbers of a section are strict: each is an integer from end to end, its line stores that
    integer, and the record has it unless a later line of the section gives the key again. -/
def StrictSection (numbers : List (NumberKey α)) (s : IniSection) (r : α) : Prop :=
  ∀ k ∈ numbers, ∀ pre val post, s.entries = pre ++ (k.key, val) :: post →
    ∀ t, k.text val = some t → ∃ z, decimalText t = some z ∧
      (∀ cur, setKeys setKey (mk s.name) (pre ++ [(k.key, val)]) = .ok cur → k.field cur = z) ∧
      ((∀ e ∈ post, e.1 ≠ k.key) → k.field r = z)

/-- No number of a section is loose. -/
def TidySection (numbers : List (NumberKey α)) (s : IniSection) : Prop :=
  ∀ k ∈ numbers, ∀ e ∈ s.entries, e.1 = k.key → ∀ t, k.text e.2 = some t → ¬k.Loose t

/-- What `strtol` and the casts make of the numeric keys of a parser. -/
structure ReadsNumber (k : NumberKey α) : Prop where
  /-- The field is the number exactly when the text is not loose. -/
  stored : ∀ {cur cur' : α} {val t : Bytes}, setKey cur k.key val = .ok cur' →
    k.text val = some t → (decimalText t = some (k.field cur') ↔ ¬k.Loose t)
  /-- Other keys leave the field alone. -/
  frame : ∀ {cur cur' : α} {key val : Bytes}, setKey cur key val = .ok cur' → key ≠ k.key →
    k.field cur' = k.field cur

variable {mk setKey}

theorem field_setKeys {k : NumberKey α} (hk : ReadsNumber setKey k) {cur r : α}
    {post : List (Bytes × Bytes)} (h : setKeys setKey cur post = .ok r)
    (hpost : ∀ e ∈ post, e.1 ≠ k.key) : k.field r = k.field cur := by
  induction post generalizing cur with
  | nil => cases h; rfl
  | cons e post ih =>
      rw [setKeys, List.foldlM_cons] at h
      cases hset : setKey cur e.1 e.2 with
      | error msg =>
          rw [hset] at h
          cases h
      | ok next =>
          rw [hset] at h
          have hnext := hk.frame hset (hpost e List.mem_cons_self)
          rw [← hnext]
          exact ih h fun e' he' => hpost e' (List.mem_cons_of_mem _ he')

/-- A section whose record was built: strict exactly when tidy. -/
theorem strictSection_iff {numbers : List (NumberKey α)}
    (hk : ∀ k ∈ numbers, ReadsNumber setKey k) {s : IniSection} {r : α}
    (hint : s.interpret mk setKey = .ok r) :
    StrictSection mk setKey numbers s r ↔ TidySection numbers s := by
  -- the record before a line of the section, with it, and behind it
  have hcut : ∀ pre key val post, s.entries = pre ++ (key, val) :: post →
      ∃ before cur, setKeys setKey (mk s.name) pre = .ok before ∧
        setKey before key val = .ok cur ∧
        setKeys setKey (mk s.name) (pre ++ [(key, val)]) = .ok cur ∧
        setKeys setKey cur post = .ok r := by
    intro pre key val post hs
    rw [IniSection.interpret, hs, setKeys_append] at hint
    cases hpre : setKeys setKey (mk s.name) pre with
    | error msg =>
        rw [hpre] at hint
        cases hint
    | ok before =>
        rw [hpre] at hint
        replace hint : setKeys setKey before ((key, val) :: post) = .ok r := hint
        rw [setKeys, List.foldlM_cons] at hint
        cases hset : setKey before key val with
        | error msg =>
            simp only [hset] at hint
            cases hint
        | ok cur =>
            simp only [hset] at hint
            refine ⟨before, cur, rfl, hset, ?_, hint⟩
            rw [setKeys_append, hpre]
            show setKeys setKey before [(key, val)] = .ok cur
            rw [setKeys, List.foldlM_cons, hset]
            rfl
  constructor
  · intro hstrict k hmem e he hkey t ht
    obtain ⟨pre, post, hs⟩ := List.append_of_mem he
    have hs' : s.entries = pre ++ (k.key, e.2) :: post := by rw [hs, ← hkey]
    obtain ⟨before, cur, hpre, hset, hcur, hpost⟩ := hcut _ _ _ _ hs'
    obtain ⟨z, hz, hline, -⟩ := hstrict k hmem pre e.2 post hs' t ht
    refine ((hk k hmem).stored hset ht).mp ?_
    rw [hline cur hcur]
    exact hz
  · intro htidy k hmem pre val post hs t ht
    obtain ⟨before, cur, hpre, hset, hcur, hpost⟩ := hcut _ _ _ _ hs
    have hin : (k.key, val) ∈ s.entries := by
      rw [hs]
      exact List.mem_append_right _ List.mem_cons_self
    have hloose := htidy k hmem _ hin rfl t ht
    refine ⟨k.field cur, ((hk k hmem).stored hset ht).mpr hloose, ?_, ?_⟩
    · intro cur' hcur'
      rw [hcur] at hcur'
      cases hcur'
      rfl
    · exact fun hlater => field_setKeys (hk k hmem) hpost hlater

end Strict

/-! ## The keys of the two parsers -/

theorem int_stored {α : Type} {k : NumberKey α} (hcast : k.cast = true) (val : Bytes) :
    decimalText val = some (Int32.ofInt (strtol val)).toInt ↔ ¬k.Loose val := by
  have hlong : (2 ^ 31 : Int) ≤ longMax := by decide
  constructor
  · rintro h (hnone | ⟨-, z, hz, hrange⟩)
    · rw [hnone] at h
      cases h
    · rw [h] at hz
      cases hz
      exact hrange ⟨Int32.le_toInt _, Int32.toInt_lt _⟩
  · intro hloose
    cases hz : decimalText val with
    | none => exact absurd (.inl hz) hloose
    | some z =>
        have hrange : -2 ^ 31 ≤ z ∧ z < 2 ^ 31 := by
          by_contra hout
          exact hloose (.inr ⟨hcast, z, hz, hout⟩)
        obtain ⟨hlo, hhi⟩ := hrange
        rw [strtol_of_decimalText hz, min_eq_left (by omega), max_eq_left (by omega),
          Int32.toInt_ofInt_of_le hlo hhi]

theorem port_stored {α : Type} {k : NumberKey α} (hcast : k.cast = false) {name : String}
    {val t host : Bytes} {port : UInt16} (h : parseHostPort name val = .ok (host, port))
    (ht : portText val = some t) : decimalText t = some (port.toNat : Int) ↔ ¬k.Loose t := by
  rw [parseHostPort] at h
  obtain ⟨⟨host', text⟩, hsplit, rfl⟩ := Option.map_eq_some_iff.mp ht
  simp only [hsplit] at h
  split_ifs at h with hrange
  cases h
  rw [not_or, not_le, not_lt] at hrange
  obtain ⟨a, b, htext, ha, hb, -⟩ := strip_spec isTrimChar text
  constructor
  · rintro hz (hnone | ⟨hc, -⟩)
    · rw [hnone] at hz
      cases hz
    · rw [hcast] at hc
      cases hc
  · intro hloose
    cases hz : decimalText (trim text) with
    | none => exact absurd (.inl hz) hloose
    | some z =>
        have hval : strtol text = max (min z longMax) (-(longMax : Int) - 1) := by
          rw [htext]
          exact strtol_decimalText hz ha hb
        have hlong : (65535 : Int) < longMax := by decide
        have heq : strtol text = z := by omega
        have hport : (strtol text).toNat.toUInt16.toNat = (strtol text).toNat := by
          rw [Nat.toUInt16_eq, UInt16.toNat_ofNat', Nat.mod_eq_of_lt (by omega)]
        rw [hport, Int.toNat_of_nonneg (by omega), heq]

/-- The fields that a key leaves alone. -/
theorem setServiceKey_frame {cur cur' : ServiceEntry} {key val : Bytes}
    (h : setServiceKey cur key val = .ok cur') :
    cur'.name = cur.name ∧
    (key ≠ ascii "health_tcp" → cur'.healthPort = cur.healthPort) ∧
    (key ≠ ascii "health_interval" → cur'.healthIntervalSec = cur.healthIntervalSec) ∧
    (key ≠ ascii "backoff_min" → cur'.backoffMinSec = cur.backoffMinSec) ∧
    (key ≠ ascii "backoff_max" → cur'.backoffMaxSec = cur.backoffMaxSec) := by
  rw [setServiceKey] at h
  split_ifs at h with h1 h2 h3 h4 h5 h6 h7 h8
  · cases h; exact ⟨rfl, fun _ => rfl, fun _ => rfl, fun _ => rfl, fun _ => rfl⟩
  · cases h; exact ⟨rfl, fun _ => rfl, fun _ => rfl, fun _ => rfl, fun _ => rfl⟩
  · cases h; exact ⟨rfl, fun _ => rfl, fun _ => rfl, fun _ => rfl, fun _ => rfl⟩
  · cases hb : parseBool val with
    | none => rw [hb] at h; cases h
    | some b =>
        rw [hb] at h
        cases h
        exact ⟨rfl, fun _ => rfl, fun _ => rfl, fun _ => rfl, fun _ => rfl⟩
  · cases hp : parseHostPort "health_tcp" val with
    | error msg => rw [hp] at h; cases h
    | ok hostPort =>
        rw [hp] at h
        cases h
        exact ⟨rfl, fun hne => absurd h5 hne, fun _ => rfl, fun _ => rfl, fun _ => rfl⟩
  · cases h; exact ⟨rfl, fun _ => rfl, fun hne => absurd h6 hne, fun _ => rfl, fun _ => rfl⟩
  · cases h; exact ⟨rfl, fun _ => rfl, fun _ => rfl, fun hne => absurd h7 hne, fun _ => rfl⟩
  · cases h; exact ⟨rfl, fun _ => rfl, fun _ => rfl, fun _ => rfl, fun hne => absurd h8 hne⟩

theorem serviceNumbers_read : ∀ k ∈ serviceNumbers, ReadsNumber setServiceKey k := by
  intro k hk
  simp only [serviceNumbers, List.mem_cons, List.not_mem_nil, or_false] at hk
  rcases hk with rfl | rfl | rfl | rfl
  · refine ⟨fun {cur cur' val t} h ht => ?_, fun h hne => ?_⟩
    · replace h : setServiceKey cur (ascii "health_tcp") val = .ok cur' := h
      cases hp : parseHostPort "health_tcp" val with
      | error msg =>
          rw [setServiceKey_healthTcp_error cur val hp] at h
          cases h
      | ok hostPort =>
          rw [setServiceKey_healthTcp cur val hp] at h
          cases h
          exact port_stored rfl hp ht
    · exact congrArg (fun p : UInt16 => (p.toNat : Int)) ((setServiceKey_frame h).2.1 hne)
  · refine ⟨fun {cur cur' val t} h ht => ?_, fun h hne => ?_⟩
    · cases h
      cases ht
      exact int_stored rfl val
    · exact congrArg Int32.toInt ((setServiceKey_frame h).2.2.1 hne)
  · refine ⟨fun {cur cur' val t} h ht => ?_, fun h hne => ?_⟩
    · cases h
      cases ht
      exact int_stored rfl val
    · exact congrArg Int32.toInt ((setServiceKey_frame h).2.2.2.1 hne)
  · refine ⟨fun {cur cur' val t} h ht => ?_, fun h hne => ?_⟩
    · cases h
      cases ht
      exact int_stored rfl val
    · exact congrArg Int32.toInt ((setServiceKey_frame h).2.2.2.2 hne)

theorem routeNumbers_read : ∀ k ∈ routeNumbers, ReadsNumber setRouteKey k := by
  intro k hk
  rw [List.mem_singleton.mp hk]
  refine ⟨fun {cur cur' val t} h ht => ?_, fun {cur cur' key val} h hne => ?_⟩
  · replace h : setRouteKey cur (ascii "backend") val = .ok cur' := h
    rw [setRouteKey, if_neg (by decide), if_neg (by decide), if_pos rfl] at h
    cases hp : parseHostPort "backend" val with
    | error msg =>
        rw [hp] at h
        cases h
    | ok hostPort =>
        rw [hp] at h
        cases h
        exact port_stored rfl hp ht
  · rw [setRouteKey] at h
    split_ifs at h
    · cases h; rfl
    · cases h; rfl
    · cases h; rfl

/-! ## The files -/

/-- The numbers of an accepted file are strict; `result` are its records. -/
def StrictFile {α : Type} (mk : Bytes → α) (setKey : α → Bytes → Bytes → Except Bytes α)
    (numbers : List (NumberKey α)) (text : Bytes) (result : List α) : Prop :=
  ∃ secs, sections text = .ok secs ∧ secs.length = result.length ∧
    ∀ sr ∈ secs.zip result, StrictSection mk setKey numbers sr.1 sr.2

/-- No value of a file is loose. -/
def TidyFile {α : Type} (numbers : List (NumberKey α)) (text : Bytes) : Prop :=
  ∃ secs, sections text = .ok secs ∧ ∀ s ∈ secs, TidySection numbers s

def StrictServices (text : Bytes) (result : List ServiceEntry) : Prop :=
  StrictFile (fun name => { name }) setServiceKey serviceNumbers text result

def StrictRoutes (text : Bytes) (result : List Route) : Prop :=
  StrictFile (fun name => { name }) setRouteKey routeNumbers text result

theorem loadFile_accepts {α : Type} {cannotOpen : Bytes}
    {parse : List Bytes → Except (Nat × Bytes) (List α)} {check : α → Option Bytes}
    {path text err err' : Bytes} {out result : List α}
    (h : loadFile cannotOpen parse check path (some text) out err = (true, result, err')) :
    parse (lines 0x0a text) = .ok result ∧ ∀ r ∈ result, check r = none := by
  simp only [loadFile] at h
  cases hparse : parse (lines 0x0a text) with
  | error e =>
      rw [hparse] at h
      cases h
  | ok res =>
      rw [hparse] at h
      simp only at h
      cases hcheck : res.findSome? check with
      | some msg =>
          rw [hcheck] at h
          cases h
      | none =>
          rw [hcheck] at h
          cases h
          exact ⟨rfl, List.findSome?_eq_none_iff.mp hcheck⟩

theorem strictFile_iff {α : Type} {mk : Bytes → α}
    {setKey : α → Bytes → Bytes → Except Bytes α} {numbers : List (NumberKey α)}
    (hk : ∀ k ∈ numbers, ReadsNumber setKey k) {text : Bytes} {result : List α}
    (h : parseLines mk setKey 0 [] (lines 0x0a text) = .ok result) :
    StrictFile mk setKey numbers text result ↔ TidyFile numbers text := by
  have hnone : ([] : List IniSection).map (IniSection.interpret mk setKey) =
      ([] : List α).map Except.ok := rfl
  obtain ⟨secs, hsecs, hsim⟩ := parseLines_sections hnone h
  replace hsecs : sections text = .ok secs := hsecs
  have hlen : secs.length = result.length := by
    have := congrArg List.length hsim
    rwa [List.length_map, List.length_map] at this
  have hzip : ∀ sr ∈ secs.zip result, sr.1.interpret mk setKey = .ok sr.2 := by
    intro sr hsr
    obtain ⟨i, hi, rfl⟩ := List.mem_iff_getElem.mp hsr
    rw [List.getElem_zip]
    have := List.getElem_of_eq hsim (i := i) (by simp at hi ⊢; omega)
    simpa using this
  constructor
  · rintro ⟨secs', hsecs', -, hstrict⟩
    rw [hsecs] at hsecs'
    cases hsecs'
    refine ⟨secs, hsecs, fun s hs => ?_⟩
    obtain ⟨i, hi, rfl⟩ := List.mem_iff_getElem.mp hs
    have hmem : (secs[i], result[i]) ∈ secs.zip result := by
      rw [← List.getElem_zip (h := by simp; omega)]
      exact List.getElem_mem _
    exact (strictSection_iff hk (hzip _ hmem)).mp (hstrict _ hmem)
  · rintro ⟨secs', hsecs', htidy⟩
    rw [hsecs] at hsecs'
    cases hsecs'
    refine ⟨secs, hsecs, hlen, fun sr hsr => ?_⟩
    exact (strictSection_iff hk (hzip _ hsr)).mpr (htidy _ (List.of_mem_zip hsr).1)

/-- **Strict numbers.**  The numbers of an accepted manifest, and of an accepted routes file, are
    strict exactly when none of its values is loose. -/
theorem strict_numbers_iff (path text err err' : Bytes) :
    (∀ out result, parseServicesFile path (some text) out err = (true, result, err') →
      (StrictServices text result ↔ TidyFile serviceNumbers text)) ∧
    (∀ out result, routerLoad path (some text) out err = (true, result, err') →
      (StrictRoutes text result ↔ TidyFile routeNumbers text)) :=
  ⟨fun _ _ h => strictFile_iff serviceNumbers_read (loadFile_accepts h).1,
    fun _ _ h => strictFile_iff routeNumbers_read (loadFile_accepts h).1⟩

/-- A manifest with one number, of text `t`. -/
def backoffManifest (t : String) : Bytes := ascii ("[a]\nexec = /a\nbackoff_min = " ++ t ++ "\n")

theorem sections_backoffManifest : sections (backoffManifest "5") =
    .ok [⟨ascii "a", [(ascii "exec", ascii "/a"), (ascii "backoff_min", ascii "5")]⟩] := by
  rfl

theorem strict_numbers_iff_five :
    StrictServices (backoffManifest "5")
        [{ name := ascii "a", exec := ascii "/a", backoffMinSec := 5 }] ∧
      (StrictRoutes (ascii "[r]\nbackend = h:80\n")
          [{ name := ascii "r", backend := ⟨ascii "h", 80⟩ }] ↔
        TidyFile routeNumbers (ascii "[r]\nbackend = h:80\n")) := by
  have htidy : TidyFile serviceNumbers (backoffManifest "5") := by
    refine ⟨_, sections_backoffManifest, fun s hs k hk e he hkey t ht => ?_⟩
    rw [List.mem_singleton.mp hs] at he
    simp only [serviceNumbers, List.mem_cons, List.not_mem_nil, or_false] at hk he
    have hfive : decimalText (ascii "5") = some 5 := by decide
    rcases hk with rfl | rfl | rfl | rfl <;> rcases he with rfl | rfl
    all_goals first
      | exact absurd hkey (by decide)
      | cases ht
        rintro (hnone | ⟨-, z, hz, hrange⟩)
        · rw [hfive] at hnone
          cases hnone
        · rw [hfive] at hz
          cases hz
          exact hrange (by decide)
  exact ⟨((strict_numbers_iff (ascii "m") _ [] []).1 [] _ (by decide)).mpr htidy,
    (strict_numbers_iff (ascii "r") _ [] []).2 [] _ (by decide)⟩

/-- A typo in a number: the manifest is accepted, and the service gets 5 seconds. -/
theorem typo_accepted :
    parseServicesFile (ascii "m") (some (backoffManifest "5x")) [] [] =
        (true, [{ name := ascii "a", exec := ascii "/a", backoffMinSec := 5 }], []) ∧
      ¬StrictServices (backoffManifest "5x")
        [{ name := ascii "a", exec := ascii "/a", backoffMinSec := 5 }] := by
  refine ⟨by decide, ?_⟩
  rintro ⟨secs, hsecs, -, hstrict⟩
  have hread : sections (backoffManifest "5x") =
      .ok [⟨ascii "a", [(ascii "exec", ascii "/a"), (ascii "backoff_min", ascii "5x")]⟩] := rfl
  rw [hread] at hsecs
  cases hsecs
  obtain ⟨z, hz, -⟩ := hstrict _ List.mem_cons_self
    ⟨ascii "backoff_min", some, fun c => c.backoffMinSec.toInt, true⟩ (by simp [serviceNumbers])
    [(ascii "exec", ascii "/a")] (ascii "5x") [] rfl (ascii "5x") rfl
  have hjunk : decimalText (ascii "5x") = none := by decide
  rw [hjunk] at hz
  cases hz

end CastlePlus
