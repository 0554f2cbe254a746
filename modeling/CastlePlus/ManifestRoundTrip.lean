import CastlePlus.ConfigText

/-! # The manifest is read back

    A list of services written in the format that `service_config.h` documents, with blanks, blank
    lines and comments anywhere, is what `parse_services_file` returns
    (**`manifest_round_trip`**). -/

namespace CastlePlus

open TextFormat

/-- What the format can hold. -/
structure ServiceEntry.WellFormed (e : ServiceEntry) : Prop where
  named : e.name ≠ []
  name : Plain e.name
  exec : Plain e.exec
  absolute : e.exec.head? = some 0x2f
  workdir : Plain e.workdir
  healthHost : Plain e.healthHost
  unchecked : e.healthPort = 0 → e.healthHost = []
  quotable : ∀ a ∈ e.args, 0x22 ∉ a
  oneLine : ∀ a ∈ e.args, 0x0a ∉ a

def boolText (b : Bool) : Bytes := if b then ascii "true" else ascii "false"

/-- `host:port`. -/
def hostPortText (host : Bytes) (port : UInt16) : Bytes := host ++ 0x3a :: natText port.toNat

/-- The keys of a section in the documented order; `v` is the text of the arguments. -/
def entryFields (e : ServiceEntry) (v : Bytes) : List (Bytes × Bytes) :=
  [(ascii "exec", e.exec), (ascii "args", v), (ascii "workdir", e.workdir),
    (ascii "autorestart", boolText e.autorestart)] ++
  ((if e.healthPort = 0 then []
    else [(ascii "health_tcp", hostPortText e.healthHost e.healthPort)]) ++
  [(ascii "health_interval", intText e.healthIntervalSec.toInt),
    (ascii "backoff_min", intText e.backoffMinSec.toInt),
    (ascii "backoff_max", intText e.backoffMaxSec.toInt)])

def entryItems (e : ServiceEntry) (v : Bytes) : List Item :=
  .header e.name :: (entryFields e v).map fun kv => .entry kv.1 kv.2

/-- The items of a manifest. -/
inductive ManifestItems : List ServiceEntry → List Item → Prop where
  | nil : ManifestItems [] []
  | cons {e : ServiceEntry} {es : List ServiceEntry} {v : Bytes} {items : List Item}
      (h : QuotedArgs e.args v) (rest : ManifestItems es items) :
      ManifestItems (e :: es) (entryItems e v ++ items)

/-- A text of the manifest.  Its last line need not be terminated. -/
def ManifestText (es : List ServiceEntry) (text : Bytes) : Prop :=
  ∃ items ls, ManifestItems es items ∧ Rendered items ls ∧
    (text = unlines 0x0a ls ∨ text ++ [0x0a] = unlines 0x0a ls)

/-! ## The values -/

theorem int32_strtol_intText (n : Int32) : Int32.ofInt (strtol (intText n.toInt)) = n := by
  have hval := strtol_decimalText (a := []) (b := []) (decimalText_intText n.toInt)
    (fun c hc => (by cases hc)) (fun c hc => (by cases hc))
  have hlo := n.le_toInt
  have hhi := n.toInt_lt
  have hmax : (2 ^ 31 : Int) ≤ longMax := by decide
  rw [List.nil_append, List.append_nil] at hval
  rw [hval, min_eq_left (by omega), max_eq_left (by omega), Int32.ofInt_toInt]

theorem parseBool_boolText (b : Bool) : parseBool (boolText b) = some b := by
  cases b <;> decide

theorem parseHostPort_text (name : String) {host : Bytes} {port : UInt16} (hhost : Plain host)
    (hport : port ≠ 0) :
    parseHostPort name (hostPortText host port) = .ok (host, port) := by
  have hcolon : 0x3a ∉ natText port.toNat := fun hmem =>
    absurd ((natText_digits port.toNat).1 0x3a hmem) (by decide)
  have hval := strtol_decimalText (a := []) (b := []) (decimalText_natText port.toNat)
    (fun c hc => (by cases hc)) (fun c hc => (by cases hc))
  have hlt := port.toNat_lt
  have hpos : port.toNat ≠ 0 := fun h => hport (UInt16.toNat_inj.mp h)
  have hmax : (2 ^ 16 : Int) ≤ longMax := by decide
  rw [List.nil_append, List.append_nil, min_eq_left (by omega), max_eq_left (by omega)] at hval
  have hrange : ¬(strtol (natText port.toNat) ≤ 0 ∨ 65535 < strtol (natText port.toNat)) := by
    rw [hval]
    omega
  rw [parseHostPort, hostPortText, splitLast_eq hcolon]
  simp only
  rw [if_neg hrange, trim, strip_of_bare hhost.bare, hval, Int.toNat_natCast, Nat.toUInt16_eq,
    UInt16.ofNat_toNat]

theorem plain_hostPortText {host : Bytes} (h : Plain host) (port : UInt16) :
    Plain (hostPortText host port) := by
  have hdig := noBlank_of_digits (natText_digits port.toNat).1
  have hne := natText_ne_nil port.toNat
  refine ⟨⟨?_, ?_⟩, ?_⟩
  · intro c hc
    rw [hostPortText] at hc
    cases hhost : host with
    | nil =>
        rw [hhost] at hc
        cases hc
        decide
    | cons d ds =>
        rw [hhost] at hc h
        exact h.bare.head c hc
  · intro c hc
    rw [hostPortText, List.getLast?_append, List.getLast?_cons, Option.some_or,
      List.getLast?_eq_some_getLast hne, Option.getD_some] at hc
    cases hc
    exact hdig _ (List.getLast_mem hne)
  · rw [hostPortText]
    have hnl : 0x0a ∉ natText port.toNat := fun hmem => absurd (hdig 0x0a hmem) (by decide)
    simp [h.noNewline, hnl]

/-! ## A section -/

/-- The keys of a section fill in its record. -/
theorem foldlM_entryFields {e : ServiceEntry} {v : Bytes} (hwf : e.WellFormed)
    (hv : QuotedArgs e.args v) :
    (entryFields e v).foldlM (fun cur kv => setServiceKey cur kv.1 kv.2) { name := e.name } =
      .ok e := by
  have hauto := fun cur => setServiceKey_autorestart cur _ (parseBool_boolText e.autorestart)
  by_cases hport : e.healthPort = 0
  · have hhost := hwf.unchecked hport
    rw [entryFields, if_pos hport]
    simp only [List.nil_append, List.cons_append, List.foldlM_cons, List.foldlM_nil,
      setServiceKey_exec, setServiceKey_args, setServiceKey_workdir, hauto,
      setServiceKey_healthInterval, setServiceKey_backoffMin, setServiceKey_backoffMax,
      int32_strtol_intText, splitArgs_quoted hv hwf.quotable, bind, Except.bind]
    cases e
    cases hport
    cases hhost
    rfl
  · have hhealth := fun cur => setServiceKey_healthTcp cur _
      (parseHostPort_text "health_tcp" hwf.healthHost hport)
    rw [entryFields, if_neg hport]
    simp only [List.nil_append, List.cons_append, List.foldlM_cons, List.foldlM_nil,
      setServiceKey_exec, setServiceKey_args, setServiceKey_workdir, hauto, hhealth,
      setServiceKey_healthInterval, setServiceKey_backoffMin, setServiceKey_backoffMax,
      int32_strtol_intText, splitArgs_quoted hv hwf.quotable, bind, Except.bind]
    rfl

theorem plain_boolText (b : Bool) : Plain (boolText b) := by
  have h : ∀ c ∈ boolText b, (!isTrimChar c) = true :=
    List.all_eq_true.mp (by cases b <;> decide)
  exact plain_of_noBlank fun c hc => Bool.not_eq_true' _ ▸ h c hc

/-- The letters of the keys. -/
def isKeyChar (c : UInt8) : Bool := c = 0x5f || (0x61 ≤ c && c ≤ 0x7a)

theorem plainKey_of_isKeyChar {key : Bytes}
    (h : (!key.isEmpty && key.all isKeyChar) = true) : PlainKey key := by
  rw [Bool.and_eq_true, Bool.not_eq_true', List.isEmpty_eq_false_iff, List.all_eq_true] at h
  obtain ⟨hne, hall⟩ := h
  have hnot : ∀ c ∈ key, ∀ d, isKeyChar d = false → c ≠ d := by
    intro c hc d hd hcd
    rw [← hcd, hall c hc] at hd
    cases hd
  have hblank : ∀ c ∈ key, isTrimChar c = false := by
    intro c hc
    have hne := hnot c hc
    simp [isTrimChar, hne 0x20 (by decide), hne 0x09 (by decide), hne 0x0d (by decide),
      hne 0x0a (by decide)]
  refine ⟨hne, (plain_of_noBlank hblank).bare, ?_, ?_, (plain_of_noBlank hblank).noNewline⟩
  · intro c hc
    have hmem := List.mem_of_mem_head? hc
    exact ⟨hnot c hmem _ (by decide), hnot c hmem _ (by decide), hnot c hmem _ (by decide)⟩
  · exact fun hmem => hnot _ hmem _ (by decide) rfl

/-- Every item of a section is one the loop reads. -/
theorem entryItems_ok {e : ServiceEntry} {v : Bytes} (hwf : e.WellFormed)
    (hv : QuotedArgs e.args v) : ∀ item ∈ entryItems e v, item.Ok := by
  have hentry : ∀ kv ∈ entryFields e v, PlainKey kv.1 ∧ Plain kv.2 := by
    intro kv hkv
    rw [entryFields, List.mem_append, List.mem_append] at hkv
    rcases hkv with hkv | hkv | hkv
    · simp only [List.mem_cons, List.not_mem_nil, or_false] at hkv
      rcases hkv with rfl | rfl | rfl | rfl
      · exact ⟨plainKey_of_isKeyChar rfl, hwf.exec⟩
      · exact ⟨plainKey_of_isKeyChar rfl, hv.plain hwf.oneLine⟩
      · exact ⟨plainKey_of_isKeyChar rfl, hwf.workdir⟩
      · exact ⟨plainKey_of_isKeyChar rfl, plain_boolText _⟩
    · by_cases hport : e.healthPort = 0
      · rw [if_pos hport] at hkv
        cases hkv
      · rw [if_neg hport, List.mem_singleton] at hkv
        rw [hkv]
        exact ⟨plainKey_of_isKeyChar rfl, plain_hostPortText hwf.healthHost _⟩
    · simp only [List.mem_cons, List.not_mem_nil, or_false] at hkv
      rcases hkv with rfl | rfl | rfl
      all_goals exact ⟨plainKey_of_isKeyChar rfl, plain_intText _⟩
  intro item hitem
  rcases List.mem_cons.mp hitem with rfl | hitem
  · exact ⟨hwf.named, hwf.name⟩
  · obtain ⟨kv, hkv, rfl⟩ := List.mem_map.mp hitem
    exact hentry kv hkv

/-! ## The file -/

theorem manifestItems_ok {es : List ServiceEntry} {items : List Item} (h : ManifestItems es items)
    (hwf : ∀ e ∈ es, e.WellFormed) : ∀ item ∈ items, item.Ok := by
  induction h with
  | nil => intro item hitem; cases hitem
  | @cons e es v items hv rest ih =>
      intro item hitem
      rcases List.mem_append.mp hitem with hitem | hitem
      · exact entryItems_ok (hwf e List.mem_cons_self) hv item hitem
      · exact ih (fun e' he' => hwf e' (List.mem_cons_of_mem _ he')) item hitem

theorem foldlM_manifestItems {es : List ServiceEntry} {items : List Item}
    (h : ManifestItems es items) (hwf : ∀ e ∈ es, e.WellFormed) : ∀ result : List ServiceEntry,
      items.foldlM (applyItem (fun name => { name }) setServiceKey) result = .ok (result ++ es) := by
  induction h with
  | nil => intro result; rw [List.append_nil]; rfl
  | @cons e es v items hv rest ih =>
      intro result
      have hfields : ((entryFields e v).map fun kv => Item.entry kv.1 kv.2).foldlM
          (applyItem (fun name => { name }) setServiceKey) (result ++ [{ name := e.name }]) =
            .ok (result ++ [e]) := foldlM_entries result
        (foldlM_entryFields (hwf e List.mem_cons_self) hv)
      have hsection : (entryItems e v).foldlM (applyItem (fun name => { name }) setServiceKey)
          result = .ok (result ++ [e]) := by
        rw [entryItems, List.foldlM_cons]
        exact hfields
      rw [List.foldlM_append, hsection]
      have := ih (fun e' he' => hwf e' (List.mem_cons_of_mem _ he')) (result ++ [e])
      rwa [List.append_assoc, List.singleton_append] at this

theorem checkService_wellFormed {e : ServiceEntry} (h : e.WellFormed) : checkService e = none := by
  have hne : e.exec ≠ [] := by
    intro hnil
    have := h.absolute
    rw [hnil] at this
    cases this
  rw [checkService, if_neg hne, if_neg (fun hnot => hnot h.absolute)]

theorem loadFile_false {α : Type} {cannotOpen : Bytes}
    {parse : List Bytes → Except (Nat × Bytes) (List α)} {check : α → Option Bytes} {path : Bytes}
    {file : Option Bytes} {out : List α} {err : Bytes}
    (h : (loadFile cannotOpen parse check path file out err).1 = false) :
    (loadFile cannotOpen parse check path file out err).2.1 = out := by
  revert h
  cases file with
  | none => exact fun _ => rfl
  | some text =>
      simp only [loadFile]
      cases parse (lines 0x0a text) with
      | error e => exact fun _ => rfl
      | ok result =>
          simp only
          cases result.findSome? check with
          | some msg => exact fun _ => rfl
          | none => exact fun h => (by cases h)

theorem parseServicesFile_text {path err text : Bytes} {out es : List ServiceEntry}
    (hwf : ∀ e ∈ es, e.WellFormed) (htext : ManifestText es text) :
    parseServicesFile path (some text) out err = (true, es, err) := by
  obtain ⟨items, ls, hitems, hr, htext⟩ := htext
  exact loadFile_rendered hr (manifestItems_ok hitems hwf) (foldlM_manifestItems hitems hwf [])
    htext fun e he => checkService_wellFormed (hwf e he)

/-- **Round trip.**  Well-formed services, written in the documented format, are read back in
    order; and a manifest that is refused leaves `out` as it was. -/
theorem manifest_round_trip (path : Bytes) (out : List ServiceEntry) (err : Bytes) :
    (∀ (es : List ServiceEntry) (text : Bytes), (∀ e ∈ es, e.WellFormed) → ManifestText es text →
      parseServicesFile path (some text) out err = (true, es, err)) ∧
    (∀ file : Option Bytes, (parseServicesFile path file out err).1 = false →
      (parseServicesFile path file out err).2.1 = out) :=
  ⟨fun _ _ => parseServicesFile_text, fun _ => loadFile_false⟩

/-! ## A writer -/

/-- An item on a line of its own. -/
def Item.line : Item → Bytes
  | .header name => 0x5b :: (name ++ [0x5d])
  | .entry key val => key ++ ascii " = " ++ val

def argsText : List Bytes → Bytes
  | [] => []
  | [a] => quote a
  | a :: b :: rest => quote a ++ [0x20] ++ argsText (b :: rest)

/-- The lines of a manifest without anything added. -/
def manifestLines (es : List ServiceEntry) : List Bytes :=
  es.flatMap fun e => (entryItems e (argsText e.args)).map Item.line

theorem Item.written_line (item : Item) : item.Written item.line := by
  have hnil : Pad [] := fun c hc => (by cases hc)
  have hblank : Pad [0x20] := by
    intro c hc
    rw [List.mem_singleton.mp hc]
    decide
  cases item with
  | header name =>
      refine ⟨[], [], [], [], hnil, hnil, hnil, hnil, ?_⟩
      simp [Item.line]
  | entry key val =>
      refine ⟨[], [0x20], [0x20], [], hnil, hblank, hblank, hnil, ?_⟩
      have hsep : ascii " = " = [0x20, 0x3d, 0x20] := by decide
      simp [Item.line, hsep]

theorem rendered_lines (items : List Item) : Rendered items (items.map Item.line) := by
  induction items with
  | nil => exact .nil
  | cons item items ih => exact .item item.written_line ih

theorem quotedArgs_argsText (args : List Bytes) : QuotedArgs args (argsText args) := by
  induction args with
  | nil => exact .nil
  | cons a rest ih =>
      cases rest with
      | nil => exact .one a
      | cons b rest =>
          refine .cons ⟨by decide, fun c hc => .inl ?_⟩ ih
          exact List.mem_singleton.mp hc

/-- Every list of services has a text. -/
theorem manifestText_lines (es : List ServiceEntry) {ls : List Bytes} (hls : ∀ l ∈ ls, Noise l) :
    ManifestText es (unlines 0x0a (ls ++ manifestLines es)) := by
  have hitems : ∃ items, ManifestItems es items ∧ items.map Item.line = manifestLines es := by
    induction es with
    | nil => exact ⟨[], .nil, rfl⟩
    | cons e es ih =>
        obtain ⟨items, hitems, hmap⟩ := ih
        refine ⟨_, .cons (quotedArgs_argsText e.args) hitems, ?_⟩
        rw [List.map_append, hmap]
        rfl
  obtain ⟨items, hitems, hmap⟩ := hitems
  refine ⟨items, ls ++ manifestLines es, hitems, ?_, .inl rfl⟩
  induction ls with
  | nil => exact hmap ▸ rendered_lines items
  | cons l ls ih =>
      exact .noise (hls l List.mem_cons_self) (ih fun l' hl' => hls l' (List.mem_cons_of_mem _ hl'))

/-- A service whose texts hold the characters of the format. -/
def trickyEntry : ServiceEntry where
  name := ascii "a]#"
  exec := ascii "/x=y"
  args := [[], ascii "b c;"]
  autorestart := false
  healthHost := ascii "::1"
  healthPort := 80
  healthIntervalSec := -3

theorem manifest_round_trip_tricky :
    parseServicesFile (ascii "m") (some (unlines 0x0a ([ascii "# m"] ++ manifestLines [trickyEntry])))
        [] [] = (true, [trickyEntry], []) ∧
      (parseServicesFile (ascii "m") (some (ascii "exec = /x")) [trickyEntry] []).2.1 =
        [trickyEntry] := by
  have hplain : ∀ t : Bytes, (t.all fun c => !isTrimChar c) = true → Plain t := by
    intro t ht
    refine plain_of_noBlank fun c hc => ?_
    exact Bool.not_eq_true' _ ▸ List.all_eq_true.mp ht c hc
  have hwf : ∀ e ∈ [trickyEntry], e.WellFormed := by
    intro e he
    rw [List.mem_singleton.mp he]
    exact ⟨by decide, hplain _ (by decide), hplain _ (by decide), by decide, hplain _ (by decide),
      hplain _ (by decide), by decide, by decide, by decide⟩
  have hnoise : ∀ l ∈ [ascii "# m"], Noise l := by
    intro l hl
    rw [List.mem_singleton.mp hl]
    exact .inr ⟨[], 0x23, ascii " m", fun c hc => (by cases hc), .inl rfl, by decide, by decide⟩
  exact ⟨(manifest_round_trip _ [] []).1 _ _ hwf (manifestText_lines _ hnoise),
    (manifest_round_trip _ [trickyEntry] []).2 _ (by decide)⟩

end CastlePlus
