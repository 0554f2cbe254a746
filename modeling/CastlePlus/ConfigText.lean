import CastlePlus.ConfigFile

/-! # Writing the configuration files

    How a line of a configuration file is written, with blanks around its parts and with blank and
    comment lines in between, and that the loop of the parsers reads the items back
    (**`parseLines_rendered`**).  Then the texts of the values: `strtol` reads a decimal numeral,
    `split_args` a list of quoted arguments. -/

namespace CastlePlus

open TextFormat

/-! ## Lines -/

/-- Blanks within a line. -/
def isPad (c : UInt8) : Bool := c = 0x20 || c = 0x09 || c = 0x0d

def Pad (a : Bytes) : Prop := ∀ c ∈ a, isPad c = true

/-- What a line says. -/
inductive Item where
  | header (name : Bytes)
  | entry (key val : Bytes)

/-- A line that says it, with blanks around the parts. -/
def Item.Written : Item → Bytes → Prop
  | .header name, line => ∃ a b c d, Pad a ∧ Pad b ∧ Pad c ∧ Pad d ∧
      line = a ++ (0x5b :: (b ++ name ++ c ++ [0x5d]) ++ d)
  | .entry key val, line => ∃ a b c d, Pad a ∧ Pad b ∧ Pad c ∧ Pad d ∧
      line = a ++ (key ++ b ++ [0x3d] ++ (c ++ val ++ d))

/-- A blank line or a comment. -/
def Noise (line : Bytes) : Prop :=
  Pad line ∨ ∃ a c rest, Pad a ∧ (c = 0x23 ∨ c = 0x3b) ∧ 0x0a ∉ rest ∧ line = a ++ c :: rest

/-- The items in order, each on its line, with noise anywhere. -/
inductive Rendered : List Item → List Bytes → Prop where
  | nil : Rendered [] []
  | noise {items : List Item} {line : Bytes} {ls : List Bytes} (h : Noise line)
      (rest : Rendered items ls) : Rendered items (line :: ls)
  | item {item : Item} {items : List Item} {line : Bytes} {ls : List Bytes}
      (h : item.Written line) (rest : Rendered items ls) : Rendered (item :: items) (line :: ls)

/-- A key of the format: not a header or a comment, and without the separator. -/
structure PlainKey (key : Bytes) : Prop where
  nonempty : key ≠ []
  bare : Bare isTrimChar key
  head : ∀ c ∈ key.head?, c ≠ 0x23 ∧ c ≠ 0x3b ∧ c ≠ 0x5b
  noEq : 0x3d ∉ key
  noNewline : 0x0a ∉ key

/-- A text that is read back as it is. -/
structure Plain (s : Bytes) : Prop where
  bare : Bare isTrimChar s
  noNewline : 0x0a ∉ s

def Item.Ok : Item → Prop
  | .header name => name ≠ [] ∧ Plain name
  | .entry key val => PlainKey key ∧ Plain val

theorem isTrimChar_of_isPad {c : UInt8} (h : isPad c = true) : isTrimChar c = true := by
  rw [isPad] at h
  rw [isTrimChar, h]
  rfl

theorem Pad.trimmed {a : Bytes} (h : Pad a) : ∀ c ∈ a, isTrimChar c = true :=
  fun c hc => isTrimChar_of_isPad (h c hc)

theorem Pad.noNewline {a : Bytes} (h : Pad a) : 0x0a ∉ a := fun hmem =>
  absurd (h 0x0a hmem) (by decide)

theorem Pad.notMem {a : Bytes} {c : UInt8} (h : Pad a) (hc : isPad c = false) : c ∉ a :=
  fun hmem => absurd (h c hmem) (by rw [hc]; decide)

/-! ## Reading a line -/

/-- What a line says, as `parseLine` cuts it; nothing for a blank line or a comment. -/
def readLine (line : Bytes) : Except Bytes (Option Item) :=
  let t := trim line
  if t = [] ∨ t.head? = some 0x23 ∨ t.head? = some 0x3b then .ok none
  else if t.head? = some 0x5b then
    if t.getLast? ≠ some 0x5d then .error (ascii "malformed section header")
    else
      let name := trim ((t.drop 1).take (t.length - 2))
      if name = [] then .error (ascii "empty section name") else .ok (some (.header name))
  else
    match splitFirst 0x3d t with
    | none => .error (ascii "expected 'key = value'")
    | some (key, val) => .ok (some (.entry (trim key) (trim val)))

theorem readLine_noise {line : Bytes} (h : Noise line) : readLine line = .ok none := by
  rw [readLine]
  rcases h with hpad | ⟨a, c, rest, ha, hc, -, rfl⟩
  · have htrim : trim line = [] := by
      have := strip_pad (a := line) (b := []) (l := []) hpad.trimmed (fun c hc => (by cases hc))
        ⟨fun c hc => (by cases hc), fun c hc => (by cases hc)⟩
      rwa [List.append_nil, List.append_nil] at this
    exact if_pos (.inl htrim)
  · have hbare : Bare isTrimChar [c] := by
      rcases hc with rfl | rfl <;> exact ⟨by simp; decide, by simp; decide⟩
    have htrim : trim (a ++ c :: rest) = c :: rest.rdropWhile isTrimChar :=
      strip_after (l := [c]) ha.trimmed (by simp) hbare
    refine if_pos (.inr ?_)
    rw [htrim]
    rcases hc with rfl | rfl
    · exact .inl rfl
    · exact .inr rfl

theorem readLine_header {name line : Bytes} (hw : (Item.header name).Written line)
    (hok : (Item.header name).Ok) : readLine line = .ok (some (.header name)) := by
  obtain ⟨a, b, c, d, ha, hb, hc, hd, rfl⟩ := hw
  have hbare : Bare isTrimChar (0x5b :: (b ++ name ++ c ++ [0x5d])) := by
    refine ⟨?_, ?_⟩
    · intro x hx
      cases hx
      decide
    · intro x hx
      rw [← List.cons_append, List.getLast?_concat] at hx
      cases hx
      decide
  have htrim : trim (a ++ (0x5b :: (b ++ name ++ c ++ [0x5d]) ++ d)) =
      0x5b :: (b ++ name ++ c ++ [0x5d]) := by
    rw [← List.append_assoc]
    exact strip_pad ha.trimmed hd.trimmed hbare
  have hinner : trim (((0x5b :: (b ++ name ++ c ++ [0x5d])).drop 1).take
      ((0x5b :: (b ++ name ++ c ++ [0x5d])).length - 2)) = name := by
    have hcut : ((0x5b :: (b ++ name ++ c ++ [0x5d])).drop 1).take
        ((0x5b :: (b ++ name ++ c ++ [0x5d])).length - 2) = b ++ name ++ c := by
      rw [List.drop_one, List.tail_cons]
      refine List.take_left' ?_
      simp only [List.length_cons, List.length_append, List.length_nil]
      omega
    rw [hcut]
    exact strip_pad hb.trimmed hc.trimmed hok.2.bare
  have hlast : (0x5b :: (b ++ name ++ c ++ [0x5d])).getLast? = some 0x5d := by
    rw [← List.cons_append, List.getLast?_concat]
  rw [readLine]
  simp only [htrim]
  rw [if_neg (by simp), if_pos List.head?_cons, if_neg (fun h => h hlast), hinner, if_neg hok.1]

theorem readLine_entry {key val line : Bytes} (hw : (Item.entry key val).Written line)
    (hok : (Item.entry key val).Ok) : readLine line = .ok (some (.entry key val)) := by
  obtain ⟨a, b, c, d, ha, hb, hc, hd, rfl⟩ := hw
  obtain ⟨hkey, hval⟩ := hok
  have hhead : ∀ x : Bytes, (key ++ b ++ [0x3d] ++ x).head? = key.head? := by
    intro x
    cases hk : key with
    | nil => exact absurd hk hkey.nonempty
    | cons e es => rfl
  have hbare : Bare isTrimChar (key ++ b ++ [0x3d]) := by
    refine ⟨?_, ?_⟩
    · intro x hx
      have := hhead []
      rw [List.append_nil] at this
      rw [this] at hx
      exact hkey.bare.head x hx
    · intro x hx
      rw [List.getLast?_concat] at hx
      cases hx
      decide
  -- the key and the `=` stand, so only blanks behind the value are lost
  have htrim : trim (a ++ (key ++ b ++ [0x3d] ++ (c ++ val ++ d))) =
      key ++ b ++ [0x3d] ++ (c ++ val ++ d).rdropWhile isTrimChar :=
    strip_after ha.trimmed (by simp) hbare
  -- the key holds no `=`, so the first one is the one written behind it
  have hsplit : splitFirst 0x3d (key ++ b ++ [0x3d] ++ (c ++ val ++ d).rdropWhile isTrimChar) =
      some (key ++ b, (c ++ val ++ d).rdropWhile isTrimChar) := by
    rw [List.append_assoc (key ++ b), List.singleton_append]
    refine splitFirst_eq fun hmem => ?_
    rcases List.mem_append.mp hmem with hmem | hmem
    · exact hkey.noEq hmem
    · exact hb.notMem (by decide) hmem
  have hk : trim (key ++ b) = key := by
    have := strip_pad (a := []) (fun c hc => (by cases hc)) hb.trimmed hkey.bare
    rwa [List.nil_append] at this
  have hv : trim ((c ++ val ++ d).rdropWhile isTrimChar) = val :=
    strip_rdropWhile hc.trimmed hd.trimmed hval.bare
  -- nor does it look like a comment or a header
  have hnot : ∀ x, key.head? = some x → x ≠ 0x23 ∧ x ≠ 0x3b ∧ x ≠ 0x5b := fun x hx =>
    hkey.head x hx
  rw [readLine]
  simp only [htrim, hhead, hsplit, hk, hv]
  rw [if_neg, if_neg]
  · exact fun h => (hnot _ h).2.2 rfl
  · rintro (h | h | h)
    · simp at h
    · exact (hnot _ h).1 rfl
    · exact (hnot _ h).2.1 rfl

theorem readLine_written {item : Item} {line : Bytes} (hw : item.Written line) (hok : item.Ok) :
    readLine line = .ok (some item) := by
  cases item with
  | header name => exact readLine_header hw hok
  | entry key val => exact readLine_entry hw hok

/-- A name that is read is trimmed and not empty. -/
theorem readLine_name {line name : Bytes} (h : readLine line = .ok (some (.header name))) :
    name ≠ [] ∧ Bare isTrimChar name := by
  rw [readLine] at h
  simp only at h
  split_ifs at h with hnoise hhead hlast hname
  · cases h
  · cases h
    exact ⟨hname, bare_strip _ _⟩
  · cases hsplit : splitFirst 0x3d (trim line) with
    | none => rw [hsplit] at h; cases h
    | some kv => rw [hsplit] at h; cases h

/-! ## The loop -/

section Loop

variable {α : Type} {mk : Bytes → α} {setKey : α → Bytes → Bytes → Except Bytes α}

/-- What an item does to the records. -/
def applyItem (mk : Bytes → α) (setKey : α → Bytes → Bytes → Except Bytes α) (result : List α) :
    Item → Except Bytes (List α)
  | .header name => .ok (result ++ [mk name])
  | .entry key val =>
      match result.getLast? with
      | none => .error (ascii "key outside of any [section]")
      | some cur =>
          match setKey cur key val with
          | .ok cur => .ok (result.dropLast ++ [cur])
          | .error msg => .error msg

/-- A line changes the records as its item does. -/
theorem parseLine_eq (result : List α) (line : Bytes) : parseLine mk setKey result line =
    (readLine line).bind fun item? => item?.elim (.ok result) (applyItem mk setKey result) := by
  rw [parseLine, readLine]
  simp only
  split_ifs
  · rfl
  · rfl
  · rfl
  · rfl
  · cases splitFirst 0x3d (trim line) with
    | none => rfl
    | some kv => rfl

/-- The ways in which a line is accepted. -/
theorem parseLine_ok {result result' : List α} {line : Bytes}
    (h : parseLine mk setKey result line = .ok result') :
    readLine line = .ok none ∧ result' = result ∨
    (∃ name, readLine line = .ok (some (.header name)) ∧ result' = result ++ [mk name]) ∨
    ∃ key val cur next, readLine line = .ok (some (.entry key val)) ∧
      result.getLast? = some cur ∧ setKey cur key val = .ok next ∧
      result' = result.dropLast ++ [next] := by
  rw [parseLine_eq] at h
  cases hread : readLine line with
  | error msg =>
      rw [hread] at h
      cases h
  | ok item? =>
      rw [hread] at h
      cases item? with
      | none =>
          cases h
          exact .inl ⟨rfl, rfl⟩
      | some item =>
          cases item with
          | header name =>
              cases h
              exact .inr (.inl ⟨name, rfl, rfl⟩)
          | entry key val =>
              replace h : applyItem mk setKey result (.entry key val) = .ok result' := h
              rw [applyItem] at h
              cases hcur : result.getLast? with
              | none =>
                  rw [hcur] at h
                  cases h
              | some cur =>
                  simp only [hcur] at h
                  cases hset : setKey cur key val with
                  | error msg =>
                      rw [hset] at h
                      cases h
                  | ok next =>
                      rw [hset] at h
                      cases h
                      exact .inr (.inr ⟨key, val, cur, next, rfl, rfl, hset, rfl⟩)

/-- The loop on a rendered file does what the items say. -/
theorem parseLines_rendered {items : List Item} {ls : List Bytes} (h : Rendered items ls)
    (hok : ∀ item ∈ items, item.Ok) : ∀ (lineno : Nat) (result final : List α),
      items.foldlM (applyItem mk setKey) result = .ok final →
      parseLines mk setKey lineno result ls = .ok final := by
  induction h with
  | nil =>
      intro lineno result final hfold
      cases hfold
      rfl
  | noise hn rest ih =>
      intro lineno result final hfold
      rw [parseLines, parseLine_eq, readLine_noise hn]
      exact ih hok _ _ _ hfold
  | @item it items line ls hw rest ih =>
      intro lineno result final hfold
      have hline : parseLine mk setKey result line = applyItem mk setKey result it := by
        rw [parseLine_eq, readLine_written hw (hok it List.mem_cons_self)]
        rfl
      rw [List.foldlM_cons] at hfold
      rw [parseLines, hline]
      cases happ : applyItem mk setKey result it with
      | error msg =>
          rw [happ] at hfold
          cases hfold
      | ok next =>
          rw [happ] at hfold
          exact ih (fun i hi => hok i (List.mem_cons_of_mem _ hi)) _ _ _ hfold

/-- The entries of a section go into its record. -/
theorem foldlM_entries {entries : List (Bytes × Bytes)} {cur final : α} (result : List α)
    (h : entries.foldlM (fun cur e => setKey cur e.1 e.2) cur = .ok final) :
    (entries.map fun e => Item.entry e.1 e.2).foldlM (applyItem mk setKey) (result ++ [cur]) =
      .ok (result ++ [final]) := by
  induction entries generalizing cur with
  | nil => cases h; rfl
  | cons e entries ih =>
      rw [List.foldlM_cons] at h
      cases hset : setKey cur e.1 e.2 with
      | error msg =>
          rw [hset] at h
          cases h
      | ok next =>
          rw [hset] at h
          have happ : applyItem mk setKey (result ++ [cur]) (.entry e.1 e.2) =
              .ok (result ++ [next]) := by
            simp only [applyItem, List.getLast?_concat, List.dropLast_concat, hset]
          rw [List.map_cons, List.foldlM_cons, happ]
          exact ih h

theorem parseLines_blank (lineno : Nat) (result : List α) (ls : List Bytes) :
    parseLines mk setKey lineno result (ls ++ [[]]) = parseLines mk setKey lineno result ls := by
  induction ls generalizing lineno result with
  | nil => rfl
  | cons l ls ih =>
      rw [List.cons_append, parseLines, parseLines]
      cases parseLine mk setKey result l with
      | error msg => rfl
      | ok next => exact ih _ _

end Loop

theorem Item.Written.noNewline {item : Item} {line : Bytes} (hw : item.Written line)
    (hok : item.Ok) : 0x0a ∉ line := by
  cases item with
  | header name =>
      obtain ⟨a, b, c, d, ha, hb, hc, hd, rfl⟩ := hw
      simp [ha.noNewline, hb.noNewline, hc.noNewline, hd.noNewline, hok.2.noNewline]
  | entry key val =>
      obtain ⟨a, b, c, d, ha, hb, hc, hd, rfl⟩ := hw
      simp [ha.noNewline, hb.noNewline, hc.noNewline, hd.noNewline, hok.1.noNewline,
        hok.2.noNewline]

theorem Noise.noNewline {line : Bytes} (h : Noise line) : 0x0a ∉ line := by
  rcases h with hpad | ⟨a, c, rest, ha, hc, hrest, rfl⟩
  · exact hpad.noNewline
  · rcases hc with rfl | rfl <;> simp [ha.noNewline, hrest]

theorem Rendered.noNewline {items : List Item} {ls : List Bytes} (h : Rendered items ls)
    (hok : ∀ item ∈ items, item.Ok) : ∀ l ∈ ls, 0x0a ∉ l := by
  induction h with
  | nil => intro l hl; cases hl
  | noise hn rest ih =>
      intro l hl
      rcases List.mem_cons.mp hl with rfl | hl
      · exact hn.noNewline
      · exact ih hok l hl
  | item hw rest ih =>
      intro l hl
      rcases List.mem_cons.mp hl with rfl | hl
      · exact hw.noNewline (hok _ List.mem_cons_self)
      · exact ih (fun i hi => hok i (List.mem_cons_of_mem _ hi)) l hl

/-- A rendered file is parsed as its items say, its last line terminated or not. -/
theorem parseLines_text {α : Type} {mk : Bytes → α} {setKey : α → Bytes → Bytes → Except Bytes α}
    {items : List Item} {ls : List Bytes} {text : Bytes} {final : List α} (hr : Rendered items ls)
    (hok : ∀ item ∈ items, item.Ok) (hfold : items.foldlM (applyItem mk setKey) [] = .ok final)
    (htext : text = unlines 0x0a ls ∨ text ++ [0x0a] = unlines 0x0a ls) :
    parseLines mk setKey 0 [] (lines 0x0a text) = .ok final := by
  have hparse : parseLines mk setKey 0 [] ls = .ok final :=
    parseLines_rendered hr hok 0 [] final hfold
  have hls : lines 0x0a (unlines 0x0a ls) = ls := lines_unlines (hr.noNewline hok)
  rcases htext with rfl | htext
  · rw [hls, hparse]
  · rw [← htext] at hls
    have hlines : lines 0x0a (text ++ [0x0a]) = lines 0x0a text ∨
        lines 0x0a (text ++ [0x0a]) = lines 0x0a text ++ [[]] := lines_concat text
    rcases hlines with hsame | hblank
    · rw [← hsame, hls, hparse]
    · rw [← parseLines_blank, ← hblank, hls, hparse]

/-- A file that is rendered from records which pass their check is loaded as these records. -/
theorem loadFile_rendered {α : Type} {cannotOpen path err text : Bytes} {check : α → Option Bytes}
    {mk : Bytes → α} {setKey : α → Bytes → Bytes → Except Bytes α} {items : List Item}
    {ls : List Bytes} {out final : List α} (hr : Rendered items ls) (hok : ∀ item ∈ items, item.Ok)
    (hfold : items.foldlM (applyItem mk setKey) [] = .ok final)
    (htext : text = unlines 0x0a ls ∨ text ++ [0x0a] = unlines 0x0a ls)
    (hcheck : ∀ r ∈ final, check r = none) :
    loadFile cannotOpen (parseLines mk setKey 0 []) check path (some text) out err =
      (true, final, err) := by
  have hparse := parseLines_text hr hok hfold htext
  have hnone : final.findSome? check = none := List.findSome?_eq_none_iff.mpr hcheck
  simp only [loadFile, hparse, hnone]

/-! ## Numbers -/

/-- The number a nonempty string of digits denotes. -/
def unsignedText (ds : Bytes) : Option Nat :=
  if ds ≠ [] ∧ ds.all isDigit = true then some (decimalValue ds) else none

/-- The integer that a text denotes: digits after an optional sign, and nothing else. -/
def decimalText : Bytes → Option Int
  | 0x2d :: ds => (unsignedText ds).map fun n : Nat => -(n : Int)
  | 0x2b :: ds => (unsignedText ds).map fun n : Nat => (n : Int)
  | ds => (unsignedText ds).map fun n : Nat => (n : Int)

/-- The decimal text of an integer. -/
def intText (z : Int) : Bytes := if z < 0 then 0x2d :: natText z.natAbs else natText z.natAbs

theorem unsignedText_eq_some {ds : Bytes} {n : Nat} (h : unsignedText ds = some n) :
    ds ≠ [] ∧ (∀ c ∈ ds, isDigit c = true) ∧ decimalValue ds = n := by
  rw [unsignedText, Option.ite_none_right_eq_some, List.all_eq_true] at h
  exact ⟨h.1.1, h.1.2, Option.some.inj h.2⟩

/-- A decimal text is a sign or nothing, and digits. -/
theorem decimalText_eq_some {t : Bytes} {z : Int} (h : decimalText t = some z) :
    ∃ ds, ds ≠ [] ∧ (∀ c ∈ ds, isDigit c = true) ∧
      (t = 0x2d :: ds ∧ z = -(decimalValue ds : Int) ∨
        (t = 0x2b :: ds ∨ t = ds) ∧ z = (decimalValue ds : Int)) := by
  rw [decimalText.eq_def] at h
  split at h
  all_goals
    obtain ⟨n, hn, rfl⟩ := Option.map_eq_some_iff.mp h
    obtain ⟨hne, hdig, rfl⟩ := unsignedText_eq_some hn
    refine ⟨_, hne, hdig, ?_⟩
  · exact .inl ⟨rfl, rfl⟩
  · exact .inr ⟨.inl rfl, rfl⟩
  · exact .inr ⟨.inr rfl, rfl⟩

theorem isSpace_of_isTrimChar {c : UInt8} (h : isTrimChar c = true) : isSpace c = true := by
  simp only [isTrimChar, Bool.or_eq_true, decide_eq_true_eq] at h
  rcases h with ((rfl | rfl) | rfl) | rfl <;> decide

theorem not_isSpace_of_isDigit {c : UInt8} (h : isDigit c = true) : isSpace c = false := by
  simp only [isDigit, Bool.and_eq_true, decide_eq_true_eq] at h
  simp only [isSpace, Bool.or_eq_false_iff, Bool.and_eq_false_iff, decide_eq_false_iff_not]
  grind

theorem not_isDigit_of_isTrimChar {c : UInt8} (h : isTrimChar c = true) : isDigit c = false := by
  simp only [isTrimChar, Bool.or_eq_true, decide_eq_true_eq] at h
  rcases h with ((rfl | rfl) | rfl) | rfl <;> decide

/-- The digits before the blanks that follow. -/
theorem takeWhile_isDigit {ds b : Bytes} (hds : ∀ c ∈ ds, isDigit c = true)
    (hb : ∀ c ∈ b, isTrimChar c = true) : (ds ++ b).takeWhile isDigit = ds := by
  rw [List.takeWhile_append_of_pos hds]
  cases b with
  | nil => rw [List.takeWhile_nil, List.append_nil]
  | cons c b =>
      have hc := not_isDigit_of_isTrimChar (hb c List.mem_cons_self)
      rw [List.takeWhile_cons_of_neg (by rw [hc]; decide), List.append_nil]

/-- `strtol` reads a decimal text, clipped to `long`. -/
theorem strtol_decimalText {a t b : Bytes} {z : Int} (h : decimalText t = some z)
    (ha : ∀ c ∈ a, isTrimChar c = true) (hb : ∀ c ∈ b, isTrimChar c = true) :
    strtol (a ++ t ++ b) = max (min z longMax) (-(longMax : Int) - 1) := by
  obtain ⟨ds, hne, hds, ht⟩ := decimalText_eq_some h
  have hskip : ∀ c rest, isSpace c = false →
      (a ++ (c :: rest) ++ b).dropWhile isSpace = c :: (rest ++ b) := by
    intro c rest hc
    rw [List.append_assoc,
      List.dropWhile_append_of_pos fun d hd => isSpace_of_isTrimChar (ha d hd)]
    exact List.dropWhile_cons_of_neg (by rw [hc]; decide)
  have htake := takeWhile_isDigit hds hb
  rw [strtol]
  rcases ht with ⟨rfl, rfl⟩ | ⟨rfl | rfl, rfl⟩
  · simp only [hskip 0x2d ds (by decide), htake]
    omega
  · simp only [hskip 0x2b ds (by decide), htake]
    omega
  · cases t with
    | nil => exact absurd rfl hne
    | cons c rest =>
        have hc := hds c List.mem_cons_self
        rw [hskip c rest (not_isSpace_of_isDigit hc)]
        have h1 : c ≠ 0x2d := by rintro rfl; exact absurd hc (by decide)
        have h2 : c ≠ 0x2b := by rintro rfl; exact absurd hc (by decide)
        split
        · rename_i heq; exact absurd (List.cons.inj heq).1 h1
        · rename_i heq; exact absurd (List.cons.inj heq).1 h2
        · rw [← List.cons_append, htake]
          omega

theorem strtol_of_decimalText {val : Bytes} {z : Int} (h : decimalText val = some z) :
    strtol val = max (min z longMax) (-(longMax : Int) - 1) := by
  have hval := strtol_decimalText (a := []) (b := []) h (fun c hc => (by cases hc))
    (fun c hc => (by cases hc))
  rwa [List.nil_append, List.append_nil] at hval

/-- The last digit comes off the end. -/
theorem natText_eq (n : Nat) : natText n =
    (if n < 10 then [] else natText (n / 10)) ++ [(48 + n % 10).toUInt8] := by
  have hdigit : ∀ d < 10, (Nat.digitChar d).toNat.toUInt8 = (48 + d).toUInt8 := by
    intro d hd
    rw [Nat.toNat_digitChar_of_lt_ten hd]
  have hlist : ∀ m, natText m = (Nat.toDigits 10 m).map fun c => c.toNat.toUInt8 := by
    intro m
    rw [natText, ascii, Nat.toString_eq_repr, Nat.toList_repr]
  rw [hlist, hlist, Nat.toDigits_eq_if (by omega)]
  by_cases h : n < 10
  · rw [if_pos h, if_pos h, List.map_singleton, hdigit n h, Nat.mod_eq_of_lt h, List.nil_append]
  · rw [if_neg h, if_neg h, List.map_append, List.map_singleton, hdigit _ (Nat.mod_lt _ (by omega))]

theorem natText_digits (n : Nat) :
    (∀ c ∈ natText n, isDigit c = true) ∧ decimalValue (natText n) = n := by
  induction n using Nat.strong_induction_on with
  | _ n ih =>
      have hmod : n % 10 < 10 := Nat.mod_lt _ (by omega)
      have hval : (48 + n % 10).toUInt8.toNat = 48 + n % 10 := by
        rw [Nat.toUInt8_eq, UInt8.toNat_ofNat', Nat.mod_eq_of_lt (by omega)]
      have hdigit : isDigit (48 + n % 10).toUInt8 = true := by
        simp only [isDigit, Bool.and_eq_true, decide_eq_true_eq, UInt8.le_iff_toNat_le, hval]
        refine ⟨?_, ?_⟩
        · show 48 ≤ 48 + n % 10
          omega
        · show 48 + n % 10 ≤ 57
          omega
      rw [natText_eq]
      by_cases h : n < 10
      · rw [if_pos h, List.nil_append]
        refine ⟨by simpa using hdigit, ?_⟩
        rw [decimalValue, List.foldl_cons, List.foldl_nil, hval]
        omega
      · obtain ⟨hdig, hdiv⟩ := ih (n / 10) (by omega)
        rw [if_neg h]
        refine ⟨fun c hc => ?_, ?_⟩
        · rcases List.mem_append.mp hc with hc | hc
          · exact hdig c hc
          · rwa [List.mem_singleton.mp hc]
        · rw [decimalValue] at hdiv ⊢
          rw [List.foldl_append, hdiv, List.foldl_cons, List.foldl_nil, hval]
          omega

theorem natText_ne_nil (n : Nat) : natText n ≠ [] := by
  rw [natText_eq]
  exact List.concat_ne_nil _ _

theorem unsignedText_natText (n : Nat) : unsignedText (natText n) = some n := by
  obtain ⟨hdig, hval⟩ := natText_digits n
  rw [unsignedText, if_pos ⟨natText_ne_nil n, List.all_eq_true.mpr hdig⟩, hval]

theorem decimalText_natText (n : Nat) : decimalText (natText n) = some (n : Int) := by
  have hdig := (natText_digits n).1
  have hn := unsignedText_natText n
  rw [decimalText.eq_def]
  split
  · rename_i heq
    exact absurd (hdig 0x2d (by rw [heq]; exact List.mem_cons_self)) (by decide)
  · rename_i heq
    exact absurd (hdig 0x2b (by rw [heq]; exact List.mem_cons_self)) (by decide)
  · rw [hn]
    rfl

theorem decimalText_intText (z : Int) : decimalText (intText z) = some z := by
  rw [intText]
  by_cases hz : z < 0
  · rw [if_pos hz, decimalText, unsignedText_natText, Option.map_some]
    exact congrArg some (by omega)
  · rw [if_neg hz, decimalText_natText]
    exact congrArg some (by omega)

/-- No blank anywhere. -/
theorem plain_of_noBlank {t : Bytes} (h : ∀ c ∈ t, isTrimChar c = false) : Plain t where
  bare := ⟨fun c hc => h c (List.mem_of_mem_head? hc), fun c hc => h c (List.mem_of_mem_getLast? hc)⟩
  noNewline := fun hmem => absurd (h 0x0a hmem) (by decide)

theorem noBlank_of_digits {ds : Bytes} (h : ∀ c ∈ ds, isDigit c = true) :
    ∀ c ∈ ds, isTrimChar c = false := by
  intro c hc
  cases htrim : isTrimChar c with
  | false => rfl
  | true => exact absurd (h c hc) (by rw [not_isDigit_of_isTrimChar htrim]; decide)

theorem plain_intText (z : Int) : Plain (intText z) := by
  have hdig := noBlank_of_digits (natText_digits z.natAbs).1
  rw [intText]
  by_cases hz : z < 0
  · rw [if_pos hz]
    refine plain_of_noBlank fun c hc => ?_
    rcases List.mem_cons.mp hc with rfl | hc
    · decide
    · exact hdig c hc
  · rw [if_neg hz]
    exact plain_of_noBlank hdig

/-! ## Arguments -/

/-- An argument in double quotes. -/
def quote (a : Bytes) : Bytes := 0x22 :: (a ++ [0x22])

/-- Blanks between arguments. -/
def Gap (g : Bytes) : Prop := g ≠ [] ∧ ∀ c ∈ g, c = 0x20 ∨ c = 0x09

/-- The arguments, each in quotes, with blanks between them. -/
inductive QuotedArgs : List Bytes → Bytes → Prop where
  | nil : QuotedArgs [] []
  | one (a : Bytes) : QuotedArgs [a] (quote a)
  | cons {a b g v : Bytes} {rest : List Bytes} (hg : Gap g) (h : QuotedArgs (b :: rest) v) :
      QuotedArgs (a :: b :: rest) (quote a ++ g ++ v)

theorem foldl_next_quoted {a : Bytes} (ha : 0x22 ∉ a) (out : List Bytes) (cur : Bytes) :
    a.foldl ArgScan.next ⟨out, cur, true, true⟩ = ⟨out, cur ++ a, true, true⟩ := by
  induction a generalizing cur with
  | nil => rw [List.foldl_nil, List.append_nil]
  | cons c a ih =>
      have hc : c ≠ 0x22 := fun h => ha (h ▸ List.mem_cons_self)
      have hnext : ArgScan.next ⟨out, cur, true, true⟩ c = ⟨out, cur ++ [c], true, true⟩ := by
        rw [ArgScan.next, if_neg hc, if_neg (by simp)]
      rw [List.foldl_cons, hnext, ih fun hmem => ha (List.mem_cons_of_mem _ hmem),
        List.append_assoc, List.singleton_append]

theorem foldl_next_quote {a : Bytes} (ha : 0x22 ∉ a) (out : List Bytes) :
    (quote a).foldl ArgScan.next { out } = ⟨out, a, false, true⟩ := by
  have hopen : ArgScan.next { out } 0x22 = ⟨out, [], true, true⟩ := rfl
  have hclose : ArgScan.next ⟨out, a, true, true⟩ 0x22 = ⟨out, a, false, true⟩ := rfl
  rw [quote, List.foldl_cons, List.foldl_append, hopen, foldl_next_quoted ha, List.nil_append,
    List.foldl_cons, List.foldl_nil, hclose]

theorem foldl_next_blanks {g : Bytes} (hg : ∀ c ∈ g, c = 0x20 ∨ c = 0x09) (out : List Bytes) :
    g.foldl ArgScan.next { out } = { out } := by
  induction g with
  | nil => rfl
  | cons c g ih =>
      have hnext : ArgScan.next { out } c = { out } := by
        rcases hg c List.mem_cons_self with rfl | rfl <;> rfl
      rw [List.foldl_cons, hnext, ih fun d hd => hg d (List.mem_cons_of_mem _ hd)]

theorem foldl_next_gap {g : Bytes} (hg : Gap g) (out : List Bytes) (cur : Bytes) :
    g.foldl ArgScan.next ⟨out, cur, false, true⟩ = { out := out ++ [cur] } := by
  obtain ⟨hne, hall⟩ := hg
  cases g with
  | nil => exact absurd rfl hne
  | cons c g =>
      have hnext : ArgScan.next ⟨out, cur, false, true⟩ c = { out := out ++ [cur] } := by
        rcases hall c List.mem_cons_self with rfl | rfl <;> rfl
      rw [List.foldl_cons, hnext, foldl_next_blanks fun d hd => hall d (List.mem_cons_of_mem _ hd)]

theorem finish_quotedArgs {args : List Bytes} {v : Bytes} (h : QuotedArgs args v)
    (hargs : ∀ a ∈ args, 0x22 ∉ a) (out : List Bytes) :
    (v.foldl ArgScan.next { out }).finish = out ++ args := by
  induction h generalizing out with
  | nil => rw [List.append_nil]; rfl
  | one a =>
      rw [foldl_next_quote (hargs a List.mem_cons_self)]
      rfl
  | @cons a b g v rest hg hrest ih =>
      rw [List.foldl_append, List.foldl_append, foldl_next_quote (hargs a List.mem_cons_self),
        foldl_next_gap hg, ih fun c hc => hargs c (List.mem_cons_of_mem _ hc), List.append_assoc,
        List.singleton_append]

/-- `split_args` reads quoted arguments back. -/
theorem splitArgs_quoted {args : List Bytes} {v : Bytes} (h : QuotedArgs args v)
    (hargs : ∀ a ∈ args, 0x22 ∉ a) : splitArgs v = args := by
  rw [splitArgs, finish_quotedArgs h hargs, List.nil_append]

theorem QuotedArgs.head {args : List Bytes} {v : Bytes} (h : QuotedArgs args v) :
    ∀ c ∈ v.head?, c = 0x22 := by
  intro c hc
  cases h with
  | nil => cases hc
  | one a => cases hc; rfl
  | cons hg h => cases hc; rfl

theorem QuotedArgs.last {args : List Bytes} {v : Bytes} (h : QuotedArgs args v) :
    (args ≠ [] → v ≠ []) ∧ ∀ c ∈ v.getLast?, c = 0x22 := by
  induction h with
  | nil => exact ⟨fun h => absurd rfl h, fun c hc => (by cases hc)⟩
  | one a =>
      refine ⟨fun _ => List.cons_ne_nil _ _, fun c hc => ?_⟩
      rw [quote, ← List.cons_append, List.getLast?_concat] at hc
      cases hc
      rfl
  | @cons a b g v rest hg h ih =>
      have hv : v ≠ [] := ih.1 (List.cons_ne_nil _ _)
      refine ⟨fun _ => List.cons_ne_nil _ _, fun c hc => ih.2 c ?_⟩
      rwa [List.getLast?_append, List.getLast?_eq_some_getLast hv, Option.some_or,
        ← List.getLast?_eq_some_getLast hv] at hc

theorem QuotedArgs.noNewline {args : List Bytes} {v : Bytes} (h : QuotedArgs args v)
    (hargs : ∀ a ∈ args, 0x0a ∉ a) : 0x0a ∉ v := by
  induction h with
  | nil => exact List.not_mem_nil
  | one a => simp [quote, hargs a List.mem_cons_self]
  | @cons a b g v rest hg h ih =>
      have hv := ih fun c hc => hargs c (List.mem_cons_of_mem _ hc)
      have hgap : 0x0a ∉ g := fun hmem => by
        rcases hg.2 _ hmem with h | h <;> exact absurd h (by decide)
      simp [quote, hargs a List.mem_cons_self, hgap, hv]

theorem QuotedArgs.plain {args : List Bytes} {v : Bytes} (h : QuotedArgs args v)
    (hargs : ∀ a ∈ args, 0x0a ∉ a) : Plain v where
  bare := ⟨fun c hc => (by rw [h.head c hc]; decide), fun c hc => (by rw [h.last.2 c hc]; decide)⟩
  noNewline := h.noNewline hargs

end CastlePlus
