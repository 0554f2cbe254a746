import CastlePlus.ManifestRoundTrip
import CastlePlus.StrictNumbers

/-! # What the configuration files can say

    The routes file is read back like the manifest (**`routes_round_trip`**); and both loaders
    accept exactly the well-formed tables: every one of them has a text, and no text yields
    another (**`config_files_exact`**). -/

namespace CastlePlus

open TextFormat

/-- What the routes file can hold. -/
structure Route.WellFormed (r : Route) : Prop where
  named : r.name ≠ []
  name : Plain r.name
  host : Plain r.host
  lower : r.host.map toLower = r.host
  pathSome : r.pathPrefix ≠ []
  path : Plain r.pathPrefix
  backendSome : r.backend.host ≠ []
  backendHost : Plain r.backend.host
  port : r.backend.port ≠ 0

/-! ## Writing a table -/

/-- The keys of a section; `host` may be written in any case. -/
def routeFields (r : Route) (host : Bytes) : List (Bytes × Bytes) :=
  [(ascii "host", host), (ascii "path", r.pathPrefix),
    (ascii "backend", hostPortText r.backend.host r.backend.port)]

def routeItems (r : Route) (host : Bytes) : List Item :=
  .header r.name :: (routeFields r host).map fun kv => .entry kv.1 kv.2

inductive RoutesItems : List Route → List Item → Prop where
  | nil : RoutesItems [] []
  | cons {r : Route} {rs : List Route} {host : Bytes} {items : List Item} (hplain : Plain host)
      (hcase : host.map toLower = r.host) (rest : RoutesItems rs items) :
      RoutesItems (r :: rs) (routeItems r host ++ items)

/-- A text of the table.  Its last line need not be terminated. -/
def RoutesText (rs : List Route) (text : Bytes) : Prop :=
  ∃ items ls, RoutesItems rs items ∧ Rendered items ls ∧
    (text = unlines 0x0a ls ∨ text ++ [0x0a] = unlines 0x0a ls)

/-! ## Reading it back -/

theorem foldlM_routeFields {r : Route} {host : Bytes} (hwf : r.WellFormed)
    (hcase : host.map toLower = r.host) :
    (routeFields r host).foldlM (fun cur kv => setRouteKey cur kv.1 kv.2) { name := r.name } =
      .ok r := by
  have hhost : ∀ cur val, setRouteKey cur (ascii "host") val =
      .ok { cur with host := val.map toLower } := fun _ _ => rfl
  have hpath : ∀ cur, setRouteKey cur (ascii "path") r.pathPrefix =
      .ok { cur with pathPrefix := r.pathPrefix } := by
    intro cur
    rw [setRouteKey, if_neg (by decide), if_pos rfl, if_neg hwf.pathSome]
  have hbackend : ∀ cur, setRouteKey cur (ascii "backend")
      (hostPortText r.backend.host r.backend.port) = .ok { cur with backend := r.backend } := by
    intro cur
    rw [setRouteKey, if_neg (by decide), if_neg (by decide), if_pos rfl,
      parseHostPort_text "backend" hwf.backendHost hwf.port]
  simp only [routeFields, List.foldlM_cons, List.foldlM_nil, hhost, hpath, hbackend, hcase, bind,
    Except.bind]
  rfl

theorem routeItems_ok {r : Route} {host : Bytes} (hwf : r.WellFormed) (hplain : Plain host) :
    ∀ item ∈ routeItems r host, item.Ok := by
  intro item hitem
  rcases List.mem_cons.mp hitem with rfl | hitem
  · exact ⟨hwf.named, hwf.name⟩
  · obtain ⟨kv, hkv, rfl⟩ := List.mem_map.mp hitem
    simp only [routeFields, List.mem_cons, List.not_mem_nil, or_false] at hkv
    rcases hkv with rfl | rfl | rfl
    · exact ⟨plainKey_of_isKeyChar rfl, hplain⟩
    · exact ⟨plainKey_of_isKeyChar rfl, hwf.path⟩
    · exact ⟨plainKey_of_isKeyChar rfl, plain_hostPortText hwf.backendHost _⟩

theorem routesItems_ok {rs : List Route} {items : List Item} (h : RoutesItems rs items)
    (hwf : ∀ r ∈ rs, r.WellFormed) : ∀ item ∈ items, item.Ok := by
  induction h with
  | nil => intro item hitem; cases hitem
  | @cons r rs host items hplain hcase rest ih =>
      intro item hitem
      rcases List.mem_append.mp hitem with hitem | hitem
      · exact routeItems_ok (hwf r List.mem_cons_self) hplain item hitem
      · exact ih (fun r' hr' => hwf r' (List.mem_cons_of_mem _ hr')) item hitem

theorem foldlM_routesItems {rs : List Route} {items : List Item} (h : RoutesItems rs items)
    (hwf : ∀ r ∈ rs, r.WellFormed) : ∀ result : List Route,
      items.foldlM (applyItem (fun name => { name }) setRouteKey) result = .ok (result ++ rs) := by
  induction h with
  | nil => intro result; rw [List.append_nil]; rfl
  | @cons r rs host items hplain hcase rest ih =>
      intro result
      have hfields : ((routeFields r host).map fun kv => Item.entry kv.1 kv.2).foldlM
          (applyItem (fun name => { name }) setRouteKey) (result ++ [{ name := r.name }]) =
            .ok (result ++ [r]) := foldlM_entries result
        (foldlM_routeFields (hwf r List.mem_cons_self) hcase)
      have hsection : (routeItems r host).foldlM (applyItem (fun name => { name }) setRouteKey)
          result = .ok (result ++ [r]) := by
        rw [routeItems, List.foldlM_cons]
        exact hfields
      rw [List.foldlM_append, hsection]
      have := ih (fun r' hr' => hwf r' (List.mem_cons_of_mem _ hr')) (result ++ [r])
      rwa [List.append_assoc, List.singleton_append] at this

theorem checkRoute_wellFormed {r : Route} (h : r.WellFormed) : checkRoute r = none :=
  if_neg fun hc => hc.elim h.backendSome h.port

theorem routerLoad_text {path err text : Bytes} {out rs : List Route}
    (hwf : ∀ r ∈ rs, r.WellFormed) (htext : RoutesText rs text) :
    routerLoad path (some text) out err = (true, rs, err) := by
  obtain ⟨items, ls, hitems, hr, htext⟩ := htext
  exact loadFile_rendered hr (routesItems_ok hitems hwf) (foldlM_routesItems hitems hwf []) htext
    fun r hr => checkRoute_wellFormed (hwf r hr)

/-- **Routes round trip.**  A well-formed table, written in the documented format with blanks,
    blank lines and comments anywhere and the hosts in any case, is what `Router::load` puts into
    `routes_`; and a file that is refused leaves the table as it was. -/
theorem routes_round_trip (path : Bytes) (out : List Route) (err : Bytes) :
    (∀ (rs : List Route) (text : Bytes), (∀ r ∈ rs, r.WellFormed) → RoutesText rs text →
      routerLoad path (some text) out err = (true, rs, err)) ∧
    (∀ file : Option Bytes, (routerLoad path file out err).1 = false →
      (routerLoad path file out err).2.1 = out) :=
  ⟨fun _ _ => routerLoad_text, fun _ => loadFile_false⟩

/-- A route whose texts hold the characters of the format. -/
def trickyRoute : Route where
  name := ascii "a]#"
  host := ascii "x=y"
  pathPrefix := ascii "/;p"
  backend := ⟨ascii "::1", 80⟩

theorem routes_round_trip_tricky :
    routerLoad (ascii "r") (some (ascii "# r\n [ a]# ]\nhost= X=y\npath =/;p\n\nbackend\t=::1:80"))
        [] [] = (true, [trickyRoute], []) ∧
      (routerLoad (ascii "r") (some (ascii "port = 1")) [trickyRoute] []).2.1 = [trickyRoute] := by
  have hplain : ∀ t : Bytes, (t.all fun c => !isTrimChar c) = true → Plain t := by
    intro t ht
    refine plain_of_noBlank fun c hc => ?_
    exact Bool.not_eq_true' _ ▸ List.all_eq_true.mp ht c hc
  have hwf : ∀ r ∈ [trickyRoute], r.WellFormed := by
    intro r hr
    rw [List.mem_singleton.mp hr]
    exact ⟨by decide, hplain _ (by decide), hplain _ (by decide), by decide, by decide,
      hplain _ (by decide), by decide, hplain _ (by decide), by decide⟩
  have hpad : ∀ t : Bytes, (t.all isPad) = true → Pad t := fun t ht => List.all_eq_true.mp ht
  refine ⟨(routes_round_trip _ [] []).1 [trickyRoute] _ hwf
    ⟨routeItems trickyRoute (ascii "X=y") ++ [], [ascii "# r", ascii " [ a]# ]",
      ascii "host= X=y", ascii "path =/;p", [], ascii "backend\t=::1:80"], ?_, ?_, .inr rfl⟩,
    (routes_round_trip _ [trickyRoute] []).2 _ (by decide)⟩
  · exact .cons (hplain _ (by decide)) (by decide) .nil
  · have hkey : ∀ {key val b c d line : Bytes}, (b.all isPad) = true → (c.all isPad) = true →
        (d.all isPad) = true → line = [] ++ (key ++ b ++ [0x3d] ++ (c ++ val ++ d)) →
        (Item.entry key val).Written line := fun hb hc hd hline =>
      ⟨[], _, _, _, hpad _ rfl, hpad _ hb, hpad _ hc, hpad _ hd, hline⟩
    refine .noise (.inr ⟨[], 0x23, ascii " r", hpad _ rfl, .inl rfl, by decide, rfl⟩) ?_
    refine .item ⟨[0x20], [0x20], [0x20], [], hpad _ rfl, hpad _ rfl, hpad _ rfl, hpad _ rfl, rfl⟩ ?_
    refine .item (hkey (b := []) (c := [0x20]) (d := []) rfl rfl rfl rfl) ?_
    refine .item (hkey (b := [0x20]) (c := []) (d := []) rfl rfl rfl rfl) ?_
    refine .noise (.inl (hpad _ rfl)) ?_
    exact .item (hkey (b := [0x09]) (c := []) (d := []) rfl rfl rfl rfl) .nil

/-! ## What is accepted -/

/-- What a line can say. -/
def Item.Read : Item → Prop
  | .header name => name ≠ [] ∧ Plain name
  | .entry _ val => Plain val

theorem plain_trim {t : Bytes} (h : 0x0a ∉ t) : Plain (trim t) :=
  ⟨bare_strip _ _, fun hmem => h (mem_of_mem_strip hmem)⟩

theorem readLine_read {line : Bytes} {item : Item} (h : readLine line = .ok (some item))
    (hnl : 0x0a ∉ line) : item.Read := by
  have ht : 0x0a ∉ trim line := fun hmem => hnl (mem_of_mem_strip hmem)
  rw [readLine] at h
  simp only at h
  split_ifs at h with hnoise hhead hlast hname
  · cases h
  · cases h
    refine ⟨hname, plain_trim fun hmem => ht ?_⟩
    exact List.mem_of_mem_drop (List.mem_of_mem_take hmem)
  · cases hsplit : splitFirst 0x3d (trim line) with
    | none => rw [hsplit] at h; cases h
    | some kv =>
        rw [hsplit] at h
        cases h
        refine plain_trim fun hmem => ht ?_
        rw [(splitFirst_spec hsplit).1]
        exact List.mem_append_right _ (List.mem_cons_of_mem _ hmem)

/-- The common loop: what every new record has and every key keeps, all records have. -/
theorem parseLines_all {α : Type} {mk : Bytes → α} {setKey : α → Bytes → Bytes → Except Bytes α}
    {P : α → Prop} (hmk : ∀ name, name ≠ [] → Plain name → P (mk name))
    (hset : ∀ cur key val next, P cur → Plain val → setKey cur key val = .ok next → P next)
    {ls : List Bytes} : ∀ {lineno : Nat} {result final : List α}, (∀ l ∈ ls, 0x0a ∉ l) →
      (∀ r ∈ result, P r) → parseLines mk setKey lineno result ls = .ok final →
      ∀ r ∈ final, P r := by
  induction ls with
  | nil =>
      intro lineno result final _ hresult h
      cases h
      exact hresult
  | cons l ls ih =>
      intro lineno result final hnl hresult h
      have hl := hnl l List.mem_cons_self
      have hls : ∀ l' ∈ ls, 0x0a ∉ l' := fun l' hl' => hnl l' (List.mem_cons_of_mem _ hl')
      rw [parseLines] at h
      cases hline : parseLine mk setKey result l with
      | error msg => rw [hline] at h; cases h
      | ok next =>
          rw [hline] at h
          refine ih hls ?_ h
          rcases parseLine_ok hline with ⟨-, rfl⟩ | ⟨name, hread, rfl⟩ |
            ⟨key, val, cur, upd, hread, hlast, hupd, rfl⟩
          · -- a blank line or a comment
            exact hresult
          · -- a header: one new record
            intro r hr
            rcases List.mem_append.mp hr with hr | hr
            · exact hresult r hr
            · obtain ⟨hne, hplain⟩ : name ≠ [] ∧ Plain name := readLine_read hread hl
              rw [List.mem_singleton.mp hr]
              exact hmk name hne hplain
          · -- an entry: the last record is replaced
            intro r hr
            rcases List.mem_append.mp hr with hr | hr
            · exact hresult r (List.dropLast_subset _ hr)
            · rw [List.mem_singleton.mp hr]
              have hval : Plain val := readLine_read hread hl
              exact hset cur key val upd (hresult cur (List.mem_of_getLast? hlast)) hval hupd

/-- `host:port` as it is accepted. -/
theorem parseHostPort_ok {name : String} {val host : Bytes} {port : UInt16} (hval : Plain val)
    (h : parseHostPort name val = .ok (host, port)) : Plain host ∧ port ≠ 0 := by
  rw [parseHostPort] at h
  cases hsplit : splitLast 0x3a val with
  | none => rw [hsplit] at h; cases h
  | some hp =>
      rw [hsplit] at h
      obtain ⟨a, b⟩ := hp
      simp only at h
      split_ifs at h with hrange
      cases h
      constructor
      · refine plain_trim fun hmem => hval.noNewline ?_
        rw [(splitLast_spec hsplit).1]
        exact List.mem_append_left _ hmem
      · intro hzero
        have hnat := congrArg UInt16.toNat hzero
        rw [Nat.toUInt16_eq, UInt16.toNat_ofNat'] at hnat
        have : (strtol b).toNat % 2 ^ 16 = 0 := hnat
        omega

/-! ## Lower case -/

theorem toLower_toNat (c : UInt8) : toLower c = c ∨
    (65 ≤ c.toNat ∧ c.toNat ≤ 90 ∧ (toLower c).toNat = c.toNat + 32) := by
  rw [toLower]
  split
  · rename_i hc
    rw [Bool.and_eq_true, decide_eq_true_eq, decide_eq_true_eq, UInt8.le_iff_toNat_le,
      UInt8.le_iff_toNat_le] at hc
    have h1 : (0x41 : UInt8).toNat = 65 := rfl
    have h2 : (0x5a : UInt8).toNat = 90 := rfl
    have h3 : (0x20 : UInt8).toNat = 32 := rfl
    refine .inr ⟨by omega, by omega, ?_⟩
    rw [UInt8.toNat_add, h3]
    omega
  · exact .inl rfl

theorem isTrimChar_toLower (c : UInt8) : isTrimChar (toLower c) = isTrimChar c := by
  rcases toLower_toNat c with h | ⟨hlo, hhi, h⟩
  · rw [h]
  · have hnot : ∀ d : UInt8, 40 ≤ d.toNat → isTrimChar d = false := by
      intro d hd
      have hne : ∀ k : UInt8, k.toNat < 40 → d ≠ k := fun k hk hdk => by
        rw [hdk] at hd
        omega
      simp [isTrimChar, hne 0x20 (by decide), hne 0x09 (by decide), hne 0x0d (by decide),
        hne 0x0a (by decide)]
    rw [hnot _ (by omega), hnot _ (by omega)]

theorem toLower_toLower (c : UInt8) : toLower (toLower c) = toLower c := by
  rcases toLower_toNat (toLower c) with h | ⟨hlo, hhi, -⟩
  · exact h
  · rcases toLower_toNat c with h | ⟨hlo', hhi', h⟩
    · rw [h, h]
    · omega

theorem plain_lower {t : Bytes} (h : Plain t) : Plain (t.map toLower) := by
  refine ⟨⟨fun c hc => ?_, fun c hc => ?_⟩, fun hmem => ?_⟩
  · rw [List.head?_map, Option.mem_map] at hc
    obtain ⟨d, hd, rfl⟩ := hc
    rw [isTrimChar_toLower]
    exact h.bare.head d hd
  · rw [List.getLast?_map, Option.mem_map] at hc
    obtain ⟨d, hd, rfl⟩ := hc
    rw [isTrimChar_toLower]
    exact h.bare.last d hd
  · obtain ⟨d, hd, hdl⟩ := List.mem_map.mp hmem
    rcases toLower_toNat d with heq | ⟨hlo, hhi, heq⟩
    · rw [← heq, hdl] at hd
      exact h.noNewline hd
    · rw [hdl, show (0x0a : UInt8).toNat = 10 from rfl] at heq
      omega

/-! ## The two tables -/

/-- What every record of the routes file has. -/
structure RouteRead (r : Route) : Prop where
  named : r.name ≠ []
  name : Plain r.name
  host : Plain r.host
  lower : r.host.map toLower = r.host
  pathSome : r.pathPrefix ≠ []
  path : Plain r.pathPrefix
  backendHost : Plain r.backend.host

theorem plain_nil : Plain [] := ⟨⟨fun c hc => (by cases hc), fun c hc => (by cases hc)⟩, by simp⟩

theorem routeRead_mk {name : Bytes} (hne : name ≠ []) (hplain : Plain name) :
    RouteRead { name } :=
  ⟨hne, hplain, plain_nil, rfl, List.cons_ne_nil _ _,
    plain_of_noBlank (show ∀ c ∈ ascii "/", isTrimChar c = false by decide +kernel), plain_nil⟩

theorem routeRead_setRouteKey {cur next : Route} {key val : Bytes} (h : RouteRead cur)
    (hval : Plain val) (hset : setRouteKey cur key val = .ok next) : RouteRead next := by
  rw [setRouteKey] at hset
  split_ifs at hset with hhost hpath hempty hbackend
  · cases hset
    refine ⟨h.named, h.name, plain_lower hval, ?_, h.pathSome, h.path, h.backendHost⟩
    rw [List.map_map]
    exact List.map_congr_left fun c _ => toLower_toLower c
  · cases hset
    exact h
  · cases hset
    exact ⟨h.named, h.name, h.host, h.lower, hempty, hval, h.backendHost⟩
  · cases hparse : parseHostPort "backend" val with
    | error msg => rw [hparse] at hset; cases hset
    | ok hp =>
        rw [hparse] at hset
        cases hset
        exact ⟨h.named, h.name, h.host, h.lower, h.pathSome, h.path,
          (parseHostPort_ok hval hparse).1⟩

/-- What every record of the manifest has. -/
structure ServiceRead (e : ServiceEntry) : Prop where
  named : e.name ≠ []
  name : Plain e.name
  exec : Plain e.exec
  workdir : Plain e.workdir
  healthHost : Plain e.healthHost
  unchecked : e.healthPort = 0 → e.healthHost = []
  args : ∀ a ∈ e.args, 0x22 ∉ a ∧ 0x0a ∉ a

/-- The arguments keep neither the quotes nor what the text does not have. -/
theorem splitArgs_notMem {v : Bytes} (hv : 0x0a ∉ v) : ∀ a ∈ splitArgs v, 0x22 ∉ a ∧ 0x0a ∉ a := by
  -- the scan keeps both free of quotes: what is finished and the argument at hand
  have hscan : ∀ (v : Bytes) (s : ArgScan), 0x0a ∉ v → (∀ a ∈ s.out, 0x22 ∉ a ∧ 0x0a ∉ a) →
      0x22 ∉ s.cur ∧ 0x0a ∉ s.cur →
      (∀ a ∈ (v.foldl ArgScan.next s).out, 0x22 ∉ a ∧ 0x0a ∉ a) ∧
        0x22 ∉ (v.foldl ArgScan.next s).cur ∧ 0x0a ∉ (v.foldl ArgScan.next s).cur := by
    intro v
    induction v with
    | nil => intro s _ hout hcur; exact ⟨hout, hcur⟩
    | cons c v ih =>
        intro s hv hout hcur
        have hvn : 0x0a ∉ v := fun h => hv (List.mem_cons_of_mem _ h)
        have hc : c ≠ 0x0a := fun h => hv (h ▸ List.mem_cons_self)
        rw [List.foldl_cons]
        refine ih _ hvn ?_ ?_
        · rw [ArgScan.next]
          split_ifs with hq hblank hhave
          · exact hout
          · intro a ha
            rcases List.mem_append.mp ha with ha | ha
            · exact hout a ha
            · rw [List.mem_singleton.mp ha]
              exact hcur
          · exact hout
          · exact hout
        · rw [ArgScan.next]
          split_ifs with hq hblank hhave
          · exact hcur
          · exact ⟨List.not_mem_nil, List.not_mem_nil⟩
          · exact hcur
          · constructor
            · intro hmem
              rcases List.mem_append.mp hmem with hmem | hmem
              · exact hcur.1 hmem
              · exact hq (List.mem_singleton.mp hmem).symm
            · intro hmem
              rcases List.mem_append.mp hmem with hmem | hmem
              · exact hcur.2 hmem
              · exact hc (List.mem_singleton.mp hmem).symm
  obtain ⟨hout, hcur⟩ := hscan v {} hv (fun a ha => (by cases ha))
    ⟨List.not_mem_nil, List.not_mem_nil⟩
  intro a ha
  rw [splitArgs, ArgScan.finish] at ha
  split at ha
  · rcases List.mem_append.mp ha with ha | ha
    · exact hout a ha
    · rw [List.mem_singleton.mp ha]
      exact hcur
  · exact hout a ha

theorem serviceRead_mk {name : Bytes} (hne : name ≠ []) (hplain : Plain name) :
    ServiceRead { name } :=
  ⟨hne, hplain, plain_nil, plain_nil, plain_nil, fun _ => rfl, fun a ha => (by cases ha)⟩

theorem serviceRead_setServiceKey {cur next : ServiceEntry} {key val : Bytes}
    (h : ServiceRead cur) (hval : Plain val) (hset : setServiceKey cur key val = .ok next) :
    ServiceRead next := by
  rw [setServiceKey] at hset
  split_ifs at hset
  · cases hset
    exact ⟨h.named, h.name, hval, h.workdir, h.healthHost, h.unchecked, h.args⟩
  · cases hset
    exact ⟨h.named, h.name, h.exec, h.workdir, h.healthHost, h.unchecked,
      splitArgs_notMem hval.noNewline⟩
  · cases hset
    exact ⟨h.named, h.name, h.exec, hval, h.healthHost, h.unchecked, h.args⟩
  · cases hbool : parseBool val with
    | none => rw [hbool] at hset; cases hset
    | some b =>
        rw [hbool] at hset
        cases hset
        exact ⟨h.named, h.name, h.exec, h.workdir, h.healthHost, h.unchecked, h.args⟩
  · cases hparse : parseHostPort "health_tcp" val with
    | error msg => rw [hparse] at hset; cases hset
    | ok hp =>
        rw [hparse] at hset
        cases hset
        obtain ⟨hhost, hport⟩ := parseHostPort_ok hval hparse
        exact ⟨h.named, h.name, h.exec, h.workdir, hhost, fun hz => absurd hz hport, h.args⟩
  · cases hset
    exact ⟨h.named, h.name, h.exec, h.workdir, h.healthHost, h.unchecked, h.args⟩
  · cases hset
    exact ⟨h.named, h.name, h.exec, h.workdir, h.healthHost, h.unchecked, h.args⟩
  · cases hset
    exact ⟨h.named, h.name, h.exec, h.workdir, h.healthHost, h.unchecked, h.args⟩

theorem routerLoad_wellFormed {path text err err' : Bytes} {out rs : List Route}
    (h : routerLoad path (some text) out err = (true, rs, err')) : ∀ r ∈ rs, r.WellFormed := by
  obtain ⟨hparse, hcheck⟩ := loadFile_accepts h
  have hread := parseLines_all (P := RouteRead) (fun _ => routeRead_mk)
    (fun _ _ _ _ => routeRead_setRouteKey) (fun l hl => sep_notMem_lines hl)
    (fun r hr => (by cases hr)) hparse
  intro r hr
  obtain ⟨h1, h2, h3, h4, h5, h6, h7⟩ := hread r hr
  have hbackend : ¬ (r.backend.host = [] ∨ r.backend.port = 0) := by
    intro hc
    have := hcheck r hr
    rw [checkRoute, if_pos hc] at this
    cases this
  rw [not_or] at hbackend
  exact ⟨h1, h2, h3, h4, h5, h6, hbackend.1, h7, hbackend.2⟩

theorem parseServicesFile_wellFormed {path text err err' : Bytes} {out es : List ServiceEntry}
    (h : parseServicesFile path (some text) out err = (true, es, err')) :
    ∀ e ∈ es, e.WellFormed := by
  obtain ⟨hparse, hcheck⟩ := loadFile_accepts h
  have hread := parseLines_all (P := ServiceRead) (fun _ => serviceRead_mk)
    (fun _ _ _ _ => serviceRead_setServiceKey) (fun l hl => sep_notMem_lines hl)
    (fun e he => (by cases he)) hparse
  intro e he
  obtain ⟨h1, h2, h3, h4, h5, h6, h7⟩ := hread e he
  have habs : e.exec.head? = some 0x2f := by
    by_contra hc
    have := hcheck e he
    rw [checkService] at this
    split_ifs at this
  exact ⟨h1, h2, h3, habs, h4, h5, h6, fun a ha => (h7 a ha).1, fun a ha => (h7 a ha).2⟩

/-- A table with nothing added. -/
def routesLines (rs : List Route) : List Bytes :=
  rs.flatMap fun r => (routeItems r r.host).map Item.line

theorem routesText_lines {rs : List Route} (hwf : ∀ r ∈ rs, r.WellFormed) :
    RoutesText rs (unlines 0x0a (routesLines rs)) := by
  have hitems : ∃ items, RoutesItems rs items ∧ items.map Item.line = routesLines rs := by
    induction rs with
    | nil => exact ⟨[], .nil, rfl⟩
    | cons r rs ih =>
        obtain ⟨items, hitems, hmap⟩ := ih fun r' hr' => hwf r' (List.mem_cons_of_mem _ hr')
        have hr := hwf r List.mem_cons_self
        refine ⟨_, .cons hr.host hr.lower hitems, ?_⟩
        rw [List.map_append, hmap]
        rfl
  obtain ⟨items, hitems, hmap⟩ := hitems
  exact ⟨items, routesLines rs, hitems, hmap ▸ rendered_lines items, .inl rfl⟩

/-- **Configuration files, exactly.**  The lists that `parse_services_file` and `Router::load` can
    return are exactly those of well-formed records, in any number and with names in any order or
    repeated. -/
theorem config_files_exact (path err : Bytes) (services : List ServiceEntry) (table : List Route) :
    (∀ es, (∃ text, parseServicesFile path (some text) services err = (true, es, err)) ↔
      ∀ e ∈ es, e.WellFormed) ∧
    (∀ rs, (∃ text, routerLoad path (some text) table err = (true, rs, err)) ↔
      ∀ r ∈ rs, r.WellFormed) := by
  refine ⟨fun es => ⟨?_, fun hwf => ?_⟩, fun rs => ⟨?_, fun hwf => ?_⟩⟩
  · rintro ⟨text, h⟩
    exact parseServicesFile_wellFormed h
  · have hnone : ∀ l ∈ ([] : List Bytes), Noise l := fun l hl => (by cases hl)
    exact ⟨_, parseServicesFile_text hwf (manifestText_lines es hnone)⟩
  · rintro ⟨text, h⟩
    exact routerLoad_wellFormed h
  · exact ⟨_, routerLoad_text hwf (routesText_lines hwf)⟩

end CastlePlus
