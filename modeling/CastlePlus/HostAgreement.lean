import CastlePlus.HeadRewrite

/-! # The host that is routed on and the hosts that are forwarded

    The header loop of `process_head` overwrites `host` at every `Host` header and appends all
    of them to the forwarded head.  So the router sees the last value and the backend sees them
    all: the two agree exactly when the request has no two `Host` headers with different
    values. -/

namespace CastlePlus

open PhrResult ScriptProg

theorem scanContentLength_host {name value : Bytes} {acc acc' : HeadScan}
    (h : scanContentLength name value acc = .scanned acc') : acc'.host = acc.host := by
  rw [scanContentLength] at h
  split at h
  · split at h
    · cases h
    · split at h <;> cases h
      rfl
  · cases h
    rfl

/-- The loop leaves the last `Host` value. -/
theorem scanHeaders_host {hs : List PhrHeader} {acc acc' : HeadScan}
    (h : scanHeaders hs acc = .scanned acc') :
    acc'.host = (valuesOf (ascii "host") hs).getLastD acc.host := by
  induction hs generalizing acc with
  | nil =>
      cases h
      rfl
  | cons hd hs ih =>
      obtain ⟨_ | name, value⟩ := hd
      · have h' : scanHeaders hs acc = .scanned acc' := h
        exact ih h'
      · simp only [scanHeaders] at h
        generalize hhost : (if iequals name (ascii "host") then { acc with host := value }
          else acc) = acc₁ at h
        cases hscan : scanContentLength name value acc₁ with
        | reply r => rw [hscan] at h; cases h
        | overflow => rw [hscan] at h; cases h
        | scanned acc₂ =>
            rw [hscan] at h
            dsimp only at h
            -- what is left of the turn does not touch the host
            have hrest : acc'.host = (valuesOf (ascii "host") hs).getLastD acc₂.host := by
              split at h <;> split at h
              all_goals
                have hlast := ih h
                exact hlast
            rw [hrest, scanContentLength_host hscan, ← hhost, valuesOf_cons_some]
            by_cases hname : iequals name (ascii "host") = true
            · rw [if_pos hname, if_pos hname, List.singleton_append, List.getLastD_cons]
            · rw [if_neg hname, if_neg hname, List.nil_append]

/-- Every value is the last one as soon as any two are equal. -/
theorem forall_eq_getLastD_iff {α : Type} {l : List α} {a : α} :
    (∀ v ∈ l, v = l.getLastD a) ↔ ∀ u ∈ l, ∀ v ∈ l, u = v := by
  constructor
  · intro h u hu v hv
    rw [h u hu, h v hv]
  · intro h v hv
    refine h v hv _ ?_
    cases l with
    | nil => cases hv
    | cons b l =>
        rw [List.getLastD_cons, List.getLastD_eq_getLast?]
        cases hl : l.getLast? with
        | none => exact List.mem_cons_self
        | some c => exact List.mem_cons_of_mem _ (List.mem_of_getLast? hl)

/-- For every request that `process_head` forwards: it was routed on `acc.host`, the head handed
    to the backend reads back, and the `Host` values in it are all `acc.host` exactly when the
    request has no two `Host` headers with different values. -/
theorem host_agrees_iff (cfg : Cfg) {buf rest head : Bytes} {req : PhrRequest} {target : Backend}
    {len : Nat} (hparse : phrParseRequest (some kMaxHeaders) buf = done req rest)
    (hforward : headVerdict cfg.routes cfg.maxBody req = .forward head target len) :
    ∃ acc, scanHeaders req.headers { head := requestLine req.method req.path } = .scanned acc ∧
      routerMatch cfg.routes acc.host req.path = some target ∧
      (∀ n s w, s.client.inBuf = buf → ∃ s₁ : Pair,
        processHead cfg (n + 1) s w = beginUpload cfg n s₁ w ∧ s₁.client.upstream = head) ∧
      ∃ hd, phrParseRequest none head = done hd [] ∧
        ((∀ v ∈ valuesOf (ascii "host") hd.headers, v = acc.host) ↔
          ∀ u ∈ valuesOf (ascii "host") req.headers,
            ∀ v ∈ valuesOf (ascii "host") req.headers, u = v) := by
  obtain ⟨acc, hscan, -, -, -, -, hmatch⟩ := headVerdict_forward_inv hforward
  have hfaithful := headVerdict_forward (phrParseRequest_done hparse).1 hforward
  refine ⟨acc, hscan, hmatch, ?_, forwarded req, ?_, ?_⟩
  · intro n s w hin
    rw [processHead_done hparse n hin, hforward]
    exact ⟨acceptHead head target len (setHeadLen (buf.length - rest.length) s), rfl, rfl⟩
  · have hread := hfaithful.readBack []
    rwa [List.append_nil] at hread
  · rw [valuesOf_forwarded req (fun _ => not_isHopByHop (by decide)) (by decide),
      scanHeaders_host hscan]
    exact forall_eq_getLastD_iff

/-- A table with one route, for host `b`. -/
def hostCfg : Cfg := ⟨.plain, [{ host := ascii "b", backend := ⟨ascii "127.0.0.1", 80⟩ }], 0, 0⟩

def twoHosts : Bytes := ascii "GET / HTTP/1.1\r\nHost: a\r\nHost: b\r\n\r\n"

def oneHost : Bytes := ascii "GET / HTTP/1.1\r\nHost: b\r\nHOST: b\r\n\r\n"

/-- The request is routed to `b`, and the backend reads `Host: a` first. -/
theorem host_differs : ∃ req acc head hd,
    phrParseRequest (some kMaxHeaders) twoHosts = done req [] ∧
    headVerdict hostCfg.routes hostCfg.maxBody req = .forward head ⟨ascii "127.0.0.1", 80⟩ 0 ∧
    scanHeaders req.headers { head := requestLine req.method req.path } = .scanned acc ∧
    routerMatch hostCfg.routes acc.host req.path = some ⟨ascii "127.0.0.1", 80⟩ ∧
    phrParseRequest none head = done hd [] ∧
    ∃ v ∈ valuesOf (ascii "host") hd.headers, v ≠ acc.host :=
  ⟨⟨ascii "GET", ascii "/", 1,
      [⟨some (ascii "Host"), ascii "a"⟩, ⟨some (ascii "Host"), ascii "b"⟩]⟩,
    ⟨ascii "b", 0, false, false, ascii "GET / HTTP/1.1\r\nHost: a\r\nHost: b\r\n"⟩,
    ascii "GET / HTTP/1.1\r\nHost: a\r\nHost: b\r\nConnection: close\r\n\r\n",
    ⟨ascii "GET", ascii "/", 1,
      [⟨some (ascii "Host"), ascii "a"⟩, ⟨some (ascii "Host"), ascii "b"⟩,
       ⟨some (ascii "Connection"), ascii "close"⟩]⟩,
    by decide, by decide, by rfl, by decide, by decide, ascii "a", by decide, by decide⟩

/-- Two `Host` headers with one value. -/
theorem host_agrees_one : ∃ hd,
    phrParseRequest none (ascii "GET / HTTP/1.1\r\nHost: b\r\nHOST: b\r\nConnection: close\r\n\r\n")
      = done hd [] ∧
    ∀ v ∈ valuesOf (ascii "host") hd.headers, v = ascii "b" := by
  obtain ⟨acc, hscan, -, -, hd, hread, hiff⟩ := host_agrees_iff hostCfg
    (show phrParseRequest (some kMaxHeaders) oneHost = done ⟨ascii "GET", ascii "/", 1,
      [⟨some (ascii "Host"), ascii "b"⟩, ⟨some (ascii "HOST"), ascii "b"⟩]⟩ [] by decide)
    (show _ = HeadVerdict.forward
      (ascii "GET / HTTP/1.1\r\nHost: b\r\nHOST: b\r\nConnection: close\r\n\r\n")
      ⟨ascii "127.0.0.1", 80⟩ 0 by decide)
  cases hscan
  exact ⟨hd, hread, hiff.mpr (by decide)⟩

end CastlePlus
