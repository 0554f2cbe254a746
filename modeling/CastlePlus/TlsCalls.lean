import CastlePlus.TlsMutex

/-! # The calls that castle makes of OpenSSL

    Two `Api`s over the log of calls: the contexts, from `SSL_CTX_new` to `SSL_CTX_free`, and the
    `SSL`s of the connections, from `SSL_new` to `SSL_free`.

    The main thread holds the context that it builds or exchanges and the one in `ctx_`; a
    connection holds its `SSL`.  So whatever the order of the steps, no call is made on a context
    or an `SSL` that castle has freed, and in the end all of them are freed
    (**`calls_on_open_handles`**). -/

namespace CastlePlus

open HandleLog

/-- The contexts that a thread inside `build_ctx` holds. -/
def BuildPc.holds : BuildPc → List Nat
  | .new => []
  | .cert p | .key p | .check p => [p]

def Built.holds : Built → List Nat
  | .goesOn b => b.holds
  | .failed => []
  | .done p => [p]

def MainPc.holds : MainPc → List Nat
  | .init b | .reload b => b.holds
  | .store p | .lock p | .swap p => [p]
  | .unlock old | .free old => old.toList
  | .parked | .join | .leave | .exited => []

/-- The connection has an `SSL`. -/
def ConnPc.owns : ConnPc → Bool
  | .made ssl | .unlocked ssl => ssl
  | .live => true
  | _ => false

/-- `SSL_new` has not been called for it. -/
def ConnPc.young : ConnPc → Bool
  | .accepted | .locked | .making _ => true
  | _ => false

namespace TlsContext

/-- `SSL_CTX`. -/
def contexts : Api TlsEvent Nat where
  opens
    | .ctxNew p => some p
    | _ => none
  touches
    | .harden p | .useCert p _ _ | .useKey p _ _ | .checkKey p _ | .ctxFree p => some p
    | .sslNew _ ctx _ => ctx
    | _ => none
  closes
    | .ctxFree p => some p
    | _ => none
  closes_touches e k h := by cases e <;> first | exact h | cases h
  opens_only e k h := by cases e <;> first | rfl | cases h

/-- `SSL`, by the number of its connection. -/
def sessions : Api TlsEvent Nat where
  opens
    | .sslNew k _ true => some k
    | _ => none
  touches
    | .sslUse k | .sslFree k => some k
    | _ => none
  closes
    | .sslFree k => some k
    | _ => none
  closes_touches e k h := by cases e <;> first | exact h | cases h
  opens_only e k h := by cases e <;> first | rfl | cases h

theorem sessions_of_byMain {e : TlsEvent} (h : byMain e = true) :
    sessions.opens e = none ∧ sessions.touches e = none := by
  cases e <;> first | exact ⟨rfl, rfl⟩ | cases h

variable {certPath keyPath : Bytes} {s s' : TlsContext} {p k : Nat} {c : ConnPc} {ok : Bool}

/-! ## The contexts -/

/-- The main thread holds `held`, and the numbers from `next` on are free. -/
structure Holds (held : List Nat) (s : TlsContext) : Prop where
  ledger : contexts.Ledger held s.log
  below : ∀ e ∈ s.log, ∀ p, contexts.opens e = some p → p < s.next

/-- With the one in `ctx_`. -/
def Owned (s : TlsContext) : Prop := Holds (s.pc.holds ++ s.ctx.toList) s

section Contexts

variable {held held' : List Nat}

theorem Holds.perm (h : Holds held s) (hp : held.Perm held') : Holds held' s :=
  ⟨h.ledger.perm hp, h.below⟩

theorem Holds.of_log (h : Holds held s) (hlog : s'.log = s.log) (hnext : s'.next = s.next) :
    Holds held s' := by
  refine ⟨hlog ▸ h.ledger, ?_⟩
  rw [hlog, hnext]
  exact h.below

theorem Holds.below_concat (h : Holds held s) {e : TlsEvent} (ho : contexts.opens e = none) :
    ∀ e' ∈ s.log ++ [e], ∀ p, contexts.opens e' = some p → p < s.next := by
  intro e' he' p hopen
  rcases List.mem_append.mp he' with he' | he'
  · exact h.below e' he' p hopen
  · rw [List.mem_singleton.mp he', ho] at hopen
    cases hopen

/-- A call on a context that is held, or none at all. -/
theorem Holds.call (h : Holds held s) {e : TlsEvent} (ho : contexts.opens e = none)
    (hc : contexts.closes e = none) (ht : ∀ p, contexts.touches e = some p → p ∈ held) :
    Holds held (report e s) :=
  ⟨h.ledger.touch ho hc ht, h.below_concat ho⟩

/-- The log gets an event that has nothing to do with contexts. -/
theorem Holds.skip {e : TlsEvent} (h : Holds held s) (hlog : s'.log = s.log ++ [e])
    (hnext : s'.next = s.next) (ho : contexts.opens e = none) (ht : contexts.touches e = none) :
    Holds held s' := by
  refine ⟨hlog ▸ h.ledger.skip ho ht, ?_⟩
  rw [hlog, hnext]
  exact h.below_concat ho

theorem Holds.ctxFree (h : Holds (p :: held) s) : Holds held (report (.ctxFree p) s) :=
  ⟨h.ledger.closed rfl rfl, h.below_concat rfl⟩

theorem Holds.release {o : Option Nat} (h : Holds (o.toList ++ held) s) :
    Holds held (release o s) := by
  cases o with
  | none => exact h
  | some p => exact h.ctxFree

theorem Holds.ctxNew (h : Holds held s) : Holds (s.next :: held)
    (report (.harden s.next) (report (.ctxNew s.next) { s with next := s.next + 1 })) := by
  have hfresh : ∀ e ∈ s.log, contexts.opens e ≠ some s.next := fun e he ho =>
    absurd (h.below e he _ ho) (Nat.lt_irrefl _)
  have hnew : Holds (s.next :: held)
      (report (.ctxNew s.next) { s with next := s.next + 1 }) := by
    refine ⟨h.ledger.opened rfl hfresh, fun e he p hopen => ?_⟩
    rcases List.mem_append.mp he with he | he
    · exact Nat.lt_succ_of_lt (h.below e he p hopen)
    · rw [List.mem_singleton.mp he] at hopen
      cases hopen
      exact Nat.lt_succ_self _
  refine hnew.call rfl rfl fun p hp => ?_
  cases hp
  exact List.mem_cons_self

/-- `build_ctx` gives what it holds to its caller or frees it. -/
theorem Holds.build (ok : Bool) (cert key : Bytes) {b : BuildPc} (h : Holds (b.holds ++ held) s) :
    Holds ((TlsContext.build ok cert key s b).1.holds ++ held)
      (TlsContext.build ok cert key s b).2 := by
  have hself : ∀ {p q : Nat}, some p = some q → q ∈ p :: held := by
    intro p q heq
    cases heq
    exact List.mem_cons_self
  have hgiveUp : ∀ {p : Nat} {s : TlsContext} (err : Bytes), Holds (p :: held) s →
      Holds held (report (.ctxFree p) { s with err := err }) :=
    fun err h => Holds.ctxFree (h.of_log rfl rfl)
  cases b with
  | new =>
      rw [TlsContext.build]
      split
      · exact h.ctxNew
      · exact h.of_log rfl rfl
  | cert p =>
      have hcall : Holds (p :: held) (report (.useCert p cert ok) s) :=
        h.call rfl rfl fun _ => hself
      rw [TlsContext.build]
      split
      · exact hcall
      · exact hgiveUp _ hcall
  | key p =>
      have hcall : Holds (p :: held) (report (.useKey p key ok) s) :=
        h.call rfl rfl fun _ => hself
      rw [TlsContext.build]
      split
      · exact hcall
      · exact hgiveUp _ hcall
  | check p =>
      have hcall : Holds (p :: held) (report (.checkKey p ok) s) :=
        h.call rfl rfl fun _ => hself
      rw [TlsContext.build]
      split
      · exact hcall
      · exact hgiveUp _ hcall

theorem Owned.built (h : Owned s) (ok : Bool) (cert key : Bytes) {b : BuildPc}
    (hb : s.pc.holds = b.holds) :
    Holds ((TlsContext.build ok cert key s b).1.holds ++
      (TlsContext.build ok cert key s b).2.ctx.toList) (TlsContext.build ok cert key s b).2 := by
  obtain ⟨next, err, log, heq, -⟩ := build_frame ok cert key s b
  rw [Owned, hb] at h
  have hheld := h.build ok cert key
  rw [heq] at hheld ⊢
  exact hheld

theorem Owned.mainStep (h : Owned s) (hg : Guarded s) : Owned (mainStep certPath keyPath ok s) := by
  rw [TlsContext.mainStep]
  split
  · rename_i b hpc
    have hb := h.built ok certPath keyPath (b := b) (by rw [hpc]; rfl)
    split
    · rename_i heq
      rw [heq] at hb
      exact hb.of_log rfl rfl
    · rename_i heq
      rw [heq] at hb
      exact hb.skip rfl rfl rfl rfl
    · rename_i heq
      rw [heq] at hb
      exact hb.of_log rfl rfl
  · rename_i fresh hpc
    -- `ctx_` was null, so that nothing is overwritten
    have hnull : s.ctx = none := hg.starting (by rw [hpc]; rfl)
    rw [Owned, hpc, hnull] at h
    exact h.skip rfl rfl rfl rfl
  · rename_i b hpc
    have hb := h.built ok s.certPath s.keyPath (b := b) (by rw [hpc]; rfl)
    split
    · rename_i heq
      rw [heq] at hb
      exact hb.of_log rfl rfl
    · rename_i heq
      rw [heq] at hb
      exact hb.skip rfl rfl rfl rfl
    · rename_i heq
      rw [heq] at hb
      exact hb.of_log rfl rfl
  · rename_i fresh hpc
    split
    · rw [Owned, hpc] at h
      exact h.of_log rfl rfl
    · exact h
  · rename_i fresh hpc
    rw [Owned, hpc] at h
    -- what was in `ctx_` and what was built change places
    have hp := h.perm List.perm_append_comm
    exact hp.skip rfl rfl rfl rfl
  · rename_i old hpc
    rw [Owned, hpc] at h
    exact h.of_log rfl rfl
  · rename_i old hpc
    rw [Owned, hpc] at h
    have hr := Holds.release h
    obtain ⟨log, heq, -⟩ := release_frame old s
    rw [heq] at hr ⊢
    exact hr.skip rfl rfl rfl rfl
  · rename_i hpc
    split
    · rw [Owned, hpc] at h
      exact h.of_log rfl rfl
    · exact h
  · rename_i hpc
    split
    · rw [Owned, hpc] at h
      have hr := Holds.release (h.perm List.perm_append_comm)
      exact hr.of_log rfl rfl
    · exact h
  · exact h
  · exact h

theorem Owned.step (h : Owned s) (hg : Guarded s) (l : TlsLabel) :
    Owned (step certPath keyPath s l) := by
  cases l with
  | main ok => exact h.mainStep hg
  | conn k ok =>
      rw [TlsContext.step, connStep]
      split
      · split
        · exact h
        · exact h.of_log rfl rfl
      · exact h.of_log rfl rfl
      · rename_i ctx hk
        -- `SSL_new` gets what `ctx_` points to
        have hmade : Holds (s.pc.holds ++ s.ctx.toList) (setConn k (.made ok) s) := h.of_log rfl rfl
        refine hmade.call rfl rfl fun p hp => ?_
        have hctx : ctx = s.ctx := hg.making _ (List.mem_of_getElem? hk)
        have hp' : s.ctx = some p := hctx ▸ hp
        rw [hp']
        exact List.mem_append_right _ List.mem_cons_self
      · exact h.of_log rfl rfl
      · exact Holds.skip h rfl rfl rfl rfl
      · exact Holds.skip h rfl rfl rfl rfl
      · exact Holds.skip h rfl rfl rfl rfl
      · exact h.of_log rfl rfl
      · exact h
      · exact h
  | io k =>
      rw [TlsContext.step]
      split
      · exact Holds.skip h rfl rfl rfl rfl
      · exact h
  | sighup =>
      rw [TlsContext.step]
      split
      · rename_i hpc
        rw [Owned, hpc] at h
        exact h.of_log rfl rfl
      · exact h
  | sigterm =>
      rw [TlsContext.step]
      split
      · rename_i hpc
        rw [Owned, hpc] at h
        exact h.of_log rfl rfl
      · exact h
  | accept =>
      rw [TlsContext.step]
      split
      · exact h.of_log rfl rfl
      · exact h

end Contexts

/-! ## The `SSL`s -/

/-- The connections that have an `SSL`. -/
def owners (conns : List ConnPc) : List Nat :=
  (List.range conns.length).filter fun k => conns[k]?.any ConnPc.owns

theorem mem_owners {conns : List ConnPc} :
    k ∈ owners conns ↔ ∃ c, conns[k]? = some c ∧ c.owns = true := by
  rw [owners, List.mem_filter, List.mem_range, Option.any_eq_true]
  constructor
  · exact fun h => h.2
  · rintro ⟨c, hk, hc⟩
    exact ⟨(List.getElem?_eq_some_iff.mp hk).1, c, hk, hc⟩

theorem nodup_owners (conns : List ConnPc) : (owners conns).Nodup :=
  List.nodup_range.filter _

/-- The connection for which an event calls `SSL_new`. -/
def mintOf : TlsEvent → Option Nat
  | .sslNew k _ _ => some k
  | _ => none

theorem mintOf_opens {e : TlsEvent} (h : sessions.opens e = some k) : mintOf e = some k := by
  cases e with
  | sslNew j ctx ok =>
      cases ok with
      | false => cases h
      | true => exact h
  | _ => cases h

/-- The `SSL`s of the connections, each made by the one `SSL_new` of its connection. -/
structure Sessions (s : TlsContext) : Prop where
  ledger : sessions.Ledger (owners s.conns) s.log
  once : (s.log.filterMap mintOf).Nodup
  older : ∀ k ∈ s.log.filterMap mintOf, ∃ c, s.conns[k]? = some c ∧ c.young = false

section Connections

/-- Which connections have an `SSL` once one of them has moved. -/
theorem mem_owners_set {d : ConnPc} {j : Nat} (hk : s.conns[k]? = some c) :
    j ∈ owners (s.conns.set k d) ↔ (j = k ∧ d.owns = true) ∨ (j ≠ k ∧ j ∈ owners s.conns) := by
  obtain ⟨hlt, -⟩ := List.getElem?_eq_some_iff.mp hk
  rw [mem_owners, mem_owners]
  by_cases hj : k = j
  · subst hj
    rw [List.getElem?_set_self hlt]
    constructor
    · rintro ⟨_, heq, ho⟩
      cases heq
      exact .inl ⟨rfl, ho⟩
    · rintro (⟨-, ho⟩ | ⟨hne, -⟩)
      · exact ⟨d, rfl, ho⟩
      · exact absurd rfl hne
  · rw [List.getElem?_set_ne hj]
    constructor
    · exact fun h => .inr ⟨fun heq => hj heq.symm, h⟩
    · rintro (⟨heq, -⟩ | ⟨-, h⟩)
      · exact absurd heq.symm hj
      · exact h

/-- A connection moves on, and the log with it. -/
theorem Sessions.move {d : ConnPc} (h : Sessions s) (hk : s.conns[k]? = some c)
    (hconns : s'.conns = s.conns.set k d)
    (hledger : sessions.Ledger (owners (s.conns.set k d)) s'.log)
    (hmints : s'.log.filterMap mintOf = s.log.filterMap mintOf)
    (hyoung : c.young = false → d.young = false) : Sessions s' := by
  refine ⟨hconns ▸ hledger, hmints ▸ h.once, fun j hj => ?_⟩
  obtain ⟨hlt, -⟩ := List.getElem?_eq_some_iff.mp hk
  obtain ⟨e, hje, hy⟩ := h.older j (hmints ▸ hj)
  rw [hconns]
  by_cases heq : k = j
  · subst heq
    rw [hk] at hje
    cases hje
    exact ⟨d, List.getElem?_set_self hlt, hyoung hy⟩
  · exact ⟨e, (List.getElem?_set_ne heq).trans hje, hy⟩

/-- The connection keeps what it has. -/
theorem owners_keep {d : ConnPc} (hk : s.conns[k]? = some c) (ho : d.owns = c.owns) :
    (owners s.conns).Perm (owners (s.conns.set k d)) := by
  refine (List.perm_ext_iff_of_nodup (nodup_owners _) (nodup_owners _)).mpr fun j => ?_
  rw [mem_owners_set hk, ho]
  by_cases hj : j = k
  · subst hj
    rw [mem_owners, hk]
    constructor
    · rintro ⟨_, heq, hown⟩
      cases heq
      exact .inl ⟨rfl, hown⟩
    · rintro (⟨-, hown⟩ | ⟨hne, -⟩)
      · exact ⟨c, rfl, hown⟩
      · exact absurd rfl hne
  · constructor
    · exact fun h => .inr ⟨hj, h⟩
    · rintro (⟨heq, -⟩ | ⟨-, h⟩)
      · exact absurd heq hj
      · exact h

/-- It gets an `SSL`, or gives up the one it has. -/
theorem owners_gain {c d : ConnPc} {conns : List ConnPc} (hk : conns[k]? = some c)
    (hc : c.owns = false) (hd : d.owns = true) :
    (k :: owners conns).Perm (owners (conns.set k d)) := by
  have hnot : k ∉ owners conns := by
    rw [mem_owners, hk]
    rintro ⟨_, heq, hown⟩
    cases heq
    rw [hc] at hown
    cases hown
  refine (List.perm_ext_iff_of_nodup (List.nodup_cons.mpr ⟨hnot, nodup_owners _⟩)
    (nodup_owners _)).mpr fun j => ?_
  rw [List.mem_cons, mem_owners_set (s := { conns := conns }) hk]
  constructor
  · rintro (rfl | h)
    · exact .inl ⟨rfl, hd⟩
    · exact .inr ⟨fun heq => hnot (heq ▸ h), h⟩
  · rintro (⟨rfl, -⟩ | ⟨-, h⟩)
    · exact .inl rfl
    · exact .inr h

theorem owners_lose {d : ConnPc} (hk : s.conns[k]? = some c) (hc : c.owns = true)
    (hd : d.owns = false) : (owners s.conns).Perm (k :: owners (s.conns.set k d)) := by
  obtain ⟨hlt, -⟩ := List.getElem?_eq_some_iff.mp hk
  have hset : (s.conns.set k d)[k]? = some d := List.getElem?_set_self hlt
  have hback := owners_gain hset hd hc
  have hsame : s.conns.set k c = s.conns := by
    obtain ⟨_, rfl⟩ := List.getElem?_eq_some_iff.mp hk
    exact List.set_getElem_self _
  rw [List.set_set, hsame] at hback
  exact hback.symm

/-- `SSL_new` is called for a connection that has not had its call. -/
theorem Sessions.mint {ctx : Option Nat} (h : Sessions s) (hk : s.conns[k]? = some (.making ctx)) :
    Sessions (report (.sslNew k ctx ok) (setConn k (.made ok) s)) := by
  -- a connection that had its call is past `making`
  have hfirst : k ∉ s.log.filterMap mintOf := by
    intro hmem
    obtain ⟨c, hc, hy⟩ := h.older k hmem
    rw [hk] at hc
    cases hc
    cases hy
  have hlog : (s.log ++ [TlsEvent.sslNew k ctx ok]).filterMap mintOf =
      s.log.filterMap mintOf ++ [k] := by
    rw [List.filterMap_append]
    rfl
  obtain ⟨hlt, -⟩ := List.getElem?_eq_some_iff.mp hk
  refine ⟨?_, ?_, fun j hj => ?_⟩
  · show sessions.Ledger (owners (s.conns.set k (.made ok))) (s.log ++ [.sslNew k ctx ok])
    cases ok with
    | false => exact (h.ledger.skip rfl rfl).perm (owners_keep hk rfl)
    | true =>
        refine (h.ledger.opened rfl fun e he ho => ?_).perm (owners_gain hk rfl rfl)
        exact hfirst (List.mem_filterMap.mpr ⟨e, he, mintOf_opens ho⟩)
  · show ((s.log ++ [TlsEvent.sslNew k ctx ok]).filterMap mintOf).Nodup
    rw [hlog]
    refine List.nodup_append.mpr ⟨h.once, List.pairwise_singleton _ k, fun j hj i hi heq => ?_⟩
    exact hfirst (List.mem_singleton.mp hi ▸ heq ▸ hj)
  · show ∃ c, (s.conns.set k (.made ok))[j]? = some c ∧ c.young = false
    have hj' : j ∈ s.log.filterMap mintOf ++ [k] := hlog ▸ hj
    by_cases heq : k = j
    · subst heq
      exact ⟨_, List.getElem?_set_self hlt, rfl⟩
    · rw [List.getElem?_set_ne heq]
      rcases List.mem_append.mp hj' with hj' | hj'
      · exact h.older j hj'
      · exact absurd (List.mem_singleton.mp hj').symm heq

theorem filterMap_mintOf_concat (log : List TlsEvent) {e : TlsEvent} (he : mintOf e = none) :
    (log ++ [e]).filterMap mintOf = log.filterMap mintOf := by
  rw [List.filterMap_append, List.filterMap_cons_none he]
  exact List.append_nil _

theorem Sessions.connStep (h : Sessions s) : Sessions (connStep k ok s) := by
  rw [TlsContext.connStep]
  split
  · rename_i hk
    split
    · exact h
    · exact h.move hk rfl (h.ledger.perm (owners_keep hk rfl)) rfl fun hy => (by cases hy)
  · rename_i hk
    exact h.move hk rfl (h.ledger.perm (owners_keep hk rfl)) rfl fun hy => (by cases hy)
  · rename_i hk
    exact h.mint hk
  · rename_i hk
    exact h.move hk rfl (h.ledger.perm (owners_keep hk rfl)) rfl fun _ => rfl
  · rename_i hk
    have hkept := h.ledger.perm (owners_keep (d := .closed) hk rfl)
    have hledger := hkept.skip (e := .mintFailed k) rfl rfl
    exact h.move hk rfl hledger (filterMap_mintOf_concat _ rfl) fun _ => rfl
  · rename_i hk
    have hkept := h.ledger.perm (owners_keep (d := .live) hk rfl)
    have hown : k ∈ owners (s.conns.set k .live) := (mem_owners_set hk).mpr (.inl ⟨rfl, rfl⟩)
    refine h.move hk rfl (hkept.touch rfl rfl fun j hj => ?_) (filterMap_mintOf_concat _ rfl)
      fun _ => rfl
    cases hj
    exact hown
  · rename_i hk
    have hlost := h.ledger.perm (owners_lose (d := .freed) hk rfl rfl)
    have hledger := hlost.closed (e := .sslFree k) rfl rfl
    exact h.move hk rfl hledger (filterMap_mintOf_concat _ rfl) fun _ => rfl
  · rename_i hk
    exact h.move hk rfl (h.ledger.perm (owners_keep hk rfl)) rfl fun _ => rfl
  · exact h
  · exact h

/-- The main thread does not touch the connections or their `SSL`s. -/
theorem Sessions.mainStep (h : Sessions s) : Sessions (mainStep certPath keyPath ok s) := by
  obtain ⟨hconns, -, hlog⟩ := mainStep_frame certPath keyPath ok s
  have hmore : ∃ more, (TlsContext.mainStep certPath keyPath ok s).log = s.log ++ more ∧
      (∀ e ∈ more, sessions.opens e = none ∧ sessions.touches e = none) ∧
      more.filterMap mintOf = [] := by
    rcases hlog with ⟨-, more, hlog, hmore⟩ | ⟨-, p, -, hlog⟩
    · refine ⟨more, hlog, fun e he => sessions_of_byMain (hmore e he), ?_⟩
      refine List.filterMap_eq_nil_iff.mpr fun e he => ?_
      have hby := hmore e he
      cases e <;> first | rfl | cases hby
    · refine ⟨_, hlog, fun e he => ?_, rfl⟩
      rw [List.mem_singleton.mp he]
      exact ⟨rfl, rfl⟩
  obtain ⟨more, hlog, hskip, hmints⟩ := hmore
  have hsame : (s.log ++ more).filterMap mintOf = s.log.filterMap mintOf := by
    rw [List.filterMap_append, hmints, List.append_nil]
  refine ⟨?_, ?_, fun k hk => ?_⟩
  · rw [hconns, hlog]
    exact h.ledger.skips hskip
  · rw [hlog, hsame]
    exact h.once
  · rw [hlog, hsame] at hk
    rw [hconns]
    exact h.older k hk

theorem Sessions.step (h : Sessions s) (l : TlsLabel) : Sessions (step certPath keyPath s l) := by
  cases l with
  | main ok => exact h.mainStep
  | conn k ok => exact h.connStep
  | io k =>
      rw [TlsContext.step]
      split
      · rename_i hk
        have hown : k ∈ owners s.conns := mem_owners.mpr ⟨_, hk, rfl⟩
        have hledger : sessions.Ledger (owners s.conns) (s.log ++ [.sslUse k]) :=
          h.ledger.touch rfl rfl fun j hj => by
            cases hj
            exact hown
        have hmints := filterMap_mintOf_concat s.log (e := .sslUse k) rfl
        exact ⟨hledger, hmints ▸ h.once, fun j hj => h.older j (hmints ▸ hj)⟩
      · exact h
  | sighup =>
      rw [TlsContext.step]
      split
      · exact ⟨h.ledger, h.once, h.older⟩
      · exact h
  | sigterm =>
      rw [TlsContext.step]
      split
      · exact ⟨h.ledger, h.once, h.older⟩
      · exact h
  | accept =>
      rw [TlsContext.step]
      split
      · have hold : ∀ {j c}, s.conns[j]? = some c → (s.conns ++ [ConnPc.accepted])[j]? = some c :=
          fun hj => List.getElem?_append_left (List.getElem?_eq_some_iff.mp hj).1 ▸ hj
        refine ⟨h.ledger.perm ?_, h.once, fun j hj => ?_⟩
        · refine (List.perm_ext_iff_of_nodup (nodup_owners _) (nodup_owners _)).mpr fun j => ?_
          rw [mem_owners, mem_owners]
          constructor
          · rintro ⟨c, hj, hown⟩
            exact ⟨c, hold hj, hown⟩
          · rintro ⟨c, hj, hown⟩
            rw [List.getElem?_append] at hj
            split at hj
            · exact ⟨c, hj, hown⟩
            · -- the new connection has nothing yet
              have hc := List.mem_singleton.mp (List.mem_of_getElem? hj)
              rw [hc] at hown
              cases hown
        · obtain ⟨c, hj, hy⟩ := h.older j hj
          exact ⟨c, hold hj, hy⟩
      · exact h

end Connections

/-- Between two steps. -/
structure Accounted (s : TlsContext) : Prop where
  guarded : Guarded s
  owned : Owned s
  sessions : Sessions s

theorem accounted (certPath keyPath : Bytes) (ls : List TlsLabel) :
    Accounted (run certPath keyPath ls) := by
  refine run_inv ⟨guarded_start, ⟨Api.Ledger.nil, fun e he => (by cases he)⟩,
    ⟨Api.Ledger.nil, List.nodup_nil, fun k hk => (by cases hk)⟩⟩ (fun s l h => ?_) ls
  exact ⟨h.guarded.step l, h.owned.step h.guarded l, h.sessions.step l⟩

/-- Whatever the order of the steps, and whatever OpenSSL answers: castle makes every call on a
    context on one that it has made and not freed, and every call on an `SSL` on one that it was
    given and has not freed; neither is freed twice.  A `wrap` that has read `ctx_` is about to
    hand over the context that is current, which is never null.  Once main has returned every
    context and every `SSL` has been freed. -/
theorem calls_on_open_handles (certPath keyPath : Bytes) (ls : List TlsLabel) :
    let s := run certPath keyPath ls
    Throughout contexts.Sound s.log ∧ Throughout sessions.Sound s.log ∧
      (∀ p, .making p ∈ s.conns → p = s.ctx ∧ s.ctx ≠ none) ∧
      (s.pc = .exited →
        (∀ p, .ctxNew p ∈ s.log → .ctxFree p ∈ s.log) ∧
        ∀ k ctx, .sslNew k ctx true ∈ s.log → .sslFree k ∈ s.log) := by
  dsimp only
  obtain ⟨hguarded, howned, hsessions⟩ := accounted certPath keyPath ls
  refine ⟨howned.ledger.sound, hsessions.ledger.sound, fun p hp => hguarded.wraps hp, fun hx => ?_⟩
  obtain ⟨hctx, hclosed⟩ := hguarded.exited hx
  constructor
  · intro p hp
    have hnone : contexts.Ledger [] (run certPath keyPath ls).log := by
      have hledger := howned.ledger
      rw [hx, hctx] at hledger
      exact hledger
    obtain ⟨e, he, hc⟩ := hnone.all_closed hp rfl
    cases e <;> cases hc
    exact he
  · intro k ctx hk
    have hnone : sessions.Ledger [] (run certPath keyPath ls).log := by
      refine hsessions.ledger.perm (List.perm_nil.mpr ?_)
      refine List.eq_nil_iff_forall_not_mem.mpr fun j hj => ?_
      obtain ⟨c, hc, hown⟩ := mem_owners.mp hj
      rw [hclosed c (List.mem_of_getElem? hc)] at hown
      cases hown
    obtain ⟨e, he, hc⟩ := hnone.all_closed hk rfl
    cases e <;> cases hc
    exact he

end TlsContext

end CastlePlus
