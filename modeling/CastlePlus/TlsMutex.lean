import CastlePlus.TlsContext

/-! # The mutex of the TLS context

    `wrap` reads `ctx_` and has its `SSL` made under the shared lock, `reload` writes `ctx_` under
    the exclusive one, and `init` and the end of `main` have no workers about them.  `Guarded` is
    what this comes to: a `wrap` that has read `ctx_` still has the current one in its hand. -/

namespace CastlePlus

namespace TlsContext

variable {certPath keyPath : Bytes} {s s' : TlsContext} {k : Nat} {c : ConnPc} {ok : Bool}

/-- The mutex does what it is there for, and the connections come and go with the workers. -/
structure Guarded (s : TlsContext) : Prop where
  writer : s.writer = s.pc.writing
  readers : s.readers = s.conns.countP ConnPc.inside
  excluded : s.writer = true → s.readers = 0
  making : ∀ p, .making p ∈ s.conns → p = s.ctx
  installed : s.pc.serving = true → s.ctx ≠ none
  quiet : s.pc.serving = false → ∀ c ∈ s.conns, c.wrapping = false
  starting : s.pc.starting = true → s.ctx = none
  exited : s.pc = .exited → s.ctx = none ∧ ∀ c ∈ s.conns, c = .closed

/-- What `Guarded` looks at. -/
def view (s : TlsContext) := (s.writer, s.readers, s.conns, s.ctx, s.pc)

theorem Guarded.of_view (h : Guarded s) (hview : view s' = view s) : Guarded s' := by
  have h1 : s'.writer = s.writer := congrArg (·.1) hview
  have h2 : s'.readers = s.readers := congrArg (·.2.1) hview
  have h3 : s'.conns = s.conns := congrArg (·.2.2.1) hview
  have h4 : s'.ctx = s.ctx := congrArg (·.2.2.2.1) hview
  have h5 : s'.pc = s.pc := congrArg (·.2.2.2.2) hview
  constructor
  · rw [h1, h5]; exact h.writer
  · rw [h2, h3]; exact h.readers
  · rw [h1, h2]; exact h.excluded
  · rw [h3, h4]; exact h.making
  · rw [h4, h5]; exact h.installed
  · rw [h3, h5]; exact h.quiet
  · rw [h4, h5]; exact h.starting
  · rw [h3, h4, h5]; exact h.exited

/-- One connection moves on. -/
structure Moves (s : TlsContext) (c d : ConnPc) (n : Nat) : Prop where
  opened : c ≠ .closed
  making : ∀ p, d = .making p → p = s.ctx
  readers : n + (if c.inside then 1 else 0) = s.readers + if d.inside then 1 else 0
  excluded : s.writer = true → n = 0
  wrapping : d.wrapping = true → c.wrapping = true

/-- How many connections are inside when one has moved. -/
theorem countP_inside_set (hk : s.conns[k]? = some c) (d : ConnPc) :
    (s.conns.set k d).countP ConnPc.inside + (if c.inside then 1 else 0) =
      s.conns.countP ConnPc.inside + if d.inside then 1 else 0 := by
  have hc : c ∈ s.conns := List.mem_of_getElem? hk
  obtain ⟨hlt, rfl⟩ := List.getElem?_eq_some_iff.mp hk
  rw [List.countP_set hlt]
  by_cases hin : s.conns[k].inside = true
  · have hpos : 0 < s.conns.countP ConnPc.inside := List.countP_pos_iff.mpr ⟨_, hc, hin⟩
    rw [if_pos hin]
    omega
  · rw [if_neg hin, Nat.add_zero, Nat.sub_zero]

theorem Guarded.conn {d : ConnPc} {n : Nat} (h : Guarded s) (hk : s.conns[k]? = some c)
    (hm : Moves s c d n) : Guarded { s with conns := s.conns.set k d, readers := n } := by
  have hmem : ∀ e ∈ s.conns.set k d, e ∈ s.conns ∨ e = d := fun e hd =>
    List.mem_or_eq_of_mem_set hd
  have hc : c ∈ s.conns := List.mem_of_getElem? hk
  refine ⟨h.writer, ?_, hm.excluded, fun p hp => ?_, h.installed, fun hq e hd => ?_, h.starting,
    fun hx => absurd ((h.exited hx).2 c hc) hm.opened⟩
  · have hcount := countP_inside_set hk d
    have hreaders := hm.readers
    rw [h.readers] at hreaders
    show n = (s.conns.set k d).countP ConnPc.inside
    omega
  · rcases hmem _ hp with hp | hp
    · exact h.making p hp
    · exact hm.making p hp.symm
  · rcases hmem e hd with hd | rfl
    · exact h.quiet hq e hd
    · have := h.quiet hq c hc
      by_contra hne
      rw [hm.wrapping (Bool.not_eq_false _ ▸ hne)] at this
      cases this

theorem Guarded.connStep (h : Guarded s) : Guarded (connStep k ok s) := by
  rw [TlsContext.connStep]
  split
  · rename_i hk
    split
    · exact h
    · -- `wrap` enters under the shared lock
      rename_i hw
      exact h.conn hk ⟨by simp, fun p hp => (by cases hp), rfl, fun hw' => absurd hw' hw,
        fun _ => rfl⟩
  · rename_i hk
    exact h.conn hk ⟨by simp, fun p hp => (by cases hp; rfl), rfl, h.excluded, fun _ => rfl⟩
  · rename_i ctx hk
    have hmade := h.conn hk (n := s.readers) (d := .made ok)
      ⟨by simp, fun p hp => (by cases hp), rfl, h.excluded, fun _ => rfl⟩
    exact hmade.of_view rfl
  · rename_i ssl hk
    -- it is counted among the readers, so that the count goes down by one
    have hpos : 0 < s.readers := by
      rw [h.readers]
      exact List.countP_pos_iff.mpr ⟨_, List.mem_of_getElem? hk, rfl⟩
    refine h.conn hk ⟨by simp, fun p hp => (by cases hp), ?_, fun hw => ?_, fun _ => rfl⟩
    · show s.readers - 1 + 1 = s.readers + 0
      omega
    · rw [h.excluded hw]
  · rename_i hk
    have hclosed := h.conn hk (n := s.readers) (d := .closed)
      ⟨by simp, fun p hp => (by cases hp), rfl, h.excluded, fun hwrap => (by cases hwrap)⟩
    exact hclosed.of_view rfl
  · rename_i hk
    have hlive := h.conn hk (n := s.readers) (d := .live)
      ⟨by simp, fun p hp => (by cases hp), rfl, h.excluded, fun hwrap => (by cases hwrap)⟩
    exact hlive.of_view rfl
  · rename_i hk
    have hfreed := h.conn hk (n := s.readers) (d := .freed)
      ⟨by simp, fun p hp => (by cases hp), rfl, h.excluded, fun hwrap => (by cases hwrap)⟩
    exact hfreed.of_view rfl
  · rename_i hk
    exact h.conn hk
      ⟨by simp, fun p hp => (by cases hp), rfl, h.excluded, fun hwrap => (by cases hwrap)⟩
  · exact h
  · exact h

/-- The main thread goes from `s.pc` to `m` without touching the mutex or `ctx_`. -/
theorem Guarded.goto {m : MainPc} (h : Guarded s) (hw : m.writing = s.pc.writing)
    (hserving : m.serving = s.pc.serving) (hstart : m.starting = true → s.pc.starting = true)
    (hexit : m ≠ .exited) : Guarded { s with pc := m } := by
  refine ⟨h.writer.trans hw.symm, h.readers, h.excluded, h.making, fun hs => ?_, fun hs => ?_,
    fun hs => h.starting (hstart hs), fun hx => absurd hx hexit⟩
  · exact h.installed (hserving ▸ hs)
  · exact h.quiet (hserving ▸ hs)

theorem guarded_build (ok : Bool) (cert key : Bytes) (b : BuildPc) (h : Guarded s) :
    Guarded (build ok cert key s b).2 ∧ (build ok cert key s b).2.pc = s.pc := by
  obtain ⟨next, err, log, heq, -⟩ := build_frame ok cert key s b
  rw [heq]
  exact ⟨h.of_view rfl, rfl⟩

theorem Guarded.nobody_inside (h : Guarded s) (hr : s.readers = 0) : ∀ p, .making p ∉ s.conns := by
  intro p hp
  rw [h.readers, List.countP_eq_zero] at hr
  exact hr _ hp rfl

theorem Guarded.mainStep (h : Guarded s) : Guarded (mainStep certPath keyPath ok s) := by
  rw [TlsContext.mainStep]
  split
  · rename_i b hpc
    obtain ⟨hb, hb'⟩ := guarded_build ok certPath keyPath b h
    rw [hpc] at hb'
    split
    · rename_i heq
      rw [heq] at hb hb'
      exact hb.goto (hb' ▸ rfl) (hb' ▸ rfl) (fun _ => hb' ▸ rfl) (fun hx => (by cases hx))
    · rename_i heq
      rw [heq] at hb hb'
      exact (hb.goto (m := .leave) (hb' ▸ rfl) (hb' ▸ rfl) (fun hs => (by cases hs))
        (fun hx => (by cases hx))).of_view rfl
    · rename_i heq
      rw [heq] at hb hb'
      exact hb.goto (hb' ▸ rfl) (hb' ▸ rfl) (fun _ => hb' ▸ rfl) (fun hx => (by cases hx))
  · rename_i fresh hpc
    -- no worker runs before `init` is over
    have hserving : s.pc.serving = false := by rw [hpc]; rfl
    refine ⟨h.writer.trans (by rw [hpc]; rfl), h.readers, h.excluded, fun p hp => ?_,
      fun _ => Option.some_ne_none _, fun hs => (by cases hs), fun hs => (by cases hs),
      fun hx => (by cases hx)⟩
    have := h.quiet hserving _ hp
    cases this
  · rename_i b hpc
    obtain ⟨hb, hb'⟩ := guarded_build ok s.certPath s.keyPath b h
    rw [hpc] at hb'
    split
    · rename_i heq
      rw [heq] at hb hb'
      exact hb.goto (hb' ▸ rfl) (hb' ▸ rfl) (fun hs => (by cases hs)) (fun hx => (by cases hx))
    · rename_i heq
      rw [heq] at hb hb'
      exact (hb.goto (m := .parked) (hb' ▸ rfl) (hb' ▸ rfl) (fun hs => (by cases hs))
        (fun hx => (by cases hx))).of_view rfl
    · rename_i heq
      rw [heq] at hb hb'
      exact hb.goto (hb' ▸ rfl) (hb' ▸ rfl) (fun hs => (by cases hs)) (fun hx => (by cases hx))
  · rename_i fresh hpc
    split
    · rename_i hfree
      refine ⟨rfl, h.readers, fun _ => hfree.2, h.making, fun _ => ?_, fun hs => (by cases hs),
        fun hs => (by cases hs), fun hx => (by cases hx)⟩
      exact h.installed (by rw [hpc]; rfl)
    · exact h
  · rename_i fresh hpc
    -- under the exclusive lock nobody is between reading `ctx_` and `SSL_new`
    have hw : s.writer = true := h.writer.trans (by rw [hpc]; rfl)
    refine ⟨hw, h.readers, h.excluded, fun p hp => ?_, fun _ => Option.some_ne_none _,
      fun hs => (by cases hs), fun hs => (by cases hs), fun hx => (by cases hx)⟩
    exact absurd hp (h.nobody_inside (h.excluded hw) p)
  · rename_i old hpc
    refine ⟨rfl, h.readers, fun hs => (by cases hs), h.making, fun _ => ?_, fun hs => (by cases hs),
      fun hs => (by cases hs), fun hx => (by cases hx)⟩
    exact h.installed (by rw [hpc]; rfl)
  · rename_i old hpc
    obtain ⟨log, heq, -⟩ := release_frame old s
    rw [heq]
    exact (h.goto (m := .parked) (hpc ▸ rfl) (hpc ▸ rfl) (fun hs => (by cases hs))
      (fun hx => (by cases hx))).of_view rfl
  · rename_i hpc
    split
    · rename_i hall
      -- a loop that has been joined is in no `wrap`
      refine ⟨h.writer.trans (by rw [hpc]; rfl), h.readers, h.excluded, h.making,
        fun hs => (by cases hs), fun _ c hc => ?_, fun hs => (by cases hs),
        fun hx => (by cases hx)⟩
      simpa using List.all_eq_true.mp hall c hc
    · exact h
  · rename_i hpc
    split
    · rename_i hall
      obtain ⟨log, heq, -⟩ := release_frame s.ctx s
      rw [heq]
      -- the loops are destroyed before the context, and their connections with them
      have hclosed : ∀ c ∈ s.conns, c = .closed := by
        intro c hc
        have := List.all_eq_true.mp hall c hc
        cases c <;> first | rfl | cases this
      refine ⟨h.writer.trans (by rw [hpc]; rfl), h.readers, h.excluded, fun p hp => ?_,
        fun hs => (by cases hs), fun _ c hc => ?_, fun _ => rfl, fun _ => ⟨rfl, hclosed⟩⟩
      · have := hclosed _ hp
        cases this
      · rw [hclosed c hc]
        rfl
    · exact h
  · exact h
  · exact h

theorem Guarded.step (h : Guarded s) (l : TlsLabel) : Guarded (step certPath keyPath s l) := by
  cases l with
  | main ok => exact h.mainStep
  | conn k ok => exact h.connStep
  | io k =>
      rw [TlsContext.step]
      split
      · exact h.of_view rfl
      · exact h
  | sighup =>
      rw [TlsContext.step]
      split
      · rename_i hpc
        exact h.goto (hpc ▸ rfl) (hpc ▸ rfl) (fun hs => (by cases hs)) (fun hx => (by cases hx))
      · exact h
  | sigterm =>
      rw [TlsContext.step]
      split
      · rename_i hpc
        exact h.goto (hpc ▸ rfl) (hpc ▸ rfl) (fun hs => (by cases hs)) (fun hx => (by cases hx))
      · exact h
  | accept =>
      rw [TlsContext.step]
      split
      · rename_i hserving
        -- the new connection holds nothing yet
        have hsplit : ∀ c ∈ s.conns ++ [ConnPc.accepted], c ∈ s.conns ∨ c = ConnPc.accepted := by
          intro c hc
          rcases List.mem_append.mp hc with hc | hc
          · exact .inl hc
          · exact .inr (List.mem_singleton.mp hc)
        refine ⟨h.writer, ?_, h.excluded, fun p hp => ?_, h.installed, fun hs => ?_, h.starting,
          fun hx => ?_⟩
        · show s.readers = (s.conns ++ [ConnPc.accepted]).countP ConnPc.inside
          rw [List.countP_append, ← h.readers]
          rfl
        · rcases hsplit _ hp with hp | hp
          · exact h.making p hp
          · cases hp
        · rw [hserving] at hs
          cases hs
        · rw [show s.pc = .exited from hx] at hserving
          cases hserving
      · exact h

theorem guarded_start : Guarded {} :=
  ⟨rfl, rfl, fun _ => rfl, fun p hp => (by cases hp), fun hs => (by cases hs),
    fun _ c hc => (by cases hc), fun _ => rfl, fun hx => (by cases hx)⟩

/-- While `ctx_` may be written nobody is inside `wrap`. -/
theorem Guarded.outside (h : Guarded s) (hs : s.pc.serving = false ∨ s.pc.writing = true) :
    ∀ c ∈ s.conns, c.inside = false := by
  intro c hc
  rcases hs with hs | hs
  · have := h.quiet hs c hc
    cases c <;> first | rfl | cases this
  · have hzero := h.excluded (h.writer.trans hs)
    rw [h.readers, List.countP_eq_zero] at hzero
    exact Bool.not_eq_true _ ▸ hzero c hc

/-- A `wrap` that has read `ctx_` holds what it is now, and that is a context. -/
theorem Guarded.wraps {p : Option Nat} (h : Guarded s) (hp : .making p ∈ s.conns) :
    p = s.ctx ∧ s.ctx ≠ none := by
  refine ⟨h.making p hp, h.installed ?_⟩
  by_contra hs
  have := h.quiet (Bool.not_eq_true _ ▸ hs) _ hp
  cases this

end TlsContext

end CastlePlus
