import Mathlib.Data.List.Perm.Basic

/-! # Logs of calls — which handles are open

    A log is a list of events, oldest first; `Throughout P log` says that every event satisfied `P`
    of the events before it.

    An `Api` says of an event which handle it opens, which one it touches and which one it closes
    (a close touches too).  A log is sound when every call is made on a handle that is open, and
    no handle is opened twice; so none is closed twice either.

    `Ledger held log`: the log is sound, and `held` lists the handles it leaves open.  There is
    one rule for each kind of event, so that a program that keeps the list of what it holds gets
    the soundness of its calls for nothing.  Everything here is over arbitrary types. -/

namespace HandleLog

variable {E K : Type}

/-! ## Logs -/

/-- Every event of the log satisfied `P` of the events before it. -/
def Throughout (P : List E → E → Prop) (log : List E) : Prop :=
  ∀ pre e, pre ++ [e] <+: log → P pre e

theorem throughout_nil (P : List E → E → Prop) : Throughout P [] := by
  intro pre e h
  exact absurd (List.prefix_nil.mp h) (by simp)

theorem throughout_concat {P : List E → E → Prop} {log : List E} {a : E} :
    Throughout P (log ++ [a]) ↔ Throughout P log ∧ P log a := by
  constructor
  · intro h
    exact ⟨fun pre e hp => h pre e (hp.trans (List.prefix_append ..)), h log a (List.prefix_refl _)⟩
  · rintro ⟨h, ha⟩ pre e hp
    rcases List.prefix_concat_iff.mp hp with heq | hp
    · obtain ⟨rfl, hea⟩ := List.append_inj' heq rfl
      cases hea
      exact ha
    · exact h pre e hp

theorem throughout_append {P : List E → E → Prop} {xs ys : List E} (hx : Throughout P xs)
    (hy : ∀ pre e, pre ++ [e] <+: ys → P (xs ++ pre) e) : Throughout P (xs ++ ys) := by
  intro pre e hp
  by_cases hlen : (pre ++ [e]).length ≤ xs.length
  · exact hx pre e (List.prefix_of_prefix_length_le hp (List.prefix_append ..) hlen)
  · obtain ⟨zs, hz⟩ :=
      List.prefix_of_prefix_length_le (List.prefix_append xs ys) hp (by omega)
    -- the event comes after `xs`
    rcases List.eq_nil_or_concat zs with rfl | ⟨zs', e', rfl⟩
    · rw [← hz, List.append_nil] at hlen
      exact absurd (Nat.le_refl _) hlen
    · rw [List.concat_eq_append, ← List.append_assoc] at hz
      obtain ⟨hpre, he⟩ := List.append_inj' hz rfl
      cases he
      rw [← hz, List.append_assoc, List.prefix_append_right_inj] at hp
      rw [← hpre]
      exact hy zs' e hp

/-! ## Handles -/

/-- Which handle an event opens, touches and closes. -/
structure Api (E K : Type) where
  opens : E → Option K
  touches : E → Option K
  closes : E → Option K
  closes_touches : ∀ e k, closes e = some k → touches e = some k
  opens_only : ∀ e k, opens e = some k → touches e = none

variable (a : Api E K)

/-- The handle has been opened and has not been closed. -/
structure Api.Open (log : List E) (k : K) : Prop where
  opened : ∃ e ∈ log, a.opens e = some k
  kept : ∀ e ∈ log, a.closes e ≠ some k

/-- The call is made on an open handle, or opens one that never was. -/
structure Api.Sound (pre : List E) (e : E) : Prop where
  touched : ∀ k, a.touches e = some k → a.Open pre k
  fresh : ∀ k, a.opens e = some k → ∀ e' ∈ pre, a.opens e' ≠ some k

/-- The log is sound and leaves open what is held. -/
structure Api.Ledger (held : List K) (log : List E) : Prop where
  sound : Throughout a.Sound log
  open_iff : ∀ k, k ∈ held ↔ a.Open log k
  nodup : held.Nodup

variable {a} {held held' : List K} {log : List E} {e : E} {k : K}

theorem Api.closes_none (h : a.touches e = none) : a.closes e = none := by
  cases hc : a.closes e with
  | none => rfl
  | some k =>
      rw [a.closes_touches e k hc] at h
      cases h

/-- What one more event leaves open. -/
theorem Api.open_concat : a.Open (log ++ [e]) k ↔
    (a.opens e = some k ∨ ∃ e' ∈ log, a.opens e' = some k) ∧
      a.closes e ≠ some k ∧ ∀ e' ∈ log, a.closes e' ≠ some k := by
  have hsplit : ∀ e', e' ∈ log ++ [e] ↔ e' ∈ log ∨ e' = e := by
    intro e'
    rw [List.mem_append, List.mem_singleton]
  constructor
  · rintro ⟨⟨e', hmem, hopen⟩, hkept⟩
    have hold : ∀ e'' ∈ log, a.closes e'' ≠ some k := fun e'' he =>
      hkept e'' ((hsplit e'').mpr (.inl he))
    refine ⟨?_, hkept e ((hsplit e).mpr (.inr rfl)), hold⟩
    rcases (hsplit e').mp hmem with hmem | rfl
    · exact .inr ⟨e', hmem, hopen⟩
    · exact .inl hopen
  · rintro ⟨hopen, hclose, hkept⟩
    refine ⟨?_, fun e' hmem => ?_⟩
    · rcases hopen with hopen | ⟨e', hmem, hopen⟩
      · exact ⟨e, (hsplit e).mpr (.inr rfl), hopen⟩
      · exact ⟨e', (hsplit e').mpr (.inl hmem), hopen⟩
    · rcases (hsplit e').mp hmem with hmem | rfl
      · exact hkept e' hmem
      · exact hclose

/-- A closed handle has been opened before. -/
theorem Api.opened_of_closed (h : Throughout a.Sound log) (he : e ∈ log)
    (hc : a.closes e = some k) : ∃ e' ∈ log, a.opens e' = some k := by
  obtain ⟨pre, post, rfl⟩ := List.append_of_mem he
  have hpre : pre ++ [e] <+: pre ++ e :: post := ⟨post, by simp⟩
  obtain ⟨e', hmem, hopen⟩ := ((h pre e hpre).touched k (a.closes_touches e k hc)).opened
  exact ⟨e', List.mem_append_left _ hmem, hopen⟩

namespace Api.Ledger

theorem nil : a.Ledger [] [] :=
  ⟨throughout_nil _, fun _ => ⟨fun h => (by cases h), fun h => (by
    obtain ⟨e, he, -⟩ := h.opened
    cases he)⟩, List.nodup_nil⟩

theorem perm (h : a.Ledger held log) (hp : held.Perm held') : a.Ledger held' log :=
  ⟨h.sound, fun k => hp.mem_iff.symm.trans (h.open_iff k), hp.nodup_iff.mp h.nodup⟩

/-- A call that has nothing to do with handles, or only touches one that is held. -/
theorem touch (h : a.Ledger held log) (ho : a.opens e = none) (hc : a.closes e = none)
    (ht : ∀ k, a.touches e = some k → k ∈ held) : a.Ledger held (log ++ [e]) := by
  refine ⟨throughout_concat.mpr ⟨h.sound, fun k hk => (h.open_iff k).mp (ht k hk), fun k hk => ?_⟩,
    fun k => (h.open_iff k).trans ?_, h.nodup⟩
  · rw [ho] at hk
    cases hk
  · rw [Api.open_concat, ho, hc]
    constructor
    · exact fun hopen => ⟨.inr hopen.opened, fun hk => (by cases hk), hopen.kept⟩
    · rintro ⟨hopen | hopen, -, hkept⟩
      · cases hopen
      · exact ⟨hopen, hkept⟩

theorem skip (h : a.Ledger held log) (ho : a.opens e = none) (ht : a.touches e = none) :
    a.Ledger held (log ++ [e]) :=
  h.touch ho (closes_none ht) fun k hk => by
    rw [ht] at hk
    cases hk

theorem skips {more : List E} (h : a.Ledger held log)
    (hmore : ∀ e ∈ more, a.opens e = none ∧ a.touches e = none) : a.Ledger held (log ++ more) := by
  induction more generalizing log with
  | nil => rwa [List.append_nil]
  | cons e more ih =>
      obtain ⟨ho, ht⟩ := hmore e List.mem_cons_self
      rw [← List.singleton_append, ← List.append_assoc]
      exact ih (h.skip ho ht) fun e' he' => hmore e' (List.mem_cons_of_mem _ he')

/-- A handle that never was is opened. -/
theorem opened (h : a.Ledger held log) (ho : a.opens e = some k)
    (hfresh : ∀ e' ∈ log, a.opens e' ≠ some k) : a.Ledger (k :: held) (log ++ [e]) := by
  have ht : a.touches e = none := a.opens_only e k ho
  have hc : a.closes e = none := closes_none ht
  have hnot : ∀ e' ∈ log, a.closes e' ≠ some k := by
    intro e' he' hclose
    obtain ⟨e'', he'', hopen⟩ := opened_of_closed h.sound he' hclose
    exact hfresh e'' he'' hopen
  refine ⟨throughout_concat.mpr ⟨h.sound, fun j hj => ?_, fun j hj => ?_⟩, fun j => ?_,
    List.nodup_cons.mpr ⟨fun hmem => ?_, h.nodup⟩⟩
  · rw [ht] at hj
    cases hj
  · rw [ho] at hj
    exact Option.some.inj hj ▸ hfresh
  · rw [List.mem_cons, h.open_iff, Api.open_concat, ho, hc]
    constructor
    · rintro (rfl | hopen)
      · exact ⟨.inl rfl, fun hk => (by cases hk), hnot⟩
      · exact ⟨.inr hopen.opened, fun hk => (by cases hk), hopen.kept⟩
    · rintro ⟨hopen | hopen, -, hkept⟩
      · exact .inl (Option.some.inj hopen).symm
      · exact .inr ⟨hopen, hkept⟩
  · obtain ⟨e', he', hopen⟩ := ((h.open_iff k).mp hmem).opened
    exact hfresh e' he' hopen

/-- A handle that is held is closed. -/
theorem closed (h : a.Ledger (k :: held) log) (hc : a.closes e = some k) (ho : a.opens e = none) :
    a.Ledger held (log ++ [e]) := by
  obtain ⟨hnot, hnodup⟩ := List.nodup_cons.mp h.nodup
  refine ⟨throughout_concat.mpr ⟨h.sound, fun j hj => ?_, fun j hj => ?_⟩, fun j => ?_, hnodup⟩
  · rw [a.closes_touches e k hc] at hj
    exact (h.open_iff j).mp (Option.some.inj hj ▸ List.mem_cons_self)
  · rw [ho] at hj
    cases hj
  · rw [Api.open_concat, ho, hc]
    constructor
    · intro hmem
      have hopen := (h.open_iff j).mp (List.mem_cons_of_mem _ hmem)
      refine ⟨.inr hopen.opened, fun hk => ?_, hopen.kept⟩
      exact hnot (Option.some.inj hk ▸ hmem)
    · rintro ⟨hopen | hopen, hne, hkept⟩
      · cases hopen
      · rcases List.mem_cons.mp ((h.open_iff j).mpr ⟨hopen, hkept⟩) with rfl | hmem
        · exact absurd rfl hne
        · exact hmem

/-- With nothing held, everything that was opened has been closed. -/
theorem all_closed (h : a.Ledger [] log) (he : e ∈ log) (ho : a.opens e = some k) :
    ∃ e' ∈ log, a.closes e' = some k := by
  by_contra hno
  have hopen : a.Open log k := ⟨⟨e, he, ho⟩, fun e' he' hc => hno ⟨e', he', hc⟩⟩
  cases (h.open_iff k).mpr hopen

end Api.Ledger

end HandleLog
