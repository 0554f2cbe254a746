import Mathlib.Data.List.MinMax

/-! # The first best element of a list

    A single pass that keeps its candidate until a strictly better one comes computes
    `List.argmax` of what it admits.  Said by position, this is the first element of the list
    among those that maximise the key; and it can be computed bucket by bucket as soon as the
    key determines the bucket. -/

namespace FirstBest

variable {α β γ : Type} [LinearOrder β]

/-- `m` is the first element of `l` with `P`. -/
def First (P : α → Prop) (l : List α) (m : α) : Prop :=
  ∃ pre post, l = pre ++ m :: post ∧ P m ∧ ∀ a ∈ pre, ¬ P a

/-- `m` maximises `f` among the elements of `l` with `p`. -/
def Best (p : α → Bool) (f : α → β) (l : List α) (m : α) : Prop :=
  p m = true ∧ ∀ a ∈ l, p a = true → f a ≤ f m

variable {p : α → Bool} {f : α → β} {l l' : List α} {m : α}

theorem First.mem {P : α → Prop} (h : First P l m) : m ∈ l := by
  obtain ⟨pre, post, rfl, _, _⟩ := h
  exact List.mem_append_right _ List.mem_cons_self

theorem First.spec {P : α → Prop} (h : First P l m) : P m := by
  obtain ⟨_, _, _, hm, _⟩ := h
  exact hm

theorem first_iff_find? {P : α → Bool} : First (fun a => P a = true) l m ↔ l.find? P = some m := by
  rw [List.find?_eq_some_iff_append]
  constructor
  · rintro ⟨pre, post, hl, hm, hpre⟩
    exact ⟨hm, pre, post, hl, fun a ha => by simpa using hpre a ha⟩
  · rintro ⟨hm, pre, post, hl, hpre⟩
    exact ⟨pre, post, hl, hm, fun a ha => by simpa using hpre a ha⟩

/-- One turn of the pass. -/
def keep (p : α → Bool) (f : α → β) (best : Option α) (a : α) : Option α :=
  if p a then
    match best with
    | none => some a
    | some b => if f b < f a then some a else some b
  else best

theorem foldl_keep (p : α → Bool) (f : α → β) (l : List α) :
    l.foldl (keep p f) none = (l.filter p).argmax f := by
  have hstep : keep p f =
      fun x y => if p y = true then List.argAux (fun b c => f c < f b) x y else x := by
    funext best a
    cases best <;> rfl
  rw [List.argmax, List.foldl_filter, hstep]

theorem foldl_keep_eq_none : l.foldl (keep p f) none = none ↔ ∀ a ∈ l, p a = false := by
  rw [foldl_keep, List.argmax_eq_none, List.filter_eq_nil_iff]
  simp only [Bool.not_eq_true]

/-- The maximum is the one that `find?` meets first. -/
theorem argmax_eq_some_iff_find? :
    l.argmax f = some m ↔ (∀ a ∈ l, f a ≤ f m) ∧ l.find? (fun a => f a = f m) = some m := by
  induction l using List.reverseRecOn generalizing m with
  | nil => simp
  | append_singleton l a ih =>
      rw [List.argmax_concat]
      cases hl : l.argmax f with
      | none =>
          rw [List.argmax_eq_none] at hl
          subst hl
          constructor
          · intro h
            cases h
            simp
          · rintro ⟨_, h⟩
            have ha := List.mem_of_find?_eq_some h
            rw [List.nil_append, List.mem_singleton] at ha
            rw [ha]
      | some c =>
          obtain ⟨hmax, hfind⟩ := ih.mp hl
          have hc : c ∈ l := List.mem_of_find?_eq_some hfind
          dsimp only
          split
          · rename_i hlt
            -- the new element is the only one of its height
            have hnone : l.find? (fun b => f b = f a) = none := by
              rw [List.find?_eq_none]
              intro b hb hba
              rw [decide_eq_true_eq] at hba
              exact absurd (hmax b hb) (not_le.mpr (hba ▸ hlt))
            constructor
            · intro h
              cases h
              refine ⟨?_, by rw [List.find?_append, hnone]; simp⟩
              intro b hb
              rcases List.mem_append.mp hb with hb | hb
              · exact (hmax b hb).trans hlt.le
              · rw [List.mem_singleton.mp hb]
            · rintro ⟨hm, hf⟩
              have hma : f a ≤ f m := hm a (by simp)
              rcases List.mem_append.mp (List.mem_of_find?_eq_some hf) with hml | hml
              · exact absurd (hmax m hml) (not_le.mpr (hlt.trans_le hma))
              · rw [List.mem_singleton.mp hml]
          · rename_i hle
            constructor
            · intro h
              cases h
              refine ⟨?_, by rw [List.find?_append, hfind]; rfl⟩
              intro b hb
              rcases List.mem_append.mp hb with hb | hb
              · exact hmax b hb
              · rw [List.mem_singleton.mp hb]
                exact not_lt.mp hle
            · rintro ⟨hm, hf⟩
              have hcm : f c ≤ f m := hm c (List.mem_append_left _ hc)
              have heq : f c = f m := by
                refine le_antisymm hcm ?_
                rcases List.mem_append.mp (List.mem_of_find?_eq_some hf) with hml | hml
                · exact hmax m hml
                · rw [List.mem_singleton.mp hml]
                  exact not_lt.mp hle
              rw [List.find?_append, ← heq, hfind, Option.some_or] at hf
              exact hf

/-- By position: the first of the admitted elements that maximise the key. -/
theorem foldl_keep_eq_some : l.foldl (keep p f) none = some m ↔ First (Best p f l) l m := by
  rw [foldl_keep, argmax_eq_some_iff_find?, List.find?_filter, ← first_iff_find?]
  simp only [decide_eq_true_eq]
  constructor
  · rintro ⟨hmax, pre, post, hl, hm, hpre⟩
    have hbest : ∀ a ∈ l, p a = true → f a ≤ f m := fun a ha hpa =>
      hmax a (List.mem_filter.mpr ⟨ha, hpa⟩)
    refine ⟨pre, post, hl, ⟨hm.1, hbest⟩, ?_⟩
    intro a ha hba
    have hal : a ∈ l := by rw [hl]; exact List.mem_append_left _ ha
    have hml : m ∈ l := by rw [hl]; exact List.mem_append_right _ List.mem_cons_self
    exact hpre a ha ⟨hba.1, le_antisymm (hbest a hal hba.1) (hba.2 m hml hm.1)⟩
  · rintro ⟨pre, post, hl, hm, hpre⟩
    refine ⟨?_, pre, post, hl, ?_, ?_⟩
    · intro a ha
      exact hm.2 a (List.mem_filter.mp ha).1 (List.mem_filter.mp ha).2
    · exact ⟨hm.1, rfl⟩
    · intro a ha hpa
      refine hpre a ha ⟨hpa.1, ?_⟩
      intro b hb hpb
      rw [hpa.2]
      exact hm.2 b hb hpb

/-- When the best elements all have one identity, the order of the list does not matter. -/
theorem foldl_keep_perm (hperm : l.Perm l')
    (hone : ∀ a ∈ l, ∀ b ∈ l, Best p f l a → Best p f l b → a = b) :
    l.foldl (keep p f) none = l'.foldl (keep p f) none := by
  have hbest : ∀ a, Best p f l a ↔ Best p f l' a := by
    intro a
    simp only [Best, hperm.mem_iff]
  cases hl' : l'.foldl (keep p f) none with
  | none =>
      rw [foldl_keep_eq_none] at hl' ⊢
      intro a ha
      exact hl' a (hperm.mem_iff.mp ha)
  | some m' =>
      have hfirst' := foldl_keep_eq_some.mp hl'
      have hm' : m' ∈ l := hperm.mem_iff.mpr hfirst'.mem
      cases hl : l.foldl (keep p f) none with
      | none =>
          have hp := foldl_keep_eq_none.mp hl m' hm'
          exact absurd (hfirst'.spec.1.symm.trans hp) (by simp)
      | some m =>
          have hfirst := foldl_keep_eq_some.mp hl
          rw [hone m hfirst.mem m' hm' hfirst.spec ((hbest m').mpr hfirst'.spec)]

/-- The list cut into buckets and put together in the order of the keys `ks`. -/
def regroup [DecidableEq γ] (bucket : α → γ) (ks : List γ) (l : List α) : List α :=
  ks.flatMap fun k => l.filter fun a => bucket a = k

variable [DecidableEq γ] {bucket : α → γ} {ks : List γ}

theorem mem_regroup {a : α} : a ∈ regroup bucket ks l ↔ a ∈ l ∧ bucket a ∈ ks := by
  simp only [regroup, List.mem_flatMap, List.mem_filter, decide_eq_true_eq]
  constructor
  · rintro ⟨k, hk, hal, rfl⟩
    exact ⟨hal, hk⟩
  · rintro ⟨hal, hk⟩
    exact ⟨bucket a, hk, hal, rfl⟩

/-- Where everything that satisfies `P` is in one bucket, regrouping keeps its order. -/
theorem find?_regroup {P : α → Bool} {k : γ} (hk : k ∈ ks)
    (hbucket : ∀ a ∈ l, P a = true → bucket a = k) :
    (regroup bucket ks l).find? P = l.find? P := by
  cases hl : l.find? P with
  | none =>
      rw [List.find?_eq_none] at hl ⊢
      intro a ha
      exact hl a (mem_regroup.mp ha).1
  | some b =>
      have hthis : (l.filter fun a => bucket a = k).find? P = some b := by
        rw [← hl, List.find?_filter, ← List.head?_filter, ← List.head?_filter]
        congr 1
        refine List.filter_congr fun a ha => ?_
        cases hP : P a with
        | false => simp
        | true => simp [hbucket a ha hP]
      -- the buckets before it hold nothing that satisfies `P`
      obtain ⟨as, bs, rfl, has⟩ := List.eq_append_cons_of_mem hk
      have hbefore : (as.flatMap fun k => l.filter fun a => bucket a = k).find? P = none := by
        rw [List.find?_eq_none]
        intro a ha hP
        obtain ⟨k', hk', hak⟩ := List.mem_flatMap.mp ha
        obtain ⟨hal, hbk⟩ := List.mem_filter.mp hak
        rw [decide_eq_true_eq] at hbk
        exact has ((hbucket a hal hP).symm.trans hbk ▸ hk')
      rw [regroup, List.flatMap_append, List.flatMap_cons, List.find?_append, List.find?_append,
        hbefore, hthis]
      rfl

/-- A pass over the buckets `ks` finds what a pass over the list finds, when they hold everything
    that is admitted and elements of one key share a bucket. -/
theorem foldl_keep_regroup (hks : ∀ a ∈ l, p a = true → bucket a ∈ ks)
    (hkey : ∀ a b, p a = true → p b = true → f a = f b → bucket a = bucket b) :
    (regroup bucket ks l).foldl (keep p f) none = l.foldl (keep p f) none := by
  cases hl : l.foldl (keep p f) none with
  | none =>
      rw [foldl_keep_eq_none] at hl ⊢
      intro a ha
      exact hl a (mem_regroup.mp ha).1
  | some m =>
      rw [foldl_keep, argmax_eq_some_iff_find?, List.find?_filter] at hl ⊢
      obtain ⟨hmax, hfind⟩ := hl
      have hm : m ∈ l ∧ p m = true := by
        refine ⟨List.mem_of_find?_eq_some hfind, ?_⟩
        have := List.find?_some hfind
        rw [decide_eq_true_eq] at this
        exact this.1
      refine ⟨?_, ?_⟩
      · intro a ha
        obtain ⟨har, hpa⟩ := List.mem_filter.mp ha
        exact hmax a (List.mem_filter.mpr ⟨(mem_regroup.mp har).1, hpa⟩)
      · rw [find?_regroup (hks m hm.1 hm.2), hfind]
        intro a _ ha
        rw [decide_eq_true_eq, decide_eq_true_eq] at ha
        exact hkey a m ha.1 hm.2 ha.2

end FirstBest
