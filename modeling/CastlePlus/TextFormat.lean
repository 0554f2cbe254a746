import Mathlib.Data.List.DropRight

/-! # Lines, fields and surrounding blanks

    The list operations under a line-oriented text format: cutting a text into lines as
    `getline` does, stripping the blanks around a field, and cutting a field at the first or the
    last occurrence of a separator.  Each comes with its equation on a text that was written, and
    with what its result says about a text that was read. -/

namespace TextFormat

variable {α : Type}

/-! ## Stripping -/

/-- Without the elements of `p` at both ends. -/
def strip (p : α → Bool) (l : List α) : List α := (l.dropWhile p).rdropWhile p

/-- Neither end is in `p`. -/
structure Bare (p : α → Bool) (l : List α) : Prop where
  head : ∀ c ∈ l.head?, p c = false
  last : ∀ c ∈ l.getLast?, p c = false

variable {p : α → Bool} {a b l : List α}

theorem dropWhile_eq_self (h : ∀ c ∈ l.head?, p c = false) : l.dropWhile p = l := by
  cases l with
  | nil => rfl
  | cons c l => exact List.dropWhile_cons_of_neg (by rw [h c rfl]; decide)

theorem rdropWhile_eq_self (h : ∀ c ∈ l.getLast?, p c = false) : l.rdropWhile p = l := by
  rw [List.rdropWhile, dropWhile_eq_self, List.reverse_reverse]
  rw [List.head?_reverse]
  exact h

/-- What is written with blanks around it is read back. -/
theorem strip_pad (ha : ∀ c ∈ a, p c = true) (hb : ∀ c ∈ b, p c = true) (h : Bare p l) :
    strip p (a ++ l ++ b) = l := by
  cases l with
  | nil =>
      have hall : ∀ c ∈ a ++ [] ++ b, p c = true := by
        intro c hc
        rw [List.append_nil] at hc
        exact (List.mem_append.mp hc).elim (ha c) (hb c)
      rw [strip, List.dropWhile_eq_nil_iff.mpr hall]
      rfl
  | cons c l =>
      have hdrop : (a ++ (c :: l) ++ b).dropWhile p = (c :: l) ++ b := by
        rw [List.append_assoc, List.dropWhile_append_of_pos ha]
        exact dropWhile_eq_self fun d hd => h.head d (by simpa using hd)
      have hrev : ∀ d ∈ b.reverse, p d = true := fun d hd => hb d (List.mem_reverse.mp hd)
      rw [strip, hdrop, List.rdropWhile, List.reverse_append, List.dropWhile_append_of_pos hrev]
      exact rdropWhile_eq_self h.last

theorem strip_of_bare (h : Bare p l) : strip p l = l := by
  have hpad := strip_pad (a := []) (b := []) (fun c hc => by cases hc) (fun c hc => by cases hc) h
  rwa [List.nil_append, List.append_nil] at hpad

/-- What follows a field that ends outside `p` loses its own end only. -/
theorem strip_after (ha : ∀ c ∈ a, p c = true) (hne : l ≠ []) (h : Bare p l) :
    strip p (a ++ (l ++ b)) = l ++ b.rdropWhile p := by
  have hhead : (l ++ b).dropWhile p = l ++ b := by
    refine dropWhile_eq_self fun c hc => h.head c ?_
    cases l with
    | nil => exact absurd rfl hne
    | cons d l => exact hc
  rw [strip, List.dropWhile_append_of_pos ha, hhead, List.rdropWhile, List.reverse_append,
    List.dropWhile_append]
  have hlast : l.reverse.dropWhile p = l.reverse := by
    refine dropWhile_eq_self fun c hc => h.last c ?_
    rwa [List.head?_reverse] at hc
  cases hb : b.reverse.dropWhile p with
  | nil =>
      rw [if_pos List.isEmpty_nil, hlast, List.rdropWhile, hb, List.reverse_reverse,
        List.reverse_nil, List.append_nil]
  | cons d ds =>
      rw [if_neg (by simp), List.reverse_append, List.reverse_reverse, List.rdropWhile, hb]

theorem strip_rdropWhile (ha : ∀ c ∈ a, p c = true) (hb : ∀ c ∈ b, p c = true) (h : Bare p l) :
    strip p ((a ++ l ++ b).rdropWhile p) = l := by
  by_cases hl : l = []
  · subst hl
    have hall : ∀ c ∈ (a ++ [] ++ b).reverse, p c = true := by
      intro c hc
      rw [List.mem_reverse, List.append_nil] at hc
      exact (List.mem_append.mp hc).elim (ha c) (hb c)
    rw [List.rdropWhile, List.dropWhile_eq_nil_iff.mpr hall]
    rfl
  · have hrev : ∀ d ∈ b.reverse, p d = true := fun d hd => hb d (List.mem_reverse.mp hd)
    have hcut : (a ++ l ++ b).rdropWhile p = a ++ l ++ [] := by
      rw [List.rdropWhile, List.reverse_append, List.dropWhile_append_of_pos hrev,
        List.append_nil]
      refine rdropWhile_eq_self fun c hc => h.last c ?_
      rwa [List.getLast?_append, List.getLast?_eq_some_getLast hl, Option.some_or,
        ← List.getLast?_eq_some_getLast hl] at hc
    rw [hcut]
    exact strip_pad ha (fun c hc => by cases hc) h

/-- The parts that stripping takes off. -/
theorem strip_spec (p : α → Bool) (l : List α) : ∃ a b, l = a ++ strip p l ++ b ∧
    (∀ c ∈ a, p c = true) ∧ (∀ c ∈ b, p c = true) ∧ Bare p (strip p l) := by
  refine ⟨l.takeWhile p, (l.dropWhile p).rtakeWhile p, ?_, ?_, ?_, ?_, ?_⟩
  · rw [strip, List.append_assoc, List.rdropWhile, List.rtakeWhile, ← List.reverse_append,
      List.takeWhile_append_dropWhile, List.reverse_reverse, List.takeWhile_append_dropWhile]
  · exact fun c hc => List.mem_takeWhile_imp hc
  · exact fun c hc => List.mem_rtakeWhile_imp hc
  · intro c hc
    have hpre : strip p l <+: l.dropWhile p := List.rdropWhile_prefix p _
    have hhead : (l.dropWhile p).head? = some c := by
      obtain ⟨t, ht⟩ := hpre
      rw [← ht, List.head?_append, hc]
      rfl
    have hnot := List.head?_dropWhile_not p l
    rw [hhead] at hnot
    simpa using hnot
  · intro c hc
    have hne : strip p l ≠ [] := by
      intro hnil
      rw [hnil] at hc
      cases hc
    have hnot := List.rdropWhile_last_not p (l.dropWhile p) hne
    rw [List.getLast?_eq_some_getLast hne, Option.mem_some_iff] at hc
    rw [← hc]
    exact Bool.eq_false_iff.mpr hnot

theorem bare_strip (p : α → Bool) (l : List α) : Bare p (strip p l) := by
  obtain ⟨_, _, _, _, _, h⟩ := strip_spec p l
  exact h

theorem mem_of_mem_strip {c : α} (h : c ∈ strip p l) : c ∈ l := by
  obtain ⟨a, b, hl, _, _, _⟩ := strip_spec p l
  rw [hl]
  exact List.mem_append_left _ (List.mem_append_right _ h)

/-! ## Cutting at a separator -/

variable [DecidableEq α] {c : α}

/-- What stands before and after the first `c`. -/
def splitFirst (c : α) (l : List α) : Option (List α × List α) :=
  match l.dropWhile (· ≠ c) with
  | [] => none
  | _ :: rest => some (l.takeWhile (· ≠ c), rest)

/-- What stands before and after the last `c`. -/
def splitLast (c : α) (l : List α) : Option (List α × List α) :=
  (splitFirst c l.reverse).map fun ab => (ab.2.reverse, ab.1.reverse)

theorem splitFirst_eq (h : c ∉ a) : splitFirst c (a ++ c :: b) = some (a, b) := by
  have ha : ∀ d ∈ a, decide (d ≠ c) = true := by
    intro d hd
    rw [decide_eq_true_eq]
    exact fun hdc => h (hdc ▸ hd)
  have hdrop : (c :: b).dropWhile (· ≠ c) = c :: b := List.dropWhile_cons_of_neg (by simp)
  have htake : (c :: b).takeWhile (· ≠ c) = [] := List.takeWhile_cons_of_neg (by simp)
  rw [splitFirst, List.dropWhile_append_of_pos ha, List.takeWhile_append_of_pos ha, hdrop, htake,
    List.append_nil]

theorem splitFirst_spec {ab : List α × List α} (h : splitFirst c l = some ab) :
    l = ab.1 ++ c :: ab.2 ∧ c ∉ ab.1 := by
  have hall := List.takeWhile_append_dropWhile (p := fun d => decide (d ≠ c)) (l := l)
  rw [splitFirst] at h
  cases hd : l.dropWhile (· ≠ c) with
  | nil => rw [hd] at h; cases h
  | cons d rest =>
      rw [hd] at h hall
      cases h
      have hdc : d = c := by
        have hnot := List.head?_dropWhile_not (fun d => decide (d ≠ c)) l
        rw [hd] at hnot
        simpa using hnot
      refine ⟨?_, fun hmem => ?_⟩
      · rw [hdc] at hall
        exact hall.symm
      · have := List.mem_takeWhile_imp hmem
        simp at this

theorem splitFirst_eq_none : splitFirst c l = none ↔ c ∉ l := by
  constructor
  · intro h hmem
    obtain ⟨a, b, rfl, ha⟩ := List.eq_append_cons_of_mem hmem
    rw [splitFirst_eq ha] at h
    cases h
  · intro h
    cases hs : splitFirst c l with
    | none => rfl
    | some ab =>
        rw [(splitFirst_spec hs).1] at h
        exact absurd (List.mem_append_right _ List.mem_cons_self) h

theorem splitLast_eq (h : c ∉ b) : splitLast c (a ++ c :: b) = some (a, b) := by
  have hrev : (a ++ c :: b).reverse = b.reverse ++ c :: a.reverse := by simp
  rw [splitLast, hrev, splitFirst_eq (by simpa using h), Option.map_some, List.reverse_reverse,
    List.reverse_reverse]

theorem splitLast_spec {ab : List α × List α} (h : splitLast c l = some ab) :
    l = ab.1 ++ c :: ab.2 ∧ c ∉ ab.2 := by
  rw [splitLast, Option.map_eq_some_iff] at h
  obtain ⟨⟨x, y⟩, hs, rfl⟩ := h
  obtain ⟨hl, hx⟩ := splitFirst_spec hs
  refine ⟨?_, by simpa using hx⟩
  have := congrArg List.reverse hl
  simpa using this

/-! ## Lines -/

/-- The lines that repeated `getline` returns: a last line need not be terminated, and there is
    none after a final terminator. -/
def lines (sep : α) : List α → List (List α)
  | [] => []
  | c :: cs =>
      if c = sep then [] :: lines sep cs
      else
        match lines sep cs with
        | [] => [[c]]
        | l :: ls => (c :: l) :: ls

/-- The lines, each with its terminator. -/
def unlines (sep : α) (ls : List (List α)) : List α := ls.flatMap fun l => l ++ [sep]

variable {sep : α}

theorem lines_append (h : sep ∉ a) (rest : List α) :
    lines sep (a ++ sep :: rest) = a :: lines sep rest := by
  induction a with
  | nil => simp [lines]
  | cons c a ih =>
      have hc : c ≠ sep := fun hcs => h (hcs ▸ List.mem_cons_self)
      rw [List.cons_append, lines, if_neg hc, ih fun hmem => h (List.mem_cons_of_mem _ hmem)]

theorem lines_unlines {ls : List (List α)} (h : ∀ l ∈ ls, sep ∉ l) :
    lines sep (unlines sep ls) = ls := by
  induction ls with
  | nil => rfl
  | cons l ls ih =>
      rw [unlines, List.flatMap_cons, List.append_assoc, List.singleton_append,
        lines_append (h l List.mem_cons_self)]
      exact congrArg (l :: ·) (ih fun l' hl' => h l' (List.mem_cons_of_mem _ hl'))

/-- A text without its final terminator has the same lines, or one empty line less. -/
theorem lines_concat (l : List α) :
    lines sep (l ++ [sep]) = lines sep l ∨ lines sep (l ++ [sep]) = lines sep l ++ [[]] := by
  induction l with
  | nil => exact .inr (by simp [lines])
  | cons c l ih =>
      rw [List.cons_append, lines, lines]
      by_cases hc : c = sep
      · rw [if_pos hc, if_pos hc]
        rcases ih with ih | ih
        · exact .inl (by rw [ih])
        · exact .inr (by rw [ih, List.cons_append])
      · rw [if_neg hc, if_neg hc]
        rcases ih with ih | ih
        · exact .inl (by rw [ih])
        · cases hl : lines sep l with
          | nil => exact .inl (by rw [ih, hl]; rfl)
          | cons l' ls => exact .inr (by rw [ih, hl]; rfl)

theorem sep_notMem_lines {l' : List α} (h : l' ∈ lines sep l) : sep ∉ l' := by
  induction l generalizing l' with
  | nil => cases h
  | cons c l ih =>
      rw [lines] at h
      by_cases hc : c = sep
      · rw [if_pos hc] at h
        rcases List.mem_cons.mp h with rfl | h
        · exact List.not_mem_nil
        · exact ih h
      · rw [if_neg hc] at h
        have hhead : ∀ x : List α, sep ∉ x → sep ∉ c :: x := by
          intro x hx hmem
          rcases List.mem_cons.mp hmem with hs | hmem
          · exact hc hs.symm
          · exact hx hmem
        cases hl : lines sep l with
        | nil =>
            rw [hl] at h
            rw [List.mem_singleton.mp h]
            exact hhead [] List.not_mem_nil
        | cons x ls =>
            rw [hl] at h ih
            rcases List.mem_cons.mp h with rfl | h
            · exact hhead x (ih List.mem_cons_self)
            · exact ih (List.mem_cons_of_mem _ h)

end TextFormat
