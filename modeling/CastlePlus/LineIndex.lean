import CastlePlus.TextFormat

/-! # Terminated texts, input streams and the starts of lines

    A text that ends with a terminator can be appended to line by line, and has as many lines as
    terminators; the complete lines of any text are those before its last terminator.

    An input stream is what the standard library keeps: the data, a position, `eofbit` and
    `failbit`, with `getline`, `tellg` and `seekg` over them.  A text cut where a line starts is
    cut into its first lines and the others (**`lineStarts_spec`**), so a stream moved there reads
    exactly that line (**`getline_lineStart`**). -/

namespace LineIndex

open TextFormat

variable {α : Type} {sep : α} {a b l : List α}

/-! ## Terminated texts -/

/-- Empty, or with a terminator at the end. -/
def Terminated (sep : α) (l : List α) : Prop := ∀ c ∈ l.getLast?, c = sep

theorem terminated_nil : Terminated sep [] := fun c hc => (by cases hc)

theorem terminated_concat (l : List α) : Terminated sep (l ++ [sep]) := by
  intro c hc
  rw [List.getLast?_concat] at hc
  cases hc
  rfl

theorem terminated_cons {c : α} (hne : l ≠ []) : Terminated sep (c :: l) ↔ Terminated sep l := by
  rw [Terminated, Terminated, List.getLast?_cons_of_ne_nil hne]

variable [DecidableEq α]

instance : Decidable (Terminated sep l) := inferInstanceAs (Decidable (∀ c ∈ l.getLast?, c = sep))

theorem lines_ne_nil (h : l ≠ []) : lines sep l ≠ [] := by
  cases l with
  | nil => exact absurd rfl h
  | cons c l =>
      rw [lines]
      by_cases hc : c = sep
      · rw [if_pos hc]
        exact List.cons_ne_nil _ _
      · rw [if_neg hc]
        cases lines sep l with
        | nil => exact List.cons_ne_nil _ _
        | cons x xs => exact List.cons_ne_nil _ _

/-- What is appended to a terminated text starts a line. -/
theorem lines_append_of_terminated (h : Terminated sep a) (b : List α) :
    lines sep (a ++ b) = lines sep a ++ lines sep b := by
  induction a with
  | nil => rfl
  | cons c a ih =>
      by_cases ha : a = []
      · have hc : c = sep := by
          rw [ha] at h
          exact h c rfl
        rw [ha, List.singleton_append, lines, if_pos hc, lines, if_pos hc]
        rfl
      · have ih' := ih ((terminated_cons ha).mp h)
        rw [List.cons_append, lines, lines, ih']
        by_cases hc : c = sep
        · rw [if_pos hc, if_pos hc, List.cons_append]
        · rw [if_neg hc, if_neg hc]
          cases hl : lines sep a with
          | nil => exact absurd hl (lines_ne_nil ha)
          | cons x xs => rfl

/-- A text has as many lines as terminators, and one more if it is not terminated. -/
theorem length_lines (l : List α) :
    (lines sep l).length = l.count sep + if Terminated sep l then 0 else 1 := by
  induction l with
  | nil => rw [if_pos terminated_nil]; rfl
  | cons c l ih =>
      by_cases hl : l = []
      · rw [hl, lines, List.count_cons, List.count_nil]
        by_cases hc : c = sep
        · have hterm : Terminated sep [c] := fun d hd => (by cases hd; exact hc)
          rw [if_pos hc, if_pos hterm, hc]
          simp [lines]
        · have hterm : ¬ Terminated sep [c] := fun h => hc (h c rfl)
          rw [if_neg hc, if_neg hterm]
          simp [lines, hc]
      · have hiff : Terminated sep (c :: l) ↔ Terminated sep l := terminated_cons hl
        rw [lines, List.count_cons]
        simp only [hiff]
        by_cases hc : c = sep
        · rw [if_pos hc, List.length_cons, ih, hc]
          simp only [beq_self_eq_true, if_true]
          omega
        · rw [if_neg hc]
          have hbeq : (c == sep) = false := beq_false_of_ne hc
          cases hls : lines sep l with
          | nil => exact absurd hls (lines_ne_nil hl)
          | cons x xs =>
              rw [hls] at ih
              simp only [hbeq, Bool.false_eq_true, if_false, Nat.add_zero]
              exact ih

theorem length_lines_of_terminated (h : Terminated sep l) :
    (lines sep l).length = l.count sep := by
  rw [length_lines, if_pos h, Nat.add_zero]

theorem length_lines_eq_count_iff : (lines sep l).length = l.count sep ↔ Terminated sep l := by
  rw [length_lines]
  by_cases h : Terminated sep l
  · simp [h]
  · simp [h]

/-- The first line, and the lines of what follows it. -/
theorem lines_eq_cons (sep : α) (h : l ≠ []) : lines sep l = l.takeWhile (· ≠ sep) ::
    lines sep (l.drop ((l.takeWhile (· ≠ sep)).length + 1)) := by
  induction l with
  | nil => exact absurd rfl h
  | cons c l ih =>
      rw [lines]
      by_cases hc : c = sep
      · rw [if_pos hc, List.takeWhile_cons_of_neg (by simpa using hc)]
        rfl
      · rw [if_neg hc, List.takeWhile_cons_of_pos (by simpa using hc), List.length_cons,
          List.drop_succ_cons]
        by_cases hl : l = []
        · rw [hl]
          rfl
        · rw [ih hl]

omit [DecidableEq α] in
theorem terminated_unlines (ls : List (List α)) : Terminated sep (unlines sep ls) := by
  induction ls with
  | nil => exact terminated_nil
  | cons l ls ih =>
      rw [unlines, List.flatMap_cons]
      by_cases hls : unlines sep ls = []
      · rw [unlines] at hls
        rw [hls, List.append_nil]
        exact terminated_concat l
      · intro c hc
        rw [List.getLast?_append, ← unlines, List.getLast?_eq_some_getLast hls, Option.some_or,
          ← List.getLast?_eq_some_getLast hls] at hc
        exact ih c hc

/-! ## Complete lines -/

/-- The terminated lines of a text: an unterminated tail is left out. -/
def completeLines (sep : α) (l : List α) : List (List α) :=
  if Terminated sep l then lines sep l else (lines sep l).dropLast

theorem completeLines_of_notMem (h : sep ∉ l) : completeLines sep l = [] := by
  rw [completeLines]
  by_cases hl : l = []
  · rw [hl, if_pos terminated_nil]
    rfl
  · have hterm : ¬ Terminated sep l := fun hterm =>
      h (hterm _ (List.getLast?_eq_some_getLast hl) ▸ List.getLast_mem hl)
    have hlen : (lines sep l).length = 1 := by
      rw [length_lines, if_neg hterm, List.count_eq_zero.mpr h]
    rw [if_neg hterm]
    exact List.length_eq_zero_iff.mp (by rw [List.length_dropLast, hlen])

/-- The first line comes off the front. -/
theorem completeLines_append (h : sep ∉ a) (rest : List α) :
    completeLines sep (a ++ sep :: rest) = a :: completeLines sep rest := by
  rw [completeLines, completeLines, lines_append h]
  by_cases hrest : rest = []
  · rw [hrest, if_pos terminated_nil, if_pos (terminated_concat a)]
  · have hiff : Terminated sep (a ++ sep :: rest) ↔ Terminated sep rest := by
      rw [Terminated, Terminated, List.getLast?_append, List.getLast?_cons_of_ne_nil hrest,
        List.getLast?_eq_some_getLast hrest, Option.some_or]
    by_cases hterm : Terminated sep rest
    · rw [if_pos hterm, if_pos (hiff.mpr hterm)]
    · rw [if_neg hterm, if_neg fun h' => hterm (hiff.mp h'),
        List.dropLast_cons_of_ne_nil (lines_ne_nil hrest)]

/-- The complete lines with their terminators are a beginning of the text. -/
theorem unlines_completeLines_isPrefix (l : List α) : unlines sep (completeLines sep l) <+: l := by
  -- induction on the length: a line and its terminator come off the front
  induction hn : l.length using Nat.strong_induction_on generalizing l with
  | _ n ih =>
      cases hs : splitFirst sep l with
      | none =>
          rw [completeLines_of_notMem (splitFirst_eq_none.mp hs)]
          exact List.nil_prefix
      | some ab =>
          obtain ⟨hl, ha⟩ := splitFirst_spec hs
          have hlt : ab.2.length < n := by
            rw [← hn, hl, List.length_append, List.length_cons]
            omega
          have hrest := ih _ hlt ab.2 rfl
          rw [hl, completeLines_append ha, unlines, List.flatMap_cons, ← unlines,
            List.append_assoc, List.singleton_append]
          exact (List.prefix_append_right_inj _).mpr
            ((List.cons_prefix_cons).mpr ⟨rfl, hrest⟩)

/-! ## Streams -/

structure IStream (α : Type) where
  data : List α
  pos : Nat := 0
  eofbit : Bool := false
  failbit : Bool := false

namespace IStream

def good (s : IStream α) : Bool := !s.eofbit && !s.failbit

def clear (s : IStream α) : IStream α := { s with eofbit := false, failbit := false }

/-- `std::getline`: the terminator is taken off the stream and not stored; the end of the data
    sets `eofbit`, and `failbit` too if there was nothing to take. -/
def getline (sep : α) (s : IStream α) : List α × IStream α :=
  if s.good then
    let rest := s.data.drop s.pos
    let line := rest.takeWhile (· ≠ sep)
    if line.length < rest.length then (line, { s with pos := s.pos + line.length + 1 })
    else (line, { s with
      pos := s.pos + line.length
      eofbit := true
      failbit := rest.isEmpty })
  else ([], { s with failbit := true })

/-- `tellg`: −1 on a stream that is not good, which then fails. -/
def tellg (s : IStream α) : Int × IStream α :=
  if s.good then (s.pos, s) else (-1, { s with failbit := true })

/-- `seekg` to a position from the start. -/
def seekg (p : Int) (s : IStream α) : IStream α :=
  if s.failbit then { s with eofbit := false }
  else if p < 0 then { s with eofbit := false, failbit := true }
  else { s with pos := p.toNat, eofbit := false }

/-- A stream that is good reads the first line of what is left. -/
theorem getline_fst {s : IStream α} (h : s.good = true) :
    (s.getline sep).1 = (s.data.drop s.pos).takeWhile (· ≠ sep) := by
  rw [getline, if_pos h]
  by_cases hlt : ((s.data.drop s.pos).takeWhile (· ≠ sep)).length < (s.data.drop s.pos).length
  · rw [if_pos hlt]
  · rw [if_neg hlt]

section

variable {data : List α} {p : Nat}

/-- Nothing is left: the read fails. -/
theorem getline_end (sep : α) (h : data.drop p = []) :
    (getline sep { data, pos := p }).2 = { data, pos := p, eofbit := true, failbit := true } := by
  simp only [getline, good, h]
  rfl

/-- A terminated line: the stream is good still, behind the terminator. -/
theorem getline_line {line : List α} (hline : (data.drop p).takeWhile (· ≠ sep) = line)
    (h : line.length < (data.drop p).length) :
    (getline sep { data, pos := p }).2 = { data, pos := p + line.length + 1 } := by
  simp only [getline, good, hline, h]
  rfl

/-- An unterminated line is read, and the end of the data is seen. -/
theorem getline_tail {line : List α} (hne : data.drop p ≠ [])
    (hline : (data.drop p).takeWhile (· ≠ sep) = line)
    (h : ¬ line.length < (data.drop p).length) :
    (getline sep { data, pos := p }).2 = { data, pos := p + line.length, eofbit := true } := by
  simp only [getline, good, hline, h]
  simp [hne]

end

theorem getline_data (s : IStream α) : (s.getline sep).2.data = s.data := by
  rw [getline]
  dsimp only
  split
  · split <;> rfl
  · rfl

end IStream

/-! ## The starts of the lines -/

/-- Where the lines start, when the first one starts at `p`. -/
def startsFrom : Nat → List (List α) → List Nat
  | _, [] => []
  | p, l :: ls => p :: startsFrom (p + l.length + 1) ls

/-- Where the lines of a text start. -/
def lineStarts (sep : α) (data : List α) : List Nat := startsFrom 0 (lines sep data)

omit [DecidableEq α] in
theorem length_startsFrom (p : Nat) (ls : List (List α)) :
    (startsFrom p ls).length = ls.length := by
  induction ls generalizing p with
  | nil => rfl
  | cons l ls ih => rw [startsFrom, List.length_cons, List.length_cons, ih]

theorem length_lineStarts (data : List α) :
    (lineStarts sep data).length = (lines sep data).length := length_startsFrom 0 _

/-- A line that another one follows is terminated. -/
theorem takeWhile_terminated (sep : α) {l : List α}
    (h : l.drop ((l.takeWhile (· ≠ sep)).length + 1) ≠ []) :
    l = l.takeWhile (· ≠ sep) ++ [sep] ++ l.drop ((l.takeWhile (· ≠ sep)).length + 1) := by
  induction l with
  | nil => exact absurd List.drop_nil h
  | cons c l ih =>
      by_cases hc : c = sep
      · rw [List.takeWhile_cons_of_neg (by simpa using hc), hc]
        rfl
      · rw [List.takeWhile_cons_of_pos (by simpa using hc), List.length_cons,
          List.drop_succ_cons] at h ⊢
        exact congrArg (c :: ·) (ih h)

theorem startsFrom_spec (sep : α) (data : List α) (p i q : Nat)
    (h : (startsFrom p (lines sep (data.drop p)))[i]? = some q) :
    lines sep (data.drop q) = (lines sep (data.drop p)).drop i ∧
      data.take q = data.take p ++ unlines sep ((lines sep (data.drop p)).take i) := by
  -- induction on the number of lines before the one at `q`
  induction i generalizing p with
  | zero =>
      cases hls : lines sep (data.drop p) with
      | nil => rw [hls] at h; cases h
      | cons l ls =>
          rw [hls] at h
          cases h
          exact ⟨hls, by rw [List.take_zero]; exact (List.append_nil _).symm⟩
  | succ i ih =>
      by_cases hne : data.drop p = []
      · rw [hne] at h
        cases h
      · obtain ⟨l, hl⟩ : ∃ l, (data.drop p).takeWhile (· ≠ sep) = l := ⟨_, rfl⟩
        have hcons := lines_eq_cons sep hne
        have hdd : (data.drop p).drop (l.length + 1) = data.drop (p + l.length + 1) := by
          rw [List.drop_drop, Nat.add_assoc]
        rw [hl, hdd] at hcons
        rw [hcons, startsFrom, List.getElem?_cons_succ] at h
        obtain ⟨hrest, htake⟩ := ih _ h
        -- the next start exists, so the line before it is terminated
        have hlater : data.drop (p + l.length + 1) ≠ [] := by
          intro hnil
          rw [hnil] at h
          cases h
        have hcut := takeWhile_terminated sep (l := data.drop p) (by rwa [hl, hdd])
        rw [hl, hdd] at hcut
        have hprefix : data.take (p + l.length + 1) = data.take p ++ (l ++ [sep]) := by
          have hlen : (l ++ [sep]).length = l.length + 1 := by simp
          rw [Nat.add_assoc, List.take_add, hcut, List.take_left' hlen]
        refine ⟨by rw [hrest, hcons, List.drop_succ_cons], ?_⟩
        rw [htake, hprefix, hcons, List.take_succ_cons, unlines, unlines, List.flatMap_cons,
          List.append_assoc]

/-- The start of line `i`: the lines from `i` on follow it, the others stand before it. -/
theorem lineStarts_spec {data : List α} {i q : Nat} (h : (lineStarts sep data)[i]? = some q) :
    lines sep (data.drop q) = (lines sep data).drop i ∧
      data.take q = unlines sep ((lines sep data).take i) := by
  have hspec := startsFrom_spec sep data 0 i q h
  rwa [List.drop_zero, List.take_zero, List.nil_append] at hspec

/-- A good stream at the start of line `i` reads that line. -/
theorem getline_lineStart (sep : α) (s : IStream α) (hgood : s.good = true) {i : Nat}
    (h : (lineStarts sep s.data)[i]? = some s.pos) :
    (lines sep s.data)[i]? = some (s.getline sep).1 := by
  have hrest := (lineStarts_spec h).1
  have hi : i < (lines sep s.data).length := by
    rw [← length_lineStarts]
    exact (List.getElem?_eq_some_iff.mp h).1
  have hne : s.data.drop s.pos ≠ [] := by
    intro hnil
    rw [hnil] at hrest
    have := congrArg List.length hrest
    rw [List.length_drop] at this
    simp only [lines, List.length_nil] at this
    omega
  rw [lines_eq_cons sep hne] at hrest
  rw [IStream.getline_fst hgood, ← List.head?_drop, ← hrest]
  rfl

end LineIndex
