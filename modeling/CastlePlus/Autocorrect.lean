import CastlePlus.FirstBest
import CastlePlus.RequestHead
import Mathlib.Data.Prod.Lex

/-! # The autocorrect filter

    `bstd::autoCorrectFilter` (`util/autocorrect.hpp`), which proposes a command for a mistyped
    one.  `fix` scores the words of the length buckets within the sensitivity of the input's
    length; `fixHelper` scores one word with two cursors that look one letter ahead.

    * A string access that may be past the end is an `Option`; **`distance_spec`** shows that none
      is, and that the cost is at least two for each letter of length difference.
    * **`fix_exact`**: so the window loses nothing, and `fix` is a scan of the dictionary.

    The distances are natural numbers: two strings of less than 2^47 bytes, all that fit a
    process, cost less than 2^56. -/

namespace CastlePlus

open FirstBest

/-- The members of the class.  A length without a bucket has the empty one. -/
structure AutoCorrectFilter where
  sensitivity : Nat
  dictionary : Nat → List Bytes

namespace AutoCorrectFilter

/-- `lookupGrid`, a row and a column for each letter from a to z. -/
def lookupGrid : List (List Nat) :=
  [[0, 5, 3, 2, 2, 3, 4, 5, 7, 6, 7, 8, 7, 6, 8, 9, 1, 3, 1, 4, 6, 4, 1, 2, 5, 1],
   [5, 0, 2, 3, 4, 2, 1, 1, 3, 2, 3, 4, 2, 1, 4, 5, 5, 3, 4, 3, 3, 1, 4, 3, 2, 4],
   [3, 2, 0, 1, 3, 1, 2, 3, 5, 4, 5, 6, 4, 3, 6, 7, 4, 2, 2, 3, 4, 1, 3, 1, 3, 2],
   [2, 3, 1, 0, 1, 1, 2, 3, 5, 4, 5, 6, 5, 4, 6, 7, 3, 1, 1, 2, 4, 2, 2, 1, 3, 2],
   [2, 4, 3, 1, 0, 2, 3, 3, 5, 4, 5, 6, 5, 4, 6, 7, 2, 1, 1, 2, 4, 3, 1, 2, 3, 3],
   [3, 2, 1, 1, 2, 0, 1, 2, 4, 3, 4, 5, 4, 3, 5, 6, 3, 1, 2, 1, 3, 1, 3, 2, 2, 3],
   [4, 1, 2, 2, 3, 1, 0, 1, 3, 2, 3, 4, 3, 2, 4, 5, 4, 2, 3, 1, 2, 1, 3, 3, 1, 4],
   [5, 1, 3, 3, 3, 2, 1, 0, 2, 1, 2, 3, 2, 1, 3, 4, 5, 3, 4, 2, 1, 2, 4, 4, 1, 5],
   [7, 3, 5, 5, 5, 4, 3, 2, 0, 1, 1, 2, 2, 3, 1, 2, 7, 4, 6, 3, 1, 4, 6, 6, 2, 7],
   [6, 2, 4, 4, 4, 3, 2, 1, 1, 0, 1, 2, 1, 1, 2, 3, 6, 3, 5, 3, 1, 3, 5, 5, 2, 6],
   [7, 3, 5, 5, 5, 4, 3, 2, 1, 1, 0, 1, 1, 2, 1, 2, 7, 4, 6, 3, 2, 4, 6, 6, 3, 7],
   [8, 4, 6, 6, 6, 5, 4, 3, 2, 2, 1, 0, 2, 3, 1, 1, 8, 5, 7, 4, 3, 5, 7, 7, 3, 8],
   [7, 2, 4, 5, 5, 4, 3, 2, 2, 1, 1, 2, 0, 1, 3, 3, 7, 4, 6, 4, 3, 3, 6, 5, 3, 6],
   [6, 1, 3, 4, 4, 3, 2, 1, 3, 1, 2, 3, 1, 0, 3, 4, 6, 4, 5, 3, 2, 2, 5, 4, 3, 5],
   [8, 4, 6, 6, 6, 5, 4, 3, 1, 2, 1, 1, 3, 3, 0, 1, 8, 5, 7, 4, 2, 5, 7, 7, 3, 8],
   [9, 5, 7, 7, 7, 6, 5, 4, 2, 3, 2, 1, 3, 4, 1, 0, 9, 6, 8, 5, 3, 6, 8, 8, 4, 9],
   [1, 5, 4, 3, 2, 3, 4, 5, 7, 6, 7, 8, 7, 6, 8, 9, 0, 3, 2, 4, 6, 4, 1, 3, 5, 3],
   [3, 3, 2, 1, 1, 1, 2, 3, 4, 3, 4, 5, 4, 4, 5, 6, 3, 0, 2, 1, 3, 3, 2, 3, 2, 3],
   [1, 4, 2, 1, 1, 2, 3, 4, 6, 5, 6, 7, 6, 5, 7, 8, 2, 2, 0, 3, 5, 3, 1, 1, 4, 1],
   [4, 3, 3, 2, 2, 1, 1, 2, 3, 3, 3, 4, 4, 3, 4, 5, 4, 1, 3, 0, 2, 2, 3, 3, 1, 4],
   [6, 3, 4, 4, 4, 3, 2, 1, 1, 1, 2, 3, 3, 2, 2, 3, 6, 3, 5, 2, 0, 3, 5, 5, 1, 6],
   [4, 1, 1, 2, 3, 1, 1, 2, 4, 3, 4, 5, 3, 2, 5, 6, 4, 3, 3, 2, 3, 0, 4, 2, 3, 3],
   [1, 4, 3, 2, 1, 3, 3, 4, 6, 5, 6, 7, 6, 5, 7, 8, 1, 2, 1, 3, 5, 4, 0, 3, 4, 2],
   [2, 3, 1, 1, 2, 2, 3, 4, 6, 5, 6, 7, 5, 4, 7, 8, 3, 3, 1, 3, 5, 2, 3, 0, 4, 1],
   [5, 2, 3, 3, 3, 2, 1, 1, 2, 2, 3, 3, 3, 3, 3, 4, 5, 2, 4, 1, 1, 3, 4, 4, 0, 5],
   [1, 4, 2, 2, 3, 3, 4, 5, 7, 6, 7, 8, 6, 5, 8, 9, 3, 3, 1, 4, 6, 3, 2, 1, 5, 0]]

/-- `kMaxDistance`. -/
def kMaxDistance : Nat := 0xFF

/-- `kSwapCost`: one adjacent transposition. -/
def kSwapCost : Nat := 1

/-- `kGapCost`: one inserted or deleted letter. -/
def kGapCost : Nat := 2

/-- `SIZE_MAX`. -/
def sizeMax : Nat := 2 ^ 64 - 1

/-- `std::tolower(c) - ascii_a`, when it is between 0 and 25. -/
def letterIndex (c : UInt8) : Option Nat :=
  if 0x61 ≤ toLower c ∧ toLower c ≤ 0x7a then some ((toLower c).toNat - 0x61) else none

/-- `findLetterDistance`. -/
def findLetterDistance (x y : UInt8) : Nat :=
  match letterIndex x, letterIndex y with
  | some a, some b => (lookupGrid.getD a []).getD b 0
  | _, _ => kMaxDistance

/-- `same(input[i], word[j])`; `none` is an access past the end of a string. -/
def same (input word : Bytes) (i j : Nat) : Option Bool := do
  let x ← input[i]?
  let y ← word[j]?
  return findLetterDistance x y == 0

/-- Two adjacent letters are swapped here. -/
def swapped (input word : Bytes) (i j : Nat) : Option Bool := do
  if i + 1 < input.length ∧ j + 1 < word.length then
    if ← same input word i (j + 1) then same input word (i + 1) j
    else return false
  else return false

/-- The word has an extra letter here. -/
def missing (input word : Bytes) (i j : Nat) : Option Bool := do
  if input.length - i < word.length - j then same input word i (j + 1)
  else return false

/-- The input has an extra letter here. -/
def extra (input word : Bytes) (i j : Nat) : Option Bool := do
  if word.length - j < input.length - i then same input word (i + 1) j
  else return false

/-- One turn of the loop of `fixHelper`: the new cursors and what the turn costs. -/
def turn (input word : Bytes) (i j : Nat) : Option (Nat × Nat × Nat) := do
  let x ← input[i]?
  let y ← word[j]?
  let d := findLetterDistance x y
  if d = 0 then return (i + 1, j + 1, 0)
  else if ← swapped input word i j then return (i + 2, j + 2, kSwapCost)
  else if ← missing input word i j then return (i, j + 1, kGapCost)
  else if ← extra input word i j then return (i + 1, j, kGapCost)
  else return (i + 1, j + 1, d)

/-- The loop of `fixHelper`, for at most `k` turns, and the charge for what is left. -/
def walk (input word : Bytes) (k i j total : Nat) : Option Nat :=
  if i < input.length ∧ j < word.length then
    match k with
    | 0 => none
    | k + 1 => do
        let (i', j', c) ← turn input word i j
        walk input word k i' j' (total + c)
  else some (total + kGapCost * ((input.length - i) + (word.length - j)))

/-- `totalDistance` at the end of `fixHelper`.  Every turn moves a cursor. -/
def distance (input word : Bytes) : Option Nat :=
  walk input word (input.length + word.length) 0 0 0

/-- `fixHelper`; the inner option is the source's. -/
def fixHelper (sensitivity : Nat) (input word : Bytes) : Option (Option Nat) := do
  let total ← distance input word
  return if sensitivity < total then none else some total

/-- The constructor. -/
def make (sensitivity : Nat) (dictionary : List Bytes) : AutoCorrectFilter where
  sensitivity := sensitivity
  dictionary := dictionary.foldl
    (fun buckets str => Function.update buckets str.length (buckets str.length ++ [str]))
    fun _ => []

def minFind (f : AutoCorrectFilter) (str : Bytes) : Nat :=
  if f.sensitivity < str.length then str.length - f.sensitivity else 0

def maxFind (f : AutoCorrectFilter) (str : Bytes) : Nat :=
  (str.length + f.sensitivity) % 2 ^ 64

/-- The candidate pool.  The loop over the lengths ends where `maxFind` is below `SIZE_MAX`. -/
def pool (f : AutoCorrectFilter) (str : Bytes) : List Bytes :=
  (List.range' (f.minFind str) (f.maxFind str + 1 - f.minFind str)).flatMap f.dictionary

/-- `bestMatch` and `bestMatchDistance`. -/
structure Match where
  word : Bytes
  dist : Nat

/-- One turn of the selection loop. -/
def select (f : AutoCorrectFilter) (str : Bytes) (best : Match) (word : Bytes) : Option Match := do
  match ← fixHelper f.sensitivity str word with
  | some count =>
      if count < best.dist ∨ (count = best.dist ∧ best.word.length < word.length) then
        return ⟨word, count⟩
      else return best
  | none => return best

/-- `fix`. -/
def fix (f : AutoCorrectFilter) (str : Bytes) : Option Bytes := do
  let best ← (f.pool str).foldlM (f.select str) ⟨str, sizeMax⟩
  return best.word

/-! ## One word -/

variable {input word : Bytes} {i j : Nat}

/-- The difference of two lengths. -/
def gap (a b : Nat) : Nat := (a - b) + (b - a)

theorem findLetterDistance_le (x y : UInt8) : findLetterDistance x y ≤ kMaxDistance := by
  have hgrid : ∀ row ∈ lookupGrid, ∀ d ∈ row, d ≤ kMaxDistance := by decide
  rw [findLetterDistance]
  split
  · rename_i a b _ _
    rw [List.getD_eq_getElem?_getD, List.getD_eq_getElem?_getD]
    cases hrow : lookupGrid[a]? with
    | none => exact Nat.zero_le _
    | some row =>
        rw [Option.getD_some]
        cases hd : row[b]? with
        | none => exact Nat.zero_le _
        | some d => exact hgrid row (List.mem_of_getElem? hrow) d (List.mem_of_getElem? hd)
  · exact Nat.le_refl _

theorem same_inside (input word : Bytes) {i j : Nat} (hi : i < input.length)
    (hj : j < word.length) :
    ∃ b, same input word i j = some b := by
  rw [same, List.getElem?_eq_getElem hi, List.getElem?_eq_getElem hj]
  exact ⟨_, rfl⟩

theorem swapped_inside (input word : Bytes) (i j : Nat) : ∃ b, swapped input word i j = some b ∧
    (b = true → i + 1 < input.length ∧ j + 1 < word.length) := by
  rw [swapped]
  by_cases h : i + 1 < input.length ∧ j + 1 < word.length
  · obtain ⟨b, hb⟩ := same_inside input word (Nat.lt_of_succ_lt h.1) h.2
    obtain ⟨c, hc⟩ := same_inside input word h.1 (Nat.lt_of_succ_lt h.2)
    rw [if_pos h, hb, hc]
    cases b with
    | true => exact ⟨c, rfl, fun _ => h⟩
    | false => exact ⟨false, rfl, fun _ => h⟩
  · rw [if_neg h]
    exact ⟨false, rfl, fun hb => by cases hb⟩

theorem missing_inside (word : Bytes) (hi : i < input.length) : ∃ b, missing input word i j = some b ∧
    (b = true → input.length - i < word.length - j) := by
  rw [missing]
  by_cases h : input.length - i < word.length - j
  · obtain ⟨b, hb⟩ := same_inside input word (j := j + 1) hi (by omega)
    rw [if_pos h, hb]
    exact ⟨b, rfl, fun _ => h⟩
  · rw [if_neg h]
    exact ⟨false, rfl, fun hb => by cases hb⟩

theorem extra_inside (input : Bytes) (hj : j < word.length) : ∃ b, extra input word i j = some b ∧
    (b = true → word.length - j < input.length - i) := by
  rw [extra]
  by_cases h : word.length - j < input.length - i
  · obtain ⟨b, hb⟩ := same_inside input word (i := i + 1) (by omega) hj
    rw [if_pos h, hb]
    exact ⟨b, rfl, fun _ => h⟩
  · rw [if_neg h]
    exact ⟨false, rfl, fun hb => by cases hb⟩

/-- What a turn does to the cursors: they stay inside, one of them moves, and only a gap, for
    its two points, brings the remaining lengths closer. -/
structure Turned (n m i j i' j' c : Nat) : Prop where
  input_le : i' ≤ n
  word_le : j' ≤ m
  moves : i + j < i' + j'
  paid : 2 * gap (n - i) (m - j) ≤ c + 2 * gap (n - i') (m - j')
  bounded : c + kMaxDistance * ((n - i') + (m - j')) ≤ kMaxDistance * ((n - i) + (m - j))

theorem turn_inside (hi : i < input.length) (hj : j < word.length) :
    ∃ i' j' c, turn input word i j = some (i', j', c) ∧
      Turned input.length word.length i j i' j' c := by
  obtain ⟨swap, hswap, hs⟩ := swapped_inside input word i j
  obtain ⟨miss, hmiss, hm⟩ := missing_inside word (j := j) hi
  obtain ⟨more, hmore, he⟩ := extra_inside input (i := i) hj
  have hd := findLetterDistance_le input[i] word[j]
  rw [turn, List.getElem?_eq_getElem hi, List.getElem?_eq_getElem hj, hswap, hmiss, hmore]
  by_cases hzero : findLetterDistance input[i] word[j] = 0
  · -- the letters agree
    refine ⟨i + 1, j + 1, 0, if_pos hzero, ?_⟩
    exact ⟨hi, hj, by omega, by simp only [gap]; omega, by simp only [kMaxDistance]; omega⟩
  · cases swap with
    | true =>
        -- two letters swapped
        obtain ⟨hi1, hj1⟩ := hs rfl
        refine ⟨i + 2, j + 2, kSwapCost, if_neg hzero, ?_⟩
        exact ⟨hi1, hj1, by omega, by simp only [gap, kSwapCost]; omega,
          by simp only [kMaxDistance, kSwapCost]; omega⟩
    | false =>
        cases miss with
        | true =>
            -- a letter of the word is missing
            have hgap := hm rfl
            refine ⟨i, j + 1, kGapCost, if_neg hzero, ?_⟩
            exact ⟨hi.le, hj, by omega, by simp only [gap, kGapCost]; omega,
              by simp only [kMaxDistance, kGapCost]; omega⟩
        | false =>
            cases more with
            | true =>
                -- the input has one too many
                have hgap := he rfl
                refine ⟨i + 1, j, kGapCost, if_neg hzero, ?_⟩
                exact ⟨hi, hj.le, by omega, by simp only [gap, kGapCost]; omega,
                  by simp only [kMaxDistance, kGapCost]; omega⟩
            | false =>
                -- a wrong letter
                refine ⟨i + 1, j + 1, _, if_neg hzero, ?_⟩
                simp only [kMaxDistance] at hd
                exact ⟨hi, hj, by omega, by simp only [gap]; omega,
                  by simp only [kMaxDistance]; omega⟩

/-- From cursors inside the strings the loop runs to its end within the remaining letters. -/
theorem walk_spec (input word : Bytes) (k : Nat) : ∀ i j total, i ≤ input.length → j ≤ word.length →
    (input.length - i) + (word.length - j) ≤ k →
    ∃ c, walk input word k i j total = some c ∧
      total + 2 * gap (input.length - i) (word.length - j) ≤ c ∧
      c ≤ total + kMaxDistance * ((input.length - i) + (word.length - j)) := by
  induction k with
  | zero =>
      intro i j total hi hj hk
      refine ⟨_, by rw [walk, if_neg (by omega)], ?_, ?_⟩
      · simp only [gap, kGapCost]
        omega
      · simp only [kMaxDistance, kGapCost]
        omega
  | succ k ih =>
      intro i j total hi hj hk
      by_cases hin : i < input.length ∧ j < word.length
      · obtain ⟨i', j', c, hturn, ht⟩ := turn_inside hin.1 hin.2
        have hmoves := ht.moves
        have hi' := ht.input_le
        have hj' := ht.word_le
        obtain ⟨r, hwalk, hlow, hhigh⟩ := ih i' j' (total + c) hi' hj' (by omega)
        refine ⟨r, ?_, ?_, ?_⟩
        · rw [walk, if_pos hin, hturn]
          exact hwalk
        · have := ht.paid
          omega
        · have := ht.bounded
          omega
      · refine ⟨_, by rw [walk, if_neg hin], ?_, ?_⟩
        · simp only [gap, kGapCost]
          omega
        · simp only [kMaxDistance, kGapCost]
          omega

/-- For any bytes: no index is past the end of a string, a length difference costs two a letter,
    and the cost does not outgrow the lengths. -/
theorem distance_spec (input word : Bytes) : ∃ c, distance input word = some c ∧
    2 * gap input.length word.length ≤ c ∧
    c ≤ kMaxDistance * (input.length + word.length) := by
  obtain ⟨c, hc, hlow, hhigh⟩ := walk_spec input word
    (input.length + word.length) 0 0 0 (Nat.zero_le _) (Nat.zero_le _) (by omega)
  rw [Nat.zero_add] at hlow hhigh
  exact ⟨c, hc, hlow, hhigh⟩

/-- The cost of a word. -/
def cost (input word : Bytes) : Nat := (distance input word).getD 0

theorem distance_eq (input word : Bytes) : distance input word = some (cost input word) := by
  obtain ⟨c, hc, -⟩ := distance_spec input word
  rw [cost, hc, Option.getD_some]

theorem gap_le_cost (input word : Bytes) :
    2 * gap input.length word.length ≤ cost input word := by
  obtain ⟨c, hc, hlow, -⟩ := distance_spec input word
  rwa [cost, hc, Option.getD_some]

/-- Strings that fit a process do not wrap the `size_t` the source adds up in. -/
theorem cost_lt (hinput : input.length < 2 ^ 47) (hword : word.length < 2 ^ 47) :
    cost input word < 2 ^ 56 := by
  obtain ⟨c, hc, -, hhigh⟩ := distance_spec input word
  rw [cost, hc, Option.getD_some]
  simp only [kMaxDistance] at hhigh
  omega

/-! ## The scan -/

variable {sensitivity : Nat} {dictionary : List Bytes} {str : Bytes}

/-- The word is within the budget. -/
def qualifies (sensitivity : Nat) (str word : Bytes) : Bool := cost str word ≤ sensitivity

/-- Cheaper is better, and at equal cost longer is better. -/
def rank (str word : Bytes) : ℕᵒᵈ ×ₗ ℕ := toLex (OrderDual.toDual (cost str word), word.length)

theorem rank_lt_iff {a b : Bytes} : rank str a < rank str b ↔
    cost str b < cost str a ∨ (cost str b = cost str a ∧ a.length < b.length) := by
  rw [rank, rank, Prod.Lex.toLex_lt_toLex]
  simp only [OrderDual.toDual_lt_toDual, OrderDual.toDual_inj, eq_comm]

theorem length_eq_of_rank_eq {a b : Bytes} (h : rank str a = rank str b) :
    a.length = b.length := (Prod.ext_iff.mp (toLex_inj.mp h)).2

/-- A bucket holds the words of its length in the order they were inserted. -/
theorem make_dictionary (sensitivity : Nat) (dictionary : List Bytes) (k : Nat) :
    (make sensitivity dictionary).dictionary k = dictionary.filter (fun w => w.length = k) := by
  have hfold : ∀ (words : List Bytes) (buckets : Nat → List Bytes),
      words.foldl (fun buckets str =>
        Function.update buckets str.length (buckets str.length ++ [str])) buckets k =
      buckets k ++ words.filter (fun w => w.length = k) := by
    intro words
    induction words with
    | nil => intro buckets; simp
    | cons w words ih =>
        intro buckets
        rw [List.foldl_cons, ih, List.filter_cons]
        by_cases hk : w.length = k
        · subst hk
          simp
        · simp [Function.update_of_ne (Ne.symm hk), hk]
  exact hfold dictionary fun _ => []

theorem minFind_make : (make sensitivity dictionary).minFind str = str.length - sensitivity := by
  show (if sensitivity < str.length then str.length - sensitivity else 0) = _
  split <;> omega

theorem maxFind_make (h : str.length + sensitivity < sizeMax) :
    (make sensitivity dictionary).maxFind str = str.length + sensitivity := by
  refine Nat.mod_eq_of_lt ?_
  simp only [sizeMax] at h
  show str.length + sensitivity < 2 ^ 64
  omega

theorem pool_make (h : str.length + sensitivity < sizeMax) :
    (make sensitivity dictionary).pool str =
      regroup List.length (List.range' (str.length - sensitivity)
        (str.length + sensitivity + 1 - (str.length - sensitivity))) dictionary := by
  rw [pool, minFind_make, maxFind_make h, regroup]
  exact List.flatMap_congr fun k _ => make_dictionary sensitivity dictionary k

/-- What the window keeps out is too far away. -/
theorem length_mem_window (hq : qualifies sensitivity str word = true) :
    str.length - sensitivity ≤ word.length ∧ word.length ≤ str.length + sensitivity := by
  have hcost := gap_le_cost str word
  rw [qualifies, decide_eq_true_eq] at hq
  simp only [gap] at hcost
  omega

/-- The two variables of the selection loop for the best word so far. -/
def Match.of (str : Bytes) : Option Bytes → Match
  | none => ⟨str, sizeMax⟩
  | some w => ⟨w, cost str w⟩

/-- The selection loop is the pass of `FirstBest`: the sentinel `SIZE_MAX` is above every budget
    the window can be computed for. -/
theorem select_of {f : AutoCorrectFilter} (hs : f.sensitivity < sizeMax) (best : Option Bytes)
    (word : Bytes) : f.select str (.of str best) word =
      some (.of str (keep (qualifies f.sensitivity str) (rank str) best word)) := by
  rw [select, fixHelper, distance_eq]
  by_cases hq : qualifies f.sensitivity str word = true
  · have hle : cost str word ≤ f.sensitivity := of_decide_eq_true hq
    have hnot : ¬ f.sensitivity < cost str word := by omega
    cases best with
    | none =>
        have hlt : cost str word < sizeMax := by omega
        simp only [Option.bind_eq_bind, Option.bind_some, Option.pure_def, if_neg hnot, Match.of,
          keep, hq, if_true, hlt, true_or]
    | some b =>
        simp only [Option.bind_eq_bind, Option.bind_some, Option.pure_def, if_neg hnot, Match.of,
          keep, hq, if_true, rank_lt_iff]
        by_cases hbetter : cost str word < cost str b ∨
            (cost str word = cost str b ∧ b.length < word.length)
        · rw [if_pos hbetter]
          exact if_pos hbetter
        · rw [if_neg hbetter]
          exact if_neg hbetter
  · have hlt : f.sensitivity < cost str word := by
      rw [qualifies, decide_eq_true_eq] at hq
      omega
    have hkeep : keep (qualifies f.sensitivity str) (rank str) best word = best := if_neg hq
    rw [hkeep]
    simp only [Option.bind_eq_bind, Option.bind_some, Option.pure_def, if_pos hlt]

theorem foldlM_select {f : AutoCorrectFilter} (hs : f.sensitivity < sizeMax)
    (words : List Bytes) : ∀ best, words.foldlM (f.select str) (.of str best) =
      some (.of str (words.foldl (keep (qualifies f.sensitivity str) (rank str)) best)) := by
  induction words with
  | nil => intro best; rfl
  | cons w words ih =>
      intro best
      rw [List.foldlM_cons, select_of hs, List.foldl_cons]
      exact ih _

/-- `fix` in one pass over the dictionary. -/
theorem fix_make (h : str.length + sensitivity < sizeMax) :
    (make sensitivity dictionary).fix str = some (Match.of str
      (dictionary.foldl (keep (qualifies sensitivity str) (rank str)) none)).word := by
  have hs : (make sensitivity dictionary).sensitivity < sizeMax := by
    show sensitivity < sizeMax
    omega
  rw [fix, show (⟨str, sizeMax⟩ : Match) = .of str none from rfl, foldlM_select hs, pool_make h]
  show some (Match.of str (List.foldl (keep (qualifies sensitivity str) _) none _)).word = _
  rw [foldl_keep_regroup]
  · intro w _ hq
    have hwindow := length_mem_window hq
    rw [List.mem_range'_1]
    omega
  · intro a b _ _ hrank
    exact length_eq_of_rank_eq hrank

/-- For every dictionary, sensitivity and input whose window can be computed: `fix` returns the
    input when no word is within the budget, and otherwise the first word, in the order of
    insertion, of those that maximise `rank`: least cost, then longest.  A word within the budget
    has a length in the window.  For any bytes, `fixHelper` reads no string past its end, and a
    length difference costs at least two a letter. -/
theorem fix_exact (sensitivity : Nat) (dictionary : List Bytes) (str : Bytes)
    (h : str.length + sensitivity < sizeMax) :
    (∃ r, (make sensitivity dictionary).fix str = some r ∧
      ((∀ w ∈ dictionary, sensitivity < cost str w) → r = str) ∧
      ((∃ w ∈ dictionary, cost str w ≤ sensitivity) →
        First (Best (qualifies sensitivity str) (rank str) dictionary) dictionary r)) ∧
    (∀ w, cost str w ≤ sensitivity →
      (make sensitivity dictionary).minFind str ≤ w.length ∧
      w.length ≤ (make sensitivity dictionary).maxFind str) ∧
    ∀ input word : Bytes, distance input word = some (cost input word) ∧
      2 * ((input.length - word.length) + (word.length - input.length)) ≤ cost input word := by
  refine ⟨⟨_, fix_make h, ?_, ?_⟩, ?_, fun input word => ⟨distance_eq _ _, gap_le_cost _ _⟩⟩
  · intro hnone
    rw [foldl_keep_eq_none.mpr ?_]
    · rfl
    · intro w hw
      rw [qualifies, decide_eq_false_iff_not]
      have := hnone w hw
      omega
  · rintro ⟨w, hw, hle⟩
    cases hfold : dictionary.foldl (keep (qualifies sensitivity str) (rank str)) none with
    | none =>
        have := foldl_keep_eq_none.mp hfold w hw
        rw [qualifies, decide_eq_false_iff_not] at this
        exact absurd hle this
    | some m => exact foldl_keep_eq_some.mp hfold
  · intro w hle
    have hwindow := length_mem_window (decide_eq_true hle)
    rwa [minFind_make, maxFind_make h]

/-- `ther` is as far from `the` as from `there`. -/
theorem fix_exact_ther : ∃ r,
    (make 3 [ascii "but", ascii "the", ascii "there", ascii "other"]).fix (ascii "ther") = some r ∧
    First (Best (qualifies 3 (ascii "ther")) (rank (ascii "ther"))
      [ascii "but", ascii "the", ascii "there", ascii "other"])
      [ascii "but", ascii "the", ascii "there", ascii "other"] r := by
  obtain ⟨⟨r, hr, -, hfirst⟩, -⟩ :=
    fix_exact 3 [ascii "but", ascii "the", ascii "there", ascii "other"] (ascii "ther") (by decide)
  exact ⟨r, hr, hfirst ⟨ascii "there", by decide, by decide⟩⟩

end AutoCorrectFilter

end CastlePlus
