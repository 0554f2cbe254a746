import CastlePlus.ConfigText

/-! # Durations for people

    `human_duration` (`util/uptime.hpp`) prints a span with two units at most, and fewer of them
    the longer it is; `snprintf` cuts what does not fit its buffer.

    `readDuration` is what a reader makes of such a text.  The printed span is the true one,
    rounded down to the smaller unit shown (**`duration_read_back`**), so nothing is ever cut off. -/

namespace CastlePlus

/-! ## Fields of a fixed width -/

section Fields

variable {α : Type}

/-- `%-<w>s`. -/
def padRight (pad : α) (w : Nat) (t : List α) : List α := t ++ List.replicate (w - t.length) pad

/-- What `snprintf` leaves in a buffer of `cap` characters, the last of which ends the string. -/
def snprintf (cap : Nat) (t : List α) : List α := t.take (cap - 1)

theorem snprintf_eq {cap : Nat} {t : List α} (h : t.length < cap) : snprintf cap t = t :=
  List.take_of_length_le (by omega)

end Fields

/-- A number below `10 ^ k` has at most `k` digits. -/
theorem length_natText_le {k : Nat} (hk : 0 < k) : ∀ {n : Nat}, n < 10 ^ k →
    (natText n).length ≤ k := by
  induction k with
  | zero => exact absurd hk (Nat.lt_irrefl 0)
  | succ k ih =>
      intro n hn
      rw [natText_eq, List.length_append, List.length_singleton]
      by_cases h : n < 10
      · rw [if_pos h, List.length_nil]
        omega
      · rw [if_neg h]
        have hpos : 0 < k := by
          rcases Nat.eq_zero_or_pos k with rfl | hpos
          · rw [Nat.zero_add, Nat.pow_one] at hn
            exact absurd hn h
          · exact hpos
        have hdiv : n / 10 < 10 ^ k := by
          rw [Nat.div_lt_iff_lt_mul (by omega), ← Nat.pow_succ]
          exact hn
        have := ih hpos hdiv
        omega

/-! ## The text -/

/-- `%02lld`. -/
def twoDigits (n : Nat) : Bytes := if n < 10 then 0x30 :: natText n else natText n

def humanDuration (secs : Int) : Bytes :=
  let n := secs.toNat
  snprintf 32 <|
    if n < 60 then natText n ++ ascii "s"
    else if n < 3600 then natText (n / 60) ++ ascii "m " ++ twoDigits (n % 60) ++ ascii "s"
    else if n < 86400 then
      natText (n / 3600) ++ ascii "h " ++ twoDigits (n % 3600 / 60) ++ ascii "m"
    else natText (n / 86400) ++ ascii "d " ++ twoDigits (n % 86400 / 3600) ++ ascii "h"

/-! ## Reading it back -/

def unitSeconds (c : UInt8) : Option Nat :=
  if c = 0x73 then some 1
  else if c = 0x6d then some 60
  else if c = 0x68 then some 3600
  else if c = 0x64 then some 86400
  else none

/-- A figure with its unit, in seconds, and what follows it. -/
def readFigure (t : Bytes) : Option (Nat × Bytes) :=
  match unsignedText (t.takeWhile isDigit), t.dropWhile isDigit with
  | some k, u :: rest => (unitSeconds u).map fun w => (k * w, rest)
  | _, _ => none

/-- One figure, or two with a blank between them. -/
def readDuration (t : Bytes) : Option Nat :=
  match readFigure t with
  | some (a, []) => some a
  | some (a, 0x20 :: rest) =>
      match readFigure rest with
      | some (b, []) => some (a + b)
      | _ => none
  | _ => none

/-- The smaller unit that is shown. -/
def grain (n : Nat) : Nat := if n < 3600 then 1 else if n < 86400 then 60 else 3600

theorem twoDigits_digits (n : Nat) :
    (∀ c ∈ twoDigits n, isDigit c = true) ∧ twoDigits n ≠ [] ∧
      decimalValue (twoDigits n) = n := by
  obtain ⟨hdig, hval⟩ := natText_digits n
  rw [twoDigits]
  by_cases h : n < 10
  · rw [if_pos h]
    refine ⟨fun c hc => ?_, List.cons_ne_nil _ _, ?_⟩
    · rcases List.mem_cons.mp hc with rfl | hc
      · decide
      · exact hdig c hc
    · rw [decimalValue, List.foldl_cons]
      exact hval
  · rw [if_neg h]
    exact ⟨hdig, natText_ne_nil n, hval⟩

theorem length_twoDigits {n : Nat} (h : n < 100) : (twoDigits n).length ≤ 3 := by
  have hlen : (natText n).length ≤ 2 := length_natText_le (by omega) (by omega)
  rw [twoDigits]
  split
  · rw [List.length_cons]
    omega
  · omega

theorem readFigure_eq {ds : Bytes} {u : UInt8} {w : Nat} (hds : ∀ c ∈ ds, isDigit c = true)
    (hne : ds ≠ []) (hu : isDigit u = false) (hw : unitSeconds u = some w) (rest : Bytes) :
    readFigure (ds ++ u :: rest) = some (decimalValue ds * w, rest) := by
  have htake : (ds ++ u :: rest).takeWhile isDigit = ds := by
    rw [List.takeWhile_append_of_pos hds, List.takeWhile_cons_of_neg (by rw [hu]; decide),
      List.append_nil]
  have hdrop : (ds ++ u :: rest).dropWhile isDigit = u :: rest := by
    rw [List.dropWhile_append_of_pos hds, List.dropWhile_cons_of_neg (by rw [hu]; decide)]
  have hnum : unsignedText ds = some (decimalValue ds) := by
    rw [unsignedText, if_pos ⟨hne, List.all_eq_true.mpr hds⟩]
  rw [readFigure, htake, hdrop, hnum]
  show (unitSeconds u).map _ = _
  rw [hw]
  rfl

/-- Two figures, the second of them of two digits. -/
theorem readDuration_pair {a b w v : Nat} {u x : UInt8} (hu : isDigit u = false)
    (hw : unitSeconds u = some w) (hx : isDigit x = false) (hv : unitSeconds x = some v) :
    readDuration (natText a ++ [u, 0x20] ++ twoDigits b ++ [x]) = some (a * w + b * v) := by
  obtain ⟨hdig, hval⟩ := natText_digits a
  obtain ⟨hdig', hne', hval'⟩ := twoDigits_digits b
  have hfirst : readFigure (natText a ++ [u, 0x20] ++ twoDigits b ++ [x]) =
      some (a * w, 0x20 :: (twoDigits b ++ [x])) := by
    have := readFigure_eq hdig (natText_ne_nil a) hu hw (0x20 :: (twoDigits b ++ [x]))
    rw [hval] at this
    rw [← this]
    simp only [List.append_assoc, List.cons_append, List.nil_append]
  have hsecond : readFigure (twoDigits b ++ [x]) = some (b * v, []) := by
    rw [readFigure_eq hdig' hne' hx hv, hval']
  rw [readDuration, hfirst]
  show (match readFigure (twoDigits b ++ [x]) with
    | some (b, []) => some (a * w + b)
    | _ => none) = _
  rw [hsecond]

/-- The buffer holds every duration of a `long long`. -/
theorem length_pair {a b : Nat} (ha : a < 10 ^ 15) (hb : b < 100) (u x : UInt8) :
    (natText a ++ [u, 0x20] ++ twoDigits b ++ [x]).length < 32 := by
  have hlen := length_natText_le (k := 15) (by omega) ha
  have hlen' := length_twoDigits hb
  simp only [List.length_append, List.length_cons, List.length_nil]
  omega

/-- **Durations.**  For every `long long` of seconds the text of `human_duration` is read back as
    that many seconds (none if negative), rounded down to the smaller unit it shows: seconds below
    an hour, minutes below a day, hours from then on. -/
theorem duration_read_back (secs : Int) (h : secs ≤ longMax) :
    readDuration (humanDuration secs) = some (secs.toNat / grain secs.toNat * grain secs.toNat) := by
  obtain ⟨n, hn⟩ : ∃ n, n = secs.toNat := ⟨_, rfl⟩
  have hmax : n ≤ 2 ^ 63 - 1 := by
    have : (longMax : Int) = 2 ^ 63 - 1 := by decide
    omega
  -- two figures with their units stay within the 32 bytes
  have hpair : ∀ {a b w v : Nat} {u x : UInt8}, a < 10 ^ 15 → b < 100 → isDigit u = false →
      unitSeconds u = some w → isDigit x = false → unitSeconds x = some v →
      readDuration (snprintf 32 (natText a ++ [u, 0x20] ++ twoDigits b ++ [x])) =
        some (a * w + b * v) := by
    intro a b w v u x ha hb hu hw hx hv
    rw [snprintf_eq (length_pair ha hb u x), readDuration_pair hu hw hx hv]
  rw [humanDuration, ← hn]
  by_cases hmin : n < 60
  · -- seconds
    have hlen : (natText n ++ ascii "s").length < 32 := by
      have := length_natText_le (k := 2) (n := n) (by omega) (by omega)
      rw [List.length_append]
      have hs : (ascii "s").length = 1 := by decide
      omega
    have hread : readFigure (natText n ++ ascii "s") = some (n * 1, []) := by
      have := readFigure_eq (natText_digits n).1 (natText_ne_nil n) (u := 0x73) (w := 1)
        (by decide) (by decide) []
      rwa [(natText_digits n).2] at this
    rw [if_pos hmin, snprintf_eq hlen, readDuration, hread, grain, if_pos (by omega)]
    show some (n * 1) = some (n / 1 * 1)
    rw [Nat.div_one]
  · rw [if_neg hmin]
    by_cases hhour : n < 3600
    · -- minutes and seconds
      have hsum : n / 60 * 60 + n % 60 * 1 = n := by omega
      rw [if_pos hhour, grain, if_pos hhour, Nat.div_one, Nat.mul_one]
      refine (hpair (u := 0x6d) (x := 0x73) (w := 60) (v := 1) ?_ ?_ ?_ ?_ ?_ ?_).trans
        (congrArg some hsum)
      · omega
      · omega
      all_goals decide
    · rw [if_neg hhour, grain, if_neg hhour]
      by_cases hday : n < 86400
      · -- hours and minutes
        have hsum : n / 3600 * 3600 + n % 3600 / 60 * 60 = n / 60 * 60 := by omega
        rw [if_pos hday, if_pos hday]
        refine (hpair (u := 0x68) (x := 0x6d) (w := 3600) (v := 60) ?_ ?_ ?_ ?_ ?_ ?_).trans
          (congrArg some hsum)
        · omega
        · omega
        all_goals decide
      · -- days and hours
        have hsum : n / 86400 * 86400 + n % 86400 / 3600 * 3600 = n / 3600 * 3600 := by omega
        rw [if_neg hday, if_neg hday]
        refine (hpair (u := 0x64) (x := 0x68) (w := 86400) (v := 3600) ?_ ?_ ?_ ?_ ?_ ?_).trans
          (congrArg some hsum)
        · omega
        · omega
        all_goals decide

/-- Three days and some. -/
theorem duration_read_back_days :
    (270000 : Int) ≤ longMax ∧ readDuration (humanDuration 270000) = some 270000 :=
  ⟨by decide, duration_read_back 270000 (by decide)⟩

end CastlePlus
