import CastlePlus.HeadGrammar

/-! # picohttpparser on a longer buffer

    `process_head` parses the whole of `in_` again after every read.  What the parser answers on a
    buffer stands on every longer one, and it never looks behind the head it returns: a head is
    accepted as soon as its last byte is there (**`phrParseRequest_reads`**). -/

namespace CastlePlus

open PhrResult

/-- The answer on a buffer and the one with `b` behind it.  A result that only the longer buffer
    gives leaves at most all but `e` bytes of `b`. -/
def PhrResult.Grows {α : Type} (e : Nat) (b : Bytes) (r r' : PhrResult α) : Prop :=
  match r with
  | incomplete => ∀ x rest, r' = done x rest → rest.length + e ≤ b.length
  | malformed => r' = malformed
  | done x rest => r' = done x (rest ++ b)

/-- A parser that reads at least `e` bytes and changes no answer when the buffer grows. -/
structure Reads {α : Type} (e : Nat) (f : Bytes → PhrResult α) : Prop where
  grows : ∀ a b, Grows e b (f a) (f (a ++ b))
  short : ∀ a x rest, f a = done x rest → rest.length + e ≤ a.length

section Rules

variable {α β : Type} {e d : Nat} {b : Bytes} {r r' : PhrResult α}

theorem PhrResult.Grows.map (h : Grows e b r r') (g : α → β) : Grows e b (r.map g) (r'.map g) := by
  cases r with
  | incomplete =>
      intro y rest hr
      obtain ⟨x, hx, -⟩ := map_eq_done.mp hr
      exact h x rest hx
  | malformed =>
      have h' : r' = .malformed := h
      rw [h']
      rfl
  | done x rest =>
      have h' : r' = .done x (rest ++ b) := h
      rw [h']
      rfl

theorem Reads.malformed : Reads e (fun _ => (PhrResult.malformed : PhrResult α)) :=
  ⟨fun _ _ => rfl, fun _ _ _ h => (by cases h)⟩

theorem Reads.mono {f : Bytes → PhrResult α} (h : Reads e f) (hd : d ≤ e) : Reads d f := by
  refine ⟨fun a b => ?_, fun a x rest hf => ?_⟩
  · have hg := h.grows a b
    cases hfa : f a with
    | incomplete =>
        rw [hfa] at hg
        intro x rest hr
        exact Nat.le_trans (Nat.add_le_add_left hd _) (hg x rest hr)
    | malformed => rw [hfa] at hg; exact hg
    | done x rest => rw [hfa] at hg; exact hg
  · exact Nat.le_trans (Nat.add_le_add_left hd _) (h.short a x rest hf)

/-- One parser after another. -/
theorem Reads.andThen {f : Bytes → PhrResult α} {k : α → Bytes → PhrResult β} (hf : Reads d f)
    (hk : ∀ x, Reads e (k x)) : Reads e (fun a => (f a).andThen k) := by
  refine ⟨fun a b => ?_, fun a y rest h => ?_⟩
  · have hg := hf.grows a b
    cases hfa : f a with
    | incomplete =>
        intro y rest hr
        obtain ⟨x, mid, hx, hy⟩ := andThen_eq_done.mp hr
        rw [hfa] at hg
        have hmid : mid.length + d ≤ b.length := hg x mid hx
        have hrest := (hk x).short mid y rest hy
        omega
    | malformed =>
        rw [hfa] at hg
        have hg' : f (a ++ b) = .malformed := hg
        show (f (a ++ b)).andThen k = .malformed
        rw [hg']
        rfl
    | done x mid =>
        rw [hfa] at hg
        have hg' : f (a ++ b) = .done x (mid ++ b) := hg
        show Grows e b (k x mid) ((f (a ++ b)).andThen k)
        rw [hg']
        exact (hk x).grows mid b
  · obtain ⟨x, mid, hx, hy⟩ := andThen_eq_done.mp h
    have hmid := hf.short a x mid hx
    have hrest := (hk x).short mid y rest hy
    omega

theorem Reads.map {f : Bytes → PhrResult α} (h : Reads e f) (g : α → β) :
    Reads e (fun a => (f a).map g) := by
  refine ⟨fun a b => (h.grows a b).map g, fun a y rest hr => ?_⟩
  obtain ⟨x, hx, -⟩ := map_eq_done.mp hr
  exact h.short a x rest hx

/-- A parser that looks at the first byte: it goes on as another one, or passes over the byte. -/
theorem Reads.scan {f : Bytes → PhrResult α} (hnil : f [] = .incomplete)
    (h : ∀ c, (∃ g : Bytes → PhrResult α, Reads e g ∧ ∀ cs, f (c :: cs) = g (c :: cs)) ∨
      ∃ g : α → α, ∀ cs, f (c :: cs) = (f cs).map g) : Reads e f := by
  have hshort : ∀ a x rest, f a = done x rest → rest.length + e ≤ a.length := by
    intro a
    induction a with
    | nil =>
        intro x rest hf
        rw [hnil] at hf
        cases hf
    | cons c cs ih =>
        intro x rest hf
        rcases h c with ⟨g, hg, heq⟩ | ⟨g, heq⟩
        · exact hg.short _ x rest (by rw [← heq, hf])
        · rw [heq] at hf
          obtain ⟨y, hy, -⟩ := map_eq_done.mp hf
          exact Nat.le_succ_of_le (ih y rest hy)
  refine ⟨fun a b => ?_, hshort⟩
  induction a with
  | nil =>
      rw [hnil]
      exact fun x rest hr => hshort b x rest hr
  | cons c cs ih =>
      rcases h c with ⟨g, hg, heq⟩ | ⟨g, heq⟩
      · rw [heq, List.cons_append, heq]
        exact hg.grows (c :: cs) b
      · rw [heq, List.cons_append, heq]
        exact ih.map g

/-- The byte in front is dropped. -/
theorem Reads.drop {f : Bytes → PhrResult α} (h : Reads e f) (hnil : f [] = .incomplete) :
    Reads e (fun a => f (a.drop 1)) := by
  refine ⟨fun a b => ?_, fun a x rest hf => ?_⟩
  · cases a with
    | nil =>
        show Grows e b (f []) (f (b.drop 1))
        rw [hnil]
        intro x rest hr
        have := h.short _ x rest hr
        rw [List.length_drop] at this
        omega
    | cons c cs => exact h.grows cs b
  · have := h.short _ x rest hf
    rw [List.length_drop] at this
    omega

/-- The buffer is left as it is. -/
theorem Reads.stay (x : α) : Reads 0 (fun a => done x a) :=
  ⟨fun _ _ => rfl, fun a y rest h => (by cases h; exact Nat.le_refl _)⟩

/-- One byte is taken. -/
def takeByte (x : α) : Bytes → PhrResult α
  | [] => incomplete
  | _ :: cs => done x cs

theorem reads_takeByte (x : α) : Reads 1 (takeByte x) := by
  have hshort : ∀ a y rest, takeByte x a = done y rest → rest.length + 1 ≤ a.length := by
    intro a y rest h
    cases a with
    | nil => cases h
    | cons c cs => cases h; exact Nat.le_refl _
  refine ⟨fun a b => ?_, hshort⟩
  cases a with
  | nil => exact fun y rest h => hshort b y rest h
  | cons c cs => exact rfl

end Rules

/-! ## The functions -/

theorem reads_expectChar (ch : UInt8) : Reads 1 (expectChar ch) := by
  refine .scan rfl fun c => .inl ?_
  by_cases hc : c = ch
  · exact ⟨takeByte (), reads_takeByte (), fun cs => if_pos hc⟩
  · exact ⟨fun _ => .malformed, .malformed, fun cs => if_neg hc⟩

/-- A line end whose first byte is already seen. -/
theorem reads_crlf {α : Type} (x : α) :
    Reads 1 (fun a => (expectChar 0x0a (a.drop 1)).map fun _ => x) :=
  ((reads_expectChar 0x0a).drop rfl).map fun _ => x

theorem reads_parseToken (ch : UInt8) : Reads 0 (parseToken ch) := by
  refine .scan rfl fun c => ?_
  by_cases hc : c = ch
  · exact .inl ⟨fun a => .done [] a, .stay [], fun cs => if_pos hc⟩
  · by_cases ht : isTokenChar c = true
    · exact .inr ⟨(c :: ·), fun cs => by rw [parseToken, if_neg hc, if_pos ht]⟩
    · exact .inl ⟨fun _ => .malformed, .malformed, fun cs => by
        rw [parseToken, if_neg hc, if_neg ht]⟩

theorem reads_advanceToken : Reads 0 advanceToken := by
  refine .scan rfl fun c => ?_
  by_cases hc : c = 0x20
  · exact .inl ⟨fun a => .done [] a, .stay [], fun cs => if_pos hc⟩
  · by_cases ht : (c < 0x20 || c == 0x7f) = true
    · exact .inl ⟨fun _ => .malformed, .malformed, fun cs => by
        rw [advanceToken, if_neg hc, if_pos ht]⟩
    · exact .inr ⟨(c :: ·), fun cs => by rw [advanceToken, if_neg hc, if_neg ht]⟩

theorem map_id' {α : Type} (r : PhrResult α) : r.map (fun x => x) = r := by
  cases r <;> rfl

theorem reads_skipSpaces : Reads 0 skipSpaces := by
  refine .scan rfl fun c => ?_
  by_cases hc : c = 0x20
  · exact .inr ⟨fun x => x, fun cs => by rw [map_id', skipSpaces, if_pos hc]⟩
  · exact .inl ⟨fun a => .done () a, .stay (), fun cs => if_neg hc⟩

theorem reads_skipBlanks : Reads 0 skipBlanks := by
  refine .scan rfl fun c => ?_
  by_cases hc : isBlank c = true
  · exact .inr ⟨fun x => x, fun cs => by rw [map_id', skipBlanks, if_pos hc]⟩
  · exact .inl ⟨fun a => .done () a, .stay (), fun cs => if_neg hc⟩

theorem reads_getTokenToEol : Reads 1 getTokenToEol := by
  refine .scan rfl fun c => ?_
  by_cases hctl : isCtl c = true
  · by_cases hcr : c = 0x0d
    · exact .inl ⟨_, reads_crlf [], fun cs => by
        rw [getTokenToEol, if_pos hctl, if_pos hcr, List.drop_one, List.tail_cons]⟩
    · by_cases hlf : c = 0x0a
      · exact .inl ⟨takeByte [], reads_takeByte [], fun cs => by
          rw [getTokenToEol, if_pos hctl, if_neg hcr, if_pos hlf, takeByte]⟩
      · exact .inl ⟨fun _ => .malformed, .malformed, fun cs => by
          rw [getTokenToEol, if_pos hctl, if_neg hcr, if_neg hlf]⟩
  · exact .inr ⟨(c :: ·), fun cs => by rw [getTokenToEol, if_neg hctl]⟩

theorem reads_parseHttpVersion : Reads 0 parseHttpVersion := by
  refine ⟨fun a b => ?_, fun a v rest h => ?_⟩
  · by_cases hlen : a.length < 9
    · have hinc : parseHttpVersion a = .incomplete := if_pos hlen
      rw [hinc]
      intro v rest h
      have := parseHttpVersion_done h
      rw [List.length_append] at this
      omega
    · have htake : (a ++ b).take 7 = a.take 7 := List.take_append_of_le_length (by omega)
      have hdrop : (a ++ b).drop 7 = a.drop 7 ++ b := List.drop_append_of_le_length (by omega)
      have hlong : ¬(a ++ b).length < 9 := by
        rw [List.length_append]
        omega
      rw [parseHttpVersion, parseHttpVersion, if_neg hlen, if_neg hlong, htake, hdrop]
      by_cases hver : a.take 7 = [0x48, 0x54, 0x54, 0x50, 0x2f, 0x31, 0x2e]
      · rw [if_pos hver, if_pos hver]
        cases hd : a.drop 7 with
        | nil =>
            have := congrArg List.length hd
            rw [List.length_drop, List.length_nil] at this
            omega
        | cons d rest =>
            simp only [List.cons_append]
            by_cases hdig : (0x30 ≤ d && d ≤ 0x39) = true
            · rw [if_pos hdig, if_pos hdig]
              exact rfl
            · rw [if_neg hdig, if_neg hdig]
              exact rfl
      · rw [if_neg hver, if_neg hver]
        exact rfl
  · have := parseHttpVersion_done h
    omega

theorem reads_parseHeaderName (k : Nat) : Reads 0 (parseHeaderName k) := by
  refine .scan rfl fun c => .inl ?_
  by_cases hc : k ≠ 0 ∧ isBlank c = true
  · exact ⟨fun a => .done none a, .stay none, fun cs => if_pos hc⟩
  · refine ⟨_, (reads_parseToken 0x3a).andThen (k := fun name rest =>
      if name = [] then .malformed else (skipBlanks (rest.drop 1)).map fun _ => some name) ?_,
      fun cs => if_neg hc⟩
    intro name
    by_cases hname : name = []
    · simp only [if_pos hname]
      exact .malformed
    · simp only [if_neg hname]
      exact (reads_skipBlanks.drop rfl).map _

theorem reads_parseHeadersLoop (m : Option Nat) (fuel : Nat) :
    ∀ k, Reads 1 (parseHeadersLoop m fuel k) := by
  induction fuel with
  | zero =>
      intro k
      refine ⟨fun a b => ?_, fun a x rest h => (by cases h)⟩
      exact fun x rest h => (by cases h)
  | succ fuel ih =>
      intro k
      refine .scan rfl fun c => .inl ?_
      by_cases hcr : c = 0x0d
      · exact ⟨_, reads_crlf [], fun cs => by
          simp only [parseHeadersLoop, if_pos hcr, List.drop_one, List.tail_cons]⟩
      · by_cases hlf : c = 0x0a
        · exact ⟨takeByte [], reads_takeByte [], fun cs => by
            simp only [parseHeadersLoop, if_neg hcr, if_pos hlf, takeByte]⟩
        · by_cases hmax : m = some k
          · exact ⟨fun _ => .malformed, .malformed, fun cs => by
              simp only [parseHeadersLoop, if_neg hcr, if_neg hlf, if_pos hmax]⟩
          · refine ⟨_, (reads_parseHeaderName k).andThen fun name =>
              reads_getTokenToEol.andThen fun value => (ih (k + 1)).map fun hs =>
                ⟨name, value.rdropWhile isBlank⟩ :: hs, fun cs => ?_⟩
            simp only [parseHeadersLoop, if_neg hcr, if_neg hlf, if_neg hmax]

theorem reads_parseHeaders (m : Option Nat) : Reads 1 (parseHeaders m) := by
  refine ⟨fun a b => ?_, fun a x rest h => (reads_parseHeadersLoop m _ 0).short a x rest h⟩
  have hfuel : parseHeaders m a = parseHeadersLoop m ((a ++ b).length + 1) 0 a :=
    parseHeaders_fuel (Nat.lt_succ_self _) (by rw [List.length_append]; omega)
  rw [hfuel]
  exact (reads_parseHeadersLoop m _ 0).grows a b

theorem reads_skipEmptyLine : Reads 0 skipEmptyLine := by
  refine .scan rfl fun c => .inl ?_
  by_cases hcr : c = 0x0d
  · exact ⟨_, ((reads_expectChar 0x0a).drop rfl).mono (Nat.zero_le 1), fun cs => if_pos hcr⟩
  · by_cases hlf : c = 0x0a
    · exact ⟨takeByte (), (reads_takeByte ()).mono (Nat.zero_le 1), fun cs => by
        rw [skipEmptyLine, if_neg hcr, if_pos hlf, takeByte]⟩
    · exact ⟨fun a => .done () a, .stay (), fun cs => by
        rw [skipEmptyLine, if_neg hcr, if_neg hlf]⟩

theorem reads_parseVersionEol : Reads 1 parseVersionEol := by
  refine .scan rfl fun c => .inl ?_
  by_cases hcr : c = 0x0d
  · exact ⟨_, (reads_expectChar 0x0a).drop rfl, fun cs => if_pos hcr⟩
  · by_cases hlf : c = 0x0a
    · exact ⟨takeByte (), reads_takeByte (), fun cs => by
        rw [parseVersionEol, if_neg hcr, if_pos hlf, takeByte]⟩
    · exact ⟨fun _ => .malformed, .malformed, fun cs => by
        rw [parseVersionEol, if_neg hcr, if_neg hlf]⟩

/-- No answer of `phr_parse_request` changes when the buffer grows, and a head is accepted as soon
    as its last byte is there. -/
theorem phrParseRequest_reads (m : Option Nat) : Reads 1 (phrParseRequest m) := by
  refine reads_skipEmptyLine.andThen fun _ => (reads_parseToken 0x20).andThen fun method => ?_
  refine (reads_skipSpaces.drop rfl).andThen fun _ => reads_advanceToken.andThen fun path => ?_
  refine (reads_skipSpaces.drop rfl).andThen fun _ => ?_
  by_cases hne : method = [] ∨ path = []
  · simp only [if_pos hne]
    exact .malformed
  · simp only [if_neg hne]
    refine reads_parseHttpVersion.andThen fun minor => reads_parseVersionEol.andThen fun _ => ?_
    exact (reads_parseHeaders m).map _

end CastlePlus
