import CastlePlus.HeadRewrite
import CastlePlus.PhrIncremental
import Mathlib.Data.Nat.Find

/-! # The head in packets

    `pump_read` hands every read of up to 16384 bytes to `handle_client_bytes`, which appends it to
    `in_` and calls `process_head`.  The cap on the head, `kMaxHead`, is looked at only while the
    parser reports an incomplete head: a head that is complete with the read that passes the cap is
    accepted, one that is still incomplete then is answered 431.  So the outcome depends on the
    reads for the heads that end within one read of the cap, and only for them
    (**`head_packets_iff`**).

    `readHead` is what the reads lead to; **`headReaches_readHead`** ties it to the connection. -/

namespace CastlePlus

open PhrResult ScriptProg

/-- The reply to a head over the cap. -/
def tooLarge : HeadVerdict :=
  .reply (.mk' 431 "Request Header Fields Too Large" "header too large")

/-- What `process_head` makes of `in_`; `none` waits for more bytes. -/
def headOutcome (cfg : Cfg) (buf : Bytes) : Option HeadVerdict :=
  match phrParseRequest (some kMaxHeaders) buf with
  | .incomplete => if kMaxHead < buf.length then some tooLarge else none
  | .malformed => some (.reply (.mk' 400 "Bad Request" "malformed request"))
  | .done req _ => some (headVerdict cfg.routes cfg.maxBody req)

/-- The reads one after another, with `buf` in `in_`, until `process_head` decides. -/
def readHead (cfg : Cfg) : Bytes → List Bytes → Option HeadVerdict
  | _, [] => none
  | buf, c :: cs =>
      match headOutcome cfg (buf ++ c) with
      | some v => some v
      | none => readHead cfg (buf ++ c) cs

/-! ## The connection -/

/-- `handle_client_bytes` on each read. -/
def feed (cfg : Cfg) (n : Nat) : List Bytes → M Unit
  | [] => pure ()
  | c :: cs => do
      handleClientBytes cfg n c
      feed cfg n cs

/-- A connection that waits for its head and is handed these reads comes to act on the verdict, or
    waits on. -/
def HeadReaches (cfg : Cfg) (cs : List Bytes) (o : Option HeadVerdict) : Prop :=
  ∀ (n : Nat) (s : Pair) (w : List Answer), s.client.state = .readingHead → s.client.inBuf = [] →
    match o with
    | none => feed cfg (n + 2) cs s w = .ret () (appendIn cs.flatten s) w
    | some v => ∃ pre c post len, cs = pre ++ c :: post ∧
        feed cfg (n + 2) pre s w = .ret () (appendIn pre.flatten s) w ∧
        handleClientBytes cfg (n + 2) c (appendIn pre.flatten s) w =
          obey cfg n v (setHeadLen len (appendIn c (appendIn pre.flatten s))) w

variable {cfg : Cfg} {n : Nat} {s : Pair} {w : List Answer}

theorem handleClientBytes_head (hs : s.client.state = .readingHead) (c : Bytes) :
    handleClientBytes cfg (n + 2) c s w = processHead cfg (n + 1) (appendIn c s) w := by
  simp only [handleClientBytes]
  rw [show ∀ f : Pair → M Unit, (get >>= f) s w = f s s w from fun _ => rfl, hs]
  rfl

theorem processHead_get : processHead cfg (n + 1) s w =
    (match phrParseRequest (some kMaxHeaders) s.client.inBuf with
      | .incomplete =>
          if kMaxHead < s.client.inBuf.length then obey cfg n tooLarge else pure ()
      | .malformed => obey cfg n (.reply (.mk' 400 "Bad Request" "malformed request"))
      | .done req rest => (do
          modify (setHeadLen (s.client.inBuf.length - rest.length))
          obey cfg n (headVerdict cfg.routes cfg.maxBody req) : M Unit)) s w := by
  simp only [processHead]
  rw [show ∀ f : Pair → M Unit, (get >>= f) s w = f s s w from fun _ => rfl]
  cases phrParseRequest (some kMaxHeaders) s.client.inBuf <;> rfl

theorem processHead_none (h : headOutcome cfg s.client.inBuf = none) :
    processHead cfg (n + 1) s w = .ret () s w := by
  rw [processHead_get]
  rw [headOutcome] at h
  cases hparse : phrParseRequest (some kMaxHeaders) s.client.inBuf with
  | incomplete =>
      rw [hparse] at h
      simp only at h ⊢
      split at h
      · cases h
      · rename_i hlen
        rw [if_neg hlen]
        rfl
  | malformed =>
      rw [hparse] at h
      cases h
  | done req rest =>
      rw [hparse] at h
      cases h

theorem processHead_some {v : HeadVerdict} (h : headOutcome cfg s.client.inBuf = some v) :
    ∃ len, processHead cfg (n + 1) s w = obey cfg n v (setHeadLen len s) w := by
  have hsame : setHeadLen s.client.headLen s = s := rfl
  rw [processHead_get]
  rw [headOutcome] at h
  cases hparse : phrParseRequest (some kMaxHeaders) s.client.inBuf with
  | incomplete =>
      rw [hparse] at h
      simp only at h ⊢
      split at h
      · rename_i hlen
        cases h
        exact ⟨s.client.headLen, by rw [if_pos hlen, hsame]⟩
      · cases h
  | malformed =>
      rw [hparse] at h
      cases h
      exact ⟨s.client.headLen, by rw [hsame]⟩
  | done req rest =>
      rw [hparse] at h
      cases h
      exact ⟨s.client.inBuf.length - rest.length, rfl⟩

theorem appendIn_appendIn (a b : Bytes) (s : Pair) :
    appendIn b (appendIn a s) = appendIn (a ++ b) s := by
  simp only [appendIn, List.append_assoc]

/-- What the reads lead to is what the connection does. -/
theorem headReaches_from (cfg : Cfg) (cs : List Bytes) : ∀ s : Pair, s.client.state = .readingHead →
    match readHead cfg s.client.inBuf cs with
    | none => feed cfg (n + 2) cs s w = .ret () (appendIn cs.flatten s) w
    | some v => ∃ pre c post len, cs = pre ++ c :: post ∧
        feed cfg (n + 2) pre s w = .ret () (appendIn pre.flatten s) w ∧
        handleClientBytes cfg (n + 2) c (appendIn pre.flatten s) w =
          obey cfg n v (setHeadLen len (appendIn c (appendIn pre.flatten s))) w := by
  have hnil : ∀ s : Pair, appendIn [] s = s := by
    intro s
    simp only [appendIn, List.append_nil]
  induction cs with
  | nil =>
      intro s hs
      show ScriptProg.Outcome.ret () s w = .ret () (appendIn [] s) w
      rw [hnil]
  | cons c cs ih =>
      intro s hs
      rw [readHead]
      cases hout : headOutcome cfg (s.client.inBuf ++ c) with
      | some v =>
          -- this chunk brings the decision
          obtain ⟨len, hlen⟩ := processHead_some (n := n) (w := w) (s := appendIn c s) hout
          refine ⟨[], c, cs, len, rfl, ?_, ?_⟩
          · show ScriptProg.Outcome.ret () s w = .ret () (appendIn [] s) w
            rw [hnil]
          · rw [List.flatten_nil, hnil, handleClientBytes_head hs, hlen]
      | none =>
          -- the head goes on behind this chunk
          have hstep : handleClientBytes cfg (n + 2) c s w = .ret () (appendIn c s) w := by
            rw [handleClientBytes_head hs, processHead_none (s := appendIn c s) hout]
          have hfeed : ∀ ds, feed cfg (n + 2) (c :: ds) s w =
              feed cfg (n + 2) ds (appendIn c s) w := by
            intro ds
            show (handleClientBytes cfg (n + 2) c >>= fun _ => feed cfg (n + 2) ds) s w = _
            show ScriptProg.andThen (handleClientBytes cfg (n + 2) c)
              (fun _ => feed cfg (n + 2) ds) s w = _
            rw [ScriptProg.andThen, hstep]
          have hrest := ih (appendIn c s) hs
          have hbuf : (appendIn c s).client.inBuf = s.client.inBuf ++ c := rfl
          rw [hbuf] at hrest
          cases hr : readHead cfg (s.client.inBuf ++ c) cs with
          | none =>
              rw [hr] at hrest
              simp only at hrest ⊢
              rw [hfeed, hrest, appendIn_appendIn, List.flatten_cons]
          | some v =>
              rw [hr] at hrest
              obtain ⟨pre, d, post, len, hcs, hpre, hlast⟩ := hrest
              refine ⟨c :: pre, d, post, len, by rw [hcs]; rfl, ?_, ?_⟩
              · rw [hfeed, hpre, appendIn_appendIn, List.flatten_cons]
              · rw [appendIn_appendIn] at hlast
                rw [List.flatten_cons]
                exact hlast

theorem headReaches_readHead (cfg : Cfg) (cs : List Bytes) : HeadReaches cfg cs (readHead cfg [] cs) := by
  intro n s w hs hin
  have h := headReaches_from (n := n) (w := w) cfg cs s hs
  rw [hin] at h
  exact h

/-! ## Streams -/

/-- Reads that bring the stream `bs`. -/
structure Packets (bs : Bytes) (cs : List Bytes) : Prop where
  flatten : cs.flatten = bs
  sizes : ∀ c ∈ cs, c ≠ [] ∧ c.length ≤ kReadBuf

/-- The outcome does not depend on the reads, and a complete head is answered 431 exactly when it
    is over the cap. -/
structure PacketFree (cfg : Cfg) (bs : Bytes) : Prop where
  same : ∀ cs cs', Packets bs cs → Packets bs cs' → readHead cfg [] cs = readHead cfg [] cs'
  capped : ∀ req rest, phrParseRequest (some kMaxHeaders) bs = .done req rest →
    ∀ cs, Packets bs cs →
      (readHead cfg [] cs = some tooLarge ↔ kMaxHead < bs.length - rest.length)

/-- The parser decides with the `k`-th byte of the stream. -/
structure DecidesAt (bs : Bytes) (k : Nat) : Prop where
  le : k ≤ bs.length
  decided : phrParseRequest (some kMaxHeaders) (bs.take k) ≠ .incomplete
  before : ∀ j < k, phrParseRequest (some kMaxHeaders) (bs.take j) = .incomplete

/-- The parser decides behind the cap, but within one read of it; a refusal with the first byte
    behind the cap does no harm. -/
def Straddles (bs : Bytes) : Prop :=
  ∃ k, DecidesAt bs k ∧ kMaxHead < k ∧ k ≤ kMaxHead + kReadBuf ∧
    (k = kMaxHead + 1 → phrParseRequest (some kMaxHeaders) (bs.take k) ≠ .malformed)

variable {bs buf : Bytes} {cs : List Bytes} {v : HeadVerdict} {j k : Nat}

theorem parse_grows (a b : Bytes) : Grows 1 b (phrParseRequest (some kMaxHeaders) a)
    (phrParseRequest (some kMaxHeaders) (a ++ b)) :=
  (phrParseRequest_reads (some kMaxHeaders)).grows a b

theorem take_split (hjk : j ≤ k) (bs : Bytes) : bs.take k = bs.take j ++ (bs.take k).drop j := by
  have h := List.take_append_drop j (bs.take k)
  rw [List.take_take, min_eq_left hjk] at h
  exact h.symm

/-- A verdict stands when bytes follow. -/
theorem headOutcome_grows {a : Bytes} (b : Bytes)
    (ha : phrParseRequest (some kMaxHeaders) a ≠ .incomplete) :
    headOutcome cfg (a ++ b) = headOutcome cfg a := by
  have hg := parse_grows a b
  rw [headOutcome, headOutcome]
  cases hparse : phrParseRequest (some kMaxHeaders) a with
  | incomplete => exact absurd hparse ha
  | malformed =>
      rw [hparse] at hg
      have hg' : phrParseRequest (some kMaxHeaders) (a ++ b) = .malformed := hg
      rw [hg']
  | done req rest =>
      rw [hparse] at hg
      have hg' : phrParseRequest (some kMaxHeaders) (a ++ b) = .done req (rest ++ b) := hg
      rw [hg']

theorem headOutcome_decided (cfg : Cfg) {a : Bytes}
    (ha : phrParseRequest (some kMaxHeaders) a ≠ .incomplete) :
    ∃ v, headOutcome cfg a = some v := by
  rw [headOutcome]
  cases hparse : phrParseRequest (some kMaxHeaders) a with
  | incomplete => exact absurd hparse ha
  | malformed => exact ⟨_, rfl⟩
  | done req rest => exact ⟨_, rfl⟩

theorem headOutcome_incomplete {a : Bytes}
    (ha : phrParseRequest (some kMaxHeaders) a = .incomplete) :
    headOutcome cfg a = if kMaxHead < a.length then some tooLarge else none := by
  rw [headOutcome, ha]

/-- A parser that is undecided on a stream was so on all of its prefixes. -/
theorem incomplete_take (h : phrParseRequest (some kMaxHeaders) bs = .incomplete) (k : Nat) :
    phrParseRequest (some kMaxHeaders) (bs.take k) = .incomplete := by
  have hg := parse_grows (bs.take k) (bs.drop k)
  rw [List.take_append_drop, h] at hg
  cases hk : phrParseRequest (some kMaxHeaders) (bs.take k) with
  | incomplete => rfl
  | malformed => rw [hk] at hg; cases hg
  | done req rest => rw [hk] at hg; cases hg

theorem exists_decidesAt (h : phrParseRequest (some kMaxHeaders) bs ≠ .incomplete) :
    ∃ k, DecidesAt bs k := by
  have hex : ∃ k, phrParseRequest (some kMaxHeaders) (bs.take k) ≠ .incomplete :=
    ⟨bs.length, by rwa [List.take_length]⟩
  refine ⟨Nat.find hex, Nat.find_min' hex (by rwa [List.take_length]), Nat.find_spec hex, ?_⟩
  intro j hj
  exact not_not.mp (Nat.find_min hex hj)

/-- The parser decides with the last byte of a head that it accepts. -/
theorem DecidesAt.head_length {req : PhrRequest} {rest : Bytes} (hk : DecidesAt bs k)
    (h : phrParseRequest (some kMaxHeaders) bs = .done req rest) : bs.length - rest.length = k := by
  have hg := parse_grows (bs.take k) (bs.drop k)
  rw [List.take_append_drop, h] at hg
  cases hparse : phrParseRequest (some kMaxHeaders) (bs.take k) with
  | incomplete => exact absurd hparse hk.decided
  | malformed => rw [hparse] at hg; cases hg
  | done req' rest' =>
      rw [hparse] at hg
      have hrest : rest = rest' ++ bs.drop k := (PhrResult.done.inj hg).2
      have hshort := (phrParseRequest_reads (some kMaxHeaders)).short _ _ _ hparse
      have hlen : (bs.take k).length = k := List.length_take_of_le hk.le
      have hle := hk.le
      have hnil : rest'.length = 0 := by
        by_contra hpos
        -- without the bytes behind the head the parser would have decided before
        have hbefore := hk.before (k - rest'.length) (by omega)
        have hlate := parse_grows (bs.take (k - rest'.length))
          ((bs.take k).drop (k - rest'.length))
        rw [← take_split (by omega), hbefore] at hlate
        have hb := hlate req' rest' hparse
        rw [List.length_drop] at hb
        omega
      rw [hrest, List.length_append, List.length_drop]
      omega

theorem eq_take_of_append (h : buf ++ cs.flatten = bs) : buf = bs.take buf.length := by
  rw [← h, List.take_left]

/-- A decision up to the first byte behind the cap: no read comes between. -/
theorem readHead_early (hk : DecidesAt bs k) (hcap : k ≤ kMaxHead + 1) :
    ∀ (cs : List Bytes) (buf : Bytes), buf ++ cs.flatten = bs → buf.length < k →
      readHead cfg buf cs = headOutcome cfg (bs.take k) := by
  intro cs
  induction cs with
  | nil =>
      intro buf hbuf hlt
      rw [List.flatten_nil, List.append_nil] at hbuf
      have := hk.le
      rw [hbuf] at hlt
      omega
  | cons c cs ih =>
      intro buf hbuf hlt
      rw [List.flatten_cons, ← List.append_assoc] at hbuf
      have htake := eq_take_of_append hbuf
      rw [readHead]
      by_cases hshort : (buf ++ c).length < k
      · have hinc : phrParseRequest (some kMaxHeaders) (buf ++ c) = .incomplete := by
          rw [htake]
          exact hk.before _ hshort
        rw [headOutcome_incomplete hinc, if_neg (by omega)]
        exact ih _ hbuf hshort
      · have hout : headOutcome cfg (buf ++ c) = headOutcome cfg (bs.take k) := by
          rw [htake, take_split (Nat.le_of_not_lt hshort)]
          exact headOutcome_grows _ hk.decided
        obtain ⟨v, hv⟩ := headOutcome_decided cfg hk.decided
        rw [hout, hv]

/-- No decision within one read of the cap: the read that passes the cap finds the head
    incomplete. -/
theorem readHead_late {r : Nat} (hlen : kMaxHead < bs.length)
    (hinc : ∀ k ≤ kMaxHead + r, phrParseRequest (some kMaxHeaders) (bs.take k) = .incomplete) :
    ∀ (cs : List Bytes) (buf : Bytes), buf ++ cs.flatten = bs → buf.length ≤ kMaxHead →
      (∀ c ∈ cs, c.length ≤ r) → readHead cfg buf cs = some tooLarge := by
  intro cs
  induction cs with
  | nil =>
      intro buf hbuf hle hsizes
      rw [List.flatten_nil, List.append_nil] at hbuf
      rw [hbuf] at hle
      omega
  | cons c cs ih =>
      intro buf hbuf hle hsizes
      rw [List.flatten_cons, ← List.append_assoc] at hbuf
      have htake := eq_take_of_append hbuf
      have hc := hsizes c List.mem_cons_self
      have hbound : (buf ++ c).length ≤ kMaxHead + r := by
        rw [List.length_append]
        omega
      have hparse : phrParseRequest (some kMaxHeaders) (buf ++ c) = .incomplete := by
        rw [htake]
        exact hinc _ hbound
      rw [readHead, headOutcome_incomplete hparse]
      by_cases hover : kMaxHead < (buf ++ c).length
      · rw [if_pos hover]
      · rw [if_neg hover]
        exact ih _ hbuf (Nat.le_of_not_lt hover) fun d hd => hsizes d (List.mem_cons_of_mem _ hd)

/-- A short stream that leaves the parser undecided is waited on. -/
theorem readHead_waits (hlen : bs.length ≤ kMaxHead)
    (hinc : phrParseRequest (some kMaxHeaders) bs = .incomplete) :
    ∀ (cs : List Bytes) (buf : Bytes), buf ++ cs.flatten = bs → readHead cfg buf cs = none := by
  intro cs
  induction cs with
  | nil => intro buf _; rfl
  | cons c cs ih =>
      intro buf hbuf
      rw [List.flatten_cons, ← List.append_assoc] at hbuf
      have htake := eq_take_of_append hbuf
      have hparse : phrParseRequest (some kMaxHeaders) (buf ++ c) = .incomplete := by
        rw [htake]
        exact incomplete_take hinc _
      have hle : (buf ++ c).length ≤ bs.length := by
        rw [← hbuf]
        simp
      rw [readHead, headOutcome_incomplete hparse, if_neg (by omega)]
      exact ih _ hbuf

/-- No parsed head is answered 431. -/
theorem headVerdict_ne_tooLarge (routes : List Route) (maxBody : Nat) (req : PhrRequest) :
    headVerdict routes maxBody req ≠ tooLarge := by
  have hcode : ∀ r : Reply, r.code ≠ 431 → HeadVerdict.reply r ≠ tooLarge := by
    intro r hr h
    cases h
    exact hr rfl
  rw [headVerdict]
  split
  · intro h
    cases h
  · split
    · rename_i r hscan
      exact hcode r (by rw [scanHeaders_reply hscan]; decide)
    · intro h
      cases h
    · split
      · exact hcode _ (by decide)
      · split
        · exact hcode _ (by decide)
        · split
          · exact hcode _ (by decide)
          · intro h
            cases h

theorem DecidesAt.outcome_ne (hk : DecidesAt bs k) :
    headOutcome cfg (bs.take k) ≠ some tooLarge := by
  rw [headOutcome]
  cases hparse : phrParseRequest (some kMaxHeaders) (bs.take k) with
  | incomplete => exact absurd hparse hk.decided
  | malformed =>
      intro h
      exact absurd (Option.some.inj h) (by decide)
  | done req rest =>
      intro h
      exact headVerdict_ne_tooLarge _ _ _ (Option.some.inj h)

/-! ## Two ways to cut a stream -/

/-- One byte at a time. -/
def singles (bs : Bytes) : List Bytes := bs.map fun c => [c]

/-- One byte at a time up to the cap, then a full read. -/
def burst (bs : Bytes) : List Bytes :=
  singles (bs.take kMaxHead) ++
    (bs.drop kMaxHead).take kReadBuf :: singles (bs.drop (kMaxHead + kReadBuf))

theorem flatten_singles (bs : Bytes) : (singles bs).flatten = bs := by
  induction bs with
  | nil => rfl
  | cons c bs ih => exact congrArg (c :: ·) ih

theorem singles_sizes {c : Bytes} (h : c ∈ singles bs) : c ≠ [] ∧ c.length ≤ 1 := by
  obtain ⟨d, -, rfl⟩ := List.mem_map.mp h
  exact ⟨List.cons_ne_nil _ _, Nat.le_refl _⟩

theorem packets_singles (bs : Bytes) : Packets bs (singles bs) := by
  refine ⟨flatten_singles bs, fun c hc => ⟨(singles_sizes hc).1, ?_⟩⟩
  exact Nat.le_trans (singles_sizes hc).2 (by decide)

theorem packets_burst (h : kMaxHead < bs.length) : Packets bs (burst bs) := by
  refine ⟨?_, ?_⟩
  · rw [burst, List.flatten_append, List.flatten_cons, flatten_singles, flatten_singles,
      ← List.drop_drop, List.take_append_drop, List.take_append_drop]
  · intro c hc
    rcases List.mem_append.mp hc with hc | hc
    · exact ⟨(singles_sizes hc).1, Nat.le_trans (singles_sizes hc).2 (by decide)⟩
    · rcases List.mem_cons.mp hc with rfl | hc
      · refine ⟨fun hnil => ?_, List.length_take_le _ _⟩
        have hlen := congrArg List.length hnil
        rw [List.length_take, List.length_drop, List.length_nil] at hlen
        have : 0 < kReadBuf := by decide
        omega
      · exact ⟨(singles_sizes hc).1, Nat.le_trans (singles_sizes hc).2 (by decide)⟩

/-- Reads that decide nothing only fill the buffer. -/
theorem readHead_append {pre : List Bytes} (hlen : (buf ++ pre.flatten).length ≤ kMaxHead)
    (hinc : phrParseRequest (some kMaxHeaders) (buf ++ pre.flatten) = .incomplete)
    (post : List Bytes) :
    readHead cfg buf (pre ++ post) = readHead cfg (buf ++ pre.flatten) post := by
  induction pre generalizing buf with
  | nil => rw [List.flatten_nil, List.append_nil, List.nil_append]
  | cons c pre ih =>
      rw [List.flatten_cons, ← List.append_assoc] at hlen hinc ⊢
      have htake : buf ++ c = (buf ++ c ++ pre.flatten).take (buf ++ c).length :=
        (List.take_left).symm
      have hparse : phrParseRequest (some kMaxHeaders) (buf ++ c) = .incomplete := by
        rw [htake]
        exact incomplete_take hinc _
      have hshort : ¬kMaxHead < (buf ++ c).length := by
        rw [List.length_append] at hlen
        omega
      rw [List.cons_append, readHead, headOutcome_incomplete hparse, if_neg hshort]
      exact ih hlen hinc

/-- A decision behind the cap and within one read of it: the two ways differ. -/
theorem readHead_differs (cfg : Cfg) (hk : DecidesAt bs k) (hlo : kMaxHead + 1 < k)
    (hhi : k ≤ kMaxHead + kReadBuf) :
    readHead cfg [] (singles bs) = some tooLarge ∧
      readHead cfg [] (burst bs) = headOutcome cfg (bs.take k) := by
  have hle := hk.le
  refine ⟨?_, ?_⟩
  · refine readHead_late (r := 1) (by omega) (fun j hj => hk.before j (by omega)) _ _
      (flatten_singles bs) (Nat.zero_le _) fun c hc => (singles_sizes hc).2
  · have hlen : (bs.take kMaxHead).length = kMaxHead := List.length_take_of_le (by omega)
    have hpre : [] ++ (singles (bs.take kMaxHead)).flatten = bs.take kMaxHead := by
      rw [flatten_singles, List.nil_append]
    rw [burst, readHead_append (by rw [hpre, hlen])
      (by rw [hpre]; exact hk.before _ (by omega)), hpre, readHead, ← List.take_add]
    have hout : headOutcome cfg (bs.take (kMaxHead + kReadBuf)) =
        headOutcome cfg (bs.take k) := by
      rw [take_split hhi]
      exact headOutcome_grows _ hk.decided
    obtain ⟨v, hv⟩ := headOutcome_decided cfg hk.decided
    rw [hout, hv]

/-! ## The condition -/

/-- A stream that straddles the cap: the reads decide, or a head over the cap is accepted. -/
theorem not_packetFree (h : Straddles bs) : ¬PacketFree cfg bs := by
  obtain ⟨k, hk, hlo, hhi, hfirst⟩ := h
  have hle := hk.le
  intro hfree
  by_cases hnext : k = kMaxHead + 1
  · have hearly : readHead cfg [] (singles bs) = headOutcome cfg (bs.take k) :=
      readHead_early hk (by omega) _ _ (flatten_singles bs) (by rw [List.length_nil]; omega)
    cases hparse : phrParseRequest (some kMaxHeaders) (bs.take k) with
    | incomplete => exact hk.decided hparse
    | malformed => exact hfirst hnext hparse
    | done req rest =>
        have hg := parse_grows (bs.take k) (bs.drop k)
        rw [List.take_append_drop, hparse] at hg
        have hbs : phrParseRequest (some kMaxHeaders) bs = .done req (rest ++ bs.drop k) := hg
        have hcap := (hfree.capped req _ hbs _ (packets_singles bs)).mpr
          (by rw [hk.head_length hbs]; exact hlo)
        rw [hearly] at hcap
        exact hk.outcome_ne hcap
  · obtain ⟨hsingles, hburst⟩ := readHead_differs cfg hk (by omega) hhi
    have hsame := hfree.same _ _ (packets_singles bs) (packets_burst (by omega))
    rw [hsingles, hburst] at hsame
    exact hk.outcome_ne hsame.symm

theorem packetFree_of_not_straddles (h : ¬Straddles bs) : PacketFree cfg bs := by
  have hzero : 0 < kMaxHead := by decide
  by_cases hinc : phrParseRequest (some kMaxHeaders) bs = .incomplete
  · -- the parser never decides
    have hall : ∃ o, ∀ cs, Packets bs cs → readHead cfg [] cs = o := by
      by_cases hlen : kMaxHead < bs.length
      · exact ⟨some tooLarge, fun cs hcs => readHead_late (r := kReadBuf) hlen
          (fun k _ => incomplete_take hinc k) cs [] hcs.flatten (Nat.zero_le _)
          fun c hc => (hcs.sizes c hc).2⟩
      · exact ⟨none, fun cs hcs =>
          readHead_waits (Nat.le_of_not_lt hlen) hinc cs [] hcs.flatten⟩
    obtain ⟨o, ho⟩ := hall
    refine ⟨fun cs cs' hcs hcs' => by rw [ho cs hcs, ho cs' hcs'], fun req rest hdone => ?_⟩
    rw [hinc] at hdone
    cases hdone
  · obtain ⟨k, hk⟩ := exists_decidesAt hinc
    have hpos : 0 < k := by
      by_contra hk0
      have hnil : k = 0 := by omega
      refine hk.decided ?_
      rw [hnil]
      rfl
    by_cases hlate : kMaxHead + kReadBuf < k
    · -- more than a read behind the cap: whatever the reads, it is answered before
      have hle := hk.le
      have hall : ∀ cs, Packets bs cs → readHead cfg [] cs = some tooLarge := fun cs hcs =>
        readHead_late (r := kReadBuf) (by omega) (fun j hj => hk.before j (by omega)) cs []
          hcs.flatten (Nat.zero_le _) fun c hc => (hcs.sizes c hc).2
      refine ⟨fun cs cs' hcs hcs' => by rw [hall cs hcs, hall cs' hcs'],
        fun req rest hdone cs hcs => ?_⟩
      rw [hk.head_length hdone]
      exact ⟨fun _ => by omega, fun _ => hall cs hcs⟩
    · -- up to the cap, or a refusal with the first byte behind it
      have hearly : k ≤ kMaxHead ∨
          k = kMaxHead + 1 ∧ phrParseRequest (some kMaxHeaders) (bs.take k) = .malformed := by
        by_contra hnot
        rw [not_or, not_and] at hnot
        exact h ⟨k, hk, by omega, by omega, hnot.2⟩
      have hall : ∀ cs, Packets bs cs → readHead cfg [] cs = headOutcome cfg (bs.take k) :=
        fun cs hcs => readHead_early hk (by omega) cs [] hcs.flatten hpos
      refine ⟨fun cs cs' hcs hcs' => by rw [hall cs hcs, hall cs' hcs'],
        fun req rest hdone cs hcs => ?_⟩
      rw [hall cs hcs, hk.head_length hdone]
      have hcap : k ≤ kMaxHead := by
        rcases hearly with hcap | ⟨-, hbad⟩
        · exact hcap
        · have hg := parse_grows (bs.take k) (bs.drop k)
          rw [List.take_append_drop, hbad, hdone] at hg
          cases hg
      exact ⟨fun hlarge => absurd hlarge hk.outcome_ne, fun hover => absurd hover (by omega)⟩

/-- **Packetization.**  For every stream: the outcome that a connection reaches on it does not
    depend on the reads, and complete heads are answered 431 exactly when they are over the cap, if
    and only if the parser does not decide on the stream behind the cap and within one read of it
    (a refusal with the first byte behind the cap apart). -/
theorem head_packets_iff (cfg : Cfg) (bs : Bytes) :
    (∀ cs, Packets bs cs → HeadReaches cfg cs (readHead cfg [] cs)) ∧
      (PacketFree cfg bs ↔ ¬Straddles bs) :=
  ⟨fun cs _ => headReaches_readHead cfg cs,
    fun hfree hstraddles => not_packetFree hstraddles hfree, packetFree_of_not_straddles⟩

/-- A stream below the cap. -/
theorem head_packets_iff_short :
    PacketFree ⟨.plain, [{}], 0, 0⟩ (ascii "GET / HTTP/1.1\r\n\r\n") := by
  refine (head_packets_iff ⟨.plain, [{}], 0, 0⟩ (ascii "GET / HTTP/1.1\r\n\r\n")).2.mpr ?_
  rintro ⟨k, hk, hlo, -, -⟩
  have hlen : (ascii "GET / HTTP/1.1\r\n\r\n").length ≤ kMaxHead := by decide
  exact absurd hk.le (by omega)

/-! ## A head just over the cap -/

/-- A request with a target of `n + 1` bytes; the head has `n + 18`. -/
def longHead (n : Nat) : Bytes :=
  requestLine (ascii "GET") (0x2f :: List.replicate n 0x61) ++ [0x0d, 0x0a]

theorem length_longHead (n : Nat) : (longHead n).length = n + 18 := by
  have hget : (ascii "GET").length = 3 := by decide
  have hblank : (ascii " ").length = 1 := by decide
  have hversion : (ascii " HTTP/1.1\r\n").length = 11 := by decide
  simp only [longHead, requestLine, List.length_append, List.length_cons, List.length_replicate,
    List.length_nil, hget, hblank, hversion]
  omega

theorem parse_longHead (n : Nat) : phrParseRequest (some kMaxHeaders) (longHead n) =
    .done ⟨ascii "GET", 0x2f :: List.replicate n 0x61, 1, []⟩ [] := by
  have hm : IsToken (ascii "GET") := ⟨by decide, List.all_eq_true.mp (by decide)⟩
  have hp : IsTarget (0x2f :: List.replicate n 0x61) := by
    refine ⟨List.cons_ne_nil _ _, fun c hc => ?_⟩
    rcases List.mem_cons.mp hc with rfl | hc
    · decide
    · rw [(List.mem_replicate.mp hc).2]
      decide
  rw [longHead, parseRequest_line _ _ hm hp]
  rfl

theorem longHead_decides (n : Nat) : DecidesAt (longHead n) (n + 18) := by
  have hparse := parse_longHead n
  have hne : phrParseRequest (some kMaxHeaders) (longHead n) ≠ .incomplete := by
    rw [hparse]
    exact fun h => (by cases h)
  obtain ⟨k, hk⟩ := exists_decidesAt hne
  have hlen := hk.head_length hparse
  rw [length_longHead, List.length_nil, Nat.sub_zero] at hlen
  rwa [hlen]

/-- A head of 33018 bytes: byte by byte it is answered 431, and with a full read at the cap it is
    not. -/
theorem long_head_accepted :
    let cfg : Cfg := ⟨.plain, [{}], 0, 0⟩
    Packets (longHead 33000) (singles (longHead 33000)) ∧
      Packets (longHead 33000) (burst (longHead 33000)) ∧
      readHead cfg [] (singles (longHead 33000)) = some tooLarge ∧
      readHead cfg [] (burst (longHead 33000)) ≠ some tooLarge ∧
      ¬PacketFree cfg (longHead 33000) := by
  intro cfg
  have hk := longHead_decides 33000
  have hlo : kMaxHead + 1 < 33000 + 18 := by decide
  have hhi : 33000 + 18 ≤ kMaxHead + kReadBuf := by decide
  obtain ⟨hsingles, hburst⟩ := readHead_differs cfg hk hlo hhi
  refine ⟨packets_singles _, packets_burst ?_, hsingles, ?_, ?_⟩
  · rw [length_longHead]
    exact Nat.lt_of_succ_lt hlo
  · rw [hburst]
    exact hk.outcome_ne
  · exact not_packetFree ⟨_, hk, Nat.lt_of_succ_lt hlo, hhi, fun h => absurd h (Nat.ne_of_gt hlo)⟩

end CastlePlus
