import CastlePlus.ControlServer
import CastlePlus.LineIndex

/-! # An admin session

    `ControlServer::handle_client` (`control/control_server.cpp`): what is read goes to the end of
    `inbuf`, and the lines that are complete come off its front and go to `dispatch`, until one of
    them closes the session.  `dispatched` records the lines, no code reads it.

    The lines that are dispatched are the newline-terminated lines of what was received, through
    the first that closes the session, however the bytes came in (**`control_framing`**). -/

namespace CastlePlus

open TextFormat LineIndex

/-- What `dispatch` finds: the server, and the texts of its clock. -/
structure Moment where
  server : ControlServer
  dateString : Bytes
  timeLocal : Bytes

/-- `ControlServer::dispatch`: the reply, and `close_session`. -/
def dispatchLine (now : Moment) (raw : Bytes) : Bytes × Bool :=
  let (body, effects) := dispatchCommand now.server raw
  let closeSession := decide (ControlEffect.closeSession ∈ effects)
  if body = [] then (body, closeSession)
  else (ascii "[" ++ now.dateString ++ ascii " " ++ now.timeLocal ++ ascii "]\n" ++ body,
    closeSession)

/-- The bytes of one `read` into `buf[1024]`. -/
abbrev ControlRead : Type := { b : Bytes // 0 < b.length ∧ b.length ≤ 1024 }

/-- A turn of the loop of `handle_client`. -/
inductive ControlTurn where
  /-- `running_` is false at the top -/
  | notRunning
  /-- `poll` fails with `EINTR` -/
  | pollIntr
  | pollError
  /-- `stop_fd_` is readable -/
  | stop
  /-- nothing to read from the client -/
  | noInput
  | read (chunk : ControlRead)
  /-- `read` returns 0 or fails -/
  | readEnd

/-- The locals of `handle_client`, and what it has done: `written` are the texts given to
    `write_all`. -/
structure ControlSession where
  inbuf : Bytes := []
  closed : Bool := false
  dispatched : List Bytes := []
  written : List Bytes := []

namespace ControlSession

/-- The session after the greeting; the dash is U+2014. -/
def greeted : ControlSession where
  written := [ascii " --------| Welcome back to the castle |--------",
    ascii "castle+ control " ++ [0xe2, 0x80, 0x94] ++ ascii " type 'help'\n"]

/-- One turn of the inner loop: `line` is cut off, `rest` stays in `inbuf`. -/
def takeLine (now : Moment) (line rest : Bytes) (s : ControlSession) : ControlSession :=
  let (resp, closeSession) := dispatchLine now line
  { inbuf := rest
    closed := closeSession
    dispatched := s.dispatched ++ [line]
    written := if resp = [] then s.written else s.written ++ [resp] }

/-- The inner loop.  `world` is what each dispatch finds, after the lines before it. -/
def takeLines (world : List Bytes → Moment) (s : ControlSession) : ControlSession :=
  match _hcut : splitFirst 0x0a s.inbuf with
  | none => s
  | some (line, rest) =>
      let s' := s.takeLine (world s.dispatched) line rest
      if s'.closed then s' else takeLines world s'
termination_by s.inbuf.length
decreasing_by
  have hlen := congrArg List.length (splitFirst_spec _hcut).1
  rw [List.length_append, List.length_cons] at hlen
  dsimp only at hlen
  show rest.length < s.inbuf.length
  omega

/-- The loop of `handle_client`; without a further turn it waits in `poll`. -/
def handleClient (world : List Bytes → Moment) : List ControlTurn → ControlSession → ControlSession
  | [], s => s
  | .read chunk :: turns, s =>
      let s := takeLines world { s with inbuf := s.inbuf ++ chunk.val }
      if s.closed then s else handleClient world turns s
  | .pollIntr :: turns, s => handleClient world turns s
  | .noInput :: turns, s => handleClient world turns s
  | .notRunning :: _, s => s
  | .pollError :: _, s => s
  | .stop :: _, s => s
  | .readEnd :: _, s => s

end ControlSession

/-! ## The lines of a session -/

/-- The bytes of the reads, as far as the turns go on. -/
def receivedBytes : List ControlTurn → Bytes
  | [] => []
  | .read chunk :: turns => chunk.val ++ receivedBytes turns
  | .pollIntr :: turns => receivedBytes turns
  | .noInput :: turns => receivedBytes turns
  | .notRunning :: _ => []
  | .pollError :: _ => []
  | .stop :: _ => []
  | .readEnd :: _ => []

/-- The first word of a line is `exit` or `quit`, in any case. -/
def closesSession (raw : Bytes) : Bool :=
  let cmd := ((trim raw).takeWhile fun b => !isBlank b).map toLower
  cmd = ascii "exit" || cmd = ascii "quit"

/-- Through the first line of `p`. -/
def takeThrough (p : Bytes → Bool) : List Bytes → List Bytes
  | [] => []
  | l :: ls => if p l then [l] else l :: takeThrough p ls

theorem takeThrough_prefix (p : Bytes → Bool) (ls : List Bytes) : takeThrough p ls <+: ls := by
  induction ls with
  | nil => exact List.prefix_rfl
  | cons l ls ih =>
      rw [takeThrough]
      by_cases hl : p l = true
      · rw [if_pos hl]
        exact ⟨ls, rfl⟩
      · rw [if_neg hl]
        exact (List.prefix_cons_inj l).mpr ih

theorem of_mem_ite {α : Type} {x : α} {c : Prop} [Decidable c] {a b : Bytes × List α}
    (h : x ∈ (if c then a else b).2) : c ∧ x ∈ a.2 ∨ x ∈ b.2 := by
  by_cases hc : c
  · rw [if_pos hc] at h
    exact .inl ⟨hc, h⟩
  · rw [if_neg hc] at h
    exact .inr h

theorem runCommand_closeSession {c : ControlServer} {cmd arg : Bytes} :
    .closeSession ∈ (runCommand c cmd arg).2 ↔ cmd = ascii "exit" ∨ cmd = ascii "quit" := by
  constructor
  · intro h
    rw [runCommand] at h
    iterate 5
      rcases of_mem_ite h with ⟨-, h⟩ | h
      · cases h
    rcases of_mem_ite h with ⟨-, h⟩ | h
    · cases hsup : c.supervisor <;> simp [hsup] at h
    rcases of_mem_ite h with ⟨-, h⟩ | h
    · cases hsup : c.supervisor with
      | none => simp [hsup] at h
      | some sup =>
          simp only [hsup] at h
          rcases of_mem_ite h with ⟨-, h⟩ | h
          · cases h
          · rcases of_mem_ite h with ⟨-, h⟩ | h <;> simp at h
    rcases of_mem_ite h with ⟨-, h⟩ | h
    · cases hdown : c.onShutdown <;> simp [hdown] at h
    rcases of_mem_ite h with ⟨-, h⟩ | h
    · cases h
    rcases of_mem_ite h with ⟨-, h⟩ | h
    · cases hsup : c.supervisor <;> simp [hsup] at h
    rcases of_mem_ite h with ⟨hcmd, -⟩ | h
    · exact hcmd
    rcases of_mem_ite h with ⟨-, h⟩ | h
    · cases h
    · cases h
  · rintro (rfl | rfl)
    · exact List.mem_cons_self
    · exact List.mem_cons_self

/-- Whether a line closes the session does not depend on the server. -/
theorem dispatchLine_snd (now : Moment) (raw : Bytes) :
    (dispatchLine now raw).2 = closesSession raw := by
  have hsnd : (dispatchLine now raw).2 =
      decide (ControlEffect.closeSession ∈ (dispatchCommand now.server raw).2) := by
    rw [dispatchLine]
    dsimp only
    split <;> rfl
  rw [hsnd, dispatchCommand, closesSession]
  by_cases hline : trim raw = []
  · rw [if_pos hline, hline]
    rfl
  · rw [if_neg hline, decide_eq_decide.mpr runCommand_closeSession, Bool.decide_or]

namespace ControlSession

variable {world : List Bytes → Moment}

section

variable {s : ControlSession} {line rest : Bytes}

theorem takeLines_of_none (h : splitFirst 0x0a s.inbuf = none) : takeLines world s = s := by
  rw [takeLines]
  split
  · rfl
  · rename_i heq
    rw [h] at heq
    cases heq

theorem takeLines_of_some (h : splitFirst 0x0a s.inbuf = some (line, rest)) :
    takeLines world s =
      if (s.takeLine (world s.dispatched) line rest).closed then
        s.takeLine (world s.dispatched) line rest
      else takeLines world (s.takeLine (world s.dispatched) line rest) := by
  rw [takeLines]
  split
  · rename_i heq
    rw [h] at heq
    cases heq
  · rename_i heq
    rw [h] at heq
    cases heq
    rfl

end

/-- The inner loop takes the complete lines off `inbuf`, through the first that closes the session;
    what comes behind `inbuf` later does not matter to them. -/
theorem takeLines_spec (world : List Bytes → Moment) (s : ControlSession)
    (hs : s.closed = false) :
    ∃ ls, (takeLines world s).dispatched = s.dispatched ++ ls ∧
      ((takeLines world s).closed = true →
        ∀ b, takeThrough closesSession (completeLines 0x0a (s.inbuf ++ b)) = ls) ∧
      ((takeLines world s).closed = false → 0x0a ∉ (takeLines world s).inbuf ∧
        ∀ b, takeThrough closesSession (completeLines 0x0a (s.inbuf ++ b)) =
          ls ++ takeThrough closesSession
            (completeLines 0x0a ((takeLines world s).inbuf ++ b))) := by
  -- induction on what is in the buffer
  induction hn : s.inbuf.length using Nat.strong_induction_on generalizing s with
  | _ n ih =>
      cases hcut : splitFirst 0x0a s.inbuf with
      | none =>
          rw [takeLines_of_none hcut]
          refine ⟨[], (List.append_nil _).symm, fun hclosed => ?_, fun _ => ?_⟩
          · rw [hs] at hclosed
            cases hclosed
          · exact ⟨splitFirst_eq_none.mp hcut, fun b => rfl⟩
      | some ab =>
          obtain ⟨line, rest⟩ := ab
          obtain ⟨hbuf, hline⟩ := splitFirst_spec hcut
          dsimp only at hbuf hline
          obtain ⟨s', hs'⟩ : ∃ s', s.takeLine (world s.dispatched) line rest = s' := ⟨_, rfl⟩
          obtain ⟨hclosed, hdisp, hrest⟩ : s'.closed = closesSession line ∧
              s'.dispatched = s.dispatched ++ [line] ∧ s'.inbuf = rest := by
            rw [← hs']
            exact ⟨dispatchLine_snd _ line, rfl, rfl⟩
          have hlines : ∀ b, completeLines 0x0a (s.inbuf ++ b) =
              line :: completeLines 0x0a (rest ++ b) := by
            intro b
            rw [hbuf, List.append_assoc, List.cons_append, completeLines_append hline]
          rw [takeLines_of_some hcut, hs']
          by_cases hend : closesSession line = true
          · rw [if_pos (hclosed.trans hend)]
            refine ⟨[line], hdisp, fun _ b => ?_, fun hopen => ?_⟩
            · rw [hlines, takeThrough, if_pos hend]
            · rw [hclosed, hend] at hopen
              cases hopen
          · have hopen : s'.closed = false := hclosed.trans (Bool.eq_false_iff.mpr hend)
            have hlt : s'.inbuf.length < n := by
              rw [hrest, ← hn, hbuf, List.length_append, List.length_cons]
              omega
            obtain ⟨ls, hls, hcl, hop⟩ := ih _ hlt s' hopen rfl
            rw [if_neg (by rw [hopen]; decide)]
            rw [hrest] at hcl hop
            refine ⟨line :: ls, ?_, fun h b => ?_, fun h => ⟨(hop h).1, fun b => ?_⟩⟩
            · rw [hls, hdisp, List.append_assoc]
              rfl
            · rw [hlines, takeThrough, if_neg hend, hcl h b]
            · rw [hlines, takeThrough, if_neg hend, (hop h).2 b]
              rfl

/-- The loop of `handle_client` from a session that is open. -/
theorem handleClient_dispatched (turns : List ControlTurn) : ∀ s : ControlSession,
    s.closed = false → 0x0a ∉ s.inbuf →
    (handleClient world turns s).dispatched = s.dispatched ++
      takeThrough closesSession (completeLines 0x0a (s.inbuf ++ receivedBytes turns)) := by
  induction turns with
  | nil =>
      intro s _ hbuf
      rw [handleClient, receivedBytes, List.append_nil, completeLines_of_notMem hbuf]
      exact (List.append_nil _).symm
  | cons turn turns ih =>
      intro s hs hbuf
      -- a turn that ends the loop leaves an unterminated line in the buffer
      have hstop : s.dispatched = s.dispatched ++
          takeThrough closesSession (completeLines 0x0a (s.inbuf ++ [])) := by
        rw [List.append_nil, completeLines_of_notMem hbuf]
        exact (List.append_nil _).symm
      cases turn with
      | notRunning => exact hstop
      | pollIntr => exact ih s hs hbuf
      | pollError => exact hstop
      | stop => exact hstop
      | noInput => exact ih s hs hbuf
      | readEnd => exact hstop
      | read chunk =>
          obtain ⟨ls, hls, hclosed, hopen⟩ :=
            takeLines_spec world { s with inbuf := s.inbuf ++ chunk.val } hs
          rw [handleClient, receivedBytes, ← List.append_assoc]
          by_cases hc : (takeLines world { s with inbuf := s.inbuf ++ chunk.val }).closed = true
          · rw [if_pos hc, hls, hclosed hc]
          · have hc' := Bool.eq_false_iff.mpr hc
            obtain ⟨hfree, hrest⟩ := hopen hc'
            rw [if_neg hc, ih _ hc' hfree, hls, hrest, List.append_assoc]

/-- **Framing.**  The lines passed to `dispatch` are the newline-terminated lines of what was read,
    through the first that closes the session; each is followed by its newline in the stream, and
    the reads that the stream was cut into do not matter, nor what each dispatch finds. -/
theorem control_framing (world : List Bytes → Moment) (turns : List ControlTurn) :
    (handleClient world turns greeted).dispatched =
        takeThrough closesSession (completeLines 0x0a (receivedBytes turns)) ∧
      unlines 0x0a (handleClient world turns greeted).dispatched <+: receivedBytes turns ∧
      ∀ world' turns', receivedBytes turns' = receivedBytes turns →
        (handleClient world' turns' greeted).dispatched =
          (handleClient world turns greeted).dispatched := by
  have hall : ∀ world turns, (handleClient world turns greeted).dispatched =
      takeThrough closesSession (completeLines 0x0a (receivedBytes turns)) :=
    fun world turns => handleClient_dispatched turns greeted rfl List.not_mem_nil
  refine ⟨hall world turns, ?_, fun world' turns' hsame => ?_⟩
  · rw [hall]
    obtain ⟨more, hmore⟩ := takeThrough_prefix closesSession
      (completeLines 0x0a (receivedBytes turns))
    have hcut : unlines 0x0a (takeThrough closesSession (completeLines 0x0a (receivedBytes turns))) ++
        unlines 0x0a more = unlines 0x0a (completeLines 0x0a (receivedBytes turns)) := by
      rw [unlines, unlines, unlines, ← List.flatMap_append, hmore]
    exact List.IsPrefix.trans ⟨_, hcut⟩ (unlines_completeLines_isPrefix _)
  · rw [hall, hall, hsame]

end ControlSession

end CastlePlus
