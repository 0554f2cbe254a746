import CastlePlus.Endings
import CastlePlus.EventLoop

/-! # The pairs of one event loop

    Any number of proxied pairs live on a loop; connections are accepted, callbacks go to
    any of them in any order, and `process_pending_close` destroys whatever of them is in
    `pending_close_`, in any order.  A pair's code touches its own pair only, so the
    invariant of one pair is the invariant of each.

    * **`peer_links_sound`** — the pointers between the two halves never dangle, and nothing
      that has lost its peer is left behind.
    * **`deferred_destruction`** — what the reactor promises its handlers. -/

namespace CastlePlus

open ScriptProg

variable {cfg : Cfg} {s s' : Pair} {w : List Answer}

/-! ## Runs of the loop -/

/-- A connection with the configuration of the listener that accepted it. -/
structure Conn where
  cfg : Cfg
  pair : Pair

/-- A callback other than the deferred destruction, which the loop runs for all at once. -/
def Callback.single : Callback → Bool
  | .processPendingClose _ => false
  | _ => true

inductive LoopStep : List Conn → List Conn → Prop where
  | accept (cs : List Conn) (cfg : Cfg) (now : Nat) (mods : List Bool) :
      LoopStep cs (cs ++ [⟨cfg, newPair now mods⟩])
  /-- a callback, posted or made by the idle sweep, on the pair between `cs` and `ds` -/
  | callback {cs ds : List Conn} {c : Conn} {cb : Callback} {w : List Answer} {p : Pair} :
      cb.single = true → enabled c.pair cb = true →
      dispatch c.cfg cb c.pair w = .ret () p [] →
      LoopStep (cs ++ c :: ds) (cs ++ { c with pair := p } :: ds)
  /-- `order` says which half of a pair the set yields first -/
  | processPendingClose (cs : List Conn) (order : Nat → Bool) :
      LoopStep cs (cs.mapIdx fun i c => { c with pair := processPendingClose (order i) c.pair })

/-- The pairs of a loop between two callbacks. -/
inductive LoopReachable : List Conn → Prop where
  | init : LoopReachable []
  | step {cs ds : List Conn} : LoopReachable cs → LoopStep cs ds → LoopReachable ds

/-- A run of one pair is a run of a loop with that pair. -/
theorem Reachable.loop (h : Reachable cfg s) : LoopReachable [⟨cfg, s⟩] := by
  obtain ⟨now, mods, h⟩ := h
  induction h with
  | init => exact .step .init (.accept [] cfg now mods)
  | @step s s' cb w _ hok hrun ih =>
      refine .step ih ?_
      cases hcb : cb.single with
      | true => exact @LoopStep.callback [] [] ⟨cfg, s⟩ cb w s' hcb hok hrun
      | false =>
          cases cb with
          | processPendingClose backendFirst =>
              obtain ⟨rfl, -⟩ : processPendingClose backendFirst s = s' ∧ w = [] := by
                simpa [dispatch, callback, ScriptProg.modify] using hrun
              exact .processPendingClose [⟨cfg, s⟩] fun _ => backendFirst
          | clientReadable => cases hcb
          | clientWritable => cases hcb
          | clientError => cases hcb
          | clientTimeout => cases hcb
          | backendReadable => cases hcb
          | backendWritable => cases hcb
          | backendError => cases hcb
          | backendTimeout => cases hcb

/-! ## Peer links -/

/-- The pair's invariant, and the closed half of it is scheduled. -/
structure LiveInv (cfg : Cfg) (s : Pair) : Prop extends PairInv cfg s where
  swept : Swept s

theorem LiveInv.newPair {now : Nat} {mods : List Bool} : LiveInv cfg (newPair now mods) :=
  ⟨newPair_inv, (by rintro ⟨⟩)⟩

theorem LiveInv.dispatch (h : LiveInv cfg s) {cb : Callback} (hen : enabled s cb = true)
    (hrun : dispatch cfg cb s w = .ret () s' []) : LiveInv cfg s' := by
  have hboth := wp_and (step_safe (w := w) h.toPairInv hen)
    (wp_dispatch.mpr (callback_swept (n := fuelFor w) (w := w) h.toPairInv h.swept cb))
  rw [wp] at hboth
  rw [hrun] at hboth
  exact ⟨hboth.1, hboth.2⟩

theorem LiveInv.processPendingClose (h : LiveInv cfg s) (backendFirst : Bool) :
    LiveInv cfg (processPendingClose backendFirst s) :=
  ⟨h.toPairInv.processPendingClose backendFirst,
    swept_processPendingClose h.settled.steady.toCore h.swept backendFirst⟩

/-- One step of the loop keeps the invariant of every pair. -/
theorem LoopStep.live {cs ds : List Conn} (h : LoopStep cs ds)
    (hi : ∀ c ∈ cs, LiveInv c.cfg c.pair) : ∀ c ∈ ds, LiveInv c.cfg c.pair := by
  cases h with
  | accept _ cfg now mods =>
      intro c hc
      rcases List.mem_append.mp hc with hc | hc
      · exact hi c hc
      · rw [List.mem_singleton.mp hc]
        exact .newPair
  | @callback as bs c cb w p _ hen hrun =>
      intro d hd
      rcases List.mem_append.mp hd with hd | hd
      · exact hi d (List.mem_append_left _ hd)
      · rcases List.mem_cons.mp hd with rfl | hd
        · exact (hi c (by simp)).dispatch hen hrun
        · exact hi d (by simp [hd])
  | processPendingClose _ order =>
      intro d hd
      obtain ⟨i, hlt, rfl⟩ := List.mem_mapIdx.mp hd
      exact (hi _ (List.getElem_mem hlt)).processPendingClose (order i)

theorem LoopReachable.live {cs : List Conn} (h : LoopReachable cs) :
    ∀ c ∈ cs, LiveInv c.cfg c.pair := by
  induction h with
  | init => exact fun c hc => (by cases hc)
  | step _ hstep ih => exact hstep.live ih

/-- The two halves of a pair: a client lives while it is registered, a backend while its
    object is there. -/
structure PeerLinks (s : Pair) : Prop where
  /-- `C.backend_ = B` gives `B` alive and `B.client_ = C` -/
  toBackend : s.clientMask.isSome = true → s.client.hasBackend = true →
    ∃ b, s.backend = some b ∧ s.backendMask.isSome = true ∧ b.hasClient = true
  /-- `B.client_ = C` gives `C` alive and `C.backend_ = B` -/
  toClient : ∀ b, s.backend = some b → b.hasClient = true →
    s.clientMask.isSome = true ∧ s.client.hasBackend = true
  /-- a backend without a client is in `pending_close_` -/
  orphan : ∀ b, s.backend = some b → b.hasClient = false → s.backendPending = true
  /-- so is a closed client -/
  closed : s.clientMask.isSome = true → s.client.closed = true → s.clientPending = true

theorem LiveInv.links (h : LiveInv cfg s) : PeerLinks s := by
  have hs := h.settled.steady
  refine ⟨fun _ hlink => ?_, fun b hb hcl => ?_, h.settled.scheduled, fun hm hc => h.swept hc hm⟩
  · obtain ⟨b, hb, hcl⟩ := hs.linked hlink
    exact ⟨b, hb, h.settled.backendIn (by simp [hb]), hcl⟩
  · have hlink := hs.linkedBack b hb hcl
    refine ⟨h.settled.clientIn ?_, hlink⟩
    cases hc : s.client.closed with
    | false => rfl
    | true =>
        rw [hs.closedCut hc] at hlink
        cases hlink

/-- After every step of a loop, the peer links of every pair are sound. -/
theorem peer_links_sound {cs : List Conn} (h : LoopReachable cs) : ∀ c ∈ cs, PeerLinks c.pair :=
  fun c hc => (h.live c hc).links

theorem peer_links_sound_demo : ∃ b, demoPair.backend = some b ∧ b.hasClient = true := by
  have hlinks := peer_links_sound demoPair_reachable.loop ⟨demoCfg, demoPair⟩ (by simp)
  obtain ⟨b, hb, -, hcl⟩ := hlinks.toBackend (by decide +kernel) (by decide +kernel)
  exact ⟨b, hb, hcl⟩

/-! ## Deferred destruction -/

/-- The pair's entries of `handlers_` are the same, and no backend was opened. -/
def SameEntries (s s' : Pair) : Prop :=
  s'.clientMask.isSome = s.clientMask.isSome ∧ s'.backendMask.isSome = s.backendMask.isSome ∧
    s'.backend.isSome = s.backend.isSome

theorem RespFrame.sameEntries (h : RespFrame s s') : SameEntries s s' := by
  refine ⟨h.masks.1, h.masks.2, ?_⟩
  have hq : s'.backend.map _ = s.backend.map _ := congrArg Upload.queue h.upload
  have := congrArg Option.isSome hq
  rwa [Option.isSome_map, Option.isSome_map] at this

/-- A `check_timeout` answers, cuts and schedules; it registers and destroys nothing. -/
theorem checkTimeout_sameEntries (h : PairInv cfg s) {cb : Callback} {now : Nat}
    (hcb : cb = .clientTimeout now ∨ cb = .backendTimeout now) (hen : enabled s cb = true) :
    wp (dispatch cfg cb) (fun _ s' _ => SameEntries s s') (fun _ s' => SameEntries s s') s w := by
  have hrun : wp (dispatch cfg cb) (fun _ s' _ => SameEntries s s')
      (fun e s' => e = .fuel ∨ SameEntries s s') s w := by
    rw [wp_dispatch]
    rcases hcb with rfl | rfl
    · simp only [callback, wp_modify]
      split
      · exact RespFrame.closeBoth.sameEntries
      · exact ⟨rfl, rfl, rfl⟩
    · obtain ⟨b, hb⟩ := h.registered hen
      simp only [callback, wp_bind, wp_self hb, wp_ite, wp_pure]
      refine ⟨fun _ => ?_, fun _ => ⟨rfl, rfl, rfl⟩⟩
      refine wp_mono ((resp_specs cfg (fuelFor w)).fail s w _ h.settled.steady (by simp [hb]))
        (fun _ _ _ hp => hp.1.frame.sameEntries) ?_
      rintro e s' (he | ⟨-, -, hf⟩)
      · exact .inl he
      · exact .inr hf.sameEntries
  refine wp_mono (wp_and hrun (dispatch_fuel cb)) (fun _ _ _ hh => hh.1) ?_
  exact fun e s' hh => hh.1.resolve_left hh.2

/-- The calls of a `check_timeout` into the loop. -/
def EventLoop.Op.ofSweep : EventLoop.Op → Bool
  | .update _ => true
  | .requestClose _ => true
  | _ => false

theorem EventLoop.sweep_handlers (ops : List EventLoop.Op) :
    ∀ l : EventLoop, (∀ x ∈ ops, x.ofSweep = true) →
      (ops.foldl EventLoop.op l).handlers = l.handlers := by
  induction ops with
  | nil => exact fun _ _ => rfl
  | cons x ops ih =>
      intro l hall
      have hx := hall x (by simp)
      rw [List.foldl_cons, ih _ fun y hy => hall y (List.mem_cons_of_mem _ hy)]
      cases x with
      | update fd => rfl
      | requestClose fd => rfl
      | create fd => cases hx
      | close fd => cases hx
      | add fd ok => cases hx

/-- In every state of the loop: what is still to be dispatched is alive and nothing dangling
    has been; no entry of `handlers_` was replaced, and a descriptor just created is no key;
    every step but `process_pending_close` leaves the registered handlers registered and
    alive; the sweep leaves `handlers_` as it is; and `process_pending_close` leaves nothing
    that was scheduled.  The calls of a sweep are those of `check_timeout`, which moves no
    entry of its pair, wherever it is observed. -/
theorem deferred_destruction :
    (∀ ls : List EventLoop.Step,
      (∀ obj, some obj ∈ (EventLoop.run ls).todo → (EventLoop.run ls).live obj = true) ∧
      (EventLoop.run ls).dangling = false ∧ (EventLoop.run ls).replaced = false ∧
      (∀ fd, (EventLoop.run ls).fds fd = .held → (EventLoop.run ls).handlers fd = none) ∧
      (∀ l, l ≠ .processPendingClose → ∀ fd obj, (EventLoop.run ls).handlers fd = some obj →
        ((EventLoop.run ls).step l).handlers fd = some obj ∧
        ((EventLoop.run ls).step l).live obj = true) ∧
      (∀ ops : List EventLoop.Op, (∀ x ∈ ops, x.ofSweep = true) →
        (ops.foldl EventLoop.op (EventLoop.run ls)).handlers = (EventLoop.run ls).handlers) ∧
      ((EventLoop.run ls).todo = [] →
        ((EventLoop.run ls).step .processPendingClose).pendingClose = [] ∧
        ∀ fd ∈ (EventLoop.run ls).pendingClose,
          ((EventLoop.run ls).step .processPendingClose).handlers fd = none)) ∧
    ∀ cfg p cb now w, Reachable cfg p → (cb = .clientTimeout now ∨ cb = .backendTimeout now) →
      enabled p cb = true →
      wp (dispatch cfg cb) (fun _ p' _ => SameEntries p p') (fun _ p' => SameEntries p p') p w := by
  refine ⟨fun ls => ?_, fun _ _ _ _ _ hreach hcb hen => checkTimeout_sameEntries hreach.inv hcb hen⟩
  have h := EventLoop.inv_run ls
  refine ⟨fun obj hobj => ?_, h.dangling, h.replaced, fun fd hheld => h.held hheld,
    fun l hl => (h.step l).2 hl, fun ops hall => EventLoop.sweep_handlers ops _ hall,
    fun htodo => EventLoop.processPendingClose_spec h htodo⟩
  obtain ⟨fd, hkey⟩ := h.todo obj hobj
  exact (h.keys fd obj hkey).1

end CastlePlus
