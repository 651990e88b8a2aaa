import LinuxChat.Logic.Uninterrupted
import LinuxChat.Theorems.Isolation

/-!
# The levels of the server

The server is described at three grains: threads that share the file-level
variables of clientthread.c (`sessionMachine`), frames handled in one piece
(`frameMachine`), and the critical sections of logins, texts and departures
(`chatMachine`). As long as no session gets in the way of another one, the
first does what the second does (`sessions_sequential`); and whatever the
second does, the third can do (`frames_interleaved`).
-/

namespace LinuxChat

open CMem Trace

variable {cfg : Config} {w w' : World} {r : SessionOut} {h : History SessionAct SessionOut}
  {k : History FrameEvent Handled} {sv sv' : Server} {s : Chat}

/-! ## Sessions as frames -/

/-- A history of sessions, read sequentially: the entry of the latest session, what the latest
failed header read returned, and the events. -/
structure Reading where
  entry : UserPtr
  status : Int
  events : List FrameEvent

/-- The event of the sequential server that a step of the threads is read as. -/
def Reading.next (x : Reading) : SessionAct → Reading
  | .start t fd p => { x with entry := p, events := x.events ++ [.connect p t (toU16 fd)] }
  | .iterate t f env =>
      { x with events := x.events ++ [.frame x.entry f { env with thread := t }] }
  | .hangUp _ status => { x with status }
  | .finish t env =>
      { x with events := x.events ++ [.disconnect x.entry x.status { env with thread := t }] }

/-- The sequential reading of a history. -/
def reading (h : History SessionAct SessionOut) : Reading :=
  h.foldl (fun x e => x.next e.1) ⟨0, 0, []⟩

@[simp] theorem reading_nil : reading [] = ⟨0, 0, []⟩ := rfl

@[simp] theorem reading_snoc (h : History SessionAct SessionOut) (e : SessionAct × SessionOut) :
    reading (h ++ [e]) = (reading h).next e.1 := by
  simp [reading, List.foldl_append]

/-- What is done to the outside, the calls that wait for input left out. -/
def effects (out : List Output) : List Output :=
  out.filter fun x => !(x matches .recv _ | .read _)

@[simp] theorem effects_append (out out' : List Output) :
    effects (out ++ out') = effects out ++ effects out' :=
  List.filter_append ..

/-- The sequential server has taken the same steps and is in the same state. -/
structure Sequential (h : History SessionAct SessionOut) (w : World)
    (k : History FrameEvent Handled) (sv : Server) : Prop where
  owned : Owned h w
  server : sv = w.server
  events : k.map Prod.fst = (reading h).events
  effects : effects (k.flatMap fun e => e.2.out) = effects (h.flatMap fun e => e.2.out)
  defined : ∀ e ∈ h, e.2.fault = false
  self : ∀ t fd phase, lastStart h = some t → w.threads t = some (fd, phase) →
    w.self = some (reading h).entry
  ended : ∀ t fd, lastStart h = some t → w.threads t = some (fd, .ended) →
    LoopLeft (reading h).status w

theorem sequential_init : Sequential [] World.init [] Server.init where
  owned := owned_init
  server := rfl
  events := rfl
  effects := rfl
  defined := by simp
  self := by simp [lastStart]
  ended := by simp [lastStart]

/-- The start of a session is a connection of the sequential server. -/
theorem sequential_start {t fd : Nat} {p : UserPtr} (hrel : Sequential h w k sv)
    (hg : alone h w (.start t fd p))
    (hstep : sessionStep cfg w (.start t fd p) = some (w', r)) :
    ∃ o, frameStep cfg sv (.connect p t fd) = some (w'.server, o) ∧
      Sequential (h ++ [(.start t fd p, r)]) w' (k ++ [(.connect p t fd, o)]) w'.server := by
  have hnone : w.server.users.findUser fd = none := hg.2
  have howned := owned_step hrel.owned hg hstep
  obtain ⟨hp, hserver, hself, -, hthreads, rfl⟩ := sessionStep_start hstep hg
  have hsv := hrel.server
  subst hsv
  refine ⟨⟨w'.server, .zero, [], []⟩, ?_, howned, rfl, ?_, ?_, ?_, ?_, ?_⟩
  · rw [hserver]
    simp only [frameStep, dif_neg hp, hnone, UserList.createUser]
    rfl
  · simp [hrel.events, Reading.next, toU16_of_lt hg.1]
  · simpa using hrel.effects
  · simpa [or_imp, forall_and] using hrel.defined
  · intro t' fd' phase _ _
    simp [Reading.next, hself]
  · intro t' fd' hlast hthread
    rw [lastStart_snoc, Option.some.injEq] at hlast
    subst hlast
    rw [hthreads, Function.update_self] at hthread
    cases hthread

/-- An iteration of a session is a frame of the sequential server. -/
theorem sequential_iterate {t : Nat} {f : Frame} {env : Env} (hrel : Sequential h w k sv)
    (hg : alone h w (.iterate t f env))
    (hstep : sessionStep cfg w (.iterate t f env) = some (w', r)) :
    ∃ e o, frameStep cfg sv e = some (w'.server, o) ∧
      Sequential (h ++ [(.iterate t f env, r)]) w' (k ++ [(e, o)]) w'.server := by
  have howned := owned_step hrel.owned hg hstep
  obtain ⟨fd, hthread, hcurrent⟩ := sessionStep_iterate hstep
  obtain ⟨p, u, hself, hu, hcur⟩ := current_of_owned hrel.owned hg hthread
  obtain ⟨hself', hthreads', -, hserver, rfl⟩ := hcurrent p u hcur
  have hentry : (reading h).entry = p :=
    Option.some.inj ((hrel.self t fd .running hg hthread).symm.trans hself)
  have hsv := hrel.server
  subst hsv
  refine ⟨.frame p f { env with thread := t },
    clientPass cfg { env with thread := t } p u w.server f.received, ?_, howned, rfl, ?_, ?_, ?_,
    ?_, ?_⟩
  · simp only [frameStep, hu.entry, hserver]
  · simp [hrel.events, Reading.next, hentry]
  · simp [hrel.effects]
  · simpa [or_imp, forall_and] using hrel.defined
  · intro t' fd' phase _ _
    simp [Reading.next, hself', hself, hentry]
  · intro t' fd' hlast hthread'
    -- Its thread is the only one that counts, and is still in the loop.
    obtain rfl : t = t' := Option.some.inj (hg.symm.trans (by simpa using hlast))
    rw [hthreads', hthread] at hthread'
    cases hthread'

/-- The end of a loop changes nothing. -/
theorem sequential_hangUp {t : Nat} {status : Int} (hrel : Sequential h w k sv)
    (hg : alone h w (.hangUp t status))
    (hstep : sessionStep cfg w (.hangUp t status) = some (w', r)) :
    Sequential (h ++ [(.hangUp t status, r)]) w' k sv := by
  have howned := owned_step hrel.owned hg hstep
  obtain ⟨fd, hthread, hcurrent⟩ := sessionStep_hangUp hstep
  obtain ⟨p, u, -, -, hcur⟩ := current_of_owned hrel.owned hg hthread
  obtain ⟨hself', -, -, hleft, hserver, rfl⟩ := hcurrent p u hcur
  have hself := hrel.self t fd .running hg hthread
  refine ⟨howned, hrel.server.trans hserver.symm, ?_, ?_, ?_, ?_, ?_⟩
  · simp [hrel.events, Reading.next]
  · rw [hrel.effects]
    simp [effects]
  · simpa [or_imp, forall_and] using hrel.defined
  · intro t' fd' phase _ _
    simp [Reading.next, hself', hself]
  · intro t' fd' _ _
    rw [reading_snoc]
    exact hleft

/-- A teardown is the end of a connection. -/
theorem sequential_finish {t : Nat} {env : Env} (hrel : Sequential h w k sv)
    (hg : alone h w (.finish t env))
    (hstep : sessionStep cfg w (.finish t env) = some (w', r)) :
    ∃ e o, frameStep cfg sv e = some (w'.server, o) ∧
      Sequential (h ++ [(.finish t env, r)]) w' (k ++ [(e, o)]) w'.server := by
  have howned := owned_step hrel.owned hg hstep
  obtain ⟨fd, hthread, hcurrent⟩ := sessionStep_finish hstep
  obtain ⟨p, u, hself, hu, hcur⟩ := current_of_owned hrel.owned hg hthread
  obtain ⟨hthreads', r₀, hr₀, hserver, rfl⟩ := hcurrent p u hcur
  have hreason := hrel.owned.reason t fd .ended hg hthread
  have hleft := hrel.ended t fd hg hthread
  have hentry : (reading h).entry = p :=
    Option.some.inj ((hrel.self t fd .ended hg hthread).symm.trans hself)
  rw [hleft.returned, hreason, hleft.noMessage] at hr₀
  have hsv := hrel.server
  subst hsv
  refine ⟨.disconnect p (reading h).status { env with thread := t }, r₀, ?_, howned, rfl, ?_, ?_,
    ?_, ?_, ?_⟩
  · simp only [frameStep, hu.entry, if_neg (not_lt.mpr hleft.failed), hserver, hr₀]
  · simp [hrel.events, Reading.next, hentry]
  · simp [hrel.effects]
  · simpa [or_imp, forall_and] using hrel.defined
  -- No thread counts until the next start.
  · intro t' fd' phase hlast hthread'
    obtain rfl : t = t' := Option.some.inj (hg.symm.trans (by simpa using hlast))
    rw [hthreads', Function.update_self] at hthread'
    cases hthread'
  · intro t' fd' hlast hthread'
    obtain rfl : t = t' := Option.some.inj (hg.symm.trans (by simpa using hlast))
    rw [hthreads', Function.update_self] at hthread'
    cases hthread'

/-- One step of the sequential server. -/
theorem frame_continues {e : FrameEvent} {o : Handled}
    (hframe : frameStep cfg sv e = some (sv', o)) :
    Continues (frameMachine cfg) anyStep k sv [(e, o)] sv' :=
  .single trivial hframe

/-- **Sessions that leave each other alone are the sequential server.** A run of the session
threads in which every new descriptor fits a `u16` and is new to the list, and no session takes a
step after another one has started, has no fault, and is a run of the sequential server: the same
events, read off the history, the same effects in the same order, and the same users, queue and
pause. -/
theorem sessions_sequential (hrun : Run (sessionMachine cfg) alone h w) :
    (∀ e ∈ h, e.2.fault = false) ∧ ∃ k, Run (frameMachine cfg) anyStep k w.server ∧
      k.map Prod.fst = (reading h).events ∧
      effects (k.flatMap fun e => e.2.out) = effects (h.flatMap fun e => e.2.out) := by
  have hfollow : ∃ k sv, Run (frameMachine cfg) anyStep k sv ∧ Sequential h w k sv := by
    apply hrun.refines sequential_init
    intro h w act w' r k sv hrel hg hstep
    replace hstep : sessionStep cfg w act = some (w', r) := hstep
    cases act with
    | start t fd p =>
        obtain ⟨o, hframe, hrel'⟩ := sequential_start hrel hg hstep
        exact ⟨_, _, frame_continues hframe, hrel'⟩
    | iterate t f env =>
        obtain ⟨e, o, hframe, hrel'⟩ := sequential_iterate hrel hg hstep
        exact ⟨_, _, frame_continues hframe, hrel'⟩
    | hangUp t status =>
        refine ⟨[], sv, .refl, ?_⟩
        rw [List.append_nil]
        exact sequential_hangUp hrel hg hstep
    | finish t env =>
        obtain ⟨e, o, hframe, hrel'⟩ := sequential_finish hrel hg hstep
        exact ⟨_, _, frame_continues hframe, hrel'⟩
  obtain ⟨k, sv, hrun', hrel⟩ := hfollow
  have hsv := hrel.server
  subst hsv
  exact ⟨hrel.defined, k, hrun', hrel.events, hrel.effects⟩

/-- One client connects, logs in and goes. -/
theorem sessions_sequential_one :
    ∃ h w, Run (sessionMachine .default) alone h w ∧ h.length = 4 ∧
      (∀ e ∈ h, e.2.fault = false) ∧ ∃ k, Run (frameMachine .default) anyStep k w.server ∧
        k.map Prod.fst = (reading h).events ∧
        effects (k.flatMap fun e => e.2.out) = effects (h.flatMap fun e => e.2.out) := by
  obtain ⟨h, w, hrun, hP⟩ := Run.exists_of_replay
    (M := sessionMachine .default) (G := alone)
    [.start 1 5 1, .iterate 1 (.login 8 (lit "bob")) ⟨1, 0, [], []⟩, .hangUp 1 0,
      .finish 1 ⟨1, 0, [], []⟩]
    (fun h _ => h.length == 4) (by decide +kernel)
  exact ⟨h, w, hrun, beq_iff_eq.mp hP, sessions_sequential hrun⟩

/-! ## Frames as interleaved steps -/

/-- Connections, logins, texts and departures, and the agent: all but the commands and the frames
that fail the checks. -/
def chatting : Guard Server FrameEvent Handled := fun _ _ e =>
  match e with
  | .frame _ f _ => f.code = .receivedLogin ∨ f.code = .receivedMessage
  | _ => True

instance (k : History FrameEvent Handled) (sv : Server) : (e : FrameEvent) →
    Decidable (chatting k sv e)
  | .frame _ f _ =>
      inferInstanceAs (Decidable (f.code = .receivedLogin ∨ f.code = .receivedMessage))
  | .connect .. | .disconnect .. | .deliver => inferInstanceAs (Decidable True)

/-- Nothing is under way, and the state is that of the sequential server. -/
structure AtRest (s : Chat) (sv : Server) : Prop where
  server : s.server = sv
  idle : ∀ p, s.Idle p
  receiving : s.bus.agent = .receiving
  token : s.bus.tokens = 1
  unpaused : s.bus.paused = false

theorem atRest_init : AtRest Chat.init Server.init where
  server := rfl
  idle := fun _ => ⟨rfl, rfl⟩
  receiving := rfl
  token := rfl
  unpaused := rfl

/-- A pass that is put in one piece leaves nothing under way. -/
theorem AtRest.put (hrest : AtRest s sv) (p : UserPtr) {sent : List CombinedMessage}
    (hpaused : sv'.broadcastPaused = sv.broadcastPaused) : AtRest (s.put p sv' sent) sv' where
  server := by
    have hold := hrest.server
    subst hold
    show (⟨sv'.users, sv'.queue, s.bus.paused⟩ : Server) = sv'
    rw [show s.bus.paused = sv'.broadcastPaused from hpaused.symm]
  idle := hrest.idle
  receiving := hrest.receiving
  token := hrest.token
  unpaused := hrest.unpaused

/-- A delivery of the agent, uninterrupted. -/
theorem deliver_uninterrupted {m : QueueMessage} {queue : List QueueMessage}
    (hrest : AtRest s sv) (hqueue : s.bus.queue = m :: queue) :
    chatMachine.after s [.bus .receive, .bus .wait, .bus .deliver, .bus .post] =
      some { s with
        bus := { s.bus with queue, buffer := some m }
        inbox := deliverTo s (.delivered (some m)) } := by
  have hagent := hrest.receiving
  have htoken := hrest.token
  rw [Machine.after_cons (o := ()) (by
    simp only [chatMachine, chatStep, broadcastStep, hagent, hqueue, Option.map_some]; rfl)]
  rw [Machine.after_cons (o := ()) (by
    simp only [chatMachine, chatStep, broadcastStep, htoken]; rfl)]
  rw [Machine.after_cons (o := ()) (by simp only [chatMachine, chatStep, broadcastStep]; rfl)]
  rw [Machine.after_cons (o := ()) (by simp only [chatMachine, chatStep, broadcastStep]; rfl)]
  simp only [Machine.after, deliverTo, htoken, hagent]

/-- Actions taken one directly after the other follow a step that they leave the state of. -/
theorem follow_of_after {acts : List ChatAct} {t : Chat}
    (hafter : chatMachine.after s acts = some t) (hrest : AtRest t sv')
    (k₀ : History ChatAct Unit) :
    ∃ k t, Continues chatMachine anyStep k₀ s k t ∧ AtRest t sv' := by
  obtain ⟨k, -, hcont⟩ := Continues.of_after k₀ hafter
  exact ⟨k, t, hcont, hrest⟩

variable {k₀ : History ChatAct Unit} {o : Handled}

theorem follow_connect {p : UserPtr} {thread sock : Nat} (hrest : AtRest s sv)
    (hstep : frameStep cfg sv (.connect p thread sock) = some (sv', o)) :
    ∃ k t, Continues chatMachine anyStep k₀ s k t ∧ AtRest t sv' := by
  have hsv := hrest.server
  subst hsv
  obtain ⟨hp, -, hnone, -⟩ := frameStep_connect hstep
  have hp' : p ∉ s.users.keys := hp
  have hnone' : s.users.findUser sock = none := hnone
  have hafter : chatMachine.after s [.connect p thread sock] = some { s with
      users := (s.users.createUser p thread sock hp').2
      inbox := Function.update s.inbox p [] } := by
    simp only [Machine.after, chatMachine, chatStep, dif_neg hp', hnone']
    rfl
  refine follow_of_after hafter ⟨?_, hrest.idle, hrest.receiving, hrest.token, hrest.unpaused⟩ k₀
  simp only [frameStep, dif_neg hp, hnone] at hstep
  cases hstep
  rfl

theorem follow_frame {p : UserPtr} {f : Frame} {env : Env} (hrest : AtRest s sv)
    (hg : f.code = .receivedLogin ∨ f.code = .receivedMessage)
    (hstep : frameStep cfg sv (.frame p f env) = some (sv', o)) :
    ∃ k t, Continues chatMachine anyStep k₀ s k t ∧ AtRest t sv' := by
  have hsv := hrest.server
  subst hsv
  obtain ⟨u, hu, rfl, rfl⟩ := frameStep_frame hstep
  have hidle := hrest.idle p
  by_cases hacc : AcceptedLogin s.users f env
  · refine follow_of_after (login_uninterrupted hu hidle hacc cfg) (hrest.put p ?_) k₀
    have hacc' : AcceptedLogin s.server.users f env := hacc
    rw [clientPass_login hacc']
  rcases hg with hlogin | htext
  · -- A refused login changes nothing.
    have hrefused : ¬ loginResponse s.users (loginMem env f.msg f.announced) = .success :=
      fun hresp => hacc ⟨hlogin, hresp⟩
    have hafter : chatMachine.after s [.scan p f env] = some s := by
      have hkey : s.Idle p ∧ p ∈ s.users.keys := ⟨hidle, Table.mem_keys_iff.mpr ⟨u, hu⟩⟩
      have hscan : chatMachine.step s (.scan p f env) = some (s, ()) := by
        simp only [chatMachine, chatStep, f.received_eq, hlogin, if_pos hkey]
        exact if_neg hrefused
      rw [Machine.after_cons hscan]
      rfl
    refine follow_of_after hafter ⟨?_, hrest.idle, hrest.receiving, hrest.token, hrest.unpaused⟩ k₀
    rw [f.received_eq]
    simp only [clientPass, hlogin, handleFrame_login]
    have hrefused' : ¬ loginResponse s.server.users (loginMem env f.msg f.announced) = .success :=
      hrefused
    rw [if_neg hrefused']
  · refine follow_of_after (say_uninterrupted hu hidle htext cfg env) (hrest.put p ?_) k₀
    rw [f.received_eq]
    simp only [clientPass, htext, handleFrame, handleMessage]

theorem follow_disconnect {p : UserPtr} {status : Int} {env : Env} (hrest : AtRest s sv)
    (hstep : frameStep cfg sv (.disconnect p status env) = some (sv', o)) :
    ∃ k t, Continues chatMachine anyStep k₀ s k t ∧ AtRest t sv' := by
  have hsv := hrest.server
  subst hsv
  obtain ⟨u, hu, -, rfl, rfl⟩ := frameStep_disconnect hstep
  refine follow_of_after (departure_uninterrupted hu (hrest.idle p) env status .communicationError)
    ⟨rfl, hrest.idle, hrest.receiving, hrest.token, hrest.unpaused⟩ k₀

theorem follow_deliver (hrest : AtRest s sv)
    (hstep : frameStep cfg sv .deliver = some (sv', o)) :
    ∃ k t, Continues chatMachine anyStep k₀ s k t ∧ AtRest t sv' := by
  have hsv := hrest.server
  subst hsv
  simp only [frameStep] at hstep
  split at hstep
  · cases hstep
  split at hstep
  · cases hstep
  · rename_i m queue hqueue
    cases hstep
    exact follow_of_after (deliver_uninterrupted hrest hqueue)
      ⟨rfl, hrest.idle, hrest.receiving, hrest.token, hrest.unpaused⟩ k₀

/-- **The sequential server is one of the interleavings.** For every run of the sequential server
without commands and refused frames there is a run of the threads and the agent, at the grain of
their critical sections, that ends with the same users and the same queue, every thread idle and
the agent about to receive. -/
theorem frames_interleaved (hrun : Run (frameMachine cfg) chatting k sv) :
    ∃ k' s, Run chatMachine anyStep k' s ∧ s.users = sv.users ∧ s.bus.queue = sv.queue ∧
      (∀ p, s.Idle p) ∧ s.bus.agent = .receiving := by
  have hfollow : ∃ k' s, Run chatMachine anyStep k' s ∧ AtRest s sv := by
    apply hrun.refines (R := fun _ sv _ s => AtRest s sv) atRest_init
    intro k sv e sv' o k₀ s hrest hg hstep
    replace hstep : frameStep cfg sv e = some (sv', o) := hstep
    cases e with
    | connect p thread sock => exact follow_connect hrest hstep
    | frame p f env => exact follow_frame hrest hg hstep
    | disconnect p status env => exact follow_disconnect hrest hstep
    | deliver => exact follow_deliver hrest hstep
  obtain ⟨k', s, hrun', hrest⟩ := hfollow
  have hsv := hrest.server
  subst hsv
  exact ⟨k', s, hrun', rfl, rfl, hrest.idle, hrest.receiving⟩

/-- Two clients log in, the first one's text is delivered, and the second one goes. -/
theorem frames_interleaved_two :
    ∃ k sv, Run (frameMachine .default) chatting k sv ∧ sv.users.keys.length = 1 ∧
      ∃ k' s, Run chatMachine anyStep k' s ∧ s.users = sv.users ∧ s.bus.queue = sv.queue ∧
        (∀ p, s.Idle p) ∧ s.bus.agent = .receiving := by
  obtain ⟨k, sv, hrun, hP⟩ := Run.exists_of_replay
    (M := frameMachine .default) (G := chatting)
    [.connect 1 1 5, .connect 2 2 6, .frame 1 (.login 8 (lit "bob")) ⟨1, 0, [], []⟩,
      .frame 2 (.login 8 (lit "tom")) ⟨2, 0, [], []⟩, .deliver,
      .frame 1 (.text 2 (lit "hi")) ⟨1, 0, [], []⟩, .deliver, .disconnect 2 0 ⟨2, 0, [], []⟩]
    (fun _ sv => sv.users.keys.length == 1) (by decide +kernel)
  exact ⟨k, sv, hrun, beq_iff_eq.mp hP, frames_interleaved hrun⟩

end LinuxChat
