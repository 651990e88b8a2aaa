import LinuxChat.Logic.Seats

/-!
# Roster agreement

A `UserAdd` goes through the queue, a `UserRemove` and the names for a
newcomer are sent at once, so the two can overtake each other, and a `UserAdd`
is lost when the queue is full. Where neither happens and nobody logs in
twice (`orderly`), every roster is between the names that are announced and
the names that are held (`Agreed`); when nothing is on its way the two are the
names of the logged-in users.
-/

namespace LinuxChat

open CMem Trace

/-- The entry is logged in, or its `UserRemove` is still to be sent. -/
def Holds (s : Chat) (q : UserPtr) (v : User) : Prop :=
  v.loggedIn = true ∨ s.phase q = .loggedOut ∧ v.nameLength ≠ 0

/-- Some entry holds the name. -/
def Held (s : Chat) (name : List UInt8) : Prop :=
  ∃ e ∈ s.users.entries, e.2.cname = name ∧ Holds s e.1 e.2

/-- The `UserAdd` for the name of `q` is still to be delivered. -/
def ToCome (s : Chat) (q : UserPtr) (name : List UInt8) : Prop :=
  s.phase q = .written ∨ (s.phase q = .announcing ∧ (s.bus.callers q).isSome = true) ∨
    ∃ m ∈ s.bus.hand ++ s.bus.queue, noticeOf m.msg = some (.added name)

instance (s : Chat) (q : UserPtr) (v : User) : Decidable (Holds s q v) :=
  inferInstanceAs (Decidable (_ ∨ _ ∧ _))

instance (s : Chat) (name : List UInt8) : Decidable (Held s name) :=
  inferInstanceAs (Decidable (∃ e ∈ s.users.entries, e.2.cname = name ∧ Holds s e.1 e.2))

instance (s : Chat) (q : UserPtr) (name : List UInt8) : Decidable (ToCome s q name) :=
  inferInstanceAs (Decidable (_ ∨ (_ ∧ _) ∨
    ∃ m ∈ s.bus.hand ++ s.bus.queue, noticeOf m.msg = some (.added name)))

/-- A login's `broadcast_message` finds room in the queue, and a `UserAdd` is delivered while
its name is held. -/
def orderlyBus (s : Chat) : BroadcastAct UserPtr QueueMessage → Prop
  | .test p => s.phase p = .announcing → s.bus.curmsgs < mqMaxmsg
  | .deliver => ∀ m ∈ s.bus.buffer, ∀ notice ∈ noticeOf m.msg, Held s notice.about
  | _ => True

/-- Logins are the first of their connection and fit into `login_name`; no `UserAdd` is refused
or delivered after the `UserRemove`; a `UserRemove` is sent while every other logged-in user of
the name has its `UserAdd` still to come. -/
def orderly : Guard Chat ChatAct Unit := fun h s act =>
  match act with
  | .scan p f env => firstLogins h s (.scan p f env)
  | .bus a => orderlyBus s a
  | .notify p _ _ => ∀ u ∈ s.users.get? p, u.nameLength ≠ 0 → ∀ e ∈ s.users.entries,
      e.2.loggedIn = true → e.2.cname = u.cname → ToCome s e.1 e.2.cname
  | _ => True

instance (s : Chat) : (a : BroadcastAct UserPtr QueueMessage) → Decidable (orderlyBus s a)
  | .test p => inferInstanceAs (Decidable (s.phase p = .announcing → s.bus.curmsgs < mqMaxmsg))
  | .deliver => inferInstanceAs (Decidable
      (∀ m ∈ s.bus.buffer, ∀ notice ∈ noticeOf m.msg, Held s notice.about))
  | .getattr .. | .send _ | .receive | .receiveFails | .wait | .post | .pauseTest | .pauseWait
  | .pauseFlag | .resumeTest | .resumePost | .resumeFlag => isTrue trivial

instance (h : History ChatAct Unit) (s : Chat) : (act : ChatAct) → Decidable (orderly h s act)
  | .scan p f env => inferInstanceAs (Decidable (AcceptedLogin s.users f env →
      f.announced ≤ 36 ∧ ∀ u ∈ s.users.get? p, u.loggedIn = false))
  | .bus a => inferInstanceAs (Decidable (orderlyBus s a))
  | .notify p _ _ => inferInstanceAs (Decidable (∀ u ∈ s.users.get? p, u.nameLength ≠ 0 →
      ∀ e ∈ s.users.entries, e.2.loggedIn = true → e.2.cname = u.cname →
        ToCome s e.1 e.2.cname))
  | .connect .. | .write _ | .announce .. | .snapshot .. | .say .. | .logout _ | .remove _ =>
      isTrue trivial

/-- The queue is empty, the agent holds no message, no login or teardown is in progress. -/
structure Quiescent (s : Chat) : Prop where
  queue : s.bus.queue = []
  hand : s.bus.hand = []
  idle : ∀ p ∈ s.users.keys, s.phase p = .idle

instance (s : Chat) : Decidable (Quiescent s) :=
  decidable_of_iff (s.bus.queue = [] ∧ s.bus.hand = [] ∧ ∀ p ∈ s.users.keys, s.phase p = .idle)
    ⟨fun ⟨hqueue, hhand, hidle⟩ => ⟨hqueue, hhand, hidle⟩, fun ⟨hqueue, hhand, hidle⟩ =>
      ⟨hqueue, hhand, hidle⟩⟩

/-- The names of the logged-in users. -/
def loggedInNames (l : UserList) : Finset (List UInt8) :=
  (l.loggedInUsers.map fun e => e.2.cname).toFinset

/-! ## The invariant -/

/-- Rosters list held names only, and every logged-in name that is not still to come. -/
structure Agreed (s : Chat) : Prop where
  seated : Seated s
  clean : ∀ m, s.bus.Carries m → m.sender = none ∧ ∀ k, noticeOf m.msg ≠ some (.removed k)
  calls : ∀ p u φ m, s.users.get? p = some u → s.phase p = .announcing →
    s.bus.callers p = some (φ, m) → noticeOf m.msg = some (.added u.cname)
  sound : ∀ p u name, s.users.get? p = some u → u.loggedIn = true →
    name ∈ rosterOf (s.inbox p) → Held s name
  complete : ∀ p u q v, s.users.get? p = some u → u.loggedIn = true → s.phase p = .idle →
    s.users.get? q = some v → v.loggedIn = true → p ≠ q →
    v.cname ∈ rosterOf (s.inbox p) ∨ ToCome s q v.cname

variable {s s' : Chat} {p q : UserPtr} {u v : User} {name : List UInt8}

theorem held_iff : Held s name ↔
    ∃ q v, s.users.get? q = some v ∧ v.cname = name ∧ Holds s q v := by
  simp only [Held, Prod.exists, Table.get?_eq_some_iff]

/-- Held names stay held where their entries do. -/
theorem Held.of_entries
    (hentries : ∀ q v, s.users.get? q = some v → Holds s q v →
      ∃ v', s'.users.get? q = some v' ∧ v'.cname = v.cname ∧ Holds s' q v')
    (h : Held s name) : Held s' name := by
  obtain ⟨q, v, hv, hname, hholds⟩ := held_iff.mp h
  obtain ⟨v', hv', hname', hholds'⟩ := hentries q v hv hholds
  exact held_iff.mpr ⟨q, v', hv', hname'.trans hname, hholds'⟩

theorem Holds.congr (hphase : s'.phase q = s.phase q) (h : Holds s q v) : Holds s' q v := by
  unfold Holds at h ⊢
  rwa [hphase]

theorem Holds.loggedIn (h : Holds s q v) (hphase : s.phase q ≠ .loggedOut) : v.loggedIn = true :=
  h.resolve_right fun hout => hphase hout.1

theorem ToCome.congr (hphase : s'.phase q = s.phase q) (hbus : s'.bus = s.bus)
    (h : ToCome s q name) : ToCome s' q name := by
  unfold ToCome at h ⊢
  rwa [hphase, hbus]

/-- A `UserAdd` on its way stays on its way, or is what the agent has just delivered. -/
theorem ToCome.bus {t : Chat} (hinv : Agreed s) {a : BroadcastAct UserPtr QueueMessage}
    {bus : Broadcast UserPtr QueueMessage} {o : BroadcastOut QueueMessage}
    (hstep : broadcastStep s.bus a = some (bus, o))
    (hroom : ∀ c, a = .test c → s.phase c = .announcing → s.bus.curmsgs < mqMaxmsg)
    (hphase : t.phase q = s.phase q) (hbus : t.bus = bus) (hv : s.users.get? q = some v)
    (h : ToCome s q v.cname) :
    ToCome t q v.cname ∨
      ∃ m, o = .delivered (some m) ∧ noticeOf m.msg = some (.added v.cname) := by
  unfold ToCome at h ⊢
  rw [hphase, hbus]
  rcases h with hwritten | ⟨hann, hcall⟩ | ⟨m, hm, hnotice⟩
  · exact .inl (.inl hwritten)
  · obtain ⟨⟨φ, m⟩, hcall⟩ := Option.isSome_iff_exists.mp hcall
    rcases broadcastStep_caller hstep hcall with ⟨φ', hcall'⟩ | ⟨ha, hfull⟩ | hm
    · exact .inl (.inr (.inl ⟨hann, by rw [hcall']; rfl⟩))
    · exact absurd (hroom q ha hann) hfull
    · exact .inl (.inr (.inr
        ⟨m, List.mem_append_right _ hm, hinv.calls q v φ m hv hann hcall⟩))
  · rcases broadcastStep_onWay hstep hm with hm | hdelivered
    · exact .inl (.inr (.inr ⟨m, hm, hnotice⟩))
    · exact .inr ⟨m, hdelivered, hnotice⟩

/-! ## Steps of the agent and of a sender -/

/-- What the agent's deliveries add to a roster. -/
theorem mem_rosterOf_deliverTo (hu : s.users.get? p = some u) (hin : u.loggedIn = true)
    {o : BroadcastOut QueueMessage} (hclean : ∀ m, o = .delivered (some m) →
      m.sender = none ∧ ∀ k, noticeOf m.msg ≠ some (.removed k)) :
    name ∈ rosterOf (deliverTo s o p) ↔
      (∃ m, o = .delivered (some m) ∧ noticeOf m.msg = some (.added name)) ∨
        name ∈ rosterOf (s.inbox p) := by
  unfold deliverTo
  split
  · rename_i m
    obtain ⟨hsender, hadds⟩ := hclean m rfl
    rw [Chat.sendAll_of_get? hu, if_pos (by simp [hsender, hin])]
    cases hnotice : noticeOf m.msg with
    | none => simp [rosterOf_other hnotice, hnotice]
    | some notice =>
        cases notice with
        | added k => simp [mem_rosterOf_added hnotice, hnotice, eq_comm]
        | removed k => exact absurd hnotice (hadds k)
  · rename_i hno
    refine ⟨.inr, fun h => h.resolve_left ?_⟩
    rintro ⟨m, rfl, -⟩
    exact hno m rfl

theorem Agreed.clean_bus (hinv : Agreed s) {a : BroadcastAct UserPtr QueueMessage}
    {bus : Broadcast UserPtr QueueMessage} {o : BroadcastOut QueueMessage}
    (hstep : broadcastStep s.bus a = some (bus, o))
    (hnew : ∀ c m, a = .getattr c m → m.sender = none ∧ ∀ k, noticeOf m.msg ≠ some (.removed k))
    (m : QueueMessage) (hm : bus.Carries m) :
    m.sender = none ∧ ∀ k, noticeOf m.msg ≠ some (.removed k) := by
  rcases broadcastStep_carries hstep hm with hold | ⟨c, ha⟩
  · exact hinv.clean m hold
  · exact hnew c m ha

/-- A step in `broadcastagent.c`, of the agent or of a thread that has no login on the way. -/
theorem agreed_bus (hinv : Agreed s) {a : BroadcastAct UserPtr QueueMessage}
    {bus : Broadcast UserPtr QueueMessage} {o : BroadcastOut QueueMessage}
    (hstep : broadcastStep s.bus a = some (bus, o))
    (hnew : ∀ c m, a = .getattr c m → s.phase c ≠ .announcing ∧
      m.sender = none ∧ ∀ k, noticeOf m.msg ≠ some (.removed k))
    (hg : orderlyBus s a) (hseated : Seated { s with bus, inbox := deliverTo s o }) :
    Agreed { s with bus, inbox := deliverTo s o } := by
  have hroom : ∀ c, a = .test c → s.phase c = .announcing → s.bus.curmsgs < mqMaxmsg := by
    rintro c rfl
    exact hg
  have hdelivered : ∀ m, o = .delivered (some m) → a = .deliver ∧ s.bus.buffer = some m := by
    rintro m rfl
    exact broadcastStep_delivered hstep
  have hclean : ∀ m, o = .delivered (some m) →
      m.sender = none ∧ ∀ k, noticeOf m.msg ≠ some (.removed k) :=
    fun m ho => hinv.clean m (.inl (hdelivered m ho).2)
  refine ⟨hseated, hinv.clean_bus hstep fun c m ha => (hnew c m ha).2, ?_, ?_, ?_⟩ <;> dsimp only
  · intro p u φ m hu hphase hcall
    rcases broadcastStep_caller_of hstep hcall with ⟨φ', hold⟩ | ha
    · exact hinv.calls p u φ' m hu hphase hold
    · exact absurd hphase (hnew p m ha).1
  · intro p u name hu hin hname
    rcases (mem_rosterOf_deliverTo hu hin hclean).mp hname with ⟨m, ho, hnotice⟩ | hname
    · obtain ⟨rfl, hbuffer⟩ := hdelivered m ho
      exact hg m hbuffer _ hnotice
    · exact hinv.sound p u name hu hin hname
  · intro p u q v hu hin hidle hv hvin hpq
    rw [mem_rosterOf_deliverTo hu hin hclean]
    rcases hinv.complete p u q v hu hin hidle hv hvin hpq with hname | hcome
    · exact .inl (.inr hname)
    · obtain hcome | hdelivered := hcome.bus
        (t := { s with bus, inbox := deliverTo s o }) hinv hstep hroom rfl rfl hv
      · exact .inr hcome
      · exact .inl (.inl hdelivered)

/-! ## Steps of one thread -/

/-- A step of the thread of `p` that sends nothing and takes no name away; if `p` is logged in
after it, its `UserAdd` is still to come. -/
theorem Agreed.move (hinv : Agreed s) (hseated : Seated s') (hbus : s'.bus = s.bus)
    (husers : ∀ q, q ≠ p → s'.users.get? q = s.users.get? q)
    (hphase : ∀ q, q ≠ p → s'.phase q = s.phase q) (hinbox : ∀ q, q ≠ p → s'.inbox q = s.inbox q)
    (hholds : ∀ v, s.users.get? p = some v → Holds s p v →
      ∃ v', s'.users.get? p = some v' ∧ v'.cname = v.cname ∧ Holds s' p v')
    (hself : ∀ u', s'.users.get? p = some u' → u'.loggedIn = true →
      s'.phase p ≠ .idle ∧ ToCome s' p u'.cname ∧ (s'.inbox p = [] ∨
        ∃ u, s.users.get? p = some u ∧ u.loggedIn = true ∧ s'.inbox p = s.inbox p))
    (hcalls : ∀ u' φ m, s'.users.get? p = some u' → s'.phase p = .announcing →
      s'.bus.callers p = some (φ, m) → noticeOf m.msg = some (.added u'.cname)) : Agreed s' := by
  have hheld : ∀ name, Held s name → Held s' name := by
    refine fun name => Held.of_entries fun q v hv hholds' => ?_
    by_cases hqp : q = p
    · subst hqp
      exact hholds v hv hholds'
    · exact ⟨v, (husers q hqp).trans hv, rfl, hholds'.congr (hphase q hqp)⟩
  refine ⟨hseated, hbus ▸ hinv.clean, ?_, ?_, ?_⟩
  · intro q u φ m hu hann hcall
    by_cases hqp : q = p
    · subst hqp
      exact hcalls u φ m hu hann hcall
    · rw [husers q hqp] at hu
      rw [hphase q hqp] at hann
      exact hinv.calls q u φ m hu hann (hbus ▸ hcall)
  · intro q u name hu hin hname
    by_cases hqp : q = p
    · subst hqp
      obtain ⟨-, -, hnil | ⟨u₀, hu₀, hin₀, hsame⟩⟩ := hself u hu hin
      · rw [hnil] at hname
        cases hname
      · exact hheld name (hinv.sound q u₀ name hu₀ hin₀ (hsame ▸ hname))
    · rw [husers q hqp] at hu
      rw [hinbox q hqp] at hname
      exact hheld name (hinv.sound q u name hu hin hname)
  · intro q u r v hu hin hidle hv hvin hqr
    have hqp : q ≠ p := by
      rintro rfl
      exact (hself u hu hin).1 hidle
    rw [husers q hqp] at hu
    rw [hphase q hqp] at hidle
    rw [hinbox q hqp]
    by_cases hrp : r = p
    · subst hrp
      exact .inr (hself v hv hvin).2.1
    · rw [husers r hrp] at hv
      exact (hinv.complete q u r v hu hin hidle hv hvin hqr).imp id
        (ToCome.congr (hphase r hrp) hbus)

/-- `broadcast_message` for a login begins. -/
theorem agreed_announce (hinv : Agreed s) {now : UInt64} {bus : Broadcast UserPtr QueueMessage}
    {o : BroadcastOut QueueMessage} (hu : s.users.get? p = some u) (hphase : s.phase p = .written)
    (hbus : broadcastStep s.bus (.getattr p ⟨none, (loginNotice now u).msg⟩) = some (bus, o))
    (hseated : Seated { s with bus, phase := Function.update s.phase p .announcing }) :
    Agreed { s with bus, phase := Function.update s.phase p .announcing } := by
  obtain ⟨rfl, hcaller⟩ := broadcastStep_getattr hbus
  have hnotice := (hinv.seated.stored hu).noticeOf_added now true
  have hin : u.loggedIn = true := by
    have hseat := hinv.seated.placed hu
    rwa [hphase] at hseat
  -- First `mq_getattr`, then the thread moves on: its call is on the way now.
  have hinv' : Agreed { s with bus, inbox := deliverTo s .quiet } := by
    refine agreed_bus hinv hbus ?_ trivial ⟨hinv.seated.sockUnique, hinv.seated.seat⟩
    rintro c m ⟨⟩
    exact ⟨by rw [hphase]; simp, rfl, fun k => by simp [loginNotice, hnotice]⟩
  refine hinv'.move (p := p) hseated rfl (fun _ _ => rfl)
    (fun q hqp => Function.update_of_ne hqp _ _) (fun _ _ => rfl) (fun v hv _ => ?_)
    (fun u' hu' _ => ⟨?_, ?_, .inr ⟨u, hu, hin, rfl⟩⟩) (fun u' φ m hu' _ hcall => ?_)
  · rw [show s.users.get? p = some v from hv, Option.some.injEq] at hu
    exact ⟨v, hv, rfl, .inl (hu ▸ hin)⟩
  · simp
  · exact .inr (.inl ⟨Function.update_self .., by rw [hcaller]; rfl⟩)
  · rw [show s.users.get? p = some u' from hu', Option.some.injEq] at hu
    dsimp only at hcall
    rw [hcaller, Option.some.injEq, Prod.mk.injEq] at hcall
    rw [← hcall.2, hu]
    exact hnotice

/-- The newcomer is told about everybody who is logged in. -/
theorem agreed_snapshot (hinv : Agreed s) {now : UInt64} (hphase : s.phase p = .announcing)
    (hcall : s.bus.callers p = none)
    (hseated : Seated { s with
      phase := Function.update s.phase p .idle
      inbox := Function.update s.inbox p
        (s.inbox p ++ (snapshot now s.users p).map (·.msg)) }) :
    Agreed { s with
      phase := Function.update s.phase p .idle
      inbox := Function.update s.inbox p
        (s.inbox p ++ (snapshot now s.users p).map (·.msg)) } := by
  have hheld : ∀ {name}, Held s name → Held { s with
      phase := Function.update s.phase p .idle
      inbox := Function.update s.inbox p
        (s.inbox p ++ (snapshot now s.users p).map (·.msg)) } name := by
    refine Held.of_entries (s := s) fun q v hv hholds => ⟨v, hv, rfl, ?_⟩
    by_cases hqp : q = p
    · exact .inl (hholds.loggedIn (by rw [hqp, hphase]; simp))
    · exact hholds.congr (Function.update_of_ne hqp _ _)
  refine ⟨hseated, hinv.clean, ?_, ?_, ?_⟩ <;> dsimp only
  · intro q u φ m hu hann hcall
    by_cases hqp : q = p
    · rw [hqp, Function.update_self] at hann
      cases hann
    · rw [Function.update_of_ne hqp] at hann
      exact hinv.calls q u φ m hu hann hcall
  · intro q u name hu hin hname
    by_cases hqp : q = p
    · rw [hqp, Function.update_self, mem_rosterOf_snapshot fun _ _ => hinv.seated.stored] at hname
      rcases hname with ⟨r, v, hv, hvin, -, hvname⟩ | hname
      · exact held_iff.mpr ⟨r, v, hv, hvname, .inl hvin⟩
      · exact hheld (hinv.sound p u name (hqp ▸ hu) hin hname)
    · rw [Function.update_of_ne hqp] at hname
      exact hheld (hinv.sound q u name hu hin hname)
  · intro q u r v hu hin hidle hv hvin hqr
    by_cases hqp : q = p
    · rw [hqp, Function.update_self, mem_rosterOf_snapshot fun _ _ => hinv.seated.stored]
      exact .inl (.inl ⟨r, v, hv, hvin, hqp ▸ hqr.symm, rfl⟩)
    · rw [Function.update_of_ne hqp] at hidle ⊢
      -- `p` itself moves on to idle, and its `UserAdd` is in the queue by now, or further.
      refine (hinv.complete q u r v hu hin hidle hv hvin hqr).imp id fun hcome => ?_
      by_cases hrp : r = p
      · rcases hcome with hwritten | ⟨-, hsome⟩ | hway
        · rw [hrp, hphase] at hwritten
          cases hwritten
        · rw [hrp, hcall] at hsome
          cases hsome
        · exact .inr (.inr hway)
      · exact hcome.congr (Function.update_of_ne hrp _ _) rfl

/-- The `UserRemove` takes one name from every roster. -/
theorem agreed_notify (hinv : Agreed s) {reason : ClientDisconnectCode} {now : UInt64}
    (hu : s.users.get? p = some u) (hphase : s.phase p = .loggedOut)
    (hlate : ∀ q v, s.users.get? q = some v → v.loggedIn = true → v.cname = u.cname →
      ToCome s q v.cname)
    (hseated : Seated { s with
      phase := Function.update s.phase p .notified
      inbox := Chat.sendAll s.inbox s.users (fun q v => v.loggedIn && q ≠ p)
        (teardownNotice now .zero reason u).msg }) :
    Agreed { s with
      phase := Function.update s.phase p .notified
      inbox := Chat.sendAll s.inbox s.users (fun q v => v.loggedIn && q ≠ p)
        (teardownNotice now .zero reason u).msg } := by
  have hout : u.loggedIn = false := by
    have hseat := hinv.seated.placed hu
    rwa [hphase] at hseat
  have hne : ∀ {q v}, s.users.get? q = some v → v.loggedIn = true → q ≠ p := by
    intro q v hv hin
    refine Table.ne_of_get? hv hu fun hvu => ?_
    rw [hvu, hout] at hin
    cases hin
  have hnotice := (hinv.seated.stored hu).noticeOf_teardown now .zero reason
  have hroster : ∀ {q v name}, s.users.get? q = some v → v.loggedIn = true →
      (name ∈ rosterOf (Chat.sendAll s.inbox s.users (fun q v => v.loggedIn && q ≠ p)
        (teardownNotice now .zero reason u).msg q) ↔
          name ≠ u.cname ∧ name ∈ rosterOf (s.inbox q)) := by
    intro q v name hv hin
    rw [Chat.sendAll_of_get? hv, if_pos (by simp [hin, hne hv hin]), mem_rosterOf_removed hnotice]
  refine ⟨hseated, hinv.clean, ?_, ?_, ?_⟩ <;> dsimp only
  · intro q v φ m hv hann hcall
    by_cases hqp : q = p
    · rw [hqp, Function.update_self] at hann
      cases hann
    · rw [Function.update_of_ne hqp] at hann
      exact hinv.calls q v φ m hv hann hcall
  · intro q v name hv hin hname
    obtain ⟨hother, hname⟩ := (hroster hv hin).mp hname
    obtain ⟨r, w, hw, hwname, hholds⟩ := held_iff.mp (hinv.sound q v name hv hin hname)
    have hrp : r ≠ p := Table.ne_of_get? hw hu fun hwu => hother (by rw [← hwname, hwu])
    exact held_iff.mpr ⟨r, w, hw, hwname, hholds.congr (Function.update_of_ne hrp _ _)⟩
  · intro q v r w hv hin hidle hw hwin hqr
    rw [Function.update_of_ne (hne hv hin)] at hidle
    rw [hroster hv hin]
    -- A name like the departed one is still to come; any other stays in the roster.
    have hstill : ToCome s r w.cname → ToCome { s with
        phase := Function.update s.phase p .notified
        inbox := Chat.sendAll s.inbox s.users (fun q v => v.loggedIn && q ≠ p)
          (teardownNotice now .zero reason u).msg } r w.cname :=
      ToCome.congr (Function.update_of_ne (hne hw hwin) _ _) rfl
    by_cases hsame : w.cname = u.cname
    · exact .inr (hstill (hlate r w hw hwin hsame))
    · exact (hinv.complete q v r w hv hin hidle hw hwin hqr).imp (⟨hsame, ·⟩) hstill

theorem agreed_step {h : History ChatAct Unit} {act : ChatAct} (hinv : Agreed s)
    (hg : orderly h s act) (hstep : ChatStep s act s') : Agreed s' := by
  have hfirst : firstLogins h s act := by
    cases act with
    | scan => exact hg
    | _ => trivial
  have hseated := seated_step hinv.seated hfirst hstep
  cases hstep with
  | @connect p thread sock hp hnone =>
      have hvacant := Table.get?_eq_none_iff.mpr hp
      have hidle : s.phase p = .idle := (seatedIn_of_none hvacant).mp (hinv.seated.seat p)
      refine hinv.move (p := p) hseated rfl (fun q hqp => ?_) (fun _ _ => rfl)
        (fun q hqp => Function.update_of_ne hqp _ _) (fun v hv => ?_) (fun u' hu' hin => ?_)
        (fun _ _ _ _ hann => ?_)
      · rw [Table.get?_append, if_neg hqp]
      · rw [hvacant] at hv
        cases hv
      · rw [Table.get?_append, if_pos rfl] at hu'
        cases hu'
        cases hin
      · rw [hidle] at hann
        cases hann
  | rejected => exact hinv
  | @scan p u f env hu hidle hacc =>
      refine hinv.move (p := p) hseated rfl (fun _ _ => rfl)
        (fun q hqp => Function.update_of_ne hqp _ _) (fun _ _ => rfl)
        (fun v hv hholds => ⟨v, hv, rfl, .inl (hholds.loggedIn (by rw [hidle.1]; simp))⟩)
        (fun u' hu' hin => ?_) (fun _ _ _ _ hann => ?_)
      · rw [(hfirst hacc).2 u' hu'] at hin
        cases hin
      · simp at hann
  | @write p name size hphase =>
      obtain ⟨u, hu⟩ := hinv.seated.exists_entry (q := p) (by rw [hphase]; simp)
      have hseat := hinv.seated.placed hu
      rw [hphase] at hseat
      refine hinv.move (p := p) hseated rfl (fun q hqp => Table.get?_modify_of_ne hqp _)
        (fun q hqp => Function.update_of_ne hqp _ _) (fun _ _ => rfl) (fun v hv hholds => ?_)
        (fun u' hu' hin => ⟨?_, .inl (Function.update_self ..), .inl hseat.1.unsent⟩)
        (fun _ _ _ _ hann => ?_)
      · have hin := hholds.loggedIn (by rw [hphase]; simp)
        rw [hu, Option.some.injEq] at hv
        rw [← hv, hseat.1.offline] at hin
        cases hin
      · simp
      · simp at hann
  | announce hu hphase hbus => exact agreed_announce hinv hu hphase hbus hseated
  | snapshot hphase hcall => exact agreed_snapshot hinv hphase hcall hseated
  | @say p u f now bus o hu hidle hcode hbus =>
      obtain ⟨rfl, -⟩ := broadcastStep_getattr hbus
      refine agreed_bus hinv hbus ?_ trivial hseated
      rintro c m ⟨⟩
      exact ⟨by rw [hidle.1]; simp, rfl, fun k => by rw [noticeOf_serverToClient]; simp⟩
  | @bus a bus o hget hbus =>
      exact agreed_bus hinv hbus (fun c m ha => absurd ha (hget c m)) hg hseated
  | @logout p u hu hidle =>
      refine hinv.move (p := p) hseated rfl (fun q hqp => Table.get?_modify_of_ne hqp _)
        (fun q hqp => Function.update_of_ne hqp _ _) (fun _ _ => rfl) (fun v hv hholds => ?_)
        (fun u' hu' hin => ?_) (fun _ _ _ _ hann => ?_)
      · have hin := hholds.loggedIn (by rw [hidle.1]; simp)
        exact ⟨v.logout, by simp [hv], rfl,
          .inr ⟨Function.update_self .., (hinv.seated.stored hv).pos hin⟩⟩
      · rw [Table.get?_modify_self, hu] at hu'
        cases hu'
        cases hin
      · simp at hann
  | @notify p u reason now hu hphase =>
      by_cases hnamed : u.nameLength ≠ 0
      · simp only [if_pos hnamed] at hseated ⊢
        exact agreed_notify hinv hu hphase (fun q v hv hin hname =>
          hg u hu hnamed (q, v) (Table.get?_eq_some_iff.mp hv) hin hname) hseated
      · simp only [if_neg hnamed] at hseated ⊢
        have hseat := hinv.seated.placed hu
        rw [hphase] at hseat
        refine hinv.move (p := p) hseated rfl (fun _ _ => rfl)
          (fun q hqp => Function.update_of_ne hqp _ _) (fun _ _ => rfl) (fun v hv hholds => ?_)
          (fun u' hu' hin => ?_) (fun _ _ _ _ hann => ?_)
        · rw [hu, Option.some.injEq] at hv
          rw [← hv] at hholds
          rcases hholds with hin | ⟨-, hlen⟩
          · rw [hseat] at hin
            cases hin
          · exact absurd hlen hnamed
        · rw [show s.users.get? p = some u' from hu', Option.some.injEq] at hu
          rw [hu, hseat] at hin
          cases hin
        · simp at hann
  | @remove p u hu hphase =>
      have hseat := hinv.seated.placed hu
      rw [hphase] at hseat
      have hrm := congrArg Prod.snd (UserList.removeUser_of_sockUnique hinv.seated.sockUnique hu)
      refine hinv.move (p := p) hseated rfl (fun q hqp => ?_)
        (fun q hqp => Function.update_of_ne hqp _ _) (fun _ _ => rfl) (fun v hv hholds => ?_)
        (fun u' hu' hin => ?_) (fun _ _ _ _ hann => ?_)
      · simp only [hrm, Table.get?_erase, if_neg hqp]
      · have hin := hholds.loggedIn (by rw [hphase]; simp)
        rw [hu, Option.some.injEq] at hv
        rw [← hv, hseat] at hin
        cases hin
      · simp only [hrm, Table.get?_erase, if_true] at hu'
        cases hu'
      · simp at hann

theorem agreed_init : Agreed Chat.init := by
  refine ⟨seated_init, ?_, ?_, ?_, ?_⟩
  · rintro m (hm | hm | ⟨c, φ, hm⟩)
    · cases hm
    · cases hm
    · cases hm
  · intro p u φ m hu
    simp [Chat.init] at hu
  · intro p u name hu
    simp [Chat.init] at hu
  · intro p u q v hu
    simp [Chat.init] at hu

theorem mem_loggedInNames {l : UserList} : name ∈ loggedInNames l ↔
    ∃ q v, l.get? q = some v ∧ v.loggedIn = true ∧ v.cname = name := by
  simp only [loggedInNames, List.mem_toFinset, List.mem_map, Prod.exists,
    UserList.mem_loggedInUsers, and_assoc]

/-- **Roster agreement.** In every orderly run, whenever nothing is on its way, the roster of
every logged-in client is the set of the logged-in names, its own name aside. -/
theorem roster_agreement {h : History ChatAct Unit} {s : Chat}
    (hrun : Run chatMachine orderly h s) (hquiet : Quiescent s) {p : UserPtr} {u : User}
    (hu : s.users.get? p = some u) (hin : u.loggedIn = true) :
    (rosterOf (s.inbox p)).erase u.cname = (loggedInNames s.users).erase u.cname := by
  have hinv : Agreed s := hrun.invariant (I := fun _ => Agreed) agreed_init
    fun _ _ _ _ _ hinv hg hstep => agreed_step hinv hg (chatStep_inv hstep)
  have hidle : ∀ {q v}, s.users.get? q = some v → s.phase q = .idle :=
    fun hv => hquiet.idle _ (Table.mem_keys_iff.mpr ⟨_, hv⟩)
  ext name
  rw [Finset.mem_erase, Finset.mem_erase, mem_loggedInNames]
  refine and_congr_right fun hother => ⟨fun hname => ?_, ?_⟩
  · obtain ⟨q, v, hv, hvname, hholds⟩ := held_iff.mp (hinv.sound p u name hu hin hname)
    exact ⟨q, v, hv, hholds.loggedIn (by rw [hidle hv]; simp), hvname⟩
  · rintro ⟨q, v, hv, hvin, rfl⟩
    have hpq : p ≠ q := Table.ne_of_get? hu hv fun huv => hother (by rw [huv])
    refine (hinv.complete p u q v hu hin (hidle hu) hv hvin hpq).resolve_right ?_
    rintro (hwritten | ⟨hann, -⟩ | ⟨m, hm, -⟩)
    · rw [hidle hv] at hwritten
      cases hwritten
    · rw [hidle hv] at hann
      cases hann
    · rw [hquiet.hand, hquiet.queue] at hm
      cases hm

/-- Two clients log in, and the second is announced to the first. -/
theorem roster_agreement_two :
    ∃ h s u, Run chatMachine orderly h s ∧ Quiescent s ∧ s.users.get? 1 = some u ∧
      u.loggedIn = true ∧ loggedInNames s.users = {lit "bob", lit "eve"} ∧
      (rosterOf (s.inbox 1)).erase u.cname = (loggedInNames s.users).erase u.cname := by
  obtain ⟨h, s, hrun, hP⟩ := Run.exists_of_replay (M := chatMachine) (G := orderly)
    [.connect 1 1 5, .scan 1 (.login 8 (lit "bob")) ⟨1, 0, [], []⟩, .write 1, .announce 1 0,
      .bus (.test 1), .bus (.send 1), .snapshot 1 0, .connect 2 2 6,
      .scan 2 (.login 8 (lit "eve")) ⟨2, 0, [], []⟩, .write 2, .announce 2 0, .bus (.test 2),
      .bus .receive, .bus .wait, .bus (.send 2), .snapshot 2 0, .bus .deliver, .bus .post,
      .bus .receive, .bus .wait, .bus .deliver]
    (fun _ s => decide (Quiescent s) && (s.users.get? 1).any (·.loggedIn) &&
      decide (loggedInNames s.users = {lit "bob", lit "eve"})) (by decide +kernel)
  rw [Bool.and_eq_true, Bool.and_eq_true, decide_eq_true_eq, decide_eq_true_eq,
    Option.any_eq_true] at hP
  obtain ⟨⟨hquiet, u, hu, hin⟩, hnames⟩ := hP
  exact ⟨h, s, u, hrun, hquiet, hu, hin, hnames, roster_agreement hrun hquiet hu hin⟩

/-- A client leaves before the agent delivers its `UserAdd`: it stays in the other's roster. -/
theorem roster_keeps_departed :
    ∃ h s u, Run chatMachine anyStep h s ∧ Quiescent s ∧ s.users.get? 1 = some u ∧
      u.loggedIn = true ∧
      (rosterOf (s.inbox 1)).erase u.cname ≠ (loggedInNames s.users).erase u.cname := by
  obtain ⟨h, s, hrun, hP⟩ := Run.exists_of_replay (M := chatMachine) (G := anyStep)
    [.connect 1 1 5, .scan 1 (.login 8 (lit "bob")) ⟨1, 0, [], []⟩, .write 1, .announce 1 0,
      .bus (.test 1), .bus (.send 1), .snapshot 1 0, .bus .receive, .bus .wait, .bus .deliver,
      .bus .post, .connect 2 2 6, .scan 2 (.login 8 (lit "eve")) ⟨2, 0, [], []⟩, .write 2,
      .announce 2 0, .bus (.test 2), .bus (.send 2), .snapshot 2 0, .logout 2,
      .notify 2 .connectionClosedByClient 0, .remove 2, .bus .receive, .bus .wait, .bus .deliver]
    (fun _ s => decide (Quiescent s) && (s.users.get? 1).any fun u => u.loggedIn &&
      decide ((rosterOf (s.inbox 1)).erase u.cname ≠ (loggedInNames s.users).erase u.cname))
    (by decide +kernel)
  rw [Bool.and_eq_true, decide_eq_true_eq, Option.any_eq_true] at hP
  obtain ⟨hquiet, u, hu, hlast⟩ := hP
  rw [Bool.and_eq_true, decide_eq_true_eq] at hlast
  exact ⟨h, s, u, hrun, hquiet, hu, hlast.1, hlast.2⟩

end LinuxChat
